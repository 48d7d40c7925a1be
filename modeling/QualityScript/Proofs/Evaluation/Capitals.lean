import QualityScript.Proofs.Evaluation.LoneReferences
import QualityScript.Proofs.Evaluation.Unbraced

/-!
# Values with a capital

`$id` stands for the text of a quality, which is a template, and `$id.capital` for the same text with
a capital first character, which is none. So the two agree up to that character where the text has no
block. A block is expanded in the first and shown as it is in the second.
-/

namespace QualityScript

open Text Quality

theorem hasBrace_capitalize_eq (text : String) : hasBrace (capitalize text) = hasBrace text := by
  cases h : hasBrace text with
  | false => exact hasBrace_capitalize h
  | true =>
    have hmem : '{' ∈ text.toList := by simpa [hasBrace] using h
    have hupper : upper '{' = ['{'] := by decide
    have hcapital : '{' ∈ capitalizeChars text.toList := by
      cases htext : text.toList with
      | nil => simp [htext] at hmem
      | cons c rest =>
        rw [htext] at hmem
        rw [capitalizeChars, List.mem_append]
        obtain rfl | hrest := List.mem_cons.mp hmem
        · exact .inl (by simp [hupper])
        · exact .inr hrest
    simpa [hasBrace, capitalize] using hcapital

namespace Reference

variable {env : Env} {frame : Frame} {scope : Scope} {id : String}

theorem isProperty_capital : IsProperty .capital :=
  @IsProperty.word 'c' ['a', 'p', 'i', 't', 'a', 'l'] rfl (List.all_eq_true.mp rfl)

theorem IsRead.of_property {property property' : Property} (h : IsRead ⟨scope, id, property⟩)
    (hproperty : IsProperty property') : IsRead ⟨scope, id, property'⟩ := by
  cases h with
  | self _ => exact .self hproperty
  | named hscope hid _ => exact .named hscope hid hproperty

theorem resolve_capital_ne_template {text : String} {owner : SelfBinding} :
    ((⟨scope, id, .capital⟩ : Reference).resolve env frame).resolution ≠ .template text owner := by
  unfold resolve
  cases scope with
  | player | world => exact Resolution.noConfusion
  | self =>
    dsimp only
    split <;> exact Resolution.noConfusion

theorem stored_resolveQuality_capital (registry : Content.Registry) (id : String)
    (state : Option State) :
    (resolveQuality registry id state .capital).resolution.stored =
      capitalize (resolveQuality registry id state .value).resolution.stored := by
  unfold resolveQuality resolveProperty
  dsimp only
  generalize (state.map (·.holding)).getD _ = holding
  cases holding <;> rfl

theorem storedText_capital : Eval.storedText env frame ⟨scope, id, .capital⟩ =
    capitalize (Eval.storedText env frame ⟨scope, id, .value⟩) := by
  unfold Eval.storedText resolve
  cases scope with
  | player => exact stored_resolveQuality_capital env.registry id (env.player.get? id)
  | world => exact stored_resolveQuality_capital env.registry id (env.world.get? id)
  | self =>
    cases frame.self with
    | none => exact (by decide : (Value.int 0).display = capitalize (Value.int 0).display)
    | some binding =>
      exact stored_resolveQuality_capital env.registry binding.id
        (binding.state <|> env.player.get? binding.id)

end Reference

namespace Engine

/-- `$id.capital` is always the text of the quality as it is stored, with a capital: its blocks are
not expanded. Where the text has no block, `$id` is the text, and the two agree. Where `$id` is shown
as a text without blocks, they agree exactly if there was none to expand. -/
theorem capital_agrees_iff {scope : Scope} {id : String}
    (hread : Reference.IsRead ⟨scope, id, .value⟩) (engine : Engine) (states : Snapshot)
    (options : CallOptions) {fuel : Nat} (hfuel : 4 ≤ fuel) :
    let value : Reference := ⟨scope, id, .value⟩
    let capital : Reference := ⟨scope, id, .capital⟩
    let stored := engine.storedText states options value
    let shown := (engine.evaluateText fuel value.template states options).result
    let shownCapital := (engine.evaluateText fuel capital.template states options).result
    shownCapital = .ok (capitalize stored) ∧
      (hasBrace stored = false → shown = .ok stored) ∧
      ∀ text, shown = .ok text → hasBrace text = false →
        (shownCapital = .ok (capitalize text) ↔ hasBrace stored = false) := by
  intro value capital stored shown shownCapital
  obtain ⟨fuel, rfl⟩ := Nat.exists_eq_add_of_le' hfuel
  have hcapital : shownCapital = .ok (capitalize stored) := by
    have hplain : shownCapital = .ok (engine.storedText states options capital) :=
      evaluateText_template (hread.of_property Reference.isProperty_capital)
        (fun _ _ htemplate => absurd htemplate Reference.resolve_capital_ne_template) fuel
    rwa [storedText, Reference.storedText_capital] at hplain
  have hvalue (hstored : hasBrace stored = false) : shown = .ok stored := by
    refine evaluateText_template hread (fun text owner htemplate => ?_) fuel
    have hsame : stored = text := congrArg Resolution.stored htemplate
    rwa [hsame] at hstored
  refine ⟨hcapital, hvalue, fun text htext hbrace => ?_⟩
  rw [hcapital, Except.ok.injEq]
  constructor
  · intro hsame
    rw [← hasBrace_capitalize_eq, hsame, hasBrace_capitalize_eq, hbrace]
  · intro hstored
    rw [Except.ok.inj ((hvalue hstored).symm.trans htext)]

/-- A player who wears a hat. -/
def wearing (hat : String) : Snapshot := ⟨States.empty.insert (.new "hat" (.text hat)), none⟩

/-- A text without blocks is shown the same, with a capital and without. -/
theorem capital_agrees_of_word :
    let engine : Engine := ⟨Content.Library.empty.registry, .default, .zeros⟩
    (engine.evaluateText 4 "\x7b$hat\x7d" (wearing "red hat") .none).result = .ok "red hat" ∧
      (engine.evaluateText 4 "\x7b$hat.capital\x7d" (wearing "red hat") .none).result =
        .ok "Red hat" := by
  intro engine
  have hread : Reference.IsRead ⟨.player, "hat", .value⟩ :=
    .named (by decide) ⟨by decide, List.all_eq_true.mp (by decide)⟩ .value
  obtain ⟨hcapital, hvalue, -⟩ :=
    capital_agrees_iff hread engine (wearing "red hat") .none (by decide : 4 ≤ 4)
  have hstored : engine.storedText (wearing "red hat") .none ⟨.player, "hat", .value⟩ = "red hat" :=
    by decide +kernel
  rw [hstored] at hcapital hvalue
  exact ⟨hvalue (by decide), hcapital⟩

/-- A block in the text is shown as it is. -/
theorem capital_shows_raw_block :
    let engine : Engine := ⟨Content.Library.empty.registry, .default, .zeros⟩
    let states := wearing "\x7b'red'\x7d hat"
    (engine.evaluateText 9 "\x7b$hat\x7d" states .none).result.toOption = some "red hat" ∧
      (engine.evaluateText 9 "\x7b$hat.capital\x7d" states .none).result.toOption =
        some "\x7b'red'\x7d hat" ∧
      capitalize "red hat" ≠ "\x7b'red'\x7d hat" := by
  decide +kernel

end Engine

end QualityScript
