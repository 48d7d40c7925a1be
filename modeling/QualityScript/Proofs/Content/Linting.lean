import QualityScript.Proofs.Syntax.Composing
import QualityScript.Proofs.Evaluation.BareBlocks
import QualityScript.Proofs.Evaluation.Readings
import QualityScript.Proofs.Evaluation.Tried

/-!
# What a clean report says

A library is linted by trying each of its scripts once, without states. Where the report is clean and
all scripts are straight, no script meets a fault in play, whatever is held and whatever is drawn. A
script that is not straight can: the first run passes by what is wrong.
-/

namespace QualityScript

open Quality Content Text Randomness Engine

/-- No block begins in a text that is held. -/
structure Snapshot.IsUnbraced (states : Snapshot) : Prop where
  player : ∀ id s, states.player.get? id = some s → s.holding.IsUnbraced
  world : ∀ world ∈ states.world, ∀ id s, world.get? id = some s → s.holding.IsUnbraced

theorem Evaluation.map_map {α β γ : Type} (e : Evaluation α) (f : α → β) (g : β → γ) :
    (e.map f).map g = e.map fun a => g (f a) := by
  obtain ⟨_ | _, _⟩ := e <;> rfl

namespace Lint

/-! ## Clean reports -/

theorem severity?_ne_of_messages {severity : Severity} {findings : List Finding}
    (h : messages severity findings = []) {f : Finding} (hf : f ∈ findings) :
    f.fault.severity? ≠ some severity := by
  intro hseverity
  have hmem : f.message ∈ messages severity findings :=
    List.mem_map_of_mem (List.mem_filter.mpr ⟨hf, by simp [hseverity]⟩)
  rw [h] at hmem
  cases hmem

theorem exists_of_isClean {fuel : Nat} {library : Library} {report : Report}
    (h : check fuel library = .ok report) (hclean : report.isClean) :
    ∃ findings, tryAll (engine library) fuel (.seeded 0) (scripts library) = .ok findings ∧
      ∀ f ∈ findings, f.fault.severity? = none := by
  obtain ⟨findings, hfindings, rfl⟩ := exists_of_map_eq_ok h
  refine ⟨findings, hfindings, fun f hf => ?_⟩
  simp only [Report.isClean, Bool.and_eq_true, List.isEmpty_iff] at hclean
  have herror := severity?_ne_of_messages hclean.1 hf
  have hwarning := severity?_ne_of_messages hclean.2 hf
  cases hseverity : f.fault.severity? with
  | none => rfl
  | some severity => cases severity <;> contradiction

theorem kind_of_severity? {d : Diagnostic} (h : (Fault.reported d).severity? = none) :
    d.kind = .unbalancedBraces := by
  cases hkind : d.kind <;> simp [Fault.severity?, hkind] at h ⊢

/-- Every script was tried to its end, and what it reported was found. -/
theorem exists_of_tryAll {engine : Engine} {fuel : Nat} {source : Source} {scripts : List Script}
    {findings : List Finding} (h : tryAll engine fuel source scripts = .ok findings)
    {script : Script} (hscript : script ∈ scripts) :
    ∃ source fits, (script.evaluate engine fuel noStates source).result = .ok fits ∧
      ∀ d ∈ (script.evaluate engine fuel noStates source).diagnostics,
        ⟨script, .reported d⟩ ∈ findings := by
  induction scripts generalizing source findings with
  | nil => cases hscript
  | cons first rest ih =>
    simp only [tryAll] at h
    split at h
    · cases h
    next fits hfits =>
    obtain ⟨later, hlater, rfl⟩ := exists_of_map_eq_ok h
    rcases List.mem_cons.mp hscript with rfl | hscript
    · refine ⟨source, fits, hfits, fun d hd => List.mem_append_left _ (List.mem_map_of_mem ?_)⟩
      exact List.mem_append_right _ (List.mem_map_of_mem hd)
    · obtain ⟨source', fits', hresult, hreported⟩ := ih hlater hscript
      exact ⟨source', fits', hresult, fun d hd => List.mem_append_right _ (hreported d hd)⟩

/-- Under a clean report every script was tried without a word, but for braces. -/
theorem silent_of_isClean {fuel : Nat} {library : Library} {report : Report}
    (h : check fuel library = .ok report) (hclean : report.isClean) {script : Script}
    (hscript : script ∈ scripts library) :
    ∃ source fits, (script.evaluate (engine library) fuel noStates source).result = .ok fits ∧
      (script.evaluate (engine library) fuel noStates source).memory.Silent := by
  obtain ⟨findings, hfindings, hnone⟩ := exists_of_isClean h hclean
  obtain ⟨source, fits, hresult, hreported⟩ := exists_of_tryAll hfindings hscript
  exact ⟨source, fits, hresult, fun d hd => kind_of_severity? (hnone _ (hreported d hd))⟩

/-! ## Scripts as tasks -/

/-- What an evaluator is asked for by a script. A blank condition asks for nothing, and a challenge is
not evaluated as a script. -/
def Script.task? (script : Script) : Option Task :=
  match script.use with
  | .text => some (.expand false script.source)
  | .condition =>
    if (trimmed (blockContent script.source)).isEmpty then none
    else some (.content .standalone (blockContent script.source))
  | .effect =>
    match Template.blockContent? script.source with
    | some content => some (.content .standalone content)
    | none => some (.expand false script.source)
  | .challenge => none

variable {script : Script} {t : Task}

def Script.call (script : Script) (t : Task) (engine : Engine) (fuel : Nat) (states : Snapshot)
    (source : Source) : Evaluation t.Result :=
  engine.run fuel states ⟨script.owner.self, 0, some source⟩ fun _ self frame => self.run t frame

theorem Script.evaluate_of_task? (ht : script.task? = some t) (engine : Engine) (fuel : Nat)
    (states : Snapshot) (source : Source) :
    script.evaluate engine fuel states source =
      (script.call t engine fuel states source).map fun _ => true := by
  cases huse : script.use with
  | challenge => simp [task?, huse] at ht
  | text =>
    obtain rfl : .expand false script.source = t := by simpa [task?, huse] using ht
    simp only [evaluate, huse]
    rfl
  | condition =>
    by_cases hblank : (trimmed (blockContent script.source)).isEmpty
    · simp [task?, huse, hblank] at ht
    obtain rfl : .content .standalone (blockContent script.source) = t := by
      simpa [task?, huse, hblank] using ht
    simp only [evaluate, huse, evaluateCondition, Engine.check, hblank, Bool.false_eq_true, if_false]
    rw [run_map (fun _ self frame => self.content .standalone _ frame)
      fun o => o.value.isTruthy, Evaluation.map_map]
    rfl
  | effect =>
    simp only [evaluate, huse, evaluateBlock]
    cases hcontent : Template.blockContent? script.source with
    | some content =>
      obtain rfl : .content .standalone content = t := by simpa [task?, huse, hcontent] using ht
      rw [run_map (fun _ self frame => self.content .standalone content frame) Outcome.value,
        Evaluation.map_map]
      rfl
    | none =>
      obtain rfl : .expand false script.source = t := by simpa [task?, huse, hcontent] using ht
      rw [run_map (fun _ self frame => self.expand false script.source frame) Value.text,
        Evaluation.map_map]
      rfl

theorem Script.diagnostics_of_task? (ht : script.task? = none) (huse : script.use ≠ .challenge)
    (engine : Engine) (fuel : Nat) (states : Snapshot) (source : Source) :
    (script.evaluate engine fuel states source).diagnostics = [] := by
  cases hcase : script.use with
  | challenge => exact absurd hcase huse
  | text => simp [task?, hcase] at ht
  | condition =>
    have hblank : (trimmed (blockContent script.source)).isEmpty := by
      simpa [task?, hcase] using ht
    simp only [evaluate, hcase, evaluateCondition, Engine.check, hblank, if_true]
    rfl
  | effect =>
    simp only [task?, hcase] at ht
    split at ht <;> cases ht

/-! ## Straight libraries -/

/-- All texts, requirements and effects are straight, and no block begins in an id. -/
structure AllStraight (library : Library) : Prop where
  ids : ∀ d ∈ library.qualities, hasBrace d.id = false
  scripts : ∀ script ∈ scripts library, ∀ t ∈ script.task?,
    IsStraight library.registry .always (script.owner.self.map (·.id)) t

theorem mem_of_mem_joined {first second : Template} {content : String}
    (h : .block content ∈ first.joined second) :
    .block content ∈ first ∨ .block content ∈ second := by
  fun_induction Template.joined first second with
  | case1 a b rest => simpa using h
  | case2 other => exact .inr h
  | case3 segment segments other _ ih =>
    rcases List.mem_cons.mp h with rfl | h
    · exact .inl (.head _)
    · exact (ih h).imp_left (.tail _)

/-- With a letter behind it a straight template is straight. -/
theorem isStraight_pluralOf {registry : Registry} {bound : Option String} {name : String}
    (h : IsStraight registry .always bound (.expand false name)) :
    IsStraight registry .always bound (.expand false (Reference.pluralOf name)) := by
  cases h with
  | plain hname =>
    refine .plain ?_
    rw [Reference.pluralOf, hasBrace_append, hname]
    decide
  | template herrors hblocks =>
    have hcuts : Cuts [] name.toList (scan false name).1 := cuts_of_scanFrom herrors
    have hs : Cuts [] "s".toList (literalPart ['s']) := .plain (by decide) (by decide) .nil
    have hboth : Cuts [] (Reference.pluralOf name).toList
        ((scan false name).1.joined (literalPart ['s'])) := by
      rw [Reference.pluralOf, String.toList_append]
      exact hcuts.append hs fun rest _ => hs.keepsEnd (by simp [isQuote]) rest
    have hscan : scan false (Reference.pluralOf name) =
        ((scan false name).1.joined (literalPart ['s']), []) := hboth.scanFrom_eq 0 none
    refine .template (by rw [hscan]) fun content hcontent => ?_
    rw [hscan] at hcontent
    refine hblocks content ((mem_of_mem_joined hcontent).resolve_right ?_)
    simp [literalPart]

theorem AllStraight.shown {library : Library} (h : AllStraight library) {id : String}
    {d : Definition} (hd : library.registry.quality? id = some d) {property : Property}
    {text : String} (htext : d.shown? property = some text) :
    IsStraight library.registry .always (some id) (.expand false text) := by
  obtain ⟨hmem, rfl⟩ := Table.get?_eq_some_iff.mp hd
  have hscript (field : String) {source : String}
      (hmem' : ⟨.quality d.id, field, source, .text⟩ ∈ ofDefinition d) :
      IsStraight library.registry .always (some d.id) (.expand false source) :=
    h.scripts ⟨.quality d.id, field, source, .text⟩
      (List.mem_append_left _ (List.mem_flatMap.mpr ⟨d, hmem, hmem'⟩)) _ rfl
  cases property with
  | name =>
    cases htext
    exact hscript "name" (by simp [ofDefinition])
  | description =>
    cases htext
    exact hscript "description" (by simp [ofDefinition])
  | plural =>
    cases htext
    cases hplural : d.plural with
    | some plural => exact hscript "plural" (by simp [ofDefinition, hplural])
    | none => exact isStraight_pluralOf (hscript "name" (by simp [ofDefinition]))
  | variant key =>
    have hvariant : (key, text) ∈ d.variants.entries := by
      obtain ⟨front, back, heq, -⟩ := List.lookup_eq_some_iff.mp htext
      simp [heq]
    exact hscript key (by simp [ofDefinition, hvariant])
  | value | level | changePoints | kind | capital => cases htext

/-! ## Trying and playing -/

section

variable {library : Library} (h : AllStraight library) {states : Snapshot}
  (hstates : states.IsUnbraced) (tried played : Nat)

/-- The run of the linter and a run in play. -/
def company : Company Side where
  registry := library.registry
  config := (engine library).config
  env := Side.pick ((engine library).env tried noStates) ((engine library).env played states)
  held := Side.pick (fun _ => False) fun s => s.holding.IsUnbraced
  registry_env i := by cases i <;> rfl
  config_env i := by cases i <;> rfl
  margin := trivial
  members _ d hd := Table.get?_eq_some_iff.mpr ⟨(List.mem_filter.mp hd).1, rfl⟩
  ids _ d hd := h.ids d (List.mem_filter.mp hd).1
  holds i := by
    cases i with
    | tried => exact ⟨fun _ _ hs => (nomatch hs), fun _ _ hs => nomatch hs⟩
    | played =>
      refine ⟨hstates.player, fun id s hs => ?_⟩
      cases hworld : states.world with
      | none => simp [Side.pick, Engine.env, hworld] at hs
      | some world =>
        refine hstates.world world hworld id s ?_
        simpa [Side.pick, Engine.env, hworld] using hs
  unbraced i s hs := by
    cases i with
    | tried => exact hs.elim
    | played => exact hs

theorem tries_company : (company h hstates tried played).Tries where
  bare _ := id
  shown _ _ hd _ _ htext := h.shown hd htext

end

theorem owner_state (owner : Owner) : ∀ binding ∈ owner.self, binding.state = none := by
  cases owner <;> simp [Owner.self]

/-- A task of a straight library that the linter tried without a word meets no fault in play. -/
theorem faultless_of_silent {library : Library} (h : AllStraight library) {states : Snapshot}
    (hstates : states.IsUnbraced) {script : Script} (hscript : script ∈ scripts library) {t : Task}
    (ht : script.task? = some t) {tried played : Nat} {source source' : Source} {value : t.Result}
    (hvalue : (script.call t (engine library) tried noStates source).result = .ok value)
    (hsilent : (script.call t (engine library) tried noStates source).memory.Silent) :
    (script.call t (engine library) played states source').memory.Faultless := by
  have hbinds : (company h hstates tried played).Binds (script.owner.self.map (·.id))
      fun _ => .new 0 script.owner.self := by
    refine ⟨fun i => ⟨rfl, fun binding hbinding s hs => ?_⟩, fun _ _ => rfl⟩
    rw [owner_state script.owner binding hbinding] at hs
    cases hs
  have hmirrors := besides_follows (tries_company h hstates tried played) tried played
    (fun _ : True => h.scripts script hscript t ht) fun _ => hbinds
  have hfresh : (Memory.fresh source).Mirrored (.fresh source') :=
    ⟨rfl, rfl, by simp [Memory.fresh], by simp [Memory.fresh, Memory.Faultless]⟩
  exact (hmirrors.mirrors trivial hfresh (Prod.ext hvalue rfl) hsilent rfl).1

/-- Where the report of a library with straight scripts only is clean, no text, no requirement and no
effect degrades or refers to what is not there: whatever is held, if no block begins in a text that is
held, whatever is drawn, and however the run ends. -/
theorem faultless_of_isClean {library : Library} (h : AllStraight library) {fuel : Nat}
    {report : Report} (hlint : check fuel library = .ok report) (hclean : report.isClean)
    {script : Script} (hscript : script ∈ scripts library) (huse : script.use ≠ .challenge)
    {states : Snapshot} (hstates : states.IsUnbraced) (played : Nat) (source : Source) :
    ∀ d ∈ (script.evaluate (engine library) played states source).diagnostics,
      d.kind ≠ .parseDegrade ∧ d.kind ≠ .unresolvedReference := by
  cases ht : script.task? with
  | none => simp [Script.diagnostics_of_task? ht huse]
  | some t =>
    obtain ⟨source₀, fits, hresult, hsilent⟩ := silent_of_isClean hlint hclean hscript
    rw [Script.evaluate_of_task? ht] at hresult hsilent
    obtain ⟨value, hvalue, -⟩ := exists_of_map_eq_ok hresult
    have hfaultless : (script.call t (engine library) played states source).memory.Faultless :=
      faultless_of_silent h hstates hscript ht hvalue hsilent
    rw [Script.evaluate_of_task? ht]
    exact fun d hd => not_or.mp (hfaultless d hd)

/-! ## A quality with a description -/

def goldLibrary (description : String) : Library :=
  .ofLists [{ Definition.new "gold" with name := "Gold", description, kind := .item }] []

def descriptionScript (description : String) : Script :=
  ⟨.quality "gold", "description", description, .text⟩

def fiveGold : Snapshot := ⟨States.empty.insert (.new "gold" (.item 5)), none⟩

theorem isUnbraced_fiveGold : fiveGold.IsUnbraced := by
  refine ⟨fun id s hs => ?_, fun _ hworld => by cases hworld⟩
  by_cases hid : "gold" = id
  · subst hid
    cases (States.get?_put_self _ _ _).symm.trans hs
    rfl
  · cases (States.get?_put_of_ne _ hid _).symm.trans hs

theorem isStraight_of_parse {registry : Registry} {visit : Visit} {bound : Option String}
    {source : String} {e : Expr} (htrim : trimmed source = source)
    (hbrace : hasBrace source = false) (hparse : Expr.parse source = .ok e)
    (hreads : e.readsAsProse = false) (he : IsStraight registry visit bound (.expr e)) :
    IsStraight registry visit bound (.leaf source) :=
  .expression (by rwa [htrim]) (by rwa [htrim]) hreads he

/-- Every run comes to the condition, and of the two words one is shown. -/
theorem isStraight_rich_or_poor (registry : Registry) (bound : Option String) :
    IsStraight registry .always bound (.expand false "{$gold > 3 : rich | poor}") := by
  have hscan : scan false "{$gold > 3 : rich | poor}" =
      ([.block "$gold > 3 : rich | poor"], []) := by cbv
  refine .template (by rw [hscan]) fun content hcontent => ?_
  rw [hscan, List.mem_singleton] at hcontent
  cases hcontent
  have hshape : Block.classify "$gold > 3 : rich | poor" =
      .conditional [⟨some "$gold > 3", "rich"⟩, ⟨none, "poor"⟩] := by decide +kernel
  have hcondition : IsStraight registry .always bound (.leaf "$gold > 3") := by
    have hparse : Expr.parse "$gold > 3" =
        .ok (.compare .gt (.ref ⟨.player, "gold", .value⟩) (.literal (.int 3))) := by cbv
    refine isStraight_of_parse (by decide +kernel) (by decide) hparse rfl ?_
    refine .uniform trivial (List.forall_mem_cons.mpr ⟨.ref, List.forall_mem_singleton.mpr ?_⟩)
      (fun _ hfound => by cases hfound) (fun _ htext => by cases htext) fun hvisit => by cases hvisit
    exact .literal (fun text htext => by cases htext)
  have hrich : IsStraight registry .sometimes bound (.leaf "rich") := by
    have hparse : Expr.parse "rich" = .ok (.word "rich") := by cbv
    exact isStraight_of_parse (by decide +kernel) (by decide) hparse rfl (.word (by decide))
  have hpoor : IsStraight registry .sometimes bound (.leaf "poor") := by
    have hparse : Expr.parse "poor" = .ok (.word "poor") := by cbv
    exact isStraight_of_parse (by decide +kernel) (by decide) hparse rfl (.word (by decide))
  exact .conditional hshape (fun _ h => Option.mem_some.mp h ▸ hcondition) (by simp) <|
    List.forall_mem_cons.mpr ⟨hrich, List.forall_mem_singleton.mpr hpoor⟩

/-- The report of the linter is clean and the script is straight. In play the branch is taken that the
linter passed by. -/
theorem faultless_of_isClean_of_fiveGold :
    let description := "{$gold > 3 : rich | poor}"
    let library := goldLibrary description
    (check 9 library).toOption = some ⟨[], []⟩ ∧ AllStraight library ∧
      descriptionScript description ∈ scripts library ∧ fiveGold.IsUnbraced ∧
      ((engine library).evaluateText 9 description fiveGold .none).result.toOption = some "rich" ∧
      ∀ d ∈ ((descriptionScript description).evaluate (engine library) 9 fiveGold
        .zeros).diagnostics, d.kind ≠ .parseDegrade ∧ d.kind ≠ .unresolvedReference := by
  intro description library
  have hreport : (check 9 library).toOption = some ⟨[], []⟩ := by decide +kernel
  have hstraight : AllStraight library := by
    have hscripts : scripts library = [⟨.quality "gold", "name", "Gold", .text⟩,
        descriptionScript description, ⟨.quality "gold", "bonus", "", .text⟩] := rfl
    refine ⟨fun d hd => ?_, fun script hscript t ht => ?_⟩
    · cases List.mem_singleton.mp hd
      decide
    · simp only [hscripts, List.mem_cons, List.not_mem_nil, or_false] at hscript
      rcases hscript with rfl | rfl | rfl <;> cases ht
      · exact .plain (by decide)
      · exact isStraight_rich_or_poor _ _
      · exact .plain (by decide)
  refine ⟨hreport, hstraight, .tail _ (.head _), isUnbraced_fiveGold, by decide +kernel, ?_⟩
  exact faultless_of_isClean hstraight (eq_ok_of_toOption hreport) rfl (.tail _ (.head _))
    (by decide) isUnbraced_fiveGold 9 .zeros

/-- The linter tries the script without gold, so it does not come to the reference that is wrong, and
its report is clean. In play it is evaluated and reported. -/
theorem unresolved_of_fiveGold :
    let description := "{$gold > 3 : $ghost | 0}"
    let library := goldLibrary description
    (check 9 library).toOption = some ⟨[], []⟩ ∧
      descriptionScript description ∈ scripts library ∧ fiveGold.IsUnbraced ∧
      ∃ d ∈ ((descriptionScript description).evaluate (engine library) 9 fiveGold
        .zeros).diagnostics, d.kind = .unresolvedReference :=
  ⟨by decide +kernel, .tail _ (.head _), isUnbraced_fiveGold, by decide +kernel⟩

/-- A text that is put into a longer expression can make it look like script. -/
example :
    let library := goldLibrary "{x {$gold}}"
    let states : Snapshot := ⟨States.empty.insert (.new "gold" (.text "$ghost")), none⟩
    (check 9 library).toOption = some ⟨[], []⟩ ∧
      ∃ d ∈ ((descriptionScript "{x {$gold}}").evaluate (engine library) 9 states
        .zeros).diagnostics, d.kind = .parseDegrade := by
  decide +kernel

end Lint

end QualityScript
