import QualityScript.Proofs.Evaluation.Termination
import QualityScript.Proofs.Syntax.Impersonal

/-!
# Texts without blocks

No block begins in a text without an opening brace, so it is never expanded again. Numbers, words and
ids are such texts; what a reference stands for is one too, if the texts that are held are, unless it
is a text that an author wrote to be shown.
-/

namespace QualityScript

open Quality Content Number Text

theorem hasBrace_eq_false_iff {text : String} : hasBrace text = false ↔ '{' ∉ text.toList := by
  simp [hasBrace]

theorem hasBrace_append (a b : String) : hasBrace (a ++ b) = (hasBrace a || hasBrace b) := by
  simp [hasBrace]

theorem hasBrace_intercalate {separator : String} (hseparator : hasBrace separator = false)
    {texts : List String} (h : ∀ text ∈ texts, hasBrace text = false) :
    hasBrace (separator.intercalate texts) = false := by
  induction texts with
  | nil => rfl
  | cons text rest ih =>
    obtain ⟨htext, hrest⟩ := List.forall_mem_cons.mp h
    cases rest with
    | nil => simpa using htext
    | cons next rest =>
      rw [String.intercalate_cons_cons, hasBrace_append, hasBrace_append, htext, hseparator,
        ih hrest]
      rfl

theorem hasBrace_join (separator : Separator) {texts : List String}
    (h : ∀ text ∈ texts, hasBrace text = false) : hasBrace (separator.join texts) = false := by
  cases separator with
  | comma | pipe | newline | space => exact hasBrace_intercalate (by decide) h
  | and =>
    change hasBrace (Separator.joinAnd texts) = false
    unfold Separator.joinAnd
    split
    · rfl
    · next only hreverse => exact h only (List.mem_reverse.mp (by simp [hreverse]))
    · next last init _ hreverse =>
      have hmem (text : String) (hmem : text ∈ last :: init) : hasBrace text = false :=
        h text (List.mem_reverse.mp (hreverse ▸ hmem))
      have hinit : hasBrace (", ".intercalate init.reverse) = false :=
        hasBrace_intercalate (by decide) fun text htext =>
          hmem text (.tail _ (List.mem_reverse.mp htext))
      rw [hasBrace_append, hasBrace_append, hinit, hmem last (.head _)]
      decide

/-! ## Values -/

/-- No block begins in the text of the value. -/
def Value.IsUnbraced (v : Value) : Prop := hasBrace v.display = false

namespace Value

theorem hasBrace_of_isNumeralChar {text : String} (h : ∀ c ∈ text.toList, isNumeralChar c) :
    hasBrace text = false :=
  hasBrace_eq_false_iff.mpr fun hmem => nomatch h _ hmem

@[simp] theorem isUnbraced_text {s : String} : (text s).IsUnbraced ↔ hasBrace s = false := .rfl

@[simp] theorem isUnbraced_empty : empty.IsUnbraced := rfl

@[simp] theorem isUnbraced_bool (b : Bool) : (bool b).IsUnbraced := by cases b <;> rfl

@[simp] theorem isUnbraced_int (n : Int64) : (int n).IsUnbraced :=
  hasBrace_of_isNumeralChar (isNumeralChar_of_mem_wordText n)

@[simp] theorem isUnbraced_float (x : Float) : (float x).IsUnbraced := by
  change hasBrace (floatText x) = false
  unfold floatText
  split
  · exact isUnbraced_int _
  · exact hasBrace_of_isNumeralChar (isNumeralChar_of_mem_plainText x)

@[simp] theorem isUnbraced_ofFloat (x : Float) : (ofFloat x).IsUnbraced := by
  unfold ofFloat
  split
  · split
    · exact isUnbraced_int _
    · exact isUnbraced_float x
  · exact isUnbraced_float x

@[simp] theorem isUnbraced_effect (changes : Effect) : (effect changes).IsUnbraced := rfl

@[simp] theorem isUnbraced_pending (event : PendingEvent) : (pending event).IsUnbraced := rfl

theorem isUnbraced_ids {list : List String} (h : ∀ id ∈ list, hasBrace id = false) :
    (ids list).IsUnbraced := hasBrace_intercalate (by decide) h

end Value

theorem isUnbraced_word {text : String} (h : hasBrace text = false) (frame : Frame) :
    (Eval.word text frame).IsUnbraced := by
  unfold Eval.word
  split
  · split
    · exact Value.isUnbraced_ofFloat _
    · exact h
  · exact h

theorem isUnbraced_sum {lhs rhs : Value} (hlhs : lhs.IsUnbraced) (hrhs : rhs.IsUnbraced) :
    (Eval.sum lhs rhs).IsUnbraced := by
  unfold Eval.sum
  split
  · exact Value.isUnbraced_ofFloat _
  · rw [Value.isUnbraced_text, hasBrace_append, hlhs, hrhs]
    rfl

theorem hasBrace_capitalize {text : String} (h : hasBrace text = false) :
    hasBrace (capitalize text) = false := by
  rw [hasBrace_eq_false_iff] at h ⊢
  rw [capitalize, String.toList_ofList]
  cases htext : text.toList with
  | nil => simp [capitalizeChars]
  | cons c rest =>
    rw [htext, List.mem_cons, not_or] at h
    rw [capitalizeChars, List.mem_append, not_or]
    exact ⟨fun hmem => h.1 (eq_of_mem_upper hmem (by decide) rfl), h.2⟩

/-! ## What is held -/

/-- No block begins in the text that is held, if one is. -/
def Quality.Holding.IsUnbraced (holding : Holding) : Prop := hasBrace holding.textValue = false

namespace Quality.Holding

theorem isUnbraced_empty (kind : Kind) : (empty kind).IsUnbraced := by cases kind <;> rfl

theorem IsUnbraced.ofHolding {holding : Holding} (h : holding.IsUnbraced) :
    (Value.ofHolding holding).IsUnbraced := by
  cases holding with
  | text => exact h
  | _ => exact Value.isUnbraced_int _

end Quality.Holding

/-- All states that the environment reads are so. -/
structure Env.Holds (env : Env) (P : State → Prop) : Prop where
  player : ∀ id s, env.player.get? id = some s → P s
  world : ∀ id s, env.world.get? id = some s → P s

/-- The frame binds this quality, with such a state if with one. -/
structure Frame.Binds (frame : Frame) (P : State → Prop) (bound : Option String) : Prop where
  id : frame.self.map (·.id) = bound
  state : ∀ binding ∈ frame.self, ∀ s ∈ binding.state, P s

/-! ## What references stand for -/

def Reference.owner? (r : Reference) (bound : Option String) : Option String :=
  match r.scope with
  | .self => bound
  | .player | .world => some r.id

/-- What the author wrote to be shown for a property. -/
def Quality.Definition.shown? (d : Definition) : Property → Option String
  | .name => some d.name
  | .description => some d.description
  | .plural => some (d.plural.getD (Reference.pluralOf d.name))
  | .variant key => d.variants.get? key
  | .value | .level | .changePoints | .kind | .capital => none

/-- A value or a template in which no block begins. -/
def Resolution.IsUnbraced : Resolution → Prop
  | .plain value => value.IsUnbraced
  | .template text _ => hasBrace text = false

namespace Reference

variable {env : Env} {frame : Frame} {P : State → Prop} {bound : Option String} {r : Reference}

theorem resolve_of_owner? (hholds : env.Holds P) (hframe : frame.Binds P bound) {id : String}
    (howner : r.owner? bound = some id) :
    ∃ state, (∀ s ∈ state, P s) ∧
      r.resolve env frame = resolveQuality env.registry id state r.property := by
  unfold owner? at howner
  unfold resolve
  cases hscope : r.scope with
  | player =>
    rw [hscope] at howner
    cases howner
    exact ⟨_, fun s => hholds.player r.id s, rfl⟩
  | world =>
    rw [hscope] at howner
    cases howner
    exact ⟨_, fun s => hholds.world r.id s, rfl⟩
  | self =>
    rw [hscope] at howner
    obtain ⟨binding, hself, rfl⟩ := Option.map_eq_some_iff.mp (hframe.id.trans howner)
    refine ⟨(binding.state <|> env.player.get? binding.id), fun s hs => ?_, by simp only [hself]⟩
    cases hstate : binding.state with
    | some s' =>
      rw [hstate] at hs
      cases hs
      exact hframe.state binding hself s hstate
    | none =>
      rw [hstate] at hs
      exact hholds.player binding.id s hs

theorem resolve_of_owner?_eq_none (hframe : frame.Binds P bound) (howner : r.owner? bound = none) :
    r.resolve env frame = ⟨.plain (.int 0), true⟩ := by
  unfold owner? at howner
  unfold resolve
  cases hscope : r.scope with
  | player | world =>
    rw [hscope] at howner
    cases howner
  | self =>
    rw [hscope] at howner
    have hself : frame.self = none := Option.map_eq_none_iff.mp (hframe.id.trans howner)
    simp only [hself]

variable {registry : Registry} {id : String} {state : Option State} {property : Property}
  {d : Definition}

theorem unresolved_of_quality? (hd : registry.quality? id = some d) :
    (resolveQuality registry id state property).unresolved = false := by
  simp [resolveQuality, hd]

theorem unresolved_of_missing (hd : registry.quality? id = none) :
    (resolveQuality registry id none property).unresolved = true := by
  simp [resolveQuality, hd]

theorem resolution_of_shown? (hd : registry.quality? id = some d) {text : String}
    (hshown : d.shown? property = some text) :
    (resolveQuality registry id state property).resolution = .template text ⟨id, state⟩ := by
  simp only [resolveQuality, hd]
  cases property with
  | name | description | plural =>
    cases hshown
    rfl
  | variant key =>
    have hvariant : d.variants.get? key = some text := hshown
    simp only [resolveProperty, Option.bind_some, hvariant]
  | value | level | changePoints | kind | capital => cases hshown

theorem isUnbraced_resolveProperty {holding : Holding} (hholding : holding.IsUnbraced)
    (hshown : d.shown? property = none) (kind : Kind) (owner : SelfBinding) :
    (resolveProperty property holding kind (some d) owner).IsUnbraced := by
  cases property with
  | value =>
    cases holding with
    | text => exact hholding
    | _ => exact Value.isUnbraced_int _
  | level | changePoints => exact Value.isUnbraced_int _
  | kind => cases kind <;> rfl
  | capital => exact hasBrace_capitalize hholding.ofHolding
  | variant key =>
    have hnone : d.variants.get? key = none := hshown
    simp only [resolveProperty, Option.bind_some, hnone]
    exact Value.isUnbraced_empty
  | name | description | plural => cases hshown

/-- Where no text is to be shown, it is what is held that counts. -/
theorem isUnbraced_of_shown? (hd : registry.quality? id = some d)
    (hshown : d.shown? property = none) (hstate : ∀ s ∈ state, s.holding.IsUnbraced) :
    (resolveQuality registry id state property).resolution.IsUnbraced := by
  simp only [resolveQuality, hd]
  refine isUnbraced_resolveProperty ?_ hshown _ _
  cases state with
  | some s => exact hstate s rfl
  | none => exact Holding.isUnbraced_empty _

end Reference

end QualityScript
