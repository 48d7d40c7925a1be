import Mathlib
import QualityScript.Proofs.Number.Order
import QualityScript.Proofs.Evaluation.Splicing

/-!
# The order of values

Two values are compared as numbers if both have one, and as texts otherwise. Either way they stand at
two places of a line, and each operator tells what it says of them. A text that spells no number, such
as `nan`, has a number all the same; compared with a value that has one it is at no place, and not even
equal to itself. Where values of both kinds meet, less-than goes in circles.
-/

namespace QualityScript

open Number

namespace CompareOp

/-- What an operator says of two places in a line. -/
def Holds {α : Type} [LinearOrder α] (a b : α) : CompareOp → Prop
  | gt => b < a
  | lt => a < b
  | ge => b ≤ a
  | le => a ≤ b
  | eq => a = b
  | ne => a ≠ b

section Line

variable {α : Type} [LinearOrder α] (a b : α)

/-- Of two places one is before the other, or they are the same, and never more than one of these. -/
theorem existsUnique_holds : ∃! op, op ∈ [lt, eq, gt] ∧ op.Holds a b := by
  rcases lt_trichotomy a b with h | h | h
  · refine ⟨lt, ⟨by simp, h⟩, ?_⟩
    rintro op ⟨hop, hholds⟩
    fin_cases hop
    · rfl
    · exact absurd hholds h.ne
    · exact absurd hholds h.asymm
  · refine ⟨eq, ⟨by simp, h⟩, ?_⟩
    rintro op ⟨hop, hholds⟩
    fin_cases hop
    · exact absurd h (LT.lt.ne hholds)
    · rfl
    · exact absurd h (LT.lt.ne' hholds)
  · refine ⟨gt, ⟨by simp, h⟩, ?_⟩
    rintro op ⟨hop, hholds⟩
    fin_cases hop
    · exact absurd hholds h.asymm
    · exact absurd hholds h.ne'
    · rfl

theorem holds_le_iff : le.Holds a b ↔ lt.Holds a b ∨ eq.Holds a b := le_iff_lt_or_eq

theorem holds_ge_iff : ge.Holds a b ↔ gt.Holds a b ∨ eq.Holds a b := by
  rw [Holds, Holds, Holds, le_iff_lt_or_eq, eq_comm]

end Line

theorem onTexts_iff {op : CompareOp} {a b : String} : op.onTexts a b ↔ op.Holds a b := by
  cases op with
  | gt | lt => exact decide_eq_true_iff
  | ge | le => simp only [onTexts, Holds, Bool.not_eq_true', decide_eq_false_iff_not, not_lt]
  | eq => exact beq_iff_eq
  | ne => exact bne_iff_ne

theorem onNumbers_iff {op : CompareOp} {x y : Float} (hx : x ≠ Float.nan) (hy : y ≠ Float.nan) :
    op.onNumbers x y ↔ op.Holds (floatKey x) (floatKey y) := by
  cases op with
  | gt | lt => simp [onNumbers, Holds, lt_iff_floatKey, hx, hy]
  | ge | le => simp [onNumbers, Holds, le_iff_floatKey, hx, hy]
  | eq => simp [onNumbers, Holds, beq_iff_floatKey, hx, hy]
  | ne => simp [onNumbers, Holds, bne, ← Bool.not_eq_true, beq_iff_floatKey, hx, hy]

theorem onNumbers_iff_of_nan {op : CompareOp} {x y : Float} (h : x = Float.nan ∨ y = Float.nan) :
    op.onNumbers x y ↔ op = ne := by
  have hnot : ¬ (x ≠ Float.nan ∧ y ≠ Float.nan) := by rwa [← not_or, not_not]
  have hswap : ¬ (y ≠ Float.nan ∧ x ≠ Float.nan) := fun h => hnot h.symm
  cases op with
  | gt => simp only [onNumbers, decide_eq_true_eq, lt_iff_floatKey, hswap, false_and, reduceCtorEq]
  | lt => simp only [onNumbers, decide_eq_true_eq, lt_iff_floatKey, hnot, false_and, reduceCtorEq]
  | ge => simp only [onNumbers, decide_eq_true_eq, le_iff_floatKey, hswap, false_and, reduceCtorEq]
  | le => simp only [onNumbers, decide_eq_true_eq, le_iff_floatKey, hnot, false_and, reduceCtorEq]
  | eq => simp only [onNumbers, beq_iff_floatKey, hnot, false_and, reduceCtorEq]
  | ne =>
    simp only [onNumbers, bne, Bool.not_eq_true', ← Bool.not_eq_true, beq_iff_floatKey, hnot,
      false_and, not_false_eq_true]

/-! ## Values in a line -/

/-- Two values that both have a number, and that of one is none. -/
def Unordered (l r : Value) : Prop :=
  l.IsNaN ∧ r.number?.isSome ∨ l.number?.isSome ∧ r.IsNaN

variable {l m r : Value}

theorem isSome_of_isNaN (h : l.IsNaN) : l.number?.isSome := by
  rw [number?_eq_nan_iff.mpr h]
  rfl

theorem unordered_self_iff : Unordered l l ↔ l.IsNaN := by
  constructor
  · rintro (h | h)
    · exact h.1
    · exact h.2
  · exact fun h => .inl ⟨h, isSome_of_isNaN h⟩

theorem compare_iff_of_unordered {op : CompareOp} (h : Unordered l r) :
    op.compare l r ↔ op = ne := by
  rcases h with ⟨hl, hr⟩ | ⟨hl, hr⟩
  · obtain ⟨y, hy⟩ := Option.isSome_iff_exists.mp hr
    rw [compare, number?_eq_nan_iff.mpr hl, hy]
    exact onNumbers_iff_of_nan (.inl rfl)
  · obtain ⟨x, hx⟩ := Option.isSome_iff_exists.mp hl
    rw [compare, hx, number?_eq_nan_iff.mpr hr]
    exact onNumbers_iff_of_nan (.inr rfl)

/-- Values that are not unordered stand at two places of a line, which are the same for one value. -/
theorem exists_places (h : ¬ Unordered l r) :
    (∃ a b : Int ×ₗ Int ×ₗ Int, (l = r → a = b) ∧ ∀ op : CompareOp, op.compare l r ↔ op.Holds a b) ∨
      ∃ a b : String, (l = r → a = b) ∧ ∀ op : CompareOp, op.compare l r ↔ op.Holds a b := by
  have htexts (hnone : l.number? = none ∨ r.number? = none) (op : CompareOp) :
      op.compare l r = op.onTexts l.display r.display := by
    unfold compare
    split
    · next hl hr => simp [hl, hr] at hnone
    · rfl
  cases hl : l.number? with
  | none =>
    exact .inr ⟨l.display, r.display, congrArg _, fun op => by rw [htexts (.inl hl), onTexts_iff]⟩
  | some x =>
    cases hr : r.number? with
    | none =>
      exact .inr ⟨l.display, r.display, congrArg _, fun op => by rw [htexts (.inr hr), onTexts_iff]⟩
    | some y =>
      have hx : x ≠ Float.nan := fun hnan =>
        h (.inl ⟨number?_eq_nan_iff.mp (hnan ▸ hl), Option.isSome_of_eq_some hr⟩)
      have hy : y ≠ Float.nan := fun hnan =>
        h (.inr ⟨Option.isSome_of_eq_some hl, number?_eq_nan_iff.mp (hnan ▸ hr)⟩)
      refine .inl ⟨floatKey x, floatKey y, ?_, fun op => by rw [compare, hl, hr, onNumbers_iff hx hy]⟩
      rintro rfl
      rw [Option.some_inj.mp (hl.symm.trans hr)]

/-- Of less, equal and greater one holds, and only one, unless the values are unordered. -/
theorem existsUnique_compare_iff :
    (∃! op, op ∈ [lt, eq, gt] ∧ op.compare l r) ↔ ¬ Unordered l r := by
  constructor
  · rintro ⟨op, ⟨hop, hcompare⟩, -⟩ h
    rw [(compare_iff_of_unordered h).mp hcompare] at hop
    simp at hop
  · intro h
    obtain ⟨a, b, -, hiff⟩ | ⟨a, b, -, hiff⟩ := exists_places h <;>
    · simp only [hiff]
      exact existsUnique_holds a b

/-- At most is less or equal, at least is greater or equal, and unequal is not equal. -/
theorem compare_derived : (le.compare l r ↔ lt.compare l r ∨ eq.compare l r) ∧
    (ge.compare l r ↔ gt.compare l r ∨ eq.compare l r) ∧
      (ne.compare l r ↔ ¬ eq.compare l r) := by
  by_cases h : Unordered l r
  · simp [compare_iff_of_unordered h]
  · obtain ⟨a, b, -, hiff⟩ | ⟨a, b, -, hiff⟩ := exists_places h <;>
    · simp only [hiff]
      exact ⟨holds_le_iff a b, holds_ge_iff a b, .rfl⟩

theorem compare_eq_self_iff : eq.compare l l ↔ ¬ l.IsNaN := by
  by_cases h : l.IsNaN
  · simp [compare_iff_of_unordered (unordered_self_iff.mpr h), h]
  · obtain ⟨a, b, hab, hiff⟩ | ⟨a, b, hab, hiff⟩ := exists_places (mt unordered_self_iff.mp h) <;>
    · rw [hiff]
      exact iff_of_true (hab rfl) h

/-- Among values that all have a number, and among values that have none, less-than goes on. -/
theorem compare_lt_trans (hl : l.number?.isSome = m.number?.isSome)
    (hr : m.number?.isSome = r.number?.isSome) (hlm : lt.compare l m) (hmr : lt.compare m r) :
    lt.compare l r := by
  unfold compare at *
  cases hx : l.number? <;> cases hy : m.number? <;> cases hz : r.number? <;> simp_all only
    [Option.isSome_some, Option.isSome_none, reduceCtorEq]
  · exact onTexts_iff.mpr ((onTexts_iff.mp hlm).trans (onTexts_iff.mp hmr))
  · simp only [onNumbers, decide_eq_true_eq, lt_iff_floatKey] at hlm hmr ⊢
    exact ⟨⟨hlm.1.1, hmr.1.2⟩, hlm.2.trans hmr.2⟩

example : lt.compare (.text "9") (.text "10") ∧ lt.compare (.text "10") (.text "5x") ∧
    lt.compare (.text "5x") (.text "9") := by
  decide +kernel

end CompareOp

/-! ## Conditions -/

namespace Engine

open Eval

/-- Comparison puts values in order except where one of them is no number and the other has one: there
is one of less, equal and greater exactly then, the other operators are made of these three, and a value
equals itself unless it is no number. Less-than is transitive among values with a number and among
values without one. A condition that compares a text quality with the text it has holds unless that
text spells no number. -/
theorem comparison_ordered (l r : Value) :
    ((∃! op, op ∈ [CompareOp.lt, .eq, .gt] ∧ op.compare l r) ↔ ¬ CompareOp.Unordered l r) ∧
    ((CompareOp.le.compare l r ↔ CompareOp.lt.compare l r ∨ CompareOp.eq.compare l r) ∧
      (CompareOp.ge.compare l r ↔ CompareOp.gt.compare l r ∨ CompareOp.eq.compare l r) ∧
      (CompareOp.ne.compare l r ↔ ¬ CompareOp.eq.compare l r)) ∧
    (CompareOp.eq.compare l l ↔ ¬ l.IsNaN) ∧
    (∀ m : Value, l.number?.isSome = m.number?.isSome → m.number?.isSome = r.number?.isSome →
      CompareOp.lt.compare l m → CompareOp.lt.compare m r → CompareOp.lt.compare l r) ∧
    ∀ (engine : Engine) (fuel : Nat) (states : Snapshot) (options : CallOptions) (name s : String),
      IsName name → '\'' ∉ s.toList → '{' ∉ s.toList → HoldsText states.player name s →
      (engine.evaluateCondition (fuel + 6) (directCondition name s) states options).result =
        .ok (!spellsNaN s) := by
  refine ⟨CompareOp.existsUnique_compare_iff, CompareOp.compare_derived,
    CompareOp.compare_eq_self_iff, fun m => CompareOp.compare_lt_trans, ?_⟩
  intro engine fuel states options name s hname hquote hopening hheld
  have hbrace : hasBrace s = false := by simpa [hasBrace] using hopening
  have hself : CompareOp.eq.compare (.text s) (.text s) = !spellsNaN s := by
    rw [Bool.eq_iff_iff, CompareOp.compare_eq_self_iff, Bool.not_eq_true', ← Bool.not_eq_true]
    rfl
  rw [evaluateCondition_equals hname hquote hopening hheld hbrace, hself]

/-- A quality with a text of one word equals that text. -/
theorem comparison_ordered_of_word :
    IsName "q" ∧ HoldsText (holding "red").player "q" "red" ∧
    CompareOp.lt.compare (.text "9") (.text "12") ∧
    (evaluateCondition ⟨Content.Library.empty.registry, .default, .zeros⟩ 6 "$q == 'red'" (holding "red")
      .none).result = .ok true := by
  have hname : IsName "q" := by
    refine ⟨by decide, fun c hc => ?_⟩
    cases List.mem_singleton.mp hc
    decide
  have hheld : HoldsText (holding "red").player "q" "red" := ⟨.new "q" (.text "red"), rfl, rfl⟩
  have hlt : CompareOp.lt.compare (.text "9") (.text "12") :=
    (comparison_ordered _ _).2.2.2.1 (.int 10) (by decide +kernel) (by decide +kernel)
      (by decide +kernel) (by decide +kernel)
  have hholds := (comparison_ordered (.text "9") (.text "12")).2.2.2.2
    ⟨Content.Library.empty.registry, .default, .zeros⟩ 0 (holding "red") .none "q" "red" hname (by decide)
    (by decide) hheld
  have hword : spellsNaN "red" = false := by decide +kernel
  rw [hword, Bool.not_false] at hholds
  exact ⟨hname, hheld, hlt, hholds⟩

/-- Someone called Nan is not called Nan. -/
theorem comparison_of_nan :
    (∀ op ∈ [CompareOp.lt, .eq, .gt], op.compare (.text "Nan") (.text "Nan") = false) ∧
    (evaluateCondition ⟨Content.Library.empty.registry, .default, .zeros⟩ 6 "$q == 'Nan'" (holding "Nan")
      .none).result.toOption = some false := by
  decide +kernel

end Engine

end QualityScript
