import QualityScript.Proofs.Syntax.Ink
import QualityScript.Expr.Basic

/-!
# Parts of expressions

The expressions directly below an expression, and the descriptions on its changes, which are
templates. The weight of an expression counts all expressions in it and the ink of all descriptions.
-/

namespace QualityScript

def Challenge.parts (c : Challenge) : List Expr :=
  c.subject :: c.target :: (c.margin.toList ++ c.minCap.toList ++ c.maxCap.toList ++ c.pivot.toList)

def EffectExpr.parts (e : EffectExpr) : List Expr := e.amount.toList

def Call.parts : Call → List Expr
  | .random percent _ => [percent]
  | .pick _ count filter => count.toList ++ filter.toList
  | .roll _ filter | .list _ _ filter => filter.toList
  | .all _ => []
  | .schedule _ effect amount _ => effect.flatMap EffectExpr.parts ++ [amount]
  | .chance c => c.parts

/-- The expressions directly below an expression. -/
def Expr.parts : Expr → List Expr
  | .literal _ | .ref _ | .aliasName _ | .word _ => []
  | .call c => c.parts
  | .neg inner | .not inner => [inner]
  | .arith _ lhs rhs | .compare _ lhs rhs | .range lhs rhs => [lhs, rhs]
  | .and items | .or items => items
  | .challenge c => c.parts
  | .effect list => list.flatMap EffectExpr.parts

/-- The challenge that an expression is, or asks the chance of. -/
def Expr.challenge? : Expr → Option Challenge
  | .challenge c | .call (.chance c) => some c
  | _ => none

theorem Expr.parts_of_challenge? {e : Expr} {c : Challenge} (h : e.challenge? = some c) :
    e.parts = c.parts := by
  unfold challenge? at h
  split at h <;> cases h <;> rfl

/-- The descriptions on the changes directly in an expression. -/
def Expr.descriptions : Expr → List String
  | .effect list | .call (.schedule _ list _ _) => list.filterMap (·.notes.description)
  | _ => []

theorem Challenge.sizeOf_of_mem_parts {c : Challenge} {e : Expr} (h : e ∈ c.parts) :
    sizeOf e < sizeOf c := by
  obtain ⟨subject, direction, target, margin, minCap, maxCap, pivot, roll⟩ := c
  simp only [parts, List.mem_cons, List.mem_append, Option.mem_toList] at h
  rcases h with rfl | rfl | ((rfl | rfl) | rfl) | rfl <;> simp <;> omega

theorem EffectExpr.sizeOf_of_mem_parts {list : List EffectExpr} {e : Expr}
    (h : e ∈ list.flatMap EffectExpr.parts) : sizeOf e < sizeOf list := by
  obtain ⟨effect, hmem, he⟩ := List.mem_flatMap.mp h
  have hlist := List.sizeOf_lt_of_mem hmem
  obtain ⟨target, notes, op, amount⟩ := effect
  simp only [parts, Option.mem_toList] at he
  subst he
  simp at hlist
  omega

theorem Call.sizeOf_of_mem_parts {c : Call} {e : Expr} (h : e ∈ c.parts) : sizeOf e < sizeOf c := by
  cases c with
  | random percent invert =>
    cases List.mem_singleton.mp h
    simp only [random.sizeOf_spec]
    omega
  | pick category count filter =>
    simp only [parts, List.mem_append, Option.mem_toList] at h
    rcases h with rfl | rfl <;> (simp; omega)
  | roll category filter | list category separator filter =>
    simp only [parts, Option.mem_toList] at h
    subst h
    simp; omega
  | all category => cases h
  | schedule kind effect amount unit =>
    simp only [parts, List.mem_append, List.mem_singleton] at h
    rcases h with h | rfl
    · have := EffectExpr.sizeOf_of_mem_parts h
      simp; omega
    · simp; omega
  | chance challenge =>
    have := Challenge.sizeOf_of_mem_parts h
    simp; omega

theorem Expr.sizeOf_of_mem_parts {e p : Expr} (h : p ∈ e.parts) : sizeOf p < sizeOf e := by
  cases e with
  | literal | ref | aliasName | word => cases h
  | neg inner | not inner =>
    cases List.mem_singleton.mp h
    simp
  | arith op lhs rhs | compare op lhs rhs | range lhs rhs =>
    simp only [parts, List.mem_cons, List.not_mem_nil, or_false] at h
    rcases h with rfl | rfl <;>
      (simp only [arith.sizeOf_spec, compare.sizeOf_spec, range.sizeOf_spec]; omega)
  | call c =>
    have := Call.sizeOf_of_mem_parts h
    simp; omega
  | challenge c =>
    have := Challenge.sizeOf_of_mem_parts h
    simp; omega
  | effect list =>
    have := EffectExpr.sizeOf_of_mem_parts h
    simp; omega
  | and items | or items =>
    have := List.sizeOf_lt_of_mem (show p ∈ items from h)
    simp; omega

/-- The number of expressions in an expression, and the ink of the descriptions in it. -/
def Expr.weight (e : Expr) : Nat :=
  1 + (e.parts.attach.map fun ⟨p, _⟩ => p.weight).sum +
    (e.descriptions.map fun text => ink text.toList).sum
termination_by sizeOf e
decreasing_by exact Expr.sizeOf_of_mem_parts ‹_›

/-- The weight of some expressions together. -/
def weights (list : List Expr) : Nat := (list.map Expr.weight).sum

def inks (texts : List String) : Nat := (texts.map fun text => ink text.toList).sum

@[simp] theorem weights_nil : weights [] = 0 := rfl

@[simp] theorem weights_cons (e : Expr) (list : List Expr) :
    weights (e :: list) = e.weight + weights list := by
  simp [weights]

@[simp] theorem weights_append (a b : List Expr) : weights (a ++ b) = weights a + weights b := by
  simp [weights]

@[simp] theorem inks_nil : inks [] = 0 := rfl

theorem Expr.weight_eq (e : Expr) : e.weight = 1 + weights e.parts + inks e.descriptions := by
  have hparts : (e.parts.attach.map fun ⟨p, _⟩ => p.weight) = e.parts.map weight :=
    List.attach_map_val
  rw [weight, hparts]
  rfl

theorem weight_le_weights {e : Expr} {list : List Expr} (h : e ∈ list) :
    e.weight ≤ weights list := by
  induction list with
  | nil => cases h
  | cons x rest ih =>
    rw [weights_cons]
    rcases List.mem_cons.mp h with rfl | h
    · omega
    · have := ih h; omega

theorem ink_le_inks {text : String} {texts : List String} (h : text ∈ texts) :
    ink text.toList ≤ inks texts := by
  induction texts with
  | nil => cases h
  | cons x rest ih =>
    simp only [inks, List.map_cons, List.sum_cons] at ih ⊢
    rcases List.mem_cons.mp h with rfl | h
    · omega
    · have := ih h; omega

theorem Expr.weight_lt_of_mem_parts {e p : Expr} (h : p ∈ e.parts) : p.weight < e.weight := by
  have := weight_le_weights h
  rw [e.weight_eq]
  omega

theorem Expr.ink_lt_weight {e : Expr} {text : String} (h : text ∈ e.descriptions) :
    ink text.toList < e.weight := by
  have := ink_le_inks h
  rw [e.weight_eq]
  omega

theorem Expr.one_le_weight (e : Expr) : 1 ≤ e.weight := by
  rw [e.weight_eq]
  omega

end QualityScript
