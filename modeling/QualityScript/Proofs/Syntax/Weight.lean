import QualityScript.Proofs.Syntax.Parts
import QualityScript.Proofs.Syntax.Spelling

/-!
# Trees weigh no more than their tokens

Every node of a tree comes from a token of its own: an operand, a sign, an operator or a joining
token. A call weighs what its tree weighs, and a reference its description. So the tree that tokens
give weighs at most what the tokens weigh together.
-/

namespace QualityScript

open Grammar

namespace Expr

@[simp] theorem weight_neg (e : Expr) : (neg e).weight = 1 + e.weight := by
  simp [weight_eq (neg e), parts, descriptions]

@[simp] theorem weight_not (e : Expr) : (not e).weight = 1 + e.weight := by
  simp [weight_eq (not e), parts, descriptions]

@[simp] theorem weight_arith (op : ArithOp) (a b : Expr) :
    (arith op a b).weight = 1 + (a.weight + b.weight) := by
  simp [weight_eq (arith op a b), parts, descriptions]

@[simp] theorem weight_compare (op : CompareOp) (a b : Expr) :
    (compare op a b).weight = 1 + (a.weight + b.weight) := by
  simp [weight_eq (compare op a b), parts, descriptions]

@[simp] theorem weight_range (a b : Expr) : (range a b).weight = 1 + (a.weight + b.weight) := by
  simp [weight_eq (range a b), parts, descriptions]

@[simp] theorem weight_and (items : List Expr) : (and items).weight = 1 + weights items := by
  simp [weight_eq (and items), parts, descriptions]

@[simp] theorem weight_or (items : List Expr) : (or items).weight = 1 + weights items := by
  simp [weight_eq (or items), parts, descriptions]

@[simp] theorem weight_challenge (c : Challenge) : (challenge c).weight = 1 + weights c.parts := by
  simp [weight_eq (challenge c), parts, descriptions]

theorem weight_plain (a : Expr) (direction : Direction) (b : Expr) (roll : Bool) :
    (challenge (.plain a direction b roll)).weight = 1 + (a.weight + b.weight) := by
  simp [Challenge.parts, Challenge.plain]

@[simp] theorem weight_effect (list : List EffectExpr) :
    (effect list).weight =
      1 + weights (list.flatMap EffectExpr.parts) +
        inks (list.filterMap (·.notes.description)) := by
  simp [weight_eq (effect list), parts, descriptions]

theorem weight_call (c : Call) :
    (call c).weight = 1 + weights c.parts + inks (call c).descriptions := by
  simp [weight_eq (call c), parts]

end Expr

/-! ## Tokens -/

/-- What a token adds to a tree. -/
def Token.weight : Token → Nat
  | .ref _ notes => 1 + inks notes.description.toList
  | .call c => (Expr.call c).weight
  | _ => 1

theorem Token.one_le_weight (t : Token) : 1 ≤ t.weight := by
  cases t with
  | ref _ notes => exact Nat.le_add_right 1 _
  | call c => exact Expr.one_le_weight _
  | _ => exact Nat.le_refl 1

def tokensWeight (ts : List Token) : Nat := (ts.map Token.weight).sum

@[simp] theorem tokensWeight_nil : tokensWeight [] = 0 := rfl

@[simp] theorem tokensWeight_cons (t : Token) (ts : List Token) :
    tokensWeight (t :: ts) = t.weight + tokensWeight ts := by
  simp [tokensWeight]

@[simp] theorem tokensWeight_append (a b : List Token) :
    tokensWeight (a ++ b) = tokensWeight a + tokensWeight b := by
  simp [tokensWeight]

theorem tokensWeight_le_of_sublist {a b : List Token} (h : a.Sublist b) :
    tokensWeight a ≤ tokensWeight b := by
  induction h with
  | slnil => exact Nat.le_refl _
  | cons t _ ih => rw [tokensWeight_cons]; omega
  | cons_cons t _ ih => rw [tokensWeight_cons, tokensWeight_cons]; omega

theorem weight_le_of_operand? {t : Token} {e : Expr} (h : operand? t = some e) :
    e.weight ≤ t.weight := by
  have leaf {e : Expr} (hparts : e.parts = []) (hdescriptions : e.descriptions = []) :
      e.weight ≤ t.weight := by
    have := t.one_le_weight
    rw [e.weight_eq, hparts, hdescriptions]
    simpa using this
  cases t with
  | int | float | text | aliasName | ref => cases h; exact leaf rfl rfl
  | word text =>
    cases h
    unfold ofWord
    split
    · exact leaf rfl rfl
    · split <;> exact leaf rfl rfl
  | call c => cases h; exact Nat.le_refl _
  | _ => cases h

/-- Items weigh less than their tokens, one for each joining token. -/
theorem weights_of_spells {ts : List Token} {items : List Expr} (h : Spells ts items) :
    weights items + items.length ≤ tokensWeight ts + 1 := by
  induction h with
  | operand ht => simpa using weight_le_of_operand? ht
  | neg _ ih | not _ ih =>
    simp only [weights_cons, weights_nil, tokensWeight_cons, Expr.weight_neg, Expr.weight_not,
      List.length_cons, List.length_nil, Token.weight] at ih ⊢
    omega
  | plus _ ih =>
    rw [tokensWeight_cons]
    omega
  | parens _ ih =>
    rw [tokensWeight_cons, tokensWeight_append]
    omega
  | arith op _ _ iha ihb | compare op _ _ iha ihb =>
    simp only [weights_cons, weights_nil, tokensWeight_cons, tokensWeight_append,
      Expr.weight_arith, Expr.weight_compare, List.length_cons, List.length_nil,
      Token.weight] at iha ihb ⊢
    omega
  | @challenge a b t direction lhs rhs _ _ _ iha ihb
  | @rolled a b t direction lhs rhs _ _ _ iha ihb =>
    have := t.one_le_weight
    simp only [weights_cons, weights_nil, tokensWeight_cons, tokensWeight_append,
      Expr.weight_plain, List.length_cons, List.length_nil] at iha ihb ⊢
    omega
  | @joined a b t items e _ _ _ iha ihb =>
    have := t.one_le_weight
    simp only [weights_append, weights_cons, weights_nil, tokensWeight_cons, tokensWeight_append,
      List.length_append, List.length_cons, List.length_nil] at iha ihb ⊢
    omega
  | and _ hlength ih | or _ hlength ih =>
    simp only [weights_cons, weights_nil, Expr.weight_and, Expr.weight_or, List.length_cons,
      List.length_nil]
    omega

theorem weight_of_spells {ts : List Token} {e : Expr} (h : Spells ts [e]) :
    e.weight ≤ tokensWeight ts := by
  simpa using weights_of_spells h

def groupsWeight (list : List (List Token)) : Nat := (list.map tokensWeight).sum

theorem groups_ne_nil (ts : List Token) : groups ts ≠ [] := by
  cases ts with
  | nil => simp [groups]
  | cons t ts =>
    unfold groups
    split
    · simp
    · split <;> simp

theorem groupsWeight_groups (ts : List Token) : groupsWeight (groups ts) ≤ tokensWeight ts := by
  induction ts with
  | nil => simp [groups, groupsWeight]
  | cons t ts ih =>
    unfold groups
    simp only [tokensWeight_cons]
    split
    · simp only [groupsWeight, List.map_cons, List.sum_cons, tokensWeight_nil] at ih ⊢
      omega
    · split
      · simp [groupsWeight]
      · next group more heq =>
        rw [heq] at ih
        simp only [groupsWeight, List.map_cons, List.sum_cons, tokensWeight_cons] at ih ⊢
        omega

@[simp] theorem groupsWeight_nil : groupsWeight [] = 0 := rfl

@[simp] theorem groupsWeight_cons (group : List Token) (list : List (List Token)) :
    groupsWeight (group :: list) = tokensWeight group + groupsWeight list := by
  simp [groupsWeight]

/-! ## Challenges with parameters -/

theorem weights_of_parameter? {group : List Token} {given : Option Expr}
    (h : parameter? group = .ok given) : weights given.toList ≤ tokensWeight group := by
  unfold parameter? at h
  split at h
  · cases h
    exact Nat.zero_le _
  · split at h
    · cases h
    · next result hsum =>
      obtain ⟨e, rest⟩ := result
      obtain ⟨e', hcomplete, rfl⟩ := exists_of_map_eq_ok h
      obtain ⟨rfl, rfl⟩ := complete_eq_ok hcomplete
      obtain ⟨used, rfl, hused⟩ := sound_sum false hsum
      simpa using weight_of_spells hused

theorem weights_parts_challenge (c : Challenge) :
    weights c.parts = c.subject.weight + c.target.weight + weights c.margin.toList +
      weights c.minCap.toList + weights c.maxCap.toList + weights c.pivot.toList := by
  simp only [Challenge.parts, weights_cons, weights_append]
  omega

theorem weights_of_parameters {c c' : Challenge} {list : List (List Token)}
    (h : parameters c list = .ok c') :
    weights c'.parts ≤ weights c.parts + groupsWeight list := by
  simp only [weights_parts_challenge]
  match list, h with
  | [], h => cases h; omega
  | [_], h =>
    obtain ⟨margin, hmargin, h⟩ := exists_of_bind_eq_ok h
    have := weights_of_parameter? hmargin
    cases h
    simp only [groupsWeight_cons, groupsWeight_nil]
    omega
  | [_, _], h =>
    obtain ⟨margin, hmargin, h⟩ := exists_of_bind_eq_ok h
    obtain ⟨minCap, hminCap, h⟩ := exists_of_bind_eq_ok h
    have := weights_of_parameter? hmargin
    have := weights_of_parameter? hminCap
    cases h
    simp only [groupsWeight_cons, groupsWeight_nil]
    omega
  | [_, _, _], h =>
    obtain ⟨margin, hmargin, h⟩ := exists_of_bind_eq_ok h
    obtain ⟨minCap, hminCap, h⟩ := exists_of_bind_eq_ok h
    obtain ⟨maxCap, hmaxCap, h⟩ := exists_of_bind_eq_ok h
    have := weights_of_parameter? hmargin
    have := weights_of_parameter? hminCap
    have := weights_of_parameter? hmaxCap
    cases h
    simp only [groupsWeight_cons, groupsWeight_nil]
    omega
  | [_, _, _, _], h =>
    obtain ⟨margin, hmargin, h⟩ := exists_of_bind_eq_ok h
    obtain ⟨minCap, hminCap, h⟩ := exists_of_bind_eq_ok h
    obtain ⟨maxCap, hmaxCap, h⟩ := exists_of_bind_eq_ok h
    obtain ⟨pivot, hpivot, h⟩ := exists_of_bind_eq_ok h
    have := weights_of_parameter? hmargin
    have := weights_of_parameter? hminCap
    have := weights_of_parameter? hmaxCap
    have := weights_of_parameter? hpivot
    cases h
    simp only [groupsWeight_cons, groupsWeight_nil]
    omega
  | _ :: _ :: _ :: _ :: _ :: _, h => cases h

theorem dropFinalPercent_sublist (ts : List Token) : (dropFinalPercent ts).2.Sublist ts := by
  unfold dropFinalPercent
  split
  · exact List.dropLast_sublist ts
  · exact List.Sublist.refl ts

theorem weight_of_challengeWith {head params : List Token} {e : Expr}
    (h : challengeWith head params = .ok e) : e.weight ≤ tokensWeight head + tokensWeight params := by
  simp only [challengeWith] at h
  split at h
  · cases h
  · next c hhead =>
    obtain ⟨c', hparams, rfl⟩ := exists_of_map_eq_ok h
    have hplain := weight_of_spells (spells_challengeHead hhead)
    have hgroups := groupsWeight_groups (dropFinalPercent params).2
    have hdrop := tokensWeight_le_of_sublist (dropFinalPercent_sublist params)
    have hweights := weights_of_parameters hparams
    rw [Expr.weight_challenge] at hplain ⊢
    simp only [weights_parts_challenge] at hplain hweights ⊢
    omega

/-! ## Effects -/

def EffectExpr.weight (e : EffectExpr) : Nat := weights e.parts + inks e.notes.description.toList

theorem weight_of_effectTarget? {t : Token} {target : EffectTarget} {notes : Notes}
    (h : effectTarget? t = some (target, notes)) :
    1 + inks notes.description.toList ≤ t.weight := by
  unfold effectTarget? at h
  split at h
  · cases h; exact Nat.le_refl _
  · cases h; exact Token.one_le_weight _
  · cases h

theorem weights_of_amount? {op : ChangeOp} {ts rest : List Token} {amount : Option Expr}
    (h : amount? op ts = .ok (amount, rest)) : weights amount.toList ≤ tokensWeight ts := by
  have hread (h : (expression false ts).map (fun read => (some read.1, read.2)) =
      .ok (amount, rest)) : weights amount.toList ≤ tokensWeight ts := by
    obtain ⟨⟨e, rest'⟩, hexpr, heq⟩ := exists_of_map_eq_ok h
    cases heq
    obtain ⟨used, rfl, hused⟩ := sound_expression false hexpr
    have := weight_of_spells hused
    simp only [Option.toList_some, weights_cons, weights_nil, tokensWeight_append]
    omega
  cases op with
  | increment | decrement => cases h; exact Nat.zero_le _
  | _ => exact hread h

theorem weight_of_effect {ts : List Token} {e : EffectExpr} (h : effect ts = .ok e) :
    e.weight + 2 ≤ tokensWeight ts := by
  unfold effect at h
  split at h
  · cases h
  · next first rest =>
    split at h
    · cases h
    · cases h
    · next target notes op tail htarget =>
      split at h
      · cases h
      · cases h
      · next amount hamount =>
        cases h
        have := weight_of_effectTarget? htarget
        have := weights_of_amount? hamount
        have hop : (Token.op (.change op)).weight = 1 := rfl
        simp only [EffectExpr.weight, EffectExpr.parts, tokensWeight_cons, hop]
        omega
    · cases h

theorem weights_of_effects {list : List (List Token)} {effects : List EffectExpr}
    (h : list.mapM effect = .ok effects) :
    weights (effects.flatMap EffectExpr.parts) + inks (effects.filterMap (·.notes.description)) +
      effects.length ≤ groupsWeight list ∧ effects.length = list.length := by
  induction list generalizing effects with
  | nil => cases h; exact ⟨Nat.le_refl _, rfl⟩
  | cons group rest ih =>
    rw [List.mapM_cons] at h
    obtain ⟨e, he, h⟩ := exists_of_bind_eq_ok h
    obtain ⟨more, hmore, h⟩ := exists_of_bind_eq_ok h
    cases h
    have hfirst := weight_of_effect he
    obtain ⟨hrest, hlength⟩ := ih hmore
    simp only [EffectExpr.weight] at hfirst
    have hinks : inks ((e :: more).filterMap (·.notes.description)) =
        inks e.notes.description.toList + inks (more.filterMap (·.notes.description)) := by
      cases hd : e.notes.description <;> simp [hd, inks]
    simp only [List.flatMap_cons, weights_append, List.length_cons, groupsWeight_cons, hinks]
    omega

theorem weight_of_rangeOrExpression {force : Bool} {ts : List Token} {e : Expr}
    (h : rangeOrExpression force ts = .ok e) : e.weight ≤ tokensWeight ts := by
  unfold rangeOrExpression at h
  split at h
  · cases h
  · next lo rest hlo =>
    obtain ⟨a, rfl, ha⟩ := sound_expression force hlo
    split at h
    · cases h
    · next hi rest' hhi =>
      obtain ⟨b, rfl, hb⟩ := sound_sum force hhi
      obtain ⟨rfl, rfl⟩ := complete_eq_ok h
      have := weight_of_spells ha
      have := weight_of_spells hb
      simp only [Expr.weight_range, tokensWeight_append, tokensWeight_cons, Token.weight]
      omega
  · next e' rest _ hread =>
    obtain ⟨rfl, rfl⟩ := complete_eq_ok h
    obtain ⟨used, rfl, hused⟩ := sound_expression force hread
    simpa using weight_of_spells hused

/-- A tree weighs no more than the tokens that it is read from. -/
theorem weight_of_tree {force : Bool} {ts : List Token} {e : Expr} (h : tree force ts = .ok e) :
    e.weight ≤ tokensWeight ts := by
  unfold tree at h
  split at h
  · cases h
  · split at h
    · next hsemi =>
      have hweight := weight_of_challengeWith h
      have hsplit := ts.takeWhile_append_dropWhile (p := (! isSemicolon ·))
      have hsub := (List.drop_sublist 1 (ts.dropWhile (! isSemicolon ·)))
      have := tokensWeight_le_of_sublist hsub
      rw [← hsplit, tokensWeight_append]
      omega
    · split at h
      · obtain ⟨effects, heffects, rfl⟩ := exists_of_map_eq_ok h
        obtain ⟨hweights, hlength⟩ := weights_of_effects heffects
        have hgroups := groupsWeight_groups ts
        have hpos := List.length_pos_iff.mpr (groups_ne_nil ts)
        rw [Expr.weight_effect]
        omega
      · exact weight_of_rangeOrExpression h

end QualityScript
