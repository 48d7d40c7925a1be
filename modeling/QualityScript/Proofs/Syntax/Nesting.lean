import QualityScript.Proofs.Syntax.Spelling

/-!
# How deep parentheses nest

The grammar is given a bound on how deep parentheses may nest, and it is always given one that the
tokens cannot reach. Two such bounds give the same tree. A challenge is therefore read the same way
whether it stands for itself or at the head of its parameters.
-/

namespace QualityScript.Grammar

variable {inner inner' operand operand' item item' : Reader}

/-- The readers agree on token lists of at most this length. -/
def AgreeTo (n : Nat) (reader reader' : Reader) : Prop :=
  ∀ ts, ts.length ≤ n → reader ts = reader' ts

theorem Sound.length_le {reader : Reader} (h : Sound reader) {ts rest : List Token} {e : Expr}
    (hread : reader ts = .ok (e, rest)) : rest.length ≤ ts.length := by
  obtain ⟨used, rfl, -⟩ := h hread
  simp

/-- What is in parentheses stands after one of the tokens. -/
theorem agreeTo_factor {n : Nat} (h : ∀ ts, ts.length < n → inner ts = inner' ts) :
    AgreeTo n (factor inner) (factor inner') := by
  intro ts hts
  induction ts with
  | nil => rfl
  | cons t rest ih =>
    simp only [List.length_cons] at hts
    have hrest := ih (by omega)
    cases t with
    | op op =>
      cases op with
      | arith op => cases op <;> simp only [factor, hrest]
      | _ => rfl
    | openParen => simp only [factor, h rest (by omega)]
    | _ => rfl

theorem agreeTo_chain {product : Bool} {n : Nat} (hsound : Sound operand)
    (h : AgreeTo n operand operand') (count : Nat) (lhs : Expr) :
    AgreeTo n (chain product operand count lhs) (chain product operand' count lhs) := by
  induction count generalizing lhs with
  | zero => intro ts _; rfl
  | succ count ih =>
    intro ts hts
    unfold chain
    split
    · next op rest heq =>
      cases heq
      simp only [List.length_cons] at hts
      rw [← h rest (by omega)]
      split
      · split
        · rfl
        · next hread =>
          have := hsound.length_le hread
          exact ih _ _ (by omega)
      · rfl
    · rfl

theorem agreeTo_level {product : Bool} {n : Nat} (hsound : Sound operand)
    (h : AgreeTo n operand operand') : AgreeTo n (level product operand) (level product operand') := by
  intro ts hts
  unfold level
  rw [← h ts hts]
  split
  · rfl
  · next hread =>
    have := hsound.length_le hread
    exact agreeTo_chain hsound h _ _ _ (by omega)

theorem agreeTo_arith {n : Nat} (hsound : Sound inner)
    (h : ∀ ts, ts.length < n → inner ts = inner' ts) : AgreeTo n (arith inner) (arith inner') :=
  agreeTo_level (sound_level (sound_factor hsound))
    (agreeTo_level (sound_factor hsound) (agreeTo_factor h))

theorem agreeTo_comparison {force : Bool} {n : Nat} (hsound : Sound inner)
    (h : ∀ ts, ts.length < n → inner ts = inner' ts) :
    AgreeTo n (comparison force inner) (comparison force inner') := by
  intro ts hts
  have harith := agreeTo_arith hsound h
  have hshort {ts rest : List Token} {t : Token} {e : Expr}
      (hread : arith inner ts = .ok (e, t :: rest)) : rest.length + 1 ≤ ts.length :=
    (sound_arith hsound).length_le hread
  unfold comparison
  rw [← harith ts hts]
  split
  · rfl
  · next hread =>
    have := hshort hread
    rw [← harith _ (by omega)]
  · next hread =>
    have := hshort hread
    rw [← harith _ (by omega)]
  · rfl

theorem agreeTo_unary {force : Bool} {n : Nat} (hsound : Sound inner)
    (h : ∀ ts, ts.length < n → inner ts = inner' ts) :
    AgreeTo n (unary force inner) (unary force inner') := by
  intro ts hts
  fun_induction unary force inner ts with
  | case1 rest ih =>
    simp only [List.length_cons] at hts
    simp only [unary, ih (by omega)]
  | case2 ts hnot =>
    rw [agreeTo_comparison hsound h ts hts]
    unfold unary
    split
    · next rest => exact absurd rfl (hnot rest)
    · rfl

theorem agreeTo_further {joining : Token → Bool} {n : Nat} (hsound : Sound item)
    (h : AgreeTo n item item') (count : Nat) (items : List Expr) {ts : List Token}
    (hts : ts.length ≤ n) :
    further joining item count items ts = further joining item' count items ts := by
  induction count generalizing items ts with
  | zero => rfl
  | succ count ih =>
    cases ts with
    | nil => rfl
    | cons t rest =>
      simp only [List.length_cons] at hts
      simp only [further, ← h rest (by omega)]
      split
      · split
        · rfl
        · next hread =>
          have := hsound.length_le hread
          exact ih _ (by omega)
      · rfl

theorem agreeTo_joined {joining : Token → Bool} {build : List Expr → Expr} {n : Nat}
    (hsound : Sound item) (h : AgreeTo n item item') :
    AgreeTo n (joined joining build item) (joined joining build item') := by
  intro ts hts
  unfold joined
  rw [← h ts hts]
  split
  · rfl
  · next hread =>
    have := hsound.length_le hread
    rw [agreeTo_further hsound h _ _ (by omega)]

theorem sound_conjunction {force : Bool} (hsound : Sound inner) :
    Sound (joined joinsAnd .and (unary force inner)) :=
  sound_joined (fun t h => by simp [joins, h]) .and (sound_unary hsound)

theorem agreeTo_disjunction {force : Bool} {n : Nat} (hsound : Sound inner)
    (h : ∀ ts, ts.length < n → inner ts = inner' ts) :
    AgreeTo n (disjunction force inner) (disjunction force inner') :=
  agreeTo_joined (sound_conjunction hsound)
    (agreeTo_joined (sound_unary hsound) (agreeTo_unary hsound h))

/-- Beyond the number of tokens the bound does not matter. -/
theorem condition_eq (force : Bool) {depth depth' : Nat} {ts : List Token}
    (h : ts.length < depth) (h' : ts.length < depth') :
    condition force depth ts = condition force depth' ts := by
  induction depth generalizing depth' ts with
  | zero => omega
  | succ depth ih =>
    cases depth' with
    | zero => omega
    | succ depth' =>
      refine agreeTo_disjunction (sound_condition force depth) (n := min depth depth')
        (fun ts hts => ih (by omega) (by omega)) ts (by omega)

theorem arith_eq_sum (force : Bool) {depth : Nat} {ts : List Token} (h : ts.length ≤ depth) :
    arith (condition force depth) ts = sum force ts :=
  agreeTo_arith (sound_condition force depth)
    (fun _ hts => condition_eq force (by omega) (by omega)) ts (Nat.le_refl _)

/-! ## Heads of challenges -/

theorem arith_not (inner : Reader) (ts : List Token) :
    arith inner (.op .not :: ts) = .error (.unexpectedToken (.op .not)) := rfl

theorem comparison_of_challengeHead {depth : Nat} {ts : List Token} {c : Challenge}
    (hdepth : ts.length ≤ depth) (h : challengeHead ts = .ok c) :
    comparison true (condition true depth) ts = .ok (.challenge c, []) := by
  unfold challengeHead at h
  split at h
  · cases h
  · cases h
  · next subject t rest hsubject =>
    have hlt : rest.length + 1 ≤ ts.length := (sound_sum true).length_le hsubject
    split at h
    · cases h
    · next direction hdirection =>
      split at h
      · cases h
      · next target rest' htarget =>
        split at h
        · cases h
        · next roll hpercent =>
          cases h
          have hlhs := (arith_eq_sum true hdepth).trans hsubject
          have hrhs : arith (condition true depth) rest = .ok (target, rest') :=
            (arith_eq_sum true (by omega)).trans htarget
          unfold direction? at hdirection
          split at hdirection <;> cases hdirection
          · simp only [comparison, hlhs, hrhs, hpercent]
          · simp only [comparison, hlhs, hrhs, hpercent, Bool.or_true, if_true]

/-- The head of a challenge with parameters, on its own, is read as the challenge. -/
theorem expression_of_challengeHead {ts : List Token} {c : Challenge} (h : challengeHead ts = .ok c) :
    expression true ts = .ok (.challenge c, []) := by
  have hcomparison := comparison_of_challengeHead (Nat.le_refl ts.length) h
  have hunary : unary true (condition true ts.length) ts = .ok (.challenge c, []) := by
    unfold unary
    split
    · rw [comparison, arith_not] at hcomparison
      cases hcomparison
    · exact hcomparison
  have hconjunction : joined joinsAnd .and (unary true (condition true ts.length)) ts =
      .ok (.challenge c, []) := by
    simp only [joined, hunary]
    rfl
  rw [expression, condition, disjunction, joined, hconjunction]
  rfl

end QualityScript.Grammar
