import QualityScript.Expr.Grammar

/-!
# What tokens spell

`Spells ts items`: the tokens spell the expressions, written one after the other with joining tokens
between them. The rules leave precedence and associativity open, so they allow more trees than the
grammar gives; but every tree that the grammar gives, it gives to tokens that spell it. What holds of
all spellings therefore holds of everything that is read.
-/

namespace QualityScript

theorem exists_of_map_eq_ok {ε α β : Type} {f : α → β} {x : Except ε α} {b : β}
    (h : x.map f = .ok b) : ∃ a, x = .ok a ∧ f a = b := by
  cases x with
  | error _ => cases h
  | ok a => exact ⟨a, rfl, by cases h; rfl⟩

theorem exists_of_bind_eq_ok {ε α β : Type} {x : Except ε α} {f : α → Except ε β} {b : β}
    (h : x >>= f = .ok b) : ∃ a, x = .ok a ∧ f a = .ok b := by
  cases x with
  | error _ => cases h
  | ok a => exact ⟨a, rfl, h⟩

namespace Grammar

/-- The expression that one token is. -/
def operand? : Token → Option Expr
  | .int n => some (.literal (.int n))
  | .float x => some (.literal (.float x))
  | .text s => some (.literal (.text s))
  | .ref reference _ => some (.ref reference)
  | .aliasName name => some (.aliasName name)
  | .word text => some (ofWord text)
  | .call c => some (.call c)
  | _ => none

def joins (t : Token) : Bool := joinsAnd t || joinsOr t

end Grammar

open Grammar

inductive Spells : List Token → List Expr → Prop where
  | operand {t : Token} {e : Expr} : operand? t = some e → Spells [t] [e]
  | neg {ts : List Token} {e : Expr} :
      Spells ts [e] → Spells (.op (.arith .sub) :: ts) [.neg e]
  | plus {ts : List Token} {e : Expr} : Spells ts [e] → Spells (.op (.arith .add) :: ts) [e]
  | not {ts : List Token} {e : Expr} : Spells ts [e] → Spells (.op .not :: ts) [.not e]
  | parens {ts : List Token} {e : Expr} :
      Spells ts [e] → Spells (.openParen :: (ts ++ [.closeParen])) [e]
  | arith {a b : List Token} {lhs rhs : Expr} (op : ArithOp) :
      Spells a [lhs] → Spells b [rhs] → Spells (a ++ .op (.arith op) :: b) [.arith op lhs rhs]
  | compare {a b : List Token} {lhs rhs : Expr} (op : CompareOp) :
      Spells a [lhs] → Spells b [rhs] → Spells (a ++ .op (.compare op) :: b) [.compare op lhs rhs]
  | challenge {a b : List Token} {t : Token} {direction : Direction} {lhs rhs : Expr} :
      direction? t = some direction → Spells a [lhs] → Spells b [rhs] →
      Spells (a ++ t :: b) [.challenge (.plain lhs direction rhs false)]
  | rolled {a b : List Token} {t : Token} {direction : Direction} {lhs rhs : Expr} :
      direction? t = some direction → Spells a [lhs] → Spells b [rhs] →
      Spells (a ++ t :: (b ++ [.percent])) [.challenge (.plain lhs direction rhs true)]
  | joined {a b : List Token} {t : Token} {items : List Expr} {e : Expr} :
      joins t → Spells a items → Spells b [e] → Spells (a ++ t :: b) (items ++ [e])
  | and {ts : List Token} {items : List Expr} :
      Spells ts items → 2 ≤ items.length → Spells ts [.and items]
  | or {ts : List Token} {items : List Expr} :
      Spells ts items → 2 ≤ items.length → Spells ts [.or items]

theorem Spells.ne_nil {ts : List Token} {items : List Expr} (h : Spells ts items) : items ≠ [] := by
  cases h <;> simp

namespace Grammar

/-- Whatever the reader reads is spelled by the tokens that it takes. -/
def Sound (reader : Reader) : Prop :=
  ∀ ⦃ts e rest⦄, reader ts = .ok (e, rest) → ∃ used, ts = used ++ rest ∧ Spells used [e]

variable {inner operand item : Reader}

theorem sound_factor (hinner : Sound inner) : Sound (factor inner) := by
  intro ts e rest h
  induction ts generalizing e with
  | nil => cases h
  | cons t ts ih =>
    have single {e' : Expr} (ht : operand? t = some e')
        (h : (.ok (e', ts) : Except ParseError (Expr × List Token)) = .ok (e, rest)) :
        ∃ used, t :: ts = used ++ rest ∧ Spells used [e] := by
      cases h
      exact ⟨[t], rfl, .operand ht⟩
    cases t with
    | int | float | text | ref | aliasName | word | call => exact single rfl h
    | percent | comma | semicolon | tilde | closeParen => cases h
    | op op =>
      cases op with
      | arith op =>
        cases op with
        | add =>
          obtain ⟨used, rfl, hused⟩ := ih h
          exact ⟨_ :: used, rfl, .plus hused⟩
        | sub =>
          obtain ⟨⟨e', rest'⟩, hfactor, heq⟩ := exists_of_map_eq_ok h
          cases heq
          obtain ⟨used, rfl, hused⟩ := ih hfactor
          exact ⟨_ :: used, rfl, .neg hused⟩
        | mul | div => cases h
      | _ => cases h
    | openParen =>
      simp only [factor] at h
      split at h
      · cases h
      · next e' rest' hin =>
        cases h
        obtain ⟨used, rfl, hused⟩ := hinner hin
        exact ⟨.openParen :: (used ++ [.closeParen]), by simp, .parens hused⟩
      · cases h

theorem sound_chain {product : Bool} (hoperand : Sound operand) {count : Nat}
    {before ts rest : List Token} {lhs e : Expr} (hlhs : Spells before [lhs])
    (h : chain product operand count lhs ts = .ok (e, rest)) :
    ∃ used, ts = used ++ rest ∧ Spells (before ++ used) [e] := by
  induction count generalizing before ts lhs with
  | zero =>
    cases h
    exact ⟨[], rfl, by simpa using hlhs⟩
  | succ count ih =>
    unfold chain at h
    split at h
    · next lhs _ _ _ n op tail heq =>
      cases heq
      split at h
      · split at h
        · cases h
        · next rhs rest' hop =>
          obtain ⟨b, rfl, hb⟩ := hoperand hop
          obtain ⟨used, rfl, hused⟩ := ih (.arith op hlhs hb) h
          exact ⟨.op (.arith op) :: (b ++ used), by simp, by simpa using hused⟩
      · cases h
        exact ⟨[], rfl, by simpa using hlhs⟩
    · cases h
      exact ⟨[], rfl, by simpa using hlhs⟩

theorem sound_level {product : Bool} (hoperand : Sound operand) : Sound (level product operand) := by
  intro ts e rest h
  unfold level at h
  split at h
  · cases h
  · next lhs rest' hop =>
    obtain ⟨a, rfl, ha⟩ := hoperand hop
    obtain ⟨used, rfl, hused⟩ := sound_chain hoperand ha h
    exact ⟨a ++ used, by simp, hused⟩

theorem sound_arith (hinner : Sound inner) : Sound (arith inner) :=
  sound_level (sound_level (sound_factor hinner))

/-- A challenge from its parts; a percent sign may be next. -/
theorem spells_challenge {a b : List Token} {t : Token} {direction : Direction} {lhs rhs : Expr}
    (rest : List Token) (ht : direction? t = some direction) (ha : Spells a [lhs])
    (hb : Spells b [rhs]) :
    ∃ used, a ++ t :: (b ++ rest) = used ++ (takePercent rest).2 ∧
      Spells used [.challenge (.plain lhs direction rhs (takePercent rest).1)] := by
  unfold takePercent
  split
  · exact ⟨a ++ t :: (b ++ [.percent]), by simp, .rolled ht ha hb⟩
  · exact ⟨a ++ t :: b, by simp, .challenge ht ha hb⟩

theorem takePercent_false {ts : List Token} (h : (takePercent ts).1 = false) :
    (takePercent ts).2 = ts := by
  unfold takePercent at h ⊢
  split <;> simp_all

theorem sound_comparison {force : Bool} (hinner : Sound inner) : Sound (comparison force inner) := by
  intro ts e rest h
  unfold comparison at h
  split at h
  · cases h
  · next lhs direction tail hlhs =>
    obtain ⟨a, rfl, ha⟩ := sound_arith hinner hlhs
    split at h
    · cases h
    · next rhs rest' hrhs =>
      obtain ⟨b, rfl, hb⟩ := sound_arith hinner hrhs
      cases h
      exact spells_challenge rest' rfl ha hb
  · next lhs op tail hlhs =>
    obtain ⟨a, rfl, ha⟩ := sound_arith hinner hlhs
    split at h
    · cases h
    · next rhs rest' hrhs =>
      obtain ⟨b, rfl, hb⟩ := sound_arith hinner hrhs
      cases hroll : (takePercent rest').1 || force with
      | true =>
        simp only [hroll, if_true] at h
        cases h
        exact spells_challenge rest' rfl ha hb
      | false =>
        simp only [hroll] at h
        cases h
        rw [takePercent_false (Bool.or_eq_false_iff.mp hroll).1]
        exact ⟨a ++ .op (.compare op) :: b, by simp, .compare op ha hb⟩
  · next lhs rest' _ _ hlhs =>
    cases h
    exact sound_arith hinner hlhs

theorem sound_unary {force : Bool} (hinner : Sound inner) : Sound (unary force inner) := by
  intro ts e rest h
  fun_induction unary force inner ts generalizing e with
  | case1 ts ih =>
    obtain ⟨⟨e', rest'⟩, hread, heq⟩ := exists_of_map_eq_ok h
    cases heq
    obtain ⟨used, rfl, hused⟩ := ih hread
    exact ⟨.op .not :: used, rfl, .not hused⟩
  | case2 ts _ => exact sound_comparison hinner h

theorem sound_further {joining : Token → Bool} (hjoins : ∀ t, joining t → joins t)
    (hitem : Sound item) {count : Nat} {before ts rest : List Token} {items result : List Expr}
    (hitems : Spells before items.reverse)
    (h : further joining item count items ts = .ok (result, rest)) :
    ∃ used, ts = used ++ rest ∧ Spells (before ++ used) result.reverse := by
  induction count generalizing before ts items with
  | zero =>
    cases h
    exact ⟨[], rfl, by simpa using hitems⟩
  | succ count ih =>
    cases ts with
    | nil =>
      cases h
      exact ⟨[], rfl, by simpa using hitems⟩
    | cons t tail =>
      simp only [further] at h
      split at h
      · next hjoin =>
        split at h
        · cases h
        · next e rest' hread =>
          obtain ⟨b, rfl, hb⟩ := hitem hread
          have hnext : Spells (before ++ t :: b) (e :: items).reverse := by
            simpa using Spells.joined (hjoins t hjoin) hitems hb
          obtain ⟨used, rfl, hused⟩ := ih hnext h
          exact ⟨t :: (b ++ used), by simp, by simpa using hused⟩
      · cases h
        exact ⟨[], rfl, by simpa using hitems⟩

theorem sound_joined {joining : Token → Bool} {build : List Expr → Expr}
    (hjoins : ∀ t, joining t → joins t)
    (hbuild : ∀ {ts items}, Spells ts items → 2 ≤ items.length → Spells ts [build items])
    (hitem : Sound item) : Sound (joined joining build item) := by
  intro ts e rest h
  unfold joined at h
  split at h
  · cases h
  · next first rest' hfirst =>
    obtain ⟨a, rfl, ha⟩ := hitem hfirst
    obtain ⟨⟨items, rest''⟩, hmore, heq⟩ := exists_of_map_eq_ok h
    have hfirsts : Spells a [first].reverse := by simpa using ha
    obtain ⟨used, rfl, hused⟩ := sound_further hjoins hitem hfirsts hmore
    refine ⟨a ++ used, ?_⟩
    rcases items with _ | ⟨only, _ | ⟨second, more⟩⟩
    · exact absurd rfl hused.ne_nil
    · cases heq
      exact ⟨by simp, by simpa using hused⟩
    · cases heq
      exact ⟨by simp, hbuild hused (by simp)⟩

theorem sound_disjunction {force : Bool} (hinner : Sound inner) :
    Sound (disjunction force inner) :=
  sound_joined (fun t h => by simp [joins, h]) .or
    (sound_joined (fun t h => by simp [joins, h]) .and (sound_unary hinner))

theorem sound_condition (force : Bool) (depth : Nat) : Sound (condition force depth) := by
  induction depth with
  | zero => exact fun _ _ _ h => by cases h
  | succ depth ih => exact sound_disjunction ih

theorem sound_sum (force : Bool) : Sound (sum force) := fun _ _ _ h =>
  sound_arith (sound_condition force _) h

theorem sound_expression (force : Bool) : Sound (expression force) := fun _ _ _ h =>
  sound_condition force _ h

theorem complete_eq_ok {e e' : Expr} {rest : List Token} (h : complete (e, rest) = .ok e') :
    e' = e ∧ rest = [] := by
  unfold complete at h
  split at h
  · next heq => cases heq; cases h; exact ⟨rfl, rfl⟩
  · cases h

/-- The head of a challenge with parameters is spelled like a challenge without. -/
theorem spells_challengeHead {ts : List Token} {c : Challenge} (h : challengeHead ts = .ok c) :
    Spells ts [.challenge c] := by
  unfold challengeHead at h
  split at h
  · cases h
  · cases h
  · next subject t rest hsubject =>
    obtain ⟨a, rfl, ha⟩ := sound_sum true hsubject
    split at h
    · cases h
    · next direction ht =>
      split at h
      · cases h
      · next target rest' htarget =>
        obtain ⟨b, rfl, hb⟩ := sound_sum true htarget
        obtain ⟨used, heq, hused⟩ := spells_challenge rest' ht ha hb
        split at h
        · cases h
        · next roll hpercent =>
          cases h
          rw [hpercent] at heq hused
          rw [heq, List.append_nil]
          exact hused

end Grammar

end QualityScript
