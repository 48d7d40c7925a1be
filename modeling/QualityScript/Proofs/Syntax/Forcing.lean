import QualityScript.Proofs.Syntax.Chance

/-!
# Comparisons as challenges

A text can be read with its comparisons as challenges. That changes nothing else: the tree is the
plain tree with every comparison replaced that stands for itself, in a condition, or in parentheses.
Calls, parameters of challenges and amounts of effects keep their comparisons, and a challenge with
parameters is read the same way in either case.
-/

namespace QualityScript

mutual

/-- The expression with its comparisons as challenges. -/
def Expr.forced : Expr → Expr
  | .neg inner => .neg inner.forced
  | .not inner => .not inner.forced
  | .arith op lhs rhs => .arith op lhs.forced rhs.forced
  | .compare op lhs rhs => .challenge (.plain lhs.forced op.direction rhs.forced false)
  | .and items => .and (forcedAll items)
  | .or items => .or (forcedAll items)
  | .challenge c => .challenge c.forced
  | .range lo hi => .range lo.forced hi.forced
  | e => e

/-- The challenge with the comparisons in its subject and its target as challenges. -/
def Challenge.forced : Challenge → Challenge
  | ⟨subject, direction, target, margin, minCap, maxCap, pivot, roll⟩ =>
    ⟨subject.forced, direction, target.forced, margin, minCap, maxCap, pivot, roll⟩

def forcedAll : List Expr → List Expr
  | [] => []
  | e :: rest => e.forced :: forcedAll rest

end

theorem forcedAll_eq_map (items : List Expr) : forcedAll items = items.map Expr.forced := by
  induction items with
  | nil => rfl
  | cons e rest ih => rw [forcedAll, ih, List.map_cons]

theorem Challenge.forced_plain (subject : Expr) (direction : Direction) (target : Expr) (roll : Bool) :
    (Challenge.plain subject direction target roll).forced =
      .plain subject.forced direction target.forced roll := rfl

theorem Challenge.forced_eq_self_iff {c : Challenge} :
    c.forced = c ↔ c.subject.forced = c.subject ∧ c.target.forced = c.target := by
  obtain ⟨subject, direction, target, margin, minCap, maxCap, pivot, roll⟩ := c
  simp [Challenge.forced]

mutual

theorem Expr.forced_forced (e : Expr) : e.forced.forced = e.forced := by
  cases e with
  | literal | ref | aliasName | word | call | effect => rfl
  | neg inner | not inner => simp only [Expr.forced, inner.forced_forced]
  | arith op lhs rhs | compare op lhs rhs | range lhs rhs =>
    simp only [Expr.forced, Challenge.forced, Challenge.plain, lhs.forced_forced,
      rhs.forced_forced]
  | and items | or items => simp only [Expr.forced, forcedAll_forcedAll items]
  | challenge c => simp only [Expr.forced, c.forced_forced]

theorem Challenge.forced_forced (c : Challenge) : c.forced.forced = c.forced := by
  obtain ⟨subject, direction, target, margin, minCap, maxCap, pivot, roll⟩ := c
  simp only [Challenge.forced, subject.forced_forced, target.forced_forced]

theorem forcedAll_forcedAll (items : List Expr) :
    forcedAll (forcedAll items) = forcedAll items := by
  cases items with
  | nil => rfl
  | cons e rest => simp only [forcedAll, e.forced_forced, forcedAll_forcedAll rest]

end

namespace Grammar

variable {inner inner' operand operand' item item' : Reader}

/-- The result of a reader with the comparisons of the expression as challenges. -/
def forcedFirst : Expr × List Token → Expr × List Token := fun (e, rest) => (e.forced, rest)

/-- The second reader reads as the first one does, with comparisons as challenges. -/
def Forces (reader reader' : Reader) : Prop := ∀ ts, reader' ts = (reader ts).map forcedFirst

theorem forced_ofWord (text : String) : (ofWord text).forced = ofWord text := by
  unfold ofWord
  split
  · rfl
  · split <;> rfl

theorem forces_factor (h : Forces inner inner') : Forces (factor inner) (factor inner') := by
  intro ts
  induction ts with
  | nil => rfl
  | cons t rest ih =>
    cases t with
    | op op =>
      cases op with
      | arith op =>
        cases op with
        | add => simp only [factor, ih]
        | sub =>
          simp only [factor, ih]
          cases factor inner rest <;> rfl
        | mul | div => rfl
      | _ => rfl
    | word text => simp only [factor, Except.map, forcedFirst, forced_ofWord]
    | openParen =>
      simp only [factor, h rest]
      cases inner rest with
      | error e => rfl
      | ok result =>
        obtain ⟨e, _ | ⟨t, rest⟩⟩ := result
        · rfl
        · cases t <;> rfl
    | _ => rfl

theorem forces_chain {product : Bool} (h : Forces operand operand') (count : Nat) (lhs : Expr)
    (ts : List Token) :
    chain product operand' count lhs.forced ts =
      (chain product operand count lhs ts).map forcedFirst := by
  induction count generalizing lhs ts with
  | zero => rfl
  | succ count ih =>
    unfold chain
    split
    · next op rest heq =>
      cases heq
      simp only [h rest]
      split
      · cases operand rest with
        | error e => rfl
        | ok result => exact ih (.arith op lhs result.1) result.2
      · rfl
    · rfl

theorem forces_level {product : Bool} (h : Forces operand operand') :
    Forces (level product operand) (level product operand') := by
  intro ts
  simp only [level, h ts]
  cases operand ts with
  | error e => rfl
  | ok result => exact forces_chain h _ _ _

theorem forces_arith (h : Forces inner inner') : Forces (arith inner) (arith inner') :=
  forces_level (forces_level (forces_factor h))

theorem forces_comparison (h : Forces inner inner') :
    Forces (comparison false inner) (comparison true inner') := by
  intro ts
  simp only [comparison, forces_arith h ts]
  cases arith inner ts with
  | error e => rfl
  | ok result =>
    obtain ⟨lhs, _ | ⟨t, rest⟩⟩ := result
    · rfl
    · cases t with
      | op op =>
        cases op with
        | challenge direction =>
          simp only [Except.map, forcedFirst, forces_arith h rest]
          cases arith inner rest <;> rfl
        | compare op =>
          simp only [Except.map, forcedFirst, forces_arith h rest]
          cases arith inner rest with
          | error e => rfl
          | ok result =>
            obtain ⟨rhs, rest⟩ := result
            cases hroll : (takePercent rest).1 <;> simp [hroll, Expr.forced, Challenge.forced_plain]
        | _ => rfl
      | _ => rfl

theorem forces_unary (h : Forces inner inner') :
    Forces (unary false inner) (unary true inner') := by
  intro ts
  fun_induction unary false inner ts with
  | case1 rest ih =>
    simp only [unary, ih]
    cases unary false inner rest <;> rfl
  | case2 ts hnot =>
    rw [← forces_comparison h ts]
    unfold unary
    split
    · next rest => exact absurd rfl (hnot rest)
    · rfl

theorem forces_further {joining : Token → Bool} (h : Forces item item') (count : Nat)
    (items : List Expr) (ts : List Token) :
    further joining item' count (forcedAll items) ts =
      (further joining item count items ts).map fun (items, rest) => (forcedAll items, rest) := by
  induction count generalizing items ts with
  | zero => rfl
  | succ count ih =>
    cases ts with
    | nil => rfl
    | cons t rest =>
      simp only [further, h rest]
      split
      · cases item rest with
        | error e => rfl
        | ok result => exact ih (result.1 :: items) result.2
      · rfl

theorem forces_joined {joining : Token → Bool} {build : List Expr → Expr}
    (hbuild : ∀ items, (build items).forced = build (forcedAll items)) (h : Forces item item') :
    Forces (joined joining build item) (joined joining build item') := by
  intro ts
  simp only [joined, h ts]
  cases item ts with
  | error e => rfl
  | ok result =>
    obtain ⟨first, rest⟩ := result
    have hfurther : further joining item' rest.length (forcedAll [first]) rest =
        (further joining item rest.length [first] rest).map fun (items, rest) =>
          (forcedAll items, rest) := forces_further h rest.length [first] rest
    simp only [Except.map, forcedFirst, forcedAll] at hfurther ⊢
    rw [hfurther]
    cases further joining item rest.length [first] rest with
    | error e => rfl
    | ok result =>
      obtain ⟨_ | ⟨only, _ | ⟨second, items⟩⟩, rest⟩ := result
      · simp [hbuild, forcedAll]
      · rfl
      · simp [hbuild, forcedAll_eq_map]

theorem forces_disjunction (h : Forces inner inner') :
    Forces (disjunction false inner) (disjunction true inner') :=
  forces_joined (fun _ => rfl) (forces_joined (fun _ => rfl) (forces_unary h))

theorem forces_condition (depth : Nat) : Forces (condition false depth) (condition true depth) := by
  induction depth with
  | zero => exact fun _ => rfl
  | succ depth ih => exact forces_disjunction ih

theorem forces_expression : Forces (expression false) (expression true) :=
  fun ts => forces_condition (ts.length + 1) ts

theorem forces_sum : Forces (sum false) (sum true) :=
  fun ts => forces_arith (forces_condition (ts.length + 1)) ts

theorem rangeOrExpression_true (ts : List Token) :
    rangeOrExpression true ts = (rangeOrExpression false ts).map Expr.forced := by
  have hcomplete (result : Expr × List Token) :
      complete (forcedFirst result) = (complete result).map Expr.forced := by
    obtain ⟨e, _ | ⟨t, rest⟩⟩ := result <;> rfl
  simp only [rangeOrExpression, forces_expression ts]
  cases expression false ts with
  | error e => rfl
  | ok result =>
    obtain ⟨lo, _ | ⟨t, rest⟩⟩ := result
    · rfl
    · cases t with
      | tilde =>
        simp only [Except.map, forcedFirst, forces_sum rest]
        cases sum false rest with
        | error e => rfl
        | ok result => exact hcomplete (.range lo result.1, result.2)
      | _ => rfl

theorem forced_of_sum {ts rest : List Token} {e : Expr} (h : sum true ts = .ok (e, rest)) :
    e.forced = e := by
  rw [forces_sum ts] at h
  cases hplain : sum false ts with
  | error error =>
    rw [hplain] at h
    cases h
  | ok result =>
    rw [hplain] at h
    cases h
    exact result.1.forced_forced

theorem forced_of_challengeHead {ts : List Token} {c : Challenge} (h : challengeHead ts = .ok c) :
    c.forced = c := by
  unfold challengeHead at h
  split at h
  · cases h
  · cases h
  · next subject t rest hsubject =>
    split at h
    · cases h
    · split at h
      · cases h
      · next target rest' htarget =>
        split at h
        · cases h
        · cases h
          rw [Challenge.forced_plain, forced_of_sum hsubject, forced_of_sum htarget]

theorem forced_of_parameters {c c' : Challenge} {list : List (List Token)}
    (h : parameters c list = .ok c') (hc : c.forced = c) : c'.forced = c' := by
  have hbare : c'.bare false = c.bare false := parts_of_parameters h false
  have hsubject := congrArg Challenge.subject hbare
  have htarget := congrArg Challenge.target hbare
  rw [Challenge.forced_eq_self_iff] at hc ⊢
  rw [show c'.subject = c.subject from hsubject, show c'.target = c.target from htarget]
  exact hc

/-- A challenge with parameters is the same in either reading. -/
theorem map_forced_challengeWith (head params : List Token) :
    (challengeWith head params).map Expr.forced = challengeWith head params := by
  cases h : challengeWith head params with
  | error error => rfl
  | ok e =>
    simp only [challengeWith] at h
    split at h
    · cases h
    · next c hhead =>
      obtain ⟨c', hparams, rfl⟩ := exists_of_map_eq_ok h
      have hparts := Challenge.forced_eq_self_iff.mp (forced_of_challengeHead hhead)
      have hrolled (roll : Bool) : ({ c with roll } : Challenge).forced = { c with roll } :=
        Challenge.forced_eq_self_iff.mpr hparts
      simp only [Except.map, Expr.forced, forced_of_parameters hparams (hrolled _)]

theorem tree_true (ts : List Token) : tree true ts = (tree false ts).map Expr.forced := by
  unfold tree
  split
  · rfl
  · split
    · exact (map_forced_challengeWith _ _).symm
    · split
      · cases (groups ts).mapM effect <;> rfl
      · exact rangeOrExpression_true ts

end Grammar

/-- With comparisons as challenges a text is the same tree, but for its comparisons. -/
theorem Expr.parseWith_true (text : List Char) :
    parseWith true text = (parseWith false text).map forced := by
  simp only [parseWith, readAt]
  cases Lexer.tokens (Call.read (readAt (text.count '['))) text with
  | error e => rfl
  | ok ts => exact Grammar.tree_true ts

/-- What is read as a challenge where one is expected: a challenge, or a comparison. -/
theorem Expr.parseChallenge_eq_ok_iff {text : String} {c : Challenge} :
    parseChallenge text = .ok c ↔
      (∃ plain, parse text = .ok (.challenge plain) ∧ c = plain.forced) ∨
        ∃ op lhs rhs, parse text = .ok (.compare op lhs rhs) ∧
          c = .plain lhs.forced op.direction rhs.forced false := by
  simp only [parseChallenge, parse, parseWith_true]
  cases parseWith false text.toList with
  | error e =>
    constructor
    · intro h
      cases h
    · rintro (⟨_, h, _⟩ | ⟨_, _, _, h, _⟩) <;> cases h
  | ok e =>
    cases e with
    | challenge plain => simp [Except.map, forced, Call.challengeOnly, eq_comm]
    | compare op lhs rhs => simp [Except.map, forced, Call.challengeOnly, eq_comm]
    | _ => simp [Except.map, forced, Call.challengeOnly]

end QualityScript
