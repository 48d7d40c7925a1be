import QualityScript.Proofs.Syntax.Scanning

/-!
# Chances of challenges

`%chance[…]` is written around a challenge to ask for its chance. What stands in the brackets is cut
at the first semicolon at the top level, as for every call. That semicolon begins the parameters of
the challenge, so the call has the challenge without them.
-/

namespace QualityScript

open Text Lexer Grammar

theorem parts_of_parameters {c c' : Challenge} {groups : List (List Token)}
    (h : parameters c groups = .ok c') (roll : Bool) : c'.bare roll = c.bare roll := by
  unfold parameters at h
  split at h
  · cases h
    rfl
  · obtain ⟨margin, _, h⟩ := exists_of_bind_eq_ok h
    cases h
    rfl
  · obtain ⟨margin, _, h⟩ := exists_of_bind_eq_ok h
    obtain ⟨minCap, _, h⟩ := exists_of_bind_eq_ok h
    cases h
    rfl
  · obtain ⟨margin, _, h⟩ := exists_of_bind_eq_ok h
    obtain ⟨minCap, _, h⟩ := exists_of_bind_eq_ok h
    obtain ⟨maxCap, _, h⟩ := exists_of_bind_eq_ok h
    cases h
    rfl
  · obtain ⟨margin, _, h⟩ := exists_of_bind_eq_ok h
    obtain ⟨minCap, _, h⟩ := exists_of_bind_eq_ok h
    obtain ⟨maxCap, _, h⟩ := exists_of_bind_eq_ok h
    obtain ⟨pivot, _, h⟩ := exists_of_bind_eq_ok h
    cases h
    rfl
  · cases h

theorem bare_of_challengeHead {ts : List Token} {c : Challenge} (h : challengeHead ts = .ok c) :
    c = c.bare c.roll :=
  bare_of_spells (spells_challengeHead h) (List.mem_singleton.mpr rfl)

theorem eq_append_semicolon {ts : List Token} (h : ts.any isSemicolon) :
    ts = ts.takeWhile (! isSemicolon ·) ++
      .semicolon :: (ts.dropWhile (! isSemicolon ·)).drop 1 := by
  induction ts with
  | nil => cases h
  | cons t rest ih =>
    cases ht : isSemicolon t with
    | true =>
      obtain rfl := isSemicolon_iff.mp ht
      rfl
    | false =>
      rw [List.any_cons, ht, Bool.false_or] at h
      rw [List.takeWhile_cons_of_pos (by simp [ht]), List.dropWhile_cons_of_pos (by simp [ht]),
        List.cons_append, ← ih h]

theorem spells_of_rangeOrExpression {ts : List Token} {c : Challenge}
    (h : rangeOrExpression true ts = .ok (.challenge c)) : Spells ts [.challenge c] := by
  unfold rangeOrExpression at h
  split at h
  · cases h
  · split at h
    · cases h
    · cases (complete_eq_ok h).1
  · next e rest _ hexpression =>
    obtain ⟨used, rfl, hused⟩ := sound_expression true hexpression
    obtain ⟨rfl, rfl⟩ := complete_eq_ok h
    rwa [List.append_nil]

/-- The challenge that tokens give is spelled by them, or by those before their first semicolon, with
its parameters after it. -/
theorem head_of_tree {ts : List Token} {c : Challenge} (h : tree true ts = .ok (.challenge c)) :
    (Spells ts [.challenge c] ∧ ∀ t ∈ ts, isSemicolon t = false) ∨
      ∃ head params c', ts = head ++ .semicolon :: params ∧ challengeHead head = .ok c' ∧
        ∀ roll, c.bare roll = c'.bare roll := by
  unfold tree at h
  split at h
  · cases h
  · split at h
    · next hsemicolon =>
      unfold challengeWith at h
      simp only at h
      split at h
      · cases h
      · next c' hhead =>
        obtain ⟨c'', hparameters, heq⟩ := exists_of_map_eq_ok h
        cases heq
        exact .inr ⟨_, _, c', eq_append_semicolon hsemicolon, hhead,
          fun roll => parts_of_parameters hparameters roll⟩
    · next hsemicolon =>
      split at h
      · obtain ⟨_, _, heq⟩ := exists_of_map_eq_ok h
        cases heq
      · refine .inl ⟨spells_of_rangeOrExpression h, fun t ht => ?_⟩
        simp only [List.any_eq_true, not_exists, not_and, Bool.not_eq_true] at hsemicolon
        exact hsemicolon t ht

theorem tree_of_expression {ts : List Token} {c : Challenge} (hphrase : Phrase ts)
    (h : expression true ts = .ok (.challenge c, [])) : tree true ts = .ok (.challenge c) := by
  have hne : ts.isEmpty = false := by simpa using hphrase.ne_nil
  have hsemicolon : ts.any isSemicolon = false := by
    simpa using fun t ht => (hphrase.isSemicolon_and_isChange ht).1
  have hchange : ts.any isChange = false := by
    simpa using fun t ht => (hphrase.isSemicolon_and_isChange ht).2
  simp only [tree, hne, hsemicolon, hchange, Bool.false_eq_true, if_false, rangeOrExpression, h]
  rfl

/-! ## Calls -/

theorem read_chance (read : Call.ExprReader) (arguments : List Char) :
    Call.read read (String.ofList "chance".toList) arguments =
      match read true (Call.splitArguments arguments).1 with
      | .error e => .error e
      | .ok e => (Call.challengeOnly e).map .chance := by
  unfold Call.read
  rfl

theorem InOrder.of_phrase {ts : List Token} (h : Phrase ts) : InOrder none ts :=
  ⟨fun _ _ _ => rfl, h.isChain_mayPrecede⟩

/-- The text before the first semicolon at the top level has the tokens of the challenge without its
parameters. -/
theorem tree_of_splitArguments {readCall : CallReader} {text : List Char} {ts : List Token}
    {c : Challenge} (htokens : tokens readCall text = .ok ts) (hclosed : IsClosed text)
    (htree : tree true ts = .ok (.challenge c)) :
    ∃ head roll, tokens readCall (Call.splitArguments text).1 = .ok head ∧
      tree true head = .ok (.challenge (c.bare roll)) := by
  have hscan := hclosed.closed
  obtain ⟨hspells, hsemicolon⟩ | ⟨head, params, c', rfl, hhead, hparts⟩ := head_of_tree htree
  · have hnone : breakTopLevel? ';' text = none := by
      have hoffsets : separatorsFrom ';' 0 none none 0 text = [] :=
        separatorsFrom_of_tokens (k := 0) htokens hscan hsemicolon (.of_phrase hspells.phrase) 0
      simp [breakTopLevel?, topLevelOffsets, hoffsets]
    refine ⟨ts, c.roll, ?_, ?_⟩
    · rw [Call.splitArguments, hnone]
      exact tokens_trim htokens
    · rw [htree, ← bare_of_spells hspells (List.mem_singleton.mpr rfl)]
  · have hphrase := (spells_challengeHead hhead).phrase
    have hbalanced : 0 + head.countP (·.isOpen) = head.countP (·.isClose) := by
      rw [Nat.zero_add, hphrase.countP_isOpen]
    obtain ⟨a, b, rfl, ha, hoffset⟩ := exists_of_semicolon (k := 0) htokens rfl hscan
      (fun t ht => (hphrase.isSemicolon_and_isChange ht).1) (.of_phrase hphrase) hbalanced
    have hbreak : breakTopLevel? ';' (a ++ ';' :: b) = some (a, b) := by
      have := hoffset 0
      simp only [List.length_replicate, Nat.zero_add] at this
      simp [breakTopLevel?, topLevelOffsets, this]
    refine ⟨head, c'.roll, ?_, ?_⟩
    · rw [Call.splitArguments, hbreak]
      exact tokens_trim ha
    · rw [hparts, ← bare_of_challengeHead hhead]
      exact tree_of_expression hphrase (expression_of_challengeHead hhead)

theorem Expr.readAt_of_tokens {depth : Nat} {force : Bool} {text : List Char} {ts : List Token}
    (h : tokens (Call.read (readAt depth)) text = .ok ts) :
    readAt (depth + 1) force text = tree force ts := by
  simp only [readAt, h]

/-- The call for the chance of a challenge reads as the challenge without its parameters. -/
theorem read_chance_of_challenge {depth : Nat} {text : List Char} {c : Challenge}
    (h : Expr.readAt (depth + 1) true text = .ok (.challenge c)) (hclosed : IsClosed text) :
    ∃ roll, Call.read (Expr.readAt (depth + 1)) (String.ofList "chance".toList) text =
      .ok (.chance (c.bare roll)) := by
  simp only [Expr.readAt] at h
  split at h
  · cases h
  · next ts htokens =>
    obtain ⟨head, roll, hhead, htree⟩ := tree_of_splitArguments htokens hclosed h
    refine ⟨roll, ?_⟩
    rw [read_chance, Expr.readAt_of_tokens hhead, htree]
    rfl

/-- A call with closed arguments is one token. -/
theorem tokens_call {readCall : CallReader} {text : List Char} {call : Call}
    (hread : readCall (String.ofList "chance".toList) text = .ok call) (hclosed : IsClosed text) :
    tokens readCall ("%chance[".toList ++ text ++ [']']) = .ok [.call call] := by
  have hopen : Closed [] none (some '[') text := hclosed.closed.of_before rfl
  have hbracket : Token.bracketed? (text ++ [']']) = some text := by
    have hclosing : Token.closingBracket? 0 none '[' (text ++ [']']) = some text.length :=
      hopen.closingBracket?_append []
    simp [Token.bracketed?, hclosing]
  have hspan : spanIdent ("chance[".toList ++ text ++ [']']) =
      ("chance".toList, '[' :: (text ++ [']'])) := rfl
  have htake : takeToken readCall '%' ("chance[".toList ++ text ++ [']']) =
      .ok (.call call, ("chance[".toList ++ text ++ [']']).length) := by
    change Lexer.takePercent readCall ("chance[".toList ++ text ++ [']']) = _
    have hletter : ("chance[".toList ++ text ++ [']']).head?.any isLetter = true := rfl
    have hlength : ("chance[".toList ++ text ++ [']']).length =
        "chance".toList.length + text.length + 2 := by
      simp
      omega
    simp only [Lexer.takePercent, hletter, if_true, hspan, hbracket, hread, hlength]
    rfl
  change tokens readCall ('%' :: ("chance[".toList ++ text ++ [']'])) = _
  rw [tokens, if_neg (by decide), htake]
  simp only [List.drop_length, tokens]
  rfl

def chanceCall (text : String) : String := "%chance[" ++ text ++ "]"

/-- Around a challenge, `%chance[…]` is the call for the chance of the challenge without its
parameters. -/
theorem Expr.parse_chanceCall {text : String} {c : Challenge} (h : parseChallenge text = .ok c)
    (hclosed : IsClosed text.toList) :
    ∃ roll, parse (chanceCall text) = .ok (.call (.chance (c.bare roll))) := by
  unfold parseChallenge at h
  split at h
  · cases h
  · next e hparse =>
    obtain rfl := Call.eq_of_challengeOnly h
    obtain ⟨roll, hread⟩ := read_chance_of_challenge hparse hclosed
    have hchars : (chanceCall text).toList = "%chance[".toList ++ text.toList ++ [']'] := by
      simp [chanceCall]
    have hcount : ("%chance[".toList ++ text.toList ++ [']']).count '[' =
        text.toList.count '[' + 1 := by
      simp [Nat.add_comm]
    refine ⟨roll, ?_⟩
    rw [parse, parseWith, hchars, hcount, readAt_of_tokens (tokens_call hread hclosed)]
    rfl

end QualityScript
