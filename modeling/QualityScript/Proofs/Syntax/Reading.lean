import QualityScript.Proofs.Syntax.Weight
import QualityScript.Expr.Parser

/-!
# Trees weigh no more than their text

A token begins with a character that is not blank, so it has ink. The notes of a reference and the
arguments of a call stand in square brackets inside their token, and what is read from them weighs no
more than their ink. By induction on how deep calls nest, every expression weighs at most the ink of
the text that it is read from.
-/

namespace QualityScript

open Text

theorem ink_description_add {notes : Notes} {entry : List Char} {bound : Nat}
    (hnotes : ∀ d ∈ notes.description, ink d.toList ≤ bound) (hentry : ink entry ≤ bound) :
    ∀ d ∈ (notes.add entry).description, ink d.toList ≤ bound := by
  unfold Notes.add
  by_cases hkey : entry.contains ':'
  · simp only [hkey, if_true]
    split
    · rintro d ⟨⟩
      rw [ink_partText]
      exact Nat.le_trans (ink_le_of_sublist ((List.drop_sublist _ _).trans
        (List.dropWhile_sublist _))) hentry
    · split <;> exact hnotes
  · simpa only [hkey, Bool.false_eq_true, if_false] using hnotes

theorem ink_description_ofChars (text : List Char) :
    ∀ d ∈ (Notes.ofChars text).description, ink d.toList ≤ ink text := by
  have hfold (entries : List (List Char)) (hentries : ∀ e ∈ entries, ink e ≤ ink text)
      (notes : Notes) (hnotes : ∀ d ∈ notes.description, ink d.toList ≤ ink text) :
      ∀ d ∈ (entries.foldl Notes.add notes).description, ink d.toList ≤ ink text := by
    induction entries generalizing notes with
    | nil => exact hnotes
    | cons entry rest ih =>
      exact ih (fun e he => hentries e (.tail _ he)) _
        (ink_description_add hnotes (hentries entry (.head _)))
  exact hfold _ (fun e he => ink_le_of_mem_splitTopLevel (by decide) he) _ (fun d hd => by cases hd)

/-! ## Spans -/

theorem spanIdent_suffix (text : List Char) : (spanIdent text).2 <:+ text :=
  List.dropWhile_suffix _

theorem Reference.spanProperty_suffix (text : List Char) : (spanProperty text).2 <:+ text := by
  unfold spanProperty
  split
  · split
    · exact spanIdent_suffix _
    · exact List.suffix_refl _
  · exact List.suffix_refl _

theorem Reference.spanNamed?_suffix {scope : Scope} {text rest : List Char} {r : Reference}
    (h : spanNamed? scope text = some (r, rest)) : rest <:+ text := by
  have hspan := spanIdent_suffix text
  unfold spanNamed? at h
  split at h
  · cases h
  · next c tail id heq =>
    rw [heq] at hspan
    split at h
    · cases h
      exact ((spanProperty_suffix _).trans (List.suffix_cons _ _)).trans hspan
    · cases h
      exact hspan
  · next heq =>
    rw [heq] at hspan
    cases h
    exact hspan

/-- What follows a reference is the end of what follows its marker. -/
theorem Reference.span?_suffix {marker : Char} {text rest : List Char} {r : Reference}
    (h : span? (marker :: text) = some (r, rest)) : rest <:+ text := by
  unfold span? at h
  split at h
  · next tail heq =>
    cases heq
    cases h
    exact (spanProperty_suffix _).trans (List.suffix_cons _ _)
  · next heq =>
    cases heq
    exact spanNamed?_suffix h
  · next heq =>
    cases heq
    exact spanNamed?_suffix h
  · cases h

theorem isPrefix_of_bracketed? {text inside : List Char} (h : Token.bracketed? text = some inside) :
    inside <+: text := by
  obtain ⟨n, _, rfl⟩ := Option.map_eq_some_iff.mp h
  exact List.take_prefix _ _

/-! ## Tokens -/

open Lexer

/-- A token in whose square brackets some text stands has the ink of that text and of a bracket. -/
theorem ink_bracketed (passed : List Char) {after inside : List Char} (h : inside <+: after) (n : Nat)
    (hn : passed.length + 1 + inside.length ≤ n) :
    ink inside + 1 ≤ ink ((passed ++ '[' :: after).take n) := by
  obtain ⟨more, rfl⟩ := h
  have hfront : passed ++ '[' :: inside <+: (passed ++ '[' :: (inside ++ more)).take n := by
    rw [List.prefix_take_iff]
    exact ⟨⟨more, by simp⟩, by simp only [List.length_append, List.length_cons]; omega⟩
  have hink := ink_le_of_sublist hfront.sublist
  rw [ink_append, ink_cons_mark (by decide)] at hink
  omega

theorem weight_of_takeRef {marker : Char} {rest : List Char} {t : Token} {n : Nat}
    (h : takeRef marker rest = .ok (t, n)) : t.weight ≤ 1 + ink (rest.take n) := by
  unfold takeRef at h
  split at h
  · cases h
  · next reference after hspan =>
    split at h
    · next notes hnotes =>
      cases h
      obtain ⟨passed, rfl⟩ := Reference.span?_suffix hspan
      have hinside := ink_bracketed passed (isPrefix_of_bracketed? hnotes)
        ((passed ++ '[' :: after).length - after.length + notes.length + 1)
        (by simp only [List.length_append, List.length_cons]; omega)
      have hdesc := ink_description_ofChars notes
      cases hd : (Notes.ofChars notes).description with
      | none => simp [Token.weight, hd]
      | some d =>
        have := hdesc d hd
        simp only [Token.weight, hd, Option.toList_some, inks, List.map_cons, List.map_nil,
          List.sum_cons, List.sum_nil]
        omega
    · cases h
  · cases h
    simp [Token.weight, Notes.none]

/-- Readers of calls that give no more than the text of the arguments has to say. -/
def Lexer.Bounded (readCall : CallReader) : Prop :=
  ∀ ⦃name arguments c⦄, readCall name arguments = .ok c → (Expr.call c).weight ≤ ink arguments + 2

theorem weight_of_takePercent {readCall : CallReader} {rest : List Char} {t : Token} {n : Nat}
    (hread : Bounded readCall) (h : takePercent readCall rest = .ok (t, n)) :
    t.weight ≤ 1 + ink (rest.take n) := by
  unfold takePercent at h
  split at h
  · simp only at h
    split at h
    · next after hafter =>
      split at h
      · next arguments harguments =>
        obtain ⟨c, hc, heq⟩ := exists_of_map_eq_ok h
        cases heq
        have hinside := ink_bracketed (spanIdent rest).1 (isPrefix_of_bracketed? harguments)
          ((spanIdent rest).1.length + arguments.length + 2) (by omega)
        rw [← hafter, spanIdent_append] at hinside
        have := hread hc
        simp only [Token.weight]
        omega
      · cases h
    · cases h
  · cases h
    simp [Token.weight]

theorem weight_takeNumber (text : List Char) : (takeNumber text).1.weight = 1 := by
  have hwhole (digits : List Char) : (wholeNumber digits).weight = 1 := by
    unfold wholeNumber
    dsimp only
    split <;> rfl
  unfold takeNumber
  split
  split
  · split
    · exact hwhole _
    · rfl
  · exact hwhole _

theorem weight_of_takeOp {c : Char} {rest : List Char} {t : Token} {n : Nat}
    (h : takeOp c rest = .ok (t, n)) : t.weight = 1 := by
  unfold takeOp at h
  split at h
  · cases h; rfl
  · split at h
    · next ht =>
      cases h
      unfold Token.single? at ht
      split at ht <;> cases ht <;> rfl
    · cases h

theorem weight_of_takeToken {readCall : CallReader} {c : Char} {rest : List Char} {t : Token}
    {n : Nat} (hread : Bounded readCall) (h : takeToken readCall c rest = .ok (t, n)) :
    t.weight ≤ 1 + ink (rest.take n) := by
  have light (ht : t.weight = 1) : t.weight ≤ 1 + ink (rest.take n) := by omega
  unfold takeToken at h
  split at h
  · unfold takeText at h
    split at h
    · cases h; exact light rfl
    · cases h
  · split at h
    · have ht := weight_takeNumber (c :: rest)
      rw [Except.ok.inj h] at ht
      exact light ht
    · split at h
      · exact weight_of_takeRef h
      · split at h
        · unfold takeAlias at h
          split at h
          · cases h
          · cases h; exact light rfl
        · split at h
          · exact weight_of_takePercent hread h
          · split at h
            · cases h; exact light rfl
            · exact light (weight_of_takeOp h)

theorem weight_of_tokens {readCall : CallReader} (hread : Bounded readCall) {text : List Char}
    {ts : List Token} (h : tokens readCall text = .ok ts) : tokensWeight ts ≤ ink text := by
  fun_induction tokens readCall text generalizing ts with
  | case1 => cases h; exact Nat.le_refl 0
  | case2 c rest hblank ih =>
    rw [ink_cons_blank hblank]
    exact ih h
  | case3 => cases h
  | case4 c rest hblank t n htake ih =>
    obtain ⟨more, hmore, rfl⟩ := exists_of_map_eq_ok h
    have htoken := weight_of_takeToken hread htake
    have hrest := ih hmore
    have hsplit : ink (rest.take n) + ink (rest.drop n) = ink rest := by
      rw [← ink_append, List.take_append_drop]
    rw [tokensWeight_cons, ink_cons_mark (by simpa using hblank)]
    omega

/-! ## Calls -/

namespace Call

/-- Readers of expressions that give no more than the text has to say. -/
def Bounded (read : ExprReader) : Prop :=
  ∀ ⦃force text e⦄, read force text = .ok e → e.weight ≤ ink text

theorem eq_of_challengeOnly {e : Expr} {c : Challenge} (h : challengeOnly e = .ok c) :
    e = .challenge c := by
  unfold challengeOnly at h
  split at h <;> cases h
  rfl

theorem ink_splitArguments (arguments : List Char) :
    ink (splitArguments arguments).1 + inkEach (splitArguments arguments).2 ≤ ink arguments := by
  have hoptions (options : List Char) :
      inkEach (((splitTopLevel ',' options).map trim).filter fun o => !o.isEmpty) ≤
        ink options + 1 := by
    have hcomma : isBlank ',' = false := by decide
    rw [← inkEach_splitTopLevel hcomma,
      ← inkEach_map_trim (splitTopLevel ',' options)]
    exact inkEach_le_of_sublist List.filter_sublist
  unfold splitArguments
  cases hbreak : breakTopLevel? ';' arguments with
  | none => simp [splitTopLevel_nil, trim_nil]
  | some r =>
    obtain ⟨main, options⟩ := r
    have := ink_breakTopLevel? (by decide) hbreak
    have := hoptions options
    simp only [Option.getD_some, ink_trim]
    omega

theorem weights_of_readFilter {read : ExprReader} (hread : Bounded read)
    {options : List (List Char)} {filter : Option Expr} (h : readFilter read options = .ok filter) :
    weights filter.toList ≤ inkEach options := by
  unfold readFilter at h
  split at h
  · cases h; exact Nat.zero_le _
  · next hne =>
    obtain ⟨e, he, rfl⟩ := exists_of_map_eq_ok h
    have hcomma : ink [',', ' '] = 1 := by decide
    have hink := ink_intercalate hcomma (show options ≠ [] by simpa using hne)
    have := hread he
    simp only [Option.toList_some, weights_cons, weights_nil]
    omega

theorem weight_of_readCount? {read : ExprReader} (hread : Bounded read)
    {options : List (List Char)} {e : Expr} (h : readCount? read options = some e) :
    ∃ first rest, options = first :: rest ∧ e.weight ≤ ink first := by
  unfold readCount? at h
  split at h
  · cases h
  · next first rest =>
    split at h
    · next e' he =>
      split at h
      · cases h
      · cases h
        exact ⟨first, rest, rfl, hread he⟩
    · cases h

/-- A count takes the first option, and what is left is the filter. -/
theorem weights_of_readCount? {read : ExprReader} (hread : Bounded read)
    (options : List (List Char)) :
    weights (readCount? read options).toList +
      inkEach (if (readCount? read options).isSome then options.drop 1 else options) ≤
        inkEach options := by
  obtain hnone | ⟨e, he⟩ := Option.eq_none_or_eq_some (readCount? read options)
  · simp [hnone]
  · obtain ⟨first, rest, rfl, hweight⟩ := weight_of_readCount? hread he
    simp only [he, Option.toList_some, weights_cons, weights_nil, Option.isSome_some, if_true,
      List.drop_succ_cons, List.drop_zero, inkEach_cons]
    omega

theorem weight_of_readDuration {read : ExprReader} (hread : Bounded read) {text : List Char}
    {e : Expr} {unit : DurationUnit} (h : readDuration read text = .ok (e, unit)) :
    e.weight ≤ ink text := by
  unfold readDuration at h
  split at h
  · cases h
  · simp only at h
    split at h
    · cases h
    · obtain ⟨e', he, heq⟩ := exists_of_map_eq_ok h
      cases heq
      have := ink_le_of_sublist (List.dropLast_sublist text)
      have := hread he
      rw [ink_trim] at this
      omega

theorem weight_of_readSchedule {read : ExprReader} (hread : Bounded read) {name : String}
    {kind : PendingKind} {main : List Char} {c : Call}
    (h : readSchedule read name kind main = .ok c) : (Expr.call c).weight ≤ ink main + 2 := by
  unfold readSchedule at h
  split at h
  · cases h
  · next effect after hbreak =>
    have hink := ink_breakTopLevel? (by decide) hbreak
    split at h
    · cases h
    · next effects heffects =>
      obtain ⟨⟨amount, unit⟩, hduration, rfl⟩ := exists_of_map_eq_ok h
      have heffect := hread heffects
      have hamount := weight_of_readDuration hread hduration
      rw [ink_trim] at hamount
      rw [Expr.weight_effect] at heffect
      simp only [Expr.weight_call, Call.parts, Expr.descriptions, weights_append, weights_cons,
        weights_nil]
      omega
    · cases h

theorem weight_of_filtered {filter : Option Expr} {bound : Nat} {c : Call}
    (hparts : c.parts = filter.toList) (hdescriptions : (Expr.call c).descriptions = [])
    (h : weights filter.toList ≤ bound) : (Expr.call c).weight ≤ bound + 2 := by
  rw [Expr.weight_call, hparts, hdescriptions, inks_nil]
  omega

/-- A call weighs little more than the text of its arguments. -/
theorem bounded_read {read : ExprReader} (hread : Bounded read) :
    Lexer.Bounded (Call.read read) := by
  intro name arguments c h
  have hsplit := ink_splitArguments arguments
  unfold Call.read at h
  simp only at h
  generalize (splitArguments arguments).1 = main at h hsplit
  generalize (splitArguments arguments).2 = options at h hsplit
  split at h
  · obtain ⟨chance, hchance, rfl⟩ := exists_of_map_eq_ok h
    have := hread hchance
    simp only [Expr.weight_call, Call.parts, Expr.descriptions, weights_cons, weights_nil, inks_nil]
    omega
  · have hcount := weights_of_readCount? hread options
    split at h
    · cases h
    · obtain ⟨filter, hfilter, rfl⟩ := exists_of_map_eq_ok h
      have := weights_of_readFilter hread hfilter
      simp only [Expr.weight_call, Call.parts, Expr.descriptions, weights_append, inks_nil]
      omega
  · split at h
    · cases h
    · obtain ⟨filter, hfilter, rfl⟩ := exists_of_map_eq_ok h
      refine Nat.le_trans (weight_of_filtered rfl rfl (weights_of_readFilter hread hfilter)) ?_
      omega
  · split at h
    · cases h
    · obtain ⟨filter, hfilter, rfl⟩ := exists_of_map_eq_ok h
      have hfewer (taken : Bool) : inkEach (if taken then options.drop 1 else options) ≤
          inkEach options := by
        cases taken
        · exact Nat.le_refl _
        · exact inkEach_le_of_sublist (List.drop_sublist _ _)
      refine Nat.le_trans (weight_of_filtered rfl rfl
        (Nat.le_trans (weights_of_readFilter hread hfilter) (hfewer _))) ?_
      omega
  · obtain ⟨category, _, rfl⟩ := exists_of_map_eq_ok h
    simp [Expr.weight_call, Call.parts, Expr.descriptions]
  · have := weight_of_readSchedule hread h
    omega
  · have := weight_of_readSchedule hread h
    omega
  · split at h
    · cases h
    · next e he =>
      obtain ⟨challenge, hchallenge, rfl⟩ := exists_of_map_eq_ok h
      have hweight := hread he
      rw [eq_of_challengeOnly hchallenge, Expr.weight_challenge] at hweight
      simp only [Expr.weight_call, Call.parts, Expr.descriptions, inks_nil]
      omega
  · cases h

end Call

namespace Expr

theorem bounded_readAt (depth : Nat) : Call.Bounded (readAt depth) := by
  induction depth with
  | zero => exact fun _ _ _ h => by cases h
  | succ depth ih =>
    intro force text e h
    simp only [readAt] at h
    split at h
    · cases h
    · next ts hts =>
      exact Nat.le_trans (weight_of_tree h) (weight_of_tokens (Call.bounded_read ih) hts)

/-- An expression weighs no more than the text that it is read from. -/
theorem weight_of_parse {text : String} {e : Expr} (h : parse text = .ok e) :
    e.weight ≤ ink text.toList := bounded_readAt _ h

end Expr

end QualityScript
