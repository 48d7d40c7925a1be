import QualityScript.Proofs.Syntax.Operands

/-!
# Texts of tokens

What the lexer reads as one token again: whole numbers in digits, texts in a quote that they do not
contain, references and names as they are shown, and the operators and parentheses. Written with a
blank between them, tokens are read back one by one.
-/

namespace QualityScript

open Text Lexer Number

theorem natOfDigits_digitsOf (n : Nat) : natOfDigits (digitsOf n) = n :=
  Nat.ofDigitChars_toDigits (by decide) (Nat.le_refl 10)

theorem isToken_int {n : Int64} (h : 0 ≤ n.toInt) : IsToken (Value.wordText n).toList (.int n) := by
  have htext : (Value.wordText n).toList = digitsOf n.toInt.natAbs := by
    rw [wordText_eq, String.toList_ofList, decide_eq_false (Int.not_lt.mpr h)]
    rfl
  have hbound : n.toInt ≤ maxWord := by
    have := n.toInt_lt
    unfold maxWord
    omega
  have hwhole : wholeNumber (digitsOf n.toInt.natAbs) = .int n := by
    have hnat : (n.toInt.natAbs : Int) = n.toInt := Int.natAbs_of_nonneg h
    have hword : Int64.ofNat n.toInt.natAbs = n := by
      rw [← Int64.ofInt_eq_ofNat, hnat, Int64.ofInt_toInt]
    simp only [wholeNumber, natOfDigits_digitsOf, hnat, hbound, if_true, hword]
  rw [htext]
  refine (isDecimal_digitsOf _).isToken ?_
  rw [takeNumber, spanDigits_of_forall fun _ hc => isDigit_of_mem_digitsOf hc]
  simp only [hwhole]

def quotedWith (q : Char) (s : String) : String := String.ofList (q :: (s.toList ++ [q]))

theorem isToken_quoted {q : Char} {s : String} (hq : isQuote q) (hs : q ∉ s.toList) :
    IsToken (quotedWith q s).toList (.text s) := by
  rw [quotedWith, String.toList_ofList]
  intro readCall more _
  have htake : takeToken readCall q ((s.toList ++ [q]) ++ more) =
      .ok (.text s, (s.toList ++ [q]).length) := by
    rw [takeToken, if_pos hq, List.append_assoc, List.singleton_append, takeText,
      quoteLength?_eq hs]
    simp
  have hblank : isBlank q = false := by
    simp only [isQuote, Bool.or_eq_true, beq_iff_eq] at hq
    obtain rfl | rfl := hq <;> rfl
  exact tokens_cons hblank htake

theorem isWord_of_all {text : String} {c : Char} {rest : List Char} (htext : text.toList = c :: rest)
    (hc : isLetter c) (hrest : rest.all isIdentChar) : IsWord text.toList :=
  ⟨c, rest, htext, by simp [hc], List.all_eq_true.mp hrest⟩

theorem spanIdent_eq {name more : List Char} (h : ∀ c ∈ name, isIdentChar c)
    (hmore : ∀ c ∈ more.head?, isIdentChar c = false) : spanIdent (name ++ more) = (name, more) := by
  have htake : more.takeWhile isIdentChar = [] := by
    cases more with
    | nil => rfl
    | cons c rest => exact List.takeWhile_cons_of_neg (by simp [hmore c rfl])
  have hdrop : more.dropWhile isIdentChar = more := by
    cases more with
    | nil => rfl
    | cons c rest => exact List.dropWhile_cons_of_neg (by simp [hmore c rfl])
  rw [spanIdent, List.takeWhile_append_of_pos h, List.dropWhile_append_of_pos h, htake, hdrop,
    List.append_nil]

theorem isToken_alias {name : String} (h : IsName name) :
    IsToken ("@" ++ name).toList (.aliasName name) := by
  have htext : ("@" ++ name).toList = '@' :: name.toList := by simp
  rw [htext]
  intro readCall more hmore
  obtain ⟨c, rest, hname⟩ := List.exists_cons_of_ne_nil h.ne_empty
  have htake : takeAlias (name.toList ++ more) = .ok (.aliasName name, name.toList.length) := by
    have hofList : String.ofList (c :: rest) = name := by rw [← hname, String.ofList_toList]
    rw [takeAlias, spanIdent_of_forall h.ident hmore, hname]
    simp only [hofList]
  exact tokens_cons rfl htake

/-! ## References -/

namespace Reference

/-- A property that a word after the dot names, or none. -/
inductive IsProperty : Property → Prop where
  | value : IsProperty .value
  | word {c : Char} {rest : List Char} : isLetter c → (∀ d ∈ rest, isIdentChar d) →
      IsProperty (.ofWord (String.ofList (c :: rest)))

theorem isProperty_spanProperty (text : List Char) : IsProperty (spanProperty text).1 := by
  unfold spanProperty
  split
  · next c rest =>
    split
    · next hc =>
      have hident : spanIdent (c :: rest) = (c :: (spanIdent rest).1, (spanIdent rest).2) := by
        simp [spanIdent, isIdentChar_of_isLetter hc]
      rw [hident]
      exact .word hc fun d hd => List.all_eq_true.mp List.all_takeWhile d hd
    · exact .value
  · exact .value

theorem isName_spanIdent {text rest : List Char} {id : List Char} (hne : id ≠ [])
    (h : spanIdent text = (id, rest)) : IsName (String.ofList id) := by
  have hid : id = text.takeWhile isIdentChar := (congrArg Prod.fst h).symm
  refine ⟨by rwa [String.toList_ofList], fun c hc => ?_⟩
  rw [String.toList_ofList, hid] at hc
  exact List.all_eq_true.mp List.all_takeWhile c hc

/-- A reference as the lexer reads one. -/
inductive IsRead : Reference → Prop where
  | self {property : Property} : IsProperty property → IsRead ⟨.self, "", property⟩
  | named {scope : Scope} {id : String} {property : Property} : scope ≠ .self → IsName id →
      IsProperty property → IsRead ⟨scope, id, property⟩

theorem isRead_of_spanNamed? {scope : Scope} (hscope : scope ≠ .self) {text rest : List Char}
    {reference : Reference} (h : spanNamed? scope text = some (reference, rest)) :
    IsRead reference := by
  unfold spanNamed? at h
  split at h
  · cases h
  · next id c tail hne heq =>
    have hname := isName_spanIdent hne heq
    have hproperty := isProperty_spanProperty (c :: tail)
    split at h
    · cases h
      exact .named hscope hname hproperty
    · cases h
      exact .named hscope hname .value
  · next id tail hne _ heq =>
    cases h
    exact .named hscope (isName_spanIdent hne heq) .value

theorem isRead_of_span? {text rest : List Char} {reference : Reference}
    (h : span? text = some (reference, rest)) : IsRead reference := by
  unfold span? at h
  split at h
  · cases h
    exact .self (isProperty_spanProperty _)
  · exact isRead_of_spanNamed? (by decide) h
  · exact isRead_of_spanNamed? (by decide) h
  · cases h

/-- A letter and characters of identifiers behind it. -/
def IsPropertyWord (word : String) : Prop :=
  ∃ c rest, word.toList = c :: rest ∧ isLetter c ∧ ∀ d ∈ rest, isIdentChar d

theorem isPropertyWord_of_all {word : String} {c : Char} {rest : List Char}
    (hword : word.toList = c :: rest) (hc : isLetter c) (hrest : rest.all isIdentChar) :
    IsPropertyWord word :=
  ⟨c, rest, hword, hc, List.all_eq_true.mp hrest⟩

theorem IsProperty.exists_word {property : Property} (h : IsProperty property) :
    property = .value ∨ property ≠ .value ∧ IsPropertyWord property.word ∧
      Property.ofWord property.word = property := by
  cases h with
  | value => exact .inl rfl
  | @word c rest hc hrest =>
    right
    generalize hword : String.ofList (c :: rest) = word
    have hspelled : IsPropertyWord word := ⟨c, rest, by rw [← hword, String.toList_ofList], hc, hrest⟩
    cases hproperty : Property.ofWord word with
    | variant key =>
      have hkey : key = word := by
        unfold Property.ofWord at hproperty
        split at hproperty <;> cases hproperty
        rfl
      subst hkey
      exact ⟨nofun, hspelled, hproperty⟩
    | value =>
      unfold Property.ofWord at hproperty
      split at hproperty <;> cases hproperty
    | level => exact ⟨nofun, isPropertyWord_of_all rfl (by decide) (by decide), rfl⟩
    | changePoints => exact ⟨nofun, isPropertyWord_of_all rfl (by decide) (by decide), rfl⟩
    | kind => exact ⟨nofun, isPropertyWord_of_all rfl (by decide) (by decide), rfl⟩
    | name => exact ⟨nofun, isPropertyWord_of_all rfl (by decide) (by decide), rfl⟩
    | description => exact ⟨nofun, isPropertyWord_of_all rfl (by decide) (by decide), rfl⟩
    | plural => exact ⟨nofun, isPropertyWord_of_all rfl (by decide) (by decide), rfl⟩
    | capital => exact ⟨nofun, isPropertyWord_of_all rfl (by decide) (by decide), rfl⟩

theorem spanProperty_word {word : String} (h : IsPropertyWord word) :
    spanProperty word.toList = (.ofWord word, []) := by
  obtain ⟨c, rest, hword, hc, hrest⟩ := h
  have hall : ∀ d ∈ c :: rest, isIdentChar d :=
    List.forall_mem_cons.mpr ⟨isIdentChar_of_isLetter hc, hrest⟩
  have hident : spanIdent (c :: rest ++ []) = (c :: rest, []) := spanIdent_eq hall (by simp)
  rw [List.append_nil] at hident
  have hofList : String.ofList (c :: rest) = word := by rw [← hword, String.ofList_toList]
  rw [hword, spanProperty, if_pos hc, hident]
  simp only [hofList]

variable {scope : Scope} {id word : String}

theorem spanNamed?_id (h : IsName id) :
    spanNamed? scope id.toList = some (⟨scope, id, .value⟩, []) := by
  have hident : spanIdent (id.toList ++ []) = (id.toList, []) := spanIdent_eq h.ident (by simp)
  obtain ⟨c, rest, hid⟩ := List.exists_cons_of_ne_nil h.ne_empty
  have hofList : String.ofList (c :: rest) = id := by rw [← hid, String.ofList_toList]
  rw [List.append_nil, hid] at hident
  simp [spanNamed?, hid, hident, hofList]

theorem spanNamed?_property (h : IsName id) (hword : IsPropertyWord word) :
    spanNamed? scope (id.toList ++ '.' :: word.toList) = some (⟨scope, id, .ofWord word⟩, []) := by
  have hident : spanIdent (id.toList ++ '.' :: word.toList) = (id.toList, '.' :: word.toList) :=
    spanIdent_eq h.ident (by rintro _ ⟨⟩; decide)
  have hproperty := spanProperty_word hword
  obtain ⟨d, more, heq, hd, -⟩ := hword
  obtain ⟨c, rest, hid⟩ := List.exists_cons_of_ne_nil h.ne_empty
  have hofList : String.ofList (c :: rest) = id := by rw [← hid, String.ofList_toList]
  rw [hid, heq] at hident
  rw [heq] at hproperty
  rw [hid, heq, spanNamed?, hident]
  simp [hofList, hd, hproperty]

theorem span?_player {text : List Char} (h : text.head? ≠ some '.') :
    span? ('$' :: text) = spanNamed? .player text := by
  cases text with
  | nil => rfl
  | cons c rest =>
    have hdot : c ≠ '.' := fun heq => h (congrArg some heq)
    simp [span?, hdot]

theorem head?_ne_dot (h : IsName id) (more : List Char) :
    (id.toList ++ more).head? ≠ some '.' := by
  obtain ⟨c, rest, hid⟩ := List.exists_cons_of_ne_nil h.ne_empty
  rw [hid, List.cons_append, List.head?_cons]
  rintro ⟨⟩
  have hdot := h.ident '.' (by rw [hid]; exact .head _)
  exact absurd hdot (by decide)

/-- A reference is read back from its text. -/
theorem IsRead.exists_display {reference : Reference} (h : IsRead reference) :
    ∃ marker text, reference.display.toList = marker :: text ∧ (marker = '$' ∨ marker = '#') ∧
      span? (marker :: text) = some (reference, []) := by
  cases h with
  | @self property hproperty =>
    obtain rfl | ⟨hne, hword, hofWord⟩ := hproperty.exists_word
    · exact ⟨'$', ['.'], rfl, .inl rfl, rfl⟩
    · refine ⟨'$', '.' :: property.word.toList, ?_, .inl rfl, ?_⟩
      · cases property <;> first | exact absurd rfl hne | simp [display]
      · rw [span?, spanProperty_word hword, hofWord]
  | @named scope id property hscope hid hproperty =>
    have hspan (text : List Char) (htext : text.head? ≠ some '.') : ∃ marker,
        scope.marker.toList = [marker] ∧ (marker = '$' ∨ marker = '#') ∧
          span? (marker :: text) = spanNamed? scope text := by
      cases scope with
      | player => exact ⟨'$', rfl, .inl rfl, span?_player htext⟩
      | world => exact ⟨'#', rfl, .inr rfl, rfl⟩
      | self => exact absurd rfl hscope
    obtain rfl | ⟨hne, hword, hofWord⟩ := hproperty.exists_word
    · obtain ⟨marker, hmarker, hor, heq⟩ := hspan id.toList (by simpa using head?_ne_dot hid [])
      refine ⟨marker, id.toList, ?_, hor, heq.trans (spanNamed?_id hid)⟩
      have hdisplay : (⟨scope, id, .value⟩ : Reference).display = scope.marker ++ id := by
        cases scope <;> first | exact absurd rfl hscope | rfl
      rw [hdisplay, String.toList_append, hmarker, List.singleton_append]
    · obtain ⟨marker, hmarker, hor, heq⟩ := hspan _ (head?_ne_dot hid ('.' :: property.word.toList))
      refine ⟨marker, id.toList ++ '.' :: property.word.toList, ?_, hor, ?_⟩
      · have hdisplay : (⟨scope, id, property⟩ : Reference).display =
            scope.marker ++ id ++ "." ++ property.word := by
          cases scope <;> first
            | exact absurd rfl hscope
            | cases property <;> first | exact absurd rfl hne | rfl
        simp [hdisplay, hmarker]
      · rw [heq, spanNamed?_property hid hword, hofWord]

end Reference

theorem isToken_display {reference : Reference} (h : reference.IsRead) :
    IsToken reference.display.toList (.ref reference .none) := by
  obtain ⟨marker, text, htext, hmarker, hspan⟩ := h.exists_display
  rw [htext]
  exact isToken_of_span? hmarker hspan

/-! ## Operators and parentheses -/

theorem isToken_single {c : Char} {t : Token} (hblank : isBlank c = false)
    (htake : ∀ readCall rest, takeToken readCall c rest = takeOp c rest)
    (hsingle : Token.single? c = some t) : IsToken [c] t := by
  intro readCall more hmore
  have htoken : takeToken readCall c ([] ++ more) = .ok (t, ([] : List Char).length) := by
    rw [htake, hmore.takeOp_append, takeOp, hsingle]
    rfl
  exact tokens_cons hblank htoken

theorem isToken_pair {c d : Char} {op : Op} (hblank : isBlank c = false)
    (htake : ∀ readCall rest, takeToken readCall c rest = takeOp c rest)
    (hpair : Token.pairOp? c d = some op) : IsToken [c, d] (.op op) := by
  intro readCall more _
  have htoken : takeToken readCall c ([d] ++ more) = .ok (.op op, [d].length) := by
    rw [htake, takeOp, List.singleton_append, List.head?_cons, Option.bind_some, hpair]
    rfl
  exact tokens_cons hblank htoken

def ArithOp.text : ArithOp → String
  | add => "+"
  | sub => "-"
  | mul => "*"
  | div => "/"

def CompareOp.text : CompareOp → String
  | gt => ">"
  | lt => "<"
  | ge => ">="
  | le => "<="
  | eq => "=="
  | ne => "!="

theorem isToken_arith (op : ArithOp) : IsToken op.text.toList (.op (.arith op)) := by
  cases op <;> exact isToken_single rfl (fun _ _ => rfl) rfl

theorem isToken_compare (op : CompareOp) : IsToken op.text.toList (.op (.compare op)) := by
  cases op with
  | gt | lt => exact isToken_single rfl (fun _ _ => rfl) rfl
  | ge | le | eq | ne => exact isToken_pair rfl (fun _ _ => rfl) rfl

/-- The text of a token that stands in a printed tree. -/
def Token.written (quoteFor : String → Char) : Token → String
  | .int n => Value.wordText n
  | .text s => quotedWith (quoteFor s) s
  | .ref reference _ => reference.display
  | .aliasName name => "@" ++ name
  | .word w => w
  | .op (.arith o) => o.text
  | .op (.compare o) => o.text
  | .op .and => "&&"
  | .op .or => "||"
  | .op .not => "!"
  | .openParen => "("
  | .closeParen => ")"
  | _ => ""

/-- Texts of tokens with one blank between them are read as the tokens. -/
theorem tokens_intercalate {texts : List String} {ts : List Token}
    (h : List.Forall₂ (fun text t => IsToken text.toList t) texts ts) (readCall : CallReader) :
    tokens readCall (" ".intercalate texts).toList = .ok ts := by
  induction h with
  | nil => simp [tokens]
  | @cons text t texts ts htoken h ih =>
    cases h with
    | nil =>
      have hread := htoken readCall [] .nil
      rw [List.append_nil, tokens] at hread
      rw [String.intercalate_singleton, hread]
      rfl
    | @cons text' t' texts ts htoken' h =>
      have hread := htoken readCall _ 
        (.blank (c := ' ') rfl (" ".intercalate (text' :: texts)).toList)
      rw [tokens_blank rfl, ih] at hread
      have htext : (" ".intercalate (text :: text' :: texts)).toList =
          text.toList ++ ' ' :: (" ".intercalate (text' :: texts)).toList := by
        simp [String.intercalate_cons_cons]
      rw [htext, hread]
      rfl

end QualityScript
