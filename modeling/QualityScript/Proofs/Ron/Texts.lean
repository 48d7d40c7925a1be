import QualityScript.Ron.Token
import QualityScript.Ron.Writer

/-!
# Written texts are read back

Every character of a written text stands for itself or is an escape, and the reader takes each escape
for the character that was written. So a text is read back up to its closing quote, whatever follows.
-/

namespace QualityScript.Ron

open Text

theorem hexDigit?_digitChar {d : Nat} (h : d < 16) : hexDigit? d.digitChar = some d := by
  revert d
  decide

theorem exists_digitChar_of_mem_toDigits {n : Nat} {c : Char} (h : c ∈ Nat.toDigits 16 n) :
    ∃ d < 16, c = d.digitChar := by
  induction n using Nat.strongRecOn with
  | _ n ih =>
    by_cases hlt : n < 16
    · rw [Nat.toDigits_of_lt_base hlt, List.mem_singleton] at h
      exact ⟨n, hlt, h⟩
    · rw [Nat.toDigits_of_base_le (by decide) (by omega), List.mem_append,
        List.mem_singleton] at h
      rcases h with h | h
      · exact ih (n / 16) (by omega) h
      · exact ⟨n % 16, Nat.mod_lt n (by decide), h⟩

theorem digitChar_ne_brace : ∀ d < 16, d.digitChar ≠ '\x7d' := by decide

theorem hexValue?_toDigits (n : Nat) : hexValue? (Nat.toDigits 16 n) = some n := by
  induction n using Nat.strongRecOn with
  | _ n ih =>
    unfold hexValue? at ih ⊢
    by_cases hlt : n < 16
    · rw [Nat.toDigits_of_lt_base hlt]
      simp [hexDigit?_digitChar hlt]
    · rw [Nat.toDigits_of_base_le (by decide) (by omega), List.foldlM_append,
        ih (n / 16) (by omega)]
      have hdigit := hexDigit?_digitChar (Nat.mod_lt n (by decide : 0 < 16))
      have hsum : 16 * (n / 16) + n % 16 = n := Nat.div_add_mod n 16
      simp [hdigit, hsum]

theorem charOf?_toNat (c : Char) : charOf? c.toNat = some c := by
  have hvalid : c.toNat.isValidChar := c.valid
  rw [charOf?, if_pos hvalid, Char.ofNat_toNat]

/-- After a backslash these characters are read as `c`. -/
def IsEscape (escape : List Char) (c : Char) : Prop :=
  ∀ rest, escape? (escape ++ rest) = some (c, escape.length)

theorem isEscape_codePoint (c : Char) :
    IsEscape ('u' :: '\x7b' :: (Nat.toDigits 16 c.toNat ++ ['\x7d'])) c := by
  intro rest
  have hdigits : ∀ d ∈ Nat.toDigits 16 c.toNat, d ≠ '\x7d' := by
    intro d hd
    obtain ⟨n, hn, rfl⟩ := exists_digitChar_of_mem_toDigits hd
    exact digitChar_ne_brace n hn
  have htake : (Nat.toDigits 16 c.toNat ++ '\x7d' :: rest).takeWhile (· ≠ '\x7d') =
      Nat.toDigits 16 c.toNat := by
    rw [List.takeWhile_append_of_pos fun d hd => by simpa using hdigits d hd]
    simp
  have hne : (Nat.toDigits 16 c.toNat).isEmpty = false := by simp
  have hshort : (Nat.toDigits 16 c.toNat).length ≤ 6 := by
    rw [Nat.length_toDigits_le_iff (by decide) (by decide)]
    have hvalid : c.toNat < 55296 ∨ 57343 < c.toNat ∧ c.toNat < 1114112 := c.valid
    omega
  have hclosed : (Nat.toDigits 16 c.toNat).length ≠
      (Nat.toDigits 16 c.toNat).length + (rest.length + 1) := by
    omega
  have hchars : 'u' :: '\x7b' :: (Nat.toDigits 16 c.toNat ++ ['\x7d']) ++ rest =
      'u' :: '\x7b' :: (Nat.toDigits 16 c.toNat ++ '\x7d' :: rest) := by
    simp
  rw [hchars, escape?]
  simp only [htake, hne, Nat.not_lt.mpr hshort, decide_false, Bool.or_self, List.length_append,
    List.length_cons, List.length_nil, hclosed, Bool.false_eq_true, if_false, hexValue?_toDigits,
    Option.bind_some, charOf?_toNat, Option.map_some]

theorem writtenChar_cases (c : Char) :
    (∃ escape, writtenChar c = '\\' :: escape ∧ IsEscape escape c) ∨
      writtenChar c = [c] ∧ c ≠ '"' ∧ c ≠ '\\' := by
  unfold writtenChar
  split
  · next h =>
    subst h
    exact .inl ⟨['\''], rfl, fun _ => rfl⟩
  · unfold quotedChar
    split
    · exact .inl ⟨['0'], rfl, fun _ => rfl⟩
    · exact .inl ⟨['t'], rfl, fun _ => rfl⟩
    · exact .inl ⟨['n'], rfl, fun _ => rfl⟩
    · exact .inl ⟨['r'], rfl, fun _ => rfl⟩
    · exact .inl ⟨['"'], rfl, fun _ => rfl⟩
    · exact .inl ⟨['\\'], rfl, fun _ => rfl⟩
    · next hquote hbackslash =>
      split
      · exact .inl ⟨_, rfl, isEscape_codePoint c⟩
      · exact .inr ⟨rfl, hquote, hbackslash⟩

theorem quotedFrom?_passed (passed rest : List Char) :
    quotedFrom? passed.length (passed ++ rest) = quotedFrom? 0 rest := by
  induction passed with
  | nil => rfl
  | cons c passed ih => exact ih

theorem quotedFrom?_writtenChar (c : Char) (rest : List Char) :
    quotedFrom? 0 (writtenChar c ++ rest) =
      (quotedFrom? 0 rest).map fun (cs, rest) => (c :: cs, rest) := by
  rcases writtenChar_cases c with ⟨escape, hwritten, hescape⟩ | ⟨hwritten, hquote, hbackslash⟩
  · rw [hwritten, List.cons_append, quotedFrom?, if_neg (by decide), if_pos rfl, hescape rest]
    simp only [quotedFrom?_passed]
  · rw [hwritten, List.singleton_append, quotedFrom?, if_neg hquote, if_neg hbackslash]

theorem quotedFrom?_flatMap_writtenChar (chars rest : List Char) :
    quotedFrom? 0 (chars.flatMap writtenChar ++ '"' :: rest) = some (chars, rest) := by
  induction chars with
  | nil => rfl
  | cons c chars ih =>
    rw [List.flatMap_cons, List.append_assoc, quotedFrom?_writtenChar, ih, Option.map_some]

/-- A written text is read back, whatever follows. -/
theorem text?_writtenText (value : String) (rest : List Char) :
    text? (writtenText value ++ rest) = some (value, rest) := by
  have hchars : writtenText value ++ rest =
      '"' :: (value.toList.flatMap writtenChar ++ '"' :: rest) := by
    simp [writtenText]
  rw [hchars, text?]
  simp only [quotedFrom?_flatMap_writtenChar, Option.map_some, String.ofList_toList]

end QualityScript.Ron
