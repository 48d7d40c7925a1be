import QualityScript.Text.Character

/-!
# Quotes in scripts

Single and double quotes enclose texts. A quote opens a text unless it directly follows a letter or
a numeral, so the apostrophe in `don't` is no quote. A text ends at the next quote of the same kind,
whatever stands between.
-/

namespace QualityScript.Text

def isQuote (c : Char) : Bool := c == '\'' || c == '"'

/-- Whether a quote after this character opens a text. -/
def opensQuote : Option Char → Bool
  | none => true
  | some c => !isAlphanumeric c

/-- Whether `c` is a quote that opens a text where `before` precedes it. -/
def startsQuote (before : Option Char) (c : Char) : Bool := isQuote c && opensQuote before

/-- The number of characters before the next quote `q`. -/
def quoteLength? (q : Char) : List Char → Option Nat
  | [] => none
  | c :: rest => if c = q then some 0 else (quoteLength? q rest).map (· + 1)

theorem quoteLength?_lt {q : Char} {text : List Char} {n : Nat} (h : quoteLength? q text = some n) :
    n < text.length := by
  induction text generalizing n with
  | nil => simp [quoteLength?] at h
  | cons c rest ih =>
    unfold quoteLength? at h
    split at h
    · simp at h; subst h; simp
    · obtain ⟨m, hm, rfl⟩ := Option.map_eq_some_iff.mp h
      have := ih hm
      simp; omega

/-- The quote is where its length says. -/
theorem getElem?_quoteLength? {q : Char} {text : List Char} {n : Nat}
    (h : quoteLength? q text = some n) : text[n]? = some q := by
  induction text generalizing n with
  | nil => simp [quoteLength?] at h
  | cons c rest ih =>
    unfold quoteLength? at h
    split at h
    · next e => simp at h; subst h; simp [e]
    · obtain ⟨m, hm, rfl⟩ := Option.map_eq_some_iff.mp h
      simpa using ih hm

theorem quoteLength?_isSome (q : Char) (text : List Char) :
    (quoteLength? q text).isSome = text.contains q := by
  induction text with
  | nil => rfl
  | cons c rest ih =>
    unfold quoteLength?
    by_cases h : c = q
    · simp [h]
    · simpa [h, ih] using fun e : q = c => absurd e.symm h

theorem quoteLength?_eq_none_iff {q : Char} {text : List Char} :
    quoteLength? q text = none ↔ q ∉ text := by
  rw [← Option.isNone_iff_eq_none, ← Option.not_isSome, quoteLength?_isSome]
  simp

theorem eq_of_quoteLength? {q : Char} {text : List Char} {n : Nat}
    (h : quoteLength? q text = some n) :
    ∃ content more, text = content ++ q :: more ∧ content.length = n ∧ q ∉ content := by
  induction text generalizing n with
  | nil => cases h
  | cons c rest ih =>
    unfold quoteLength? at h
    split at h
    · next hc =>
      cases h
      exact ⟨[], rest, by rw [hc]; rfl, rfl, List.not_mem_nil⟩
    · next hc =>
      obtain ⟨m, hm, rfl⟩ := Option.map_eq_some_iff.mp h
      obtain ⟨content, more, rfl, rfl, hnot⟩ := ih hm
      exact ⟨c :: content, more, rfl, rfl, by simp [hnot, Ne.symm hc]⟩

theorem quoteLength?_eq {q : Char} {content : List Char} (h : q ∉ content) (more : List Char) :
    quoteLength? q (content ++ q :: more) = some content.length := by
  induction content with
  | nil => simp [quoteLength?]
  | cons c rest ih =>
    rw [List.mem_cons, not_or] at h
    rw [List.cons_append, quoteLength?, if_neg (Ne.symm h.1), ih h.2]
    rfl

end QualityScript.Text
