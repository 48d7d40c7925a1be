import QualityScript.Proofs.Syntax.Nesting
import Mathlib.Data.List.Chain

/-!
# The order of tokens

Tokens that spell an expression form a phrase: operands with links between them, signs in front,
parentheses around and percent signs behind. In a phrase parentheses pair, nothing is changed, no
semicolon stands, and no quoted text follows a word or a number directly.
-/

namespace QualityScript

open Grammar

namespace Token

/-- A token between two operands. -/
def isLink : Token → Bool
  | .op (.change _) => false
  | .op _ | .comma => true
  | _ => false

def isQuoted : Token → Bool
  | .text _ => true
  | _ => false

/-- A token that can end with a letter or a digit. -/
def endsInWord : Token → Bool
  | .int _ | .float _ | .ref .. | .aliasName _ | .word _ => true
  | _ => false

def isOpen : Token → Bool
  | .openParen => true
  | _ => false

def isClose : Token → Bool
  | .closeParen => true
  | _ => false

/-- A quoted text must not follow a word directly. -/
def MayPrecede (t t' : Token) : Prop := t.endsInWord → t'.isQuoted = false

end Token

inductive Phrase : List Token → Prop where
  | operand {t : Token} {e : Expr} : operand? t = some e → Phrase [t]
  | signed {t : Token} {ts : List Token} : t.isLink → Phrase ts → Phrase (t :: ts)
  | parens {ts : List Token} : Phrase ts → Phrase (.openParen :: (ts ++ [.closeParen]))
  | linked {a b : List Token} {t : Token} : t.isLink → Phrase a → Phrase b → Phrase (a ++ t :: b)
  | rolled {ts : List Token} : Phrase ts → Phrase (ts ++ [.percent])

theorem isLink_of_direction? {t : Token} {d : Direction} (h : direction? t = some d) : t.isLink := by
  unfold direction? at h
  split at h <;> first | rfl | cases h

theorem isLink_of_joins {t : Token} (h : joins t) : t.isLink := by
  cases t with
  | op op => cases op <;> simp_all [joins, joinsAnd, joinsOr, Token.isLink]
  | comma => rfl
  | _ => cases h

theorem Token.endsInWord_of_isLink {t : Token} (h : t.isLink) : t.endsInWord = false := by
  cases t <;> first | rfl | cases h

theorem Token.isQuoted_of_isLink {t : Token} (h : t.isLink) : t.isQuoted = false := by
  cases t <;> first | rfl | cases h

/-- A token that is no parenthesis, no change and no semicolon. -/
structure Token.IsLight (t : Token) : Prop where
  isOpen : t.isOpen = false
  isClose : t.isClose = false
  isSemicolon : isSemicolon t = false
  isChange : isChange t = false

theorem isLight_of_isLink {t : Token} (h : t.isLink) : t.IsLight := by
  cases t with
  | op op =>
    cases op with
    | change => cases h
    | _ => exact ⟨rfl, rfl, rfl, rfl⟩
  | comma => exact ⟨rfl, rfl, rfl, rfl⟩
  | _ => cases h

theorem isLight_of_operand? {t : Token} {e : Expr} (h : operand? t = some e) : t.IsLight := by
  cases t with
  | int | float | text | ref | aliasName | word | call => exact ⟨rfl, rfl, rfl, rfl⟩
  | _ => cases h

theorem Spells.phrase {ts : List Token} {items : List Expr} (h : Spells ts items) : Phrase ts := by
  induction h with
  | operand h => exact .operand h
  | neg _ ih | plus _ ih | not _ ih => exact .signed rfl ih
  | parens _ ih => exact .parens ih
  | arith op _ _ iha ihb | compare op _ _ iha ihb => exact .linked rfl iha ihb
  | challenge ht _ _ iha ihb => exact .linked (isLink_of_direction? ht) iha ihb
  | rolled ht _ _ iha ihb => exact .linked (isLink_of_direction? ht) iha (.rolled ihb)
  | joined ht _ _ iha ihb => exact .linked (isLink_of_joins ht) iha ihb
  | and _ _ ih | or _ _ ih => exact ih

namespace Phrase

variable {ts : List Token}

theorem ne_nil (h : Phrase ts) : ts ≠ [] := by
  cases h <;> simp

theorem countP_isOpen (h : Phrase ts) : ts.countP (·.isOpen) = ts.countP (·.isClose) := by
  induction h with
  | operand h => simp [(isLight_of_operand? h).isOpen, (isLight_of_operand? h).isClose]
  | signed h _ ih => simp [(isLight_of_isLink h).isOpen, (isLight_of_isLink h).isClose, ih]
  | parens _ ih =>
    simp only [List.countP_cons, List.countP_append, List.countP_nil, ih]
    rfl
  | linked h _ _ iha ihb =>
    simp [(isLight_of_isLink h).isOpen, (isLight_of_isLink h).isClose, iha, ihb]
  | rolled _ ih =>
    simp only [List.countP_append, ih]
    rfl

theorem isSemicolon_and_isChange (h : Phrase ts) {t : Token} (ht : t ∈ ts) :
    isSemicolon t = false ∧ isChange t = false := by
  have hlight {t : Token} (h : t.IsLight) := And.intro h.isSemicolon h.isChange
  induction h with
  | operand h =>
    cases List.mem_singleton.mp ht
    exact hlight (isLight_of_operand? h)
  | signed h _ ih =>
    obtain rfl | ht := List.mem_cons.mp ht
    · exact hlight (isLight_of_isLink h)
    · exact ih ht
  | parens _ ih =>
    simp only [List.mem_cons, List.mem_append, List.not_mem_nil, or_false] at ht
    obtain rfl | ht | rfl := ht
    · exact ⟨rfl, rfl⟩
    · exact ih ht
    · exact ⟨rfl, rfl⟩
  | linked h _ _ iha ihb =>
    simp only [List.mem_append, List.mem_cons] at ht
    obtain ht | rfl | ht := ht
    · exact iha ht
    · exact hlight (isLight_of_isLink h)
    · exact ihb ht
  | rolled _ ih =>
    simp only [List.mem_append, List.mem_singleton] at ht
    obtain ht | rfl := ht
    · exact ih ht
    · exact ⟨rfl, rfl⟩

/-- No quoted text directly follows a word or a number. -/
theorem isChain_mayPrecede (h : Phrase ts) : ts.IsChain Token.MayPrecede := by
  have hfree {t : Token} (h : t.endsInWord = false) (t' : Token) : t.MayPrecede t' :=
    fun hw => by simp [h] at hw
  induction h with
  | operand => exact List.isChain_singleton _
  | signed h _ ih => exact ih.cons fun _ _ => hfree (Token.endsInWord_of_isLink h) _
  | parens _ ih =>
    refine (ih.append (List.isChain_singleton _) fun x _ y hy => ?_).cons fun _ _ => hfree rfl _
    cases hy
    exact fun _ => rfl
  | linked h _ _ iha ihb =>
    refine iha.append (ihb.cons fun _ _ => hfree (Token.endsInWord_of_isLink h) _) fun x _ y hy => ?_
    cases hy
    exact fun _ => Token.isQuoted_of_isLink h
  | rolled _ ih =>
    refine ih.append (List.isChain_singleton _) fun x _ y hy => ?_
    cases hy
    exact fun _ => rfl

end Phrase

/-- A challenge without its parameters. -/
def Challenge.bare (c : Challenge) (roll : Bool) : Challenge :=
  .plain c.subject c.direction c.target roll

namespace Grammar

/-- What is spelled without a semicolon has no parameters. -/
theorem bare_of_spells {ts : List Token} {items : List Expr} (h : Spells ts items) {c : Challenge}
    (hc : .challenge c ∈ items) : c = c.bare c.roll := by
  induction h with
  | operand h =>
    cases List.mem_singleton.mp hc
    unfold operand? at h
    split at h <;> first | cases h | (unfold ofWord at h; split at h; cases h; split at h <;> cases h)
  | plus _ ih | parens _ ih => exact ih hc
  | neg | not | arith | compare => cases List.mem_singleton.mp hc
  | challenge | rolled =>
    cases List.mem_singleton.mp hc
    rfl
  | joined _ _ _ iha ihb =>
    obtain hc | hc := List.mem_append.mp hc
    · exact iha hc
    · exact ihb hc
  | and | or => cases List.mem_singleton.mp hc

end Grammar

end QualityScript
