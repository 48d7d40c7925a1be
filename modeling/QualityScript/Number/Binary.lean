/-!
# Words and binary numbers

Levels, change points and whole results are signed 64-bit words. An exact integer that does not fit
is brought to the nearer end of the range.

A binary64 word stands for an infinity, for no number, or for `± mantissa · 2 ^ exponent`. All
rounding to whole numbers is done on the mantissa and the exponent in exact arithmetic; a half
goes away from zero.
-/

namespace QualityScript.Number

def maxWord : Int := 9223372036854775807

def minWord : Int := -9223372036854775808

/-- The integer limited to the range of a signed word. -/
def limit (n : Int) : Int := max minWord (min maxWord n)

/-- The signed word nearest to an integer. -/
def saturate (n : Int) : Int64 := Int64.ofInt (limit n)

def maxUnsigned : Nat := 18446744073709551615

def saturateUnsigned (n : Nat) : UInt64 := UInt64.ofNat (min n maxUnsigned)

theorem minWord_le_limit (n : Int) : minWord ≤ limit n := Int.le_max_left _ _

theorem limit_le_maxWord (n : Int) : limit n ≤ maxWord := by
  unfold limit maxWord minWord; omega

theorem limit_of_mem {n : Int} (h₁ : minWord ≤ n) (h₂ : n ≤ maxWord) : limit n = n := by
  unfold limit; omega

@[simp] theorem toInt_saturate (n : Int) : (saturate n).toInt = limit n := by
  unfold saturate
  apply Int64.toInt_ofInt_of_le
  · exact minWord_le_limit n
  · have := limit_le_maxWord n
    unfold maxWord at this
    omega

/-- A word is its own nearest word. -/
@[simp] theorem saturate_toInt (w : Int64) : saturate w.toInt = w := by
  apply Int64.toInt_inj.mp
  rw [toInt_saturate]
  apply limit_of_mem
  · exact Int64.le_toInt w
  · have := Int64.toInt_lt w
    unfold maxWord
    omega

inductive Binary where
  | nan
  | infinite (negative : Bool)
  | finite (negative : Bool) (mantissa : Nat) (exponent : Int)
  deriving DecidableEq, Repr

/-- The leading bit of a mantissa, above its 52 bits of fraction. -/
def hiddenBit : Nat := Nat.pow 2 52

namespace Binary

/-- Reads the sign bit, eleven bits of exponent and 52 bits of fraction. -/
def ofBits (bits : Nat) : Binary :=
  let negative : Bool := bits / (2048 * hiddenBit) % 2 == 1
  let biased : Nat := bits / hiddenBit % 2048
  let fraction : Nat := bits % hiddenBit
  if biased = 2047 then
    if fraction = 0 then infinite negative else nan
  else if biased = 0 then
    finite negative fraction (-1074)
  else
    finite negative (hiddenBit + fraction) ((biased : Int) - 1075)

def ofFloat (x : Float) : Binary := ofBits x.toBits.toNat

end Binary

/-- The whole number nearest to `mantissa · 2 ^ exponent`, a half upwards. -/
def roundMagnitude (mantissa : Nat) : Int → Nat
  | .ofNat e => mantissa * Nat.pow 2 e
  | .negSucc k => (mantissa + Nat.pow 2 k) / Nat.pow 2 (k + 1)

/-- The whole part of `mantissa · 2 ^ exponent`. -/
def wholeMagnitude (mantissa : Nat) : Int → Nat
  | .ofNat e => mantissa * Nat.pow 2 e
  | .negSucc k => mantissa / Nat.pow 2 (k + 1)

def isWholeMagnitude (mantissa : Nat) : Int → Bool
  | .ofNat _ => true
  | .negSucc k => mantissa % Nat.pow 2 (k + 1) == 0

def signed (negative : Bool) (magnitude : Nat) : Int :=
  if negative then -(magnitude : Int) else magnitude

/-- The nearest word, a half away from zero; no number counts as zero. -/
def roundWord (x : Float) : Int64 :=
  match Binary.ofFloat x with
  | .nan => 0
  | .infinite negative => if negative then saturate minWord else saturate maxWord
  | .finite negative m e => saturate (signed negative (roundMagnitude m e))

/-- The nearest unsigned word, a half away from zero; negative values count as zero. -/
def roundUnsigned (x : Float) : UInt64 :=
  match Binary.ofFloat x with
  | .nan => 0
  | .infinite negative => if negative then 0 else saturateUnsigned maxUnsigned
  | .finite negative m e => if negative then 0 else saturateUnsigned (roundMagnitude m e)

/-- The nearest whole number as a float, a half away from zero. The sign of zero is kept. -/
def roundFloat (x : Float) : Float :=
  match Binary.ofFloat x with
  | .finite negative m (.negSucc k) =>
    let magnitude := Float.ofNat (roundMagnitude m (.negSucc k))
    if negative then -magnitude else magnitude
  | _ => x

/-- The magnitude with a step to the next whole number where `up` asks for it and there is a rest. -/
def stepMagnitude (mantissa : Nat) (exponent : Int) (up : Bool) : Nat :=
  if up && !isWholeMagnitude mantissa exponent then wholeMagnitude mantissa exponent + 1
  else wholeMagnitude mantissa exponent

/-- A whole number beside the value: away from zero where `up` of the sign holds, else towards zero.
The sign of zero is kept. -/
def wholeBeside (up : Bool → Bool) (x : Float) : Float :=
  match Binary.ofFloat x with
  | .finite negative m (.negSucc k) =>
    let magnitude := Float.ofNat (stepMagnitude m (.negSucc k) (up negative))
    if negative then -magnitude else magnitude
  | _ => x

def floorFloat (x : Float) : Float := wholeBeside (fun negative => negative) x

def ceilFloat (x : Float) : Float := wholeBeside (fun negative => !negative) x

/-- The value as an exact integer, if it is a whole number. -/
def whole? (x : Float) : Option Int :=
  match Binary.ofFloat x with
  | .finite negative m e =>
    if isWholeMagnitude m e then some (signed negative (wholeMagnitude m e)) else none
  | _ => none

/-- The float nearest to a signed word. -/
def ofWord (w : Int64) : Float := Float.ofInt w.toInt

example : roundWord 2.5 = 3 ∧ roundWord (-2.5) = -3 ∧ roundWord (0 / 0) = 0 := by decide +kernel
example : floorFloat (-2.5) = -3 ∧ ceilFloat (-2.5) = -2 ∧ ceilFloat 2.25 = 3 := by decide +kernel
example : whole? 12 = some 12 ∧ whole? 0.5 = none := by decide +kernel

end QualityScript.Number
