import QualityScript.Number.Binary

/-!
# Texts of numbers

The decimal text of a binary number has the fewest digits that read back as the same number. The
reals that read back as `m · 2 ^ e` form an interval around it, whose ends belong to it exactly when
`m` is even. For one digit, two digits and so on the two neighbours of the value on the grid of such
decimals are tried; the first grid with a neighbour in the interval gives the text, and of two
neighbours the nearer, the upper one on a tie.

There are three layouts. The plain one has the shortest digits, never an exponent and no point where
there is no fraction. The pointed one always shows a fraction or an exponent, so that it cannot be
taken for a whole number. The fixed one has a given number of places, rounded from the exact value, a
half to the even neighbour.

A number is read from an optional sign and then one of the words `inf`, `infinity` and `nan` in any
case of letters, or digits with an optional point and an optional exponent. There is at least one
digit before the exponent, on either side of the point, and at least one in the exponent.
-/

namespace QualityScript.Number

/-- The decimal `digits · 10 ^ power`. -/
structure Decimal where
  digits : Nat
  power : Int
  deriving DecidableEq, Repr

structure Quotient where
  num : Nat
  den : Nat

namespace Quotient

def scale2 (q : Quotient) : Int → Quotient
  | .ofNat e => ⟨q.num * Nat.pow 2 e, q.den⟩
  | .negSucc e => ⟨q.num, q.den * Nat.pow 2 (e + 1)⟩

def descale10 (q : Quotient) : Int → Quotient
  | .ofNat e => ⟨q.num, q.den * Nat.pow 10 e⟩
  | .negSucc e => ⟨q.num * Nat.pow 10 (e + 1), q.den⟩

def le (a b : Quotient) : Bool := a.num * b.den ≤ b.num * a.den

def lt (a b : Quotient) : Bool := a.num * b.den < b.num * a.den

end Quotient

def digitCount (n : Nat) : Nat := (Nat.toDigits 10 n).length

/-- The exponent of the leading decimal digit of a quotient of at least `10 ^ -400`. -/
def leadingPower (q : Quotient) : Int :=
  (digitCount (q.num * Nat.pow 10 400 / q.den) : Int) - 401

/-- The reals that read back as one binary number. -/
structure Interval where
  low : Quotient
  high : Quotient
  closed : Bool

def Interval.contains (i : Interval) (q : Quotient) : Bool :=
  if i.closed then i.low.le q && q.le i.high else i.low.lt q && q.lt i.high

/-- The interval of `m · 2 ^ e`. Below a power of two the next number is only half as far away. -/
def roundingInterval (m : Nat) (e : Int) : Interval :=
  let below := if m = hiddenBit ∧ e > -1074 then 1 else 2
  { low := Quotient.scale2 ⟨4 * m - below, 1⟩ (e - 2)
    high := Quotient.scale2 ⟨4 * m + 2, 1⟩ (e - 2)
    closed := m % 2 == 0 }

/-- The decimal with `count` digits that reads back as the value, if there is one. -/
def decimalWith? (value : Quotient) (interval : Interval) (lead : Int) (count : Nat) :
    Option Decimal :=
  let power := lead - count + 1
  let scaled := value.descale10 power
  let lower := scaled.num / scaled.den
  let holds (d : Nat) := match power with
    | .ofNat p => interval.contains ⟨d * Nat.pow 10 p, 1⟩
    | .negSucc p => interval.contains ⟨d, Nat.pow 10 (p + 1)⟩
  match holds lower, holds (lower + 1) with
  | true, true =>
    if 2 * scaled.num < (2 * lower + 1) * scaled.den then some ⟨lower, power⟩
    else some ⟨lower + 1, power⟩
  | true, false => some ⟨lower, power⟩
  | false, true => some ⟨lower + 1, power⟩
  | false, false => none

/-- The decimal with its trailing zeros moved into the power. -/
def Decimal.normalize (d : Decimal) : Decimal :=
  if h : d.digits ≠ 0 ∧ d.digits % 10 = 0 then
    Decimal.normalize ⟨d.digits / 10, d.power + 1⟩
  else d
termination_by d.digits
decreasing_by exact Nat.div_lt_self (Nat.pos_of_ne_zero h.1) (by decide)

/-- The shortest decimal that reads back as the positive number `m · 2 ^ e`. Seventeen digits are
always enough. -/
def shortest (m : Nat) (e : Int) : Decimal :=
  let value := Quotient.scale2 ⟨m, 1⟩ e
  let interval := roundingInterval m e
  let lead := leadingPower value
  let found := (List.range 17).findSome? fun n => decimalWith? value interval lead (n + 1)
  (found.getD ⟨m, e⟩).normalize

def digitsOf (n : Nat) : List Char := Nat.toDigits 10 n

def zeros (n : Nat) : List Char := List.replicate n '0'

/-- A decimal in positional digits: whole part and fraction. -/
def Decimal.positional (d : Decimal) : List Char × List Char :=
  let ds := digitsOf d.digits
  match d.power with
  | .ofNat p => (ds ++ zeros p, [])
  | .negSucc p =>
    let places := p + 1
    if places < ds.length then (ds.take (ds.length - places), ds.drop (ds.length - places))
    else (['0'], zeros (places - ds.length) ++ ds)

/-- A decimal as one digit, a fraction if there are more digits, and the exponent. -/
def Decimal.scientific (d : Decimal) : List Char :=
  let ds := digitsOf d.digits
  let exponent := d.power + (ds.length - 1 : Nat)
  let mantissa := match ds with
    | [] => []
    | [c] => [c]
    | c :: rest => c :: '.' :: rest
  mantissa ++ 'e' :: (toString exponent).toList

def signText (negative : Bool) : List Char := if negative then ['-'] else []

def plainText (x : Float) : String :=
  match Binary.ofFloat x with
  | .nan => "NaN"
  | .infinite negative => if negative then "-inf" else "inf"
  | .finite negative m e =>
    if m = 0 then String.ofList (signText negative ++ ['0'])
    else
      let (whole, fraction) := (shortest m e).positional
      String.ofList (signText negative ++ whole ++ if fraction.isEmpty then [] else '.' :: fraction)

/-- The shortest digits with at least one place; below `0.0001` and from `10 ^ 16` on with an
exponent instead. -/
def pointedText (x : Float) : String :=
  match Binary.ofFloat x with
  | .nan => "NaN"
  | .infinite negative => if negative then "-inf" else "inf"
  | .finite negative m e =>
    if m = 0 then String.ofList (signText negative ++ ['0', '.', '0'])
    else
      let d := shortest m e
      if x.abs < 0.0001 || x.abs ≥ 1e16 then
        String.ofList (signText negative ++ d.scientific)
      else
        let (whole, fraction) := d.positional
        String.ofList (signText negative ++ whole ++ '.' :: if fraction.isEmpty then ['0'] else fraction)

/-- The quotient rounded to a whole number, a half to the even neighbour. -/
def roundEven (q : Quotient) : Nat :=
  let lower := q.num / q.den
  let rest := 2 * (q.num % q.den)
  if rest < q.den then lower
  else if q.den < rest then lower + 1
  else if lower % 2 = 0 then lower else lower + 1

def fixedText (places : Nat) (x : Float) : String :=
  match Binary.ofFloat x with
  | .nan => "NaN"
  | .infinite negative => if negative then "-inf" else "inf"
  | .finite negative m e =>
    let units := roundEven (Quotient.scale2 ⟨m * Nat.pow 10 places, 1⟩ e)
    let ds := digitsOf units
    let ds := zeros (places + 1 - ds.length) ++ ds
    let whole := ds.take (ds.length - places)
    let fraction := ds.drop (ds.length - places)
    String.ofList (signText negative ++ whole ++ if places = 0 then [] else '.' :: fraction)

def padLeft (width : Nat) (text : String) : String :=
  String.ofList (List.replicate (width - text.length) ' ' ++ text.toList)

def natOfDigits (digits : List Char) : Nat :=
  digits.foldl (fun n c => 10 * n + (c.toNat - '0'.toNat)) 0

def spanSign : List Char → Bool × List Char
  | '-' :: rest => (true, rest)
  | '+' :: rest => (false, rest)
  | text => (false, text)

def spanDigits (text : List Char) : List Char × List Char :=
  (text.takeWhile Char.isDigit, text.dropWhile Char.isDigit)

def floatOfDecimal (digits : Nat) (exponent : Int) : Float :=
  match exponent with
  | .ofNat e => Float.ofScientific digits false e
  | .negSucc e => Float.ofScientific digits true (e + 1)

def readNat? (text : List Char) : Option Nat :=
  if text ≠ [] ∧ text.all Char.isDigit then some (natOfDigits text) else none

def readWord? (text : List Char) : Option Int64 :=
  let (negative, digits) := spanSign text
  (readNat? digits).bind fun n =>
    let value : Int := if negative then -n else n
    if minWord ≤ value ∧ value ≤ maxWord then some (Int64.ofInt value) else none

/-- The unsigned word that a text consists of; it may have a plus sign. -/
def readUnsignedWord? (text : List Char) : Option UInt64 :=
  let digits := match text with
    | '+' :: rest => rest
    | text => text
  (readNat? digits).bind fun n => if n ≤ maxUnsigned then some (UInt64.ofNat n) else none

/-- The exponent that a text consists of, `0` for the empty text. -/
def readExponent? : List Char → Option Int
  | [] => some 0
  | c :: rest =>
    if c = 'e' ∨ c = 'E' then
      let (negative, rest) := spanSign rest
      if rest ≠ [] ∧ rest.all Char.isDigit then
        some (if negative then -(natOfDigits rest : Int) else natOfDigits rest)
      else none
    else none

def readUnsigned? (text : List Char) : Option Float :=
  let (whole, rest) := spanDigits text
  let (fraction, rest) := match rest with
    | '.' :: rest => spanDigits rest
    | rest => ([], rest)
  if whole = [] ∧ fraction = [] then none
  else
    (readExponent? rest).map fun exponent =>
      floatOfDecimal (natOfDigits (whole ++ fraction)) (exponent - fraction.length)

def readFloat? (text : List Char) : Option Float :=
  let (negative, rest) := spanSign text
  let magnitude := match String.ofList (rest.map Char.toLower) with
    | "inf" | "infinity" => some (1 / 0)
    | "nan" => some (0 / 0)
    | _ => readUnsigned? rest
  magnitude.map fun x => if negative then -x else x

end QualityScript.Number
