import QualityScript.Randomness.Source
import QualityScript.Number.Binary

/-!
# Draws

Fair draws from random words. A word times the size of a range gives the drawn number in its upper
half; words whose lower half is past the last full zone would make some numbers likelier and are
passed over. How many words may be passed over is a parameter: a source that is never accepted gives
no draw.
-/

namespace QualityScript.Randomness

/-- A draw from a source: its result and the source after it. -/
abbrev Draw (α : Type) := Source → Option (α × Source)

/-- A number below `size`, from words whose lower half of the product is at most `zone`. -/
def below (width : Width) (size zone : Nat) : Nat → Draw Nat
  | 0, _ => none
  | attempts + 1, source =>
    let (word, source) := source.next width
    let product := word * size
    if product % width.size ≤ zone then some (product / width.size, source)
    else below width size zone attempts source

/-- The zone of the ranges: as many whole multiples of the size as one shift gives. -/
def shiftZone (width : Width) (size : Nat) : Nat :=
  size * Nat.pow 2 (width.bits - 1 - size.log2) - 1

/-- The zone of the weights: all whole multiples of the size. -/
def moduloZone (width : Width) (size : Nat) : Nat :=
  width.size - 1 - width.size % size

/-- A number from zero to `last`. -/
def upTo (width : Width) (attempts last : Nat) : Draw Nat := fun source =>
  if last + 1 = width.size then some (source.next width)
  else below width (last + 1) (shiftZone width (last + 1)) attempts source

/-- A signed word between two bounds, both included. A draw counts from the lower bound; where the
bounds hold every word, the bits of the draw are the word itself. -/
def between (attempts : Nat) (lo hi : Int64) : Draw Int64 := fun source =>
  let last := (hi.toInt - lo.toInt).toNat
  let start := if last + 1 = Width.w64.size then 0 else lo.toInt
  (upTo .w64 attempts last source).map fun (n, source) => (Int64.ofInt (start + n), source)

/-- The size of a percent step: draws are multiples of `100 / 2 ^ 52`. -/
def percentUnits : Nat := Nat.pow 2 52

/-- A percentage from zero up to but not including one hundred. -/
def percent : Nat → Draw Float
  | 0, _ => none
  | attempts + 1, source =>
    let (word, source) := source.next .w64
    let x := Float.ofNat (word / 4096) / Float.ofNat percentUnits * 100
    if x < 100 then some (x, source) else percent attempts source

/-- One of the members of a list, none if it is empty. -/
def choose {α : Type} (attempts : Nat) (list : List α) : Draw (Option α) := fun source =>
  match list with
  | [] => some (none, source)
  | _ => (upTo .w32 attempts (list.length - 1) source).map fun (n, source) => (list[n]?, source)

def swap (list : List Nat) (i j : Nat) : List Nat :=
  (list.set i (list.getD j 0)).set j (list.getD i 0)

/-- Floyd's choice: from each of the last `count` indices up to `last` on, a draw up to the index;
a drawn index that is there already makes room for the index itself. `ordered` keeps every order
equally likely by putting that index in front of the one that was drawn. -/
def floyd (attempts : Nat) (ordered : Bool) : (count index : Nat) → List Nat → Draw (List Nat)
  | 0, _, chosen, source => some (chosen, source)
  | count + 1, index, chosen, source =>
    match upTo .w32 attempts index source with
    | none => none
    | some (drawn, source) =>
      let chosen := match chosen.idxOf? drawn with
        | some place => if ordered then chosen.insertIdx place index else chosen ++ [index]
        | none => chosen ++ [drawn]
      floyd attempts ordered count (index + 1) chosen source

/-- Brings the members from `i` down to one into random order. -/
def shuffle (attempts : Nat) : (i : Nat) → List Nat → Draw (List Nat)
  | 0, list, source => some (list, source)
  | i + 1, list, source =>
    match upTo .w32 attempts (i + 1) source with
    | none => none
    | some (j, source) => shuffle attempts i (swap list (i + 1) j) source

/-- Brings a random member to each of `count` places from `i` on. -/
def inPlace (attempts : Nat) : (count i : Nat) → List Nat → Draw (List Nat)
  | 0, _, list, source => some (list, source)
  | count + 1, i, list, source =>
    match upTo .w32 attempts (list.length - 1 - i) source with
    | none => none
    | some (j, source) => inPlace attempts count (i + 1) (swap list i (i + j)) source

/-- Whether so many out of so few are better brought to the front of a list of all. Left out are lists
of 500000 members and more, which have other factors, and the rejection of repeated indices, which is
for 163 members and more out of a list over 270 times as long. -/
def prefersInPlace (count size : Nat) : Bool :=
  if count < 163 then
    let k := Float32.ofNat count
    count > 11 && Float32.ofNat size < (10 + 1.6 * k) * k
  else true

/-- `count` distinct indices below `size`; `count` is at most `size`. -/
def indices (attempts count size : Nat) : Draw (List Nat) := fun source =>
  if prefersInPlace count size then
    (inPlace attempts count 0 (List.range size) source).map fun (list, source) =>
      (list.take count, source)
  else if count < 50 then floyd attempts true count (size - count) [] source
  else
    match floyd attempts false count (size - count) [] source with
    | none => none
    | some (list, source) => shuffle attempts (count - 1) list source

/-- Up to `count` members of a list, each place at most once. -/
def chooseMany {α : Type} (attempts count : Nat) (list : List α) : Draw (List α) := fun source =>
  (indices attempts (min count list.length) list.length source).map fun (places, source) =>
    (places.filterMap fun place => list[place]?, source)

/-- The place of the first member whose weight, with those before it, exceeds a number. -/
def weightedPlace (n : Nat) : List Nat → Nat
  | [] => 0
  | weight :: weights => if n < weight then 0 else weightedPlace (n - weight) weights + 1

def totalWeight : List Nat → Nat
  | [] => 0
  | weight :: weights => weight + totalWeight weights

/-- The place of a member drawn by weight, none if all weights are zero. Left out are weights with a
sum past the signed words: the sum is exact here, while adding up words overflows. -/
def weighted (attempts : Nat) (weights : List Nat) : Draw (Option Nat) := fun source =>
  let total := totalWeight weights
  if total = 0 then some (none, source)
  else
    (below .w64 total (moduloZone .w64 total) attempts source).map
      fun (n, source) => (some (weightedPlace n weights), source)

end QualityScript.Randomness
