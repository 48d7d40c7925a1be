/-!
# Random sources

A source is an endless sequence of random words and the number of words that were taken from it. The
words are either 64 bits wide, and a draw of 32 bits takes the lower half of one, or they are 32
bits wide, and a draw of 64 bits takes two, the lower half first.

Two kinds of sequences are written out. For replaying there are listed words and then the SplitMix64
sequence of a seed, whose state grows by the same odd number with every draw, so that each of its
words can be told at once. The others are the words of the cipher ChaCha in blocks of sixteen, with
twelve rounds, a block counter of 64 bits that starts at zero, and a stream number of zero; the key of
eight words is made from a seed of 64 bits by the generator PCG32.
-/

namespace QualityScript.Randomness

inductive Stream where
  | wide (word : Nat → UInt64)
  | narrow (word : Nat → UInt32)

structure Source where
  stream : Stream
  position : Nat

inductive Width where
  | w32
  | w64
  deriving DecidableEq, Repr

def Width.bits : Width → Nat
  | w32 => 32
  | w64 => 64

/-- How many values a draw can have. -/
def Width.size (width : Width) : Nat := Nat.pow 2 width.bits

/-- The number of halves of a draw of 64 bits. -/
def halfSize : Nat := Width.w32.size

theorem Width.size_w32 : w32.size = 4294967296 := rfl

theorem Width.size_w64 : w64.size = 18446744073709551616 := rfl

theorem halfSize_eq : halfSize = 4294967296 := rfl

namespace Source

def zeros : Source := ⟨.wide fun _ => 0, 0⟩

def peek64 (source : Source) : Nat :=
  match source.stream with
  | .wide word => (word source.position).toNat
  | .narrow word =>
    (word source.position).toNat + halfSize * (word (source.position + 1)).toNat

def peek32 (source : Source) : Nat :=
  match source.stream with
  | .wide word => (word source.position).toNat % halfSize
  | .narrow word => (word source.position).toNat

def taken (source : Source) (width : Width) : Nat :=
  match source.stream, width with
  | .narrow _, .w64 => 2
  | _, _ => 1

def next (source : Source) (width : Width) : Nat × Source :=
  (match width with
    | .w32 => source.peek32
    | .w64 => source.peek64,
    { source with position := source.position + source.taken width })

/-- A draw fits its width. -/
theorem next_lt (source : Source) (width : Width) : (source.next width).1 < width.size := by
  obtain ⟨stream, position⟩ := source
  cases width <;> cases stream with
  | wide word =>
    have h := (word position).toNat_lt
    simp only [next, peek32, peek64, Width.size_w32, Width.size_w64, halfSize_eq]
    omega
  | narrow word =>
    have h := (word position).toNat_lt
    have h' := (word (position + 1)).toNat_lt
    simp only [next, peek32, peek64, Width.size_w32, Width.size_w64, halfSize_eq]
    omega

end Source

def splitMixStep : UInt64 := 0x9E3779B97F4A7C15

def splitMixScramble (z : UInt64) : UInt64 :=
  let z := (z ^^^ (z >>> 30)) * 0xBF58476D1CE4E5B9
  let z := (z ^^^ (z >>> 27)) * 0x94D049BB133111EB
  z ^^^ (z >>> 31)

/-- The word with an index, counted from zero. -/
def splitMixWord (seed : UInt64) (index : Nat) : UInt64 :=
  splitMixScramble (seed + splitMixStep * UInt64.ofNat (index + 1))

/-- The listed words, then the words of a seed. -/
def Source.listed (words : Array UInt64) (seed : UInt64) : Source :=
  ⟨.wide fun index => words.getD index (splitMixWord seed (index - words.size)), 0⟩

def rotateLeft (x n : UInt32) : UInt32 := (x <<< n) ||| (x >>> (32 - n))

def quarterRound (state : Array UInt32) (a b c d : Nat) : Array UInt32 :=
  let xa := state.getD a 0
  let xb := state.getD b 0
  let xc := state.getD c 0
  let xd := state.getD d 0
  let xa := xa + xb
  let xd := rotateLeft (xd ^^^ xa) 16
  let xc := xc + xd
  let xb := rotateLeft (xb ^^^ xc) 12
  let xa := xa + xb
  let xd := rotateLeft (xd ^^^ xa) 8
  let xc := xc + xd
  let xb := rotateLeft (xb ^^^ xc) 7
  (((state.setIfInBounds a xa).setIfInBounds b xb).setIfInBounds c xc).setIfInBounds d xd

/-- The columns and the diagonals of a double round. -/
def doubleRound (state : Array UInt32) : Array UInt32 :=
  [(0, 4, 8, 12), (1, 5, 9, 13), (2, 6, 10, 14), (3, 7, 11, 15),
    (0, 5, 10, 15), (1, 6, 11, 12), (2, 7, 8, 13), (3, 4, 9, 14)].foldl
    (fun state (a, b, c, d) => quarterRound state a b c d) state

def blockStart (key : Array UInt32) (counter : Nat) : Array UInt32 :=
  #[0x61707865, 0x3320646e, 0x79622d32, 0x6b206574] ++ key ++
    #[UInt32.ofNat counter, UInt32.ofNat (counter / halfSize), 0, 0]

def chachaBlock (key : Array UInt32) (counter : Nat) : Array UInt32 :=
  let start := blockStart key counter
  let mixed := (List.range 6).foldl (fun state _ => doubleRound state) start
  Array.zipWith (· + ·) mixed start

def chachaWord (key : Array UInt32) (index : Nat) : UInt32 :=
  (chachaBlock key (index / 16)).getD (index % 16) 0

def pcgStep (state : UInt64) : UInt64 := state * 6364136223846793005 + 11634580027462260723

def pcgOutput (state : UInt64) : UInt32 :=
  let x := (((state >>> 18) ^^^ state) >>> 27).toUInt32
  let turn := (state >>> 59).toUInt32
  (x >>> turn) ||| (x <<< ((32 - turn) % 32))

def pcgWords : Nat → UInt64 → List UInt32
  | 0, _ => []
  | count + 1, state => pcgOutput (pcgStep state) :: pcgWords count (pcgStep state)

/-- The source of a key of eight words. -/
def Source.keyed (key : Array UInt32) : Source := ⟨.narrow (chachaWord key), 0⟩

def Source.seeded (seed : UInt64) : Source := .keyed (pcgWords 8 seed).toArray

end QualityScript.Randomness
