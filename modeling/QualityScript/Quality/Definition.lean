import QualityScript.Quality.Holding
import QualityScript.Text.Case

/-!
# Definitions of qualities

What an author writes about a quality. Name, description, plural, bonus and text variants are
templates. The category field lists categories between commas; they are compared without regard to
the case of plain letters. Text variants are kept in the order of their keys.
-/

namespace QualityScript.Quality

open Text

/-- Puts a text under a key into a list in the order of keys. -/
def insertVariant (key text : String) : List (String × String) → List (String × String)
  | [] => [(key, text)]
  | (k, t) :: rest =>
    if key < k then (key, text) :: (k, t) :: rest
    else if key = k then (key, text) :: rest
    else (k, t) :: insertVariant key text rest

theorem mem_insertVariant {key text : String} {list : List (String × String)}
    {entry : String × String} (h : entry ∈ insertVariant key text list) :
    entry = (key, text) ∨ entry ∈ list := by
  induction list with
  | nil => simpa [insertVariant] using h
  | cons head rest ih =>
    obtain ⟨k, t⟩ := head
    unfold insertVariant at h
    split at h
    · rcases List.mem_cons.mp h with h | h
      · exact .inl h
      · exact .inr h
    · split at h
      · rcases List.mem_cons.mp h with h | h
        · exact .inl h
        · exact .inr (List.mem_cons_of_mem _ h)
      · rcases List.mem_cons.mp h with h | h
        · exact .inr (h ▸ List.mem_cons_self)
        · rcases ih h with h | h
          · exact .inl h
          · exact .inr (List.mem_cons_of_mem _ h)

theorem pairwise_insertVariant {key text : String} {list : List (String × String)}
    (h : list.Pairwise fun a b => a.1 < b.1) :
    (insertVariant key text list).Pairwise fun a b => a.1 < b.1 := by
  induction list with
  | nil => simp [insertVariant]
  | cons head rest ih =>
    obtain ⟨k, t⟩ := head
    have hrest := List.pairwise_cons.mp h
    unfold insertVariant
    split
    · next hlt =>
      refine List.pairwise_cons.mpr ⟨fun e he => ?_, h⟩
      rcases List.mem_cons.mp he with rfl | he
      · exact hlt
      · exact String.lt_trans hlt (hrest.1 e he)
    · split
      · next heq => subst heq; exact List.pairwise_cons.mpr ⟨hrest.1, hrest.2⟩
      · next hlt hne =>
        refine List.pairwise_cons.mpr ⟨fun e he => ?_, ih hrest.2⟩
        rcases mem_insertVariant he with rfl | he
        · exact Std.lt_of_le_of_ne (String.not_lt.mp hlt) fun e => hne e.symm
        · exact hrest.1 e he

/-- Texts under keys, in the order of the keys. -/
structure Variants where
  entries : List (String × String)
  ordered : entries.Pairwise fun a b => a.1 < b.1
  deriving DecidableEq, Repr

namespace Variants

def empty : Variants := ⟨[], .nil⟩

instance : Inhabited Variants := ⟨empty⟩

def insert (variants : Variants) (key text : String) : Variants :=
  ⟨insertVariant key text variants.entries, pairwise_insertVariant variants.ordered⟩

/-- The variants of a list; a later text replaces an earlier one under its key. -/
def ofList (list : List (String × String)) : Variants :=
  list.foldl (fun variants (key, text) => variants.insert key text) empty

def get? (variants : Variants) (key : String) : Option String := variants.entries.lookup key

end Variants

/-- What an author writes about a quality. -/
structure Definition where
  id : String
  name : String
  description : String
  kind : Kind
  /-- Categories between commas. -/
  category : String
  plural : Option String
  variants : Variants
  bonus : String
  tags : List String
  image : Option String
  deriving DecidableEq, Repr

namespace Definition

def new (id : String) : Definition :=
  { id, name := "", description := "", kind := .counter, category := "", plural := none,
    variants := .empty, bonus := "", tags := [], image := none }

def splitCommas : List Char → List (List Char)
  | [] => [[]]
  | c :: rest =>
    if c = ',' then [] :: splitCommas rest
    else
      match splitCommas rest with
      | [] => [[c]]
      | piece :: pieces => (c :: piece) :: pieces

/-- The categories, without blanks; blank ones do not count. -/
def categories (d : Definition) : List String :=
  (((splitCommas d.category.toList).map trim).filter fun c => !c.isEmpty).map String.ofList

def inCategory (d : Definition) (category : String) : Bool :=
  d.categories.any fun c => eqIgnoringCase c (trimmed category)

def hasTag (d : Definition) (tag : String) : Bool := d.tags.contains tag

end Definition

end QualityScript.Quality
