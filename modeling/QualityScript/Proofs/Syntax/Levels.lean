import Mathlib.Data.List.Forall2
import Mathlib.Data.Nat.Init
import QualityScript.Proofs.Syntax.Spelling

/-!
# The levels of the grammar

The grammar is written level over level: `||` binds least, then `&&`, negations and comparisons, sums,
products, and operands most. What a level reads the level above it reads, too, unless what follows goes
on with it. So tokens that are a form of one level are read as it in any surroundings that end the form.
-/

namespace QualityScript

open Grammar

/-- Sums and products are chains of two levels. -/
def chainLevel (product : Bool) : Nat := if product then 5 else 4

def ArithOp.binding (op : ArithOp) : Nat := chainLevel (isProduct op)

/-- The reader of the forms that bind at least so tightly. -/
def readerAt (inner : Reader) : Nat → Reader
  | 6 => factor inner
  | 5 => level true (factor inner)
  | 4 => arith inner
  | 3 => unary false inner
  | 2 => joined joinsAnd .and (unary false inner)
  | _ => disjunction false inner

/-- The level that goes on with a token, if it follows one of its forms; parentheses end all. -/
def Token.binding : Token → Nat
  | .closeParen => 0
  | .op .or => 1
  | .op .and => 2
  | .op (.compare _) => 3
  | .op (.arith o) => o.binding
  | _ => 6

/-- What follows a form of a level and does not go on with it. -/
def EndsForm (least : Nat) (rest : List Token) : Prop := ∀ t ∈ rest.head?, t.binding < least

theorem EndsForm.nil (least : Nat) : EndsForm least [] := by
  rintro t ⟨⟩

theorem EndsForm.cons {least : Nat} {t : Token} (h : t.binding < least) (rest : List Token) :
    EndsForm least (t :: rest) := by
  rintro t ⟨⟩
  exact h

theorem EndsForm.mono {m n : Nat} {rest : List Token} (h : EndsForm m rest) (hmn : m ≤ n) : EndsForm n rest :=
  fun t ht => Nat.lt_of_lt_of_le (h t ht) hmn

variable {inner : Reader} {ts rest : List Token} {e lhs rhs : Expr} {n : Nat}

/-- A chain goes on only with operators of its own level. -/
theorem chain_of_ends {product : Bool} {operand : Reader} (count : Nat) (e : Expr)
    (h : EndsForm (chainLevel product) rest) :
    chain product operand count e rest = .ok (e, rest) := by
  cases count with
  | zero => rfl
  | succ count =>
    unfold chain
    split
    · next op rest' heq =>
      cases heq
      have hlt : op.binding < chainLevel product := h _ rfl
      have hop : isProduct op ≠ product := by
        rintro rfl
        exact absurd hlt (Nat.lt_irrefl _)
      rw [if_neg hop]
    · rfl

theorem level_of_operand {product : Bool} {operand : Reader} (hread : operand ts = .ok (e, rest))
    (h : EndsForm (chainLevel product) rest) : level product operand ts = .ok (e, rest) := by
  rw [level, hread]
  exact chain_of_ends rest.length e h

theorem unary_of_arith (hread : arith inner ts = .ok (e, rest)) (h : EndsForm 3 rest) :
    unary false inner ts = .ok (e, rest) := by
  have hcomparison : comparison false inner ts = .ok (e, rest) := by
    unfold comparison
    rw [hread]
    split
    · next heq => cases heq
    · next direction _ heq =>
      cases heq
      exact absurd (h _ rfl) (Nat.not_lt.mpr (Nat.le_add_right 3 3))
    · next op _ heq =>
      cases heq
      exact absurd (h _ rfl) (Nat.lt_irrefl 3)
    · next heq => exact heq.symm
  unfold unary
  split
  · cases hread
  · exact hcomparison

theorem joined_of_item {joins : Token → Bool} {build : List Expr → Expr} {item : Reader}
    (hread : item ts = .ok (e, rest)) (h : ∀ t ∈ rest.head?, joins t = false) :
    joined joins build item ts = .ok (e, rest) := by
  have hfurther : further joins item rest.length [e] rest = .ok ([e], rest) := by
    cases rest with
    | nil => rfl
    | cons t rest => simp [further, h t rfl]
  rw [joined, hread]
  simp only [hfurther]
  rfl

theorem joinsAnd_of_ends (h : EndsForm 2 rest) : ∀ t ∈ rest.head?, joinsAnd t = false := by
  intro t ht
  have hlt := h t ht
  unfold joinsAnd
  split
  · exact absurd hlt (Nat.lt_irrefl 2)
  · exact absurd hlt (Nat.not_lt.mpr (Nat.le_add_right 2 4))
  · rfl

theorem joinsOr_of_ends (h : EndsForm 1 rest) : ∀ t ∈ rest.head?, joinsOr t = false := by
  intro t ht
  have hlt := h t ht
  unfold joinsOr
  split
  · exact absurd hlt (Nat.lt_irrefl 1)
  · rfl

/-- What one level reads the level above it reads, too, if it does not go on. -/
theorem readerAt_of_succ (hn : 1 ≤ n) (hn' : n < 6)
    (hread : readerAt inner (n + 1) ts = .ok (e, rest)) (h : EndsForm n rest) :
    readerAt inner n ts = .ok (e, rest) := by
  match n, hn, hn' with
  | 5, _, _ => exact level_of_operand hread h
  | 4, _, _ => exact level_of_operand hread h
  | 3, _, _ => exact unary_of_arith hread h
  | 2, _, _ => exact joined_of_item hread (joinsAnd_of_ends h)
  | 1, _, _ => exact joined_of_item hread (joinsOr_of_ends h)

theorem readerAt_of_le {m : Nat} (hm : 1 ≤ m) (hmn : m ≤ n) (hn : n ≤ 6)
    (hread : readerAt inner n ts = .ok (e, rest)) (h : EndsForm m rest) :
    readerAt inner m ts = .ok (e, rest) := by
  induction n, hmn using Nat.le_induction with
  | base => exact hread
  | succ n hmn ih =>
    exact ih (Nat.le_of_succ_le hn)
      (readerAt_of_succ (Nat.le_trans hm hmn) hn hread (h.mono hmn))

/-! ## Forms -/

/-- The tokens are read as the tree on a level, whatever follows that does not go on with it. There
are enough of them that parentheses cannot nest too deep. -/
def ReadsAs (n : Nat) (ts : List Token) (e : Expr) : Prop :=
  ∀ depth, ts.length ≤ depth → ∀ rest, EndsForm n rest →
    readerAt (condition false depth) n (ts ++ rest) = .ok (e, rest)

/-- The tokens are read as the tree, and the chain may still go on with operators of its level. -/
def ChainsAs (product : Bool) (ts : List Token) (e : Expr) : Prop :=
  ∀ depth, ts.length ≤ depth → ∀ rest, EndsForm (chainLevel product + 1) rest → ∃ count,
    rest.length ≤ count ∧
    readerAt (condition false depth) (chainLevel product) (ts ++ rest) =
      chain product (readerAt (condition false depth) (chainLevel product + 1)) count e rest

theorem readerAt_chainLevel (inner : Reader) (product : Bool) :
    readerAt inner (chainLevel product) =
      level product (readerAt inner (chainLevel product + 1)) := by
  cases product <;> rfl

theorem chainLevel_bounds (product : Bool) : 4 ≤ chainLevel product ∧ chainLevel product ≤ 5 := by
  cases product <;> decide

namespace ReadsAs

theorem mono {m : Nat} (h : ReadsAs n ts e) (hm : 1 ≤ m) (hmn : m ≤ n) (hn : n ≤ 6) :
    ReadsAs m ts e := fun depth hdepth rest hrest =>
  readerAt_of_le hm hmn hn (h depth hdepth rest (hrest.mono hmn)) hrest

theorem operand {t : Token} (h : operand? t = some e) : ReadsAs 6 [t] e := by
  intro depth _ rest _
  cases t <;> cases h <;> rfl

theorem neg (h : ReadsAs 6 ts e) : ReadsAs 6 (.op (.arith .sub) :: ts) (.neg e) := by
  intro depth hdepth rest hrest
  have hinner : factor (condition false depth) (ts ++ rest) = .ok (e, rest) :=
    h depth (Nat.le_of_succ_le hdepth) rest hrest
  change (factor (condition false depth) (ts ++ rest)).map _ = _
  rw [hinner]
  rfl

theorem parens (h : ReadsAs 1 ts e) : ReadsAs 6 (.openParen :: (ts ++ [.closeParen])) e := by
  intro depth hdepth rest _
  rw [List.length_cons, List.length_append] at hdepth
  cases depth with
  | zero => cases hdepth
  | succ depth =>
    have hinner : condition false (depth + 1) (ts ++ .closeParen :: rest) =
        .ok (e, .closeParen :: rest) :=
      h depth (by omega) _ (.cons Nat.one_pos rest)
    simp only [readerAt, List.cons_append, List.append_assoc, List.nil_append, factor, hinner]

theorem not (h : ReadsAs 3 ts e) : ReadsAs 3 (.op .not :: ts) (.not e) := by
  intro depth hdepth rest hrest
  have hinner : unary false (condition false depth) (ts ++ rest) = .ok (e, rest) :=
    h depth (Nat.le_of_succ_le hdepth) rest hrest
  change unary false _ (.op .not :: (ts ++ rest)) = _
  rw [unary, hinner]
  rfl

theorem compare {a b : List Token} (op : CompareOp) (ha : ReadsAs 4 a lhs) (hb : ReadsAs 4 b rhs) :
    ReadsAs 3 (a ++ .op (.compare op) :: b) (.compare op lhs rhs) := by
  intro depth hdepth rest hrest
  rw [List.length_append, List.length_cons] at hdepth
  have hlhs : arith (condition false depth) (a ++ .op (.compare op) :: (b ++ rest)) =
      .ok (lhs, .op (.compare op) :: (b ++ rest)) :=
    ha depth (by omega) _ (.cons (Nat.lt_succ_self 3) _)
  have hrhs : arith (condition false depth) (b ++ rest) = .ok (rhs, rest) :=
    hb depth (by omega) rest (hrest.mono (Nat.le_succ 3))
  have hpercent : takePercent rest = (false, rest) := by
    unfold takePercent
    split
    · exact absurd (hrest _ rfl) (Nat.not_lt.mpr (Nat.le_add_right 3 3))
    · rfl
  have hcomparison : comparison false (condition false depth)
      (a ++ .op (.compare op) :: (b ++ rest)) = .ok (.compare op lhs rhs, rest) := by
    simp only [comparison, hlhs, hrhs, hpercent]
    rfl
  rw [List.append_assoc, List.cons_append]
  change unary false _ _ = _
  unfold unary
  split
  · next heq =>
    rw [heq] at hlhs
    cases hlhs
  · exact hcomparison

theorem chainsAs {product : Bool} (h : ReadsAs (chainLevel product + 1) ts e) :
    ChainsAs product ts e := by
  intro depth hdepth rest hrest
  refine ⟨rest.length, Nat.le_refl _, ?_⟩
  rw [readerAt_chainLevel, level, h depth hdepth rest hrest]

end ReadsAs

namespace ChainsAs

variable {product : Bool}

theorem readsAs (h : ChainsAs product ts e) : ReadsAs (chainLevel product) ts e := by
  intro depth hdepth rest hrest
  obtain ⟨count, -, hread⟩ := h depth hdepth rest (hrest.mono (Nat.le_succ _))
  rw [hread, chain_of_ends count e hrest]

theorem append {a b : List Token} {op : ArithOp} (hop : isProduct op = product)
    (ha : ChainsAs product a lhs) (hb : ReadsAs (chainLevel product + 1) b rhs) :
    ChainsAs product (a ++ .op (.arith op) :: b) (.arith op lhs rhs) := by
  intro depth hdepth rest hrest
  rw [List.length_append, List.length_cons] at hdepth
  have hnext : (Token.op (.arith op)).binding < chainLevel product + 1 := by
    rw [← hop]
    exact Nat.lt_succ_self _
  obtain ⟨count, hcount, hread⟩ := ha depth (by omega) (.op (.arith op) :: (b ++ rest))
    (.cons hnext _)
  cases count with
  | zero => cases hcount
  | succ count =>
    refine ⟨count, ?_, ?_⟩
    · rw [List.length_cons, List.length_append] at hcount
      omega
    · rw [List.append_assoc, List.cons_append, hread, chain, if_pos hop,
        hb depth (by omega) rest hrest]

end ChainsAs

/-! ## Items -/

/-- Puts a token between lists of tokens. -/
def joinedBy (t : Token) : List (List Token) → List Token
  | [] => []
  | part :: parts => part ++ parts.flatMap (t :: ·)

theorem length_le_joinedBy {t : Token} {part : List Token} {parts : List (List Token)}
    (h : part ∈ parts) : part.length ≤ (joinedBy t parts).length := by
  cases parts with
  | nil => cases h
  | cons first parts =>
    rw [joinedBy, List.length_append]
    rcases List.mem_cons.mp h with rfl | h
    · exact Nat.le_add_right _ _
    · have hsub : (t :: part).Sublist (parts.flatMap (t :: ·)) :=
        List.sublist_flatten_of_mem (List.mem_map.mpr ⟨part, h, rfl⟩)
      have := hsub.length_le
      rw [List.length_cons] at this
      omega

theorem length_le_flatMap (t : Token) (parts : List (List Token)) :
    parts.length ≤ (parts.flatMap (t :: ·)).length := by
  induction parts with
  | nil => exact Nat.le_refl 0
  | cons part parts ih =>
    rw [List.flatMap_cons, List.length_append, List.length_cons, List.length_cons]
    omega

section Items

variable {joins : Token → Bool} {build : List Expr → Expr} {depth : Nat} {t : Token}
variable {items : List Expr} {parts : List (List Token)}

theorem further_of_readsAs (h : List.Forall₂ (ReadsAs n) parts items)
    (hdepth : ∀ part ∈ parts, part.length ≤ depth) (hjoins : joins t) (ht : t.binding < n)
    (hrest : EndsForm n rest) (hends : ∀ t ∈ rest.head?, joins t = false) {count : Nat}
    (hcount : items.length ≤ count) (earlier : List Expr) :
    further joins (readerAt (condition false depth) n) count earlier
        (parts.flatMap (t :: ·) ++ rest) =
      .ok (items.reverse ++ earlier, rest) := by
  induction h generalizing count earlier with
  | nil =>
    cases count with
    | zero => rfl
    | succ count =>
      cases rest with
      | nil => rfl
      | cons t rest => simp [further, hends t rfl]
  | @cons part e parts items hread h ih =>
    cases count with
    | zero => cases hcount
    | succ count =>
      have hnext : EndsForm n (parts.flatMap (t :: ·) ++ rest) := by
        cases parts with
        | nil => exact hrest
        | cons => exact .cons ht _
      have hitem := hread depth (hdepth part (.head _)) _ hnext
      have hmore := ih (fun part hpart => hdepth part (.tail _ hpart))
        (Nat.le_of_succ_le_succ hcount) (e :: earlier)
      rw [List.flatMap_cons, List.cons_append, List.cons_append, List.append_assoc, further,
        if_pos hjoins, hitem, List.reverse_cons, List.append_assoc]
      exact hmore

theorem joined_of_readsAs (h : List.Forall₂ (ReadsAs n) parts items) (hlength : 2 ≤ items.length)
    (hdepth : (joinedBy t parts).length ≤ depth) (hjoins : joins t) (ht : t.binding < n)
    (hrest : EndsForm n rest) (hends : ∀ t ∈ rest.head?, joins t = false) :
    joined joins build (readerAt (condition false depth) n) (joinedBy t parts ++ rest) =
      .ok (build items, rest) := by
  have hparts : ∀ part ∈ parts, part.length ≤ depth := fun part hpart =>
    Nat.le_trans (length_le_joinedBy hpart) hdepth
  cases h with
  | nil => cases hlength
  | @cons part e parts items hread h =>
    have hnext : EndsForm n (parts.flatMap (t :: ·) ++ rest) := by
      cases parts with
      | nil => exact hrest
      | cons => exact .cons ht _
    have hfirst := hread depth (hparts part (.head _)) _ hnext
    have hcount : items.length ≤ (parts.flatMap (t :: ·) ++ rest).length := by
      have := length_le_flatMap t parts
      rw [List.length_append, ← h.length_eq]
      omega
    have hfurther := further_of_readsAs h (fun part hpart => hparts part (.tail _ hpart)) hjoins ht
      hrest hends hcount [e]
    have hitems : (items.reverse ++ [e]).reverse = e :: items := by simp
    rw [joinedBy, List.append_assoc, joined, hfirst]
    simp only [hfurther, Except.map]
    split
    · next only heq =>
      rw [heq] at hitems
      cases hitems
      exact absurd hlength (Nat.not_le.mpr (Nat.lt_succ_self 1))
    · rw [hitems]

end Items

end QualityScript
