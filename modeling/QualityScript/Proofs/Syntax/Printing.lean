import QualityScript.Proofs.Syntax.Levels
import QualityScript.Proofs.Syntax.TokenTexts

/-!
# Trees written out

A tree is written with parentheses only where the grammar would otherwise give another one. How
tightly its outermost form binds decides that. What is written for a tree is read as the tree.
-/

namespace QualityScript

open Text Grammar

variable {ts rest : List Token} {e : Expr} {n : Nat}

/-- How tightly the outermost form binds. -/
def Expr.binding : Expr → Nat
  | .or _ => 1
  | .and _ => 2
  | .not _ | .compare .. => 3
  | .arith o .. => o.binding
  | _ => 6

/-- Puts the tokens of a tree in parentheses where something is needed that binds tighter. -/
def within (least : Nat) (e : Expr) (ts : List Token) : List Token :=
  if e.binding < least then .openParen :: (ts ++ [.closeParen]) else ts

mutual

/-- The tokens of a tree; trees that have no brackets of their own are written. -/
def Expr.spelled : Expr → List Token
  | .literal (.bool b) => [.word (if b then "true" else "false")]
  | .literal (.int n) => [.int n]
  | .literal (.float x) => [.float x]
  | .literal (.text s) => [.text s]
  | .ref reference => [.ref reference .none]
  | .aliasName name => [.aliasName name]
  | .word text => [.word text]
  | .neg inner => .op (.arith .sub) :: within 6 inner inner.spelled
  | .not inner => .op .not :: within 3 inner inner.spelled
  | .arith op lhs rhs =>
    within op.binding lhs lhs.spelled ++
      .op (.arith op) :: within (op.binding + 1) rhs rhs.spelled
  | .compare op lhs rhs =>
    within 4 lhs lhs.spelled ++ .op (.compare op) :: within 4 rhs rhs.spelled
  | .and items => joinedBy (.op .and) (Expr.spelledEach 3 items)
  | .or items => joinedBy (.op .or) (Expr.spelledEach 2 items)
  | .call _ | .challenge _ | .effect _ | .range .. => []

def Expr.spelledEach (least : Nat) : List Expr → List (List Token)
  | [] => []
  | e :: es => within least e e.spelled :: Expr.spelledEach least es

end

/-! ## Trees -/

/-- A tree that has a spelling: with numbers that are not negative, texts without the quote they are
put in, references and names as the lexer reads them, and two items or more in each list. -/
inductive Expr.IsPrintable (quoteFor : String → Char) : Expr → Prop where
  | bool (b : Bool) : IsPrintable quoteFor (.literal (.bool b))
  | int {n : Int64} : 0 ≤ n.toInt → IsPrintable quoteFor (.literal (.int n))
  | text {s : String} : isQuote (quoteFor s) → quoteFor s ∉ s.toList →
      IsPrintable quoteFor (.literal (.text s))
  | ref {text rest : List Char} {reference : Reference} :
      Reference.span? text = some (reference, rest) → IsPrintable quoteFor (.ref reference)
  | aliasName {name : String} : IsName name → IsPrintable quoteFor (.aliasName name)
  | word {text : String} : IsWord text.toList → text ≠ "true" → text ≠ "false" →
      IsPrintable quoteFor (.word text)
  | neg {inner : Expr} : IsPrintable quoteFor inner → IsPrintable quoteFor (.neg inner)
  | not {inner : Expr} : IsPrintable quoteFor inner → IsPrintable quoteFor (.not inner)
  | arith {lhs rhs : Expr} (op : ArithOp) : IsPrintable quoteFor lhs → IsPrintable quoteFor rhs →
      IsPrintable quoteFor (.arith op lhs rhs)
  | compare {lhs rhs : Expr} (op : CompareOp) : IsPrintable quoteFor lhs →
      IsPrintable quoteFor rhs → IsPrintable quoteFor (.compare op lhs rhs)
  | and {items : List Expr} : 2 ≤ items.length → (∀ e ∈ items, IsPrintable quoteFor e) →
      IsPrintable quoteFor (.and items)
  | or {items : List Expr} : 2 ≤ items.length → (∀ e ∈ items, IsPrintable quoteFor e) →
      IsPrintable quoteFor (.or items)

/-- Tokens that are read as a tree on the level of its outermost form. -/
structure IsReadBack (ts : List Token) (e : Expr) : Prop where
  reads : ReadsAs e.binding ts e
  chains : ∀ product, e.binding = chainLevel product → ChainsAs product ts e

theorem Expr.binding_bounds (e : Expr) : 1 ≤ e.binding ∧ e.binding ≤ 6 := by
  cases e with
  | arith op =>
    have := chainLevel_bounds (isProduct op)
    simp only [Expr.binding, ArithOp.binding]
    omega
  | _ => simp [Expr.binding]

namespace IsReadBack

/-- A form that is no chain. -/
theorem of_reads (h : ReadsAs e.binding ts e) (hbinding : e.binding ≤ 3 ∨ 6 ≤ e.binding) :
    IsReadBack ts e := by
  refine ⟨h, fun product heq => ?_⟩
  have := chainLevel_bounds product
  omega

theorem of_operand {t : Token} (h : operand? t = some e) (hbinding : e.binding = 6) :
    IsReadBack [t] e :=
  of_reads (hbinding ▸ ReadsAs.operand h) (.inr hbinding.ge)

theorem of_chains {product : Bool} (h : ChainsAs product ts e)
    (hbinding : e.binding = chainLevel product) : IsReadBack ts e := by
  refine ⟨hbinding ▸ h.readsAs, fun product' heq => ?_⟩
  obtain rfl : product' = product := by
    cases product <;> cases product' <;> first | rfl | cases hbinding.symm.trans heq
  exact h

theorem parens (h : IsReadBack ts e) : ReadsAs 6 (.openParen :: (ts ++ [.closeParen])) e :=
  (h.reads.mono (Nat.le_refl 1) e.binding_bounds.1 e.binding_bounds.2).parens

/-- In parentheses where they are needed, the tokens are read on any level. -/
theorem within (h : IsReadBack ts e) (hn : 1 ≤ n) (hn' : n ≤ 6) :
    ReadsAs n (within n e ts) e := by
  unfold QualityScript.within
  split
  · exact h.parens.mono hn hn' (Nat.le_refl 6)
  · next hbinding => exact h.reads.mono hn (Nat.not_lt.mp hbinding) e.binding_bounds.2

/-- The first operand of a chain may be a chain of the same level. -/
theorem chains_within (h : IsReadBack ts e) (product : Bool) :
    ChainsAs product (QualityScript.within (chainLevel product) e ts) e := by
  obtain ⟨hlow, hhigh⟩ := chainLevel_bounds product
  unfold QualityScript.within
  split
  · exact (h.parens.mono (by omega) (by omega) (Nat.le_refl 6)).chainsAs
  · next hbinding =>
    obtain heq | hgt := Nat.eq_or_lt_of_le (Nat.not_lt.mp hbinding)
    · exact h.chains product heq.symm
    · exact (h.reads.mono (by omega) hgt e.binding_bounds.2).chainsAs

end IsReadBack

theorem forall₂_spelledEach {items : List Expr} (h : ∀ e ∈ items, IsReadBack e.spelled e)
    (hn : 1 ≤ n) (hn' : n ≤ 6) : List.Forall₂ (ReadsAs n) (Expr.spelledEach n items) items := by
  induction items with
  | nil => exact .nil
  | cons e items ih =>
    rw [Expr.spelledEach]
    exact .cons ((h e (.head _)).within hn hn') (ih fun e he => h e (.tail _ he))

/-- What is written for a tree is read as the tree. -/
theorem Expr.IsPrintable.isReadBack {quoteFor : String → Char} (h : e.IsPrintable quoteFor) :
    IsReadBack e.spelled e := by
  induction h with
  | bool b =>
    rw [Expr.spelled]
    refine .of_operand ?_ rfl
    cases b <;> rfl
  | int => rw [Expr.spelled]; exact .of_operand rfl rfl
  | text => rw [Expr.spelled]; exact .of_operand rfl rfl
  | ref => rw [Expr.spelled]; exact .of_operand rfl rfl
  | aliasName => rw [Expr.spelled]; exact .of_operand rfl rfl
  | word hword htrue hfalse =>
    rw [Expr.spelled]
    exact .of_operand (by simp [operand?, ofWord, htrue, hfalse]) rfl
  | neg h ih =>
    rw [Expr.spelled]
    exact .of_reads (ih.within (by decide) (Nat.le_refl 6)).neg (.inr (Nat.le_refl 6))
  | not h ih =>
    rw [Expr.spelled]
    exact .of_reads (ih.within (by decide) (by decide)).not (.inl (Nat.le_refl 3))
  | arith op hlhs hrhs ihlhs ihrhs =>
    rw [Expr.spelled]
    obtain ⟨hlow, hhigh⟩ := chainLevel_bounds (isProduct op)
    exact .of_chains ((ihlhs.chains_within _).append rfl (ihrhs.within (by omega) (by omega))) rfl
  | compare op hlhs hrhs ihlhs ihrhs =>
    rw [Expr.spelled]
    exact .of_reads (.compare op (ihlhs.within (by decide) (by decide))
      (ihrhs.within (by decide) (by decide))) (.inl (Nat.le_refl 3))
  | and hlength hitems ih =>
    rw [Expr.spelled]
    have hparts := forall₂_spelledEach ih (n := 3) (by decide) (by decide)
    refine .of_reads (fun depth hdepth rest hrest => ?_) (.inl (Nat.le_succ 2))
    exact joined_of_readsAs hparts hlength hdepth rfl (Nat.lt_succ_self 2)
      (hrest.mono (Nat.le_succ 2)) (joinsAnd_of_ends hrest)
  | or hlength hitems ih =>
    rw [Expr.spelled]
    have hparts := forall₂_spelledEach ih (n := 2) (by decide) (by decide)
    refine .of_reads (fun depth hdepth rest hrest => ?_) (.inl (Nat.le_add_left 1 2))
    exact joined_of_readsAs hparts hlength hdepth rfl (Nat.lt_succ_self 1)
      (hrest.mono (Nat.le_succ 1)) (joinsOr_of_ends hrest)

/-! ## Texts -/

/-- The text of a tree: the texts of its tokens with one blank between them. Texts are put in the
quotes that are given for them. -/
def Expr.printed (quoteFor : String → Char) (e : Expr) : String :=
  " ".intercalate (e.spelled.map (Token.written quoteFor))

/-- A token that is read back from its text and is neither a semicolon nor a change. -/
structure Token.IsWritten (quoteFor : String → Char) (t : Token) : Prop where
  isToken : IsToken (t.written quoteFor).toList t
  noSemicolon : isSemicolon t = false
  noChange : isChange t = false

theorem forall_mem_within {p : Token → Prop} (hopen : p .openParen) (hclose : p .closeParen)
    (h : ∀ t ∈ ts, p t) (least : Nat) (e : Expr) : ∀ t ∈ within least e ts, p t := by
  unfold within
  split
  · intro t ht
    rcases List.mem_cons.mp ht with rfl | ht
    · exact hopen
    · rcases List.mem_append.mp ht with ht | ht
      · exact h t ht
      · rw [List.mem_singleton.mp ht]
        exact hclose
  · exact h

theorem forall_mem_joinedBy {p : Token → Prop} {t : Token} {parts : List (List Token)} (ht : p t)
    (h : ∀ part ∈ parts, ∀ u ∈ part, p u) : ∀ u ∈ joinedBy t parts, p u := by
  cases parts with
  | nil => exact nofun
  | cons part parts =>
    intro u hu
    rcases List.mem_append.mp hu with hu | hu
    · exact h part (.head _) u hu
    · obtain ⟨part', hpart', hu⟩ := List.mem_flatMap.mp hu
      rcases List.mem_cons.mp hu with rfl | hu
      · exact ht
      · exact h part' (.tail _ hpart') u hu

theorem exists_of_mem_spelledEach {items : List Expr} {part : List Token}
    (h : part ∈ Expr.spelledEach n items) : ∃ e ∈ items, part = within n e e.spelled := by
  induction items with
  | nil => cases h
  | cons e items ih =>
    rw [Expr.spelledEach] at h
    rcases List.mem_cons.mp h with rfl | h
    · exact ⟨e, .head _, rfl⟩
    · obtain ⟨e', he', hpart⟩ := ih h
      exact ⟨e', .tail _ he', hpart⟩

namespace Token.IsWritten

variable {quoteFor : String → Char}

theorem openParen : IsWritten quoteFor .openParen :=
  have h : IsToken "(".toList .openParen := isToken_single rfl (fun _ _ => rfl) rfl
  ⟨h, rfl, rfl⟩

theorem closeParen : IsWritten quoteFor .closeParen :=
  have h : IsToken ")".toList .closeParen := isToken_single rfl (fun _ _ => rfl) rfl
  ⟨h, rfl, rfl⟩

theorem arith (op : ArithOp) : IsWritten quoteFor (.op (.arith op)) :=
  ⟨isToken_arith op, rfl, rfl⟩

theorem compare (op : CompareOp) : IsWritten quoteFor (.op (.compare op)) :=
  ⟨isToken_compare op, rfl, rfl⟩

theorem not : IsWritten quoteFor (.op .not) :=
  have h : IsToken "!".toList (.op .not) := isToken_single rfl (fun _ _ => rfl) rfl
  ⟨h, rfl, rfl⟩

theorem and : IsWritten quoteFor (.op .and) :=
  have h : IsToken "&&".toList (.op .and) := isToken_pair rfl (fun _ _ => rfl) rfl
  ⟨h, rfl, rfl⟩

theorem or : IsWritten quoteFor (.op .or) :=
  have h : IsToken "||".toList (.op .or) := isToken_pair rfl (fun _ _ => rfl) rfl
  ⟨h, rfl, rfl⟩

theorem word {text : String} (h : IsWord text.toList) : IsWritten quoteFor (.word text) :=
  ⟨isToken_word h, rfl, rfl⟩

theorem within (h : ∀ t ∈ ts, t.IsWritten quoteFor) (least : Nat) (e : Expr) :
    ∀ t ∈ QualityScript.within least e ts, t.IsWritten quoteFor :=
  forall_mem_within openParen closeParen h least e

theorem joinedBy {t : Token} {items : List Expr} (ht : t.IsWritten quoteFor)
    (h : ∀ e ∈ items, ∀ t ∈ e.spelled, t.IsWritten quoteFor) (least : Nat) :
    ∀ u ∈ QualityScript.joinedBy t (Expr.spelledEach least items), u.IsWritten quoteFor := by
  refine forall_mem_joinedBy ht fun part hpart => ?_
  obtain ⟨e, he, rfl⟩ := exists_of_mem_spelledEach hpart
  exact within (h e he) least e

end Token.IsWritten

/-- The tokens that are written for a tree are read back one by one. -/
theorem Expr.IsPrintable.isWritten {quoteFor : String → Char} (h : e.IsPrintable quoteFor) :
    ∀ t ∈ e.spelled, t.IsWritten quoteFor := by
  induction h with
  | bool b =>
    rw [Expr.spelled, List.forall_mem_singleton]
    exact .word (by cases b <;> exact isWord_of_all rfl (by decide) (by decide))
  | int hn =>
    rw [Expr.spelled, List.forall_mem_singleton]
    exact ⟨isToken_int hn, rfl, rfl⟩
  | text hquote hs =>
    rw [Expr.spelled, List.forall_mem_singleton]
    exact ⟨isToken_quoted hquote hs, rfl, rfl⟩
  | ref hspan =>
    rw [Expr.spelled, List.forall_mem_singleton]
    exact ⟨isToken_display (Reference.isRead_of_span? hspan), rfl, rfl⟩
  | aliasName hname =>
    rw [Expr.spelled, List.forall_mem_singleton]
    exact ⟨isToken_alias hname, rfl, rfl⟩
  | word hword =>
    rw [Expr.spelled, List.forall_mem_singleton]
    exact .word hword
  | neg h ih =>
    rw [Expr.spelled, List.forall_mem_cons]
    exact ⟨.arith .sub, Token.IsWritten.within ih 6 _⟩
  | not h ih =>
    rw [Expr.spelled, List.forall_mem_cons]
    exact ⟨.not, Token.IsWritten.within ih 3 _⟩
  | arith op hlhs hrhs ihlhs ihrhs =>
    rw [Expr.spelled, List.forall_mem_append, List.forall_mem_cons]
    exact ⟨Token.IsWritten.within ihlhs _ _, .arith op, Token.IsWritten.within ihrhs _ _⟩
  | compare op hlhs hrhs ihlhs ihrhs =>
    rw [Expr.spelled, List.forall_mem_append, List.forall_mem_cons]
    exact ⟨Token.IsWritten.within ihlhs 4 _, .compare op, Token.IsWritten.within ihrhs 4 _⟩
  | and hlength hitems ih =>
    rw [Expr.spelled]
    exact .joinedBy .and ih 3
  | or hlength hitems ih =>
    rw [Expr.spelled]
    exact .joinedBy .or ih 2

theorem tree_of_isReadBack (h : IsReadBack ts e) (hsemicolon : ∀ t ∈ ts, isSemicolon t = false)
    (hchange : ∀ t ∈ ts, isChange t = false) : tree false ts = .ok e := by
  have hread : expression false ts = .ok (e, []) := by
    have hlowest := h.reads.mono (Nat.le_refl 1) e.binding_bounds.1 e.binding_bounds.2
    have hread := hlowest ts.length (Nat.le_refl _) [] (.nil 1)
    rwa [List.append_nil] at hread
  have hne : ts.isEmpty = false := by
    cases ts with
    | nil => cases hread
    | cons => rfl
  have hnone : ts.any isSemicolon = false ∧ ts.any isChange = false := by
    simpa using ⟨hsemicolon, hchange⟩
  rw [tree, hne, hnone.1, hnone.2, if_neg Bool.false_ne_true, if_neg Bool.false_ne_true,
    if_neg Bool.false_ne_true, rangeOrExpression, hread]
  rfl

/-- The parser inverts printing. -/
theorem Expr.parse_printed {quoteFor : String → Char} {e : Expr} (h : e.IsPrintable quoteFor) :
    parse (e.printed quoteFor) = .ok e := by
  have htexts : List.Forall₂ (fun text t => IsToken text.toList t)
      (e.spelled.map (Token.written quoteFor)) e.spelled :=
    List.forall₂_map_left_iff.mpr (List.forall₂_same.mpr fun t ht => (h.isWritten t ht).isToken)
  rw [printed, parse_of_tokens (tokens_intercalate htexts)]
  exact tree_of_isReadBack h.isReadBack (fun t ht => (h.isWritten t ht).noSemicolon)
    fun t ht => (h.isWritten t ht).noChange

/-- A condition with forms of every level, two of them in parentheses. -/
theorem Expr.parse_printed_of_levels :
    let gold : Expr := .ref ⟨.player, "gold", .level⟩
    let debt : Expr := .neg (.arith .sub (.aliasName "x") (.literal (.int 1)))
    let rich : Expr := .compare .ge (.arith .add gold (.arith .mul (.literal (.int 2)) debt))
      (.literal (.int 3))
    let known : Expr := .compare .eq (.ref ⟨.self, "", .name⟩) (.literal (.text "it"))
    let e : Expr := .and [.not rich, .or [.word "ready", known]]
    e.printed (fun _ => '"') =
        "! $gold.level + 2 * - ( @x - 1 ) >= 3 && ( ready || $.name == \"it\" )" ∧
      parse "! $gold.level + 2 * - ( @x - 1 ) >= 3 && ( ready || $.name == \"it\" )" = .ok e := by
  intro gold debt rich known e
  have hprinted : e.printed (fun _ => '"') =
      "! $gold.level + 2 * - ( @x - 1 ) >= 3 && ( ready || $.name == \"it\" )" := by
    cbv
  have hgold : gold.IsPrintable fun _ => '"' :=
    have hspan : Reference.span? "$gold.level".toList = some (⟨.player, "gold", .level⟩, []) := rfl
    .ref hspan
  have hself : (Expr.ref ⟨.self, "", .name⟩).IsPrintable fun _ => '"' :=
    have hspan : Reference.span? "$.name".toList = some (⟨.self, "", .name⟩, []) := rfl
    .ref hspan
  have hdebt : debt.IsPrintable fun _ => '"' :=
    .neg (.arith .sub (.aliasName ⟨by decide, List.all_eq_true.mp (by decide)⟩) (.int (by decide)))
  have hrich : rich.IsPrintable fun _ => '"' :=
    .compare .ge (.arith .add hgold (.arith .mul (.int (by decide)) hdebt)) (.int (by decide))
  have hready : (Expr.word "ready").IsPrintable fun _ => '"' :=
    .word (isWord_of_all rfl (by decide) (by decide)) (by decide) (by decide)
  have hknown : known.IsPrintable fun _ => '"' := .compare .eq hself (.text rfl (by decide))
  have hor : (Expr.or [.word "ready", known]).IsPrintable fun _ => '"' :=
    .or (by decide) (by simp [hready, hknown])
  have he : e.IsPrintable fun _ => '"' := .and (by decide) (by simp [hrich.not, hor])
  exact ⟨hprinted, hprinted ▸ parse_printed he⟩

end QualityScript
