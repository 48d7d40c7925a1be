import QualityScript.Proofs.Syntax.Impersonal

/-!
# What expressions refer to

An expression is impersonal if it has no call, every reference in it is to the world or to the
quality being shown, and its texts are impersonal. Tokens of an impersonal text are, and so is the
tree that they spell.
-/

namespace QualityScript

open Text Lexer Grammar

/-- A reference to the world, or to the quality being shown. -/
structure Reference.IsImpersonal (r : Reference) : Prop where
  scope : r.scope ≠ .player
  id : QualityScript.IsImpersonal r.id.toList

def Notes.IsImpersonal (notes : Notes) : Prop :=
  ∀ d ∈ notes.description, QualityScript.IsImpersonal d.toList

def EffectTarget.IsImpersonal : EffectTarget → Prop
  | .quality r => r.IsImpersonal
  | .category _ => False

structure EffectExpr.IsImpersonal (e : EffectExpr) : Prop where
  target : e.target.IsImpersonal
  notes : e.notes.IsImpersonal

/-- What stands in the expression itself, its parts apart, is impersonal. -/
def Expr.HeadImpersonal : Expr → Prop
  | .literal (.text s) | .word s => QualityScript.IsImpersonal s.toList
  | .ref r => r.IsImpersonal
  | .call _ => False
  | .effect list => ∀ e ∈ list, e.IsImpersonal
  | _ => True

inductive Expr.IsImpersonal : Expr → Prop where
  | node {e : Expr} : e.HeadImpersonal → (∀ p ∈ e.parts, p.IsImpersonal) → e.IsImpersonal

namespace Expr.IsImpersonal

variable {e a b : Expr}

theorem head (h : e.IsImpersonal) : e.HeadImpersonal := by
  cases h with
  | node hhead _ => exact hhead

theorem part (h : e.IsImpersonal) {p : Expr} (hp : p ∈ e.parts) : p.IsImpersonal := by
  cases h with
  | node _ hparts => exact hparts p hp

theorem one (hhead : e.HeadImpersonal) (hparts : e.parts = [a]) (ha : a.IsImpersonal) :
    e.IsImpersonal :=
  .node hhead (by simpa [hparts] using ha)

theorem two (hhead : e.HeadImpersonal) (hparts : e.parts = [a, b]) (ha : a.IsImpersonal)
    (hb : b.IsImpersonal) : e.IsImpersonal :=
  .node hhead (by simpa [hparts] using ⟨ha, hb⟩)

end Expr.IsImpersonal

theorem Challenge.forall_mem_parts {c : Challenge} {p : Expr → Prop} :
    (∀ e ∈ c.parts, p e) ↔ p c.subject ∧ p c.target ∧ (∀ e ∈ c.margin, p e) ∧
      (∀ e ∈ c.minCap, p e) ∧ (∀ e ∈ c.maxCap, p e) ∧ ∀ e ∈ c.pivot, p e := by
  simp only [parts, List.forall_mem_cons, List.forall_mem_append, Option.mem_toList, Option.mem_def,
    and_assoc]

/-! ## Tokens -/

def Token.IsImpersonal : Token → Prop
  | .text s | .word s => QualityScript.IsImpersonal s.toList
  | .ref r notes => r.IsImpersonal ∧ notes.IsImpersonal
  | .call _ => False
  | _ => True

theorem isImpersonal_of_operand? {t : Token} {e : Expr} (ht : t.IsImpersonal)
    (h : operand? t = some e) : e.IsImpersonal := by
  have leaf {e : Expr} (hhead : e.HeadImpersonal) (hparts : e.parts = []) : e.IsImpersonal :=
    .node hhead (by simp [hparts])
  cases t with
  | int | float | aliasName => cases h; exact leaf trivial rfl
  | text => cases h; exact leaf ht rfl
  | ref => cases h; exact leaf ht.1 rfl
  | word text =>
    cases h
    unfold ofWord
    split
    · exact leaf trivial rfl
    · split
      · exact leaf trivial rfl
      · exact leaf ht rfl
  | call => exact ht.elim
  | _ => cases h

/-- By induction on the spelling: every node comes from tokens that are impersonal. -/
theorem isImpersonal_of_spells {ts : List Token} {items : List Expr} (h : Spells ts items)
    (hts : ∀ t ∈ ts, t.IsImpersonal) : ∀ e ∈ items, e.IsImpersonal := by
  induction h with
  | operand h => simpa using isImpersonal_of_operand? (hts _ (.head _)) h
  | neg _ ih | not _ ih =>
    have hinner := ih fun t ht => hts t (.tail _ ht)
    exact List.forall_mem_singleton.mpr (.one trivial rfl (hinner _ (.head _)))
  | plus _ ih => exact ih fun t ht => hts t (.tail _ ht)
  | parens _ ih =>
    exact ih fun t ht => hts t (.tail _ (List.mem_append_left _ ht))
  | arith op _ _ iha ihb | compare op _ _ iha ihb =>
    rw [List.forall_mem_append, List.forall_mem_cons] at hts
    have ha := iha hts.1 _ (.head _)
    have hb := ihb hts.2.2 _ (.head _)
    exact List.forall_mem_singleton.mpr (.two trivial rfl ha hb)
  | challenge ht _ _ iha ihb =>
    rw [List.forall_mem_append, List.forall_mem_cons] at hts
    have ha := iha hts.1 _ (.head _)
    have hb := ihb hts.2.2 _ (.head _)
    exact List.forall_mem_singleton.mpr (.two trivial rfl ha hb)
  | rolled ht _ _ iha ihb =>
    simp only [List.forall_mem_append, List.forall_mem_cons] at hts
    have ha := iha hts.1 _ (.head _)
    have hb := ihb hts.2.2.1 _ (.head _)
    exact List.forall_mem_singleton.mpr (.two trivial rfl ha hb)
  | joined _ _ _ iha ihb =>
    rw [List.forall_mem_append, List.forall_mem_cons] at hts
    exact List.forall_mem_append.mpr ⟨iha hts.1, ihb hts.2.2⟩
  | and _ _ ih | or _ _ ih =>
    exact List.forall_mem_singleton.mpr (.node trivial (ih hts))

theorem isImpersonal_of_spelled {ts : List Token} {e : Expr} (h : Spells ts [e])
    (hts : ∀ t ∈ ts, t.IsImpersonal) : e.IsImpersonal :=
  isImpersonal_of_spells h hts e (.head _)

/-! ## Trees of tokens -/

theorem mem_of_mem_groups {ts group : List Token} (hgroup : group ∈ groups ts) {t : Token}
    (ht : t ∈ group) : t ∈ ts := by
  induction ts generalizing group with
  | nil =>
    cases List.mem_singleton.mp hgroup
    exact ht
  | cons first rest ih =>
    unfold groups at hgroup
    split at hgroup
    · obtain rfl | hgroup := List.mem_cons.mp hgroup
      · cases ht
      · exact .tail _ (ih hgroup ht)
    · split at hgroup
      · cases List.mem_singleton.mp hgroup
        cases List.mem_singleton.mp ht
        exact .head _
      · next group' more heq =>
        rw [heq] at ih
        obtain rfl | hgroup := List.mem_cons.mp hgroup
        · obtain rfl | ht := List.mem_cons.mp ht
          · exact .head _
          · exact .tail _ (ih (.head _) ht)
        · exact .tail _ (ih (.tail _ hgroup) ht)

theorem isImpersonal_of_parameter? {group : List Token} {given : Option Expr}
    (hgroup : ∀ t ∈ group, t.IsImpersonal) (h : parameter? group = .ok given) :
    ∀ e ∈ given, e.IsImpersonal := by
  unfold parameter? at h
  split at h
  · cases h
    exact fun _ hmem => nomatch hmem
  · split at h
    · cases h
    · next result hsum =>
      obtain ⟨e, rest⟩ := result
      obtain ⟨e', hcomplete, rfl⟩ := exists_of_map_eq_ok h
      obtain ⟨rfl, rfl⟩ := complete_eq_ok hcomplete
      obtain ⟨used, rfl, hused⟩ := sound_sum false hsum
      rintro _ ⟨⟩
      exact isImpersonal_of_spelled hused (by simpa using hgroup)

theorem isImpersonal_of_parameters {c c' : Challenge} {list : List (List Token)}
    (hc : ∀ e ∈ c.parts, e.IsImpersonal) (hlist : ∀ group ∈ list, ∀ t ∈ group, t.IsImpersonal)
    (h : parameters c list = .ok c') : ∀ e ∈ c'.parts, e.IsImpersonal := by
  have hgiven {group : List Token} (hmem : group ∈ list) {given : Option Expr}
      (h : parameter? group = .ok given) : ∀ e ∈ given, e.IsImpersonal :=
    isImpersonal_of_parameter? (hlist group hmem) h
  obtain ⟨hsubject, htarget, -, hmin, hmax, hpivot⟩ := Challenge.forall_mem_parts.mp hc
  match list, h with
  | [], h => cases h; exact hc
  | [_], h =>
    obtain ⟨margin, hmargin, h⟩ := exists_of_bind_eq_ok h
    cases h
    exact Challenge.forall_mem_parts.mpr
      ⟨hsubject, htarget, hgiven (by simp) hmargin, hmin, hmax, hpivot⟩
  | [_, _], h =>
    obtain ⟨margin, hmargin, h⟩ := exists_of_bind_eq_ok h
    obtain ⟨minCap, hminCap, h⟩ := exists_of_bind_eq_ok h
    cases h
    exact Challenge.forall_mem_parts.mpr
      ⟨hsubject, htarget, hgiven (by simp) hmargin, hgiven (by simp) hminCap, hmax, hpivot⟩
  | [_, _, _], h =>
    obtain ⟨margin, hmargin, h⟩ := exists_of_bind_eq_ok h
    obtain ⟨minCap, hminCap, h⟩ := exists_of_bind_eq_ok h
    obtain ⟨maxCap, hmaxCap, h⟩ := exists_of_bind_eq_ok h
    cases h
    exact Challenge.forall_mem_parts.mpr
      ⟨hsubject, htarget, hgiven (by simp) hmargin, hgiven (by simp) hminCap,
        hgiven (by simp) hmaxCap, hpivot⟩
  | [_, _, _, _], h =>
    obtain ⟨margin, hmargin, h⟩ := exists_of_bind_eq_ok h
    obtain ⟨minCap, hminCap, h⟩ := exists_of_bind_eq_ok h
    obtain ⟨maxCap, hmaxCap, h⟩ := exists_of_bind_eq_ok h
    obtain ⟨pivot, hpivot, h⟩ := exists_of_bind_eq_ok h
    cases h
    exact Challenge.forall_mem_parts.mpr
      ⟨hsubject, htarget, hgiven (by simp) hmargin, hgiven (by simp) hminCap,
        hgiven (by simp) hmaxCap, hgiven (by simp) hpivot⟩
  | _ :: _ :: _ :: _ :: _ :: _, h => cases h

theorem isImpersonal_of_challengeWith {head params : List Token} {e : Expr}
    (hhead : ∀ t ∈ head, t.IsImpersonal) (hparams : ∀ t ∈ params, t.IsImpersonal)
    (h : challengeWith head params = .ok e) : e.IsImpersonal := by
  simp only [challengeWith] at h
  split at h
  · cases h
  · next c hplain =>
    obtain ⟨c', hgiven, rfl⟩ := exists_of_map_eq_ok h
    have hc := isImpersonal_of_spelled (spells_challengeHead hplain) hhead
    have hgroups : ∀ group ∈ groups (dropFinalPercent params).2, ∀ t ∈ group, t.IsImpersonal :=
      fun _ hgroup t ht =>
        hparams t ((dropFinalPercent_sublist params).subset (mem_of_mem_groups hgroup ht))
    refine .node trivial (isImpersonal_of_parameters ?_ hgroups hgiven)
    exact fun p hp => hc.part hp

theorem isImpersonal_of_amount? {op : ChangeOp} {ts : List Token} {given : Option Expr}
    (hts : ∀ t ∈ ts, t.IsImpersonal) (h : amount? op ts = .ok (given, [])) :
    ∀ e ∈ given, e.IsImpersonal := by
  have hread (h : (expression false ts).map (fun read => (some read.1, read.2)) =
      .ok (given, [])) : ∀ e ∈ given, e.IsImpersonal := by
    obtain ⟨⟨e, rest⟩, hexpr, heq⟩ := exists_of_map_eq_ok h
    cases heq
    obtain ⟨used, rfl, hused⟩ := sound_expression false hexpr
    rintro _ ⟨⟩
    exact isImpersonal_of_spelled hused (by simpa using hts)
  cases op with
  | increment | decrement => cases h; exact fun _ hmem => nomatch hmem
  | _ => exact hread h

theorem isImpersonal_of_effectTarget? {t : Token} {target : EffectTarget} {notes : Notes}
    (ht : t.IsImpersonal) (h : effectTarget? t = some (target, notes)) :
    target.IsImpersonal ∧ notes.IsImpersonal := by
  unfold effectTarget? at h
  split at h
  · cases h
    exact ht
  · exact ht.elim
  · cases h

theorem isImpersonal_of_effect {ts : List Token} (hts : ∀ t ∈ ts, t.IsImpersonal) {e : EffectExpr}
    (h : effect ts = .ok e) : e.IsImpersonal ∧ ∀ p ∈ e.parts, p.IsImpersonal := by
  unfold effect at h
  split at h
  · cases h
  · next first rest =>
    split at h
    · cases h
    · cases h
    · next target notes op tail haim =>
      split at h
      · cases h
      · cases h
      · next given hread =>
        cases h
        obtain ⟨htarget, hnotes⟩ := isImpersonal_of_effectTarget? (hts first (.head _)) haim
        refine ⟨⟨htarget, hnotes⟩, fun p hp => ?_⟩
        rw [EffectExpr.parts, Option.mem_toList] at hp
        exact isImpersonal_of_amount? (fun t ht => hts t (.tail _ (.tail _ ht))) hread p hp
    · cases h

theorem isImpersonal_of_effects {list : List (List Token)}
    (hlist : ∀ group ∈ list, ∀ t ∈ group, t.IsImpersonal) {effects : List EffectExpr}
    (h : list.mapM effect = .ok effects) :
    ∀ e ∈ effects, e.IsImpersonal ∧ ∀ p ∈ e.parts, p.IsImpersonal := by
  induction list generalizing effects with
  | nil => cases h; exact fun _ hmem => nomatch hmem
  | cons group rest ih =>
    rw [List.mapM_cons] at h
    obtain ⟨e, he, h⟩ := exists_of_bind_eq_ok h
    obtain ⟨more, hmore, h⟩ := exists_of_bind_eq_ok h
    cases h
    exact List.forall_mem_cons.mpr ⟨isImpersonal_of_effect (hlist group (.head _)) he,
      ih (fun group hgroup => hlist group (.tail _ hgroup)) hmore⟩

theorem isImpersonal_of_rangeOrExpression {force : Bool} {ts : List Token}
    (hts : ∀ t ∈ ts, t.IsImpersonal) {e : Expr} (h : rangeOrExpression force ts = .ok e) :
    e.IsImpersonal := by
  unfold rangeOrExpression at h
  split at h
  · cases h
  · next lo rest hlo =>
    obtain ⟨a, rfl, ha⟩ := sound_expression force hlo
    split at h
    · cases h
    · next hi rest' hhi =>
      obtain ⟨b, rfl, hb⟩ := sound_sum force hhi
      obtain ⟨rfl, rfl⟩ := complete_eq_ok h
      simp only [List.forall_mem_append, List.forall_mem_cons] at hts
      exact .two trivial rfl (isImpersonal_of_spelled ha hts.1)
        (isImpersonal_of_spelled hb hts.2.2.1)
  · next e' rest _ hread =>
    obtain ⟨rfl, rfl⟩ := complete_eq_ok h
    obtain ⟨used, rfl, hused⟩ := sound_expression force hread
    exact isImpersonal_of_spelled hused (by simpa using hts)

theorem isImpersonal_of_tree {force : Bool} {ts : List Token} (hts : ∀ t ∈ ts, t.IsImpersonal)
    {e : Expr} (h : tree force ts = .ok e) : e.IsImpersonal := by
  unfold tree at h
  split at h
  · cases h
  · split at h
    · refine isImpersonal_of_challengeWith (fun t ht => hts t ?_) (fun t ht => hts t ?_) h
      · exact (List.takeWhile_sublist _).subset ht
      · exact ((List.drop_sublist 1 _).trans (List.dropWhile_sublist _)).subset ht
    · split at h
      · obtain ⟨effects, heffects, rfl⟩ := exists_of_map_eq_ok h
        have hall := isImpersonal_of_effects
          (fun _ hgroup t ht => hts t (mem_of_mem_groups hgroup ht)) heffects
        refine .node (fun e he => (hall e he).1) fun p hp => ?_
        obtain ⟨e, he, hp⟩ := List.mem_flatMap.mp hp
        exact (hall e he).2 p hp
      · exact isImpersonal_of_rangeOrExpression hts h

/-! ## Tokens of texts -/

theorem Notes.isImpersonal_add {notes : Notes} {entry : List Char} (hnotes : notes.IsImpersonal)
    (hentry : QualityScript.IsImpersonal entry) : (notes.add entry).IsImpersonal := by
  unfold Notes.add
  split
  · dsimp only
    split
    · rintro d ⟨⟩
      exact (hentry.of_suffix ((List.drop_suffix _ _).trans (List.dropWhile_suffix _))).partText
    · split <;> exact hnotes
  · exact hnotes

theorem Notes.isImpersonal_ofChars {text : List Char} (h : QualityScript.IsImpersonal text) :
    (Notes.ofChars text).IsImpersonal := by
  have hfold (entries : List (List Char))
      (hentries : ∀ entry ∈ entries, QualityScript.IsImpersonal entry) (notes : Notes)
      (hnotes : notes.IsImpersonal) : (entries.foldl Notes.add notes).IsImpersonal := by
    induction entries generalizing notes with
    | nil => exact hnotes
    | cons entry rest ih =>
      exact ih (fun e he => hentries e (.tail _ he)) _
        (isImpersonal_add hnotes (hentries entry (.head _)))
  exact hfold _ (fun _ he => h.of_mem_splitTopLevel (by decide) he) _ fun _ hd => nomatch hd

theorem Reference.isImpersonal_of_spanNamed? {scope : Scope} (hscope : scope ≠ .player)
    {text after : List Char} {r : Reference} (h : spanNamed? scope text = some (r, after)) :
    r.IsImpersonal := by
  have hid := isImpersonal_spanIdent text
  unfold spanNamed? at h
  split at h
  · cases h
  · next heq =>
    rw [heq] at hid
    split at h <;> cases h <;> exact ⟨hscope, by simpa using hid⟩
  · next heq =>
    rw [heq] at hid
    cases h
    exact ⟨hscope, by simpa using hid⟩

/-- In an impersonal text only `$.` and references to the world are references. -/
theorem Reference.isImpersonal_of_span? {text after : List Char}
    (htext : QualityScript.IsImpersonal text) {r : Reference} (h : span? text = some (r, after)) :
    r.IsImpersonal := by
  unfold span? at h
  split at h
  · cases h
    exact ⟨Scope.noConfusion, .nil⟩
  · next tail hpoint =>
    obtain ⟨rest, hrest⟩ := List.head?_eq_some_iff.mp ((isImpersonal_cons_iff.mp htext).2.1 rfl)
    exact absurd hrest (hpoint rest)
  · exact isImpersonal_of_spanNamed? Scope.noConfusion h
  · cases h

theorem isImpersonal_of_takeRef {marker : Char} {rest : List Char}
    (htext : IsImpersonal (marker :: rest)) {t : Token} {n : Nat}
    (h : takeRef marker rest = .ok (t, n)) : t.IsImpersonal := by
  unfold takeRef at h
  split at h
  · cases h
  · next reference after hspan =>
    split at h
    · next notes hnotes =>
      cases h
      have hafter := htext.tail.of_suffix (Reference.span?_suffix hspan)
      obtain ⟨more, rfl, -⟩ := eq_of_bracketed? hnotes
      have hinside : IsImpersonal notes := hafter.tail.of_append_left (by simp)
      exact ⟨Reference.isImpersonal_of_span? htext hspan, Notes.isImpersonal_ofChars hinside⟩
    · cases h
  · next hspan =>
    cases h
    exact ⟨Reference.isImpersonal_of_span? htext hspan, fun _ hd => nomatch hd⟩

theorem isImpersonal_of_takeText {quote : Char} (hquote : isQuote quote) {rest : List Char}
    (htext : IsImpersonal rest) {t : Token} {n : Nat} (h : takeText quote rest = .ok (t, n)) :
    t.IsImpersonal := by
  unfold takeText at h
  split at h
  · next hlength =>
    cases h
    refine isImpersonal_ofList (htext.take ?_)
    rw [getElem?_quoteLength? hlength]
    rintro ⟨⟩
    cases hquote
  · cases h

theorem isImpersonal_takeNumber (text : List Char) : (takeNumber text).1.IsImpersonal := by
  have hwhole (digits : List Char) : (wholeNumber digits).IsImpersonal := by
    unfold wholeNumber
    dsimp only
    split <;> trivial
  unfold takeNumber
  split
  split
  · split
    · exact hwhole _
    · trivial
  · exact hwhole _

theorem isImpersonal_takenWord {c : Char} {rest : List Char} (hc : isLetter c || c == '_') :
    (Token.word (String.ofList (c :: (spanIdent rest).1))).IsImpersonal := by
  have hfirst : isIdentChar c := by
    simp only [Bool.or_eq_true, beq_iff_eq] at hc
    obtain hletter | rfl := hc
    · exact isIdentChar_of_isLetter hletter
    · decide
  refine isImpersonal_ofList (isImpersonal_of_isIdentChar ?_)
  exact List.forall_mem_cons.mpr ⟨hfirst, fun _ => List.all_eq_true.mp List.all_takeWhile _⟩

theorem isImpersonal_of_takeOp {c : Char} {rest : List Char} {t : Token} {n : Nat}
    (h : takeOp c rest = .ok (t, n)) : t.IsImpersonal := by
  unfold takeOp at h
  split at h
  · cases h
    trivial
  · split at h
    · next ht =>
      cases h
      unfold Token.single? at ht
      split at ht <;> cases ht <;> trivial
    · cases h

theorem isImpersonal_of_takeToken {readCall : CallReader} {c : Char} {rest : List Char}
    (htext : IsImpersonal (c :: rest)) {t : Token} {n : Nat}
    (h : takeToken readCall c rest = .ok (t, n)) : t.IsImpersonal := by
  unfold takeToken at h
  split at h
  · next hquote => exact isImpersonal_of_takeText hquote htext.tail h
  · split at h
    · have hnumber := isImpersonal_takeNumber (c :: rest)
      rwa [Except.ok.inj h] at hnumber
    · split at h
      · exact isImpersonal_of_takeRef htext h
      · split at h
        · unfold takeAlias at h
          split at h <;> cases h
          trivial
        · split at h
          · next hc => exact absurd hc (isImpersonal_cons_iff.mp htext).1
          · split at h
            · next hword =>
              cases h
              exact isImpersonal_takenWord hword
            · exact isImpersonal_of_takeOp h

theorem isImpersonal_of_tokens {readCall : CallReader} {text : List Char} (htext : IsImpersonal text)
    {ts : List Token} (h : tokens readCall text = .ok ts) : ∀ t ∈ ts, t.IsImpersonal := by
  fun_induction tokens readCall text generalizing ts with
  | case1 => cases h; exact List.forall_mem_nil _
  | case2 c rest hblank ih => exact ih htext.tail h
  | case3 => cases h
  | case4 c rest hblank t n htake ih =>
    obtain ⟨more, hmore, rfl⟩ := exists_of_map_eq_ok h
    exact List.forall_mem_cons.mpr ⟨isImpersonal_of_takeToken htext htake,
      ih (htext.tail.of_suffix (List.drop_suffix _ _)) hmore⟩

/-- What is read from an impersonal text is impersonal. -/
theorem Expr.isImpersonal_of_parse {text : String} (htext : QualityScript.IsImpersonal text.toList)
    {e : Expr} (h : parse text = .ok e) : e.IsImpersonal := by
  unfold parse parseWith at h
  simp only [readAt] at h
  split at h
  · cases h
  · next ts hts => exact isImpersonal_of_tree (isImpersonal_of_tokens htext hts) h

end QualityScript
