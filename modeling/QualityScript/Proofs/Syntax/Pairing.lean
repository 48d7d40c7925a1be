import QualityScript.Proofs.Syntax.Opacity
import QualityScript.Proofs.Syntax.Segments

/-!
# Braces that pair

Without quotes a block ends at the brace that pairs with its first one. So a text is accepted exactly if
its braces pair, and its blocks are the outermost pairs of braces, in order, with the plain text between
them. In any other text the first fault is reported: a closing brace before which no brace is open, or a
brace outside all blocks that is never closed.
-/

namespace QualityScript

open Text

variable {left right front text rest inside : List Char} {c before : Char} {depth n : Nat}

/-- Up to no place of the text more than `depth` braces close that did not open in it. -/
def ClosesAtMost (depth : Nat) (text : List Char) : Prop :=
  ∀ init, init <+: text → init.count '}' ≤ init.count '{' + depth

theorem bracesPair_iff : BracesPair text ↔ ClosesAtMost 0 text ∧ EndsOutside text :=
  ⟨fun h => ⟨h.before, h.total⟩, fun h => ⟨h.1, h.2⟩⟩

theorem closesAtMost_nil : ClosesAtMost depth [] := by
  intro init hinit
  rw [List.prefix_nil.mp hinit]
  exact Nat.zero_le _

theorem closesAtMost_cons : ClosesAtMost depth (c :: rest) ↔ ∀ init, init <+: rest →
    (c :: init).count '}' ≤ (c :: init).count '{' + depth := by
  constructor
  · exact fun h init hinit => h _ (List.cons_prefix_cons.mpr ⟨rfl, hinit⟩)
  · intro h init hinit
    obtain rfl | ⟨tail, rfl, htail⟩ := List.prefix_cons_iff.mp hinit
    · exact Nat.zero_le _
    · exact h tail htail

theorem closesAtMost_opening :
    ClosesAtMost depth ('{' :: rest) ↔ ClosesAtMost (depth + 1) rest := by
  rw [closesAtMost_cons, ClosesAtMost]
  simp [Nat.add_right_comm, ← Nat.add_assoc]

theorem closesAtMost_closing :
    ClosesAtMost (depth + 1) ('}' :: rest) ↔ ClosesAtMost depth rest := by
  rw [closesAtMost_cons, ClosesAtMost]
  simp [← Nat.add_assoc]

theorem not_closesAtMost_closing : ¬ ClosesAtMost 0 ('}' :: rest) := by
  intro h
  simpa using closesAtMost_cons.mp h [] List.nil_prefix

theorem closesAtMost_plain (hopen : c ≠ '{') (hclose : c ≠ '}') :
    ClosesAtMost depth (c :: rest) ↔ ClosesAtMost depth rest := by
  rw [closesAtMost_cons, ClosesAtMost]
  simp [hopen, hclose]

theorem closesAtMost_append : ClosesAtMost depth (left ++ right) ↔
    ClosesAtMost depth left ∧
      ClosesAtMost (left.count '{' + depth - left.count '}') right := by
  induction left generalizing depth with
  | nil => simp [closesAtMost_nil]
  | cons c rest ih =>
    rw [List.cons_append]
    by_cases hopen : c = '{'
    · subst hopen
      rw [closesAtMost_opening, closesAtMost_opening, ih]
      simp [Nat.add_right_comm, Nat.add_assoc]
    by_cases hclose : c = '}'
    · subst hclose
      cases depth with
      | zero => simp [not_closesAtMost_closing]
      | succ depth =>
        rw [closesAtMost_closing, closesAtMost_closing, ih]
        simp [← Nat.add_assoc]
    · rw [closesAtMost_plain hopen hclose, closesAtMost_plain hopen hclose, ih]
      simp [hopen, hclose]

theorem BracesPair.closesAtMost_append (h : BracesPair front) :
    ClosesAtMost depth (front ++ text) ↔ ClosesAtMost depth text := by
  have hfront : ClosesAtMost depth front := fun init hinit =>
    Nat.le_trans (h.before init hinit) (Nat.le_add_right _ _)
  rw [QualityScript.closesAtMost_append, h.total, Nat.add_sub_cancel_left]
  exact and_iff_right hfront

theorem bracesPair_nil : BracesPair [] := by decide

theorem BracesPair.append_iff (h : BracesPair front) :
    BracesPair (front ++ text) ↔ BracesPair text := by
  rw [bracesPair_iff, bracesPair_iff, h.closesAtMost_append,
    EndsOutside.append_iff (show EndsOutside front from h.total)]

theorem bracesPair_plain (hopen : c ≠ '{') (hclose : c ≠ '}') : BracesPair [c] := by
  rw [bracesPair_iff, closesAtMost_plain hopen hclose]
  exact ⟨closesAtMost_nil, by simp [EndsOutside, hopen, hclose]⟩

theorem BracesPair.inBraces (h : BracesPair inside) : BracesPair ('{' :: (inside ++ ['}'])) := by
  have hend : ClosesAtMost 1 ['}'] := closesAtMost_closing.mpr closesAtMost_nil
  rw [bracesPair_iff, closesAtMost_opening, h.closesAtMost_append]
  exact ⟨hend, by simp [EndsOutside, h.total]⟩

/-! ## The end of a block -/

/-- Counting finds no end exactly if the open braces are never all closed. -/
theorem closingBrace?_eq_none_iff :
    closingBrace? false depth none before text = none ↔ ClosesAtMost depth text := by
  induction text generalizing depth before with
  | nil => simp [closingBrace?, closesAtMost_nil]
  | cons c rest ih =>
    by_cases hopen : c = '{'
    · subst hopen
      simp [closingBrace?, closesAtMost_opening, ih]
    by_cases hclose : c = '}'
    · subst hclose
      cases depth with
      | zero => simp [closingBrace?, not_closesAtMost_closing]
      | succ depth => simp [closingBrace?, closesAtMost_closing, ih]
    · simp [closingBrace?, closesAtMost_plain hopen hclose, hopen, hclose, ih]

/-- The end that counting finds is the first brace that closes more than is open. -/
theorem closingBrace?_append_closing (h : ClosesAtMost depth inside)
    (htotal : inside.count '}' = inside.count '{' + depth) :
    closingBrace? false depth none before (inside ++ '}' :: right) = some inside.length := by
  induction inside generalizing depth before with
  | nil =>
    obtain rfl : 0 = depth := by simpa using htotal
    simp [closingBrace?]
  | cons c rest ih =>
    rw [List.cons_append]
    by_cases hopen : c = '{'
    · subst hopen
      simp only [List.count_cons_self, List.count_cons_of_ne (by decide : '{' ≠ '}')] at htotal
      simp [closingBrace?, ih (closesAtMost_opening.mp h) (by omega)]
    by_cases hclose : c = '}'
    · subst hclose
      cases depth with
      | zero => exact absurd h not_closesAtMost_closing
      | succ depth =>
        simp only [List.count_cons_self, List.count_cons_of_ne (by decide : '}' ≠ '{')] at htotal
        simp [closingBrace?, ih (closesAtMost_closing.mp h) (by omega)]
    · rw [List.count_cons_of_ne hopen, List.count_cons_of_ne hclose] at htotal
      simp [closingBrace?, hopen, hclose, ih ((closesAtMost_plain hopen hclose).mp h) htotal]

theorem exists_of_closingBrace? (h : closingBrace? false depth none before text = some n) :
    ∃ inside right, text = inside ++ '}' :: right ∧ inside.length = n ∧
      ClosesAtMost depth inside ∧ inside.count '}' = inside.count '{' + depth := by
  induction text generalizing depth before n with
  | nil => cases h
  | cons c rest ih =>
    by_cases hopen : c = '{'
    · subst hopen
      obtain ⟨m, hm, rfl⟩ := Option.map_eq_some_iff.mp (by simpa [closingBrace?] using h)
      obtain ⟨inside, right, rfl, rfl, hinside, htotal⟩ := ih hm
      exact ⟨'{' :: inside, right, rfl, rfl, closesAtMost_opening.mpr hinside, by simp; omega⟩
    by_cases hclose : c = '}'
    · subst hclose
      cases depth with
      | zero =>
        obtain rfl : 0 = n := by simpa [closingBrace?] using h
        exact ⟨[], rest, rfl, rfl, closesAtMost_nil, rfl⟩
      | succ depth =>
        obtain ⟨m, hm, rfl⟩ := Option.map_eq_some_iff.mp (by simpa [closingBrace?] using h)
        obtain ⟨inside, right, rfl, rfl, hinside, htotal⟩ := ih hm
        exact ⟨'}' :: inside, right, rfl, rfl, closesAtMost_closing.mpr hinside, by simp; omega⟩
    · obtain ⟨m, hm, rfl⟩ := Option.map_eq_some_iff.mp (by simpa [closingBrace?, hopen, hclose] using h)
      obtain ⟨inside, right, rfl, rfl, hinside, htotal⟩ := ih hm
      exact ⟨c :: inside, right, rfl, rfl, (closesAtMost_plain hopen hclose).mpr hinside,
        by simpa [hopen, hclose] using htotal⟩

theorem blockLength?_of_isQuote (hquotes : ∀ c ∈ text, isQuote c = false) :
    blockLength? text = closingBrace? false 0 none '{' text := by
  rw [blockLength?, closingBrace?_of_isQuote hquotes]
  cases closingBrace? false 0 none '{' text <;> rfl

/-- The block behind an opening brace is what pairs before the closing one. -/
theorem blockLength?_eq_some_iff (hquotes : ∀ c ∈ text, isQuote c = false) :
    blockLength? text = some n ↔ ∃ inside right,
      text = inside ++ '}' :: right ∧ inside.length = n ∧ BracesPair inside := by
  simp only [blockLength?_of_isQuote hquotes, bracesPair_iff]
  constructor
  · exact exists_of_closingBrace?
  · rintro ⟨inside, right, rfl, rfl, hinside, htotal⟩
    exact closingBrace?_append_closing hinside htotal

theorem blockLength?_eq_none_iff (hquotes : ∀ c ∈ text, isQuote c = false) :
    blockLength? text = none ↔ ClosesAtMost 0 text := by
  rw [blockLength?_of_isQuote hquotes, closingBrace?_eq_none_iff]

/-! ## Pairs of braces -/

/-- The characters from one place of a text to another, both included. -/
structure Span where
  start : Nat
  stop : Nat
  deriving DecidableEq, Repr

/-- The characters between the first and the last one. -/
def Span.contents (s : Span) (text : List Char) : List Char := (text.take s.stop).drop (s.start + 1)

/-- A brace, braces that pair, and the brace that closes the first one. -/
structure Span.IsPair (s : Span) (text : List Char) : Prop where
  lt : s.start < s.stop
  opening : text[s.start]? = some '{'
  closing : text[s.stop]? = some '}'
  inside : BracesPair (s.contents text)

/-- A pair of braces that no brace is open around, and that no other pair contains. -/
structure Span.IsOutermost (s : Span) (text : List Char) : Prop extends s.IsPair text where
  outside : EndsOutside (text.take s.start)
  maximal : ∀ t : Span, t.IsPair text → t.start ≤ s.start → s.stop ≤ t.stop → t = s

/-- A text cut at some spans, from a place on: the contents of the spans are blocks, and what stands
between them is plain text. -/
def Template.cutAtSpans (text : List Char) (start : Nat) : List Span → Template
  | [] => literalPart (text.drop start).reverse
  | s :: spans =>
    literalPart ((text.take s.start).drop start).reverse ++
      .block (String.ofList (s.contents text)) :: cutAtSpans text (s.stop + 1) spans

theorem contents_append (left inside right : List Char) :
    Span.contents ⟨left.length, left.length + 1 + inside.length⟩
      (left ++ '{' :: (inside ++ '}' :: right)) = inside := by
  have htake : (left ++ '{' :: (inside ++ '}' :: right)).take (left.length + 1 + inside.length) =
      left ++ '{' :: inside := by
    rw [Nat.add_assoc, List.take_length_add_append, Nat.add_comm 1, List.take_succ_cons,
      List.take_left]
  rw [Span.contents, htake, ← List.drop_drop, List.drop_left, List.drop_one, List.tail_cons]

/-- A pair of braces stands between two texts. -/
theorem Span.isPair_iff {s : Span} : s.IsPair text ↔ ∃ left inside right,
    text = left ++ '{' :: (inside ++ '}' :: right) ∧ BracesPair inside ∧
      s = ⟨left.length, left.length + 1 + inside.length⟩ := by
  constructor
  · rintro ⟨hlt, hopening, hclosing, hinside⟩
    obtain ⟨hstart, hopens⟩ := List.getElem?_eq_some_iff.mp hopening
    obtain ⟨hstop, hcloses⟩ := List.getElem?_eq_some_iff.mp hclosing
    obtain ⟨start, stop⟩ := s
    dsimp only at hlt hstart hstop hopens hcloses
    have hlength : (Span.contents ⟨start, stop⟩ text).length = stop - (start + 1) := by
      simp only [contents, List.length_drop, List.length_take]
      omega
    refine ⟨text.take start, _, text.drop (stop + 1), ?_, hinside, ?_⟩
    · have hrest : text.drop (start + 1) =
          contents ⟨start, stop⟩ text ++ '}' :: text.drop (stop + 1) := by
        rw [← hcloses, ← List.drop_eq_getElem_cons, contents, List.drop_take]
        conv_lhs => rw [← List.take_append_drop (stop - (start + 1)) (text.drop (start + 1))]
        rw [List.drop_drop, Nat.add_sub_cancel' hlt]
      rw [← hrest, ← hopens, ← List.drop_eq_getElem_cons, List.take_append_drop]
    · simp only [List.length_take, hlength, Span.mk.injEq]
      omega
  · rintro ⟨left, inside, right, rfl, hinside, rfl⟩
    refine ⟨by simp only; omega, by simp, ?_, (contents_append left inside right).symm ▸ hinside⟩
    simp [Nat.add_assoc, Nat.add_comm 1]

/-- An opening brace is in one pair at most. -/
theorem Span.IsPair.eq_of_start {s t : Span} (hs : s.IsPair text) (ht : t.IsPair text)
    (h : t.start = s.start) : t = s := by
  obtain ⟨left, inside, right, rfl, hinside, rfl⟩ := isPair_iff.mp hs
  obtain ⟨left', inside', right', htext, hinside', rfl⟩ := isPair_iff.mp ht
  obtain ⟨rfl, hrest⟩ := List.append_inj htext h.symm
  have hfound {inside : List Char} (hinside : BracesPair inside) (right : List Char) :
      closingBrace? false 0 none '{' (inside ++ '}' :: right) = some inside.length :=
    closingBrace?_append_closing hinside.before hinside.total
  have hlength := hfound hinside right
  rw [List.cons.inj hrest |>.2, hfound hinside' right', Option.some_inj] at hlength
  rw [hlength]

/-- Between the braces of a pair the opening one is open. -/
theorem not_endsOutside_within (hleft : left.count '}' ≤ left.count '{') (hinside : BracesPair inside)
    (hlt : left.length < n) (hle : n ≤ left.length + 1 + inside.length) :
    ¬ EndsOutside ((left ++ '{' :: (inside ++ '}' :: right)).take n) := by
  obtain ⟨k, rfl⟩ : ∃ k, n = left.length + (k + 1) := ⟨n - (left.length + 1), by omega⟩
  have hmid := hinside.before _ (List.take_prefix k inside)
  rw [List.take_length_add_append, List.take_succ_cons,
    List.take_append_of_le_length (by omega), EndsOutside]
  simp only [List.count_append, List.count_cons_self,
    List.count_cons_of_ne (by decide : '{' ≠ '}')]
  omega

/-- In a text whose braces pair, a pair that starts outside all others is in no larger one. -/
theorem BracesPair.isOutermost (h : BracesPair text) {s : Span} (hs : s.IsPair text)
    (houtside : EndsOutside (text.take s.start)) : s.IsOutermost text where
  toIsPair := hs
  outside := houtside
  maximal := by
    intro t ht hstart hstop
    refine hs.eq_of_start ht ?_
    by_contra hne
    obtain ⟨left, inside, right, rfl, hinside, rfl⟩ := Span.isPair_iff.mp ht
    have hlt := hs.lt
    dsimp only at hstart hstop hne
    have hleft := h.before left (List.prefix_append _ _)
    exact not_endsOutside_within hleft hinside (by omega) (by omega) houtside

/-! ## Accepted texts -/

theorem bracesPair_block (hinside : BracesPair inside) :
    BracesPair ('{' :: (inside ++ '}' :: text)) ↔ BracesPair text := by
  have hcons : '{' :: (inside ++ '}' :: text) = '{' :: (inside ++ ['}']) ++ text := by simp
  rw [hcons, hinside.inBraces.append_iff]

/-- In an accepted text the braces pair. -/
theorem Cuts.bracesPair {collected : List Char} {template : Template}
    (h : Cuts collected text template) (hquotes : ∀ c ∈ text, isQuote c = false) :
    BracesPair text := by
  induction h with
  | nil => exact bracesPair_nil
  | @block collected rest n segments hn h ih =>
    have hrest : ∀ c ∈ rest, isQuote c = false := fun c hc => hquotes c (.tail _ hc)
    obtain ⟨inside, right, rfl, rfl, hinside⟩ := (blockLength?_eq_some_iff hrest).mp hn
    rw [bracesPair_block hinside]
    simpa using ih fun c hc => hrest c (List.mem_of_mem_drop hc)
  | @plain collected c rest template hopen hclose h ih =>
    rw [← List.singleton_append, (bracesPair_plain hopen hclose).append_iff]
    exact ih fun c hc => hquotes c (.tail _ hc)

/-- A pair that starts outside all others from a place on is the block there or starts after it. -/
theorem eq_or_le_of_isPair {s : Span} (hfront : BracesPair front) (hinside : BracesPair inside)
    (hs : s.IsPair (front ++ '{' :: (inside ++ '}' :: right)))
    (houtside : EndsOutside ((front ++ '{' :: (inside ++ '}' :: right)).take s.start))
    (hle : front.length ≤ s.start) :
    s = ⟨front.length, front.length + 1 + inside.length⟩ ∨
      front.length + 1 + inside.length + 1 ≤ s.start := by
  have hfirst : Span.IsPair ⟨front.length, front.length + 1 + inside.length⟩
      (front ++ '{' :: (inside ++ '}' :: right)) :=
    Span.isPair_iff.mpr ⟨front, inside, right, rfl, hinside, rfl⟩
  by_cases hstart : s.start = front.length
  · exact .inl (hfirst.eq_of_start hs hstart)
  refine .inr ?_
  by_contra hlt
  exact not_endsOutside_within (Nat.le_of_eq hfront.total) hinside (by omega) (by omega) houtside

/-- The blocks of an accepted text behind a text whose braces pair are the pairs that start there
outside all others. `start` is where the plain text begins that ends there. -/
theorem Cuts.exists_spans {collected : List Char} {template : Template}
    (h : Cuts collected text template) (hquotes : ∀ c ∈ text, isQuote c = false)
    (hfront : BracesPair front) {start : Nat} (hstart : start ≤ front.length)
    (hcollected : collected = (front.drop start).reverse) :
    ∃ spans : List Span, spans.Pairwise (fun s t => s.stop < t.start) ∧
      (∀ s, s ∈ spans ↔ s.IsPair (front ++ text) ∧ EndsOutside ((front ++ text).take s.start) ∧
        front.length ≤ s.start) ∧
      template = Template.cutAtSpans (front ++ text) start spans := by
  induction h generalizing front start with
  | nil =>
    refine ⟨[], .nil, fun s => iff_of_false List.not_mem_nil ?_, ?_⟩
    · rintro ⟨hs, -, hle⟩
      have hlt := (List.getElem?_eq_some_iff.mp hs.opening).1
      rw [List.append_nil] at hlt
      omega
    · rw [Template.cutAtSpans, List.append_nil, hcollected]
  | @block collected rest n segments hn h ih =>
    have hrest : ∀ c ∈ rest, isQuote c = false := fun c hc => hquotes c (.tail _ hc)
    obtain ⟨inside, right, rfl, rfl, hinside⟩ := (blockLength?_eq_some_iff hrest).mp hn
    have hdrop : (inside ++ '}' :: right).drop (inside.length + 1) = right := by simp
    have hwhole : front ++ '{' :: (inside ++ '}' :: right) =
        (front ++ '{' :: (inside ++ ['}'])) ++ right := by simp
    have hlength : (front ++ '{' :: (inside ++ ['}'])).length =
        front.length + 1 + inside.length + 1 := by simp; omega
    rw [hdrop] at ih
    obtain ⟨spans, hordered, hspans, hsegments⟩ := ih
      (fun c hc => hrest c (by simp [hc])) (hfront.append_iff.mpr hinside.inBraces)
      (Nat.le_refl _) (by rw [List.drop_length, List.reverse_nil])
    rw [← hwhole, hlength] at hspans
    refine ⟨⟨front.length, front.length + 1 + inside.length⟩ :: spans,
      List.pairwise_cons.mpr ⟨fun t ht => ?_, hordered⟩, fun s => ?_, ?_⟩
    · exact ((hspans t).mp ht).2.2
    · rw [List.mem_cons, hspans]
      constructor
      · rintro (rfl | ⟨hs, houtside, hle⟩)
        · refine ⟨Span.isPair_iff.mpr ⟨front, inside, right, rfl, hinside, rfl⟩, ?_, Nat.le_refl _⟩
          rw [List.take_left]
          exact hfront.total
        · exact ⟨hs, houtside, by omega⟩
      · rintro ⟨hs, houtside, hle⟩
        exact (eq_or_le_of_isPair hfront hinside hs houtside hle).imp_right
          fun hlater => ⟨hs, houtside, hlater⟩
    · rw [Template.cutAtSpans, contents_append, List.take_left, List.take_left, ← hcollected,
        hsegments, hlength, ← hwhole]
  | @plain collected c rest template hopen hclose h ih =>
    have hwhole : front ++ c :: rest = (front ++ [c]) ++ rest := by simp
    have hstart' : start ≤ (front ++ [c]).length := by
      rw [List.length_append]
      omega
    obtain ⟨spans, hordered, hspans, htemplate⟩ := ih
      (fun c hc => hquotes c (.tail _ hc))
      (hfront.append_iff.mpr (bracesPair_plain hopen hclose)) hstart'
      (by rw [List.drop_append_of_le_length hstart, List.reverse_append, hcollected]; rfl)
    rw [← hwhole] at hspans htemplate
    refine ⟨spans, hordered, fun s => (hspans s).trans ?_, htemplate⟩
    rw [List.length_append, List.length_singleton]
    refine and_congr_right fun hs => and_congr_right fun _ => ⟨Nat.le_of_succ_le, fun hle => ?_⟩
    -- No pair starts at the plain character.
    refine Nat.lt_of_le_of_ne hle fun heq => hopen ?_
    have hopening := hs.opening
    rw [← heq, List.getElem?_append_right (Nat.le_refl _), Nat.sub_self] at hopening
    simpa using hopening

/-! ## Faults -/

/-- What is wrong at a place: a brace closes that was not opened, or one opens outside all blocks and is
never closed. -/
def BraceError.IsFault (text : List Char) : BraceError → Prop
  | unmatchedClose n => ∃ left right, text = left ++ '}' :: right ∧ left.length = n ∧
      left.count '{' ≤ left.count '}'
  | unclosed n => ∃ left right, text = left ++ '{' :: right ∧ left.length = n ∧
      EndsOutside left ∧ ∀ init, init <+: right → init.count '}' ≤ init.count '{'

/-- Where the braces pair there is no fault. -/
theorem BraceError.IsFault.length_le {e : BraceError} (h : e.IsFault (front ++ text))
    (hfront : BracesPair front) : front.length ≤ e.offset := by
  by_contra hlt
  have hinit {left right : List Char} {c : Char} (htext : front ++ text = left ++ c :: right)
      (hlt : left.length < front.length) : ∃ mid, front = left ++ c :: mid ∧ mid <+: right := by
    obtain ⟨more, rfl, -⟩ | ⟨more, rfl, hmore⟩ := List.append_eq_append_iff.mp htext
    · rw [List.length_append] at hlt
      omega
    · cases more with
      | nil => simp at hlt
      | cons d mid =>
        obtain ⟨rfl, rfl⟩ := List.cons.inj hmore
        exact ⟨mid, rfl, List.prefix_append _ _⟩
  cases e with
  | unmatchedClose n =>
    obtain ⟨left, right, htext, rfl, hcount⟩ := h
    obtain ⟨mid, rfl, -⟩ := hinit htext (by simpa [offset] using hlt)
    have hbefore := hfront.before (left ++ ['}']) ⟨mid, by simp⟩
    simp at hbefore
    omega
  | unclosed n =>
    obtain ⟨left, right, htext, rfl, houtside, hopen⟩ := h
    obtain ⟨mid, rfl, hmid⟩ := hinit htext (by simpa [offset] using hlt)
    have htotal := hfront.total
    have hcount := hopen mid hmid
    unfold EndsOutside at houtside
    simp at htotal
    omega

theorem BracesPair.not_isFault (h : BracesPair text) (e : BraceError) : ¬ e.IsFault text := by
  intro hfault
  have hle := BraceError.IsFault.length_le ((List.append_nil text).symm ▸ hfault) h
  cases e with
  | unmatchedClose n | unclosed n =>
    obtain ⟨left, right, rfl, rfl, -⟩ := hfault
    simp only [BraceError.offset, List.length_append, List.length_cons] at hle
    omega

theorem BraceError.IsFault.getElem? {e : BraceError} (h : e.IsFault text) :
    text[e.offset]? = some e.brace := by
  cases e with
  | unmatchedClose n | unclosed n =>
    obtain ⟨left, right, rfl, rfl, -⟩ := h
    simp [offset, brace]

/-- At one place there is one fault at most. -/
theorem BraceError.IsFault.eq_of_offset {e e' : BraceError} (h : e.IsFault text)
    (h' : e'.IsFault text) (hoffset : e.offset = e'.offset) : e = e' := by
  have hbrace : e.brace = e'.brace := by
    rw [← Option.some_inj, ← h.getElem?, ← h'.getElem?, hoffset]
  cases e <;> cases e' <;> simp_all [offset, brace]

/-- The first fault that is reported behind a text whose braces pair is the first one. -/
theorem isFault_of_head?_scanFrom {offset : Nat} {previous : Option Char} {collected : List Char}
    {e : BraceError} (hquotes : ∀ c ∈ text, isQuote c = false) (hfront : BracesPair front)
    (hoffset : front.length = offset)
    (he : e ∈ (scanFrom false offset previous collected text).2.head?) :
    e.IsFault (front ++ text) ∧
      ∀ e' : BraceError, e'.IsFault (front ++ text) → e.offset ≤ e'.offset := by
  fun_induction scanFrom false offset previous collected text generalizing front with
  | case1 => cases he
  | case2 offset previous collected rest n hn hlt segments errors hscan ih =>
    have hrest : ∀ c ∈ rest, isQuote c = false := fun c hc => hquotes c (.tail _ hc)
    obtain ⟨inside, right, rfl, rfl, hinside⟩ := (blockLength?_eq_some_iff hrest).mp hn
    have hdrop : (inside ++ '}' :: right).drop (inside.length + 1) = right := by simp
    have hwhole : front ++ '{' :: (inside ++ '}' :: right) =
        (front ++ '{' :: (inside ++ ['}'])) ++ right := by simp
    rw [hdrop] at ih hscan
    rw [hwhole]
    refine ih (fun c hc => hrest c (by simp [hc])) (hfront.append_iff.mpr hinside.inBraces) ?_ ?_
    · rw [← hoffset]
      simp
      omega
    · rw [hscan]
      exact he
  | case3 offset previous collected rest hn =>
    cases he
    have hrest : ∀ c ∈ rest, isQuote c = false := fun c hc => hquotes c (.tail _ hc)
    refine ⟨⟨front, rest, rfl, hoffset, hfront.total, ?_⟩, fun e' he' => ?_⟩
    · exact (blockLength?_eq_none_iff hrest).mp hn
    · exact hoffset ▸ he'.length_le hfront
  | case4 offset previous collected c rest hbrace n hn => cases hn
  | case5 offset previous collected c rest hbrace hn segments errors hscan ih =>
    by_cases hclose : c = '}'
    · subst hclose
      rw [if_pos rfl] at he
      cases he
      refine ⟨⟨front, rest, rfl, hoffset, Nat.le_of_eq hfront.total.symm⟩, fun e' he' => ?_⟩
      exact hoffset ▸ he'.length_le hfront
    · rw [if_neg hclose] at he
      have hwhole : front ++ c :: rest = (front ++ [c]) ++ rest := by simp
      rw [hwhole]
      refine ih (fun c hc => hquotes c (.tail _ hc))
        (hfront.append_iff.mpr (bracesPair_plain hbrace hclose)) ?_ ?_
      · rw [List.length_append, hoffset]
        rfl
      · rw [hscan]
        exact he

theorem exists_head?_of_parse {input : String} {e : BraceError}
    (h : Template.parse input = .error e) :
    e ∈ (scanFrom false 0 none [] input.toList).2.head? := by
  unfold Template.parse scan at h
  split at h
  · next hscan =>
    cases h
    rw [hscan]
    rfl
  · cases h

/-! ## Texts without quotes -/

/-- Only the first fault of a text is reported. -/
theorem parse_eq_error_iff {input : String} (hquotes : ∀ c ∈ input.toList, isQuote c = false)
    {e : BraceError} : Template.parse input = .error e ↔
      e.IsFault input.toList ∧ ∀ e' : BraceError, e'.IsFault input.toList → e.offset ≤ e'.offset := by
  have hreported {e : BraceError} (h : Template.parse input = .error e) :=
    isFault_of_head?_scanFrom hquotes bracesPair_nil rfl (exists_head?_of_parse h)
  refine ⟨hreported, fun ⟨hfault, hleast⟩ => ?_⟩
  cases hparse : Template.parse input with
  | ok template =>
    have hpairs := (Template.parse_eq_ok_iff.mp hparse).bracesPair hquotes
    exact absurd hfault (hpairs.not_isFault e)
  | error e' =>
    obtain ⟨hfault', hleast'⟩ := hreported hparse
    rw [hfault.eq_of_offset hfault' (Nat.le_antisymm (hleast e' hfault') (hleast' e hfault))]

/-- A text without quotes is a template exactly if its braces pair. Then its blocks are the outermost
pairs of braces, in order, and what stands between them is plain text. Otherwise the first of its faults
is reported. -/
theorem Template.parse_of_isQuote {input : String}
    (hquotes : ∀ c ∈ input.toList, isQuote c = false) :
    ((∃ template, parse input = .ok template) ↔ BracesPair input.toList) ∧
    (∀ template, parse input = .ok template → ∃ spans : List Span,
      spans.Pairwise (fun s t => s.stop < t.start) ∧
      (∀ s, s ∈ spans ↔ s.IsOutermost input.toList) ∧
      template = cutAtSpans input.toList 0 spans) ∧
    ∀ e, parse input = .error e ↔
      e.IsFault input.toList ∧
        ∀ e' : BraceError, e'.IsFault input.toList → e.offset ≤ e'.offset := by
  refine ⟨⟨fun ⟨template, h⟩ => (parse_eq_ok_iff.mp h).bracesPair hquotes, fun hpairs => ?_⟩,
    fun template h => ?_, fun e => parse_eq_error_iff hquotes⟩
  · cases hparse : parse input with
    | ok template => exact ⟨template, rfl⟩
    | error e => exact absurd ((parse_eq_error_iff hquotes).mp hparse).1 (hpairs.not_isFault e)
  · have hcuts := parse_eq_ok_iff.mp h
    have hpairs := hcuts.bracesPair hquotes
    obtain ⟨spans, hordered, hspans, htemplate⟩ :=
      hcuts.exists_spans hquotes bracesPair_nil (Nat.le_refl 0) rfl
    refine ⟨spans, hordered, fun s => (hspans s).trans ⟨?_, ?_⟩, htemplate⟩
    · exact fun ⟨hpair, houtside, _⟩ => hpairs.isOutermost hpair houtside
    · exact fun h => ⟨h.toIsPair, h.outside, Nat.zero_le _⟩

/-- The braces of the first text pair. In the second one a brace that closes nothing stands before one
that is never closed. -/
theorem Template.parse_of_isQuote_nested :
    (∀ c ∈ "a\x7bb\x7bc\x7d\x7dd\x7b\x7d".toList, isQuote c = false) ∧
    (∃ template, parse "a\x7bb\x7bc\x7d\x7dd\x7b\x7d" = .ok template) ∧
    (∀ c ∈ "\x7ba\x7d\x7d \x7b".toList, isQuote c = false) ∧
    ∀ e : BraceError, e.IsFault "\x7ba\x7d\x7d \x7b".toList → 3 ≤ e.offset := by
  have hfirst : ∀ c ∈ "a\x7bb\x7bc\x7d\x7dd\x7b\x7d".toList, isQuote c = false := by simp [isQuote]
  have hsecond : ∀ c ∈ "\x7ba\x7d\x7d \x7b".toList, isQuote c = false := by simp [isQuote]
  have hparse : parse "\x7ba\x7d\x7d \x7b" = .error (.unmatchedClose 3) := by cbv
  refine ⟨hfirst, (parse_of_isQuote hfirst).1.mpr (by decide +kernel), hsecond, ?_⟩
  exact (((parse_of_isQuote hsecond).2.2 (.unmatchedClose 3)).mp hparse).2

end QualityScript
