import QualityScript.Proofs.Syntax.Composing
import QualityScript.Proofs.Syntax.Impersonal

/-!
# Templates written out

Every character of a text goes into one segment, or is a brace around a block. So the segments written
one after the other, the blocks in their braces, are the text again. A brace without a partner stays in
plain text. It is reported with its place, and where nothing is reported there is none.
-/

namespace QualityScript

open Text

def Segment.IsLiteral : Segment → Prop
  | .literal _ => True
  | .block _ => False

/-- The characters that a segment was cut from. -/
def Segment.written : Segment → List Char
  | .literal text => text.toList
  | .block content => '{' :: (content.toList ++ ['}'])

/-- The segments one after the other, the blocks in their braces. -/
def Template.written (template : Template) : List Char := template.flatMap Segment.written

def BraceError.brace : BraceError → Char
  | unclosed _ => '{'
  | unmatchedClose _ => '}'

/-- The character at an offset of a template written out is part of plain text. -/
def Template.HasPlain (template : Template) (offset : Nat) (c : Char) : Prop :=
  ∃ front text back, template = front ++ .literal text :: back ∧
    ∃ i, text.toList[i]? = some c ∧ offset = (written front).length + i

namespace Template

@[simp] theorem written_append (front back : Template) :
    written (front ++ back) = front.written ++ back.written :=
  List.flatMap_append ..

@[simp] theorem written_cons (segment : Segment) (rest : Template) :
    written (segment :: rest) = segment.written ++ rest.written :=
  List.flatMap_cons ..

theorem HasPlain.getElem? {template : Template} {offset : Nat} {c : Char}
    (h : template.HasPlain offset c) : template.written[offset]? = some c := by
  obtain ⟨front, text, back, rfl, i, hi, rfl⟩ := h
  have hlt : i < text.toList.length := (List.getElem?_eq_some_iff.mp hi).1
  rw [written_append, written_cons, List.getElem?_append_right (Nat.le_add_right _ i),
    Nat.add_sub_cancel_left]
  exact (List.getElem?_append_left hlt).trans hi

theorem HasPlain.append_left {template : Template} {offset : Nat} {c : Char}
    (h : template.HasPlain offset c) (front : Template) :
    HasPlain (front ++ template) (front.written.length + offset) c := by
  obtain ⟨front', text, back, rfl, i, hi, rfl⟩ := h
  refine ⟨front ++ front', text, back, by simp, i, hi, ?_⟩
  rw [written_append, List.length_append, Nat.add_assoc]

theorem HasPlain.mem_literal {template : Template} {offset : Nat} {c : Char}
    (h : template.HasPlain offset c) : ∃ text, .literal text ∈ template ∧ c ∈ text.toList := by
  obtain ⟨front, text, back, rfl, i, hi, -⟩ := h
  exact ⟨text, by simp, List.mem_of_getElem? hi⟩

end Template

/-! ## Nothing is lost -/

variable {text rest collected : List Char} {quotesKept : Bool} {before : Option Char} {c : Char}
variable {offset n : Nat}

theorem written_literalPart (collected : List Char) :
    Template.written (literalPart collected) = collected.reverse := by
  unfold literalPart
  split
  · next h => rw [List.isEmpty_iff.mp h]; rfl
  · simp [Template.written, Segment.written]

theorem take_append_closing (h : blockLength? rest = some n) :
    rest.take n ++ '}' :: rest.drop (n + 1) = rest := by
  obtain ⟨hlt, hbrace⟩ := List.getElem?_eq_some_iff.mp (getElem?_blockLength? h)
  rw [← hbrace, ← List.drop_eq_getElem_cons hlt, List.take_append_drop]

theorem written_literalPart_block (collected : List Char) (segments : Template)
    (h : blockLength? rest = some n) (hsegments : segments.written = rest.drop (n + 1)) :
    Template.written (literalPart collected ++ .block (String.ofList (rest.take n)) :: segments) =
      collected.reverse ++ '{' :: rest := by
  rw [Template.written_append, Template.written_cons, written_literalPart, hsegments]
  simp only [Segment.written, String.toList_ofList, List.cons_append, List.append_assoc,
    List.nil_append, take_append_closing h]

theorem written_scanFrom (quotesKept : Bool) (offset : Nat) (before : Option Char)
    (collected text : List Char) :
    Template.written (scanFrom quotesKept offset before collected text).1 =
      collected.reverse ++ text := by
  fun_induction scanFrom quotesKept offset before collected text with
  | case1 => rw [written_literalPart, List.append_nil]
  | case2 offset before collected rest n hlength hlt segments errors hscan ih =>
    rw [hscan] at ih
    exact written_literalPart_block collected segments hlength ih
  | case3 => rw [written_literalPart, List.reverse_append, List.reverse_reverse]
  | case4 offset before collected c rest hbrace n hn hlt ih =>
    rw [ih, List.reverse_append, List.reverse_reverse, List.append_assoc, List.cons_append,
      List.take_append_drop]
  | case5 offset before collected c rest hbrace hn segments errors hscan ih =>
    rw [hscan] at ih
    rw [ih, List.reverse_cons, List.append_assoc, List.singleton_append]

/-! ## Plain texts are whole -/

/-- No plain text is empty, and no two stand side by side. -/
structure Template.IsWhole (template : Template) : Prop where
  nonempty : .literal "" ∉ template
  apart : template.IsChain fun a b => ¬(a.IsLiteral ∧ b.IsLiteral)

theorem isWhole_literalPart (collected : List Char) :
    Template.IsWhole (literalPart collected) := by
  unfold literalPart
  split
  · exact ⟨List.not_mem_nil, .nil⟩
  · next h =>
    refine ⟨?_, .singleton _⟩
    simpa [String.ofList_eq_empty_iff] using h

theorem Template.IsWhole.block {segments : Template} (h : segments.IsWhole) (collected : List Char)
    (content : String) :
    Template.IsWhole (literalPart collected ++ .block content :: segments) where
  nonempty := by
    simp only [List.mem_append, List.mem_cons, not_or]
    exact ⟨(isWhole_literalPart collected).nonempty, Segment.noConfusion, h.nonempty⟩
  apart := by
    have hblock : (Segment.block content :: segments).IsChain
        fun a b => ¬(a.IsLiteral ∧ b.IsLiteral) :=
      List.isChain_cons.mpr ⟨fun _ _ hboth => hboth.1, h.apart⟩
    unfold literalPart
    split
    · exact hblock
    · exact List.isChain_cons_cons.mpr ⟨fun hboth => hboth.2, hblock⟩

theorem isWhole_scanFrom (quotesKept : Bool) (offset : Nat) (before : Option Char)
    (collected text : List Char) :
    Template.IsWhole (scanFrom quotesKept offset before collected text).1 := by
  fun_induction scanFrom quotesKept offset before collected text with
  | case1 | case3 => exact isWhole_literalPart _
  | case2 offset before collected rest n hlength hlt segments errors hscan ih =>
    rw [hscan] at ih
    exact ih.block collected _
  | case4 offset before collected c rest hbrace n hn hlt ih => exact ih
  | case5 offset before collected c rest hbrace hn segments errors hscan ih =>
    rw [hscan] at ih
    exact ih

/-! ## What is reported -/

theorem literalPart_of_ne_nil (h : collected ≠ []) :
    literalPart collected = [.literal (String.ofList collected.reverse)] := by
  rw [literalPart, if_neg fun hempty => h (List.isEmpty_iff.mp hempty)]

/-- What was collected begins the first plain text. -/
theorem exists_literal_scanFrom (quotesKept : Bool) (offset : Nat) (before : Option Char)
    (collected text : List Char) (h : collected ≠ []) :
    ∃ more back, (scanFrom quotesKept offset before collected text).1 =
      .literal (String.ofList (collected.reverse ++ more)) :: back := by
  fun_induction scanFrom quotesKept offset before collected text with
  | case1 => exact ⟨[], [], by rw [literalPart_of_ne_nil h, List.append_nil]⟩
  | case2 offset before collected rest n hlength hlt segments errors hscan ih =>
    exact ⟨[], _, by rw [literalPart_of_ne_nil h, List.append_nil, List.singleton_append]⟩
  | case3 offset before collected rest =>
    exact ⟨'{' :: rest, [], by
      rw [literalPart_of_ne_nil (by simp), List.reverse_append, List.reverse_reverse]⟩
  | case4 offset before collected c rest hbrace n hn hlt ih =>
    obtain ⟨more, back, heq⟩ := ih (by simp)
    exact ⟨c :: rest.take (n + 1) ++ more, back, by
      rw [heq, List.reverse_append, List.reverse_reverse, List.append_assoc]⟩
  | case5 offset before collected c rest hbrace hn segments errors hscan ih =>
    rw [hscan] at ih
    obtain ⟨more, back, heq⟩ := ih (List.cons_ne_nil _ _)
    exact ⟨c :: more, back, by rw [heq, List.reverse_cons, List.append_assoc, List.singleton_append]⟩

theorem Template.hasPlain_literal (front : List Char) (c : Char) (more : List Char)
    (back : Template) :
    HasPlain (.literal (String.ofList (front ++ c :: more)) :: back) front.length c :=
  ⟨[], _, back, rfl, front.length, by simp, by simp [written]⟩

/-- What is reported is in order, and only the last of it can be a brace that is not closed. -/
theorem errors_scanFrom (quotesKept : Bool) (offset : Nat) (before : Option Char)
    (collected text : List Char) :
    (∀ e ∈ (scanFrom quotesKept offset before collected text).2, offset ≤ e.offset) ∧
      (scanFrom quotesKept offset before collected text).2.Pairwise fun e e' =>
        e = .unmatchedClose e.offset ∧ e.offset < e'.offset := by
  fun_induction scanFrom quotesKept offset before collected text with
  | case1 => simp
  | case2 offset before collected rest n hlength hlt segments errors hscan ih =>
    rw [hscan] at ih
    exact ⟨fun e he => Nat.le_trans (by omega) (ih.1 e he), ih.2⟩
  | case3 => simp [BraceError.offset]
  | case4 offset before collected c rest hbrace n hn hlt ih =>
    exact ⟨fun e he => Nat.le_trans (by omega) (ih.1 e he), ih.2⟩
  | case5 offset before collected c rest hbrace hn segments errors hscan ih =>
    rw [hscan] at ih
    obtain ⟨hlater, hordered⟩ := ih
    split
    · refine ⟨List.forall_mem_cons.mpr ⟨Nat.le_refl _, fun e he => Nat.le_of_succ_le (hlater e he)⟩,
        List.pairwise_cons.mpr ⟨fun e he => ⟨rfl, hlater e he⟩, hordered⟩⟩
    · exact ⟨fun e he => Nat.le_of_succ_le (hlater e he), hordered⟩

theorem unmatchedClose_of_mem_dropLast {errors : List BraceError}
    (h : errors.Pairwise fun e e' => e = .unmatchedClose e.offset ∧ e.offset < e'.offset)
    {e : BraceError} (he : e ∈ errors.dropLast) : e = .unmatchedClose e.offset := by
  cases errors using List.reverseRecOn with
  | nil => cases he
  | append_singleton errors last =>
    rw [List.dropLast_concat] at he
    exact ((List.pairwise_append.mp h).2.2 e he last (.head _)).1

/-- Plain text and a block written out: the braces are two characters more. -/
theorem length_written_block (collected : List Char) (h : n ≤ rest.length) :
    (Template.written (literalPart collected ++ [.block (String.ofList (rest.take n))])).length =
      collected.length + (n + 2) := by
  rw [Template.written_append, List.length_append, written_literalPart, List.length_reverse]
  simp [Template.written, Segment.written, Nat.min_eq_left h]

/-- Where a brace is reported it stands in plain text. The places of a template count from where its
first plain text starts. -/
theorem hasPlain_of_mem_errors (quotesKept : Bool) (offset : Nat) (before : Option Char)
    (collected text : List Char) (start : Nat) (hstart : start + collected.length = offset) :
    ∀ e ∈ (scanFrom quotesKept offset before collected text).2, ∃ place,
      e.offset = start + place ∧
        Template.HasPlain (scanFrom quotesKept offset before collected text).1 place e.brace := by
  fun_induction scanFrom quotesKept offset before collected text generalizing start with
  | case1 => exact fun e he => absurd he List.not_mem_nil
  | case2 offset before collected rest n hlength hlt segments errors hscan ih =>
    rw [hscan] at ih
    intro e he
    obtain ⟨place, hplace, hplain⟩ := ih (offset + n + 2) rfl e he
    refine ⟨collected.length + (n + 2) + place, by omega, ?_⟩
    rw [← List.singleton_append, ← List.append_assoc,
      ← length_written_block collected (Nat.le_of_lt hlt)]
    exact hplain.append_left _
  | case3 offset before collected rest =>
    simp only [List.forall_mem_singleton]
    refine ⟨collected.length, hstart.symm, ?_⟩
    rw [literalPart_of_ne_nil (by simp), List.reverse_append, List.reverse_reverse,
      ← List.length_reverse]
    exact Template.hasPlain_literal ..
  | case4 offset before collected c rest hbrace n hn hlt ih =>
    refine ih start ?_
    simp
    omega
  | case5 offset before collected c rest hbrace hn segments errors hscan ih =>
    rw [hscan] at ih
    have hrest : ∀ e ∈ errors, ∃ place, e.offset = start + place ∧
        Template.HasPlain segments place e.brace :=
      ih start (by rw [List.length_cons]; omega)
    split
    · next hclose =>
      refine List.forall_mem_cons.mpr ⟨⟨collected.length, hstart.symm, ?_⟩, hrest⟩
      obtain ⟨more, back, heq⟩ := exists_literal_scanFrom quotesKept (offset + 1) (some c)
        (c :: collected) rest (List.cons_ne_nil _ _)
      rw [hscan, List.reverse_cons, List.append_assoc, List.singleton_append] at heq
      rw [show segments = _ from heq, ← List.length_reverse, hclose]
      exact Template.hasPlain_literal ..
    · exact hrest

/-! ## What is not reported -/

/-- Between the blocks of an accepted text there is no brace. -/
theorem Cuts.not_mem_literal {template : Template} (h : Cuts collected text template)
    (hcollected : '{' ∉ collected ∧ '}' ∉ collected) {s : String} (hs : .literal s ∈ template) :
    '{' ∉ s.toList ∧ '}' ∉ s.toList := by
  have hpart {collected : List Char} (hcollected : '{' ∉ collected ∧ '}' ∉ collected)
      (hs : .literal s ∈ literalPart collected) : '{' ∉ s.toList ∧ '}' ∉ s.toList := by
    unfold literalPart at hs
    split at hs
    · cases hs
    · cases List.mem_singleton.mp hs
      simpa using hcollected
  induction h with
  | nil => exact hpart hcollected hs
  | block hlength h ih =>
    rcases List.mem_append.mp hs with hs | hs
    · exact hpart hcollected hs
    · exact ih ⟨List.not_mem_nil, List.not_mem_nil⟩ (List.mem_of_ne_of_mem Segment.noConfusion hs)
  | plain hopen hclose h ih =>
    refine ih ?_ hs
    simp [hcollected, Ne.symm hopen, Ne.symm hclose]

theorem BraceError.brace_eq (e : BraceError) : e.brace = '{' ∨ e.brace = '}' := by
  cases e with
  | unclosed => exact .inl rfl
  | unmatchedClose => exact .inr rfl

/-- Nothing is lost by cutting a text, whether quoted texts are kept or not: the segments written out
are the text, no plain text is empty and none is next to another one. What is reported is in order, is
a brace of the text in plain text, and but for the last of it a closing one. Where quoted texts are not
kept, nothing is reported exactly if no plain text has a brace. -/
theorem Template.scan_exact (input : String) :
    (∀ quotesKept,
      written (scan quotesKept input).1 = input.toList ∧
      .literal "" ∉ (scan quotesKept input).1 ∧
      (scan quotesKept input).1.IsChain (fun a b => ¬(a.IsLiteral ∧ b.IsLiteral)) ∧
      (∀ e ∈ (scan quotesKept input).2.dropLast, e = .unmatchedClose e.offset) ∧
      ((scan quotesKept input).2.map BraceError.offset).Pairwise (· < ·) ∧
      ∀ e ∈ (scan quotesKept input).2, input.toList[e.offset]? = some e.brace ∧
        HasPlain (scan quotesKept input).1 e.offset e.brace) ∧
    ((parseLenient input).2 = [] ↔ ∀ text, .literal text ∈ (parseLenient input).1 →
      '{' ∉ text.toList ∧ '}' ∉ text.toList) := by
  have hwritten (quotesKept : Bool) : written (scan quotesKept input).1 = input.toList :=
    written_scanFrom quotesKept 0 none [] input.toList
  have hplain (quotesKept : Bool) : ∀ e ∈ (scan quotesKept input).2,
      HasPlain (scan quotesKept input).1 e.offset e.brace := by
    intro e he
    obtain ⟨place, hplace, hplain⟩ :=
      hasPlain_of_mem_errors quotesKept 0 none [] input.toList 0 rfl e he
    rw [hplace, Nat.zero_add]
    exact hplain
  refine ⟨fun quotesKept => ?_, fun hnone text htext => ?_, fun hliterals => ?_⟩
  · obtain ⟨hnonempty, hapart⟩ := isWhole_scanFrom quotesKept 0 none [] input.toList
    obtain ⟨-, hordered⟩ := errors_scanFrom quotesKept 0 none [] input.toList
    refine ⟨hwritten quotesKept, hnonempty, hapart,
      fun e he => unmatchedClose_of_mem_dropLast hordered he, ?_, fun e he => ?_⟩
    · exact List.pairwise_map.mpr (hordered.imp fun h => h.2)
    · exact ⟨hwritten quotesKept ▸ (hplain quotesKept e he).getElem?, hplain quotesKept e he⟩
  · exact (cuts_of_scanFrom hnone).not_mem_literal ⟨List.not_mem_nil, List.not_mem_nil⟩ htext
  · refine List.eq_nil_iff_forall_not_mem.mpr fun e he => ?_
    obtain ⟨text, htext, hbrace⟩ := (hplain false e he).mem_literal
    obtain ⟨hopen, hclose⟩ := hliterals text htext
    obtain heq | heq := e.brace_eq
    · exact hopen (heq ▸ hbrace)
    · exact hclose (heq ▸ hbrace)

end QualityScript
