import QualityScript.Proofs.Syntax.Lexemes
import QualityScript.Proofs.Syntax.TokenTexts
import QualityScript.Proofs.Syntax.Trimming

/-!
# References read back

A text that is a reference as a whole, blanks at its ends apart, is one token and so one expression,
the reference. The text that shows a reference is such a text again: a property may have been spelled
in another way, but it is shown with a word that names it.
-/

namespace QualityScript

open Text Lexer

variable {text : String} {t : Token} {e : Expr}

theorem tokens_blanks {left : List Char} (h : ∀ c ∈ left, isBlank c) (readCall : CallReader)
    (rest : List Char) : tokens readCall (left ++ rest) = tokens readCall rest := by
  induction left with
  | nil => rfl
  | cons c left ih =>
    obtain ⟨hc, hleft⟩ := List.forall_mem_cons.mp h
    rw [List.cons_append, tokens_blank hc, ih hleft]

/-- Blanks end a token and are none. -/
theorem IsToken.tokens_of_trim {text : List Char} (h : IsToken (trim text) t)
    (readCall : CallReader) : tokens readCall text = .ok [t] := by
  obtain ⟨left, right, htext, hleft, hright⟩ := exists_append_trim text
  have hnone : tokens readCall right = .ok [] := by
    have hblanks := tokens_blanks hright readCall []
    rwa [List.append_nil, tokens] at hblanks
  rw [htext, List.append_assoc, tokens_blanks hleft, h readCall right (.of_isBlank hright), hnone]
  rfl

theorem Expr.parse_of_trim (h : IsToken (trim text.toList) t) (he : Grammar.operand? t = some e) :
    parse text = .ok e := by
  have htrimmed : (trimmed text).toList = trim text.toList := String.toList_ofList
  have hinner : IsToken (trim (trimmed text).toList) t := by
    rwa [htrimmed, trim_trim]
  calc parse text = Grammar.tree false [t] := parse_of_tokens h.tokens_of_trim
    _ = parse (trimmed text) := (parse_of_tokens hinner.tokens_of_trim).symm
    _ = .ok e := parse_operand (htrimmed ▸ h) he

namespace Reference

variable {r : Reference}

theorem span?_of_parse? (h : parse? text = some r) :
    span? (trim text.toList) = some (r, []) := by
  unfold parse? at h
  split at h
  · next heq =>
    cases h
    exact heq
  · cases h

theorem exists_marker_of_span? {text rest : List Char} (h : span? text = some (r, rest)) :
    ∃ marker tail, text = marker :: tail ∧ (marker = '$' ∨ marker = '#') := by
  unfold span? at h
  split at h
  · exact ⟨_, _, rfl, .inl rfl⟩
  · exact ⟨_, _, rfl, .inl rfl⟩
  · exact ⟨_, _, rfl, .inr rfl⟩
  · cases h

/-- No blank stands in a text that is a reference as a whole. -/
theorem trim_of_span? {text : List Char} (h : span? text = some (r, [])) : trim text = text := by
  obtain ⟨marker, tail, rfl, hmarker⟩ := exists_marker_of_span? h
  obtain ⟨passed, rfl, hinert⟩ := exists_of_span? h
  rw [List.append_nil]
  refine trim_eq_self_of_forall (List.forall_mem_cons.mpr ⟨?_, fun c hc => (hinert c hc).blank⟩)
  obtain rfl | rfl := hmarker <;> rfl

theorem IsRead.span?_display (h : IsRead r) : span? r.display.toList = some (r, []) := by
  obtain ⟨marker, tail, htext, -, hspan⟩ := h.exists_display
  rw [htext, hspan]

theorem IsRead.parse?_display (h : IsRead r) : parse? r.display = some r := by
  rw [parse?, trim_of_span? h.span?_display, h.span?_display]

theorem isToken_of_parse? (h : parse? text = some r) :
    IsToken (trim text.toList) (.ref r .none) := by
  have hspan := span?_of_parse? h
  obtain ⟨marker, tail, htext, hmarker⟩ := exists_marker_of_span? hspan
  rw [htext] at hspan ⊢
  exact isToken_of_span? hmarker hspan

/-- What a text is read as, its display is read as, and both are the reference as an expression. -/
theorem reads_back (h : parse? text = some r) :
    parse? r.display = some r ∧ Expr.parse text = .ok (.ref r) ∧
      Expr.parse r.display = .ok (.ref r) := by
  have hread : IsRead r := isRead_of_span? (span?_of_parse? h)
  exact ⟨hread.parse?_display, Expr.parse_of_trim (isToken_of_parse? h) rfl,
    Expr.parse_operand (isToken_display hread) rfl⟩

/-- A property in another spelling, after an id in letters with accents and between blanks. -/
theorem reads_back_of_changePoints :
    let points : Reference := ⟨.world, "été_2", .changePoints⟩
    parse? " #été_2.changePoints\t" = some points ∧ points.display = "#été_2.cp" ∧
      parse? "#été_2.cp" = some points ∧ Expr.parse " #été_2.changePoints\t" = .ok (.ref points) ∧
      Expr.parse "#été_2.cp" = .ok (.ref points) := by
  intro points
  have hparse : parse? " #été_2.changePoints\t" = some points := by decide +kernel
  have hdisplay : points.display = "#été_2.cp" := by decide
  obtain ⟨hback, htext, hshown⟩ := reads_back hparse
  rw [hdisplay] at hback hshown
  exact ⟨hparse, hdisplay, hback, htext, hshown⟩

end Reference

end QualityScript
