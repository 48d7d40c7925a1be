import QualityScript.Proofs.Syntax.Comparisons
import QualityScript.Proofs.Syntax.Readback
import QualityScript.Proofs.Evaluation.BareBlocks

/-!
# Blocks that are one reference

A reference has no separators, quotes or braces in its text. So a block with a reference and nothing
else is a leaf and is read as that reference. Its value is settled: in a template the block has the
text of the value, whatever that text holds.
-/

namespace QualityScript

open Text

namespace Reference

variable {r : Reference}

/-- The template that is one block with the reference. -/
def template (r : Reference) : String := "\x7b" ++ r.display ++ "\x7d"

theorem IsRead.toList_display (h : IsRead r) : r.display.toList = r.scope.marker.toList ++
    r.id.toList ++ if r.scope ≠ .self ∧ r.property ≠ .value then '.' :: r.property.word.toList
      else r.property.word.toList := by
  obtain ⟨scope, id, property⟩ := r
  cases h with
  | self _ => cases property <;> simp [display, Scope.marker, Property.word]
  | named hscope _ _ =>
    cases scope <;> cases property <;> simp_all [display, Scope.marker, Property.word]

theorem IsRead.eq_or_isIdentChar_of_mem (h : IsRead r) :
    ∀ c ∈ r.display.toList, c = '$' ∨ c = '#' ∨ c = '.' ∨ isIdentChar c := by
  have hmarker (scope : Scope) : ∀ c ∈ scope.marker.toList, c = '$' ∨ c = '#' ∨ c = '.' := by
    cases scope <;> simp [Scope.marker]
  have hword {property : Property} (hproperty : IsProperty property) :
      ∀ c ∈ property.word.toList, isIdentChar c := by
    obtain rfl | ⟨-, ⟨first, rest, hchars, hfirst, hrest⟩, -⟩ := hproperty.exists_word
    · exact List.forall_mem_nil _
    · rw [hchars]
      exact List.forall_mem_cons.mpr ⟨isIdentChar_of_isLetter hfirst, hrest⟩
  have hid : ∀ c ∈ r.id.toList, isIdentChar c := by
    cases h with
    | self _ => exact List.forall_mem_nil _
    | named _ hid _ => exact hid.ident
  have hproperty : IsProperty r.property := by
    cases h with
    | self hproperty => exact hproperty
    | named _ _ hproperty => exact hproperty
  intro c hc
  rw [h.toList_display, List.append_assoc, List.mem_append, List.mem_append] at hc
  rcases hc with hc | hc | hc
  · have := hmarker _ c hc
    tauto
  · exact .inr (.inr (.inr (hid c hc)))
  · split at hc
    · obtain rfl | hc := List.mem_cons.mp hc
      · exact .inr (.inr (.inl rfl))
      · exact .inr (.inr (.inr (hword hproperty c hc)))
    · exact .inr (.inr (.inr (hword hproperty c hc)))

theorem IsRead.not_mem_display (h : IsRead r) {c : Char}
    (hc : c ≠ '$' ∧ c ≠ '#' ∧ c ≠ '.' ∧ isIdentChar c = false) : c ∉ r.display.toList := by
  intro hmem
  obtain ⟨hdollar, hhash, hdot, hident⟩ := hc
  rcases h.eq_or_isIdentChar_of_mem c hmem with heq | heq | heq | hident'
  · exact hdollar heq
  · exact hhash heq
  · exact hdot heq
  · rw [hident] at hident'
    cases hident'

theorem IsRead.isInert_of_mem (h : IsRead r) : ∀ c ∈ r.display.toList, IsInert c := by
  intro c hc
  rcases h.eq_or_isIdentChar_of_mem c hc with rfl | rfl | rfl | hident
  · constructor <;> decide
  · constructor <;> decide
  · exact .dot
  · exact .of_isIdentChar hident

theorem IsRead.classify_display (h : IsRead r) : Block.classify r.display = .leaf r.display := by
  obtain ⟨marker, text, htext, hmarker, -⟩ := h.exists_display
  refine classify_of_inert h.isInert_of_mem ?_ ?_ ?_
  · rw [htext]
    exact List.cons_ne_nil _ _
  · rw [htext]
    obtain rfl | rfl := hmarker <;> rfl
  · rintro separator (rfl | rfl)
    · exact h.not_mem_display (by decide)
    · exact h.not_mem_display (by decide)

end Reference

/-- The text of a resolution, its blocks not expanded. -/
def Resolution.stored : Resolution → String
  | .plain value => value.display
  | .template text _ => text

namespace Eval

variable {env : Env} {frame : Frame} {r : Reference} {mem : Memory}

/-- In a template the block has the text of the value that the reference has. -/
theorem expand_template (h : r.IsRead) (fuel : Nat) :
    (evaluator env (fuel + 4)).expand false r.template frame = (do
      return (← reference env (evaluator env fuel) r frame).display) := by
  have hparse : Expr.parse r.display = .ok (.ref r) :=
    Expr.parse_operand (isToken_display h) rfl
  have hopen : '{' ∉ r.display.toList := h.not_mem_display (by decide)
  have hclose : '}' ∉ r.display.toList := h.not_mem_display (by decide)
  have hbrace : hasBrace r.display = false := by simpa [hasBrace] using hopen
  have htrim : trimmed r.display = r.display := by
    rw [trimmed, Reference.trim_of_span? h.span?_display, String.ofList_toList]
  have hprose : (Expr.ref r).readsAsProse = false := rfl
  rw [evaluator_expand, Reference.template, expand_bare hopen hclose]
  simp only [blockText, evaluator_content, content, h.classify_display, evaluator_leaf,
    leaf_of_hasBrace hbrace htrim, expression, hparse, hprose, evaluator_expr, expr, isSettled,
    Bool.false_eq_true, if_false, bind_assoc, pure_bind, Bool.true_or, if_true]

/-- The text that a reference stands for, its blocks not expanded. -/
def storedText (env : Env) (frame : Frame) (r : Reference) : String :=
  (r.resolve env frame).resolution.stored

theorem runOn_reference (self : Evaluator) (mem : Memory)
    (h : ∀ text owner, (r.resolve env frame).resolution = .template text owner →
      hasBrace text = false) :
    ∃ value mem', (reference env self r frame).runOn mem = (.ok value, mem') ∧
      value.display = storedText env frame r := by
  unfold reference storedText
  dsimp only
  cases hresolution : (r.resolve env frame).resolution with
  | plain value => split <;> exact ⟨value, _, rfl, rfl⟩
  | template text owner =>
    simp only [Evaluator.expandOwned, h text owner hresolution, Bool.false_eq_true, if_false,
      pure_bind]
    split <;> exact ⟨.text text, _, rfl, rfl⟩

end Eval

namespace Engine

/-- The text that a reference stands for in a call, its blocks not expanded. -/
def storedText (engine : Engine) (states : Snapshot) (options : CallOptions) (r : Reference) :
    String :=
  Eval.storedText (engine.env 0 states) (.new options.depth options.self) r

theorem evaluateText_template {engine : Engine} {states : Snapshot} {options : CallOptions}
    {r : Reference} (hread : r.IsRead)
    (h : ∀ text owner, (r.resolve (engine.env 0 states)
      (.new options.depth options.self)).resolution = .template text owner → hasBrace text = false)
    (fuel : Nat) : (engine.evaluateText (fuel + 4) r.template states options).result =
      .ok (engine.storedText states options r) := by
  -- Only a draw reads how many words it may pass over.
  have hrun := @Eval.runOn_reference (engine.env (fuel + 4) states) (.new options.depth options.self)
    r (evaluator (engine.env (fuel + 4) states) fuel)
    (.fresh (options.source.getD engine.fallbackSource)) h
  obtain ⟨value, mem', hrun, hdisplay⟩ := hrun
  rw [evaluateText, run_eq]
  simp only [Eval.expand_template hread, EvalM.runOn_bind_ok hrun, EvalM.runOn_pure, hdisplay]
  rfl

end Engine

end QualityScript
