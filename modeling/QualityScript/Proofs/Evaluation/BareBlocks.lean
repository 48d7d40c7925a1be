import QualityScript.Proofs.Syntax.Composing
import QualityScript.Proofs.Evaluation.Fuel
import QualityScript.Proofs.Evaluation.Chances

/-!
# Blocks without nested blocks

A text without braces reads alike with and without braces around it. Quotes in the text do not matter:
where honouring them closes the block at all, it does so at the last character, and where a quote stays
open, counting the braces closes it there. The text in the braces is then evaluated by every call in
the same way, and in a template it is shown as its value is.
-/

namespace QualityScript

open Text Randomness

theorem eq_of_closingBrace?_bare {text : List Char} (hopen : '{' ∉ text) (hclose : '}' ∉ text)
    {honour : Bool} {quote : Option Char} {before : Char} {n : Nat}
    (h : closingBrace? honour 0 quote before (text ++ ['}']) = some n) : n = text.length := by
  induction text generalizing quote before n with
  | nil =>
    cases quote with
    | none => simpa [closingBrace?] using h.symm
    | some q => simp [closingBrace?] at h
  | cons c rest ih =>
    obtain ⟨hc, hrest⟩ := not_or.mp fun hmem => hopen (List.mem_cons.mpr hmem)
    obtain ⟨hc', hrest'⟩ := not_or.mp fun hmem => hclose (List.mem_cons.mpr hmem)
    have hstep {quote : Option Char}
        (h : (closingBrace? honour 0 quote c (rest ++ ['}'])).map (· + 1) = some n) :
        n = (c :: rest).length := by
      obtain ⟨m, hm, rfl⟩ := Option.map_eq_some_iff.mp h
      rw [ih hrest hrest' hm, List.length_cons]
    cases quote with
    | some q => exact hstep h
    | none =>
      rw [List.cons_append, closingBrace?, if_neg (Ne.symm hc), if_neg (Ne.symm hc')] at h
      split at h
      · exact hstep h
      · exact hstep h

theorem closingBrace?_bare {text : List Char} (hopen : '{' ∉ text) (hclose : '}' ∉ text)
    (before : Char) : closingBrace? false 0 none before (text ++ ['}']) = some text.length := by
  induction text generalizing before with
  | nil => simp [closingBrace?]
  | cons c rest ih =>
    obtain ⟨hc, hrest⟩ := not_or.mp fun hmem => hopen (List.mem_cons.mpr hmem)
    obtain ⟨hc', hrest'⟩ := not_or.mp fun hmem => hclose (List.mem_cons.mpr hmem)
    rw [List.cons_append, closingBrace?, if_neg (Ne.symm hc), if_neg (Ne.symm hc'),
      if_neg (by simp), ih hrest hrest', Option.map_some, List.length_cons]

/-- Whatever quotes there are, one of the two ways finds it. -/
theorem blockLength?_bare {text : List Char} (hopen : '{' ∉ text) (hclose : '}' ∉ text) :
    blockLength? (text ++ ['}']) = some text.length := by
  unfold blockLength?
  cases hhonoured : closingBrace? true 0 none '{' (text ++ ['}']) with
  | some n =>
    rw [eq_of_closingBrace?_bare hopen hclose hhonoured]
    rfl
  | none => exact closingBrace?_bare hopen hclose '{'

variable {text : String}

theorem scan_bare (hopen : '{' ∉ text.toList) (hclose : '}' ∉ text.toList) :
    scan false ("\x7b" ++ text ++ "\x7d") = ([.block text], []) := by
  have hcuts : Cuts [] ("\x7b" ++ text ++ "\x7d").toList
      (literalPart [] ++ [.block (String.ofList ((text.toList ++ ['}']).take text.toList.length))]) := by
    have hchars : ("\x7b" ++ text ++ "\x7d").toList = '{' :: (text.toList ++ ['}']) := by simp
    rw [hchars]
    refine .block (blockLength?_bare hopen hclose) ?_
    rw [List.drop_eq_nil_of_le (by simp)]
    exact .nil
  rw [scan, hcuts.scanFrom_eq, List.take_left, String.ofList_toList]
  rfl

theorem blockContent?_bare (hopen : '{' ∉ text.toList) (hclose : '}' ∉ text.toList) :
    Template.blockContent? ("\x7b" ++ text ++ "\x7d") = some text := by
  simp [Template.blockContent?, Template.parse, scan_bare hopen hclose, Template.singleBlock?]

theorem hasBrace_wrapped (text : String) : hasBrace ("\x7b" ++ text ++ "\x7d") = true := by
  simp [hasBrace]

/-! ## The block in a template -/

namespace Eval

/-- An evaluation of a block goes the same way in a text unless it is an assignment. -/
theorem content_inText (hassign : ∀ name e, Block.classify text ≠ .assign name e) (env : Env)
    (fuel : Nat) (frame : Frame) :
    (evaluator env fuel).content .inText text frame =
      (evaluator env fuel).content .standalone text frame := by
  cases fuel with
  | zero => rfl
  | succ fuel =>
    simp only [evaluator_content, content]
    cases hshape : Block.classify text with
    | assign name e => exact absurd hshape (hassign name e)
    | _ => rfl

def blockValue (self : Evaluator) (content : String) (frame : Frame) : EvalM Value :=
  return (← self.content .standalone content frame).value

theorem runOn_blockText (env : Env) {self : Evaluator} {frame : Frame} {mem : Memory}
    (hmode : self.content .inText text frame = self.content .standalone text frame)
    (hshown : ∀ value, ((blockValue self text frame).runOn mem).1 = .ok value →
      hasBrace value.display = false) :
    (blockText env self text frame).runOn mem =
      ((blockValue self text frame).runOn mem).map (Except.map Value.display) id := by
  unfold blockText blockValue at *
  rw [hmode]
  rcases hrun : (self.content .standalone text frame).runOn mem with ⟨e | outcome, mem'⟩
  · simp only [EvalM.runOn_bind_error hrun]
    rfl
  · simp only [EvalM.runOn_bind_ok hrun, EvalM.runOn_pure] at hshown ⊢
    simp only [hshown outcome.value rfl, Bool.not_false, Bool.or_true, if_true, EvalM.runOn_pure]
    rfl

/-- A template that is a block without nested blocks is the text of that block. -/
theorem expand_bare (hopen : '{' ∉ text.toList) (hclose : '}' ∉ text.toList) (env : Env)
    (self : Evaluator) (frame : Frame) :
    expand env self false ("\x7b" ++ text ++ "\x7d") frame = blockText env self text frame := by
  simp only [expand, hasBrace_wrapped, if_true, scan_bare hopen hclose, segments, pure_bind,
    String.append_empty, bind_pure]

end Eval

theorem Entry.blockValue (content : String) :
    Entry fun _ self frame => Eval.blockValue self content frame :=
  ⟨fun hall _ h => h.map (hall (.content .standalone content) h) fun _ _ => trivial⟩

namespace Engine

variable {engine : Engine} {fuel : Nat} {states : Snapshot} {options : CallOptions}

theorem run_map {α β : Type} (m : Env → Evaluator → Frame → EvalM α) (f : α → β) :
    (engine.run fuel states options fun env self frame => do return f (← m env self frame)) =
      (engine.run fuel states options m).map f := by
  simp only [run_eq, EvalM.runOn_bind, Evaluation.map]
  rcases (m (engine.env fuel states) (evaluator (engine.env fuel states) fuel)
    (.new options.depth options.self)).runOn _ with ⟨_ | _, _⟩ <;> rfl

theorem evaluateBlock_bare (hopen : '{' ∉ text.toList) (hclose : '}' ∉ text.toList) :
    engine.evaluateBlock fuel ("\x7b" ++ text ++ "\x7d") states options =
      engine.run fuel states options fun _ self frame => Eval.blockValue self text frame := by
  simp only [evaluateBlock, blockContent?_bare hopen hclose, Eval.blockValue]

theorem evaluateCondition_of_blockContent {condition : String}
    (hcontent : blockContent condition = text) (hblank : (trimmed text).isEmpty = false) :
    engine.evaluateCondition fuel condition states options =
      (engine.run fuel states options fun _ self frame => Eval.blockValue self text frame).map
        Value.isTruthy := by
  rw [← run_map, evaluateCondition]
  simp only [check, hcontent, hblank, Eval.blockValue, bind_assoc, pure_bind]
  rfl

theorem evaluateText_bare (hopen : '{' ∉ text.toList) (hclose : '}' ∉ text.toList) {more : Nat}
    (hassign : ∀ name e, Block.classify text ≠ .assign name e) (hmore : fuel < more)
    (hfinished : (engine.evaluateBlock fuel ("\x7b" ++ text ++ "\x7d") states options).result ≠
      .error .unfinished)
    (hshown : ∀ value,
      (engine.evaluateBlock fuel ("\x7b" ++ text ++ "\x7d") states options).result = .ok value →
        hasBrace value.display = false) :
    engine.evaluateText more ("\x7b" ++ text ++ "\x7d") states options =
      (engine.evaluateBlock fuel ("\x7b" ++ text ++ "\x7d") states options).map Value.display := by
  obtain ⟨more, rfl⟩ := Nat.exists_eq_add_of_le' (Nat.one_le_of_lt hmore)
  rw [evaluateBlock_bare hopen hclose, run_eq] at *
  -- The block is evaluated with less fuel in the template, but with enough of it.
  have henv : engine.env (more + 1) states =
      { engine.env fuel states with attempts := (engine.env (more + 1) states).attempts } := rfl
  have hblock := (Entry.blockValue text).runOn_of_le henv (Nat.le_of_lt hmore)
    (Nat.le_of_lt_succ hmore) hfinished
  dsimp only at hshown
  rw [← hblock] at hshown
  have htext := Eval.runOn_blockText (engine.env (more + 1) states)
    (Eval.content_inText hassign _ _ _) hshown
  rw [evaluateText, run_eq]
  simp only [evaluator_expand, Eval.expand_bare hopen hclose, htext, hblock]
  rfl

/-- A text without braces that is not blank is the same condition with and without braces around it:
the truth of the block's value, with the same memory at the end. As a template the block has the text
of its value unless it is an assignment or that text has blocks of its own. -/
theorem bare_block_read_alike (hopen : '{' ∉ text.toList) (hclose : '}' ∉ text.toList)
    (hblank : (trimmed text).isEmpty = false) (engine : Engine) (fuel : Nat) (states : Snapshot)
    (options : CallOptions) :
    let block := engine.evaluateBlock fuel ("\x7b" ++ text ++ "\x7d") states options
    engine.evaluateCondition fuel text states options =
      engine.evaluateCondition fuel ("\x7b" ++ text ++ "\x7d") states options ∧
    engine.evaluateCondition fuel ("\x7b" ++ text ++ "\x7d") states options =
      block.map Value.isTruthy ∧
    ((∀ name e, Block.classify text ≠ .assign name e) → block.result ≠ .error .unfinished →
      (∀ value, block.result = .ok value → hasBrace value.display = false) →
      ∀ more, fuel < more →
        engine.evaluateText more ("\x7b" ++ text ++ "\x7d") states options =
          block.map Value.display) := by
  intro block
  have hbrace : hasBrace text = false := by simpa [hasBrace] using hopen
  have hbare : blockContent text = text := by
    rw [blockContent, Template.blockContent?_of_hasBrace hbrace, Option.getD_none]
  have hwrapped : blockContent ("\x7b" ++ text ++ "\x7d") = text := by
    rw [blockContent, blockContent?_bare hopen hclose, Option.getD_some]
  refine ⟨?_, ?_, fun hassign hfinished hshown more hmore =>
    evaluateText_bare hopen hclose hassign hmore hfinished hshown⟩
  · rw [evaluateCondition_of_blockContent hbare hblank,
      evaluateCondition_of_blockContent hwrapped hblank]
  · rw [evaluateCondition_of_blockContent hwrapped hblank, ← evaluateBlock_bare hopen hclose]

/-- A quote that stays open is found by counting: the block has all of the text, which is no
expression and is shown as it is. -/
theorem bare_block_read_alike_of_open_quote :
    let engine : Engine := ⟨Content.Library.empty.registry, .default, .zeros⟩
    let block := engine.evaluateBlock 4 "\x7b$gold > 3 'or so\x7d" ⟨.empty, none⟩ .none
    closingBrace? true 0 none '{' "$gold > 3 'or so\x7d".toList = none ∧
    block.result.toOption.map Value.display = some "$gold > 3 'or so" ∧
    engine.evaluateCondition 4 "$gold > 3 'or so" ⟨.empty, none⟩ .none =
      engine.evaluateCondition 4 "\x7b$gold > 3 'or so\x7d" ⟨.empty, none⟩ .none ∧
    engine.evaluateCondition 4 "\x7b$gold > 3 'or so\x7d" ⟨.empty, none⟩ .none =
      block.map Value.isTruthy ∧
    engine.evaluateText 5 "\x7b$gold > 3 'or so\x7d" ⟨.empty, none⟩ .none =
      block.map Value.display := by
  intro engine block
  have hdisplay : block.result.toOption.map Value.display = some "$gold > 3 'or so" := by
    decide +kernel
  obtain ⟨value, hvalue, hshown⟩ := Option.map_eq_some_iff.mp hdisplay
  have hresult : block.result = .ok value := eq_ok_of_toOption hvalue
  obtain ⟨hsame, htruth, htext⟩ := @bare_block_read_alike "$gold > 3 'or so" (by decide)
    (by decide) (by decide) engine 4 ⟨.empty, none⟩ .none
  have hleaf : Block.classify "$gold > 3 'or so" = .leaf "$gold > 3 'or so" := by decide +kernel
  refine ⟨by decide, hdisplay, hsame, htruth, htext (by simp [hleaf]) ?_ ?_ 5 (by decide)⟩
  · exact hresult.trans_ne (by simp)
  · intro value' hvalue'
    cases hresult.symm.trans hvalue'
    rw [hshown]
    decide

end Engine

end QualityScript
