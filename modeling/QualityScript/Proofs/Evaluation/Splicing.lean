import QualityScript.Proofs.Syntax.Comparisons
import QualityScript.Proofs.Evaluation.Chances

/-!
# Nested references in conditions

A condition that compares a quality with a text can name the quality as it is, `$q == 'x'`, or in a
nested block, `{$q} == 'x'`. The first compares the value of the quality. In the second the text of the
value takes the place of the block, and the text made that way is read as an expression. So the two
agree where the text of the value is one word or one number, while a text of more words is no operand
and the condition, being no expression, stands for itself and holds.
-/

namespace QualityScript

open Text Number Quality

/-- The value of a quality is the text. -/
def HoldsText (states : States) (name v : String) : Prop :=
  ∃ state, states.get? name = some state ∧ state.holding = .text v

namespace Eval

variable {env : Env} {name v s : String} {frame : Frame}

theorem reference_ofName (hheld : HoldsText env.player name v) (hv : hasBrace v = false)
    (self : Evaluator) (frame : Frame) :
    reference env self (.ofName name) frame = pure (.text v) := by
  obtain ⟨state, hstate, hvalue⟩ := hheld
  have hresolve : (Reference.ofName name).resolve env frame =
      ⟨.template v ⟨name, some state⟩, false⟩ := by
    simp [Reference.resolve, Reference.ofName, Reference.resolveQuality, hstate, hvalue,
      Reference.resolveProperty]
  simp [reference, hresolve, Evaluator.expandOwned, hv]

theorem literal_text (hs : hasBrace s = false) (self : Evaluator) (frame : Frame) :
    literal env self (.text s) frame = pure (.text s) := by
  simp [literal, hasBlocks_of_hasBrace hs]

/-- A word or a decimal is an operand, and what it stands for equals the texts that it equals. -/
theorem exists_operand (h : IsWord v.toList ∨ IsDecimal v.toList) :
    ∃ t e value, IsToken v.toList t ∧ Grammar.operand? t = some e ∧ e.readsAsProse = false ∧
      (∀ (env : Env) (self : Evaluator) (frame : Frame), frame.target = none →
        expr env self e frame = pure value) ∧
      ∀ s, CompareOp.eq.compare value (.text s) = CompareOp.eq.compare (.text v) (.text s) := by
  rcases h with hword | hdecimal
  · have htoken := isToken_word hword
    by_cases htrue : v = "true"
    · subst htrue
      refine ⟨_, _, .bool true, htoken, rfl, rfl, fun _ _ _ _ => rfl, fun s => ?_⟩
      exact CompareOp.compare_eq_text (by decide +kernel) (fun _ => rfl) s
    · by_cases hfalse : v = "false"
      · subst hfalse
        refine ⟨_, _, .bool false, htoken, rfl, rfl, fun _ _ _ _ => rfl, fun s => ?_⟩
        exact CompareOp.compare_eq_text (by decide +kernel) (fun _ => rfl) s
      · have hplain : Grammar.operand? (.word v) = some (.word v) := by
          simp [Grammar.operand?, Grammar.ofWord, htrue, hfalse]
        refine ⟨_, .word v, .text v, htoken, hplain, rfl, fun env self frame htarget => ?_,
          fun s => rfl⟩
        simp only [expr, word, htarget]
  · obtain ⟨t, value, htoken, hoperand, hnumber, hvalue⟩ := hdecimal.exists_isToken
    refine ⟨t, .literal value, value.value, htoken, hoperand, rfl, fun env self frame _ => ?_,
      fun s => ?_⟩
    · cases value with
      | int | float => rfl
      | bool | text => cases hnumber
    · refine CompareOp.compare_eq_text hvalue (fun hnone => ?_) s
      have hsome : (Value.readNumber? v).isSome := by
        rw [hdecimal.readNumber?_eq]
        exact hdecimal.isSome_readUnsigned?
      rw [← hvalue, hnone] at hsome
      cases hsome

theorem leaf_reference (hname : IsName name) (hheld : HoldsText env.player name v)
    (hv : hasBrace v = false) (fuel : Nat) (frame : Frame) :
    (evaluator env (fuel + 2)).leaf ("$" ++ name) frame = pure ⟨.text v, true⟩ := by
  have hparse : Expr.parse ("$" ++ name) = .ok (.ref (.ofName name)) :=
    Expr.parse_operand (isToken_reference hname) rfl
  have hprose : (Expr.ref (.ofName name)).readsAsProse = false := rfl
  simp only [evaluator_leaf, leaf_of_hasBrace (hasBrace_reference hname) (trimmed_reference hname),
    expression, hparse, hprose, evaluator_expr, expr, reference_ofName hheld hv, isSettled,
    Bool.false_eq_true, if_false, pure_bind]

/-- The text of the value takes the place of the block. -/
theorem expand_nestedCondition (hname : IsName name) (hs : IsQuotable s)
    (hheld : HoldsText env.player name v) (hv : hasBrace v = false) (fuel : Nat) (frame : Frame) :
    (evaluator env (fuel + 4)).expand true (nestedCondition name s) frame =
      pure (v ++ equalsText s) := by
  have hbrace : hasBrace (nestedCondition name s) = true := by
    simp [hasBrace, nestedCondition]
  have hblock : blockText env (evaluator env (fuel + 3)) ("$" ++ name) frame = pure v := by
    simp only [blockText, evaluator_content, content, classify_reference hname,
      leaf_reference hname hheld hv, pure_bind, Bool.true_or, if_true]
    rfl
  simp only [evaluator_expand, expand, hbrace, scan_nestedCondition hname hs, segments, hblock,
    if_true, pure_bind, String.append_empty]

/-- One expansion later the nested block is gone, and the text is read as an expression. -/
theorem leaf_nestedCondition (hname : IsName name) (hs : IsQuotable s)
    (hheld : HoldsText env.player name v) (hv : hasBrace v = false) (fuel : Nat)
    (hdepth : frame.depth < env.config.maxDepth) {mem : Memory}
    (hbudget : mem.expansions < env.config.expansionBudget) :
    (leaf env (evaluator env (fuel + 4)) (nestedCondition name s) frame).runOn mem =
      (expression (evaluator env (fuel + 4)) (v ++ equalsText s) frame).runOn mem.spend := by
  have htrim : trimmed (nestedCondition name s) = nestedCondition name s := by
    rw [trimmed, nestedCondition, trim_append_equalsText (toList_nestedReference name) rfl,
      String.ofList_toList]
  have hnested : nestedBlock? (nestedCondition name s) = none := by
    unfold nestedBlock?
    split
    · exact blockContent?_nestedCondition hname hs
    · rfl
  have hbrace : hasBrace (nestedCondition name s) = true := by
    simp [hasBrace, nestedCondition]
  have hdescend : (EvalM.descend env.config frame (nestedCondition name s)).runOn mem =
      (.ok (some frame.deeper), mem.spend) := by
    rw [EvalM.runOn_descend, if_neg (by omega)]
  have hexpand : (expandNested env (evaluator env (fuel + 4)) (nestedCondition name s) frame).runOn
      mem = (.ok (v ++ equalsText s), mem.spend) := by
    simp only [expandNested, hbrace, if_true]
    rw [EvalM.runOn_bind_ok hdescend]
    simp only [expand_nestedCondition hname hs hheld hv, EvalM.runOn_pure]
  simp only [leaf, htrim, hnested]
  rw [EvalM.runOn_bind_ok hexpand]

theorem expr_equalsText (hs : hasBrace s = false) (e : Expr) {value : Value} {fuel : Nat}
    (he : (evaluator env (fuel + 1)).expr e frame = pure value) :
    (evaluator env (fuel + 2)).expr (.compare .eq e (.literal (.text s))) frame =
      pure (.bool (CompareOp.eq.compare value (.text s))) := by
  have hliteral : (evaluator env (fuel + 1)).expr (.literal (.text s)) frame = pure (.text s) := by
    simp only [evaluator_expr, expr, literal_text hs]
  simp only [evaluator_expr, expr] at he hliteral ⊢
  simp only [he, hliteral, pure_bind]

end Eval

/-! ## The conditions -/

/-- As a text, a comparison with a quoted text is true. -/
theorem isTruthyText_equalsText (front s : String) :
    Value.isTruthyText (front ++ equalsText s) = true := by
  have hmem := quote_mem_trimmed front s
  have hzero : trimmed (front ++ equalsText s) ≠ "0" := by
    intro heq
    rw [heq] at hmem
    revert hmem
    decide
  have hfalse : lowerAscii (trimmed (front ++ equalsText s)) ≠ "false" := by
    intro heq
    have hlower : '\'' ∈ (lowerAscii (trimmed (front ++ equalsText s))).toList := by
      rw [lowerAscii, String.toList_ofList]
      exact List.mem_map.mpr ⟨'\'', hmem, rfl⟩
    rw [heq] at hlower
    revert hlower
    decide
  simp [Value.isTruthyText, isEmpty_trimmed, hzero, hfalse]

namespace Engine

open Eval

variable {name v s : String} {engine : Engine} {states : Snapshot} {options : CallOptions}
  {fuel : Nat}

theorem check_of_leaf {env : Env} {condition : String}
    (hblock : Template.blockContent? condition = none)
    (hblank : (trimmed condition).isEmpty = false)
    (hleaf : Block.classify condition = .leaf condition) (fuel : Nat) (frame : Frame) :
    check (evaluator env (fuel + 2)) condition frame = (do
      return (← leaf env (evaluator env fuel) condition frame).value.isTruthy) := by
  simp only [check, blockContent, hblock, Option.getD_none, hblank, Bool.false_eq_true, if_false,
    evaluator_content, content, hleaf, evaluator_leaf]

theorem evaluateCondition_equals (hname : IsName name) (hquote : '\'' ∉ s.toList)
    (hopening : '{' ∉ s.toList) (hheld : HoldsText states.player name v) (hv : hasBrace v = false) :
    (engine.evaluateCondition (fuel + 6) (directCondition name s) states options).result =
      .ok (CompareOp.eq.compare (.text v) (.text s)) := by
  have hs : hasBrace s = false := by simpa [hasBrace] using hopening
  have hbrace : hasBrace (directCondition name s) = false := by
    have hreference := not_mem_of_hasBrace (hasBrace_reference hname)
    have hmem : '{' ∉ (directCondition name s).toList := by
      rw [directCondition, String.toList_append, List.mem_append, not_or]
      exact ⟨hreference, by simp [equalsText, hopening]⟩
    simpa [hasBrace] using hmem
  have htrim : trimmed (directCondition name s) = directCondition name s := by
    rw [trimmed, directCondition, trim_append_equalsText (toList_reference name) rfl,
      String.ofList_toList]
  have hparse : Expr.parse (directCondition name s) =
      .ok (.compare .eq (.ref (.ofName name)) (.literal (.text s))) :=
    Expr.parse_equalsText (isToken_reference hname) rfl hquote
  have hprose : (Expr.compare .eq (.ref (.ofName name)) (.literal (.text s))).readsAsProse = false :=
    rfl
  have hquality (frame : Frame) :
      (evaluator (engine.env (fuel + 6) states) (fuel + 3)).expr (.ref (.ofName name)) frame =
        pure (.text v) := by
    have hplayer : HoldsText (engine.env (fuel + 6) states).player name v := hheld
    simp only [evaluator_expr, expr, reference_ofName hplayer hv]
  rw [evaluateCondition, run_eq]
  simp only [check_of_leaf (Template.blockContent?_of_hasBrace hbrace) (isEmpty_trimmed _ s)
    (classify_directCondition hname hquote), leaf_of_hasBrace hbrace htrim, expression, hparse, hprose,
    expr_equalsText hs _ (hquality _), Bool.false_eq_true, if_false, pure_bind,
    EvalM.runOn_pure]
  rfl

theorem evaluateCondition_direct (hname : IsName name) (hs : IsQuotable s)
    (hheld : HoldsText states.player name v) (hv : hasBrace v = false) :
    (engine.evaluateCondition (fuel + 6) (directCondition name s) states options).result =
      .ok (CompareOp.eq.compare (.text v) (.text s)) :=
  evaluateCondition_equals hname hs.quote hs.opening hheld hv

/-- Whether the expression that is read from a text is true. -/
def truth (self : Evaluator) (text : String) (frame : Frame) : EvalM Bool :=
  return (← expression self text frame).value.isTruthy

/-- One expansion later the nested condition goes on as the text with the value in the place of the
block. -/
theorem runOn_check_nested {env : Env} {frame : Frame} {mem : Memory} (hname : IsName name)
    (hs : IsQuotable s) (hheld : HoldsText env.player name v) (hv : hasBrace v = false)
    (hdepth : frame.depth < env.config.maxDepth)
    (hbudget : mem.expansions < env.config.expansionBudget) (fuel : Nat) :
    (check (evaluator env (fuel + 6)) (nestedCondition name s) frame).runOn mem =
      (truth (evaluator env (fuel + 4)) (v ++ equalsText s) frame).runOn mem.spend := by
  rw [check_of_leaf (blockContent?_nestedCondition hname hs) (isEmpty_trimmed _ s)
    (classify_nestedCondition hname hs), truth, EvalM.runOn_bind, EvalM.runOn_bind,
    leaf_nestedCondition hname hs hheld hv fuel hdepth hbudget]

/-- A text that is no expression, or reads as prose, stands for itself and so is true. -/
theorem truth_of_prose {self : Evaluator} {frame : Frame} {mem : Memory}
    (h : ∀ e, Expr.parse (v ++ equalsText s) = .ok e → e.readsAsProse) :
    ((truth self (v ++ equalsText s) frame).runOn mem).1 = .ok true := by
  have htrue : (Value.text (v ++ equalsText s)).isTruthy = true := isTruthyText_equalsText v s
  unfold truth expression
  cases hparse : Expr.parse (v ++ equalsText s) with
  | ok e =>
    simp only [h e hparse, if_true, pure_bind, EvalM.runOn_pure]
    exact congrArg Except.ok htrue
  | error error =>
    dsimp only
    split
    · exact congrArg Except.ok htrue
    · exact congrArg Except.ok htrue

/-- A word or a decimal before the quoted text is compared with it as the value is. -/
theorem truth_of_operand {env : Env} {frame : Frame} (hs : IsQuotable s)
    (hoperand : IsWord v.toList ∨ IsDecimal v.toList) (htarget : frame.target = none) (fuel : Nat) :
    truth (evaluator env (fuel + 2)) (v ++ equalsText s) frame =
      pure (CompareOp.eq.compare (.text v) (.text s)) := by
  obtain ⟨t, e, value, htoken, he, hprose, hvalue, hcompare⟩ := exists_operand hoperand
  have hparse := Expr.parse_equalsText htoken he hs.quote
  have hplain : (Expr.compare .eq e (.literal (.text s))).readsAsProse = false := by
    simp [Expr.readsAsProse, hprose]
  have hexpr : (evaluator env (fuel + 1)).expr e frame = pure value := by
    rw [evaluator_expr]
    exact hvalue env _ frame htarget
  simp only [truth, expression, hparse, hplain, expr_equalsText hs.hasBrace e hexpr,
    Bool.false_eq_true, if_false, pure_bind, ← hcompare s]
  rfl

/-- The condition with the quality in a nested block is the truth of the text that has the value in
the place of the block: where that text is no expression or reads as prose, the condition holds. The
direct condition compares the value itself. Where the value is one word or one decimal, both are the
same. -/
theorem nested_reference_spliced (engine : Engine) (fuel : Nat) (states : Snapshot)
    (options : CallOptions) {name v s : String} (hname : IsName name) (hs : IsQuotable s)
    (hheld : HoldsText states.player name v) (hv : hasBrace v = false)
    (hdepth : options.depth < engine.config.maxDepth)
    (hbudget : 0 < engine.config.expansionBudget) :
    let direct := engine.evaluateCondition (fuel + 6) (directCondition name s) states options
    let nested := engine.evaluateCondition (fuel + 6) (nestedCondition name s) states options
    direct.result = .ok (CompareOp.eq.compare (.text v) (.text s)) ∧
    (nested = engine.run (fuel + 6) states options fun env _ frame => do
      let _ ← EvalM.descend env.config frame (nestedCondition name s)
      truth (evaluator env (fuel + 4)) (v ++ equalsText s) frame) ∧
    ((∀ e, Expr.parse (v ++ equalsText s) = .ok e → e.readsAsProse) → nested.result = .ok true) ∧
    (IsWord v.toList ∨ IsDecimal v.toList → nested.result = direct.result) := by
  have hdirect : (engine.evaluateCondition (fuel + 6) (directCondition name s) states
      options).result = .ok (CompareOp.eq.compare (.text v) (.text s)) :=
    evaluateCondition_direct hname hs hheld hv
  have hrun : engine.evaluateCondition (fuel + 6) (nestedCondition name s) states options =
      let ended := (truth (evaluator (engine.env (fuel + 6) states) (fuel + 4)) (v ++ equalsText s)
        (.new options.depth options.self)).runOn
          (Memory.fresh (options.source.getD engine.fallbackSource)).spend
      ⟨ended.1, ended.2⟩ := by
    rw [evaluateCondition, run_eq]
    dsimp only
    rw [runOn_check_nested hname hs hheld hv hdepth hbudget]
  refine ⟨hdirect, ?_, ?_, ?_⟩
  · have hdescend : (EvalM.descend (engine.env (fuel + 6) states).config
        (.new options.depth options.self) (nestedCondition name s)).runOn
          (.fresh (options.source.getD engine.fallbackSource)) =
        (.ok (some (Frame.new options.depth options.self).deeper),
          (Memory.fresh (options.source.getD engine.fallbackSource)).spend) := by
      rw [EvalM.runOn_descend, if_neg]
      exact not_or.mpr ⟨Nat.not_le.mpr hdepth, Nat.not_le.mpr hbudget⟩
    rw [hrun, run_eq]
    dsimp only
    rw [EvalM.runOn_bind_ok hdescend]
  · intro hprose
    rw [hrun]
    exact truth_of_prose hprose
  · intro hoperand
    rw [hrun, hdirect, truth_of_operand hs hoperand rfl]
    rfl

/-- A player whose quality `q` is a text. -/
def holding (v : String) : Snapshot := ⟨States.empty.insert (.new "q" (.text v)), none⟩

/-- With two words in the place of the block the condition is no expression, and holds. -/
theorem nested_value_reread :
    let engine : Engine := ⟨Content.Library.empty.registry, .default, .zeros⟩
    (engine.evaluateCondition 6 "\x7b$q\x7d == 'blue'" (holding "red hat") .none).result.toOption =
        some true ∧
      (engine.evaluateCondition 6 "$q == 'blue'" (holding "red hat") .none).result.toOption =
        some false := by
  decide +kernel

/-- One word is compared alike in a nested block and without one. -/
theorem nested_reference_spliced_of_word :
    let engine : Engine := ⟨Content.Library.empty.registry, .default, .zeros⟩
    IsName "q" ∧ IsQuotable "blue" ∧ HoldsText (holding "red").player "q" "red" ∧
      (engine.evaluateCondition 6 "\x7b$q\x7d == 'blue'" (holding "red") .none).result = .ok false ∧
      (engine.evaluateCondition 6 "$q == 'blue'" (holding "red") .none).result = .ok false := by
  intro engine
  have hname : IsName "q" := by
    refine ⟨by decide, fun c hc => ?_⟩
    cases List.mem_singleton.mp hc
    decide
  have hs : IsQuotable "blue" := ⟨by decide, by decide, by decide⟩
  have hheld : HoldsText (holding "red").player "q" "red" := ⟨.new "q" (.text "red"), rfl, rfl⟩
  have hword : IsWord "red".toList := by
    refine ⟨'r', ['e', 'd'], rfl, by decide, fun c hc => ?_⟩
    rcases List.mem_cons.mp hc with rfl | hc
    · decide
    · cases List.mem_singleton.mp hc
      decide
  obtain ⟨hdirect, -, -, hsame⟩ := nested_reference_spliced engine 0 (holding "red") .none hname hs
    hheld (by decide) (by decide) (by decide)
  have hdiffers : CompareOp.eq.compare (.text "red") (.text "blue") = false := by decide +kernel
  rw [hdiffers] at hdirect
  exact ⟨hname, hs, hheld, (hsame (.inl hword)).trans hdirect, hdirect⟩

end Engine

end QualityScript
