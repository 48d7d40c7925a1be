import QualityScript.Proofs.Syntax.Chance
import QualityScript.Proofs.Syntax.Braces
import QualityScript.Proofs.Syntax.Trimming
import QualityScript.Proofs.Evaluation.Entries

/-!
# Blocks for chances

A block `{%chance[…]}` around a challenge is one leaf, and it has the rounded chance of the challenge
without its parameters. Looking for nested blocks costs one expansion where the text has braces.
-/

namespace QualityScript

open Text Number

theorem toList_chanceCall (text : String) :
    (chanceCall text).toList = "%chance".toList ++ '[' :: (text.toList ++ [']']) := by
  simp [chanceCall]

theorem trim_chanceCall (text : String) :
    trim (chanceCall text).toList = (chanceCall text).toList := by
  refine trim_eq_self (fun c hc => ?_) fun c hc => ?_
  · rw [toList_chanceCall] at hc
    cases hc
    rfl
  · rw [toList_chanceCall, ← List.cons_append, ← List.append_assoc, List.getLast?_append] at hc
    cases hc
    rfl

theorem isPlain_of_mem_name : ∀ c ∈ "%chance".toList, ∀ before, IsPlain before c :=
  isPlain_of_all (by decide)

theorem closed_arguments {text : List Char} (h : IsClosed text) :
    Closed ['['] none (some '[') (text ++ [']']) := by
  have hend (before : Option Char) : Closed ['['] none before [closer '['] :=
    .closing rfl rfl .nil
  have hinside : Closed [] none (some '[') text := h.closed.of_before rfl
  exact hinside.append_of hend

theorem closed_chanceCall {text : List Char} (h : IsClosed text) :
    Closed [] none none ("%chance".toList ++ '[' :: (text ++ [']'])) :=
  .plain_append (.opening rfl (closed_arguments h)) isPlain_of_mem_name

theorem isClosed_chanceCall {text : String} (h : IsClosed text.toList) :
    IsClosed (chanceCall text).toList := by
  rw [isClosed_iff_closed, toList_chanceCall]
  exact closed_chanceCall h

theorem topLevelOffsets_chanceCall {text : String} (h : IsClosed text.toList) {separator : Char}
    (hseparator : separator ∉ "%chance".toList) :
    topLevelOffsets separator (chanceCall text).toList = [] := by
  have hname := (closed_chanceCall h).skips_plain isPlain_of_mem_name hseparator
  have hclosing : Token.closingBracket? 0 none '[' (text.toList ++ [']']) =
      some text.toList.length :=
    (h.closed.of_before rfl : Closed [] none (some '[') _).closingBracket?_append []
  have hinside : Closed ([] ++ ['[']) none (some '[') (text.toList ++ [']']) := closed_arguments h
  have harguments : Skips separator [] none (some 'e') ('[' :: (text.toList ++ [']'])) []
      (some ']') (text.toList.length + 1 + 1) :=
    (hinside.skips_inside hclosing).cons (separatorsFrom_opening rfl 0)
  have hall := hname.trans (by rw [List.drop_left]; exact harguments)
  rw [topLevelOffsets, toList_chanceCall]
  refine (hall.separators 0).trans ?_
  rw [List.drop_eq_nil_of_le (by simp; omega)]
  rfl

theorem classify_chanceCall {text : String} (h : IsClosed text.toList) :
    Block.classify (chanceCall text) = .leaf (chanceCall text) := by
  apply Block.classify_eq_leaf (trim_chanceCall text)
  · simp [toList_chanceCall]
  · rw [toList_chanceCall]
    rfl
  · rintro separator (rfl | rfl)
    · exact topLevelOffsets_chanceCall h (by decide)
    · exact topLevelOffsets_chanceCall h (by decide)

/-! ## Nested blocks -/

theorem evaluator_content (env : Env) (fuel : Nat) :
    (evaluator env (fuel + 1)).content = Eval.content env (evaluator env fuel) := by
  rw [evaluator_succ, Evaluator.step]

theorem evaluator_leaf (env : Env) (fuel : Nat) :
    (evaluator env (fuel + 1)).leaf = Eval.leaf env (evaluator env fuel) := by
  rw [evaluator_succ, Evaluator.step]

theorem evaluator_expr (env : Env) (fuel : Nat) :
    (evaluator env (fuel + 1)).expr = Eval.expr env (evaluator env fuel) := by
  rw [evaluator_succ, Evaluator.step]

theorem evaluator_expand (env : Env) (fuel : Nat) :
    (evaluator env (fuel + 1)).expand = Eval.expand env (evaluator env fuel) := by
  rw [evaluator_succ, Evaluator.step]

namespace Eval

theorem nestedBlock?_of_hasBrace {source : String} (h : hasBrace source = false) :
    nestedBlock? source = none := by
  unfold nestedBlock?
  split
  · exact Template.blockContent?_of_hasBrace h
  · rfl

theorem leaf_of_hasBrace {source : String} (h : hasBrace source = false)
    (htrim : trimmed source = source) (env : Env) (self : Evaluator) (frame : Frame) :
    leaf env self source frame = expression self source frame := by
  simp only [leaf, htrim, nestedBlock?_of_hasBrace h, expandNested, h, Bool.false_eq_true,
    if_false, pure_bind]

/-- What looking for nested blocks costs. -/
def lookInside (config : Config) (frame : Frame) (source : String) : EvalM Unit := do
  if hasBrace source then
    let _ ← EvalM.descend config frame source

theorem expandNested_of_isClosed {source : String} (hclosed : IsClosed source.toList)
    (hblocks : (scan true source).1.blocks = []) (env : Env) (fuel : Nat) (frame : Frame) :
    expandNested env (evaluator env (fuel + 1)) source frame = (do
      lookInside env.config frame source
      return source) := by
  unfold expandNested lookInside
  by_cases hbrace : hasBrace source
  · have hscan := scan_of_isClosed hclosed hblocks
    have hexpand (deeper : Frame) :
        (evaluator env (fuel + 1)).expand true source deeper = pure source := by
      have hchars : source.toList ≠ [] := by
        rintro h
        simp [hasBrace, h] at hbrace
      simp [evaluator_expand, expand, hbrace, hscan, literalPart, hchars, segments]
    simp only [hbrace, if_true, bind_assoc, pure_bind]
    congr 1
    funext deeper
    cases deeper <;> simp [hexpand]
  · simp [hbrace]

theorem leaf_chanceCall {text : String} {c : Challenge} (hclosed : IsClosed text.toList)
    (hblocks : (scan true (chanceCall text)).1.blocks = [])
    (hparse : Expr.parse (chanceCall text) = .ok (.call (.chance c))) (env : Env) (fuel : Nat)
    (frame : Frame) :
    leaf env (evaluator env (fuel + 1)) (chanceCall text) frame = (do
      lookInside env.config frame (chanceCall text)
      let percent ← challengePercent env (evaluator env fuel) c frame
      return ⟨.int (roundWord percent), false⟩) := by
  have htrimmed : trimmed (chanceCall text) = chanceCall text := by
    rw [trimmed, trim_chanceCall, String.ofList_toList]
  have hnested : nestedBlock? (chanceCall text) = none := by
    have hhead : (chanceCall text).toList.head? = some '%' := by
      rw [toList_chanceCall]
      rfl
    simp [nestedBlock?, hhead]
  have hexpr : (evaluator env (fuel + 1)).expr (.call (.chance c)) frame = (do
      let percent ← challengePercent env (evaluator env fuel) c frame
      return .int (roundWord percent)) := by
    simp only [evaluator_expr, expr, call]
  have hprose : (Expr.call (.chance c)).readsAsProse = false := rfl
  unfold leaf
  simp only [htrimmed, hnested, expandNested_of_isClosed (isClosed_chanceCall hclosed) hblocks,
    bind_assoc, pure_bind, expression, hparse, hprose, hexpr]
  rfl

end Eval

namespace Engine

theorem run_congr {α : Type} {m m' : Env → Evaluator → Frame → EvalM α} (engine : Engine)
    (fuel : Nat) (states : Snapshot) (options : CallOptions)
    (h : ∀ env frame, m env (evaluator env fuel) frame = m' env (evaluator env fuel) frame) :
    engine.run fuel states options m = engine.run fuel states options m' := by
  simp only [run_eq, h]

theorem evaluateBlock_chanceCall {text : String} {c : Challenge} (hclosed : IsClosed text.toList)
    (hblocks : (scan true (chanceCall text)).1.blocks = [])
    (hparse : Expr.parse (chanceCall text) = .ok (.call (.chance c))) (engine : Engine)
    (fuel : Nat) (states : Snapshot) (options : CallOptions) :
    engine.evaluateBlock (fuel + 3) ("\x7b" ++ chanceCall text ++ "\x7d") states options =
      engine.run (fuel + 3) states options fun env _ frame => do
        Eval.lookInside env.config frame (chanceCall text)
        let percent ← Eval.challengePercent env (evaluator env fuel) c frame
        return .int (roundWord percent) := by
  have hcontent := Template.blockContent?_of_isClosed (isClosed_chanceCall hclosed)
  refine engine.run_congr _ _ _ fun env frame => ?_
  have hself : (evaluator env (fuel + 3)).content .standalone (chanceCall text) frame =
      Eval.leaf env (evaluator env (fuel + 1)) (chanceCall text) frame := by
    simp only [evaluator_content, Eval.content, classify_chanceCall hclosed, evaluator_leaf]
  simp only [hcontent, hself, Eval.leaf_chanceCall hclosed hblocks hparse, bind_assoc, pure_bind]

/-- Around a closed challenge, `%chance[…]` has its subject, its direction and its target, but none of
its parameters: the call is the challenge that is never rolled exactly where the author gave no
parameter. As a block it has the rounded chance of what the call kept. -/
theorem chance_drops_parameters {text : String} {c : Challenge}
    (h : Expr.parseChallenge text = .ok c) (hclosed : IsClosed text.toList) :
    ∃ m, Expr.parse (chanceCall text) = .ok (.call (.chance m)) ∧
      m.subject = c.subject ∧ m.direction = c.direction ∧ m.target = c.target ∧
      ((m.margin = c.margin ∧ m.minCap = c.minCap ∧ m.maxCap = c.maxCap ∧ m.pivot = c.pivot) ↔
        c.margin = none ∧ c.minCap = none ∧ c.maxCap = none ∧ c.pivot = none) ∧
      ((c.margin = none ∧ c.minCap = none ∧ c.maxCap = none ∧ c.pivot = none) →
        ∀ env self frame,
          Eval.challengePercent env self m frame = Eval.challengePercent env self c frame) ∧
      ((scan true (chanceCall text)).1.blocks = [] →
        ∀ (engine : Engine) (fuel : Nat) (states : Snapshot) (options : CallOptions),
          engine.evaluateBlock (fuel + 3) ("\x7b" ++ chanceCall text ++ "\x7d") states options =
            engine.run (fuel + 3) states options fun env _ frame => do
              Eval.lookInside env.config frame (chanceCall text)
              let percent ← Eval.challengePercent env (evaluator env fuel) m frame
              return .int (roundWord percent)) := by
  obtain ⟨roll, hparse⟩ := Expr.parse_chanceCall h hclosed
  have hparts : ((c.bare roll).margin = c.margin ∧ (c.bare roll).minCap = c.minCap ∧
      (c.bare roll).maxCap = c.maxCap ∧ (c.bare roll).pivot = c.pivot) ↔
        c.margin = none ∧ c.minCap = none ∧ c.maxCap = none ∧ c.pivot = none := by
    simp only [Challenge.bare, Challenge.plain, eq_comm]
  refine ⟨c.bare roll, hparse, rfl, rfl, rfl, hparts, fun hnone env self frame => ?_,
    fun hblocks => evaluateBlock_chanceCall hclosed hblocks hparse⟩
  obtain ⟨hmargin, hminCap, hmaxCap, hpivot⟩ := hparts.mpr hnone
  simp only [Eval.challengePercent, hmargin, hminCap, hmaxCap, hpivot]
  rfl

/-- The margin two of a challenge is no part of the call for its chance. -/
theorem margin_lost_in_chance :
    ∃ c, Expr.parseChallenge "$skill >> 4; 2" = .ok c ∧ IsClosed "$skill >> 4; 2".toList ∧
      ∃ m, Expr.parse (chanceCall "$skill >> 4; 2") = .ok (.call (.chance m)) ∧
        m.margin ≠ c.margin := by
  have hsome : ∃ c ∈ (Expr.parseChallenge "$skill >> 4; 2").toOption, c.margin.isSome := by
    decide +kernel
  obtain ⟨c, hc, hmargin⟩ := hsome
  have hclosed : IsClosed "$skill >> 4; 2".toList := by decide
  have hparse : Expr.parseChallenge "$skill >> 4; 2" = .ok c := eq_ok_of_toOption hc
  obtain ⟨roll, hcall⟩ := Expr.parse_chanceCall hparse hclosed
  refine ⟨c, hparse, hclosed, c.bare roll, hcall, fun hlost => ?_⟩
  rw [← hlost] at hmargin
  cases hmargin

theorem chance_drops_parameters_of_margin :
    ∃ c m, Expr.parseChallenge "$skill >> 4; 2" = .ok c ∧
      Expr.parse (chanceCall "$skill >> 4; 2") = .ok (.call (.chance m)) ∧
      m.subject = c.subject ∧ m.direction = c.direction ∧ m.target = c.target ∧
      ∀ (engine : Engine) (fuel : Nat) (states : Snapshot) (options : CallOptions),
        engine.evaluateBlock (fuel + 3) "\x7b%chance[$skill >> 4; 2]\x7d" states options =
          engine.run (fuel + 3) states options fun env _ frame => do
            let percent ← Eval.challengePercent env (evaluator env fuel) m frame
            return .int (roundWord percent) := by
  have hsome : (Expr.parseChallenge "$skill >> 4; 2").toOption.isSome := by decide +kernel
  obtain ⟨c, hc⟩ := Option.isSome_iff_exists.mp hsome
  have hparse : Expr.parseChallenge "$skill >> 4; 2" = .ok c := eq_ok_of_toOption hc
  obtain ⟨m, hcall, hsubject, hdirection, htarget, -, -, hblock⟩ :=
    chance_drops_parameters hparse (by decide)
  refine ⟨c, m, hparse, hcall, hsubject, hdirection, htarget, fun engine fuel states options => ?_⟩
  have hblock := hblock (by decide +kernel) engine fuel states options
  have hbrace : hasBrace (chanceCall "$skill >> 4; 2") = false := by decide +kernel
  have htext : "\x7b" ++ chanceCall "$skill >> 4; 2" ++ "\x7d" =
      "\x7b%chance[$skill >> 4; 2]\x7d" := by
    decide
  rw [htext] at hblock
  simpa [Eval.lookInside, hbrace] using hblock

end Engine

end QualityScript
