import QualityScript.Proofs.Evaluation.Verbatim

/-!
# What decides

Chains, conjunctions and disjunctions ask one question of their items after the other, until an item
gives the answer they look for. Nothing that comes after that item is evaluated. So two lists that
share their items up to there have the same value and leave the same memory, whatever else is in them:
what is not evaluated binds no alias, records no problem, makes no expansion and draws no number.
-/

namespace QualityScript.Eval

/-- All the items give this answer when they are asked in turn. -/
inductive Agree {α : Type} (ask : α → EvalM Bool) (answer : Bool) :
    List α → Memory → Memory → Prop where
  | nil {mem} : Agree ask answer [] mem mem
  | cons {item items mem between mem'} : (ask item).runOn mem = (.ok answer, between) →
      Agree ask answer items between mem' → Agree ask answer (item :: items) mem mem'

/-- The item is the first to give this answer: those before it give the other one. -/
def Decides {α : Type} (ask : α → EvalM Bool) (answer : Bool) (before : List α) (item : α)
    (mem mem' : Memory) : Prop :=
  ∃ between, Agree ask (!answer) before mem between ∧
    (ask item).runOn between = (.ok answer, mem')

/-- Whether the value of an expression is true. -/
def exprHolds (self : Evaluator) (frame : Frame) (e : Expr) : EvalM Bool :=
  return (← self.expr e frame).isTruthy

/-- Whether a condition holds; no condition always does. -/
def conditionHolds (self : Evaluator) (frame : Frame) : Option String → EvalM Bool
  | none => return true
  | some condition => return (← self.leaf condition frame).value.isTruthy

/-! ## Lists of conditions -/

section Lists

variable {self : Evaluator} {frame : Frame} {before : List Expr} {e : Expr}
  {mem between mem' : Memory}

theorem allTrue_cons (self : Evaluator) (frame : Frame) (e : Expr) (rest : List Expr) :
    allTrue self frame (e :: rest) = (do
      if ← exprHolds self frame e then allTrue self frame rest else return false) := by
  rw [allTrue, exprHolds, bind_assoc]
  rfl

theorem anyTrue_cons (self : Evaluator) (frame : Frame) (e : Expr) (rest : List Expr) :
    anyTrue self frame (e :: rest) = (do
      if ← exprHolds self frame e then return true else anyTrue self frame rest) := by
  rw [anyTrue, exprHolds, bind_assoc]
  rfl

theorem Agree.runOn_allTrue (h : Agree (exprHolds self frame) true before mem between)
    (rest : List Expr) :
    (allTrue self frame (before ++ rest)).runOn mem = (allTrue self frame rest).runOn between := by
  induction h with
  | nil => rfl
  | cons hask _ ih => rw [List.cons_append, allTrue_cons, EvalM.runOn_bind_ok hask, if_pos rfl, ih]

theorem Agree.runOn_anyTrue (h : Agree (exprHolds self frame) false before mem between)
    (rest : List Expr) :
    (anyTrue self frame (before ++ rest)).runOn mem = (anyTrue self frame rest).runOn between := by
  induction h with
  | nil => rfl
  | cons hask _ ih =>
    rw [List.cons_append, anyTrue_cons, EvalM.runOn_bind_ok hask, if_neg Bool.false_ne_true, ih]

theorem Decides.runOn_allTrue (h : Decides (exprHolds self frame) false before e mem mem')
    (after : List Expr) :
    (allTrue self frame (before ++ e :: after)).runOn mem = (.ok false, mem') := by
  obtain ⟨between, hbefore, hask⟩ := h
  rw [hbefore.runOn_allTrue, allTrue_cons, EvalM.runOn_bind_ok hask, if_neg Bool.false_ne_true]
  rfl

theorem Decides.runOn_anyTrue (h : Decides (exprHolds self frame) true before e mem mem')
    (after : List Expr) :
    (anyTrue self frame (before ++ e :: after)).runOn mem = (.ok true, mem') := by
  obtain ⟨between, hbefore, hask⟩ := h
  rw [hbefore.runOn_anyTrue, anyTrue_cons, EvalM.runOn_bind_ok hask, if_pos rfl]
  rfl

theorem Decides.runOn_and (h : Decides (exprHolds self frame) false before e mem mem')
    (env : Env) (after : List Expr) :
    (expr env self (.and (before ++ e :: after)) frame).runOn mem = (.ok (.bool false), mem') := by
  rw [expr, EvalM.runOn_bind_ok (h.runOn_allTrue after)]
  rfl

theorem Decides.runOn_or (h : Decides (exprHolds self frame) true before e mem mem')
    (env : Env) (after : List Expr) :
    (expr env self (.or (before ++ e :: after)) frame).runOn mem = (.ok (.bool true), mem') := by
  rw [expr, EvalM.runOn_bind_ok (h.runOn_anyTrue after)]
  rfl

end Lists

/-! ## Chains -/

section Chains

variable {self : Evaluator} {frame : Frame} {before rest : List Branch} {b : Branch} {s : String}
  {mem between mem' : Memory}

theorem Agree.reaches
    (h : Agree (conditionHolds self frame) false (before.map (·.condition)) mem between)
    (hrest : Reaches self frame rest between s mem') :
    Reaches self frame (before ++ rest) mem s mem' := by
  induction before generalizing mem with
  | nil =>
    cases h
    exact hrest
  | cons passed before ih =>
    obtain ⟨_ | condition, result⟩ := passed
    -- A branch without a condition always holds, so it is not among those before.
    · cases h with
      | cons hask _ => cases hask
    · cases h with
      | cons hask htail =>
        obtain ⟨o, mem₁, hleaf, hvalue⟩ := EvalM.exists_of_runOn_bind hask
        obtain ⟨hfalsy, rfl⟩ := Prod.mk.inj hvalue
        exact .fails hleaf (Except.ok.inj hfalsy) (ih htail)

theorem Decides.reaches
    (h : Decides (conditionHolds self frame) true (before.map (·.condition)) b.condition mem mem')
    (after : List Branch) : Reaches self frame (before ++ b :: after) mem b.result mem' := by
  obtain ⟨between, hbefore, hask⟩ := h
  refine hbefore.reaches ?_
  obtain ⟨_ | condition, result⟩ := b
  · obtain ⟨-, rfl⟩ := Prod.mk.inj hask
    exact .otherwise
  · obtain ⟨o, mem₁, hleaf, hvalue⟩ := EvalM.exists_of_runOn_bind hask
    obtain ⟨htruthy, rfl⟩ := Prod.mk.inj hvalue
    exact .holds hleaf (Except.ok.inj htruthy)

end Chains

/-- Once a condition of a chain holds, an item of a conjunction is false or an item of a disjunction
is true, with those before it all the other way, nothing that comes later is seen, nor are the results
of the branches before. The value and the memory, which holds the aliases, the diagnostics, the count
of expansions and the random source, are the same whatever stands there. -/
theorem decided_ignores_rest (env : Env) (fuel : Nat) (frame : Frame) (mem mem' : Memory) :
    let inner := evaluator env fuel
    let outer := evaluator env (fuel + 1)
    (∀ (mode : Mode) (input input' : String) (before before' after after' : List Branch)
        (b : Branch),
      Block.classify input = .conditional (before ++ b :: after) →
      Block.classify input' = .conditional (before' ++ b :: after') →
      before'.map (·.condition) = before.map (·.condition) →
      Decides (conditionHolds inner frame) true (before.map (·.condition)) b.condition mem mem' →
      (outer.content mode input frame).runOn mem = (inner.leaf b.result frame).runOn mem' ∧
      (outer.content mode input' frame).runOn mem = (outer.content mode input frame).runOn mem) ∧
    (∀ (before after after' : List Expr) (e : Expr),
      Decides (exprHolds inner frame) false before e mem mem' →
      (outer.expr (.and (before ++ e :: after)) frame).runOn mem = (.ok (.bool false), mem') ∧
      (outer.expr (.and (before ++ e :: after')) frame).runOn mem =
        (outer.expr (.and (before ++ e :: after)) frame).runOn mem) ∧
    ∀ (before after after' : List Expr) (e : Expr),
      Decides (exprHolds inner frame) true before e mem mem' →
      (outer.expr (.or (before ++ e :: after)) frame).runOn mem = (.ok (.bool true), mem') ∧
      (outer.expr (.or (before ++ e :: after')) frame).runOn mem =
        (outer.expr (.or (before ++ e :: after)) frame).runOn mem := by
  dsimp only
  refine ⟨?_, ?_, ?_⟩
  · intro mode input input' before before' after after' b hshape hshape' hconditions hdecides
    have hrun : ((evaluator env (fuel + 1)).content mode input frame).runOn mem =
        ((evaluator env fuel).leaf b.result frame).runOn mem' :=
      (Picks.branch hshape (hdecides.reaches after)).runOn_content mode
    have hrun' : ((evaluator env (fuel + 1)).content mode input' frame).runOn mem =
        ((evaluator env fuel).leaf b.result frame).runOn mem' :=
      (Picks.branch hshape' ((hconditions ▸ hdecides).reaches after')).runOn_content mode
    exact ⟨hrun, hrun'.trans hrun.symm⟩
  · intro before after after' e hdecides
    have hrun := hdecides.runOn_and env
    exact ⟨hrun after, (hrun after').trans (hrun after).symm⟩
  · intro before after after' e hdecides
    have hrun := hdecides.runOn_or env
    exact ⟨hrun after, (hrun after').trans (hrun after).symm⟩

/-- A rich player: the branch for the rich is found after a condition that records a problem, and one
more branch or another result before it changes nothing. Nor does an unbound alias that comes after
the deciding item of a conjunction or a disjunction. -/
theorem decided_ignores_rest_of_wealthy :
    let engine : Engine := ⟨Content.Library.empty.registry, .default, .zeros⟩
    let self := evaluator (engine.env 8 Engine.wealthy) 6
    let frame := Frame.new 0 none
    let mem := Memory.fresh engine.fallbackSource
    (self.content .inText "$ghost : \x7b$gold\x7d | $gold > 1 : rich | $ghoul : x" frame).runOn mem =
      (self.content .inText "$ghost : poor | $gold > 1 : rich" frame).runOn mem ∧
    (self.expr (.and [.literal (.int 0), .aliasName "friend"]) frame).runOn mem =
      (.ok (.bool false), mem) ∧
    (self.expr (.or [.aliasName "foe", .literal (.int 1), .aliasName "friend"]) frame).runOn mem =
      (.ok (.bool true), mem.record (Problem.unboundAlias "foe").diagnostic) := by
  intro engine self frame mem
  have hdecided := decided_ignores_rest (engine.env 8 Engine.wealthy) 5 frame mem
  have hshape : Block.classify "$ghost : poor | $gold > 1 : rich" =
      .conditional ([⟨some "$ghost", "poor"⟩] ++ ⟨some "$gold > 1", "rich"⟩ :: []) := by
    decide +kernel
  have hshape' : Block.classify "$ghost : \x7b$gold\x7d | $gold > 1 : rich | $ghoul : x" =
      .conditional ([⟨some "$ghost", "\x7b$gold\x7d"⟩] ++ ⟨some "$gold > 1", "rich"⟩ ::
        [⟨some "$ghoul", "x"⟩]) := by
    decide +kernel
  obtain ⟨mem', hchain⟩ : ∃ mem',
      Decides (conditionHolds (evaluator (engine.env 8 Engine.wealthy) 5) frame) true [some "$ghost"]
        (some "$gold > 1") mem mem' :=
    ⟨_, _, .cons (Prod.ext (eq_ok_of_toOption (by decide +kernel)) rfl) .nil,
      Prod.ext (eq_ok_of_toOption (by decide +kernel)) rfl⟩
  refine ⟨((hdecided mem').1 .inText _ _ _ _ _ _ _ hshape hshape' rfl hchain).2, ?_, ?_⟩
  · exact ((hdecided mem).2.1 [] [.aliasName "friend"] [] _ ⟨mem, .nil, rfl⟩).1
  · exact ((hdecided _).2.2 [.aliasName "foe"] [.aliasName "friend"] [] _
      ⟨_, .cons rfl .nil, rfl⟩).1

end QualityScript.Eval
