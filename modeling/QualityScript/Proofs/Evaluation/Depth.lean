import QualityScript.Proofs.Evaluation.Logic

/-!
# How deep evaluations go

Frames get deeper by descending only, and a descent ends at the limit of depth. An evaluation that
starts within a limit therefore asks for nothing in a frame that is deeper than it: evaluators that
agree on all frames up to the limit do the same, and what else they do in deeper frames is not seen.
-/

namespace QualityScript

theorem EvalM.ext {α : Type} {m m' : EvalM α} (h : ∀ mem, m.runOn mem = m'.runOn mem) : m = m' :=
  funext h

/-- What follows a descent matters in the same frame and in one within the limit of depth. -/
theorem EvalM.descend_congr {α : Type} {config : Config} {limit : Nat}
    (hlimit : config.maxDepth ≤ limit) {frame : Frame} {snippet : String}
    {f g : Option Frame → EvalM α} (hnone : f none = g none)
    (hsome : frame.deeper.depth ≤ limit → f (some frame.deeper) = g (some frame.deeper)) :
    (descend config frame snippet >>= f) = (descend config frame snippet >>= g) := by
  refine EvalM.ext fun mem => ?_
  rw [runOn_bind, runOn_bind, runOn_descend]
  by_cases hstop : config.maxDepth ≤ frame.depth ∨ config.expansionBudget ≤ mem.expansions
  · simp only [hstop, if_true, hnone]
  · have hdeeper : frame.deeper.depth ≤ limit := by
      simp only [Frame.deeper]
      omega
    simp only [hstop, if_false, hsome hdeeper]

/-! ## Evaluators that agree up to a depth -/

/-- The evaluators do every task in the same way in frames that are at most `limit` deep. -/
def Evaluator.AgreeTo (limit : Nat) (self other : Evaluator) : Prop :=
  ∀ t frame, frame.depth ≤ limit → self.run t frame = other.run t frame

namespace Evaluator.AgreeTo

variable {limit : Nat} {self other : Evaluator} (h : AgreeTo limit self other) {env : Env}
  {frame : Frame} (hframe : frame.depth ≤ limit) (hlimit : env.config.maxDepth ≤ limit)

section Tasks

include h hframe

theorem content_eq (mode : Mode) (input : String) :
    self.content mode input frame = other.content mode input frame :=
  h (.content mode input) frame hframe

theorem leaf_eq (input : String) : self.leaf input frame = other.leaf input frame :=
  h (.leaf input) frame hframe

theorem expr_eq (e : Expr) : self.expr e frame = other.expr e frame := h (.expr e) frame hframe

theorem expand_eq (quotesKept : Bool) (input : String) :
    self.expand quotesKept input frame = other.expand quotesKept input frame :=
  h (.expand quotesKept input) frame hframe

theorem number (e : Expr) : self.number e frame = other.number e frame := by
  simp only [Evaluator.number, h.expr_eq hframe e]

end Tasks

/-! ### One level deeper

What these ask for stands in a frame that a descent gave. -/

section Deeper

include h hlimit

theorem expandOwned (text : String) (owner : SelfBinding) :
    self.expandOwned env.config text owner frame =
      other.expandOwned env.config text owner frame := by
  unfold Evaluator.expandOwned
  split
  · refine EvalM.descend_congr hlimit rfl fun hdeeper => ?_
    have hbound : (frame.deeper.rebind owner).depth ≤ limit := hdeeper
    exact h.expand_eq hbound false text
  · rfl

theorem expandNested (source : String) :
    Eval.expandNested env self source frame = Eval.expandNested env other source frame := by
  unfold Eval.expandNested
  split
  · exact EvalM.descend_congr hlimit rfl fun hdeeper => h.expand_eq hdeeper true source
  · rfl

theorem literal (value : Literal) :
    Eval.literal env self value frame = Eval.literal env other value frame := by
  unfold Eval.literal
  split
  · split
    · refine EvalM.descend_congr hlimit rfl fun hdeeper => ?_
      simp only [h.expand_eq hdeeper]
    · rfl
  · rfl

theorem reference (r : Reference) :
    Eval.reference env self r frame = Eval.reference env other r frame := by
  simp only [Eval.reference, h.expandOwned hlimit]

theorem displayName (id : String) :
    Eval.displayName env self frame id = Eval.displayName env other frame id := by
  simp only [Eval.displayName, h.expandOwned hlimit]

end Deeper

/-! ### On the same level -/

section Level

include h hframe

theorem chain (branches : List Branch) :
    Eval.chain self frame branches = Eval.chain other frame branches := by
  induction branches with
  | nil => rfl
  | cons b rest ih =>
    obtain ⟨_ | condition, result⟩ := b
    · exact h.leaf_eq hframe result
    · simp only [Eval.chain, h.leaf_eq hframe, ih]

theorem content (mode : Mode) (input : String) :
    Eval.content env self mode input frame = Eval.content env other mode input frame := by
  unfold Eval.content
  split
  · rfl
  · simp only [h.content_eq hframe]
  · exact h.chain hframe _
  · simp only [h.leaf_eq hframe]
  · exact h.leaf_eq hframe _

theorem expression (source : String) :
    Eval.expression self source frame = Eval.expression other source frame := by
  unfold Eval.expression
  split
  · simp only [h.expr_eq hframe]
  · rfl

theorem allTrue (items : List Expr) :
    Eval.allTrue self frame items = Eval.allTrue other frame items := by
  induction items with
  | nil => rfl
  | cons e rest ih => simp only [Eval.allTrue, h.expr_eq hframe, ih]

theorem anyTrue (items : List Expr) :
    Eval.anyTrue self frame items = Eval.anyTrue other frame items := by
  induction items with
  | nil => rfl
  | cons e rest ih => simp only [Eval.anyTrue, h.expr_eq hframe, ih]

theorem parameter (given : Option Expr) (default : Float) :
    Eval.parameter self given default frame = Eval.parameter other given default frame := by
  cases given with
  | none => rfl
  | some e => exact h.number hframe e

theorem defaultMargin (target : Float) :
    Eval.defaultMargin env self target frame = Eval.defaultMargin env other target frame := by
  simp only [Eval.defaultMargin, h.number hframe]

theorem challengePercent (c : Challenge) :
    Eval.challengePercent env self c frame = Eval.challengePercent env other c frame := by
  have hinner (target : Float) : (frame.withTarget target).depth ≤ limit := hframe
  simp only [Eval.challengePercent, h.number hframe, h.number (hinner _),
    h.defaultMargin (hinner _), h.parameter (hinner _)]

theorem amount (given : Option Expr) :
    Eval.amount self given frame = Eval.amount other given frame := by
  cases given with
  | none => rfl
  | some e => exact h.expr_eq hframe e

theorem description (given : Option String) :
    Eval.description self given frame = Eval.description other given frame := by
  cases given with
  | none => rfl
  | some text => simp only [Eval.description, h.expand_eq hframe]

theorem effectsFrom (p : Eval.Progress) (list : List EffectExpr) :
    Eval.effectsFrom env self frame p list = Eval.effectsFrom env other frame p list := by
  induction list generalizing p with
  | nil => rfl
  | cons e rest ih => simp only [Eval.effectsFrom, h.amount hframe, h.description hframe, ih]

theorem effects (list : List EffectExpr) :
    Eval.effects env self list frame = Eval.effects env other list frame := by
  simp only [Eval.effects, h.effectsFrom hframe]

theorem passing (filter : Expr) (members : List Quality.Definition) :
    Eval.passing self filter frame members = Eval.passing other filter frame members := by
  have hbound (id : String) : (frame.rebind ⟨id, none⟩).depth ≤ limit := hframe
  induction members with
  | nil => rfl
  | cons d rest ih => simp only [Eval.passing, h.expr_eq (hbound _), ih]

theorem candidates (category : String) (filter : Option Expr) :
    Eval.candidates env self category filter frame =
      Eval.candidates env other category filter frame := by
  cases filter with
  | none => rfl
  | some filter => exact h.passing hframe filter _

theorem pickCount (count : Option Expr) :
    Eval.pickCount self count frame = Eval.pickCount other count frame := by
  cases count with
  | none => rfl
  | some e => simp only [Eval.pickCount, h.number hframe]

end Level

/-! ### Steps -/

include h hframe hlimit

theorem leaf (input : String) : Eval.leaf env self input frame = Eval.leaf env other input frame := by
  unfold Eval.leaf
  dsimp only
  split
  · exact EvalM.descend_congr hlimit rfl fun hdeeper => h.content_eq hdeeper .standalone _
  · simp only [h.expandNested hlimit, h.expression hframe]

theorem call (c : Call) : Eval.call env self c frame = Eval.call env other c frame := by
  have hnames : Eval.displayName env self frame = Eval.displayName env other frame :=
    funext (h.displayName hlimit)
  cases c with
  | random chance invert => simp only [Eval.call, Eval.random, h.number hframe]
  | pick category count filter =>
    simp only [Eval.call, Eval.pick, h.candidates hframe, h.pickCount hframe]
  | roll category filter => simp only [Eval.call, Eval.roll, h.candidates hframe]
  | list category separator filter => simp only [Eval.call, h.candidates hframe, hnames]
  | all category => rfl
  | schedule kind effect amount unit =>
    simp only [Eval.call, h.effects hframe, h.number hframe]
  | chance c => simp only [Eval.call, h.challengePercent hframe]

theorem expr (e : Expr) : Eval.expr env self e frame = Eval.expr env other e frame := by
  cases e with
  | literal value => exact h.literal hlimit value
  | ref r => exact h.reference hlimit r
  | aliasName name => rfl
  | word text => rfl
  | call c => exact h.call hframe hlimit c
  | neg inner => simp only [Eval.expr, h.number hframe]
  | not inner => simp only [Eval.expr, h.expr_eq hframe]
  | arith op lhs rhs => simp only [Eval.expr, h.expr_eq hframe]
  | compare op lhs rhs => simp only [Eval.expr, h.expr_eq hframe]
  | and items => simp only [Eval.expr, h.allTrue hframe]
  | or items => simp only [Eval.expr, h.anyTrue hframe]
  | challenge c => simp only [Eval.expr, Eval.challenge, h.challengePercent hframe]
  | effect list => simp only [Eval.expr, h.effects hframe]
  | range lo hi => simp only [Eval.expr, h.number hframe]

theorem blockText (content : String) :
    Eval.blockText env self content frame = Eval.blockText env other content frame := by
  unfold Eval.blockText
  rw [h.content_eq hframe]
  refine bind_congr fun o => ?_
  dsimp only
  split
  · rfl
  · exact EvalM.descend_congr hlimit rfl fun hdeeper => h.expand_eq hdeeper false _

theorem segments (template : Template) :
    Eval.segments env self frame template = Eval.segments env other frame template := by
  induction template with
  | nil => rfl
  | cons segment rest ih =>
    cases segment with
    | literal text => simp only [Eval.segments, ih]
    | block content => simp only [Eval.segments, h.blockText hframe hlimit, ih]

theorem expand (quotesKept : Bool) (input : String) :
    Eval.expand env self quotesKept input frame = Eval.expand env other quotesKept input frame := by
  simp only [Eval.expand, h.segments hframe hlimit]

omit hframe in
theorem step : AgreeTo limit (self.step env) (other.step env) := by
  intro t frame hframe
  cases t with
  | content mode input => exact h.content hframe mode input
  | leaf input =>
    simp only [Evaluator.run, Evaluator.step]
    exact h.leaf hframe hlimit input
  | expr e => exact h.expr hframe hlimit e
  | expand quotesKept input => exact h.expand hframe hlimit quotesKept input

end Evaluator.AgreeTo

/-- The evaluator `self` in frames at most `limit` deep, and `other` in deeper ones. -/
def Evaluator.downTo (self : Evaluator) (limit : Nat) (other : Evaluator) : Evaluator where
  content mode input frame := (if frame.depth ≤ limit then self else other).content mode input frame
  leaf input frame := (if frame.depth ≤ limit then self else other).leaf input frame
  expr e frame := (if frame.depth ≤ limit then self else other).expr e frame
  expand quotesKept input frame :=
    (if frame.depth ≤ limit then self else other).expand quotesKept input frame

/-- The evaluator that nests at most `fuel` steps and leaves every task in a frame deeper than `limit`
to another evaluator, wherever the task is met. -/
def evaluatorDownTo (env : Env) (limit : Nat) (other : Evaluator) : Nat → Evaluator
  | 0 => Evaluator.unfinished.downTo limit other
  | fuel + 1 => ((evaluatorDownTo env limit other fuel).step env).downTo limit other

theorem Evaluator.agreeTo_downTo (self : Evaluator) (limit : Nat) (other : Evaluator) :
    AgreeTo limit (self.downTo limit other) self := by
  intro t frame hframe
  cases t <;> simp [Evaluator.run, downTo, hframe]

/-- No task is left to the other evaluator: no frame is deeper than the limit. -/
theorem agreeTo_evaluatorDownTo {env : Env} {limit : Nat} (hlimit : env.config.maxDepth ≤ limit)
    (other : Evaluator) (fuel : Nat) :
    Evaluator.AgreeTo limit (evaluatorDownTo env limit other fuel) (evaluator env fuel) := by
  induction fuel with
  | zero => exact Evaluator.agreeTo_downTo _ limit other
  | succ fuel ih =>
    intro t frame hframe
    exact (Evaluator.agreeTo_downTo _ limit other t frame hframe).trans
      (ih.step hlimit t frame hframe)

end QualityScript
