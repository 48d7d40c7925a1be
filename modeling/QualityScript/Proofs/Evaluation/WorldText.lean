import QualityScript.Proofs.Evaluation.Alike

/-!
# What texts of the world read of the player

The texts of content and world refer by `$.` to the quality that is being shown. A reference `#id`
binds it with the state that the world has, and what is bound with a state reads no other. Where the
world has none, it is bound without a state, and `$.` then reads the player's state under the id. So
two players are told apart by such texts in one way alone: by a quality that is defined, that the
world has no state of, and that they hold differently.

The proof runs the two evaluations side by side. Texts arise while they run, so what is kept of them
is that they are impersonal: so are all aliases and all texts that are read again as scripts.
-/

namespace QualityScript

open Quality Content Randomness

variable {env : Env} {other : States} {frame : Frame}

def Task.IsImpersonal : Task → Prop
  | .content _ input | .leaf input | .expand _ input => QualityScript.IsImpersonal input.toList
  | .expr e => e.IsImpersonal

/-- The result of a task is impersonal. -/
def Task.Impersonally : (t : Task) → t.Result → Prop
  | .content .. | .leaf _ => fun outcome => outcome.value.IsImpersonal
  | .expr _ => Value.IsImpersonal
  | .expand .. => fun text => QualityScript.IsImpersonal text.toList

/-- In frames that agree the evaluators do every impersonal task alike. -/
def Evaluator.Twins (env : Env) (other : States) (self self' : Evaluator) : Prop :=
  ∀ t frame, t.IsImpersonal → frame.Agrees env other →
    Alike (self.run t frame) (self'.run t frame) t.Impersonally

namespace Evaluator.Twins

variable {self self' : Evaluator} (h : Twins env other self self')

section Tasks

include h

variable (hframe : frame.Agrees env other)

include hframe

theorem content_alike (mode : Mode) {input : String} (hinput : IsImpersonal input.toList) :
    Alike (self.content mode input frame) (self'.content mode input frame)
      fun o => o.value.IsImpersonal :=
  h (.content mode input) frame hinput hframe

theorem leaf_alike {input : String} (hinput : IsImpersonal input.toList) :
    Alike (self.leaf input frame) (self'.leaf input frame) fun o => o.value.IsImpersonal :=
  h (.leaf input) frame hinput hframe

theorem expr_alike {e : Expr} (he : e.IsImpersonal) :
    Alike (self.expr e frame) (self'.expr e frame) Value.IsImpersonal :=
  h (.expr e) frame he hframe

theorem expand_alike (quotesKept : Bool) {input : String} (hinput : IsImpersonal input.toList) :
    Alike (self.expand quotesKept input frame) (self'.expand quotesKept input frame)
      fun text => IsImpersonal text.toList :=
  h (.expand quotesKept input) frame hinput hframe

theorem number {e : Expr} (he : e.IsImpersonal) :
    Alike (self.number e frame) (self'.number e frame) fun _ => True :=
  (h.expr_alike hframe he).map fun _ _ => trivial

end Tasks

/-! ### Blocks -/

section Level

include h

variable (hframe : frame.Agrees env other)

include hframe

theorem chain {branches : List Branch} (hbranches : ∀ b ∈ branches,
      (∀ c ∈ b.condition, IsImpersonal c.toList) ∧ IsImpersonal b.result.toList) :
    Alike (Eval.chain self frame branches) (Eval.chain self' frame branches)
      fun o => o.value.IsImpersonal := by
  induction branches with
  | nil => exact .pure Value.isImpersonal_empty
  | cons b rest ih =>
    obtain ⟨hb, hrest⟩ := List.forall_mem_cons.mp hbranches
    obtain ⟨_ | condition, result⟩ := b
    · exact h.leaf_alike hframe hb.2
    · refine (h.leaf_alike hframe (hb.1 condition rfl)).bind fun o _ => ?_
      split
      · exact h.leaf_alike hframe hb.2
      · exact ih hrest

theorem content (mode : Mode) {input : String} (hinput : IsImpersonal input.toList) :
    Alike (Eval.content env self mode input frame)
      (Eval.content (env.withPlayer other) self' mode input frame)
      fun o => o.value.IsImpersonal := by
  have hshape := isImpersonal_classify hinput
  unfold Eval.content
  cases hclass : Block.classify input with
  | empty => exact .pure Value.isImpersonal_empty
  | assign name expression =>
    rw [hclass] at hshape
    refine (h.content_alike hframe .standalone hshape).bind fun o ho => ?_
    refine (Alike.bindAlias name ho).bind fun _ _ => ?_
    cases mode with
    | inText => exact .pure Value.isImpersonal_empty
    | standalone => exact .pure ho
  | conditional branches =>
    rw [hclass] at hshape
    exact h.chain hframe hshape
  | choice options =>
    rw [hclass] at hshape
    have hdraw : Alike (EvalM.draw (choose env.attempts options))
        (EvalM.draw (choose env.attempts options)) fun o => ∀ option ∈ o, option ∈ options :=
      .draw fun _ _ _ hdrawn option ho => mem_of_choose (Option.mem_def.mp ho ▸ hdrawn)
    refine hdraw.bind fun o ho => ?_
    cases o with
    | none => exact .pure Value.isImpersonal_empty
    | some option => exact h.leaf_alike hframe (hshape option (ho option rfl))
  | leaf source =>
    rw [hclass] at hshape
    exact h.leaf_alike hframe hshape

theorem expression {source : String} (hsource : IsImpersonal source.toList) :
    Alike (Eval.expression self source frame) (Eval.expression self' source frame)
      fun o => o.value.IsImpersonal := by
  unfold Eval.expression
  cases hparse : Expr.parse source with
  | ok e =>
    dsimp only
    split
    · exact .pure hsource
    · exact (h.expr_alike hframe (Expr.isImpersonal_of_parse hsource hparse)).map fun _ hv => hv
  | error error =>
    dsimp only
    split
    · exact (Alike.record _).bind fun _ _ => .pure hsource
    · exact .pure hsource

theorem expandNested {source : String} (hsource : IsImpersonal source.toList) :
    Alike (Eval.expandNested env self source frame)
      (Eval.expandNested (env.withPlayer other) self' source frame)
      fun text => IsImpersonal text.toList := by
  have hdeeper : frame.deeper.Agrees env other := hframe
  unfold Eval.expandNested
  split
  · exact .descend (.pure hsource) (h.expand_alike hdeeper true hsource)
  · exact .pure hsource

theorem leaf {input : String} (hinput : IsImpersonal input.toList) :
    Alike (Eval.leaf env self input frame) (Eval.leaf (env.withPlayer other) self' input frame)
      fun o => o.value.IsImpersonal := by
  have hsource := hinput.trimmed
  have hdeeper : frame.deeper.Agrees env other := hframe
  unfold Eval.leaf
  dsimp only
  generalize Text.trimmed input = source at hsource
  cases hnested : Eval.nestedBlock? source with
  | some inner =>
    have hinner := isImpersonal_of_nestedBlock? hsource hnested
    exact .descend (.pure hsource) (h.content_alike hdeeper .standalone hinner)
  | none => exact (h.expandNested hframe hsource).bind fun text htext => h.expression hframe htext

/-! ### Operands -/

theorem literal {value : Literal} (hvalue : (Expr.literal value).IsImpersonal) :
    Alike (Eval.literal env self value frame)
      (Eval.literal (env.withPlayer other) self' value frame) Value.IsImpersonal := by
  cases value with
  | text text =>
    have htext : IsImpersonal text.toList := hvalue.head
    have hdeeper : frame.deeper.Agrees env other := hframe
    have hplain : (Value.text text).IsImpersonal := htext
    have hexpanded : Alike (do return Value.text (← self.expand false text frame.deeper))
        (do return Value.text (← self'.expand false text frame.deeper)) Value.IsImpersonal :=
      (h.expand_alike hdeeper false htext).map fun _ ht => ht
    unfold Eval.literal
    dsimp only
    split
    · exact .descend (.pure hplain) hexpanded
    · exact .pure hplain
  | bool b => exact .pure (Value.isImpersonal_bool b)
  | int n => exact .pure (Value.isImpersonal_int n)
  | float x => exact .pure (Value.isImpersonal_float x)

omit hframe in
theorem expandOwned {text : String} (htext : IsImpersonal text.toList) {owner : SelfBinding}
    (howner : owner.Agrees env other) :
    Alike (self.expandOwned env.config text owner frame)
      (self'.expandOwned env.config text owner frame) fun text => IsImpersonal text.toList := by
  have hbound : (frame.deeper.rebind owner).Agrees env other := by
    rintro _ ⟨⟩
    exact howner
  unfold Evaluator.expandOwned
  split
  · exact .descend (.pure htext) (h.expand_alike hbound false htext)
  · exact .pure htext

theorem reference (hagrees : env.Agrees other) {r : Reference} (hr : r.IsImpersonal) :
    Alike (Eval.reference env self r frame) (Eval.reference (env.withPlayer other) self' r frame)
      Value.IsImpersonal := by
  obtain ⟨hsame, hresolution⟩ := hagrees.resolve hframe hr
  cases hres : (r.resolve env frame).resolution with
  | plain value =>
    have hvalue : value.IsImpersonal := by rw [hres] at hresolution; exact hresolution
    by_cases hmissing : (r.resolve env frame).unresolved
    · simp only [Eval.reference, hsame, hmissing, hres, if_true]
      exact (Alike.record _).bind fun _ _ => .pure hvalue
    · simp only [Eval.reference, hsame, hmissing, hres]
      exact .pure hvalue
  | template text owner =>
    have hshown : Alike (do return Value.text (← self.expandOwned env.config text owner frame))
        (do return Value.text (← self'.expandOwned env.config text owner frame))
        Value.IsImpersonal := by
      rw [hres] at hresolution
      exact (h.expandOwned hresolution.1 hresolution.2).map fun _ ht => ht
    by_cases hmissing : (r.resolve env frame).unresolved
    · simp only [Eval.reference, hsame, hmissing, hres, if_true]
      exact (Alike.record _).bind fun _ _ => hshown
    · simp only [Eval.reference, hsame, hmissing, hres]
      exact hshown

omit h hframe in
theorem aliasValue (name : String) :
    Alike (Eval.aliasValue name) (Eval.aliasValue name) Value.IsImpersonal := by
  refine (Alike.alias? name).bind fun v hv => ?_
  cases v with
  | some value => exact .pure (hv value rfl)
  | none => exact (Alike.record _).bind fun _ _ => .pure Value.isImpersonal_empty

omit h hframe in
theorem isImpersonal_word {text : String} (htext : IsImpersonal text.toList) :
    (Eval.word text frame).IsImpersonal := by
  unfold Eval.word
  split
  · split
    · exact Value.isImpersonal_ofFloat _
    · exact htext
  · exact htext

omit h hframe in
theorem isImpersonal_sum {lhs rhs : Value} (hlhs : lhs.IsImpersonal) (hrhs : rhs.IsImpersonal) :
    (Eval.sum lhs rhs).IsImpersonal := by
  unfold Eval.sum
  split
  · exact Value.isImpersonal_ofFloat _
  · change IsImpersonal (lhs.display ++ rhs.display).toList
    rw [String.toList_append]
    exact hlhs.append hrhs

omit h hframe in
theorem arith (op : ArithOp) {lhs rhs : Value} (hlhs : lhs.IsImpersonal)
    (hrhs : rhs.IsImpersonal) :
    Alike (Eval.arith op lhs rhs) (Eval.arith op lhs rhs) Value.IsImpersonal := by
  cases op with
  | add => exact .pure (isImpersonal_sum hlhs hrhs)
  | sub | mul => exact .pure (Value.isImpersonal_ofFloat _)
  | div =>
    unfold Eval.arith
    dsimp only
    split
    · exact (Alike.record _).bind fun _ _ => .pure (Value.isImpersonal_int 0)
    · exact .pure (Value.isImpersonal_ofFloat _)

/-! ### Conditions and challenges -/

theorem allTrue {items : List Expr} (hitems : ∀ e ∈ items, e.IsImpersonal) :
    Alike (Eval.allTrue self frame items) (Eval.allTrue self' frame items) fun _ => True := by
  induction items with
  | nil => exact .pure trivial
  | cons e rest ih =>
    obtain ⟨he, hrest⟩ := List.forall_mem_cons.mp hitems
    refine (h.expr_alike hframe he).bind fun v _ => ?_
    split
    · exact ih hrest
    · exact .pure trivial

theorem anyTrue {items : List Expr} (hitems : ∀ e ∈ items, e.IsImpersonal) :
    Alike (Eval.anyTrue self frame items) (Eval.anyTrue self' frame items) fun _ => True := by
  induction items with
  | nil => exact .pure trivial
  | cons e rest ih =>
    obtain ⟨he, hrest⟩ := List.forall_mem_cons.mp hitems
    refine (h.expr_alike hframe he).bind fun v _ => ?_
    split
    · exact .pure trivial
    · exact ih hrest

theorem parameter {given : Option Expr} (hgiven : ∀ e ∈ given, e.IsImpersonal) (default : Float) :
    Alike (Eval.parameter self given default frame) (Eval.parameter self' given default frame)
      fun _ => True := by
  cases given with
  | none => exact .pure trivial
  | some e => exact h.number hframe (hgiven e rfl)

omit h hframe in
theorem defaultMargin (hmargin : env.config.margin.IsBuiltIn) (target : Float) :
    Alike (Eval.defaultMargin env self target frame)
      (Eval.defaultMargin (env.withPlayer other) self' target frame) fun _ => True := by
  change Alike (Eval.defaultMargin env self target frame)
    (Eval.defaultMargin env self' target frame) fun _ => True
  unfold Eval.defaultMargin
  cases hpolicy : env.config.margin with
  | fixed margin | multiple factor => exact .pure trivial
  | expression source =>
    rw [hpolicy] at hmargin
    exact hmargin.elim

theorem chance {c : Challenge} (hc : ∀ e ∈ c.parts, e.IsImpersonal) (skill target margin : Float) :
    let rest (self : Evaluator) : EvalM Float := do
      let minCap ← Eval.parameter self c.minCap env.config.minCap frame
      let maxCap ← Eval.parameter self c.maxCap env.config.maxCap frame
      let pivot ← Eval.parameter self c.pivot env.config.pivot frame
      if margin ≤ 0 then EvalM.record (.stepMargin margin c.direction target)
      match Challenge.chance? c.direction skill target ⟨margin, minCap, maxCap, pivot⟩ with
      | some percent => return percent
      | none => throw .unorderedCaps
    Alike (rest self) (rest self') fun _ => True := by
  obtain ⟨-, -, -, hmin, hmax, hpivot⟩ := Challenge.forall_mem_parts.mp hc
  refine (h.parameter hframe hmin _).bind fun minCap _ => ?_
  refine (h.parameter hframe hmax _).bind fun maxCap _ => ?_
  refine (h.parameter hframe hpivot _).bind fun pivot _ => ?_
  have hcapped : ∀ chance : Option Float, Alike
      (match chance with
        | some percent => pure percent
        | none => throw .unorderedCaps : EvalM Float)
      (match chance with
        | some percent => pure percent
        | none => throw .unorderedCaps) fun _ => True := by
    intro chance
    cases chance with
    | some percent => exact .pure trivial
    | none => exact .throw _
  dsimp only
  split
  · exact (Alike.record _).bind fun _ _ => hcapped _
  · exact hcapped _

theorem challengePercent (hmargin : env.config.margin.IsBuiltIn) {c : Challenge}
    (hc : ∀ e ∈ c.parts, e.IsImpersonal) :
    Alike (Eval.challengePercent env self c frame)
      (Eval.challengePercent (env.withPlayer other) self' c frame) fun _ => True := by
  obtain ⟨hsubject, htarget, hgiven, -⟩ := Challenge.forall_mem_parts.mp hc
  unfold Eval.challengePercent
  refine (h.number hframe hsubject).bind fun skill _ => ?_
  refine (h.number hframe htarget).bind fun target _ => ?_
  have hinner : (frame.withTarget target).Agrees env other := hframe
  cases hmarginGiven : c.margin with
  | none => exact (defaultMargin hmargin target).bind fun margin _ => h.chance hinner hc _ _ margin
  | some e =>
    exact (h.number hinner (hgiven e hmarginGiven)).bind fun margin _ => h.chance hinner hc _ _ margin

theorem challenge (hmargin : env.config.margin.IsBuiltIn) {c : Challenge}
    (hc : ∀ e ∈ c.parts, e.IsImpersonal) :
    Alike (Eval.challenge env self c frame) (Eval.challenge (env.withPlayer other) self' c frame)
      Value.IsImpersonal := by
  refine (h.challengePercent hframe hmargin hc).bind fun percent _ => ?_
  split
  · have hdraw : Alike (EvalM.draw (Randomness.percent env.attempts))
        (EvalM.draw (Randomness.percent env.attempts)) fun _ => True :=
      .draw fun _ _ _ _ => trivial
    exact hdraw.map fun _ _ => Value.isImpersonal_bool _
  · exact .pure (Value.isImpersonal_int _)

omit h hframe in
theorem range (lo hi : Int64) :
    Alike (Eval.range env lo hi) (Eval.range (env.withPlayer other) lo hi) Value.IsImpersonal := by
  have hdraw (lo hi : Int64) : Alike (EvalM.draw (between env.attempts lo hi))
      (EvalM.draw (between env.attempts lo hi)) fun _ => True :=
    .draw fun _ _ _ _ => trivial
  exact (hdraw _ _).map fun _ _ => Value.isImpersonal_int _

/-! ### Effects -/

theorem amount {given : Option Expr} (hgiven : ∀ e ∈ given, e.IsImpersonal) :
    Alike (Eval.amount self given frame) (Eval.amount self' given frame) Value.IsImpersonal := by
  cases given with
  | none => exact .pure (Value.isImpersonal_int 1)
  | some e => exact h.expr_alike hframe (hgiven e rfl)

theorem description {given : Option String} (hgiven : ∀ d ∈ given, IsImpersonal d.toList) :
    Alike (Eval.description self given frame) (Eval.description self' given frame)
      fun _ => True := by
  cases given with
  | none => exact .pure trivial
  | some text => exact (h.expand_alike hframe false (hgiven text rfl)).map fun _ _ => trivial

omit h in
theorem aims {target : EffectTarget} (htarget : target.IsImpersonal) :
    Alike (Eval.aims env frame target) (Eval.aims (env.withPlayer other) frame target)
      fun list => ∀ aim ∈ list, aim.Agrees env other := by
  change Alike (Eval.aims env frame target) (Eval.aims env frame target) _
  cases target with
  | category name => exact htarget.elim
  | quality r =>
    obtain ⟨scope, id, property⟩ := r
    cases scope with
    | player => exact absurd rfl htarget.scope
    | world => exact .pure (List.forall_mem_singleton.mpr fun _ hworld => absurd rfl hworld)
    | self =>
      unfold Eval.aims
      cases hself : frame.self with
      | none => exact (Alike.record _).bind fun _ _ => .pure fun _ hmem => nomatch hmem
      | some binding =>
        refine .pure (List.forall_mem_singleton.mpr fun hholding _ => ?_)
        have hsame := (hframe binding hself).same
        rw [Option.map_eq_none_iff] at hholding
        rw [hholding] at hsame
        exact hsame

theorem effectsFrom {list : List EffectExpr}
    (hlist : ∀ e ∈ list, e.IsImpersonal ∧ ∀ p ∈ e.parts, p.IsImpersonal) (p : Eval.Progress) :
    Alike (Eval.effectsFrom env self frame p list)
      (Eval.effectsFrom (env.withPlayer other) self' frame p list) fun _ => True := by
  induction list generalizing p with
  | nil => exact .pure trivial
  | cons e rest ih =>
    obtain ⟨⟨he, hparts⟩, hrest⟩ := List.forall_mem_cons.mp hlist
    have hamount : ∀ e' ∈ e.amount, e'.IsImpersonal := fun e' he' =>
      hparts e' (Option.mem_toList.mpr he')
    refine (h.amount hframe hamount).bind fun amount _ => ?_
    refine (h.description hframe he.notes).bind fun description _ => ?_
    refine (aims hframe he.target).bind fun list hlist => ?_
    have hadded : list.foldl (fun p aim => p.add (env.withPlayer other) e amount description aim) p =
        list.foldl (fun p aim => p.add env e amount description aim) p :=
      List.foldl_ext _ _ _ fun p aim haim => (hlist aim haim).add_withPlayer p e amount description
    rw [hadded]
    exact ih hrest _

theorem effects {list : List EffectExpr} (hlist : (Expr.effect list).IsImpersonal) :
    Alike (Eval.effects env self list frame) (Eval.effects (env.withPlayer other) self' list frame)
      fun _ => True := by
  have hall : ∀ e ∈ list, e.IsImpersonal ∧ ∀ p ∈ e.parts, p.IsImpersonal := fun e he =>
    ⟨hlist.head e he, fun p hp => hlist.part (List.mem_flatMap.mpr ⟨e, he, hp⟩)⟩
  exact (h.effectsFrom hframe hall .start).map fun _ _ => trivial

/-! ### Expressions and templates -/

theorem expr (hagrees : env.Agrees other) {e : Expr} (he : e.IsImpersonal) :
    Alike (Eval.expr env self e frame) (Eval.expr (env.withPlayer other) self' e frame)
      Value.IsImpersonal := by
  have hpart {p : Expr} (hp : p ∈ e.parts) : p.IsImpersonal := he.part hp
  cases e with
  | literal value => exact h.literal hframe he
  | ref r => exact h.reference hframe hagrees he.head
  | aliasName name => exact aliasValue name
  | word text => exact .pure (isImpersonal_word he.head)
  | call c => exact he.head.elim
  | neg inner =>
    exact (h.number hframe (hpart (.head _))).map fun _ _ => Value.isImpersonal_ofFloat _
  | not inner =>
    exact (h.expr_alike hframe (hpart (.head _))).map fun _ _ => Value.isImpersonal_bool _
  | arith op lhs rhs =>
    refine (h.expr_alike hframe (hpart (.head _))).bind fun x hx => ?_
    exact (h.expr_alike hframe (hpart (.tail _ (.head _)))).bind fun y hy => arith op hx hy
  | compare op lhs rhs =>
    refine (h.expr_alike hframe (hpart (.head _))).bind fun x _ => ?_
    exact (h.expr_alike hframe (hpart (.tail _ (.head _)))).map fun _ _ => Value.isImpersonal_bool _
  | and items => exact (h.allTrue hframe fun _ => hpart).map fun _ _ => Value.isImpersonal_bool _
  | or items => exact (h.anyTrue hframe fun _ => hpart).map fun _ _ => Value.isImpersonal_bool _
  | challenge c => exact h.challenge hframe hagrees.margin fun _ => hpart
  | effect list => exact (h.effects hframe he).map fun _ _ => Value.isImpersonal_effect _
  | range lo hi =>
    refine (h.number hframe (hpart (.head _))).bind fun x _ => ?_
    exact (h.number hframe (hpart (.tail _ (.head _)))).bind fun y _ => range _ _

theorem blockText {content : String} (hcontent : IsImpersonal content.toList) :
    Alike (Eval.blockText env self content frame)
      (Eval.blockText (env.withPlayer other) self' content frame)
      fun text => IsImpersonal text.toList := by
  have hdeeper : frame.deeper.Agrees env other := hframe
  refine (h.content_alike hframe .inText hcontent).bind fun o ho => ?_
  have htext : IsImpersonal o.value.display.toList := ho
  dsimp only
  split
  · exact .pure htext
  · exact .descend (.pure htext) (h.expand_alike hdeeper false htext)

theorem segments {template : Template}
    (htemplate : ∀ segment ∈ template, IsImpersonal segment.text.toList) :
    Alike (Eval.segments env self frame template)
      (Eval.segments (env.withPlayer other) self' frame template)
      fun text => IsImpersonal text.toList := by
  induction template with
  | nil => exact .pure .nil
  | cons segment rest ih =>
    obtain ⟨hsegment, hrest⟩ := List.forall_mem_cons.mp htemplate
    have happend {a b : String} (ha : IsImpersonal a.toList) (hb : IsImpersonal b.toList) :
        IsImpersonal (a ++ b).toList := by
      rw [String.toList_append]
      exact ha.append hb
    cases segment with
    | literal text => exact (ih hrest).map fun _ hafter => happend hsegment hafter
    | block content =>
      refine (h.blockText hframe hsegment).bind fun text htext => ?_
      exact (ih hrest).map fun _ hafter => happend htext hafter

theorem expand (quotesKept : Bool) {input : String} (hinput : IsImpersonal input.toList) :
    Alike (Eval.expand env self quotesKept input frame)
      (Eval.expand (env.withPlayer other) self' quotesKept input frame)
      fun text => IsImpersonal text.toList := by
  have htemplate : ∀ segment ∈ (scan quotesKept input).1, IsImpersonal segment.text.toList :=
    fun _ => isImpersonal_of_mem_scan hinput
  have hsegments := h.segments hframe htemplate
  unfold Eval.expand
  split
  · dsimp only
    split
    · exact (Alike.record _).bind fun _ _ => hsegments
    · exact hsegments
  · exact .pure hinput

end Level

theorem step (h : Twins env other self self') (hagrees : env.Agrees other) :
    Twins env other (self.step env) (self'.step (env.withPlayer other)) := by
  intro t frame ht hframe
  cases t with
  | content mode input => exact h.content hframe mode ht
  | leaf input =>
    simp only [Evaluator.run, Evaluator.step, Task.Impersonally]
    exact h.leaf hframe ht
  | expr e => exact h.expr hframe hagrees ht
  | expand quotesKept input => exact h.expand hframe quotesKept ht

end Evaluator.Twins

/-- By induction on how deep the evaluators nest. -/
theorem twins_evaluator (hagrees : env.Agrees other) (fuel : Nat) :
    Evaluator.Twins env other (evaluator env fuel) (evaluator (env.withPlayer other) fuel) := by
  induction fuel with
  | zero =>
    intro t frame _ _
    cases t <;> exact .throw _
  | succ fuel ih => exact ih.step hagrees

/-! ## Texts of the world -/

/-- The texts of content and world ask for nothing of the player but through `$.`. Then a template
that does so too gives the same text and the same diagnostics with two players who hold the same of
every quality that is defined and has no state in the world. -/
theorem Engine.world_text_ignores_player (engine : Engine) (fuel : Nat) (template : String)
    (player other : States) (world : Option States) (options : CallOptions)
    (htemplate : IsImpersonal template.toList) (hself : options.self = none)
    (hmargin : engine.config.margin.IsBuiltIn)
    (hdefinitions : ∀ id d, engine.registry.quality? id = some d → d.IsImpersonal)
    (hworld : ∀ id s, (world.getD .empty).get? id = some s → s.holding.IsImpersonal)
    (hplayers : ∀ id d, engine.registry.quality? id = some d → (world.getD .empty).get? id = none →
      player.get? id = other.get? id ∧ ∀ s, player.get? id = some s → s.holding.IsImpersonal) :
    engine.evaluateText fuel template ⟨player, world⟩ options =
      engine.evaluateText fuel template ⟨other, world⟩ options := by
  have hagrees : (engine.env fuel ⟨player, world⟩).Agrees other :=
    ⟨hmargin, hdefinitions, hworld, hplayers⟩
  have hframe : (Frame.new options.depth options.self).Agrees
      (engine.env fuel ⟨player, world⟩) other := by
    intro binding hbinding
    rw [Frame.new, hself] at hbinding
    cases hbinding
  have halike := (twins_evaluator hagrees fuel).expand_alike hframe false htemplate
  obtain ⟨hsame, -⟩ := halike (.fresh (options.source.getD engine.fallbackSource))
    fun _ hmem => nomatch hmem
  exact congrArg (fun ended => (⟨ended.1, ended.2⟩ : Evaluation String)) hsame.symm

/-- With a state in the world `$.` reads that state, whatever the player holds. -/
theorem Engine.world_text_ignores_player_of_coins :
    let gold : Definition :=
      { Definition.new "gold" with kind := .item, description := "You have \x7b$.\x7d coins." }
    let engine : Engine := ⟨(Library.ofLists [gold] []).registry, .default, .zeros⟩
    let world := States.ofList [.new "gold" (.item 3)]
    let evaluate (player : States) :=
      engine.evaluateText 9 "\x7b#gold.description\x7d" ⟨player, some world⟩ .none
    evaluate (States.ofList [.new "gold" (.item 5)]) = evaluate .empty ∧
      (evaluate .empty).result.toOption = some "You have 3 coins." := by
  intro gold engine world evaluate
  have hdefined {id : String} {d : Definition} (h : engine.registry.quality? id = some d) :
      gold.id = id ∧ d = gold := by
    obtain ⟨hmem, hid⟩ := Table.get?_eq_some_iff.mp h
    obtain rfl := List.mem_singleton.mp hmem
    exact ⟨hid, rfl⟩
  have hheld {id : String} {s : State} (h : world.get? id = some s) :
      s = .new "gold" (.item 3) := by
    obtain ⟨entry, hentry, rfl⟩ := Option.map_eq_some_iff.mp h
    rw [List.mem_singleton.mp (mem_of_withKey? hentry)]
  have hgold : gold.IsImpersonal := ⟨by decide, by decide, by decide, by decide⟩
  refine ⟨world_text_ignores_player engine 9 _ _ _ (some world) .none (by decide) rfl trivial
    (fun id d h => (hdefined h).2 ▸ hgold) (fun id s h => hheld h ▸ .nil) (fun id d h hnone => ?_),
    by decide +kernel⟩
  obtain ⟨rfl, rfl⟩ := hdefined h
  cases hnone

/-- Without a state in the world `$.` reads the player's state in a text of the world. -/
theorem Engine.world_text_reads_player :
    let gold : Definition :=
      { Definition.new "gold" with kind := .item, description := "You have \x7b$.\x7d coins." }
    let engine : Engine := ⟨(Library.ofLists [gold] []).registry, .default, .zeros⟩
    let world := States.ofList [.new "x" (.counter 1)]
    let evaluate (player : States) :=
      engine.evaluateText 9 "\x7b#gold.description\x7d" ⟨player, some world⟩ .none
    gold.IsImpersonal ∧
      (evaluate (States.ofList [.new "gold" (.item 5)])).result.toOption =
        some "You have 5 coins." ∧
      (evaluate .empty).result.toOption = some "You have 0 coins." := by
  intro gold engine world evaluate
  exact ⟨⟨by decide, by decide, by decide, by decide⟩, by decide +kernel, by decide +kernel⟩

end QualityScript
