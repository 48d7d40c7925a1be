import QualityScript.Proofs.Evaluation.Chances
import QualityScript.Proofs.Evaluation.Entries
import QualityScript.Proofs.Evaluation.Sequence

/-!
# Straight scripts

To try a script once tells little of the parts that the run passed by: results of a chain, options of
a choice, items of a condition after the first one. A script is straight if nothing can be wrong with
such parts. They are plain, they are about qualities that are defined, and they show no template. In a
straight script no text of a block is put into a longer expression either, for what is then read
depends on the text.

So where the first run of a straight script, without states, reports nothing but braces, no other run
meets a fault.
-/

namespace QualityScript

open Quality Content Text

/-- Whether every run comes to a part of a script, or some pass it by. -/
inductive Visit where
  | always
  | sometimes

/-- Whether an effect changes the quality that is shown. -/
def EffectTarget.IsSelf : EffectTarget → Prop
  | .quality reference => reference.scope = .self
  | .category _ => False

/-- A task of a straight script, by how it is visited and which quality is bound. -/
inductive IsStraight (registry : Registry) : Visit → Option String → Task → Prop where
  | plain {visit bound input} :
      hasBrace input = false → IsStraight registry visit bound (.expand false input)
  | template {bound input} :
      (scan false input).2 = [] →
      (∀ content, .block content ∈ (scan false input).1 →
        IsStraight registry .always bound (.content .inText content)) →
      IsStraight registry .always bound (.expand false input)
  /-- All blocks stand in quotes. -/
  | kept {bound input} :
      (scan true input).1.blocks = [] → IsStraight registry .always bound (.expand true input)
  | empty {bound mode input} :
      Block.classify input = .empty → IsStraight registry .always bound (.content mode input)
  | assign {bound mode input name expression} :
      Block.classify input = .assign name expression →
      IsStraight registry .always bound (.content .standalone expression) →
      IsStraight registry .always bound (.content mode input)
  | conditional {bound mode input first rest} :
      Block.classify input = .conditional (first :: rest) →
      (∀ condition ∈ first.condition, IsStraight registry .always bound (.leaf condition)) →
      (∀ branch ∈ rest, ∀ condition ∈ branch.condition,
        IsStraight registry .sometimes bound (.leaf condition)) →
      (∀ branch ∈ first :: rest, IsStraight registry .sometimes bound (.leaf branch.result)) →
      IsStraight registry .always bound (.content mode input)
  | choice {bound mode input options} :
      Block.classify input = .choice options →
      (∀ option ∈ options, IsStraight registry .sometimes bound (.leaf option)) →
      IsStraight registry .always bound (.content mode input)
  | source {bound mode input source} :
      Block.classify input = .leaf source → IsStraight registry .always bound (.leaf source) →
      IsStraight registry .always bound (.content mode input)
  /-- A leaf that is one block. -/
  | nested {bound input inner} :
      Eval.nestedBlock? (trimmed input) = some inner →
      IsStraight registry .always bound (.content .standalone inner) →
      IsStraight registry .always bound (.leaf input)
  /-- A leaf that is no expression. Where runs pass it by it must not look like one. -/
  | prose {visit bound input} :
      hasBrace (trimmed input) = false →
      (∀ e, Expr.parse (trimmed input) = .ok e → e.readsAsProse) →
      (visit = .sometimes → ∀ error, Expr.parse (trimmed input) = .error error →
        looksLikeScript (trimmed input).toList = false) →
      IsStraight registry visit bound (.leaf input)
  | expression {visit bound input e} :
      hasBrace (trimmed input) = false → Expr.parse (trimmed input) = .ok e →
      e.readsAsProse = false → IsStraight registry visit bound (.expr e) →
      IsStraight registry visit bound (.leaf input)
  /-- An expression with templates in quotes. -/
  | quoting {bound input e} :
      Eval.nestedBlock? (trimmed input) = none →
      IsStraight registry .always bound (.expand true (trimmed input)) →
      Expr.parse (trimmed input) = .ok e → e.readsAsProse = false →
      IsStraight registry .always bound (.expr e) → IsStraight registry .always bound (.leaf input)
  | literal {visit bound value} :
      (∀ text, value = .text text → hasBrace text = false) →
      IsStraight registry visit bound (.expr (.literal value))
  | quoted {bound text} :
      hasBlocks text → IsStraight registry .always bound (.expand false text) →
      IsStraight registry .always bound (.expr (.literal (.text text)))
  | ref {bound r} : IsStraight registry .always bound (.expr (.ref r))
  /-- A reference to a quality that is defined and has no block in what it shows. -/
  | defined {bound r id d} :
      r.owner? bound = some id → registry.quality? id = some d →
      (∀ text ∈ d.shown? r.property, hasBrace text = false) →
      IsStraight registry .sometimes bound (.expr (.ref r))
  | aliasName {bound name} : IsStraight registry .always bound (.expr (.aliasName name))
  | word {visit bound text} :
      hasBrace text = false → IsStraight registry visit bound (.expr (.word text))
  /-- Of the items of a condition only the first is evaluated by every run. -/
  | items {visit bound e first rest} :
      e = .and (first :: rest) ∨ e = .or (first :: rest) →
      IsStraight registry visit bound (.expr first) →
      (∀ item ∈ rest, IsStraight registry .sometimes bound (.expr item)) →
      IsStraight registry visit bound (.expr e)
  /-- All qualities of a category are listed by every run. -/
  | list {bound category separator} :
      IsStraight registry .always bound (.expr (.call (.list category separator none)))
  /-- A filter lets different qualities through, so no name shows a template. -/
  | filtered {visit bound category separator filter} :
      (∀ e ∈ filter, ∀ d ∈ registry.inCategory category,
        IsStraight registry visit (some d.id) (.expr e)) →
      (∀ d ∈ registry.inCategory category, hasBrace d.name = false) →
      IsStraight registry visit bound (.expr (.call (.list category separator filter)))
  | uniform {visit bound e} :
      e.IsUniform → (∀ part ∈ e.ownParts, IsStraight registry visit bound (.expr part)) →
      (∀ found ∈ e.filter?, ∀ d ∈ registry.inCategory found.1,
        IsStraight registry visit (some d.id) (.expr found.2)) →
      (∀ text ∈ e.descriptions, IsStraight registry visit bound (.expand false text)) →
      (visit = .sometimes → ∀ target ∈ e.targets, target.IsSelf → bound.isSome) →
      IsStraight registry visit bound (.expr e)

namespace Eval

def shown (config : Config) (self : Evaluator) (frame : Frame) : Resolution → EvalM Value
  | .plain value => return value
  | .template text owner => return .text (← self.expandOwned config text owner frame)

theorem reference_eq (env : Env) (self : Evaluator) (r : Reference) (frame : Frame) :
    reference env self r frame =
      if (r.resolve env frame).unresolved then do
        EvalM.record (.unresolved r)
        shown env.config self frame (r.resolve env frame).resolution
      else shown env.config self frame (r.resolve env frame).resolution := by
  cases hres : (r.resolve env frame).resolution <;> simp only [reference, hres] <;> rfl

end Eval

/-! ## Runs that report nothing -/

/-- A memory that is silent after a task was so before it. -/
def Evaluator.IsSilent (self : Evaluator) : Prop :=
  ∀ (t : Task) (frame : Frame), Still False (self.run t frame) fun _ => True

theorem isSilent_evaluator (env : Env) (fuel : Nat) : (evaluator env fuel).IsSilent := by
  refine fun t frame => ⟨fun mem a mem' hrun hsilent => ?_, fun hfalse => hfalse.elim⟩
  obtain ⟨hlater, -⟩ := env.answers (.nothing env) fuel t mem (Kept.at_nothing mem frame) hrun
  exact hsilent.of_later hlater

namespace Evaluator.IsSilent

variable {self : Evaluator} (h : self.IsSilent)

include h

theorem expandOwned (config : Config) (text : String) (owner : SelfBinding) (frame : Frame) :
    Still False (self.expandOwned config text owner frame) fun _ => True := by
  unfold Evaluator.expandOwned
  split
  · exact .descend id (.pure fun _ => trivial) (h (.expand false text) _)
  · exact .pure fun _ => trivial

theorem shown (config : Config) (frame : Frame) (resolution : Resolution) :
    Still False (Eval.shown config self frame resolution) fun _ => True := by
  cases resolution with
  | plain value => exact .pure fun _ => trivial
  | template text owner =>
    exact (h.expandOwned config text owner frame).bind fun _ => .pure fun _ => trivial

theorem reference (env : Env) (r : Reference) (frame : Frame) :
    Still False (Eval.reference env self r frame) fun _ => True := by
  rw [Eval.reference_eq]
  split
  · exact .bind (.record fun hfalse => hfalse.elim) fun _ =>
      (h.shown env.config frame _).mono And.left
  · exact h.shown env.config frame _

end Evaluator.IsSilent

/-! ## Parts that are still -/

section

variable {p : Prop} {env : Env} {self : Evaluator} {frame : Frame}

theorem still_aims {target : EffectTarget} (hself : p → target.IsSelf → frame.self.isSome) :
    Still p (Eval.aims env frame target) fun _ => True := by
  cases target with
  | category name =>
    by_cases hempty : (env.registry.inCategory name).isEmpty
    · simp only [Eval.aims, hempty, if_true]
      exact .noted (by simp [Problem.kind, DiagnosticKind.IsFault]) (.pure fun _ => trivial)
    · simp only [Eval.aims, hempty]
      exact .pure fun _ => trivial
  | quality r =>
    simp only [Eval.aims]
    split
    · exact .pure fun _ => trivial
    · next hscope hnone =>
      refine (Still.record fun hp => ?_).bind fun _ => .pure fun _ => trivial
      have hsome := hself hp hscope
      rw [hnone] at hsome
      cases hsome
    · exact .pure fun _ => trivial

variable (h : self.IsSilent)

include h

theorem Evaluator.IsSilent.still_expandOwned {config : Config} {text : String}
    {owner : SelfBinding} (htext : p → hasBrace text = false) :
    Still p (self.expandOwned config text owner frame) fun text => hasBrace text = false := by
  by_cases hp : p
  · simp only [Evaluator.expandOwned, htext hp]
    exact .pure htext
  · exact .of_not hp (h.expandOwned _ _ _ _)

theorem Evaluator.IsSilent.still_displayName {id : String} (hid : p → hasBrace id = false)
    (hname : p → ∀ d, env.registry.quality? id = some d → hasBrace d.name = false) :
    Still p (Eval.displayName env self frame id) fun name => hasBrace name = false := by
  unfold Eval.displayName
  cases hd : env.registry.quality? id with
  | none => exact .pure hid
  | some d =>
    dsimp only
    split
    · exact .pure hid
    · exact h.still_expandOwned fun hp => hname hp d hd

theorem Evaluator.IsSilent.still_reference {r : Reference}
    (hfound : p → (r.resolve env frame).unresolved = false)
    (hshown : p → (r.resolve env frame).resolution.IsUnbraced) :
    Still p (Eval.reference env self r frame) Value.IsUnbraced := by
  by_cases hp : p
  case neg => exact .of_not hp (h.reference env r frame)
  have hshown := hshown hp
  rw [Eval.reference_eq, if_neg (by simp [hfound hp])]
  cases hres : (r.resolve env frame).resolution with
  | plain value =>
    rw [hres] at hshown
    exact .pure fun _ => hshown
  | template text owner =>
    rw [hres] at hshown
    exact (h.still_expandOwned fun _ => hshown).bind fun _ => .pure And.right

end

namespace Reference

variable {registry : Registry} {id : String} {state : Option State} {property : Property}
  {d : Definition}

theorem isUnbraced_of_quality? (hd : registry.quality? id = some d)
    (hshown : ∀ text ∈ d.shown? property, hasBrace text = false)
    (hstate : ∀ s ∈ state, s.holding.IsUnbraced) :
    (resolveQuality registry id state property).resolution.IsUnbraced := by
  cases htext : d.shown? property with
  | some text =>
    rw [resolution_of_shown? hd htext]
    exact hshown text htext
  | none => exact isUnbraced_of_shown? hd htext hstate

end Reference

/-! ## Parts of straight scripts -/

namespace Company

variable {ι : Type} (C : Company ι)

def one (i : ι) : Company Unit where
  registry := C.registry
  config := C.config
  env _ := C.env i
  held _ := C.held i
  registry_env _ := C.registry_env i
  config_env _ := C.config_env i
  margin := C.margin
  members := C.members
  ids := C.ids
  holds _ := C.holds i
  unbraced _ := C.unbraced i

variable {C} {bound : Option String} {frame : ι → Frame}

theorem Binds.one (h : C.Binds bound frame) (i : ι) : (C.one i).Binds bound fun _ => frame i :=
  ⟨fun _ => h.binds i, fun _ _ => rfl⟩

end Company

namespace Lockstep

variable {ι : Type} {L : Lockstep ι} {C : Company ι} {S : Option String → Task → Prop}
  {self : ι → Evaluator} {p : Prop} {bound : Option String} {frame : ι → Frame}

theorem plain {input : String} (hinput : hasBrace input = false) :
    L.rel p (fun i => Eval.expand (C.env i) (self i) false input (frame i))
      fun text => hasBrace text = false := by
  simp only [Eval.expand, hinput]
  exact L.pure fun _ _ => hinput

theorem literal {value : Literal} (hvalue : ∀ text, value = .text text → hasBrace text = false) :
    L.rel p (fun i => Eval.expr (C.env i) (self i) (.literal value) (frame i))
      Value.IsUnbraced := by
  cases value with
  | text text =>
    have htext := hvalue text rfl
    simp only [Eval.expr, Eval.literal, hasBlocks_of_hasBrace htext]
    exact L.pure fun _ _ => htext
  | bool b => exact L.pure fun _ _ => Value.isUnbraced_bool b
  | int n => exact L.pure fun _ _ => Value.isUnbraced_int n
  | float x => exact L.pure fun _ _ => Value.isUnbraced_float x

theorem word {text : String} (htext : hasBrace text = false) :
    L.rel p (fun i => Eval.expr (C.env i) (self i) (.word text) (frame i)) Value.IsUnbraced :=
  L.pure fun _ i => isUnbraced_word htext (frame i)

variable (h : L.Follows C S self) (hframe : p → C.Binds bound frame)

include h hframe

theorem Follows.bare {input : String} (hinput : hasBrace (trimmed input) = false)
    (hexpr : p → ∀ e, Expr.parse (trimmed input) = .ok e → e.readsAsProse = false →
      S bound (.expr e))
    (hfault : ∀ error, Expr.parse (trimmed input) = .error error →
      looksLikeScript (trimmed input).toList →
        L.rel p (fun _ => EvalM.record (.noExpression error (trimmed input))) fun _ => True) :
    L.rel p (fun i => Eval.leaf (C.env i) (self i) input (frame i))
      fun o => o.value.IsUnbraced := by
  simp only [Eval.leaf, Eval.nestedBlock?_of_hasBrace hinput, Eval.expandNested, hinput,
    Bool.false_eq_true, if_false, pure_bind]
  exact h.expression hframe hexpr (fun _ _ => hinput) hfault

theorem Follows.list (hsilent : ∀ i, (self i).IsSilent) {category : String}
    {separator : Separator} {filter : Option Expr}
    (hfilter : p → ∀ e ∈ filter, ∀ d ∈ C.registry.inCategory category, S (some d.id) (.expr e))
    (hnames : p → ∀ d ∈ C.registry.inCategory category, hasBrace d.name = false) :
    L.rel p
      (fun i => Eval.expr (C.env i) (self i) (.call (.list category separator filter)) (frame i))
      Value.IsUnbraced := by
  refine L.bind (h.candidates hframe hfilter) fun ids => L.of_still fun i => ?_
  refine (alone.mapM (p := p ∧ _) (f := fun _ => Eval.displayName (C.env i) (self i) (frame i))
    fun id hid => ?_).bind fun names => .pure fun hnames => hasBrace_join separator hnames.2
  refine (hsilent i).still_displayName (fun hp => C.hasBrace_id (hp.2 i id hid)) fun hp d hd => ?_
  obtain ⟨d', hd', rfl⟩ := List.mem_map.mp (hp.2 i id hid)
  have hmember := C.members category d' hd'
  rw [C.registry_env, hmember] at hd
  exact Option.some.inj hd ▸ hnames hp.1 d' hd'

end Lockstep

/-! ## What may be passed by -/

open Lockstep

section

variable {C : Company Unit} {self : Unit → Evaluator} {p : Prop} {bound : Option String}
  {frame : Unit → Frame} (h : alone.Follows C (IsStraight C.registry .sometimes) self)
  (hframe : p → C.Binds bound frame)

include h hframe

theorem alone_leaf {input : String} (hs : IsStraight C.registry .sometimes bound (.leaf input)) :
    alone.rel p (fun i => Eval.leaf (C.env i) (self i) input (frame i))
      fun o => o.value.IsUnbraced := by
  cases hs with
  | prose hinput hreads hscript =>
    refine h.bare hframe hinput (fun _ e he hnot => ?_) fun error herror hlooks => ?_
    · rw [hreads e he] at hnot
      cases hnot
    · rw [hscript rfl error herror] at hlooks
      cases hlooks
  | expression hinput hparse hreads he =>
    refine h.bare hframe hinput (fun _ e' he' _ => ?_) fun error herror => ?_
    · rw [hparse] at he'
      cases he'
      exact he
    · rw [hparse] at herror
      cases herror

theorem alone_expr (hsilent : ∀ i, (self i).IsSilent) {e : Expr}
    (hs : IsStraight C.registry .sometimes bound (.expr e)) :
    alone.rel p (fun i => Eval.expr (C.env i) (self i) e (frame i)) Value.IsUnbraced := by
  cases hs with
  | literal hvalue => exact Lockstep.literal hvalue
  | @defined _ r id d howner hd hshown =>
    by_cases hp : p
    case neg => exact .of_not hp ((hsilent ()).reference (C.env ()) r (frame ()))
    obtain ⟨state, hstate, hresolve⟩ :=
      Reference.resolve_of_owner? (C.holds ()) ((hframe hp).binds ()) howner
    rw [C.registry_env] at hresolve
    refine (hsilent ()).still_reference (fun _ => ?_) fun _ => ?_
    · rw [hresolve]
      exact Reference.unresolved_of_quality? hd
    · rw [hresolve]
      exact Reference.isUnbraced_of_quality? hd hshown fun s hs => C.unbraced () s (hstate s hs)
  | word htext => exact Lockstep.word htext
  | items heq hfirst hrest =>
    exact h.items hframe heq (fun _ => hfirst) fun i item hitem =>
      h.expr hframe fun _ => hrest item hitem
  | filtered hfilter hnames => exact h.list hframe hsilent (fun _ => hfilter) fun _ => hnames
  | uniform he hown hfilter htexts haims =>
    refine h.uniform hframe he (fun _ => hown) (fun _ => hfilter) (fun _ => htexts) ?_
    intro target htarget
    refine still_aims fun hp hself => ?_
    have hbound := haims rfl target htarget hself
    rw [← ((hframe hp).binds ()).id] at hbound
    simpa using hbound

end

/-- A part of a straight script that some runs pass by is still in all others. -/
theorem alone_follows (C : Company Unit) (fuel : Nat) :
    alone.Follows C (IsStraight C.registry .sometimes) fun i => evaluator (C.env i) fuel := by
  induction fuel with
  | zero =>
    intro p bound t frame _ _
    cases t <;> exact alone.of_still fun _ => .throw _
  | succ fuel ih =>
    intro p bound t frame hs hframe
    by_cases hp : p
    case neg => exact .of_not hp (isSilent_evaluator _ _ _ _)
    cases t with
    | content mode input => cases hs hp
    | leaf input =>
      simp only [Evaluator.run, evaluator_leaf]
      exact alone_leaf ih hframe (hs hp)
    | expr e =>
      simp only [Evaluator.run, evaluator_expr]
      exact alone_expr ih hframe (fun _ => isSilent_evaluator _ _) (hs hp)
    | expand kept input =>
      simp only [Evaluator.run, evaluator_expand]
      cases hs hp with
      | plain hinput => exact Lockstep.plain hinput

end QualityScript
