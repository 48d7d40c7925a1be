import QualityScript.Proofs.Evaluation.Straight

/-!
# Scripts that are tried first

A straight script is tried without states, and nothing but braces is reported. Then it is played: what
every run comes to is gone through by both runs side by side, with the same descents and the same
aliases, and what the first run would have reported of it is all that the second could; what runs may
pass by is still in either of them. So in play no text degrades and no reference is unresolved.
-/

namespace QualityScript

open Quality Content Text Randomness Lockstep

namespace Lockstep

variable {ι : Type} {L : Lockstep ι} {C : Company ι} {S : Option String → Task → Prop}
  {self : ι → Evaluator} {p : Prop} {bound : Option String} {frame : ι → Frame}

section

variable (h : L.Follows C S self) (hframe : p → C.Binds bound frame)
  (hsilent : ∀ i, (self i).IsSilent)

include h hframe hsilent

theorem Follows.blockText {content : String} (hs : p → S bound (.content .inText content)) :
    L.rel p (fun i => Eval.blockText (C.env i) (self i) content (frame i))
      fun text => hasBrace text = false := by
  refine L.bind (h.content hframe hs) fun o => L.of_still fun i => ?_
  by_cases hvalue : hasBrace (o i).value.display = false
  · simp only [hvalue, Bool.not_false, Bool.or_true, if_true]
    exact .pure fun _ => hvalue
  · -- The text would be expanded again, but then it is not under `p`.
    have hnot : ¬(p ∧ ∀ i, (o i).value.IsUnbraced) := fun hp => hvalue (hp.2 i)
    dsimp only
    split
    · exact .of_not hnot (.pure fun _ => trivial)
    · exact .descend hnot (.of_not hnot (.pure fun _ => trivial))
        (.of_not hnot (hsilent i (.expand false _) _))

theorem Follows.segments {template : Template}
    (hliterals : ∀ text, .literal text ∈ template → hasBrace text = false)
    (hblocks : p → ∀ content, .block content ∈ template → S bound (.content .inText content)) :
    L.rel p (fun i => Eval.segments (C.env i) (self i) (frame i) template)
      fun text => hasBrace text = false := by
  induction template generalizing p with
  | nil => exact L.pure fun _ _ => rfl
  | cons segment rest ih =>
    have hrest {q : Prop} (hq : q → p) :=
      ih (fun hq' => hframe (hq hq')) (fun text htext => hliterals text (.tail _ htext))
        fun hq' content hcontent => hblocks (hq hq') content (.tail _ hcontent)
    cases segment with
    | literal text =>
      refine L.map (hrest id) fun _ i after hafter => ?_
      rw [hasBrace_append, hliterals text (.head _), hafter]
      rfl
    | block content =>
      refine L.bind (h.blockText hframe hsilent fun hp => hblocks hp content (.head _))
        fun text => ?_
      refine L.map (hrest And.left) fun hp i after hafter => ?_
      rw [hasBrace_append, hp.2 i, hafter]
      rfl

theorem Follows.template {input : String} (herrors : (scan false input).2 = [])
    (hblocks : p → ∀ content, .block content ∈ (scan false input).1 →
      S bound (.content .inText content)) :
    L.rel p (fun i => Eval.expand (C.env i) (self i) false input (frame i))
      fun text => hasBrace text = false := by
  by_cases hbrace : hasBrace input
  · have hliterals (text : String) (htext : .literal text ∈ (scan false input).1) :
        hasBrace text = false :=
      hasBrace_eq_false_iff.mpr (not_mem_of_mem_scanFrom List.not_mem_nil herrors htext)
    simp only [Eval.expand, hbrace, if_true, herrors]
    exact h.segments hframe hsilent hliterals hblocks
  · exact Lockstep.plain (eq_false_of_ne_true hbrace)

end

/-- A text whose blocks all stand in quotes is kept as it is. -/
theorem kept {input : String} (hblocks : (scan true input).1.blocks = []) :
    L.rel p (fun i => Eval.expand (C.env i) (self i) true input (frame i)) (· = input) := by
  refine L.of_still fun i => ?_
  by_cases hbrace : hasBrace input
  · have htemplate : (scan true input).1 = literalPart input.toList.reverse := by
      simpa [scan] using scanFrom_of_blocks hblocks
    have hchars : input.toList ≠ [] := by
      rintro h
      simp [hasBrace, h] at hbrace
    have hsegments : Eval.segments (C.env i) (self i) (frame i) (scan true input).1 =
        Pure.pure input := by
      simp [htemplate, literalPart, hchars, Eval.segments]
    simp only [Eval.expand, hbrace, if_true, hsegments]
    split
    · exact .noted (by simp [Problem.kind, DiagnosticKind.IsFault]) (.pure fun _ => rfl)
    · exact .pure fun _ => rfl
  · simp only [Eval.expand, eq_false_of_ne_true hbrace]
    exact .pure fun _ => rfl

end Lockstep

/-- In the first run there are no states, and whatever is shown is straight. -/
structure Company.Tries (C : Company Side) : Prop where
  bare : ∀ s, ¬C.held .tried s
  shown : ∀ id d, C.registry.quality? id = some d → ∀ property text,
    d.shown? property = some text → IsStraight C.registry .always (some id) (.expand false text)

section

variable {α : Type} {C : Company Side} {self : Side → Evaluator} {p : Prop}
  {bound : Option String} {frame : Side → Frame}

theorem besides_descend (hframe : p → C.Binds bound frame) {snippet : String}
    {f : Side → Option Frame → EvalM α} {post : α → Prop}
    (hnone : Still False (f .tried none) fun _ => True)
    (hsome : besides.rel p (fun i => f i (some (frame i).deeper)) post) :
    besides.rel p (fun i => EvalM.descend (C.env i).config (frame i) snippet >>= f i) post := by
  simp only [C.config_env]
  exact .descend (fun hp => (hframe hp).depth _ _) hnone hsome

variable (h : besides.Follows C (IsStraight C.registry .always) self)
  (hframe : p → C.Binds bound frame) (hsilent : ∀ i, (self i).IsSilent) (hC : C.Tries)

include h hframe

/-! ## References -/

theorem besides_expandOwned {text id : String} {state : Side → Option State}
    (hs : IsStraight C.registry .always (some id) (.expand false text))
    (hstate : p → ∀ i, ∀ s ∈ state i, C.held i s) :
    besides.rel p
      (fun i => (self i).expandOwned (C.env i).config text ⟨id, state i⟩ (frame i))
      fun text => hasBrace text = false := by
  unfold Evaluator.expandOwned
  by_cases hbrace : hasBrace text
  · simp only [hbrace, if_true]
    exact besides_descend hframe (.pure fun _ => trivial) <|
      h.expand (fun hp => (hframe hp).deeper.rebind (hstate hp)) fun _ => hs
  · simp only [hbrace]
    exact besides.pure fun _ _ => eq_false_of_ne_true hbrace

omit h hframe in
include hsilent in
/-- Nothing is asked of a reference that is unresolved where there are no states. -/
theorem besides_unresolved {r : Reference}
    (hmissing : (r.resolve (C.env .tried) (frame .tried)).unresolved = true) :
    besides.rel p (fun i => Eval.reference (C.env i) (self i) r (frame i)) Value.IsUnbraced := by
  change Mirrors p (Eval.reference (C.env .tried) (self .tried) r (frame .tried)) _ _
  rw [Eval.reference_eq, if_pos hmissing]
  exact .report (by simp [Problem.kind]) ((hsilent .tried).shown _ _ _)

include hsilent hC in
theorem besides_reference (r : Reference) :
    besides.rel p (fun i => Eval.reference (C.env i) (self i) r (frame i)) Value.IsUnbraced := by
  by_cases hp : p
  case neg => exact .of_not hp ((hsilent .tried).reference _ r _).silent
  have hbinds := (hframe hp).binds
  cases howner : r.owner? bound with
  | none =>
    refine besides_unresolved hsilent ?_
    rw [Reference.resolve_of_owner?_eq_none (hbinds .tried) howner]
  | some id =>
    have hresolved := fun i => Reference.resolve_of_owner? (C.holds i) (hbinds i) howner
    simp only [C.registry_env] at hresolved
    choose state hstate hresolve using hresolved
    cases hd : C.registry.quality? id with
    | none =>
      have hnone : state .tried = none :=
        Option.eq_none_iff_forall_not_mem.mpr fun s hs => hC.bare s (hstate .tried s hs)
      refine besides_unresolved hsilent ?_
      rw [hresolve, hnone]
      exact Reference.unresolved_of_missing hd
    | some d =>
      cases hshown : d.shown? r.property with
      | some text =>
        simp only [Eval.reference_eq, hresolve, Reference.unresolved_of_quality? hd,
          Reference.resolution_of_shown? hd hshown]
        refine besides.map (besides_expandOwned h hframe ?_ fun _ => hstate)
          fun _ _ _ htext => htext
        exact hC.shown id d hd r.property text hshown
      | none =>
        refine besides.of_still fun i => (hsilent i).still_reference (fun _ => ?_) fun _ => ?_
        · rw [hresolve]
          exact Reference.unresolved_of_quality? hd
        · rw [hresolve]
          exact Reference.isUnbraced_of_shown? hd hshown fun s hs => C.unbraced i s (hstate i s hs)

/-! ## Expressions -/

theorem besides_quoted {text : String} (hblocks : hasBlocks text)
    (hs : IsStraight C.registry .always bound (.expand false text)) :
    besides.rel p (fun i => Eval.expr (C.env i) (self i) (.literal (.text text)) (frame i))
      Value.IsUnbraced := by
  simp only [Eval.expr, Eval.literal, hblocks, if_true]
  exact besides_descend hframe (.pure fun _ => trivial) <|
    besides.map (h.expand (fun hp => (hframe hp).deeper) fun _ => hs) fun _ _ _ htext => htext

include hC in
theorem besides_displayName {id : String} (hid : hasBrace id = false) :
    besides.rel p (fun i => Eval.displayName (C.env i) (self i) (frame i) id)
      fun name => hasBrace name = false := by
  simp only [Eval.displayName, C.registry_env]
  cases hd : C.registry.quality? id with
  | none => exact besides.pure fun _ _ => hid
  | some d =>
    by_cases hempty : d.name.isEmpty
    · simp only [hempty, if_true]
      exact besides.pure fun _ _ => hid
    · simp only [hempty]
      exact besides_expandOwned h hframe (hC.shown id d hd .name d.name rfl)
        fun _ _ _ hs => nomatch hs

include hC in
/-- Both runs list the same names. -/
theorem besides_list (category : String) (separator : Separator) :
    besides.rel p
      (fun i => Eval.expr (C.env i) (self i) (.call (.list category separator none)) (frame i))
      Value.IsUnbraced := by
  simp only [Eval.expr, Eval.call, Eval.candidates, C.registry_env, pure_bind]
  refine besides.map (besides.mapM fun id hid => ?_) fun _ _ _ hnames =>
    hasBrace_join separator hnames
  exact besides_displayName h hframe hC (C.hasBrace_id hid)

omit h in
theorem besides_aims (target : EffectTarget) :
    besides.rel p (fun i => Eval.aims (C.env i) (frame i) target) fun _ => True := by
  by_cases hself : p → target.IsSelf → bound.isSome
  · refine besides.of_still fun i => still_aims fun hp htarget => ?_
    have hbound := hself hp htarget
    rw [← ((hframe hp).binds i).id] at hbound
    simpa using hbound
  · simp only [Classical.not_imp] at hself
    obtain ⟨hp, htarget, hnone⟩ := hself
    cases target with
    | category name => exact htarget.elim
    | quality r =>
      rw [Bool.not_eq_true, Option.isSome_eq_false_iff, Option.isNone_iff_eq_none] at hnone
      have hfree : (frame .tried).self = none :=
        Option.map_eq_none_iff.mp (((hframe hp).binds .tried).id.trans hnone)
      have hscope : r.scope = .self := htarget
      change Mirrors p _ _ _
      simp only [Eval.aims, hscope, hfree]
      exact .report (by simp [Problem.kind]) (.pure fun _ => trivial)

variable (hstill : ∀ i, alone.Follows (C.one i) (IsStraight C.registry .sometimes) fun _ => self i)

include hsilent hC hstill in
theorem besides_expr {e : Expr} (hs : IsStraight C.registry .always bound (.expr e)) :
    besides.rel p (fun i => Eval.expr (C.env i) (self i) e (frame i)) Value.IsUnbraced := by
  cases hs with
  | literal hvalue => exact Lockstep.literal hvalue
  | quoted hblocks hs => exact besides_quoted h hframe hblocks hs
  | @ref _ r => exact besides_reference h hframe hsilent hC r
  | @aliasName _ name => exact Mirrors.aliasValue name
  | word htext => exact Lockstep.word htext
  | items heq hfirst hrest =>
    refine h.items hframe heq (fun _ => hfirst) fun i item hitem => ?_
    exact Follows.expr (hstill i) (fun hp => (hframe hp).one i) fun _ => hrest item hitem
  | list => exact besides_list h hframe hC _ _
  | filtered hfilter hnames => exact h.list hframe hsilent (fun _ => hfilter) fun _ => hnames
  | uniform he hown hfilter htexts _ =>
    exact h.uniform hframe he (fun _ => hown) (fun _ => hfilter) (fun _ => htexts) fun target _ =>
      besides_aims hframe target

/-! ## Leaves -/

omit hframe h in
/-- Nothing is asked of a text that degrades where there are no states. -/
theorem besides_degrade (error : ParseError) (source : String) :
    besides.rel p (fun _ => EvalM.record (.noExpression error source)) fun _ => True :=
  Mirrors.record (by simp [Problem.kind])

theorem besides_nested {input inner : String}
    (hnested : Eval.nestedBlock? (trimmed input) = some inner)
    (hs : IsStraight C.registry .always bound (.content .standalone inner)) :
    besides.rel p (fun i => Eval.leaf (C.env i) (self i) input (frame i))
      fun o => o.value.IsUnbraced := by
  simp only [Eval.leaf, hnested]
  exact besides_descend hframe (.pure fun _ => trivial) <|
    h.content (fun hp => (hframe hp).deeper) fun _ => hs

theorem besides_quoting {input : String} {e : Expr}
    (hnested : Eval.nestedBlock? (trimmed input) = none)
    (hkept : IsStraight C.registry .always bound (.expand true (trimmed input)))
    (hparse : Expr.parse (trimmed input) = .ok e) (hreads : e.readsAsProse = false)
    (he : IsStraight C.registry .always bound (.expr e)) :
    besides.rel p (fun i => Eval.leaf (C.env i) (self i) input (frame i))
      fun o => o.value.IsUnbraced := by
  have hexpression {q : Prop} (hq : q → p) :
      besides.rel q (fun i => Eval.expression (self i) (trimmed input) (frame i))
        fun o => o.value.IsUnbraced := by
    refine h.expression (fun hheld => hframe (hq hheld)) (fun _ e' he' _ => ?_) (fun _ hprose => ?_)
      fun error _ _ => besides_degrade error _
    · rw [hparse] at he'
      cases he'
      exact he
    · rw [hprose e hparse] at hreads
      cases hreads
  have hsilent (text : String) :
      Still False (Eval.expression (self .tried) text (frame .tried)) fun _ => True := by
    have hnothing : besides.rel False (fun i => Eval.expression (self i) text (frame i))
        fun o => o.value.IsUnbraced :=
      h.expression (fun hfalse => hframe hfalse.elim) False.elim False.elim fun error _ _ =>
        besides_degrade error text
    exact ⟨hnothing.silent, False.elim⟩
  simp only [Eval.leaf, hnested, Eval.expandNested]
  by_cases hbrace : hasBrace (trimmed input)
  · simp only [hbrace, if_true, bind_assoc]
    refine besides_descend hframe (by simpa using hsilent (trimmed input)) ?_
    refine besides.bind (h.kept (fun hp => (hframe hp).deeper) fun _ => hkept) fun text => ?_
    by_cases htext : ∀ i, text i = trimmed input
    · simp only [htext]
      exact hexpression And.left
    · exact .of_not (fun hp => htext hp.2) (hsilent _).silent
  · simp only [hbrace]
    exact hexpression id

theorem besides_leaf {input : String} (hs : IsStraight C.registry .always bound (.leaf input)) :
    besides.rel p (fun i => Eval.leaf (C.env i) (self i) input (frame i))
      fun o => o.value.IsUnbraced := by
  cases hs with
  | nested hnested hs => exact besides_nested h hframe hnested hs
  | prose hinput hreads _ =>
    refine h.bare hframe hinput (fun _ e he hnot => ?_) fun error _ _ => besides_degrade error _
    rw [hreads e he] at hnot
    cases hnot
  | expression hinput hparse hreads he =>
    refine h.bare hframe hinput (fun _ e' he' _ => ?_) fun error _ _ => besides_degrade error _
    rw [hparse] at he'
    cases he'
    exact he
  | quoting hnested hkept hparse hreads he =>
    exact besides_quoting h hframe hnested hkept hparse hreads he

/-! ## Blocks -/

omit h hframe in
theorem still_chain {self : Evaluator} {frame : Frame} {branches : List Branch}
    (hconditions : ∀ branch ∈ branches, ∀ condition ∈ branch.condition,
      Still p (self.leaf condition frame) fun o => o.value.IsUnbraced)
    (hresults : ∀ branch ∈ branches,
      Still p (self.leaf branch.result frame) fun o => o.value.IsUnbraced) :
    Still p (Eval.chain self frame branches) fun o => o.value.IsUnbraced := by
  induction branches generalizing p with
  | nil => exact .pure fun _ => Value.isUnbraced_empty
  | cons branch rest ih =>
    obtain ⟨_ | condition, result⟩ := branch
    · exact hresults _ (.head _)
    · refine (hconditions _ (.head _) condition rfl).bind fun o => ?_
      split
      · exact (hresults _ (.head _)).mono And.left
      · exact ih
          (fun branch hbranch condition hcondition =>
            (hconditions branch (.tail _ hbranch) condition hcondition).mono And.left)
          fun branch hbranch => (hresults branch (.tail _ hbranch)).mono And.left

include hstill in
/-- Of a chain only the first condition is evaluated by every run. -/
theorem besides_chain {first : Branch} {rest : List Branch}
    (hfirst : ∀ condition ∈ first.condition, IsStraight C.registry .always bound (.leaf condition))
    (hrest : ∀ branch ∈ rest, ∀ condition ∈ branch.condition,
      IsStraight C.registry .sometimes bound (.leaf condition))
    (hresults : ∀ branch ∈ first :: rest,
      IsStraight C.registry .sometimes bound (.leaf branch.result)) :
    besides.rel p (fun i => Eval.chain (self i) (frame i) (first :: rest))
      fun o => o.value.IsUnbraced := by
  have hleaf {q : Prop} (hq : q → p) (i : Side) {input : String}
      (hs : IsStraight C.registry .sometimes bound (.leaf input)) :
      Still q ((self i).leaf input (frame i)) fun o => o.value.IsUnbraced :=
    Follows.leaf (hstill i) (fun hheld => (hframe (hq hheld)).one i) fun _ => hs
  obtain ⟨_ | condition, result⟩ := first
  · exact besides.of_still fun i => hleaf id i (hresults _ (.head _))
  · refine besides.bind (h.leaf hframe fun _ => hfirst condition rfl) fun o =>
      besides.of_still fun i => ?_
    split
    · exact hleaf And.left i (hresults _ (.head _))
    · refine still_chain (fun branch hbranch condition hcondition => ?_) fun branch hbranch => ?_
      · exact hleaf And.left i (hrest branch hbranch condition hcondition)
      · exact hleaf And.left i (hresults branch (.tail _ hbranch))

omit h in
include hstill in
theorem besides_choice {options : List String}
    (hoptions : ∀ option ∈ options, IsStraight C.registry .sometimes bound (.leaf option)) :
    besides.rel p
      (fun i => do
        match ← EvalM.draw (choose (C.env i).attempts options) with
        | some option => (self i).leaf option (frame i)
        | none => return .ofValue .empty)
      fun o => o.value.IsUnbraced := by
  refine besides.of_still fun i => ?_
  have hdraw : Still p (EvalM.draw (choose (C.env i).attempts options))
      fun chosen => ∀ option ∈ chosen, option ∈ options :=
    .draw fun _ _ _ _ hdrawn option hoption => mem_of_choose (hoption ▸ hdrawn)
  refine hdraw.bind fun chosen => ?_
  cases chosen with
  | none => exact .pure fun _ => Value.isUnbraced_empty
  | some option =>
    exact Follows.leaf (hstill i) (fun hp => (hframe hp.1).one i) fun hp =>
      hoptions option (hp.2 option rfl)

theorem besides_assign {mode : Mode} {name expression : String}
    (hs : IsStraight C.registry .always bound (.content .standalone expression)) :
    besides.rel p
      (fun i => do
        let outcome ← (self i).content .standalone expression (frame i)
        EvalM.bindAlias name outcome.value
        match mode with
        | .inText => return .ofValue .empty
        | .standalone => return outcome)
      fun o => o.value.IsUnbraced := by
  refine besides.bind (h.content hframe fun _ => hs) fun outcome => ?_
  refine besides.bind (Mirrors.bindAlias name (fun hp => hp.2 .tried) fun hp => hp.2 .played)
    fun _ => ?_
  cases mode with
  | inText => exact besides.pure fun _ _ => Value.isUnbraced_empty
  | standalone => exact besides.pure fun hp => hp.1.2

include hstill in
theorem besides_content {mode : Mode} {input : String}
    (hs : IsStraight C.registry .always bound (.content mode input)) :
    besides.rel p (fun i => Eval.content (C.env i) (self i) mode input (frame i))
      fun o => o.value.IsUnbraced := by
  unfold Eval.content
  cases hs with
  | empty hshape =>
    simp only [hshape]
    exact besides.pure fun _ _ => Value.isUnbraced_empty
  | assign hshape hs =>
    simp only [hshape]
    exact besides_assign h hframe hs
  | conditional hshape hfirst hrest hresults =>
    simp only [hshape]
    exact besides_chain h hframe hstill hfirst hrest hresults
  | choice hshape hoptions =>
    simp only [hshape]
    exact besides_choice hframe hstill hoptions
  | source hshape hs =>
    simp only [hshape]
    exact h.leaf hframe fun _ => hs

include hsilent in
theorem besides_expand {quotesKept : Bool} {input : String}
    (hs : IsStraight C.registry .always bound (.expand quotesKept input)) :
    besides.rel p (fun i => Eval.expand (C.env i) (self i) quotesKept input (frame i))
      (Task.IsUnbraced (.expand quotesKept input)) := by
  cases hs with
  | plain hinput => exact Lockstep.plain hinput
  | template herrors hblocks => exact h.template hframe hsilent herrors fun _ => hblocks
  | kept hblocks => exact Lockstep.kept hblocks

end

theorem besides_step {C : Company Side} (hC : C.Tries) {fuel : Side → Nat}
    (h : besides.Follows C (IsStraight C.registry .always) fun i => evaluator (C.env i) (fuel i)) :
    besides.Follows C (IsStraight C.registry .always)
      fun i => evaluator (C.env i) (fuel i + 1) := by
  intro p bound t frame hs hframe
  -- Without `p` nothing is known of the task, and nothing is asked but that silence goes back.
  by_cases hp : p
  case neg => exact .of_not hp (isSilent_evaluator _ _ _ _).silent
  have hsilent (i : Side) : (evaluator (C.env i) (fuel i)).IsSilent := isSilent_evaluator _ _
  have hstill (i : Side) : alone.Follows (C.one i) (IsStraight C.registry .sometimes)
      fun _ => evaluator (C.env i) (fuel i) := alone_follows (C.one i) (fuel i)
  cases t with
  | content mode input =>
    simp only [Evaluator.run, evaluator_content]
    exact besides_content h hframe hstill (hs hp)
  | leaf input =>
    simp only [Evaluator.run, evaluator_leaf]
    exact besides_leaf h hframe (hs hp)
  | expr e =>
    simp only [Evaluator.run, evaluator_expr]
    exact besides_expr h hframe hsilent hC hstill (hs hp)
  | expand quotesKept input =>
    simp only [Evaluator.run, evaluator_expand]
    exact besides_expand h hframe hsilent (hs hp)

/-- Where the first run of a straight task ends with a value and reports nothing but braces, the
second meets no fault. Each of them may have as much fuel as it has. -/
theorem besides_follows {C : Company Side} (hC : C.Tries) (tried played : Nat) :
    besides.Follows C (IsStraight C.registry .always)
      fun i => evaluator (C.env i) (Side.pick tried played i) := by
  -- The induction is on the fuel of the first run. The second may run out of its own at any time; it
  -- then ends early and has met no fault.
  induction tried generalizing played with
  | zero =>
    intro p bound t frame _ _
    cases t <;> exact Mirrors.early _
  | succ tried ih =>
    cases played with
    | zero =>
      intro p bound t frame _ _
      have hsilent := (isSilent_evaluator (C.env .tried) (tried + 1) t (frame .tried)).silent
      cases t <;> exact Mirrors.throw _ hsilent
    | succ played =>
      have hfuel : (Side.pick (tried + 1) (played + 1)) = fun i => Side.pick tried played i + 1 := by
        funext i
        cases i <;> rfl
      rw [hfuel]
      exact @besides_step C hC (Side.pick tried played) (ih played)

end QualityScript
