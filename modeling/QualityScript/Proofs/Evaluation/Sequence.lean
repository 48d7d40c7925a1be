import QualityScript.Proofs.Evaluation.Lockstep
import QualityScript.Proofs.Evaluation.Steps

/-!
# What is evaluated in sequence

Most expressions evaluate all that stands in them, one after the other, whatever the values are. Of
these it is said here, for a still run and for two runs in lockstep at once, that they go as the
evaluators go that they are built over.
-/

namespace QualityScript

open Quality Content Randomness

/-- Environments of one content and one configuration, with what their states are. Neither in the ids
of the content nor in a text that is held does a block begin. -/
structure Company (ι : Type) where
  registry : Registry
  config : Config
  env : ι → Env
  held : ι → State → Prop
  registry_env : ∀ i, (env i).registry = registry
  config_env : ∀ i, (env i).config = config
  margin : config.margin.IsBuiltIn
  members : ∀ category, ∀ d ∈ registry.inCategory category, registry.quality? d.id = some d
  ids : ∀ category, ∀ d ∈ registry.inCategory category, hasBrace d.id = false
  holds : ∀ i, (env i).Holds (held i)
  unbraced : ∀ i s, held i s → s.holding.IsUnbraced

namespace Company

variable {ι : Type} (C : Company ι)

theorem hasBrace_id {category id : String} (h : id ∈ (C.registry.inCategory category).map (·.id)) :
    hasBrace id = false := by
  obtain ⟨d, hd, rfl⟩ := List.mem_map.mp h
  exact C.ids category d hd

/-- The frames are equally deep and bind the same quality. -/
structure Binds (bound : Option String) (frame : ι → Frame) : Prop where
  binds : ∀ i, (frame i).Binds (C.held i) bound
  depth : ∀ i j, (frame i).depth = (frame j).depth

variable {C} {bound : Option String} {frame : ι → Frame}

theorem Binds.withTarget (h : C.Binds bound frame) (target : ι → Float) :
    C.Binds bound fun i => (frame i).withTarget (target i) :=
  ⟨fun i => ⟨(h.binds i).id, (h.binds i).state⟩, h.depth⟩

theorem Binds.deeper (h : C.Binds bound frame) : C.Binds bound fun i => (frame i).deeper :=
  ⟨fun i => ⟨(h.binds i).id, (h.binds i).state⟩, fun i j => congrArg (· + 1) (h.depth i j)⟩

theorem Binds.rebind (h : C.Binds bound frame) {id : String} {state : ι → Option State}
    (hstate : ∀ i, ∀ s ∈ state i, C.held i s) :
    C.Binds (some id) fun i => (frame i).rebind ⟨id, state i⟩ :=
  ⟨fun i => ⟨rfl, fun binding hbinding => by cases hbinding; exact hstate i⟩, h.depth⟩

end Company

/-- What a task is to give: a text or a value without blocks. A leaf whose blocks are all quoted is
kept as it is. -/
def Task.IsUnbraced : (t : Task) → t.Result → Prop
  | .content .. | .leaf _ => fun outcome => outcome.value.IsUnbraced
  | .expr _ => Value.IsUnbraced
  | .expand true input => (· = input)
  | .expand false _ => fun text => hasBrace text = false

/-! ## Expressions in sequence -/

/-- Whether all that stands in an expression is evaluated whatever the values are, and nothing else is
looked up. -/
def Expr.IsUniform : Expr → Prop
  | .neg _ | .not _ | .arith .. | .compare .. | .challenge _ | .effect _ | .range .. => True
  | .call (.list ..) => False
  | .call _ => True
  | .literal _ | .ref _ | .aliasName _ | .word _ | .and _ | .or _ => False

/-- The expressions in an expression that are evaluated with the same quality bound. -/
def Expr.ownParts : Expr → List Expr
  | .call (.pick _ count _) => count.toList
  | .call (.roll ..) | .call (.list ..) => []
  | e => e.parts

/-- The filter of a call with its category. It is evaluated with each quality of the category bound. -/
def Expr.filter? : Expr → Option (String × Expr)
  | .call (.pick category _ filter) | .call (.roll category filter)
  | .call (.list category _ filter) => filter.map (category, ·)
  | _ => none

/-- What the effects of an expression change. -/
def Expr.targets : Expr → List EffectTarget
  | .effect list | .call (.schedule _ list _ _) => list.map (·.target)
  | _ => []

namespace Lockstep

variable {ι : Type} (L : Lockstep ι) (C : Company ι)

/-- The evaluators do all such tasks as is to be said of them, for the quality that is bound. -/
def Follows (S : Option String → Task → Prop) (self : ι → Evaluator) : Prop :=
  ∀ {p : Prop} {bound : Option String} {t : Task} {frame : ι → Frame},
    (p → S bound t) → (p → C.Binds bound frame) →
      L.rel p (fun i => (self i).run t (frame i)) t.IsUnbraced

variable {L C} {S : Option String → Task → Prop} {self : ι → Evaluator} {p : Prop}
  {bound : Option String} {frame : ι → Frame}

section

variable (h : L.Follows C S self) (hframe : p → C.Binds bound frame)

include h hframe

theorem Follows.leaf {input : String} (hs : p → S bound (.leaf input)) :
    L.rel p (fun i => (self i).leaf input (frame i)) fun o => o.value.IsUnbraced := h hs hframe

theorem Follows.content {mode : Mode} {input : String} (hs : p → S bound (.content mode input)) :
    L.rel p (fun i => (self i).content mode input (frame i)) fun o => o.value.IsUnbraced :=
  h hs hframe

theorem Follows.expr {e : Expr} (hs : p → S bound (.expr e)) :
    L.rel p (fun i => (self i).expr e (frame i)) Value.IsUnbraced := h hs hframe

theorem Follows.expand {input : String} (hs : p → S bound (.expand false input)) :
    L.rel p (fun i => (self i).expand false input (frame i)) fun text => hasBrace text = false :=
  h hs hframe

theorem Follows.kept {input : String} (hs : p → S bound (.expand true input)) :
    L.rel p (fun i => (self i).expand true input (frame i)) (· = input) := h hs hframe

theorem Follows.number {e : Expr} (he : p → S bound (.expr e)) :
    L.rel p (fun i => (self i).number e (frame i)) fun _ => True :=
  L.map (h.expr hframe he) fun _ _ _ _ => trivial

theorem Follows.expression {source : String}
    (hexpr : p → ∀ e, Expr.parse source = .ok e → e.readsAsProse = false → S bound (.expr e))
    (hprose : p → (∀ e, Expr.parse source = .ok e → e.readsAsProse) → hasBrace source = false)
    (hfault : ∀ error, Expr.parse source = .error error → looksLikeScript source.toList →
      L.rel p (fun _ => EvalM.record (.noExpression error source)) fun _ => True) :
    L.rel p (fun i => Eval.expression (self i) source (frame i)) fun o => o.value.IsUnbraced := by
  unfold Eval.expression
  cases hparse : Expr.parse source with
  | ok e =>
    by_cases hreads : e.readsAsProse
    · simp only [hreads, if_true]
      exact L.pure fun hp _ => hprose hp fun e' he' => Except.ok.inj (hparse ▸ he') ▸ hreads
    · simp only [hreads]
      exact L.map (h.expr hframe fun hp => hexpr hp e hparse (eq_false_of_ne_true hreads))
        fun _ _ _ hvalue => hvalue
  | error error =>
    have hplain (hp : p) : hasBrace source = false := hprose hp fun e he => by
      rw [hparse] at he
      cases he
    by_cases hscript : looksLikeScript source.toList
    · simp only [hscript, if_true]
      exact L.map (hfault error hparse hscript) fun hp _ _ _ => hplain hp
    · simp only [hscript]
      exact L.pure fun hp _ => hplain hp

/-! ### Conditions -/

omit h hframe in
theorem still_allTrue {self : Evaluator} {frame : Frame} {items : List Expr}
    (hitems : ∀ e ∈ items, Still p (self.expr e frame) Value.IsUnbraced) :
    Still p (Eval.allTrue self frame items) fun _ => True := by
  induction items generalizing p with
  | nil => exact .pure fun _ => trivial
  | cons e rest ih =>
    refine (hitems e (.head _)).bind fun value => ?_
    split
    · exact ih fun e he => (hitems e (.tail _ he)).mono And.left
    · exact .pure fun _ => trivial

omit h hframe in
theorem still_anyTrue {self : Evaluator} {frame : Frame} {items : List Expr}
    (hitems : ∀ e ∈ items, Still p (self.expr e frame) Value.IsUnbraced) :
    Still p (Eval.anyTrue self frame items) fun _ => True := by
  induction items generalizing p with
  | nil => exact .pure fun _ => trivial
  | cons e rest ih =>
    refine (hitems e (.head _)).bind fun value => ?_
    split
    · exact .pure fun _ => trivial
    · exact ih fun e he => (hitems e (.tail _ he)).mono And.left

/-- The first item goes as it goes; the others may be passed by. -/
theorem Follows.items {e first : Expr} {rest : List Expr}
    (he : e = .and (first :: rest) ∨ e = .or (first :: rest)) (hfirst : p → S bound (.expr first))
    (hrest : ∀ i, ∀ item ∈ rest, Still p ((self i).expr item (frame i)) Value.IsUnbraced) :
    L.rel p (fun i => Eval.expr (C.env i) (self i) e (frame i)) Value.IsUnbraced := by
  have hrest' {q : Prop} (hq : q → p) (i : ι) (item : Expr) (hitem : item ∈ rest) :
      Still q ((self i).expr item (frame i)) Value.IsUnbraced :=
    (hrest i item hitem).mono hq
  have hall : L.rel p (fun i => Eval.allTrue (self i) (frame i) (first :: rest)) fun _ => True := by
    refine L.bind (h.expr hframe hfirst) fun value => L.of_still fun i => ?_
    split
    · exact still_allTrue (hrest' And.left i)
    · exact .pure fun _ => trivial
  have hany : L.rel p (fun i => Eval.anyTrue (self i) (frame i) (first :: rest)) fun _ => True := by
    refine L.bind (h.expr hframe hfirst) fun value => L.of_still fun i => ?_
    split
    · exact .pure fun _ => trivial
    · exact still_anyTrue (hrest' And.left i)
  rcases he with rfl | rfl
  · exact L.map hall fun _ _ _ _ => Value.isUnbraced_bool _
  · exact L.map hany fun _ _ _ _ => Value.isUnbraced_bool _

/-! ### Challenges -/

theorem Follows.parameter {given : Option Expr} (hgiven : p → ∀ e ∈ given, S bound (.expr e))
    (default : ι → Float) :
    L.rel p (fun i => Eval.parameter (self i) given (default i) (frame i)) fun _ => True := by
  cases given with
  | none => exact L.pure fun _ _ => trivial
  | some e => exact h.number hframe fun hp => hgiven hp e rfl

omit h hframe in
theorem still_defaultMargin {env : Env} (hmargin : env.config.margin.IsBuiltIn) (self : Evaluator)
    (target : Float) (frame : Frame) :
    Still p (Eval.defaultMargin env self target frame) fun _ => True := by
  unfold Eval.defaultMargin
  cases hpolicy : env.config.margin with
  | fixed margin => exact .pure fun _ => trivial
  | multiple factor => exact .pure fun _ => trivial
  | expression source =>
    rw [hpolicy] at hmargin
    exact hmargin.elim

theorem Follows.margin {c : Challenge} (hc : p → ∀ e ∈ c.parts, S bound (.expr e))
    (target : ι → Float) :
    L.rel p (fun i => Eval.margin (C.env i) (self i) c (target i) (frame i)) fun _ => True := by
  unfold Eval.margin
  cases hmargin : c.margin with
  | some e => exact h.number hframe fun hp => hc hp e (by simp [Challenge.parts, hmargin])
  | none => exact L.of_still fun i => still_defaultMargin (C.config_env i ▸ C.margin) _ _ _

theorem Follows.inputs {c : Challenge} (hc : p → ∀ e ∈ c.parts, S bound (.expr e)) :
    L.rel p (fun i => Eval.inputs (C.env i) (self i) c (frame i)) fun _ => True := by
  unfold Eval.inputs
  refine L.bind (h.number hframe fun hp => hc hp _ (by simp [Challenge.parts])) fun skill => ?_
  refine L.bind (h.number (hframe ·.1) fun hp => hc hp.1 _ (by simp [Challenge.parts]))
    fun target => ?_
  -- From here on the target is bound.
  refine L.bind (h.margin (fun hp => (hframe hp.1.1).withTarget target) (hc ·.1.1) target)
    fun margin => ?_
  refine L.bind (h.parameter (fun hp => (hframe hp.1.1.1).withTarget target) (fun hp e he => ?_) _)
    fun minCap => ?_
  · exact hc hp.1.1.1 e (by simp_all [Challenge.parts])
  refine L.bind (h.parameter (fun hp => (hframe hp.1.1.1.1).withTarget target) (fun hp e he => ?_) _)
    fun maxCap => ?_
  · exact hc hp.1.1.1.1 e (by simp_all [Challenge.parts])
  refine L.map (h.parameter (fun hp => (hframe hp.1.1.1.1.1).withTarget target)
    (fun hp e he => ?_) _) fun _ _ _ _ => trivial
  exact hc hp.1.1.1.1.1 e (by simp_all [Challenge.parts])

omit h hframe in
theorem still_percent (x : Eval.Inputs) (direction : Direction) :
    Still p (x.percent direction) fun _ => True := by
  unfold Eval.Inputs.percent
  by_cases hstep : x.params.margin ≤ 0
  · rw [if_pos hstep]
    refine .noted (by simp [Problem.kind, DiagnosticKind.IsFault]) ?_
    split
    · exact .pure fun _ => trivial
    · exact .throw _
  · rw [if_neg hstep]
    dsimp only
    split
    · exact .pure fun _ => trivial
    · exact .throw _

theorem Follows.challengePercent {c : Challenge} (hc : p → ∀ e ∈ c.parts, S bound (.expr e)) :
    L.rel p (fun i => Eval.challengePercent (C.env i) (self i) c (frame i)) fun _ => True := by
  simp only [Eval.challengePercent_eq]
  exact L.bind (h.inputs hframe hc) fun x => L.of_still fun i => still_percent (x i) c.direction

theorem Follows.challenge {c : Challenge} (hc : p → ∀ e ∈ c.parts, S bound (.expr e)) :
    L.rel p (fun i => Eval.challenge (C.env i) (self i) c (frame i)) Value.IsUnbraced := by
  refine L.bind (h.challengePercent hframe hc) fun percent => L.of_still fun i => ?_
  split
  · exact (Still.draw fun _ _ _ _ _ => trivial).bind fun drawn =>
      .pure fun _ => Value.isUnbraced_bool _
  · exact .pure fun _ => Value.isUnbraced_int _

omit h hframe in
theorem still_range (env : Env) (lo hi : Int64) :
    Still p (Eval.range env lo hi) Value.IsUnbraced := by
  unfold Eval.range
  split
  exact (Still.draw fun _ _ _ _ _ => trivial).bind fun drawn => .pure fun _ => Value.isUnbraced_int _

/-! ### Effects -/

theorem Follows.amount {given : Option Expr} (hgiven : p → ∀ e ∈ given, S bound (.expr e)) :
    L.rel p (fun i => Eval.amount (self i) given (frame i)) Value.IsUnbraced := by
  cases given with
  | none => exact L.pure fun _ _ => Value.isUnbraced_int 1
  | some e => exact h.expr hframe fun hp => hgiven hp e rfl

theorem Follows.description {given : Option String}
    (hgiven : p → ∀ text ∈ given, S bound (.expand false text)) :
    L.rel p (fun i => Eval.description (self i) given (frame i)) fun _ => True := by
  cases given with
  | none => exact L.pure fun _ _ => trivial
  | some text => exact L.map (h.expand hframe fun hp => hgiven hp text rfl) fun _ _ _ _ => trivial

theorem Follows.effectsFrom {list : List EffectExpr}
    (hparts : p → ∀ e ∈ list.flatMap EffectExpr.parts, S bound (.expr e))
    (htexts : p → ∀ text ∈ list.filterMap (·.notes.description), S bound (.expand false text))
    (haims : ∀ target ∈ list.map (·.target),
      L.rel p (fun i => Eval.aims (C.env i) (frame i) target) fun _ => True)
    (progress : ι → Eval.Progress) :
    L.rel p (fun i => Eval.effectsFrom (C.env i) (self i) (frame i) (progress i) list)
      fun _ => True := by
  induction list generalizing p progress with
  | nil => exact L.pure fun _ _ => trivial
  | cons e rest ih =>
    refine L.bind (h.amount hframe fun hp e' he' => hparts hp e' ?_) fun amount => ?_
    · exact List.mem_flatMap.mpr ⟨e, .head _, Option.mem_toList.mpr he'⟩
    refine L.bind (h.description (hframe ·.1) fun hp text htext => htexts hp.1 text ?_)
      fun description => ?_
    · exact List.mem_filterMap.mpr ⟨e, .head _, htext⟩
    refine L.bind (L.mono (haims _ (.head _)) (·.1.1)) fun aims => ?_
    refine ih (hframe ·.1.1.1) (fun hp e' he' => hparts hp.1.1.1 e' ?_)
      (fun hp text htext => htexts hp.1.1.1 text ?_) (fun target htarget => ?_) _
    · exact List.mem_append_right _ he'
    · obtain ⟨e', he', hsome⟩ := List.mem_filterMap.mp htext
      exact List.mem_filterMap.mpr ⟨e', .tail _ he', hsome⟩
    · exact L.mono (haims target (.tail _ htarget)) (·.1.1.1)

theorem Follows.effects {list : List EffectExpr}
    (hparts : p → ∀ e ∈ list.flatMap EffectExpr.parts, S bound (.expr e))
    (htexts : p → ∀ text ∈ list.filterMap (·.notes.description), S bound (.expand false text))
    (haims : ∀ target ∈ list.map (·.target),
      L.rel p (fun i => Eval.aims (C.env i) (frame i) target) fun _ => True) :
    L.rel p (fun i => Eval.effects (C.env i) (self i) list (frame i)) fun _ => True :=
  L.map (h.effectsFrom hframe hparts htexts haims _) fun _ _ _ _ => trivial

/-! ### Calls -/

theorem Follows.passing {filter : Expr} {members : List Definition}
    (hfilter : p → ∀ d ∈ members, S (some d.id) (.expr filter)) :
    L.rel p (fun i => Eval.passing (self i) filter (frame i) members)
      fun ids => ∀ id ∈ ids, id ∈ members.map (·.id) := by
  induction members generalizing p with
  | nil => exact L.pure fun _ _ => by simp
  | cons d rest ih =>
    have hbound : p → C.Binds (some d.id) fun i => (frame i).rebind ⟨d.id, none⟩ := fun hp =>
      (hframe hp).rebind fun _ _ hs => nomatch hs
    refine L.bind (h.expr hbound fun hp => hfilter hp d (.head _)) fun value => ?_
    refine L.map (ih (hframe ·.1) fun hp d' hd' => hfilter hp.1 d' (.tail _ hd')) ?_
    intro _ i ids hids
    have hrest : ∀ id ∈ ids, id ∈ (d :: rest).map (·.id) := fun id hid => .tail _ (hids id hid)
    split
    · exact List.forall_mem_cons.mpr ⟨.head _, hrest⟩
    · exact hrest

theorem Follows.candidates {category : String} {filter : Option Expr}
    (hfilter : p → ∀ e ∈ filter, ∀ d ∈ C.registry.inCategory category, S (some d.id) (.expr e)) :
    L.rel p (fun i => Eval.candidates (C.env i) (self i) category filter (frame i))
      fun ids => ∀ id ∈ ids, id ∈ (C.registry.inCategory category).map (·.id) := by
  simp only [Eval.candidates, C.registry_env]
  cases filter with
  | some filter => exact h.passing hframe fun hp => hfilter hp filter rfl
  | none => exact L.pure fun _ _ _ hid => hid

theorem Follows.random {chance : Expr} (invert : Bool) (hchance : p → S bound (.expr chance)) :
    L.rel p (fun i => Eval.random (C.env i) (self i) chance invert (frame i))
      Value.IsUnbraced := by
  refine L.bind (h.number hframe hchance) fun percent => L.of_still fun i => ?_
  exact (Still.draw fun _ _ _ _ _ => trivial).bind fun drawn =>
    .pure fun _ => Value.isUnbraced_bool _

theorem Follows.pickCount {count : Option Expr} (hcount : p → ∀ e ∈ count, S bound (.expr e)) :
    L.rel p (fun i => Eval.pickCount (self i) count (frame i)) fun _ => True := by
  cases count with
  | none => exact L.pure fun _ _ => trivial
  | some e => exact L.map (h.number hframe fun hp => hcount hp e rfl) fun _ _ _ _ => trivial

theorem Follows.pick {category : String} {count filter : Option Expr}
    (hcount : p → ∀ e ∈ count, S bound (.expr e))
    (hfilter : p → ∀ e ∈ filter, ∀ d ∈ C.registry.inCategory category, S (some d.id) (.expr e)) :
    L.rel p (fun i => Eval.pick (C.env i) (self i) category count filter (frame i))
      Value.IsUnbraced := by
  refine L.bind (h.candidates hframe hfilter) fun ids => ?_
  refine L.bind (h.pickCount (hframe ·.1) (hcount ·.1)) fun count => L.of_still fun i => ?_
  have hdraw {q : Prop} (hq : q → ∀ id ∈ ids i, id ∈ (C.registry.inCategory category).map (·.id)) :
      Still q (do return .ids (← EvalM.draw (chooseMany (C.env i).attempts (count i) (ids i))))
        Value.IsUnbraced := by
    have hchosen : Still q (EvalM.draw (chooseMany (C.env i).attempts (count i) (ids i)))
        fun chosen => ∀ id ∈ chosen, hasBrace id = false :=
      .draw fun hheld _ _ _ hdrawn id hid =>
        C.hasBrace_id (hq hheld id (mem_of_chooseMany hdrawn id hid))
    exact hchosen.bind fun chosen => .pure fun hchosen => Value.isUnbraced_ids hchosen.2
  split
  · exact .noted (by simp [Problem.kind, DiagnosticKind.IsFault]) (hdraw fun hp => hp.1.2 i)
  · exact hdraw fun hp => hp.1.2 i

theorem Follows.roll {category : String} {filter : Option Expr}
    (hfilter : p → ∀ e ∈ filter, ∀ d ∈ C.registry.inCategory category, S (some d.id) (.expr e)) :
    L.rel p (fun i => Eval.roll (C.env i) (self i) category filter (frame i)) Value.IsUnbraced := by
  refine L.bind (h.candidates hframe hfilter) fun ids => L.of_still fun i => ?_
  refine (Still.draw fun _ _ _ _ _ => trivial).bind fun place => ?_
  cases place with
  | some place =>
    refine .pure fun hp => ?_
    rw [Value.isUnbraced_text, List.getD_eq_getElem?_getD]
    cases hplace : (ids i)[place]? with
    | some id => exact C.hasBrace_id (hp.1.2 i id (List.mem_of_getElem? hplace))
    | none => rfl
  | none =>
    exact .noted (by simp [Problem.kind, DiagnosticKind.IsFault]) <|
      .pure fun _ => Value.isUnbraced_empty

/-! ### All that is uniform -/

omit h hframe in
theorem still_arith (op : ArithOp) {lhs rhs : Value} (hlhs : p → lhs.IsUnbraced)
    (hrhs : p → rhs.IsUnbraced) : Still p (Eval.arith op lhs rhs) Value.IsUnbraced := by
  unfold Eval.arith
  cases op with
  | add => exact .pure fun hp => isUnbraced_sum (hlhs hp) (hrhs hp)
  | sub | mul => exact .pure fun _ => Value.isUnbraced_ofFloat _
  | div =>
    dsimp only
    split
    · exact .noted (by simp [Problem.kind, DiagnosticKind.IsFault]) <|
        .pure fun _ => Value.isUnbraced_int 0
    · exact .pure fun _ => Value.isUnbraced_ofFloat _

/-- A call that lists no names goes as what is evaluated in it. -/
theorem Follows.call {c : Call} (hc : (Expr.call c).IsUniform)
    (hown : p → ∀ part ∈ (Expr.call c).ownParts, S bound (.expr part))
    (hfilter : p → ∀ found ∈ (Expr.call c).filter?, ∀ d ∈ C.registry.inCategory found.1,
      S (some d.id) (.expr found.2))
    (htexts : p → ∀ text ∈ (Expr.call c).descriptions, S bound (.expand false text))
    (haims : ∀ target ∈ (Expr.call c).targets,
      L.rel p (fun i => Eval.aims (C.env i) (frame i) target) fun _ => True) :
    L.rel p (fun i => Eval.call (C.env i) (self i) c (frame i)) Value.IsUnbraced := by
  cases c with
  | list => exact hc.elim
  | random chance invert => exact h.random hframe invert fun hp => hown hp chance (.head _)
  | pick category count filter =>
    refine h.pick hframe (fun hp e he => hown hp e (Option.mem_toList.mpr he))
      fun hp e he d hd => ?_
    exact hfilter hp (category, e) (Option.mem_map_of_mem _ he) d hd
  | roll category filter =>
    refine h.roll hframe fun hp e he d hd => ?_
    exact hfilter hp (category, e) (Option.mem_map_of_mem _ he) d hd
  | all category =>
    refine L.pure fun _ i => Value.isUnbraced_ids ?_
    rw [C.registry_env]
    exact List.forall_mem_map.mpr (C.ids category)
  | schedule kind list amount unit =>
    have hlist : ∀ e ∈ list.flatMap EffectExpr.parts,
        e ∈ (Expr.call (.schedule kind list amount unit)).ownParts :=
      fun e he => List.mem_append_left _ he
    have hamount : amount ∈ (Expr.call (.schedule kind list amount unit)).ownParts := by
      simp [Expr.ownParts, Expr.parts, Call.parts]
    refine L.bind (h.effects hframe (fun hp e he => hown hp e (hlist e he)) htexts haims)
      fun changes => ?_
    exact L.map (h.number (hframe ·.1) fun hp => hown hp.1 amount hamount) fun _ _ _ _ =>
      Value.isUnbraced_pending _
  | chance c =>
    exact L.map (h.challengePercent hframe hown) fun _ _ _ _ => Value.isUnbraced_int _

theorem Follows.uniform {e : Expr} (he : e.IsUniform)
    (hown : p → ∀ part ∈ e.ownParts, S bound (.expr part))
    (hfilter : p → ∀ found ∈ e.filter?, ∀ d ∈ C.registry.inCategory found.1,
      S (some d.id) (.expr found.2))
    (htexts : p → ∀ text ∈ e.descriptions, S bound (.expand false text))
    (haims : ∀ target ∈ e.targets,
      L.rel p (fun i => Eval.aims (C.env i) (frame i) target) fun _ => True) :
    L.rel p (fun i => Eval.expr (C.env i) (self i) e (frame i)) Value.IsUnbraced := by
  cases e with
  | literal | ref | aliasName | word | and | or => exact he.elim
  | neg inner =>
    exact L.map (h.number hframe fun hp => hown hp inner (.head _)) fun _ _ _ _ =>
      Value.isUnbraced_ofFloat _
  | not inner =>
    exact L.map (h.expr hframe fun hp => hown hp inner (.head _)) fun _ _ _ _ =>
      Value.isUnbraced_bool _
  | arith op lhs rhs =>
    refine L.bind (h.expr hframe fun hp => hown hp lhs (.head _)) fun x => ?_
    refine L.bind (h.expr (hframe ·.1) fun hp => hown hp.1 rhs (.tail _ (.head _))) fun y => ?_
    exact L.of_still fun i => still_arith op (fun hp => hp.1.2 i) fun hp => hp.2 i
  | compare op lhs rhs =>
    refine L.bind (h.expr hframe fun hp => hown hp lhs (.head _)) fun x => ?_
    exact L.map (h.expr (hframe ·.1) fun hp => hown hp.1 rhs (.tail _ (.head _))) fun _ _ _ _ =>
      Value.isUnbraced_bool _
  | challenge c => exact h.challenge hframe hown
  | effect list =>
    exact L.map (h.effects hframe hown htexts haims) fun _ _ _ _ => Value.isUnbraced_effect _
  | range lo hi =>
    refine L.bind (h.number hframe fun hp => hown hp lo (.head _)) fun x => ?_
    refine L.bind (h.number (hframe ·.1) fun hp => hown hp.1 hi (.tail _ (.head _))) fun y => ?_
    exact L.of_still fun i => still_range _ _ _
  | call c => exact h.call hframe he hown hfilter htexts haims

end

end Lockstep

end QualityScript
