import QualityScript.Proofs.Evaluation.Logic

/-!
# One step of the evaluator

Each function of the evaluator reads well if what it asks for on its own level does, and if
everything does after a descent. Together they give the step: an evaluator built over evaluators
that answer what a task asks for answers the task.
-/

namespace QualityScript.Eval

open Randomness

variable {ι : Type} {env : Env} {L : Logic ι} {K : Kept env} {self : ι → Evaluator}
  {start mem : Memory} {frame : Frame}

theorem gives_number {e : Expr} (he : L.Answers K self (.expr e) start)
    (h : K.At start mem frame) :
    L.Gives K (fun i => (self i).number e frame) mem fun _ => True := by
  unfold Evaluator.number
  exact h.map (he h) fun _ _ => trivial

theorem gives_expandOwned {text : String} {owner : SelfBinding}
    (hbelow : L.AnswersBelow K self start) (h : K.At start mem frame)
    (howner : K.frame (frame.rebind owner)) :
    L.Gives K (fun i => (self i).expandOwned (env.config.within (L.bounds i)) text owner frame) mem
      fun _ => True := by
  unfold Evaluator.expandOwned
  by_cases hbrace : hasBrace text
  · simp only [hbrace, if_true]
    exact h.descend (fun _ h' => h'.pure trivial) fun _ hleft h' =>
      hbelow (.expand false text) _ hleft (h'.inFrame (K.deeper howner))
  · simp only [hbrace]
    exact h.pure trivial

theorem gives_chain {branches : List Branch}
    (hcond : ∀ c r, ⟨some c, r⟩ ∈ branches → L.Answers K self (.leaf c) start)
    (hres : ∀ b ∈ branches, L.Answers K self (.leaf b.result) start)
    (h : K.At start mem frame) :
    L.Gives K (fun i => chain (self i) frame branches) mem fun o => K.value o.value := by
  induction branches generalizing mem with
  | nil => exact h.pure (K.plain trivial)
  | cons b rest ih =>
    have hrest := fun {mem} (h : K.At start mem frame) =>
      ih (fun c r hc => hcond c r (.tail _ hc)) (fun b hb => hres b (.tail _ hb)) h
    obtain ⟨_ | c, result⟩ := b
    · exact hres _ (.head _) h
    · refine h.bind (hcond c result (.head _) h) fun o mem' h' _ => ?_
      by_cases htrue : o.value.isTruthy
      · simp only [htrue, if_true]
        exact hres _ (.head _) h'
      · simp only [htrue]
        exact hrest h'

theorem gives_content {mode : Mode} {input : String}
    (hinner : L.AnswersInner K self (.content mode input) start) (h : K.At start mem frame) :
    L.Gives K (fun i => content (env.within (L.bounds i)) (self i) mode input frame) mem
      fun o => K.value o.value := by
  unfold content
  cases hshape : Block.classify input with
  | empty => exact h.pure (K.plain trivial)
  | assign name expression =>
    refine h.bind (hinner _ (.asked (.assigned hshape)) h) fun o mem' h' ho => ?_
    refine h'.bind (h'.bindAlias name ho) fun _ mem'' h'' _ => ?_
    cases mode with
    | inText => exact h''.pure (K.plain trivial)
    | standalone => exact h''.pure ho
  | conditional branches =>
    exact gives_chain (fun c r hc => hinner _ (.asked (.condition hshape hc)))
      (fun b hb => hinner _ (.asked (.result hshape hb))) h
  | choice options =>
    have hdraw : L.Gives K (fun i => EvalM.draw (choose (L.bounds i).attempts options)) mem
        fun o => ∀ x, o = some x → x ∈ options :=
      h.drawn (proper_choose options) fun n s a s' hs x hx => mem_of_choose (hx ▸ hs)
    refine h.bind hdraw fun option mem' h' hmem => ?_
    cases option with
    | none => exact h'.pure (K.plain trivial)
    | some option => exact hinner _ (.asked (.option hshape (hmem option rfl))) h'
  | leaf source => exact hinner _ (.asked (.source hshape)) h

/-! ## Leaves -/

theorem gives_expression {source : String}
    (he : ∀ e, Expr.parse source = .ok e → L.Answers K self (.expr e) start)
    (h : K.At start mem frame) :
    L.Gives K (fun i => expression (self i) source frame) mem fun o => K.value o.value := by
  unfold expression
  cases hparse : Expr.parse source with
  | ok e =>
    by_cases hprose : e.readsAsProse
    · simp only [hprose, if_true]
      exact h.pure (K.plain trivial)
    · simp only [hprose]
      exact h.map (he e hparse h) fun _ hv => hv
  | error error =>
    by_cases hscript : looksLikeScript source.toList
    · simp only [hscript, if_true]
      exact h.bind (h.record _) fun _ _ h' _ => h'.pure (K.plain trivial)
    · simp only [hscript]
      exact h.pure (K.plain trivial)

/-- A leaf with nested blocks is read after a descent, from whatever they expand to. -/
theorem gives_expanded {source : String}
    (he : ∀ e, Expr.parse source = .ok e → L.Answers K self (.expr e) start)
    (hbelow : L.AnswersBelow K self start) (h : K.At start mem frame) :
    L.Gives K
      (fun i => expandNested (env.within (L.bounds i)) (self i) source frame >>= fun text =>
        expression (self i) text frame) mem fun o => K.value o.value := by
  unfold expandNested
  by_cases hbrace : hasBrace source
  · simp only [hbrace, if_true, bind_assoc, Env.within_config]
    refine h.descend (fun mem' h' => ?_) fun mem' hleft h' => ?_
    · simp only [pure_bind]
      exact gives_expression he h'
    · refine h'.bind (hbelow (.expand true source) mem' hleft h') fun text mem'' h'' _ => ?_
      exact gives_expression (fun e _ => hbelow (.expr e) mem' hleft) (h''.inFrame h.frame)
  · simp only [hbrace]
    exact gives_expression he h

theorem gives_leaf {input : String} (hinner : L.AnswersInner K self (.leaf input) start)
    (hbelow : L.AnswersBelow K self start) (h : K.At start mem frame) :
    L.Gives K (fun i => leaf (env.within (L.bounds i)) (self i) input frame) mem
      fun o => K.value o.value := by
  cases hnested : nestedBlock? (Text.trimmed input) with
  | some inner =>
    simp only [leaf, hnested, Env.within_config]
    refine h.descend (fun mem' h' => h'.pure (K.plain trivial)) fun mem' hleft h' => ?_
    exact hbelow (.content .standalone inner) mem' hleft h'
  | none =>
    simp only [leaf, hnested]
    exact gives_expanded (fun e he => hinner _ (.asked (.parsed he))) hbelow h

/-! ## Expressions without parts -/

theorem gives_literal {value : Literal} (hbelow : L.AnswersBelow K self start)
    (h : K.At start mem frame) :
    L.Gives K (fun i => literal (env.within (L.bounds i)) (self i) value frame) mem K.value := by
  cases value with
  | text text =>
    by_cases hblocks : hasBlocks text
    · simp only [literal, hblocks, if_true, Env.within_config]
      refine h.descend (fun mem' h' => h'.pure (K.plain trivial)) fun mem' hleft h' => ?_
      exact h'.map (hbelow (.expand false text) mem' hleft h') fun _ _ => K.plain trivial
    · simp only [literal, hblocks]
      exact h.pure (K.plain trivial)
  | _ => exact h.pure (K.plain trivial)

theorem isPlain_of_resolveProperty {property : Property} {holding : Quality.Holding}
    {kind : Quality.Kind} {definition : Option Quality.Definition} {owner : SelfBinding}
    {value : Value}
    (h : Reference.resolveProperty property holding kind definition owner = .plain value) :
    value.IsPlain := by
  cases property with
  | value =>
    cases holding with
    | text text => cases h
    | pyramidal | item | equipable | counter =>
      cases h
      trivial
  | level | changePoints | kind | capital =>
    cases h
    trivial
  | name | description | plural =>
    cases definition with
    | some d => cases h
    | none =>
      cases h
      trivial
  | variant key =>
    simp only [Reference.resolveProperty] at h
    split at h
    · cases h
    · cases h
      trivial

/-- What a reference stands for is plain, or a template. -/
theorem isPlain_of_resolve {env : Env} {r : Reference} {value : Value}
    (h : (r.resolve env frame).resolution = .plain value) : value.IsPlain := by
  unfold Reference.resolve at h
  split at h
  · exact isPlain_of_resolveProperty h
  · exact isPlain_of_resolveProperty h
  · split at h
    · exact isPlain_of_resolveProperty h
    · cases h
      trivial

theorem gives_reference {r : Reference} (hbelow : L.AnswersBelow K self start)
    (h : K.At start mem frame) :
    L.Gives K (fun i => reference (env.within (L.bounds i)) (self i) r frame) mem K.value := by
  have hsame (i : ι) : r.resolve (env.within (L.bounds i)) frame = r.resolve env frame := rfl
  cases hres : (r.resolve env frame).resolution with
  | plain value =>
    have hvalue := isPlain_of_resolve hres
    by_cases hmissing : (r.resolve env frame).unresolved
    · simp only [reference, hsame, hmissing, hres, if_true]
      exact h.bind (h.record _) fun _ _ h' _ => h'.pure (K.plain hvalue)
    · simp only [reference, hsame, hmissing, hres]
      exact h.pure (K.plain hvalue)
  | template text owner =>
    have howner := K.owner h.frame hres
    by_cases hmissing : (r.resolve env frame).unresolved
    · simp only [reference, hsame, hmissing, hres, if_true]
      exact h.bind (h.record _) fun _ _ h' _ =>
        h'.map (gives_expandOwned hbelow h' howner) fun _ _ => K.plain trivial
    · simp only [reference, hsame, hmissing, hres]
      exact h.map (gives_expandOwned hbelow h howner) fun _ _ => K.plain trivial

theorem gives_aliasValue {name : String} (h : K.At start mem frame) :
    L.Gives K (fun _ => aliasValue name) mem K.value := by
  unfold aliasValue
  refine h.bind (h.alias? name) fun value mem' h' hv => ?_
  cases value with
  | some value => exact h'.pure (hv value rfl)
  | none => exact h'.bind (h'.record _) fun _ _ h'' _ => h''.pure (K.plain trivial)

theorem isPlain_ofFloat (x : Float) : (Value.ofFloat x).IsPlain := by
  unfold Value.ofFloat
  split
  · split <;> trivial
  · trivial

theorem isPlain_word (text : String) (frame : Frame) : (word text frame).IsPlain := by
  unfold word
  split
  · split
    · exact isPlain_ofFloat _
    · trivial
  · trivial

theorem isPlain_sum (lhs rhs : Value) : (sum lhs rhs).IsPlain := by
  unfold sum
  split
  · exact isPlain_ofFloat _
  · trivial

theorem gives_arith {op : ArithOp} {lhs rhs : Value} (h : K.At start mem frame) :
    L.Gives K (fun _ => arith op lhs rhs) mem K.value := by
  cases op with
  | add => exact h.pure (K.plain (isPlain_sum lhs rhs))
  | sub => exact h.pure (K.plain (isPlain_ofFloat _))
  | mul => exact h.pure (K.plain (isPlain_ofFloat _))
  | div =>
    by_cases hzero : rhs.numberOrZero == 0
    · simp only [arith, hzero, if_true]
      exact h.bind (h.record _) fun _ _ h' _ => h'.pure (K.plain trivial)
    · simp only [arith, hzero]
      exact h.pure (K.plain (isPlain_ofFloat _))

theorem gives_allTrue {items : List Expr}
    (hitems : ∀ e ∈ items, L.Answers K self (.expr e) start) (h : K.At start mem frame) :
    L.Gives K (fun i => allTrue (self i) frame items) mem fun _ => True := by
  induction items generalizing mem with
  | nil => exact h.pure trivial
  | cons e rest ih =>
    refine h.bind (hitems e (.head _) h) fun v mem' h' _ => ?_
    by_cases htrue : v.isTruthy
    · simp only [htrue, if_true]
      exact ih (fun e he => hitems e (.tail _ he)) h'
    · simp only [htrue]
      exact h'.pure trivial

theorem gives_anyTrue {items : List Expr}
    (hitems : ∀ e ∈ items, L.Answers K self (.expr e) start) (h : K.At start mem frame) :
    L.Gives K (fun i => anyTrue (self i) frame items) mem fun _ => True := by
  induction items generalizing mem with
  | nil => exact h.pure trivial
  | cons e rest ih =>
    refine h.bind (hitems e (.head _) h) fun v mem' h' _ => ?_
    by_cases htrue : v.isTruthy
    · simp only [htrue, if_true]
      exact h'.pure trivial
    · simp only [htrue]
      exact ih (fun e he => hitems e (.tail _ he)) h'

/-! ## Challenges

The parts of a challenge are evaluated first. Only then the caps are looked at, so a logic need not
read evaluations that end there if it reads the chance of the challenge.
-/

/-- The numbers that the chance of a challenge is computed from. -/
structure Inputs where
  skill : Float
  target : Float
  params : Challenge.Params Float

def margin (env : Env) (self : Evaluator) (c : Challenge) (target : Float) (frame : Frame) :
    EvalM Float :=
  match c.margin with
  | some e => self.number e frame
  | none => defaultMargin env self target frame

def inputs (env : Env) (self : Evaluator) (c : Challenge) (frame : Frame) : EvalM Inputs := do
  let skill ← self.number c.subject frame
  let target ← self.number c.target frame
  let margin ← margin env self c target (frame.withTarget target)
  let minCap ← parameter self c.minCap env.config.minCap (frame.withTarget target)
  let maxCap ← parameter self c.maxCap env.config.maxCap (frame.withTarget target)
  let pivot ← parameter self c.pivot env.config.pivot (frame.withTarget target)
  return ⟨skill, target, margin, minCap, maxCap, pivot⟩

def Inputs.chance? (x : Inputs) (direction : Direction) : Option Float :=
  Challenge.chance? direction x.skill x.target x.params

/-- What is done with the inputs of a challenge. -/
def Inputs.percent (x : Inputs) (direction : Direction) : EvalM Float := do
  if x.params.margin ≤ 0 then EvalM.record (.stepMargin x.params.margin direction x.target)
  match x.chance? direction with
  | some percent => return percent
  | none => throw .unorderedCaps

theorem challengePercent_eq (env : Env) (self : Evaluator) (c : Challenge) (frame : Frame) :
    challengePercent env self c frame =
      inputs env self c frame >>= fun x => x.percent c.direction := by
  unfold challengePercent inputs margin
  cases c.margin <;> (simp only [bind_assoc, pure_bind]; rfl)

/-- The evaluators do what a challenge asks for: its parts, and the margin of the settings. -/
structure AnswersChallenge {env : Env} (L : Logic ι) (K : Kept env) (ev : ι → Evaluator)
    (c : Challenge) (start : Memory) : Prop where
  parts : ∀ e ∈ c.parts, L.Answers K ev (.expr e) start
  margin : c.margin = none → ∀ source e, env.config.margin = .expression source →
    Expr.parse source = .ok e → L.Answers K ev (.expr e) start

theorem gives_parameter {given : Option Expr} {default : Float}
    (hgiven : ∀ e ∈ given, L.Answers K self (.expr e) start) (h : K.At start mem frame) :
    L.Gives K (fun i => parameter (self i) given default frame) mem fun _ => True := by
  cases given with
  | none => exact h.pure trivial
  | some e => exact gives_number (hgiven e rfl) h

theorem gives_defaultMargin {target : Float}
    (hmargin : ∀ source e, env.config.margin = .expression source → Expr.parse source = .ok e →
      L.Answers K self (.expr e) start) (h : K.At start mem frame) :
    L.Gives K (fun i => defaultMargin (env.within (L.bounds i)) (self i) target frame) mem
      fun _ => True := by
  unfold defaultMargin
  simp only [Env.within_config, Config.within]
  cases hpolicy : env.config.margin with
  | fixed margin => exact h.pure trivial
  | multiple factor => exact h.pure trivial
  | expression source =>
    cases hparse : Expr.parse source with
    | ok e =>
      simp only [hparse]
      exact gives_number (hmargin source e hpolicy hparse) h
    | error error =>
      simp only [hparse]
      exact h.bind (h.record _) fun _ _ h' _ => h'.pure trivial

theorem gives_margin {c : Challenge} {target : Float} (hc : AnswersChallenge L K self c start)
    (h : K.At start mem frame) :
    L.Gives K (fun i => margin (env.within (L.bounds i)) (self i) c target frame) mem
      fun _ => True := by
  unfold margin
  cases hm : c.margin with
  | none => exact gives_defaultMargin (hc.margin hm) h
  | some e => exact gives_number (hc.parts e (by simp [Challenge.parts, hm])) h

/-- What the author gave is evaluated with the target bound. -/
theorem gives_inputs {c : Challenge} (hc : AnswersChallenge L K self c start)
    (h : K.At start mem frame) :
    L.Gives K (fun i => inputs (env.within (L.bounds i)) (self i) c frame) mem fun _ => True := by
  have hpart := hc.parts
  simp only [Challenge.parts, List.mem_cons, List.mem_append, Option.mem_toList] at hpart
  refine h.bind (gives_number (hpart _ (by simp)) h) fun skill mem₁ h₁ _ => ?_
  refine h₁.bind (gives_number (hpart _ (by simp)) h₁) fun target mem₂ h₂ _ => ?_
  have hin := h₂.inFrame (K.withTarget target h₂.frame)
  refine hin.bind (gives_margin hc hin) fun margin mem₃ h₃ _ => ?_
  refine h₃.bind (gives_parameter (fun e he => hpart e (by simp_all)) h₃) fun minCap mem₄ h₄ _ => ?_
  refine h₄.bind (gives_parameter (fun e he => hpart e (by simp_all)) h₄) fun maxCap mem₅ h₅ _ => ?_
  exact h₅.map (gives_parameter (fun e he => hpart e (by simp_all)) h₅) fun _ _ => trivial

/-- With inputs that have a chance, what follows them reads well in every logic. -/
theorem gives_percent {x : Inputs} {direction : Direction}
    (hchance : x.chance? direction = none → L.Lenient) (h : K.At start mem frame) :
    L.Gives K (fun _ => x.percent direction) mem fun _ => True := by
  have hcapped {mem : Memory} (h : K.At start mem frame) :
      L.Gives K (fun _ => match x.chance? direction with
        | some percent => pure percent
        | none => throw .unorderedCaps) mem fun _ => True := by
    cases hx : x.chance? direction with
    | some percent => exact h.pure trivial
    | none => exact (hchance hx).fail
  unfold Inputs.percent
  by_cases hstep : x.params.margin ≤ 0
  · simp only [hstep, if_true]
    exact h.bind (h.record _) fun _ _ h' _ => hcapped h'
  · simp only [hstep]
    exact hcapped h

theorem gives_challengePercent [L.Lenient] {c : Challenge}
    (hc : AnswersChallenge L K self c start) (h : K.At start mem frame) :
    L.GivesChance K self c mem frame := by
  unfold Logic.GivesChance
  simp only [challengePercent_eq]
  exact h.bind (gives_inputs hc h) fun _ _ h' _ => gives_percent (fun _ => inferInstance) h'

/-- In a lenient logic a challenge has a chance if what the expression asks for is answered. -/
theorem givesChance_of_inner [L.Lenient] {e : Expr} {c : Challenge} (hc : e.challenge? = some c)
    (hinner : L.AnswersInner K self (.expr e) start) (h : K.At start mem frame) :
    L.GivesChance K self c mem frame := by
  refine gives_challengePercent ⟨fun p hp => hinner _ (.asked (.part ?_)), fun hnone _ _ hm he =>
    hinner _ (.margin hc hnone hm he)⟩ h
  rwa [Expr.parts_of_challenge? hc]

theorem gives_challenge {c : Challenge} (hc : L.GivesChance K self c mem frame)
    (h : K.At start mem frame) :
    L.Gives K (fun i => challenge (env.within (L.bounds i)) (self i) c frame) mem K.value := by
  unfold challenge
  refine h.bind hc fun percent mem' h' _ => ?_
  by_cases hroll : c.roll
  · simp only [hroll, if_true]
    exact h'.map (h'.draw proper_percent) fun _ _ => K.plain trivial
  · simp only [hroll]
    exact h'.pure (K.plain trivial)

theorem gives_range {lo hi : Int64} (h : K.At start mem frame) :
    L.Gives K (fun i => range (env.within (L.bounds i)) lo hi) mem K.value := by
  unfold range
  split
  exact h.map (h.draw (proper_between _ _)) fun _ _ => K.plain trivial

/-! ## Effects -/

theorem gives_aims {target : EffectTarget} (h : K.At start mem frame) :
    L.Gives K (fun i => aims (env.within (L.bounds i)) frame target) mem fun list =>
      ∀ aim ∈ list, aim.Fits frame := by
  cases target with
  | quality reference =>
    cases hscope : reference.scope with
    | self =>
      cases hself : frame.self with
      | some binding =>
        simp only [aims, hscope, hself]
        exact h.pure fun aim haim => .inr ⟨binding, hself, List.mem_singleton.mp haim⟩
      | none =>
        simp only [aims, hscope, hself]
        exact h.bind (h.record _) fun _ _ h' _ =>
          h'.pure fun _ haim => absurd haim List.not_mem_nil
    | _ =>
      simp only [aims, hscope]
      refine h.pure fun aim haim => .inl ?_
      cases List.mem_singleton.mp haim
      exact ⟨Scope.noConfusion, rfl⟩
  | category name =>
    have hmembers {mem : Memory} (h : K.At start mem frame) :
        L.Gives K (fun _ => pure ((env.registry.inCategory name).map fun d =>
          (⟨.player, d.id, none⟩ : Aim))) mem fun list => ∀ aim ∈ list, aim.Fits frame := by
      refine h.pure fun aim haim => ?_
      obtain ⟨d, -, rfl⟩ := List.mem_map.mp haim
      exact .inl ⟨Scope.noConfusion, rfl⟩
    by_cases hempty : (env.registry.inCategory name).isEmpty
    · simp only [aims, Env.within_registry, hempty, if_true]
      exact h.bind (h.record _) fun _ _ h' _ => hmembers h'
    · simp only [aims, Env.within_registry, hempty]
      exact hmembers h

theorem gives_amount {given : Option Expr}
    (hgiven : ∀ e ∈ given, L.Answers K self (.expr e) start) (h : K.At start mem frame) :
    L.Gives K (fun i => amount (self i) given frame) mem K.value := by
  cases given with
  | none => exact h.pure (K.plain trivial)
  | some e => exact hgiven e rfl h

theorem gives_description {given : Option String}
    (hgiven : ∀ text ∈ given, L.Answers K self (.expand false text) start)
    (h : K.At start mem frame) :
    L.Gives K (fun i => description (self i) given frame) mem fun _ => True := by
  cases given with
  | none => exact h.pure trivial
  | some text => exact h.map (hgiven text rfl h) fun _ _ => trivial

theorem progress_foldl {aims : List Aim} {p : Progress} {e : EffectExpr} {amount : Value}
    {description : Option String} (haims : ∀ aim ∈ aims, aim.Fits frame) (hframe : K.frame frame)
    (hamount : K.value amount) (hp : K.progress p) :
    K.progress (aims.foldl (fun p aim => p.add env e amount description aim) p) := by
  induction aims generalizing p with
  | nil => exact hp
  | cons aim rest ih =>
    exact ih (fun a ha => haims a (.tail _ ha)) (K.add hp hframe (haims aim (.head _)) hamount)

theorem gives_effectsFrom {list : List EffectExpr} {p : Progress}
    (hparts : ∀ e ∈ list.flatMap EffectExpr.parts, L.Answers K self (.expr e) start)
    (htexts : ∀ text ∈ list.filterMap (·.notes.description),
      L.Answers K self (.expand false text) start)
    (hp : K.progress p) (h : K.At start mem frame) :
    L.Gives K (fun i => effectsFrom (env.within (L.bounds i)) (self i) frame p list) mem
      K.progress := by
  induction list generalizing mem p with
  | nil => exact h.pure hp
  | cons e rest ih =>
    simp only [List.flatMap_cons, List.mem_append, EffectExpr.parts, Option.mem_toList] at hparts
    refine h.bind (gives_amount (fun e' he' => hparts e' (.inl he')) h) fun v mem₁ h₁ hv => ?_
    have htext : ∀ text ∈ e.notes.description, L.Answers K self (.expand false text) start :=
      fun text ht => htexts text (List.mem_filterMap.mpr ⟨e, .head _, ht⟩)
    refine h₁.bind (gives_description htext h₁) fun d mem₂ h₂ _ => ?_
    refine h₂.bind (gives_aims h₂) fun aims mem₃ h₃ haims => ?_
    refine ih (fun e' he' => hparts e' (.inr he')) (fun text ht => htexts text ?_)
      (progress_foldl haims h₃.frame hv hp) h₃
    obtain ⟨e', he', ht⟩ := List.mem_filterMap.mp ht
    exact List.mem_filterMap.mpr ⟨e', .tail _ he', ht⟩

theorem gives_effects (post : Effect → Prop) {list : List EffectExpr}
    (hparts : ∀ e ∈ list.flatMap EffectExpr.parts, L.Answers K self (.expr e) start)
    (htexts : ∀ text ∈ list.filterMap (·.notes.description),
      L.Answers K self (.expand false text) start)
    (hpost : ∀ p, K.progress p → post p.changes) (h : K.At start mem frame) :
    L.Gives K (fun i => effects (env.within (L.bounds i)) (self i) list frame) mem post := by
  unfold effects
  exact h.map (gives_effectsFrom hparts htexts K.start h) hpost

/-! ## Calls -/

theorem gives_passing {filter : Expr} (hfilter : L.Answers K self (.expr filter) start)
    {members : List Quality.Definition} (h : K.At start mem frame) :
    L.Gives K (fun i => passing (self i) filter frame members) mem fun _ => True := by
  induction members generalizing mem with
  | nil => exact h.pure trivial
  | cons d rest ih =>
    refine h.bind (hfilter (h.inFrame (K.bound d.id h.frame))) fun v mem₁ h₁ _ => ?_
    exact h₁.bind (ih h₁) fun ids mem₂ h₂ _ => h₂.pure trivial

theorem gives_candidates {category : String} {filter : Option Expr}
    (hfilter : ∀ e ∈ filter, L.Answers K self (.expr e) start) (h : K.At start mem frame) :
    L.Gives K (fun i => candidates (env.within (L.bounds i)) (self i) category filter frame) mem
      fun _ => True := by
  cases filter with
  | none =>
    simp only [candidates, Env.within_registry]
    exact h.pure trivial
  | some filter =>
    simp only [candidates, Env.within_registry]
    exact gives_passing (hfilter filter rfl) h

theorem gives_displayName {id : String} (hbelow : L.AnswersBelow K self start)
    (h : K.At start mem frame) :
    L.Gives K (fun i => displayName (env.within (L.bounds i)) (self i) frame id) mem
      fun _ => True := by
  unfold displayName
  simp only [Env.within_registry]
  cases hd : env.registry.quality? id with
  | none => exact h.pure trivial
  | some d =>
    by_cases hempty : d.name.isEmpty
    · simp only [hempty, if_true]
      exact h.pure trivial
    · simp only [hempty]
      exact gives_expandOwned hbelow h (K.bound id h.frame)

theorem gives_names {ids : List String} (hbelow : L.AnswersBelow K self start)
    (h : K.At start mem frame) :
    L.Gives K (fun i => ids.mapM (displayName (env.within (L.bounds i)) (self i) frame)) mem
      fun _ => True := by
  induction ids generalizing mem with
  | nil => exact h.pure trivial
  | cons id rest ih =>
    simp only [List.mapM_cons]
    refine h.bind (gives_displayName hbelow h) fun name mem₁ h₁ _ => ?_
    exact h₁.map (ih h₁) fun _ _ => trivial

theorem gives_random {chance : Expr} {invert : Bool}
    (hchance : L.Answers K self (.expr chance) start) (h : K.At start mem frame) :
    L.Gives K (fun i => random (env.within (L.bounds i)) (self i) chance invert frame) mem
      K.value := by
  unfold random
  refine h.bind (gives_number hchance h) fun percent mem' h' _ => ?_
  exact h'.map (h'.draw proper_percent) fun _ _ => K.plain trivial

theorem gives_pickCount {count : Option Expr}
    (hcount : ∀ e ∈ count, L.Answers K self (.expr e) start) (h : K.At start mem frame) :
    L.Gives K (fun i => pickCount (self i) count frame) mem fun _ => True := by
  cases count with
  | none => exact h.pure trivial
  | some e => exact h.map (gives_number (hcount e rfl) h) fun _ _ => trivial

theorem gives_pick {category : String} {count filter : Option Expr}
    (hcount : ∀ e ∈ count, L.Answers K self (.expr e) start)
    (hfilter : ∀ e ∈ filter, L.Answers K self (.expr e) start) (h : K.At start mem frame) :
    L.Gives K (fun i => pick (env.within (L.bounds i)) (self i) category count filter frame) mem
      K.value := by
  unfold pick
  refine h.bind (gives_candidates hfilter h) fun ids mem₁ h₁ _ => ?_
  refine h₁.bind (gives_pickCount hcount h₁) fun n mem₂ h₂ _ => ?_
  have hdrawn {mem : Memory} (h : K.At start mem frame) :
      L.Gives K (fun i => do return .ids (← EvalM.draw (chooseMany (L.bounds i).attempts n ids)))
        mem K.value :=
    h.map (h.draw (proper_chooseMany n ids)) fun _ _ => K.plain trivial
  by_cases hempty : ids.isEmpty
  · simp only [hempty, if_true]
    exact h₂.bind (h₂.record _) fun _ _ h' _ => hdrawn h'
  · simp only [hempty]
    exact hdrawn h₂

theorem gives_roll {category : String} {filter : Option Expr}
    (hfilter : ∀ e ∈ filter, L.Answers K self (.expr e) start) (h : K.At start mem frame) :
    L.Gives K (fun i => roll (env.within (L.bounds i)) (self i) category filter frame) mem
      K.value := by
  unfold roll
  refine h.bind (gives_candidates hfilter h) fun ids mem₁ h₁ _ => ?_
  refine h₁.bind (h₁.draw (proper_weighted (ids.map (weight env)))) fun place mem₂ h₂ _ => ?_
  cases place with
  | some place => exact h₂.pure (K.plain trivial)
  | none => exact h₂.bind (h₂.record _) fun _ _ h' _ => h'.pure (K.plain trivial)

theorem gives_call_of_chance {c : Call}
    (hinner : L.AnswersInner K self (.expr (.call c)) start)
    (hbelow : L.AnswersBelow K self start)
    (hchance : ∀ challenge, (Expr.call c).challenge? = some challenge →
      L.GivesChance K self challenge mem frame) (h : K.At start mem frame) :
    L.Gives K (fun i => call (env.within (L.bounds i)) (self i) c frame) mem K.value := by
  have hpart (e : Expr) (he : e ∈ c.parts) : L.Answers K self (.expr e) start :=
    hinner _ (.asked (.part he))
  cases c with
  | random chance invert => exact gives_random (hpart chance (by simp [Call.parts])) h
  | pick category count filter =>
    exact gives_pick (fun e he => hpart e (by simp_all [Call.parts]))
      (fun e he => hpart e (by simp_all [Call.parts])) h
  | roll category filter => exact gives_roll (fun e he => hpart e (by simp_all [Call.parts])) h
  | list category separator filter =>
    refine h.bind (gives_candidates (fun e he => hpart e (by simp_all [Call.parts])) h)
      fun ids mem₁ h₁ _ => ?_
    exact h₁.map (gives_names hbelow h₁) fun _ _ => K.plain trivial
  | all category =>
    simp only [call, Env.within_registry]
    exact h.pure (K.plain trivial)
  | schedule kind effect amount unit =>
    simp only [Call.parts, List.mem_append, List.mem_singleton] at hpart
    have heffects := gives_effects
      (fun changes => ∀ duration, K.value (.pending ⟨kind, changes, duration⟩))
      (fun e he => hpart e (.inl he)) (fun text ht => hinner _ (.asked (.description ht)))
      (fun p hp duration => K.pending kind duration hp) h
    refine h.bind heffects fun changes mem₁ h₁ hchanges => ?_
    exact h₁.map (gives_number (hpart amount (.inr rfl)) h₁) fun n _ => hchanges _
  | chance challenge => exact h.map (hchance challenge rfl) fun _ _ => K.plain trivial

theorem gives_call [L.Lenient] {c : Call} (hinner : L.AnswersInner K self (.expr (.call c)) start)
    (hbelow : L.AnswersBelow K self start) (h : K.At start mem frame) :
    L.Gives K (fun i => call (env.within (L.bounds i)) (self i) c frame) mem K.value :=
  gives_call_of_chance hinner hbelow (fun _ hc => givesChance_of_inner hc hinner h) h

theorem gives_expr {e : Expr} (hinner : L.AnswersInner K self (.expr e) start)
    (hbelow : L.AnswersBelow K self start)
    (hchance : ∀ c, e.challenge? = some c → L.GivesChance K self c mem frame)
    (h : K.At start mem frame) :
    L.Gives K (fun i => expr (env.within (L.bounds i)) (self i) e frame) mem K.value := by
  have hpart (e' : Expr) (he : e' ∈ e.parts) : L.Answers K self (.expr e') start :=
    hinner _ (.asked (.part he))
  cases e with
  | literal value => exact gives_literal hbelow h
  | ref r => exact gives_reference hbelow h
  | aliasName name => exact gives_aliasValue h
  | word text => exact h.pure (K.plain (isPlain_word text frame))
  | call c => exact gives_call_of_chance hinner hbelow hchance h
  | neg inner =>
    exact h.map (gives_number (hpart inner (.head _)) h) fun _ _ => K.plain (isPlain_ofFloat _)
  | not inner => exact h.map (hpart inner (.head _) h) fun _ _ => K.plain trivial
  | arith op lhs rhs =>
    refine h.bind (hpart lhs (.head _) h) fun x mem₁ h₁ _ => ?_
    exact h₁.bind (hpart rhs (.tail _ (.head _)) h₁) fun y mem₂ h₂ _ => gives_arith h₂
  | compare op lhs rhs =>
    refine h.bind (hpart lhs (.head _) h) fun x mem₁ h₁ _ => ?_
    exact h₁.map (hpart rhs (.tail _ (.head _)) h₁) fun _ _ => K.plain trivial
  | and items => exact h.map (gives_allTrue hpart h) fun _ _ => K.plain trivial
  | or items => exact h.map (gives_anyTrue hpart h) fun _ _ => K.plain trivial
  | challenge c => exact gives_challenge (hchance c rfl) h
  | effect list =>
    exact h.map (gives_effects (fun changes => K.value (.effect changes)) hpart
      (fun text ht => hinner _ (.asked (.description ht))) (fun p hp => K.effect hp) h) fun _ hv => hv
  | range lo hi =>
    refine h.bind (gives_number (hpart lo (.head _)) h) fun x mem₁ h₁ _ => ?_
    refine h₁.bind (gives_number (hpart hi (.tail _ (.head _))) h₁) fun y mem₂ h₂ _ => ?_
    exact gives_range h₂

/-! ## Templates -/

theorem gives_blockText {content : String}
    (hcontent : L.Answers K self (.content .inText content) start)
    (hbelow : L.AnswersBelow K self start) (h : K.At start mem frame) :
    L.Gives K (fun i => blockText (env.within (L.bounds i)) (self i) content frame) mem
      fun _ => True := by
  refine h.bind (hcontent h) fun o mem₁ h₁ _ => ?_
  by_cases hdone : o.settled || !hasBrace o.value.display
  · simp only [hdone, if_true]
    exact h₁.pure trivial
  · simp only [hdone, Env.within_config]
    refine h₁.descend (fun mem' h' => h'.pure trivial) fun mem' hleft h' => ?_
    exact hbelow (.expand false o.value.display) mem' hleft h'

theorem gives_segments (template : Template)
    (hblocks : ∀ content, .block content ∈ template →
      L.Answers K self (.content .inText content) start)
    (hbelow : L.AnswersBelow K self start) (h : K.At start mem frame) :
    L.Gives K (fun i => segments (env.within (L.bounds i)) (self i) frame template) mem
      fun _ => True := by
  induction template generalizing mem with
  | nil => exact h.pure trivial
  | cons segment rest ih =>
    have hrest {mem : Memory} (h : K.At start mem frame) :=
      ih (fun content hc => hblocks content (.tail _ hc)) h
    cases segment with
    | literal text => exact h.map (hrest h) fun _ _ => trivial
    | block content =>
      refine h.bind (gives_blockText (hblocks content (.head _)) hbelow h) fun text mem₁ h₁ _ => ?_
      exact h₁.map (hrest h₁) fun _ _ => trivial

theorem gives_expand {quotesKept : Bool} {input : String}
    (hinner : L.AnswersInner K self (.expand quotesKept input) start)
    (hbelow : L.AnswersBelow K self start) (h : K.At start mem frame) :
    L.Gives K (fun i => expand (env.within (L.bounds i)) (self i) quotesKept input frame) mem
      fun _ => True := by
  have hsegments {mem : Memory} (h : K.At start mem frame) :=
    gives_segments (scan quotesKept input).1 (fun c hc => hinner _ (.asked (.block hc))) hbelow h
  by_cases hbrace : hasBrace input
  · simp only [expand, hbrace, if_true]
    cases herrors : (scan quotesKept input).2 with
    | nil => exact hsegments h
    | cons error _ => exact h.bind (h.record _) fun _ _ h' _ => hsegments h'
  · simp only [expand, hbrace]
    exact h.pure trivial

/-! ## The step -/

/-- A step over evaluators that answer what a task asks for does the task well, if the challenge that
it is, or asks the chance of, has one. -/
theorem gives_step {t : Task} (hinner : L.AnswersInner K self t start)
    (hbelow : L.AnswersBelow K self start)
    (hchance : ∀ c, t.challenge? = some c → L.GivesChance K self c mem frame)
    (h : K.At start mem frame) :
    L.Gives K (fun i => ((self i).step (env.within (L.bounds i))).run t frame) mem
      (K.result t) := by
  cases t with
  | content mode input => exact gives_content hinner h
  | leaf input =>
    simp only [Evaluator.run, Evaluator.step, Kept.result]
    exact gives_leaf hinner hbelow h
  | expr e => exact gives_expr hinner hbelow hchance h
  | expand quotesKept input => exact gives_expand hinner hbelow h

/-- Evaluators built over evaluators that answer what a task asks for answer the task. -/
theorem answers_step [L.Lenient] {t : Task} (hinner : L.AnswersInner K self t start)
    (hbelow : L.AnswersBelow K self start) :
    L.Answers K (fun i => (self i).step (env.within (L.bounds i))) t start := by
  intro mem frame h
  refine gives_step hinner hbelow (fun c hc => ?_) h
  cases t with
  | expr e => exact givesChance_of_inner hc hinner h
  | _ => cases hc

/-- In a logic that says nothing of what is unfinished, an evaluator answers all tasks: the induction
is on how deep it nests. -/
theorem answers_evaluator [L.Lenient]
    (hunfinished : ∀ {α : Type} (mem : Memory) (post : α → Memory → Prop),
      L.rel (fun _ => throw .unfinished) mem post) (fuel : Nat) (t : Task) (start : Memory) :
    L.Answers K (fun i => evaluator (env.within (L.bounds i)) fuel) t start := by
  induction fuel generalizing t start with
  | zero =>
    intro mem frame _
    cases t <;> exact hunfinished mem _
  | succ fuel ih => exact answers_step (fun t' _ => ih t' start) fun t' mem _ => ih t' mem

end QualityScript.Eval
