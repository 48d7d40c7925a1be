import QualityScript.Proofs.Evaluation.Blame

/-!
# Which calls fail

A call of the engine comes to challenges: to the one that it starts with, and to those that it hangs
on, one query after the other. It ends for want of ordered caps exactly if it comes to a challenge
with a cap that is no number, though its fraction is one. Where the settings have numbers as caps, such
a cap was given by the author of the challenge.
-/

namespace QualityScript

open Quality Content Randomness

/-- A challenge in a frame, from a memory, with so many steps left for its parts. -/
structure Encounter where
  fuel : Nat
  challenge : Challenge
  frame : Frame
  memory : Memory

/-- From a query the evaluator that nests `fuel` steps comes to a challenge: the query asks for it or
for its chance, or its answer hangs on a query from which the evaluator comes to the challenge. -/
inductive ComesTo (env : Env) : Nat → Query → Encounter → Prop where
  | here {fuel : Nat} {q : Query} {c : Challenge} : q.task.challenge? = some c →
      ComesTo env (fuel + 1) q ⟨fuel, c, q.frame, q.memory⟩
  | inside {fuel : Nat} {q q' : Query} {x : Encounter} :
      (evaluator env fuel).HangsOn (fun self => (self.step env).run q.task q.frame) q.memory q' →
      ComesTo env fuel q' x → ComesTo env (fuel + 1) q x

namespace Encounter

def CapsFail (env : Env) (x : Encounter) : Prop :=
  Eval.CapsFail env (evaluator env x.fuel) x.challenge x.frame x.memory

/-- The parts of the challenge have values. Its fraction is a number, but a cap that the author gave is
none. -/
def HasCapWithoutNumber (env : Env) (x : Encounter) : Prop :=
  ∃ values mem,
    (Eval.inputs env (evaluator env x.fuel) x.challenge x.frame).runOn x.memory =
      (.ok values, mem) ∧
    values.fraction x.challenge.direction ≤ values.fraction x.challenge.direction ∧
    (x.challenge.minCap.isSome ∧ ¬ values.params.minCap ≤ values.params.minCap ∨
      x.challenge.maxCap.isSome ∧ ¬ values.params.maxCap ≤ values.params.maxCap)

theorem capsFail_iff (env : Env) (hmin : env.config.minCap ≤ env.config.minCap)
    (hmax : env.config.maxCap ≤ env.config.maxCap) (x : Encounter) :
    x.CapsFail env ↔ x.HasCapWithoutNumber env := by
  have hgiven {values : Eval.Inputs} {mem : Memory}
      (hrun : (Eval.inputs env (evaluator env x.fuel) x.challenge x.frame).runOn x.memory =
        (.ok values, mem)) :
      ¬ (values.params.minCap ≤ values.params.minCap ∧
          values.params.maxCap ≤ values.params.maxCap) ↔
        x.challenge.minCap.isSome ∧ ¬ values.params.minCap ≤ values.params.minCap ∨
          x.challenge.maxCap.isSome ∧ ¬ values.params.maxCap ≤ values.params.maxCap := by
    obtain ⟨hminCap, hmaxCap⟩ := Eval.caps_of_inputs hrun
    rw [not_and_or]
    refine or_congr ?_ ?_
    · cases hcap : x.challenge.minCap with
      | some e => simp
      | none => simp [hminCap hcap, hmin]
    · cases hcap : x.challenge.maxCap with
      | some e => simp
      | none => simp [hmaxCap hcap, hmax]
  constructor
  · rintro ⟨values, mem, hrun, hnone⟩
    obtain ⟨hfraction, hcaps⟩ := Challenge.chance?_eq_none_iff.mp hnone
    exact ⟨values, mem, hrun, hfraction, (hgiven hrun).mp hcaps⟩
  · rintro ⟨values, mem, hrun, hfraction, hcaps⟩
    exact ⟨values, mem, hrun,
      Challenge.chance?_eq_none_iff.mpr ⟨hfraction, (hgiven hrun).mpr hcaps⟩⟩

end Encounter

/-! ## Evaluators -/

section Evaluators

variable {env : Env} {fuel : Nat}

theorem later_of_run (t : Task) (frame : Frame) (mem : Memory) :
    Yields ((evaluator env fuel).run t frame) mem fun _ mem' => mem.Later mem' := by
  intro a mem' hrun
  exact (env.answers (.nothing env) fuel t mem (Kept.at_nothing mem frame) hrun).1

/-- A step for a challenge, or for a call for its chance, evaluates the chance first. -/
theorem exists_rest_of_challenge? {self : Evaluator} {t : Task} {c : Challenge} {frame : Frame}
    (h : t.challenge? = some c) :
    ∃ rest, (self.step env).run t frame = Eval.challengePercent env self c frame >>= rest := by
  cases t with
  | expr e =>
    obtain rfl | rfl : e = .challenge c ∨ e = .call (.chance c) := by
      simp only [Task.challenge?, Expr.challenge?] at h
      split at h <;> cases h <;> simp
    · exact ⟨_, rfl⟩
    · exact ⟨_, rfl⟩
  | _ => cases h

/-- By induction on the steps left: a query fails for its own caps, or for a query that it hangs on. -/
theorem fails_iff_comesTo (q : Query) :
    (evaluator env fuel).Fails q ↔ ∃ x, ComesTo env fuel q x ∧ x.CapsFail env := by
  induction fuel generalizing q with
  | zero =>
    obtain ⟨t, frame, mem⟩ := q
    refine iff_of_false (fun hfails => ?_) fun ⟨x, hx, _⟩ => nomatch hx
    cases t <;> cases hfails
  | succ fuel ih =>
    have hall (t : Task) (start : Memory) :
        (env.bounds.blaming (evaluator env fuel)).Answers (.nothing env)
          (evaluator env fuel).orVariant t start :=
      answers_orVariant later_of_run t start
    have hstep := Eval.fails_iff (m := fun self => (self.step env).run q.task q.frame)
      (fun c => q.task.challenge? = some c) (fun t => hall t q.memory)
      (fun c hc => exists_rest_of_challenge? hc)
      (fun hchance => ⟨_, Eval.gives_step (fun t _ => hall t _) (fun t mem _ => hall t mem)
        hchance (Kept.at_nothing q.memory q.frame)⟩)
    refine hstep.trans ⟨?_, ?_⟩
    · rintro (⟨c, hc, hcaps⟩ | ⟨q', hfails, hhangs⟩)
      · exact ⟨_, .here hc, hcaps⟩
      · obtain ⟨x, hx, hcaps⟩ := (ih q').mp hfails
        exact ⟨x, .inside hhangs hx, hcaps⟩
    · rintro ⟨x, hx, hcaps⟩
      cases hx with
      | here hc => exact .inl ⟨_, hc, hcaps⟩
      | inside hhangs hx => exact .inr ⟨_, (ih _).mpr ⟨x, hx, hcaps⟩, hhangs⟩

end Evaluators

/-! ## Calls of the engine -/

/-- What the engine can be called for. -/
inductive Request where
  | text (template : String)
  | condition (source : String)
  | block (template : String)
  | chance (input : String)
  | definition (d : Definition) (state : Option State)
  | quality (id : String)
  | availability (event : String)
  | choice (event option : String)

namespace Request

abbrev Answer : Request → Type
  | .text _ => String
  | .condition _ | .availability _ => Bool
  | .block _ => Value
  | .chance _ => Option Float
  | .definition .. | .quality _ => RenderedQuality
  | .choice .. => Option OptionOutcome

def eval (registry : Registry) : (r : Request) → Env → Evaluator → Frame → EvalM r.Answer
  | .text template, _, self, frame => self.expand false template frame
  | .condition source, _, self, frame => Engine.check self source frame
  | .block template, _, self, frame => do
    match Template.blockContent? template with
    | some content => return (← self.content .standalone content frame).value
    | none => return .text (← self.expand false template frame)
  | .chance input, env, self, frame => do
    match Engine.challengeOf? input with
    | some c => return some (Number.roundFloat (← Eval.challengePercent env self c frame))
    | none => return none
  | .definition d state, env, self, frame =>
    RenderedQuality.render env self d.id (some d) state frame.depth
  | .quality id, env, self, frame =>
    RenderedQuality.render env self id (registry.quality? id) none frame.depth
  | .availability event, _, self, frame =>
    match registry.event? event with
    | some event => Engine.checkAll self frame event.requirements
    | none => return false
  | .choice event option, env, self, frame => do
    match (registry.event? event).bind fun e => e.option? option with
    | some o => return some (← Engine.chooseOption env self o frame)
    | none => return none

theorem entry (registry : Registry) (r : Request) : Entry (r.eval registry) := by
  cases r with
  | text template => exact .text template
  | condition source => exact .condition source
  | block template => exact .block template
  | chance input => exact .chance input
  | definition d state => exact .quality d.id (some d) state
  | quality id => exact .quality id (registry.quality? id) none
  | availability event => exact .availability (registry.event? event)
  | choice event option =>
    exact .choice ((registry.event? event).bind fun e => e.option? option)

end Request

namespace Engine

variable (engine : Engine) (fuel : Nat) (states : Snapshot) (options : CallOptions)

def answer : (r : Request) → Evaluation r.Answer
  | .text template => engine.evaluateText fuel template states options
  | .condition source => engine.evaluateCondition fuel source states options
  | .block template => engine.evaluateBlock fuel template states options
  | .chance input => engine.skillCheckChance fuel input states options
  | .definition d state => engine.renderDefinition fuel d state states options
  | .quality id => engine.renderQuality fuel id states options
  | .availability event => engine.isEventAvailable fuel event states options
  | .choice event option => engine.resolveOption fuel event option states options

theorem answer_eq_run (r : Request) :
    engine.answer fuel states options r =
      engine.run fuel states options (r.eval engine.registry) := by
  cases r <;> rfl

/-- A call comes to the challenge that it starts with, and to those that the evaluator comes to from
the queries that the call hangs on. -/
def ComesTo (r : Request) (x : Encounter) : Prop :=
  let env := engine.env fuel states
  let frame : Frame := .new options.depth options.self
  let mem := Memory.fresh (options.source.getD engine.fallbackSource)
  (∃ c, Begins (r.eval engine.registry) c ∧ x = ⟨fuel, c, frame, mem⟩) ∨
    ∃ q, (evaluator env fuel).HangsOn (fun self => r.eval engine.registry env self frame) mem q ∧
      QualityScript.ComesTo env fuel q x

/-- A call ends for want of ordered caps exactly if it comes to a challenge whose caps fail. -/
theorem fails_iff_comesTo (r : Request) :
    (engine.answer fuel states options r).result = .error .unorderedCaps ↔
      ∃ x, engine.ComesTo fuel states options r x ∧ x.CapsFail (engine.env fuel states) := by
  let env := engine.env fuel states
  let frame : Frame := .new options.depth options.self
  let mem := Memory.fresh (options.source.getD engine.fallbackSource)
  have hall (t : Task) : (env.bounds.blaming (evaluator env fuel)).Answers (.nothing env)
      (evaluator env fuel).orVariant t mem :=
    answers_orVariant later_of_run t mem
  have hcall := Eval.fails_iff (m := fun self => r.eval engine.registry env self frame)
    (Begins (r.eval engine.registry)) hall (fun c hc => hc env _ frame)
    (fun hchance => ⟨_, (r.entry engine.registry).reads hall hchance (Kept.at_nothing mem frame)⟩)
  rw [answer_eq_run]
  refine Iff.trans hcall ⟨?_, ?_⟩
  · rintro (⟨c, hc, hcaps⟩ | ⟨q, hfails, hhangs⟩)
    · exact ⟨_, .inl ⟨c, hc, rfl⟩, hcaps⟩
    · obtain ⟨x, hx, hcaps⟩ := (QualityScript.fails_iff_comesTo q).mp hfails
      exact ⟨x, .inr ⟨q, hhangs, hx⟩, hcaps⟩
  · rintro ⟨x, ⟨c, hc, rfl⟩ | ⟨q, hhangs, hx⟩, hcaps⟩
    · exact .inl ⟨c, hc, hcaps⟩
    · exact .inr ⟨q, (QualityScript.fails_iff_comesTo q).mpr ⟨x, hx, hcaps⟩, hhangs⟩

end Engine

/-! ## What else could fail -/

theorem Eval.range_eq_between (env : Env) (lo hi : Int64) :
    ∃ a b, a ≤ b ∧ Eval.range env lo hi =
      do return .int (← EvalM.draw (between env.attempts a b)) := by
  by_cases hle : lo ≤ hi
  · exact ⟨lo, hi, hle, by simp only [Eval.range, hle, if_true]⟩
  · refine ⟨hi, lo, ?_, by simp only [Eval.range, hle, if_false]⟩
    rw [Int64.le_iff_toInt_le] at hle ⊢
    omega

/-- What is drawn by weight is a candidate: its place is within the list. -/
theorem Eval.mem_of_roll {env : Env} {self : Evaluator} {category : String} {filter : Option Expr}
    {frame : Frame} {mem ended : Memory} {value : Value}
    (h : (Eval.roll env self category filter frame).runOn mem = (.ok value, ended)) :
    value = .empty ∨ ∃ ids mem',
      (Eval.candidates env self category filter frame).runOn mem = (.ok ids, mem') ∧
        ∃ id ∈ ids, value = .text id := by
  obtain ⟨ids, mem', hids, h⟩ := EvalM.exists_of_runOn_bind h
  obtain ⟨place, mem'', hplace, h⟩ := EvalM.exists_of_runOn_bind h
  cases place with
  | none =>
    cases h
    exact .inl rfl
  | some place =>
    rw [EvalM.runOn_draw] at hplace
    split at hplace
    · cases hplace
    · next hdrawn =>
      cases hplace
      cases h
      have hlt := lt_of_weighted hdrawn
      rw [List.length_map] at hlt
      refine .inr ⟨ids, mem', hids, ids[place], List.getElem_mem hlt, ?_⟩
      simp [hlt]

namespace Engine

/-- Where the settings have numbers as caps, a call ends early for its caps exactly if it comes to a
challenge whose fraction is a number, while a cap that the author gave evaluates to none. Ranges are
drawn from with their bounds in order, and what is drawn by weight is among the candidates. -/
theorem fails_iff_cap_without_number (engine : Engine) (fuel : Nat) (states : Snapshot)
    (options : CallOptions) (hmin : engine.config.minCap ≤ engine.config.minCap)
    (hmax : engine.config.maxCap ≤ engine.config.maxCap) :
    (∀ r : Request, (engine.answer fuel states options r).result = .error .unorderedCaps ↔
      ∃ x, engine.ComesTo fuel states options r x ∧
        x.HasCapWithoutNumber (engine.env fuel states)) ∧
    (∀ (env : Env) (lo hi : Int64), ∃ a b : Int64, a ≤ b ∧ Eval.range env lo hi =
      do return .int (← EvalM.draw (between env.attempts a b))) ∧
    ∀ (env : Env) (self : Evaluator) (category : String) (filter : Option Expr) (frame : Frame)
        (mem ended : Memory) (value : Value),
      (Eval.roll env self category filter frame).runOn mem = (.ok value, ended) →
      value = .empty ∨ ∃ ids mem',
        (Eval.candidates env self category filter frame).runOn mem = (.ok ids, mem') ∧
          ∃ id ∈ ids, value = .text id := by
  have hcaps := Encounter.capsFail_iff (engine.env fuel states) hmin hmax
  refine ⟨fun r => ?_, Eval.range_eq_between, fun _ _ _ _ _ _ _ _ => Eval.mem_of_roll⟩
  rw [fails_iff_comesTo]
  simp only [hcaps]

instance {α : Type} (x : Except Abort α) (e : Abort) : Decidable (x = .error e) :=
  match x with
  | .ok _ => .isFalse nofun
  | .error e' => decidable_of_iff (e' = e) (by simp)

/-- A cap that is a text is the number that it spells, and `nan` spells none. -/
theorem fails_iff_cap_without_number_of_nan :
    let engine : Engine := ⟨Library.empty.registry, .default, .zeros⟩
    let states : Snapshot := ⟨States.ofList [.new "skill" (.counter 2)], none⟩
    let comes (text : String) := ∃ x, engine.ComesTo 12 states .none (.text text) x ∧
      x.HasCapWithoutNumber (engine.env 12 states)
    engine.config.minCap ≤ engine.config.minCap ∧ engine.config.maxCap ≤ engine.config.maxCap ∧
      comes "\x7b$skill >> 4; 2, 'nan'\x7d" ∧ ¬ comes "\x7b$skill >> 4; 2, '5', 95\x7d" := by
  intro engine states comes
  have hmin : engine.config.minCap ≤ engine.config.minCap := by decide +kernel
  have hmax : engine.config.maxCap ≤ engine.config.maxCap := by decide +kernel
  have hcalls := (fails_iff_cap_without_number engine 12 states .none hmin hmax).1
  refine ⟨hmin, hmax, (hcalls (.text _)).mp ?_, fun hcomes => ?_⟩
  · decide +kernel
  · have hfails := (hcalls (.text _)).mpr hcomes
    revert hfails
    decide +kernel

/-- Asking for the chance of a challenge with such a cap gives no answer at all. -/
theorem chance_fails_of_nan :
    let engine : Engine := ⟨Library.empty.registry, .default, .zeros⟩
    let states : Snapshot := ⟨States.ofList [.new "skill" (.counter 2)], none⟩
    (engine.skillCheckChance 12 "$skill >> 4; 2, 'nan'" states .none).result =
      .error .unorderedCaps := by
  decide +kernel

end Engine

end QualityScript
