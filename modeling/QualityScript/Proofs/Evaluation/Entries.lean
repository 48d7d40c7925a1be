import QualityScript.Proofs.Evaluation.Steps
import QualityScript.Engine

/-!
# Calls of the engine

Every call of the engine asks an evaluator for some tasks and does little more than put the results
together. Where the evaluators answer all tasks, a call therefore reads well in every logic. In the
logic of one evaluation, where it ends with a value, the value and the memory are as they should be;
what is kept on the way is then kept by the evaluator of any call.
-/

namespace QualityScript

open Quality Randomness

variable {ι : Type} {env : Env} {L : Logic ι} {K : Kept env} {self : ι → Evaluator}
  {start mem : Memory} {frame : Frame}

namespace Engine

theorem gives_check (hall : ∀ t, L.Answers K self t start) (h : K.At start mem frame)
    (condition : String) :
    L.Gives K (fun i => check (self i) condition frame) mem fun _ => True := by
  unfold check
  by_cases hblank : (Text.trimmed (blockContent condition)).isEmpty
  · simp only [hblank, if_true]
    exact h.pure trivial
  · simp only [hblank]
    exact h.map (hall (.content .standalone (blockContent condition)) h) fun _ _ => trivial

theorem gives_checkAll (hall : ∀ t, L.Answers K self t start) (h : K.At start mem frame)
    (conditions : List String) :
    L.Gives K (fun i => checkAll (self i) frame conditions) mem fun _ => True := by
  induction conditions generalizing mem with
  | nil => exact h.pure trivial
  | cons condition rest ih =>
    refine h.bind (gives_check hall h condition) fun holds mem' h' _ => ?_
    cases holds with
    | true => exact ih h'
    | false => exact h'.pure trivial

/-- The challenge that an option reads from a text, if it is one. -/
def optionChallenge? (challenge : String) : Option Challenge :=
  (Expr.parseChallenge (Text.trimmed (blockContent challenge))).toOption

theorem gives_optionChance (challenge : String)
    (hchance : ∀ c, optionChallenge? challenge = some c → L.GivesChance K self c mem frame)
    (h : K.At start mem frame) :
    L.Gives K (fun i => optionChance (env.within (L.bounds i)) (self i) challenge frame) mem
      fun _ => True := by
  unfold optionChance
  cases hparse : Expr.parseChallenge (Text.trimmed (blockContent challenge)) with
  | ok c => exact hchance c (by rw [optionChallenge?, hparse]; rfl)
  | error error => exact h.bind (h.record _) fun _ _ h' _ => h'.pure trivial

theorem gives_rollOption_of_chance (challenge : Option String)
    (hchance : ∀ c, challenge.bind optionChallenge? = some c → L.GivesChance K self c mem frame)
    (h : K.At start mem frame) :
    L.Gives K (fun i => rollOption (env.within (L.bounds i)) (self i) challenge frame) mem
      fun _ => True := by
  cases challenge with
  | none => exact h.pure trivial
  | some challenge =>
    refine h.bind (gives_optionChance challenge hchance h) fun percent mem' h' _ => ?_
    exact h'.map (h'.draw proper_percent) fun _ _ => trivial

theorem givesChance_of_all [L.Lenient] (hall : ∀ t, L.Answers K self t start)
    (h : K.At start mem frame) (c : Challenge) : L.GivesChance K self c mem frame :=
  Eval.gives_challengePercent ⟨fun _ _ => hall _, fun _ _ _ _ _ => hall _⟩ h

theorem gives_rollOption [L.Lenient] (hall : ∀ t, L.Answers K self t start)
    (h : K.At start mem frame) (challenge : Option String) :
    L.Gives K (fun i => rollOption (env.within (L.bounds i)) (self i) challenge frame) mem
      fun _ => True :=
  gives_rollOption_of_chance challenge (fun c _ => givesChance_of_all hall h c) h

theorem gives_runScripts (hall : ∀ t, L.Answers K self t start) (h : K.At start mem frame)
    (scripts : List String) :
    L.Gives K (fun i => runScripts (self i) frame scripts) mem fun _ => True := by
  induction scripts generalizing mem with
  | nil => exact h.pure trivial
  | cons script rest ih =>
    refine h.bind (hall (.content .standalone (blockContent script)) h) fun o mem' h' _ => ?_
    refine h'.bind (ih h') fun _ mem'' h'' _ => ?_
    split
    · split <;> exact h''.pure trivial

theorem gives_chooseOption (o : Content.EventOption) (hall : ∀ t, L.Answers K self t start)
    (hchance : ∀ c, o.challenge.bind optionChallenge? = some c →
      L.GivesChance K self c mem frame) (h : K.At start mem frame) :
    L.Gives K (fun i => chooseOption (env.within (L.bounds i)) (self i) o frame) mem
      fun _ => True := by
  refine h.bind (gives_rollOption_of_chance o.challenge hchance h)
    fun ⟨chance, passed⟩ mem' h' _ => ?_
  exact h'.map (gives_runScripts hall h' (if passed then o.successEffects else o.failureEffects))
    fun _ _ => trivial

theorem run_eq {α : Type} (engine : Engine) (fuel : Nat) (states : Snapshot) (options : CallOptions)
    (m : Env → Evaluator → Frame → EvalM α) :
    engine.run fuel states options m =
      let env := engine.env fuel states
      let ended := (m env (evaluator env fuel) (.new options.depth options.self)).runOn
        (.fresh (options.source.getD engine.fallbackSource))
      ⟨ended.1, ended.2⟩ := rfl

end Engine

namespace RenderedQuality

theorem gives_renderVariants (hall : ∀ t, L.Answers K self t start) (h : K.At start mem frame)
    (variants : List (String × String)) :
    L.Gives K (fun i => renderVariants (self i) frame variants) mem fun _ => True := by
  induction variants generalizing mem with
  | nil => exact h.pure trivial
  | cons variant rest ih =>
    obtain ⟨key, text⟩ := variant
    refine h.bind (hall (.expand false text) h) fun text mem' h' _ => ?_
    exact h'.map (ih h') fun _ _ => trivial

theorem gives_defined (hall : ∀ t, L.Answers K self t start) (h : K.At start mem frame)
    (id : String) (d : Definition) (holding : Holding) :
    L.Gives K (fun i => defined (self i) id d holding frame) mem fun _ => True := by
  have hrest {mem : Memory} (h : K.At start mem frame) (name description plural : String) :
      L.Gives K (fun i => do
        let variants ← renderVariants (self i) frame d.variants.entries
        let bonus ← (self i).expand false (bonusTemplate holding d) frame
        return ({ id, kind := holding.kind, name, description, plural, variants, bonus, holding,
                  categories := d.categories, tags := d.tags, image := d.image } :
          RenderedQuality)) mem fun _ => True := by
    refine h.bind (gives_renderVariants hall h d.variants.entries) fun variants mem' h' _ => ?_
    exact h'.map (hall (.expand false (bonusTemplate holding d)) h') fun _ _ => trivial
  have hnamed {mem : Memory} (h : K.At start mem frame) (name : String) (plural : ι → EvalM String)
      (hplural : ∀ {mem}, K.At start mem frame → L.Gives K plural mem fun _ => True) :
      L.Gives K (fun i => do
        let description ← (self i).expand false d.description frame
        let plural ← plural i
        let variants ← renderVariants (self i) frame d.variants.entries
        let bonus ← (self i).expand false (bonusTemplate holding d) frame
        return ({ id, kind := holding.kind, name, description, plural, variants, bonus, holding,
                  categories := d.categories, tags := d.tags, image := d.image } :
          RenderedQuality)) mem fun _ => True := by
    refine h.bind (hall (.expand false d.description) h) fun description mem' h' _ => ?_
    exact h'.bind (hplural h') fun plural _ h'' _ => hrest h'' _ _ plural
  cases hplural : d.plural with
  | some plural =>
    have hgiven {mem : Memory} (h : K.At start mem frame) :=
      hall (.expand false plural) h
    by_cases hname : d.name.isEmpty
    · simp only [defined, hname, hplural, if_true]
      exact hnamed h id _ hgiven
    · simp only [defined, hname, hplural]
      exact h.bind (hall (.expand false d.name) h) fun name _ h' _ => hnamed h' name _ hgiven
  | none =>
    by_cases hname : d.name.isEmpty
    · simp only [defined, hname, hplural, if_true]
      exact hnamed h id _ fun h => h.pure trivial
    · simp only [defined, hname, hplural]
      exact h.bind (hall (.expand false d.name) h) fun name _ h' _ =>
        hnamed h' name _ fun h => h.pure trivial

theorem gives_render (hall : ∀ t, L.Answers K self t start) (h : K.At start mem frame)
    (hframe : ∀ binding, K.frame (.new frame.depth (some binding))) (id : String)
    (definition : Option Definition) (state : Option State) :
    L.Gives K
      (fun i => render (env.within (L.bounds i)) (self i) id definition state frame.depth) mem
      fun _ => True := by
  cases definition with
  | none =>
    simp only [render, Env.within_player]
    exact h.pure trivial
  | some d =>
    simp only [render, Env.within_player]
    exact gives_defined hall (h.inFrame (hframe _)) id d _

end RenderedQuality

/-! ## Calls that start with a challenge -/

/-- Whatever is inside, the evaluation starts with the chance of a challenge. -/
def Begins {α : Type} (m : Env → Evaluator → Frame → EvalM α) (c : Challenge) : Prop :=
  ∀ env self frame, ∃ rest, m env self frame = Eval.challengePercent env self c frame >>= rest

namespace Begins

variable {α β : Type} {c : Challenge}

theorem percent (c : Challenge) :
    Begins (fun env self frame => Eval.challengePercent env self c frame) c :=
  fun _ _ _ => ⟨pure, (bind_pure _).symm⟩

theorem bind {m : Env → Evaluator → Frame → EvalM α} (h : Begins m c)
    (f : Env → Evaluator → Frame → α → EvalM β) :
    Begins (fun env self frame => m env self frame >>= f env self frame) c := by
  intro env self frame
  obtain ⟨rest, hrest⟩ := h env self frame
  refine ⟨fun percent => rest percent >>= f env self frame, ?_⟩
  simp only [hrest, bind_assoc]

theorem optionChance {challenge : String} (h : Engine.optionChallenge? challenge = some c) :
    Begins (fun env self frame => Engine.optionChance env self challenge frame) c := by
  have hparse := eq_ok_of_toOption h
  simp only [Engine.optionChance, hparse]
  exact .percent c

theorem chooseOption {o : Content.EventOption}
    (h : o.challenge.bind Engine.optionChallenge? = some c) :
    Begins (fun env self frame => Engine.chooseOption env self o frame) c := by
  obtain ⟨challenge, ho, hc⟩ := Option.bind_eq_some_iff.mp h
  simp only [Engine.chooseOption, Engine.rollOption, ho]
  exact ((optionChance hc).bind _).bind _

end Begins

/-! ## All calls -/

/-- What a call does with an evaluator; it reads well where the evaluators answer all tasks and the
challenge that it starts with, if any, has a chance. -/
structure Entry {α : Type} (m : Env → Evaluator → Frame → EvalM α) : Prop where
  reads : ∀ {ι : Type} {L : Logic ι} {env : Env} {ev : ι → Evaluator} {start mem : Memory}
    {frame : Frame}, (∀ t, L.Answers (.nothing env) ev t start) →
    (∀ c, Begins m c → L.GivesChance (.nothing env) ev c mem frame) →
    (Kept.nothing env).At start mem frame →
    L.Gives (.nothing env) (fun i => m (env.within (L.bounds i)) (ev i) frame) mem fun _ => True

namespace Entry

theorem gives [L.Lenient] {α : Type} {m : Env → Evaluator → Frame → EvalM α} (hm : Entry m)
    (hall : ∀ t, L.Answers (.nothing env) self t start) (h : (Kept.nothing env).At start mem frame) :
    L.Gives (.nothing env) (fun i => m (env.within (L.bounds i)) (self i) frame) mem
      fun _ => True :=
  hm.reads hall (fun c _ => Engine.givesChance_of_all hall h c) h

theorem text (template : String) : Entry fun _ self frame => self.expand false template frame :=
  ⟨fun hall _ h => hall (.expand false template) h⟩

theorem condition (condition : String) :
    Entry fun _ self frame => Engine.check self condition frame :=
  ⟨fun hall _ h => Engine.gives_check hall h condition⟩

theorem block (template : String) :
    Entry fun _ self frame => do
      match Template.blockContent? template with
      | some content => return (← self.content .standalone content frame).value
      | none => return .text (← self.expand false template frame) :=
  ⟨fun hall _ h => by
    cases Template.blockContent? template with
    | some content => exact h.map (hall (.content .standalone content) h) fun _ _ => trivial
    | none => exact h.map (hall (.expand false template) h) fun _ _ => trivial⟩

theorem chance (input : String) :
    Entry fun env self frame => do
      match Engine.challengeOf? input with
      | some c => return some (Number.roundFloat (← Eval.challengePercent env self c frame))
      | none => return none :=
  ⟨fun _ hchance h => by
    cases hc : Engine.challengeOf? input with
    | some c =>
      simp only [hc] at hchance
      exact h.map (hchance c ((Begins.percent c).bind _)) fun _ _ => trivial
    | none => exact h.pure trivial⟩

theorem percent (c : Challenge) :
    Entry fun env self frame => Eval.challengePercent env self c frame :=
  ⟨fun _ hchance _ => hchance c (.percent c)⟩

theorem quality (id : String) (definition : Option Definition) (state : Option State) :
    Entry fun env self frame => RenderedQuality.render env self id definition state frame.depth :=
  ⟨fun hall _ h =>
    RenderedQuality.gives_render hall h (fun _ => trivial) id definition state⟩

theorem availability (event : Option Content.Event) :
    Entry fun _ self frame =>
      match event with
      | some event => Engine.checkAll self frame event.requirements
      | none => return false :=
  ⟨fun hall _ h => by
    cases event with
    | some event => exact Engine.gives_checkAll hall h event.requirements
    | none => exact h.pure trivial⟩

theorem choice (o : Option Content.EventOption) :
    Entry fun env self frame => do
      match o with
      | some o => return some (← Engine.chooseOption env self o frame)
      | none => return none :=
  ⟨fun hall hchance h => by
    cases o with
    | some o =>
      refine h.map (Engine.gives_chooseOption o hall (fun c hc => hchance c ?_) h) fun _ _ => trivial
      exact (Begins.chooseOption hc).bind _
    | none => exact h.pure trivial⟩

end Entry

/-- Whenever the evaluation ends with a value, the value and the memory are as wanted. -/
def Yields {α : Type} (m : EvalM α) (mem : Memory) (post : α → Memory → Prop) : Prop :=
  ∀ ⦃a mem'⦄, m.runOn mem = (.ok a, mem') → post a mem'

namespace Yields

variable {α β : Type} {mem : Memory}

theorem of_runOn {m : EvalM α} {a : α} {mem' : Memory} {post : α → Memory → Prop}
    (hrun : m.runOn mem = (.ok a, mem')) (h : post a mem') : Yields m mem post := by
  intro b mem'' h'
  cases hrun.symm.trans h'
  exact h

theorem throw (e : Abort) (post : α → Memory → Prop) :
    Yields (MonadExcept.throw e : EvalM α) mem post := by
  intro a mem' h
  cases h

theorem bind {m : EvalM α} {f : α → EvalM β} {post : β → Memory → Prop}
    (h : Yields m mem fun a mem' => Yields (f a) mem' post) : Yields (m >>= f) mem post := by
  intro b mem'' hrun
  obtain ⟨a, mem', hm, hf⟩ := EvalM.exists_of_runOn_bind hrun
  exact h hm hf

theorem draw {d : Draw α} {post : α → Memory → Prop}
    (h : ∀ a source, d mem.source = some (a, source) → post a { mem with source }) :
    Yields (EvalM.draw d) mem post := by
  intro a mem' hrun
  rw [EvalM.runOn_draw] at hrun
  split at hrun
  · cases hrun
  · next hd =>
    cases hrun
    exact h _ _ hd

theorem descend {config : Config} {frame : Frame} {snippet : String}
    {post : Option Frame → Memory → Prop}
    (hnone : post none (mem.record (Problem.tooDeep frame.depth snippet).diagnostic))
    (hsome : mem.expansions < config.expansionBudget → post (some frame.deeper) mem.spend) :
    Yields (EvalM.descend config frame snippet) mem post := by
  by_cases hstop : config.maxDepth ≤ frame.depth ∨ config.expansionBudget ≤ mem.expansions
  · exact of_runOn (by rw [EvalM.runOn_descend, if_pos hstop]) hnone
  · exact of_runOn (by rw [EvalM.runOn_descend, if_neg hstop]) (hsome (by omega))

end Yields

/-- Reading one evaluation within the bounds. -/
def Bounds.logic (b : Bounds) : Logic Unit where
  bounds _ := b
  budget := b.expansionBudget
  rel m := Yields (m ())
  pure h := .of_runOn rfl h
  bind := .bind
  mono h hpost := fun _ _ hrun => hpost _ _ (h hrun)
  record h := .of_runOn rfl h
  alias? h := .of_runOn rfl h
  bindAlias h := .of_runOn rfl h
  draw _ h := .draw fun a source hs => h _ a source hs
  descend hnone hsome := .descend hnone hsome

instance (b : Bounds) : b.logic.Lenient where
  fail {_ _ post} := Yields.throw _ post

def Env.bounds (env : Env) : Bounds :=
  ⟨env.config.maxDepth, env.config.expansionBudget, env.attempts⟩

/-- What is kept is kept by every evaluator of an environment. -/
theorem Env.answers (env : Env) (K : Kept env) (fuel : Nat) (t : Task) (start : Memory) :
    env.bounds.logic.Answers K (fun _ => evaluator env fuel) t start :=
  Eval.answers_evaluator (fun _ post => Yields.throw _ post) fuel t start

end QualityScript
