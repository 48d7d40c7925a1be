import QualityScript.Proofs.Effects.Computing
import QualityScript.Proofs.Evaluation.Entries

/-!
# The scripts of an option

The scripts of an option are evaluated one after the other, each one on the states that the call was
given. Inside one script the changes of a quality are linked. A script after the first does not see
what those before it changed, so their changes of a quality are lost unless they happen to leave it
as it was found.
-/

namespace QualityScript

open Quality Randomness

namespace Value

/-- The changes to be made at once. -/
def changes : Value → Effect
  | effect changes => changes
  | _ => []

/-- The changes to be made later. -/
def later? : Value → Option PendingEvent
  | pending event => some event
  | _ => none

theorem Computed.changes {env : Env} {v : Value} (h : v.Computed env) :
    Effect.Computed env v.changes := by
  cases v with
  | effect changes => exact h
  | _ => exact Eval.Progress.sound_start.computed

end Value

namespace Engine

def scriptValue (self : Evaluator) (frame : Frame) (script : String) : EvalM Value :=
  return (← self.content .standalone (blockContent script) frame).value

theorem runScripts_eq (self : Evaluator) (frame : Frame) (scripts : List String) :
    runScripts self frame scripts = (do
      let values ← scripts.mapM (scriptValue self frame)
      return ((values.map Value.changes).flatten, values.filterMap Value.later?)) := by
  induction scripts with
  | nil => rfl
  | cons script rest ih =>
    simp only [runScripts, ih, List.mapM_cons, scriptValue, bind_assoc, pure_bind]
    refine bind_congr fun o => bind_congr fun values => ?_
    cases o.value <;> rfl

variable {env : Env} {frame : Frame}

theorem computed_of_scripts (fuel : Nat) (scripts : List String) {start mem : Memory}
    (h : (Kept.computed env).At start mem frame) :
    env.bounds.logic.Gives (.computed env)
      (fun _ => scripts.mapM (scriptValue (evaluator env fuel) frame)) mem
      fun values => ∀ v ∈ values, v.Computed env := by
  induction scripts generalizing mem with
  | nil => exact h.pure fun v hv => nomatch hv
  | cons script rest ih =>
    simp only [List.mapM_cons, scriptValue, bind_assoc, pure_bind]
    have hscript := env.answers (.computed env) fuel (.content .standalone (blockContent script))
    refine h.bind (hscript start h) fun o mem' h' ho => ?_
    refine h'.map (ih h') fun values hvalues v hv => ?_
    obtain rfl | hv := List.mem_cons.mp hv
    · exact ho
    · exact hvalues v hv

/-- How an outcome comes about: a roll, then the values of the scripts that it leads to. -/
theorem exists_values_of_chooseOption {self : Evaluator} {o : Content.EventOption}
    {outcome : OptionOutcome} {mem ended : Memory}
    (h : (chooseOption env self o frame).runOn mem = (.ok outcome, ended)) :
    ∃ chance rolled values,
      (rollOption env self o.challenge frame).runOn mem = (.ok (chance, outcome.passed), rolled) ∧
      ((if outcome.passed then o.successEffects else o.failureEffects).mapM
        (scriptValue self frame)).runOn rolled = (.ok values, ended) ∧
      outcome.effect = (values.map Value.changes).flatten ∧
      outcome.pending = values.filterMap Value.later? ∧
      outcome.chance = chance.map Number.roundFloat := by
  obtain ⟨⟨chance, passed⟩, rolled, hroll, hrest⟩ := EvalM.exists_of_runOn_bind h
  simp only [runScripts_eq, bind_assoc, pure_bind] at hrest
  obtain ⟨values, ended', hvalues, hdone⟩ := EvalM.exists_of_runOn_bind hrest
  cases hdone
  exact ⟨chance, rolled, values, hroll, hvalues, rfl, rfl, rfl⟩

/-- The first change of a quality in computed effects starts from the states. -/
theorem finds_of_head {effects : List Effect} (h : ∀ effect ∈ effects, Effect.Computed env effect)
    {key : Scope × String} {c : Change} (hc : (Effect.on effects.flatten key).head? = some c) :
    env.Finds c := by
  induction effects with
  | nil => cases hc
  | cons effect rest ih =>
    rw [List.flatten_cons, Effect.on_append, List.head?_append] at hc
    cases hhead : (effect.on key).head? with
    | some c' =>
      rw [hhead] at hc
      cases hc
      exact (h effect (.head _)).first hhead
    | none =>
      rw [hhead] at hc
      exact ih (fun effect' h' => h effect' (.tail _ h')) hc

/-- Where no change of a quality is lost, writing computed effects one after the other leaves what
all changes together make of the first holding. -/
theorem holding?_of_linkedOn {effects : List Effect}
    (h : ∀ effect ∈ effects, Effect.Computed env effect) {key : Scope × String} {first : Change}
    (hlinked : Effect.LinkedOn effects.flatten key)
    (hfirst : (Effect.on effects.flatten key).head? = some first) (states : World) :
    (applyEffect effects.flatten states).holding? key =
      some ((Effect.on effects.flatten key).replay first.before) := by
  have hof {c : Change} (hc : c ∈ effects.flatten) : ∃ effect ∈ effects, c ∈ effect :=
    List.mem_flatten.mp hc
  have hscope : ∀ c ∈ effects.flatten, c.scope ≠ .self := fun c hc =>
    have ⟨effect, heffect, hmem⟩ := hof hc
    (h effect heffect).scope_ne c hmem
  have hafter : ∀ c ∈ Effect.on effects.flatten key,
      c.after = nextHolding c.before c.op c.amount := fun c hc =>
    have ⟨effect, heffect, hmem⟩ := hof (Effect.mem_on.mp hc).1
    (h effect heffect).after_eq c hmem
  have hmem := Effect.mem_on.mp (List.mem_of_head? hfirst)
  have hkey : key.1 ≠ .self := hmem.2 ▸ hscope first hmem.1
  cases hlast : (Effect.on effects.flatten key).getLast? with
  | none =>
    rw [List.getLast?_eq_none_iff.mp hlast] at hfirst
    cases hfirst
  | some last =>
    rw [holding?_applyEffect hscope states hkey, hlast,
      Effect.replay_of_isChain hlinked hafter hfirst hlast]
    rfl

/-- The changes of an outcome are those of the scripts that were run, in order. None of a quality is
lost exactly where each script that changes it, the last one apart, leaves it as the next one finds
it, and writing them then leaves what all of them together make of the holding in the states. -/
theorem linkedOn_iff_rejoin (engine : Engine) (fuel : Nat) (event option : String)
    (states : Snapshot) (options : CallOptions) (outcome : OptionOutcome)
    (hself : ∀ binding ∈ options.self, binding.state = none)
    (hrun : (engine.resolveOption fuel event option states options).result = .ok (some outcome)) :
    let env := engine.env fuel states
    let self := evaluator env fuel
    let frame := Frame.new options.depth options.self
    ∃ o chance rolled values ended,
      (engine.registry.event? event).bind (·.option? option) = some o ∧
      (rollOption env self o.challenge frame).runOn
        (.fresh (options.source.getD engine.fallbackSource)) =
          (.ok (chance, outcome.passed), rolled) ∧
      ((if outcome.passed then o.successEffects else o.failureEffects).mapM
        (scriptValue self frame)).runOn rolled = (.ok values, ended) ∧
      outcome.effect = (values.map Value.changes).flatten ∧
      (∀ v ∈ values, Effect.Computed env v.changes) ∧
      ∀ key, (outcome.effect.LinkedOn key ↔ Effect.Rejoin (values.map Value.changes) key) ∧
        ∀ first ∈ (outcome.effect.on key).head?, env.Finds first ∧
          (outcome.effect.LinkedOn key →
            (applyEffect outcome.effect ⟨env.player, env.world⟩).holding? key =
              some ((outcome.effect.on key).replay first.before)) := by
  intro env self frame
  let mem := Memory.fresh (options.source.getD engine.fallbackSource)
  rw [resolveOption, run_eq] at hrun
  cases ho : (engine.registry.event? event).bind (·.option? option) with
  | none =>
    simp only [ho] at hrun
    cases hrun
  | some o =>
    simp only [ho] at hrun
    obtain ⟨outcome', ended, hchoose, hdone⟩ := EvalM.exists_of_runOn_bind (Prod.ext hrun rfl)
    cases hdone
    obtain ⟨chance, rolled, values, hroll, hvalues, heffect, -⟩ :=
      exists_values_of_chooseOption hchoose
    have hat : (Kept.computed env).At mem mem frame :=
      ⟨.refl mem, fun _ h => absurd h List.not_mem_nil, fun b hb => .inl (hself b hb)⟩
    obtain ⟨hlater, hmemory, -⟩ :=
      gives_rollOption (fun t => env.answers (.computed env) fuel t mem) hat o.challenge hroll
    obtain ⟨-, -, hcomputed⟩ := computed_of_scripts fuel
      (if outcome.passed then o.successEffects else o.failureEffects)
      (hat.next hlater hmemory) hvalues
    have hchanges : ∀ effect ∈ values.map Value.changes, Effect.Computed env effect := by
      intro effect h
      obtain ⟨v, hv, rfl⟩ := List.mem_map.mp h
      exact (hcomputed v hv).changes
    refine ⟨o, chance, rolled, values, _, rfl, hroll, hvalues, heffect,
      fun v hv => (hcomputed v hv).changes, fun key => ⟨?_, fun first hfirst => ?_⟩⟩
    · rw [heffect]
      exact Effect.linkedOn_flatten fun effect h => (hchanges effect h).linked key
    · rw [heffect] at hfirst ⊢
      exact ⟨finds_of_head hchanges hfirst,
        fun hlinked => holding?_of_linkedOn hchanges hlinked hfirst _⟩

/-- Of two gains by two scripts the first one is lost: one and five and two make three. -/
theorem gain_lost_between_scripts :
    let sell : Content.EventOption :=
      { id := "sell", name := "", description := "", requirements := [], challenge := none
        successEffects := ["$gold += 5", "$gold += 2"], failureEffects := [] }
    let library := Content.Library.ofLists
      [{ Definition.new "gold" with kind := .item, name := "Gold" }]
      [⟨"deal", .storylet, "", "", [], [sell]⟩]
    let player := States.empty.insert (.new "gold" (.item 1))
    let key : Scope × String := (.player, "gold")
    ∃ outcome ∈ (resolveOption ⟨library.registry, .default, .zeros⟩ 9 "deal" "sell" ⟨player, none⟩
        .none).result.toOption.join,
      ¬ outcome.effect.LinkedOn key ∧
        (applyEffect outcome.effect ⟨player, .empty⟩).holding? key = some (.item 3) ∧
        (outcome.effect.on key).replay (.item 1) = .item 8 := by
  decide +kernel

/-- A gain and a price in one script, and a change of the world in another one. -/
theorem linkedOn_iff_rejoin_of_two_scripts :
    let sell : Content.EventOption :=
      { id := "sell", name := "", description := "", requirements := [], challenge := none
        successEffects := ["$gold += 5, $gold -= 2", "#gold = 7"], failureEffects := [] }
    let library := Content.Library.ofLists [] [⟨"deal", .storylet, "", "", [], [sell]⟩]
    let player := States.empty.insert (.new "gold" (.item 1))
    ∃ outcome, (resolveOption ⟨library.registry, .default, .zeros⟩ 9 "deal" "sell" ⟨player, none⟩
        .none).result = .ok (some outcome) ∧
      ∃ values : List Value, outcome.effect = (values.map Value.changes).flatten ∧
        ∀ key, outcome.effect.LinkedOn key ↔ Effect.Rejoin (values.map Value.changes) key := by
  intro sell library player
  have hsome : (resolveOption ⟨library.registry, .default, .zeros⟩ 9 "deal" "sell" ⟨player, none⟩
      .none).result.toOption.join.isSome := by decide +kernel
  obtain ⟨outcome, hjoin⟩ := Option.isSome_iff_exists.mp hsome
  have hrun : (resolveOption ⟨library.registry, .default, .zeros⟩ 9 "deal" "sell" ⟨player, none⟩
      .none).result = .ok (some outcome) := eq_ok_of_toOption (Option.join_eq_some_iff.mp hjoin)
  obtain ⟨-, -, -, values, -, -, -, -, heffect, -, hkey⟩ := linkedOn_iff_rejoin
    ⟨library.registry, .default, .zeros⟩ 9 "deal" "sell" ⟨player, none⟩ .none outcome
    (fun _ h => absurd h (by simp [CallOptions.none])) hrun
  exact ⟨outcome, hrun, values, heffect, fun key => (hkey key).1⟩

end Engine

end QualityScript
