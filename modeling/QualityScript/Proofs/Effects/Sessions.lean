import QualityScript.Proofs.Effects.Holdings
import QualityScript.Proofs.Effects.Options
import QualityScript.Proofs.Effects.Orders

/-!
# Sessions of play

A session is a sequence of rounds. In each of them a block or an option is evaluated on the states as
they are, and the effect is written into them. Every state stays well formed and under its own id. A
quality keeps its kind, with one exception: a change of `$.` in a text of a quality of the world starts
from what the world holds and is written to the player, who may hold something of another kind.
-/

namespace QualityScript

open Quality Randomness

def World.snapshot (states : World) : Snapshot := ⟨states.player, some states.world⟩

/-- What is evaluated in a round. -/
inductive Move where
  | block (template : String)
  | option (event option : String)

/-- A round: a move, and the engine and the options of the call that evaluates it. -/
structure Round where
  engine : Engine
  fuel : Nat
  options : CallOptions
  move : Move

namespace Round

def env (round : Round) (states : World) : Env := round.engine.env round.fuel states.snapshot

/-- The effect of a round. It is empty where the call ends early, where a block has a value of another
sort, and where there is no such option. -/
def effect (round : Round) (states : World) : Effect :=
  match round.move with
  | .block template =>
    match (round.engine.evaluateBlock round.fuel template states.snapshot round.options).result with
    | .ok value => value.changes
    | .error _ => []
  | .option event option =>
    match (round.engine.resolveOption round.fuel event option states.snapshot
      round.options).result with
    | .ok (some outcome) => outcome.effect
    | .ok none | .error _ => []

def play (round : Round) (states : World) : World := applyEffect (round.effect states) states

/-- The quality that the call binds to `$.`, if any, is bound without a state. -/
def Unbound (round : Round) : Prop := ∀ binding ∈ round.options.self, binding.state = none

end Round

def World.after (states : World) (rounds : List Round) : World :=
  rounds.foldl (fun states round => round.play states) states

/-- Every state is kept under its own id and holds something well formed. -/
def World.WellFormed (states : World) : Prop :=
  ∀ key state, states.state? key = some state → state.id = key.2 ∧ state.holding.WellFormed

theorem World.wellFormed_of_entries {states : World}
    (h : ∀ entry ∈ states.player.entries ++ states.world.entries,
      entry.2.id = entry.1 ∧ entry.2.holding.WellFormed) : states.WellFormed := by
  have htable (table : States) (htable : ∀ entry ∈ table.entries,
      entry.2.id = entry.1 ∧ entry.2.holding.WellFormed) (id : String) (state : State)
      (hget : table.get? id = some state) : state.id = id ∧ state.holding.WellFormed := by
    obtain ⟨⟨key, state⟩, hentry, rfl⟩ := Option.map_eq_some_iff.mp hget
    cases key_of_withKey? hentry
    exact htable _ (mem_of_withKey? hentry)
  intro ⟨scope, id⟩ state hstate
  cases scope with
  | world => exact htable _ (fun _ he => h _ (List.mem_append_right _ he)) id state hstate
  | player | self => exact htable _ (fun _ he => h _ (List.mem_append_left _ he)) id state hstate

/-! ## Effects that were computed -/

/-- What holds of what the states have and is kept by every change holds wherever a change of a
computed effect starts. -/
theorem Effect.Computed.before_induction {env : Env} {effect : Effect} (h : effect.Computed env)
    {key : Scope × String} {P : Holding → Prop}
    (hfound : ∀ c : Change, c.key = key → env.Finds c → P c.before)
    (hnext : ∀ before op amount, P before → P (nextHolding before op amount)) {c : Change}
    (hc : c ∈ effect.on key) : P c.before := by
  have hfirst : ∀ first ∈ (effect.on key).head?, P first.before := fun first hmem =>
    hfound first (mem_on.mp (List.mem_of_head? hmem)).2 (h.first hmem)
  have hafter : ∀ c ∈ effect.on key, c.after = nextHolding c.before c.op c.amount :=
    fun c hc => h.after_eq c (mem_on.mp hc).1
  have hlinked := h.linked key
  unfold LinkedOn at hlinked
  generalize effect.on key = changes at hfirst hafter hlinked hc
  induction changes with
  | nil => cases hc
  | cons first rest ih =>
    have hP := hfirst first rfl
    rcases List.mem_cons.mp hc with rfl | hc
    · exact hP
    · refine ih (fun next hnextmem => ?_) (fun c hc => hafter c (.tail _ hc)) hlinked.tail hc
      obtain ⟨rest', rfl⟩ := List.head?_eq_some_iff.mp hnextmem
      rw [(List.isChain_cons_cons.mp hlinked).1, hafter first (.head _)]
      exact hnext _ _ _ hP

/-- The kind of the state of a quality, and where `$.` may have found another one the kind that the
world has of it. -/
def World.Offers (states : World) (key : Scope × String) (kind : Kind) : Prop :=
  (∀ state, states.state? key = some state → kind = state.holding.kind) ∨
    key.1 = .player ∧ ∃ state, states.world.get? key.2 = some state ∧ kind = state.holding.kind

theorem offers_of_finds {env : Env} {c : Change} {key : Scope × String} (hkey : c.key = key)
    (h : env.Finds c) : (World.mk env.player env.world).Offers key c.before.kind := by
  subst hkey
  obtain hcurrent | ⟨hscope, state, hstate, hbefore⟩ := h
  · refine .inl fun state hstate => ?_
    rw [Change.key] at hstate
    rw [hcurrent, Eval.currentHolding_eq, hstate]
    rfl
  · exact .inr ⟨hscope, state, hstate, by rw [hbefore]⟩

namespace Engine

variable {engine : Engine} {fuel : Nat} {states : Snapshot} {options : CallOptions}

theorem at_start (hself : ∀ binding ∈ options.self, binding.state = none) (source : Source) :
    (Kept.computed (engine.env fuel states)).At (.fresh source) (.fresh source)
      (.new options.depth options.self) :=
  ⟨.refl _, fun _ h => absurd h List.not_mem_nil, fun binding h => .inl (hself binding h)⟩

theorem computed_of_evaluateBlock {template : String} {value : Value}
    (hself : ∀ binding ∈ options.self, binding.state = none)
    (hrun : (engine.evaluateBlock fuel template states options).result = .ok value) :
    Effect.Computed (engine.env fuel states) value.changes := by
  rw [evaluateBlock, run_eq] at hrun
  cases hblock : Template.blockContent? template with
  | some content =>
    simp only [hblock] at hrun
    obtain ⟨o, ended, hcontent, hdone⟩ := EvalM.exists_of_runOn_bind (Prod.ext hrun rfl)
    cases hdone
    exact ((engine.env fuel states).answers _ fuel (.content .standalone content) _
      (at_start hself _) hcontent).2.2.changes
  | none =>
    simp only [hblock] at hrun
    obtain ⟨text, ended, -, hdone⟩ := EvalM.exists_of_runOn_bind (Prod.ext hrun rfl)
    cases hdone
    exact Value.Computed.changes (v := .text text) trivial

theorem exists_computed_of_resolveOption {event option : String} {outcome : OptionOutcome}
    (hself : ∀ binding ∈ options.self, binding.state = none)
    (hrun : (engine.resolveOption fuel event option states options).result = .ok (some outcome)) :
    ∃ effects : List Effect, outcome.effect = effects.flatten ∧
      ∀ effect ∈ effects, effect.Computed (engine.env fuel states) := by
  rw [resolveOption, run_eq] at hrun
  cases ho : (engine.registry.event? event).bind (·.option? option) with
  | none =>
    simp only [ho] at hrun
    cases hrun
  | some o =>
    simp only [ho] at hrun
    obtain ⟨outcome', ended, hchoose, hdone⟩ := EvalM.exists_of_runOn_bind (Prod.ext hrun rfl)
    cases hdone
    obtain ⟨chance, rolled, values, hroll, hvalues, heffect, -⟩ :=
      exists_values_of_chooseOption hchoose
    have hat : (Kept.computed (engine.env fuel states)).At _ _ (.new options.depth options.self) :=
      at_start hself (options.source.getD engine.fallbackSource)
    obtain ⟨hlater, hmemory, -⟩ :=
      gives_rollOption (fun t => (engine.env fuel states).answers _ fuel t _) hat o.challenge hroll
    obtain ⟨-, -, hcomputed⟩ := computed_of_scripts fuel
      (if outcome.passed then o.successEffects else o.failureEffects)
      (hat.next hlater hmemory) hvalues
    refine ⟨values.map Value.changes, heffect, fun effect h => ?_⟩
    obtain ⟨v, hv, rfl⟩ := List.mem_map.mp h
    exact (hcomputed v hv).changes

end Engine

theorem Round.exists_computed {round : Round} (hself : round.Unbound) (states : World) :
    ∃ effects : List Effect, round.effect states = effects.flatten ∧
      ∀ effect ∈ effects, effect.Computed (round.env states) := by
  have hnone : ∃ effects : List Effect, [] = effects.flatten ∧
      ∀ effect ∈ effects, effect.Computed (round.env states) := ⟨[], rfl, fun _ h => nomatch h⟩
  unfold effect
  split
  · split
    · next value hvalue =>
      exact ⟨[value.changes], by simp, fun effect h =>
        List.mem_singleton.mp h ▸ Engine.computed_of_evaluateBlock hself hvalue⟩
    · exact hnone
  · split
    · next outcome houtcome => exact Engine.exists_computed_of_resolveOption hself houtcome
    · exact hnone
    · exact hnone

/-! ## What rounds keep -/

/-- A table does not tell `$.` and the player apart. -/
theorem World.exists_named (key : Scope × String) :
    ∃ key' : Scope × String, key'.1 ≠ .self ∧ key'.2 = key.2 ∧
      ∀ states : World, states.state? key = states.state? key' := by
  obtain ⟨scope, id⟩ := key
  cases scope with
  | self => exact ⟨(.player, id), Scope.noConfusion, rfl, fun _ => rfl⟩
  | player => exact ⟨(.player, id), Scope.noConfusion, rfl, fun _ => rfl⟩
  | world => exact ⟨(.world, id), Scope.noConfusion, rfl, fun _ => rfl⟩

/-- The state of a quality after a round: as it was, or with what a change left that started from a
kind on offer. -/
theorem Round.state?_play {round : Round} (hself : round.Unbound) (states : World)
    {key : Scope × String} (hkey : key.1 ≠ .self) :
    (round.play states).state? key = states.state? key ∨
      ∃ state, (round.play states).state? key = some state ∧
        state.id = ((states.state? key).map (·.id)).getD key.2 ∧
        state.holding.WellFormed ∧ states.Offers key state.holding.kind := by
  obtain ⟨effects, heffect, hcomputed⟩ := exists_computed hself states
  have hof : ∀ c ∈ round.effect states, ∃ effect ∈ effects, c ∈ effect :=
    fun c hc => List.mem_flatten.mp (heffect ▸ hc)
  have hscope : ∀ c ∈ round.effect states, c.scope ≠ .self := fun c hc =>
    have ⟨effect, hmem, hc⟩ := hof c hc
    (hcomputed effect hmem).scope_ne c hc
  rw [play, state?_applyEffect hscope states hkey]
  unfold Effect.written
  cases hlast : (Effect.on (round.effect states) key).getLast? with
  | none => exact .inl rfl
  | some last =>
    obtain ⟨hmem, hlastkey⟩ := Effect.mem_on.mp (List.mem_of_getLast? hlast)
    obtain ⟨effect, heffect, hmem⟩ := hof last hmem
    have hafter := (hcomputed effect heffect).after_eq last hmem
    refine .inr ⟨_, rfl, rfl, ?_, ?_⟩
    · rw [hafter]
      exact wellFormed_nextHolding ..
    · rw [hafter, kind_nextHolding]
      exact (hcomputed effect heffect).before_induction (P := fun b => states.Offers key b.kind)
        (fun c hc hfound => offers_of_finds hc hfound)
        (fun before op amount h => kind_nextHolding before op amount ▸ h)
        (Effect.mem_on.mpr ⟨hmem, hlastkey⟩)

theorem Round.wellFormed_play {round : Round} (hself : round.Unbound) {states : World}
    (h : states.WellFormed) : (round.play states).WellFormed := by
  intro key state hstate
  obtain ⟨key', hkey', hid, hsame⟩ := World.exists_named key
  rw [hsame] at hstate
  obtain hkept | ⟨state', hstate', hid', hwell, -⟩ := state?_play hself states hkey'
  · rw [hkept] at hstate
    exact hid ▸ h key' state hstate
  · cases hstate.symm.trans hstate'
    refine ⟨?_, hwell⟩
    cases hold : states.state? key' with
    | none => rw [hid', hold, ← hid]; rfl
    | some old => rw [hid', hold, ← hid]; exact (h key' old hold).1

theorem Round.kind_play {round : Round} (hself : round.Unbound) {states : World}
    {key : Scope × String} (hkey : key.1 ≠ .self) {state : State}
    (hstate : states.state? key = some state) :
    ∃ state', (round.play states).state? key = some state' ∧
      (state'.holding.kind = state.holding.kind ∨ key.1 = .player ∧
        ∃ w, states.world.get? key.2 = some w ∧ state'.holding.kind = w.holding.kind) := by
  obtain hkept | ⟨state', hstate', -, -, hoffers⟩ := state?_play hself states hkey
  · exact ⟨state, hkept.trans hstate, .inl rfl⟩
  · exact ⟨state', hstate', hoffers.imp (fun h => h state hstate) id⟩

/-! ## Sessions -/

theorem World.wellFormed_after {rounds : List Round} (hself : ∀ round ∈ rounds, round.Unbound)
    {start : World} (h : start.WellFormed) : (start.after rounds).WellFormed := by
  induction rounds generalizing start with
  | nil => exact h
  | cons round rest ih =>
    exact ih (fun r hr => hself r (.tail _ hr)) (Round.wellFormed_play (hself round (.head _)) h)

/-- Whatever the player does, a quality of the world keeps its kind. -/
theorem World.kind_after_world {rounds : List Round} (hself : ∀ round ∈ rounds, round.Unbound)
    {start : World} {id : String} {state : State} (h : start.world.get? id = some state) :
    ∃ state', (start.after rounds).world.get? id = some state' ∧
      state'.holding.kind = state.holding.kind := by
  induction rounds generalizing start state with
  | nil => exact ⟨state, h, rfl⟩
  | cons round rest ih =>
    have hkey : ((.world, id) : Scope × String).1 ≠ .self := Scope.noConfusion
    obtain ⟨state', hstate', hkind⟩ := Round.kind_play (hself round (.head _)) hkey h
    obtain ⟨state'', hstate'', hkind'⟩ := ih (fun r hr => hself r (.tail _ hr)) hstate'
    refine ⟨state'', hstate'', hkind'.trans ?_⟩
    exact hkind.resolve_right fun hplayer => Scope.noConfusion hplayer.1

/-- A quality of the player keeps its kind, or has in the end the kind that the world has of it. -/
theorem World.kind_after_player {rounds : List Round} (hself : ∀ round ∈ rounds, round.Unbound)
    {start : World} {id : String} {state : State} (h : start.player.get? id = some state) :
    ∃ state', (start.after rounds).player.get? id = some state' ∧
      (state'.holding.kind = state.holding.kind ∨
        ∃ w, (start.after rounds).world.get? id = some w ∧
          state'.holding.kind = w.holding.kind) := by
  induction rounds generalizing start state with
  | nil => exact ⟨state, h, .inl rfl⟩
  | cons round rest ih =>
    have hrest : ∀ r ∈ rest, r.Unbound := fun r hr => hself r (.tail _ hr)
    have hkey : ((.player, id) : Scope × String).1 ≠ .self := Scope.noConfusion
    obtain ⟨state', hstate', hkind⟩ := Round.kind_play (hself round (.head _)) hkey h
    obtain ⟨state'', hstate'', hkind'⟩ := ih hrest hstate'
    refine ⟨state'', hstate'', ?_⟩
    obtain hsame | hworld := hkind'
    · obtain hkept | ⟨-, w, hw, htaken⟩ := hkind
      · exact .inl (hsame.trans hkept)
      · -- The world had the quality before this round and keeps its kind from then on.
        obtain ⟨w', hw', hsame'⟩ := kind_after_world hself hw
        exact .inr ⟨w', hw', hsame.trans (htaken.trans hsame'.symm)⟩
    · exact .inr hworld

/-- After any rounds every state is well formed and under its own id, the qualities of the world have
the kinds that they had, and each quality of the player has its kind or the one that the world has of
it. -/
theorem World.well_formed_after_rounds (rounds : List Round) (start : World)
    (hself : ∀ round ∈ rounds, round.Unbound) (hstart : start.WellFormed) :
    (start.after rounds).WellFormed ∧
      (∀ id state, start.world.get? id = some state →
        ∃ state', (start.after rounds).world.get? id = some state' ∧
          state'.holding.kind = state.holding.kind) ∧
      ∀ id state, start.player.get? id = some state →
        ∃ state', (start.after rounds).player.get? id = some state' ∧
          (state'.holding.kind = state.holding.kind ∨
            ∃ w, (start.after rounds).world.get? id = some w ∧
              state'.holding.kind = w.holding.kind) :=
  ⟨wellFormed_after hself hstart, fun _ _ h => kind_after_world hself h,
    fun _ _ h => kind_after_player hself h⟩

/-- The hat of the world is red. Describing it changes the hat of the player, which counted before and
is then a text. -/
theorem World.kind_lost_to_world :
    let hat : Definition :=
      { Definition.new "hat" with
        kind := .item, name := "Hat", description := "A hat\x7b@x = $. += 1\x7d." }
    let round : Round :=
      { engine := ⟨(Content.Library.ofLists [hat] []).registry, .default, .zeros⟩, fuel := 12
        options := .none, move := .block "\x7b#hat.description == 'z' : 0 | @x\x7d" }
    let start : World := ⟨States.empty.insert (.new "hat" (.counter 5)),
      States.empty.insert (.new "hat" (.text "red"))⟩
    round.Unbound ∧ start.WellFormed ∧
      (start.player.get? "hat").map (·.holding.kind) = some .counter ∧
      ((start.after [round]).player.get? "hat").map (·.holding.kind) = some .text :=
  ⟨fun _ h => absurd h (by simp [CallOptions.none]), wellFormed_of_entries (by decide +kernel),
    by decide +kernel, by decide +kernel⟩

/-- Two rounds with an option and a block: gold is sold below zero and then gained as points. -/
theorem World.well_formed_after_two_rounds :
    let sell : Content.EventOption :=
      { id := "sell", name := "", description := "", requirements := [], challenge := none
        successEffects := ["$gold -= 9", "$craft += 4"], failureEffects := [] }
    let engine : Engine :=
      ⟨(Content.Library.ofLists [] [⟨"deal", .storylet, "", "", [], [sell]⟩]).registry, .default, .zeros⟩
    let rounds : List Round := [⟨engine, 9, .none, .option "deal" "sell"⟩,
      ⟨engine, 9, .none, .block "\x7b$craft += 3\x7d"⟩]
    let start : World := ⟨(States.empty.insert (.new "gold" (.item 3))).insert
      (.new "craft" (.pyramidal 1 1)), .empty⟩
    (start.after rounds).WellFormed ∧
      ((start.after rounds).player.get? "gold").map (·.holding) = some (.item 0) ∧
      ((start.after rounds).player.get? "craft").map (·.holding) = some (.pyramidal 3 3) := by
  intro sell engine rounds start
  have hself : ∀ round ∈ rounds, round.Unbound := by
    intro round hround binding h
    rcases List.mem_cons.mp hround with rfl | hround
    · exact absurd h (by simp [CallOptions.none])
    · cases List.mem_singleton.mp hround
      exact absurd h (by simp [CallOptions.none])
  have hstart : start.WellFormed := wellFormed_of_entries (by decide +kernel)
  exact ⟨(well_formed_after_rounds rounds start hself hstart).1, by decide +kernel,
    by decide +kernel⟩

end QualityScript
