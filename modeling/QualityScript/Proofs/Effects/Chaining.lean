import QualityScript.Effect
import Mathlib.Data.List.Chain

/-!
# Changes of one quality

Of an effect only the changes of one quality say what becomes of it. No change is lost where each
one starts from what the one before left: the holding that is written last then comes from all of
them. Of effects put one after the other this can fail only where one effect meets the next.
-/

namespace QualityScript

open Quality

/-- The quality that a change writes to. -/
def Change.key (change : Change) : Scope × String := (change.scope, change.id)

namespace Effect

/-- The changes of one quality. -/
def on (effect : Effect) (key : Scope × String) : Effect := effect.filter fun c => c.key = key

/-- No change of the quality is lost: each one after the first starts from what the one before it
left. -/
def LinkedOn (effect : Effect) (key : Scope × String) : Prop :=
  (effect.on key).IsChain fun c c' => c'.before = c.after

instance (effect : Effect) (key : Scope × String) : Decidable (effect.LinkedOn key) :=
  inferInstanceAs (Decidable ((effect.on key).IsChain fun c c' => c'.before = c.after))

/-- What changes make of a holding, one after the other. -/
def replay (effect : Effect) (holding : Holding) : Holding :=
  effect.foldl (fun holding c => nextHolding holding c.op c.amount) holding

/-- The changes of one quality in each of the effects that have some. -/
def partsOn (effects : List Effect) (key : Scope × String) : List Effect :=
  (effects.map fun effect => effect.on key).filter fun part => !part.isEmpty

/-- Each effect that changes the quality, the last one apart, leaves it as the next one finds it. -/
def Rejoin (effects : List Effect) (key : Scope × String) : Prop :=
  (partsOn effects key).IsChain fun part part' =>
    ∀ c ∈ part.getLast?, ∀ c' ∈ part'.head?, c'.before = c.after

@[simp] theorem on_append (effect effect' : Effect) (key : Scope × String) :
    on (effect ++ effect') key = effect.on key ++ effect'.on key :=
  List.filter_append ..

theorem on_singleton (c : Change) (key : Scope × String) :
    on [c] key = if c.key = key then [c] else [] := by
  simp [on, List.filter_cons]

theorem mem_on {effect : Effect} {key : Scope × String} {c : Change} :
    c ∈ effect.on key ↔ c ∈ effect ∧ c.key = key := by
  simp [on]

theorem on_flatten (effects : List Effect) (key : Scope × String) :
    on effects.flatten key = (partsOn effects key).flatten := by
  simp only [partsOn, on, List.filter_flatten, List.flatten_filter_not_isEmpty]

/-- In effects put one after the other no change is lost if none is lost inside one and the effects
rejoin. -/
theorem linkedOn_flatten {effects : List Effect} {key : Scope × String}
    (h : ∀ effect ∈ effects, effect.LinkedOn key) :
    LinkedOn effects.flatten key ↔ Rejoin effects key := by
  have hne : [] ∉ partsOn effects key := by simp [partsOn]
  have hparts : ∀ part ∈ partsOn effects key, part.IsChain fun c c' => c'.before = c.after := by
    intro part hpart
    obtain ⟨effect, heffect, rfl⟩ := List.mem_map.mp (List.mem_filter.mp hpart).1
    exact h effect heffect
  rw [LinkedOn, on_flatten, List.isChain_flatten hne]
  exact and_iff_right hparts

/-- Linked changes lead from where the first one starts to where the last one ends. -/
theorem replay_of_isChain {effect : Effect}
    (hchain : effect.IsChain fun c c' => c'.before = c.after)
    (hafter : ∀ c ∈ effect, c.after = nextHolding c.before c.op c.amount) {first last : Change}
    (hfirst : effect.head? = some first) (hlast : effect.getLast? = some last) :
    effect.replay first.before = last.after := by
  induction effect generalizing first with
  | nil => cases hfirst
  | cons c rest ih =>
    cases hfirst
    have hc := hafter c (.head _)
    cases rest with
    | nil =>
      cases hlast
      exact hc.symm
    | cons next rest =>
      obtain ⟨hnext, hrest⟩ := List.isChain_cons_cons.mp hchain
      have hlast' : (next :: rest).getLast? = some last := by
        simpa [List.getLast?_cons_cons] using hlast
      calc replay (c :: next :: rest) c.before
          = replay (next :: rest) (nextHolding c.before c.op c.amount) := rfl
        _ = replay (next :: rest) next.before := by rw [← hc, hnext]
        _ = last.after := ih hrest (fun c hc => hafter c (.tail _ hc)) rfl hlast'

end Effect

def World.holding? (states : World) (key : Scope × String) : Option Holding :=
  match key.1 with
  | .world => (states.world.get? key.2).map (·.holding)
  | .player | .self => (states.player.get? key.2).map (·.holding)

theorem Change.get?_apply (change : Change) (states : States) (id : String) :
    ((change.apply states).get? id).map (·.holding) =
      if change.id = id then some change.after else (states.get? id).map (·.holding) := by
  by_cases hid : change.id = id
  · subst hid
    simp [Change.apply, Change.update]
  · simp [Change.apply, States.get?_put_of_ne, hid]

theorem applyEffect_append (effect effect' : Effect) (states : World) :
    applyEffect (effect ++ effect') states = applyEffect effect' (applyEffect effect states) :=
  List.foldl_append ..

theorem holding?_applyEffect_singleton {c : Change} (hc : c.scope ≠ .self) (states : World)
    {key : Scope × String} (hkey : key.1 ≠ .self) :
    (applyEffect [c] states).holding? key =
      if c.key = key then some c.after else states.holding? key := by
  obtain ⟨scope, id⟩ := key
  cases hscope : c.scope <;> cases scope <;>
    simp_all [applyEffect, World.holding?, Change.get?_apply, Change.key]

/-- Writing an effect leaves a quality where its last change ends. -/
theorem holding?_applyEffect {effect : Effect} (hscope : ∀ c ∈ effect, c.scope ≠ .self)
    (states : World) {key : Scope × String} (hkey : key.1 ≠ .self) :
    (applyEffect effect states).holding? key =
      ((effect.on key).getLast?.map (·.after)).or (states.holding? key) := by
  induction effect using List.reverseRecOn with
  | nil => rfl
  | append_singleton effect c ih =>
    rw [applyEffect_append, holding?_applyEffect_singleton (hscope c (by simp)) _ hkey,
      ih fun c' hc' => hscope c' (by simp [hc']), Effect.on_append, Effect.on_singleton]
    by_cases hc : c.key = key <;> simp [hc]

end QualityScript
