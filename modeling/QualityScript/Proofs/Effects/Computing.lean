import QualityScript.Proofs.Effects.Chaining
import QualityScript.Proofs.Evaluation.Logic

/-!
# Effects as they are computed

What is computed as one effect is linked on every quality, whatever it changes and however often. The
table of what the changes so far left is told by the changes themselves, and this is what each
further change keeps. Only the first change of a quality looks at the states.
-/

namespace QualityScript

open Quality

/-- What the first change of a quality starts from: what is held of it in the states. A change of
`$.` in a text of a quality of the world starts from the state of that quality. -/
def Env.Finds (env : Env) (c : Change) : Prop :=
  c.before = Eval.currentHolding env c.scope c.id c.amount ∨
    c.scope = .player ∧ ∃ state, env.world.get? c.id = some state ∧ c.before = state.holding

/-- The changes are those of one effect. -/
structure Effect.Computed (env : Env) (effect : Effect) : Prop where
  linked : ∀ key, effect.LinkedOn key
  after_eq : ∀ c ∈ effect, c.after = nextHolding c.before c.op c.amount
  scope_ne : ∀ c ∈ effect, c.scope ≠ .self
  first : ∀ {key c}, (effect.on key).head? = some c → env.Finds c

theorem Effect.Computed.concat {env : Env} {effect : Effect} (h : effect.Computed env) {c : Change}
    (hafter : c.after = nextHolding c.before c.op c.amount) (hscope : c.scope ≠ .self)
    (hlast : ∀ last, (effect.on c.key).getLast? = some last → c.before = last.after)
    (hnew : effect.on c.key = [] → env.Finds c) : (effect ++ [c] : Effect).Computed env where
  linked key := by
    rw [LinkedOn, on_append, on_singleton]
    split
    · next hkey =>
      refine (h.linked key).append (List.isChain_singleton _) fun last hmem c' hc' => ?_
      cases hc'
      exact hlast last (hkey ▸ hmem)
    · rw [List.append_nil]
      exact h.linked key
  after_eq := by
    simp only [List.mem_append, List.mem_singleton]
    rintro c' (hc' | rfl)
    · exact h.after_eq c' hc'
    · exact hafter
  scope_ne := by
    simp only [List.mem_append, List.mem_singleton]
    rintro c' (hc' | rfl)
    · exact h.scope_ne c' hc'
    · exact hscope
  first {key c'} hc' := by
    rw [on_append, on_singleton] at hc'
    cases hold : effect.on key with
    | cons first rest =>
      rw [hold, List.cons_append, List.head?_cons] at hc'
      exact h.first (by rw [hold, List.head?_cons, hc'])
    | nil =>
      rw [hold, List.nil_append] at hc'
      split at hc'
      · next hkey =>
        cases hc'
        exact hnew (hkey ▸ hold)
      · cases hc'

/-- Changes that a value holds are computed. -/
def Value.Computed (env : Env) : Value → Prop
  | .effect changes => Effect.Computed env changes
  | .pending event => Effect.Computed env event.effect
  | _ => True

/-- The state that a quality is bound with is none, or one that is there. -/
def SelfBinding.Read (env : Env) (binding : SelfBinding) : Prop :=
  binding.state = none ∨ binding.state = env.player.get? binding.id ∨
    binding.state = env.world.get? binding.id

namespace Eval

variable {env : Env}

/-- The changes so far are computed, and the table says where the last one of each quality ends. -/
structure Progress.Sound (env : Env) (p : Progress) : Prop where
  computed : p.changes.Computed env
  latest : ∀ key, (withKey? Prod.fst key p.latest).map Prod.snd =
    (p.changes.on key).getLast?.map (·.after)

theorem Progress.sound_start : Progress.start.Sound env where
  computed :=
    { linked := fun _ => List.isChain_nil
      after_eq := fun _ hc => nomatch hc
      scope_ne := fun _ hc => nomatch hc
      first := fun hc => nomatch hc }
  latest _ := rfl

/-- Where a quality was not changed yet, what is held of it is found in the states. -/
theorem Progress.finds_before {p : Progress} {aim : Aim} {frame : Frame} (haim : aim.Fits frame)
    (hframe : ∀ binding ∈ frame.self, binding.Read env) {c : Change}
    (hkey : c.key = (aim.scope, aim.id)) (hbefore : c.before = p.before env aim c.amount)
    (hnew : withKey? Prod.fst c.key p.latest = none) : env.Finds c := by
  obtain ⟨hscope, hid⟩ : c.scope = aim.scope ∧ c.id = aim.id := Prod.mk.inj hkey
  rw [hkey] at hnew
  simp only [Progress.before, hnew] at hbefore
  obtain ⟨-, hnone⟩ | ⟨binding, hself, rfl⟩ := haim
  · rw [hnone] at hbefore
    exact .inl (by rw [hbefore, hscope, hid]; rfl)
  · rw [Env.Finds, hscope, hid, hbefore]
    obtain hread | hread | hread := hframe binding hself
    · exact .inl (by simp [hread])
    · cases hstate : env.player.get? binding.id with
      | none => exact .inl (by simp [hread, hstate])
      | some state => exact .inl (by simp [hread, hstate, currentHolding])
    · cases hstate : env.world.get? binding.id with
      | none => exact .inl (by simp [hread, hstate])
      | some state => exact .inr ⟨rfl, state, rfl, by simp [hread, hstate]⟩

/-- The table says where the last change of each quality ends. -/
def Progress.Tracks (p : Progress) : Prop :=
  ∀ key, (withKey? Prod.fst key p.latest).map Prod.snd = (p.changes.on key).getLast?.map (·.after)

/-- A change is added to what is there: the table then tells where it ends. -/
theorem Progress.Tracks.concat {p : Progress} (hp : p.Tracks) (c : Change) :
    Progress.Tracks ⟨upsert Prod.fst (c.key, c.after) p.latest, p.changes ++ [c]⟩ := by
  intro key
  simp only [Effect.on_append, Effect.on_singleton]
  by_cases hkey : c.key = key
  · subst hkey
    simp [withKey?_upsert_self Prod.fst (c.key, c.after) p.latest]
  · have hother : withKey? Prod.fst key (upsert Prod.fst (c.key, c.after) p.latest) =
        withKey? Prod.fst key p.latest :=
      withKey?_upsert_of_ne (show Prod.fst (c.key, c.after) ≠ key from hkey) p.latest
    simp [hother, hp key, hkey]

theorem Progress.Sound.concat {p : Progress} (hp : p.Sound env) {c : Change}
    (hchanges : (p.changes ++ [c] : Effect).Computed env) :
    Progress.Sound env ⟨upsert Prod.fst (c.key, c.after) p.latest, p.changes ++ [c]⟩ :=
  ⟨hchanges, Progress.Tracks.concat hp.latest c⟩

/-- A further change starts from what the table says of its quality. -/
theorem Progress.Sound.add {p : Progress} (hp : p.Sound env) {aim : Aim} {frame : Frame}
    (haim : aim.Fits frame) (hframe : ∀ binding ∈ frame.self, binding.Read env) (e : EffectExpr)
    (amount : Value) (description : Option String) :
    (p.add env e amount description aim).Sound env := by
  let before := p.before env aim amount
  let c : Change :=
    { scope := aim.scope, id := aim.id, op := e.op, amount, before,
      after := nextHolding before e.op amount, description, source := e.notes.source }
  have hlatest := hp.latest c.key
  refine hp.concat (c := c) (hp.computed.concat rfl ?_ (fun last hlast => ?_) fun hnew => ?_)
  · obtain ⟨hne, -⟩ | ⟨binding, -, rfl⟩ := haim
    · exact hne
    · exact Scope.noConfusion
  · rw [hlast] at hlatest
    obtain ⟨entry, hentry, hafter⟩ := Option.map_eq_some_iff.mp hlatest
    calc c.before = entry.2 := by
          simp only [c, before, Progress.before, Change.key] at hentry ⊢
          rw [hentry]
      _ = last.after := hafter
  · rw [hnew] at hlatest
    exact Progress.finds_before haim hframe rfl rfl (Option.map_eq_none_iff.mp hlatest)

/-- The owner of a template that a reference stands for is bound with a state that is there. -/
theorem read_of_resolve {frame : Frame} {r : Reference} {text : String} {owner : SelfBinding}
    (hframe : ∀ binding ∈ frame.self, binding.Read env)
    (h : (r.resolve env frame).resolution = .template text owner) : owner.Read env := by
  have howner {id : String} {state : Option State} {property : Property}
      (h : (Reference.resolveQuality env.registry id state property).resolution =
        .template text owner) : owner = ⟨id, state⟩ := by
    simp only [Reference.resolveQuality] at h
    unfold Reference.resolveProperty at h
    split at h <;> first | cases h | (split at h <;> cases h; rfl)
  unfold Reference.resolve at h
  split at h
  · exact .inr (.inl (by rw [howner h]))
  · exact .inr (.inr (by rw [howner h]))
  · split at h
    · next binding hself =>
      rw [howner h]
      cases hstate : binding.state with
      | none => exact .inr (.inl rfl)
      | some state => simpa [SelfBinding.Read, hstate] using hframe binding hself
    · cases h

end Eval

/-- Evaluations make only computed changes. -/
def Kept.computed (env : Env) : Kept env where
  frame f := ∀ binding ∈ f.self, binding.Read env
  value := Value.Computed env
  progress := Eval.Progress.Sound env
  withTarget _ h := h
  deeper h := h
  bound id _ _ hself := by cases hself; exact .inl rfl
  owner h hres _ hself := by cases hself; exact Eval.read_of_resolve h hres
  plain {v} hv := by cases v <;> trivial
  start := Eval.Progress.sound_start
  add hp hframe haim _ := hp.add haim hframe _ _ _
  effect hp := hp.computed
  pending _ _ hp := hp.computed

end QualityScript
