import QualityScript.Proofs.Effects.Computing
import QualityScript.Randomness.Source

/-!
# One effect, from its orders to the states

The effects of a block name qualities, and each quality named is an order for one change. A change
starts from what the last change of its quality left, and without one from the holding that the
quality is bound with, or else from the states. Written into states, the changes of a quality leave
the last holding and all of their sources; what no change names stays as it is.
-/

namespace QualityScript

open Quality

def World.state? (states : World) (key : Scope × String) : Option State :=
  match key.1 with
  | .world => states.world.get? key.2
  | .player | .self => states.player.get? key.2

namespace Eval

/-! ## Orders -/

def Aim.key (aim : Aim) : Scope × String := (aim.scope, aim.id)

/-- The aims of a target: the quality of a reference, the one bound to `$.` with the holding it is
bound with, or the player's qualities of a category in their order. -/
def aimsOf (env : Env) (frame : Frame) : EffectTarget → List Aim
  | .quality reference =>
    match reference.scope, frame.self with
    | .self, some binding => [⟨.player, binding.id, binding.state.map (·.holding)⟩]
    | .self, none => []
    | scope, _ => [⟨scope, reference.id, none⟩]
  | .category name => (env.registry.inCategory name).map fun d => ⟨.player, d.id, none⟩

/-- A change that is asked for. -/
structure Order where
  aim : Aim
  effect : EffectExpr
  amount : Value
  description : Option String

/-- What the amount and the description of an effect come to, each in some memory. -/
def AnsweredBy (self : Evaluator) (frame : Frame) (e : EffectExpr)
    (answer : Value × Option String) : Prop :=
  (∃ mem mem', (amount self e.amount frame).runOn mem = (.ok answer.1, mem')) ∧
    ∃ mem mem', (description self e.notes.description frame).runOn mem = (.ok answer.2, mem')

/-- The orders of effects, target by target. -/
def ordersOf (env : Env) (frame : Frame) (list : List EffectExpr)
    (answers : List (Value × Option String)) : List Order :=
  (list.zip answers).flatMap fun (e, amount, description) =>
    (aimsOf env frame e.target).map fun aim => ⟨aim, e, amount, description⟩

/-- What the change of an order starts from, after earlier changes: what the last one of the same
quality left, else the holding that the quality is bound with, else what the states hold, else nothing
of the kind that is defined or inferred. -/
def Order.before (env : Env) (earlier : Effect) (o : Order) : Holding :=
  match (earlier.on o.aim.key).getLast? with
  | some last => last.after
  | none => o.aim.holding.getD
      (((World.state? ⟨env.player, env.world⟩ o.aim.key).map (·.holding)).getD
        (.empty (inferredKind env o.aim.id o.amount)))

def Order.change (env : Env) (earlier : Effect) (o : Order) : Change where
  scope := o.aim.scope
  id := o.aim.id
  op := o.effect.op
  amount := o.amount
  before := o.before env earlier
  after := nextHolding (o.before env earlier) o.effect.op o.amount
  description := o.description
  source := o.effect.notes.source

/-- The changes of orders, one after the other, after earlier changes. -/
def carryOut (env : Env) (earlier : Effect) (orders : List Order) : Effect :=
  orders.foldl (fun earlier o => earlier ++ [o.change env earlier]) earlier

variable {env : Env} {frame : Frame}

theorem scope_ne_of_mem_aimsOf {target : EffectTarget} {aim : Aim}
    (h : aim ∈ aimsOf env frame target) : aim.scope ≠ .self := by
  cases target with
  | quality r =>
    obtain ⟨scope, id, property⟩ := r
    cases scope with
    | player | world =>
      cases List.mem_singleton.mp h
      exact Scope.noConfusion
    | self =>
      cases hself : frame.self with
      | none => simp [aimsOf, hself] at h
      | some binding =>
        simp only [aimsOf, hself, List.mem_singleton] at h
        subst h
        exact Scope.noConfusion
  | category name =>
    obtain ⟨d, -, rfl⟩ := List.mem_map.mp h
    exact Scope.noConfusion

theorem runOn_aims (target : EffectTarget) (mem : Memory) :
    ∃ mem', (aims env frame target).runOn mem = (.ok (aimsOf env frame target), mem') := by
  cases target with
  | quality r =>
    obtain ⟨scope, id, property⟩ := r
    cases scope with
    | player | world => exact ⟨mem, rfl⟩
    | self =>
      cases hself : frame.self with
      | none => simp only [aims, aimsOf, hself]; exact ⟨_, rfl⟩
      | some binding => simp only [aims, aimsOf, hself]; exact ⟨mem, rfl⟩
  | category name =>
    simp only [aims, aimsOf]
    split
    · exact ⟨_, rfl⟩
    · exact ⟨mem, rfl⟩

theorem currentHolding_eq (env : Env) (scope : Scope) (id : String) (amount : Value) :
    currentHolding env scope id amount =
      ((World.state? ⟨env.player, env.world⟩ (scope, id)).map (·.holding)).getD
        (.empty (inferredKind env id amount)) := by
  unfold currentHolding World.state?
  cases scope <;> dsimp only <;> split <;> simp [*]

/-! ## Orders carried out one after the other -/

theorem carryOut_append (earlier : Effect) (orders orders' : List Order) :
    carryOut env earlier (orders ++ orders') = carryOut env (carryOut env earlier orders) orders' :=
  List.foldl_append ..

theorem length_carryOut (orders : List Order) :
    (carryOut env [] orders).length = orders.length := by
  induction orders using List.reverseRecOn with
  | nil => rfl
  | append_singleton orders o ih =>
    rw [carryOut_append, List.length_append, ← ih]
    simp [carryOut]

theorem map_key_carryOut (orders : List Order) :
    (carryOut env [] orders).map Change.key = orders.map (·.aim.key) := by
  induction orders using List.reverseRecOn with
  | nil => rfl
  | append_singleton orders o ih =>
    rw [carryOut_append, List.map_append, ← ih]
    simp [carryOut, Order.change, Change.key, Aim.key]

/-- Each order leads to one change, made after the changes before it. -/
theorem getElem?_carryOut (orders : List Order) (i : Nat) :
    (carryOut env [] orders)[i]? =
      orders[i]?.map fun o => o.change env ((carryOut env [] orders).take i) := by
  induction orders using List.reverseRecOn with
  | nil => rfl
  | append_singleton orders o ih =>
    have hlength : (carryOut env [] orders).length = orders.length := length_carryOut orders
    have happend : carryOut env [] (orders ++ [o]) =
        carryOut env [] orders ++ [o.change env (carryOut env [] orders)] := carryOut_append ..
    rw [happend]
    by_cases hi : i < orders.length
    · rw [List.getElem?_append_left (by omega), List.getElem?_append_left hi, ih,
        List.take_append_of_le_length (by omega)]
    · rw [List.getElem?_append_right (by omega), List.getElem?_append_right (by omega), hlength]
      cases hrest : i - orders.length with
      | zero =>
        have hlast : (carryOut env [] orders).length = i := by omega
        simp [← hlast]
      | succ n => simp

/-- Adding the change of an aim carries out its order. -/
theorem Progress.Tracks.add {p : Progress} (hp : p.Tracks) (o : Order) :
    (p.add env o.effect o.amount o.description o.aim).Tracks ∧
      (p.add env o.effect o.amount o.description o.aim).changes = carryOut env p.changes [o] := by
  have hbefore : p.before env o.aim o.amount = o.before env p.changes := by
    have hlatest := hp o.aim.key
    unfold Progress.before Order.before
    rw [currentHolding_eq]
    cases hlast : (p.changes.on o.aim.key).getLast? with
    | none =>
      rw [hlast, Option.map_none, Option.map_eq_none_iff] at hlatest
      simp only [Aim.key] at hlatest ⊢
      simp only [hlatest]
    | some last =>
      rw [hlast] at hlatest
      obtain ⟨entry, hentry, hafter⟩ := Option.map_eq_some_iff.mp hlatest
      simp only [Aim.key] at hentry
      simp only [hentry]
      exact hafter
  have hchange : p.add env o.effect o.amount o.description o.aim =
      ⟨upsert Prod.fst ((o.change env p.changes).key, (o.change env p.changes).after) p.latest,
        p.changes ++ [o.change env p.changes]⟩ := by
    simp only [Progress.add, Order.change, Change.key, hbefore]
  rw [hchange]
  exact ⟨hp.concat _, rfl⟩

theorem Progress.Tracks.foldl {p : Progress} (hp : p.Tracks) (e : EffectExpr)
    (answer : Value × Option String) (aims : List Aim) :
    (aims.foldl (fun p aim => p.add env e answer.1 answer.2 aim) p).Tracks ∧
      (aims.foldl (fun p aim => p.add env e answer.1 answer.2 aim) p).changes =
        carryOut env p.changes (aims.map fun aim => ⟨aim, e, answer.1, answer.2⟩) := by
  induction aims generalizing p with
  | nil => exact ⟨hp, rfl⟩
  | cons aim rest ih =>
    have hadd : (p.add env e answer.1 answer.2 aim).Tracks ∧
        (p.add env e answer.1 answer.2 aim).changes =
          carryOut env p.changes [⟨aim, e, answer.1, answer.2⟩] :=
      hp.add ⟨aim, e, answer.1, answer.2⟩
    obtain ⟨htracks', hchanges'⟩ := ih hadd.1
    refine ⟨htracks', ?_⟩
    rw [List.foldl_cons, hchanges', hadd.2]
    rfl

theorem changes_of_effectsFrom {self : Evaluator} {list : List EffectExpr} {p p' : Progress}
    (hp : p.Tracks) {mem mem' : Memory}
    (hrun : (effectsFrom env self frame p list).runOn mem = (.ok p', mem')) :
    ∃ answers, List.Forall₂ (AnsweredBy self frame) list answers ∧
      p'.changes = carryOut env p.changes (ordersOf env frame list answers) := by
  induction list generalizing p mem with
  | nil =>
    cases hrun
    exact ⟨[], .nil, rfl⟩
  | cons e rest ih =>
    obtain ⟨amount, mem₁, hamount, hrun⟩ := EvalM.exists_of_runOn_bind hrun
    obtain ⟨description, mem₂, hdescription, hrun⟩ := EvalM.exists_of_runOn_bind hrun
    obtain ⟨mem₃, haims⟩ : ∃ mem₃, (aims env frame e.target).runOn mem₂ =
        (.ok (aimsOf env frame e.target), mem₃) := runOn_aims e.target mem₂
    rw [EvalM.runOn_bind_ok haims] at hrun
    have hnext : ((aimsOf env frame e.target).foldl
        (fun p aim => p.add env e amount description aim) p).Tracks ∧ _ :=
      hp.foldl e (amount, description) (aimsOf env frame e.target)
    obtain ⟨htracks, hchanges⟩ := hnext
    obtain ⟨answers, hanswers, hrest⟩ := ih htracks hrun
    refine ⟨(amount, description) :: answers,
      .cons ⟨⟨_, _, hamount⟩, _, _, hdescription⟩ hanswers, ?_⟩
    rw [hrest, hchanges, ordersOf, ordersOf, List.zip_cons_cons, List.flatMap_cons, carryOut_append]

/-- The qualities that orders name are those of the targets. -/
theorem map_key_ordersOf {list : List EffectExpr} {answers : List (Value × Option String)}
    (h : list.length = answers.length) :
    (ordersOf env frame list answers).map (·.aim.key) =
      list.flatMap fun e => (aimsOf env frame e.target).map Aim.key := by
  induction list generalizing answers with
  | nil => rfl
  | cons e rest ih =>
    obtain _ | ⟨answer, answers⟩ := answers
    · cases h
    · have hrest := ih (Nat.succ.inj h)
      simp only [ordersOf] at hrest ⊢
      rw [List.zip_cons_cons, List.flatMap_cons, List.flatMap_cons, List.map_append, hrest,
        List.map_map]
      rfl

end Eval

/-! ## Changes written into states -/

/-- The state that the changes of one quality leave: the last holding, what was spent as before, and
their sources in order after those that were there. Without changes it is the state before. -/
def Effect.written (changes : Effect) (id : String) (before : Option State) : Option State :=
  match changes.getLast? with
  | none => before
  | some last => some
    { id := (before.map (·.id)).getD id
      holding := last.after
      sources := (before.map (·.sources)).getD [] ++ changes.filterMap (·.source)
      spent := (before.map (·.spent)).getD 0 }

theorem Change.state?_apply (change : Change) (states : States) (id : String) :
    (change.apply states).get? id =
      if change.id = id then
        some (change.update ((states.get? id).getD (.new id change.after)))
      else states.get? id := by
  by_cases hid : change.id = id
  · subst hid
    simp [Change.apply]
  · simp [Change.apply, States.get?_put_of_ne, hid]

theorem state?_applyEffect_singleton {c : Change} (hc : c.scope ≠ .self) (states : World)
    {key : Scope × String} (hkey : key.1 ≠ .self) :
    (applyEffect [c] states).state? key =
      if c.key = key then some (c.update ((states.state? key).getD (.new key.2 c.after)))
      else states.state? key := by
  obtain ⟨scope, id⟩ := key
  cases hscope : c.scope <;> cases scope <;>
    simp_all [applyEffect, World.state?, Change.state?_apply, Change.key]

/-- Writing an effect leaves of each quality what its changes leave, and nothing else. -/
theorem state?_applyEffect {effect : Effect} (hscope : ∀ c ∈ effect, c.scope ≠ .self)
    (states : World) {key : Scope × String} (hkey : key.1 ≠ .self) :
    (applyEffect effect states).state? key =
      (effect.on key).written key.2 (states.state? key) := by
  induction effect using List.reverseRecOn with
  | nil => rfl
  | append_singleton effect c ih =>
    rw [applyEffect_append, state?_applyEffect_singleton (hscope c (by simp)) _ hkey,
      ih fun c' hc' => hscope c' (by simp [hc']), Effect.on_append, Effect.on_singleton]
    by_cases hc : c.key = key
    · simp only [hc, if_true, Effect.written, List.getLast?_concat, List.filterMap_append]
      have hsource : [c].filterMap (·.source) = c.source.toList := by cases h : c.source <;> simp [h]
      rw [hsource]
      cases hlast : (Effect.on effect key).getLast? with
      | none =>
        rw [List.getLast?_eq_none_iff.mp hlast]
        cases states.state? key <;> simp [Change.update, State.new]
      | some last => simp [Change.update, List.append_assoc]
    · simp [hc]

/-- The changes of a block follow its effects, target by target. Each one starts from what the one
before it on the same quality left, the first one from the holding that the quality is bound with or
else from the states. Written into any states, they leave of each quality what its own changes leave.
-/
theorem Eval.effects_chained_and_written (env : Env) (self : Evaluator) (list : List EffectExpr)
    (frame : Frame) (mem mem' : Memory) (effect : Effect)
    (hrun : (effects env self list frame).runOn mem = (.ok effect, mem')) :
    effect.map Change.key = list.flatMap (fun e => (aimsOf env frame e.target).map Aim.key) ∧
      (∃ answers, List.Forall₂ (AnsweredBy self frame) list answers ∧
        effect.length = (ordersOf env frame list answers).length ∧
        ∀ i o c, (ordersOf env frame list answers)[i]? = some o → effect[i]? = some c →
          c.scope = o.aim.scope ∧ c.id = o.aim.id ∧ c.op = o.effect.op ∧ c.amount = o.amount ∧
          c.source = o.effect.notes.source ∧
          c.before = (match (Effect.on (effect.take i) c.key).getLast? with
            | some last => last.after
            | none => o.aim.holding.getD
                (((World.state? ⟨env.player, env.world⟩ c.key).map (·.holding)).getD
                  (.empty (inferredKind env c.id c.amount)))) ∧
          c.after = nextHolding c.before c.op c.amount) ∧
      ∀ (states : World) (key : Scope × String), key.1 ≠ .self →
        (applyEffect effect states).state? key =
          (effect.on key).written key.2 (states.state? key) := by
  obtain ⟨p, mem'', hfrom, hdone⟩ := EvalM.exists_of_runOn_bind hrun
  cases hdone
  obtain ⟨answers, hanswers, hchanges⟩ := changes_of_effectsFrom (fun _ => rfl) hfrom
  change p.changes = carryOut env [] (ordersOf env frame list answers) at hchanges
  have hkeys : p.changes.map Change.key =
      list.flatMap fun e => (aimsOf env frame e.target).map Aim.key := by
    rw [hchanges, map_key_carryOut, map_key_ordersOf hanswers.length_eq]
  refine ⟨hkeys, ⟨answers, hanswers, ?_, fun i o c ho hc => ?_⟩, fun states key hkey => ?_⟩
  · rw [hchanges, length_carryOut]
  · have hchange : (carryOut env [] (ordersOf env frame list answers))[i]? = _ :=
      getElem?_carryOut (ordersOf env frame list answers) i
    rw [← hchanges, ho, hc, Option.map_some, Option.some_inj] at hchange
    subst hchange
    exact ⟨rfl, rfl, rfl, rfl, rfl, rfl, rfl⟩
  · refine state?_applyEffect (fun c hc => ?_) states hkey
    have hmem : c.key ∈ p.changes.map Change.key := List.mem_map_of_mem hc
    rw [hkeys] at hmem
    obtain ⟨e, -, haim⟩ := List.mem_flatMap.mp hmem
    obtain ⟨aim, haim, heq⟩ := List.mem_map.mp haim
    exact (Prod.mk.inj heq).1 ▸ scope_ne_of_mem_aimsOf haim

/-- Gold is named alone and as one of the coins, and luck is bound with a state of its own. -/
theorem Eval.effects_chained_and_written_of_coins :
    let library := Content.Library.ofLists
      [{ Definition.new "silver" with category := "Coins" },
        { Definition.new "gold" with kind := .item, category := "treasure, coins" }] []
    let env : Env := ⟨States.empty.insert (.new "gold" (.item 3)), .empty, library.registry,
      .default, 9⟩
    let frame := Frame.new 0 (some ⟨"luck", some (.new "luck" (.counter 9))⟩)
    let list : List EffectExpr :=
      [⟨.quality ⟨.player, "gold", .value⟩, ⟨none, some "market"⟩, .add, some (.literal (.int 5))⟩,
        ⟨.category "coins", .none, .increment, none⟩,
        ⟨.quality ⟨.self, "", .value⟩, .none, .subtract, some (.literal (.int 2))⟩]
    ∃ effect mem', (effects env (evaluator env 2) list frame).runOn (.fresh (.seeded 0)) =
          (.ok effect, mem') ∧
        effect.map Change.key =
          [(.player, "gold"), (.player, "silver"), (.player, "gold"), (.player, "luck")] ∧
        effect.map Change.before = [.item 3, .counter 0, .item 8, .counter 9] ∧
        ∀ (states : World) (key : Scope × String), key.1 ≠ .self →
          (applyEffect effect states).state? key =
            (effect.on key).written key.2 (states.state? key) := by
  intro library env frame list
  have hends : ((effects env (evaluator env 2) list frame).runOn
      (.fresh (.seeded 0))).1.toOption.map (fun effect => effect.map Change.before) =
        some [.item 3, .counter 0, .item 8, .counter 9] := by decide +kernel
  obtain ⟨effect, hsome, hbefore⟩ := Option.map_eq_some_iff.mp hends
  have hrun : (effects env (evaluator env 2) list frame).runOn (.fresh (.seeded 0)) =
      (.ok effect, _) := Prod.ext (eq_ok_of_toOption hsome) rfl
  obtain ⟨hkeys, -, hwritten⟩ := effects_chained_and_written env (evaluator env 2) list frame
    (.fresh (.seeded 0)) _ effect hrun
  refine ⟨effect, _, hrun, ?_, hbefore, hwritten⟩
  rw [hkeys]
  decide +kernel

end QualityScript
