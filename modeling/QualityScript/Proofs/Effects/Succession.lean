import Mathlib
import QualityScript.Proofs.Evaluation.Avoiding

/-!
# Effects in one block and in turn

Two lists of effects can stand in one block, or be evaluated and written into the states one after the
other. In both cases the changes of the second list start from what the first one left. Their amounts
and descriptions do not: a block reads them all on the states before it, and in turn they are read on
the states that the first list left. So the two ways agree where no amount or description of the
second list reads what the first one changes.
-/

namespace QualityScript

open Quality

/-- What is read once an effect is written into the states. -/
def Env.after (env : Env) (effect : Effect) : Env :=
  env.withStates (applyEffect effect env.states)

namespace Eval

/-! ## Blocks as orders -/

/-- The orders that effects lead to, with their amounts and descriptions as the evaluator reads them. -/
def orders (env : Env) (self : Evaluator) (frame : Frame) : List EffectExpr → EvalM (List Order)
  | [] => return []
  | e :: rest => do
    let amount ← amount self e.amount frame
    let description ← description self e.notes.description frame
    let aims ← aims env frame e.target
    let later ← orders env self frame rest
    return (aims.map fun aim => ⟨aim, e, amount, description⟩) ++ later

variable {env : Env} {self : Evaluator} {frame : Frame} {list : List EffectExpr}

theorem orders_append (first later : List EffectExpr) :
    orders env self frame (first ++ later) = do
      let asked ← orders env self frame first
      let asked' ← orders env self frame later
      return asked ++ asked' := by
  induction first with
  | nil => simp [orders]
  | cons e rest ih =>
    simp only [List.cons_append, orders, ih, bind_assoc, pure_bind, List.append_assoc]

theorem orders_withStates (states : World) :
    orders (env.withStates states) self frame list = orders env self frame list := by
  induction list with
  | nil => rfl
  | cons e rest ih =>
    simp only [orders, ih]
    rfl

theorem changes_of_effectsFrom_eq {p : Progress} (hp : p.Tracks) :
    (effectsFrom env self frame p list >>= fun p => pure p.changes) =
      (orders env self frame list >>= fun asked => pure (carryOut env p.changes asked)) := by
  induction list generalizing p with
  | nil =>
    simp only [effectsFrom, orders, pure_bind]
    rfl
  | cons e rest ih =>
    simp only [effectsFrom, orders, bind_assoc, pure_bind]
    refine bind_congr fun amount => bind_congr fun description => bind_congr fun aims => ?_
    have hfold : (aims.foldl (fun p aim => p.add env e amount description aim) p).Tracks ∧ _ :=
      hp.foldl e (amount, description) aims
    rw [ih hfold.1, hfold.2]
    simp only [carryOut_append]

/-- A block takes all its orders and carries them out. -/
theorem effects_eq_carryOut :
    effects env self list frame = do return carryOut env [] (← orders env self frame list) :=
  changes_of_effectsFrom_eq (p := .start) fun _ => rfl

theorem exists_target_of_runOn_orders {asked : List Order} {mem mem' : Memory}
    (hrun : (orders env self frame list).runOn mem = (.ok asked, mem')) :
    ∀ o ∈ asked, ∃ e ∈ list, o.aim ∈ aimsOf env frame e.target := by
  induction list generalizing asked mem with
  | nil =>
    cases hrun
    exact fun o ho => nomatch ho
  | cons e rest ih =>
    obtain ⟨amount, mem₁, -, hrun⟩ := EvalM.exists_of_runOn_bind hrun
    obtain ⟨description, mem₂, -, hrun⟩ := EvalM.exists_of_runOn_bind hrun
    obtain ⟨aims, mem₃, haims, hrun⟩ := EvalM.exists_of_runOn_bind hrun
    obtain ⟨later, mem₄, hlater, hrun⟩ := EvalM.exists_of_runOn_bind hrun
    cases hrun
    intro o ho
    rcases List.mem_append.mp ho with ho | ho
    · obtain ⟨aim, haim, rfl⟩ := List.mem_map.mp ho
      exact ⟨e, .head _, eq_aimsOf_of_runOn haims ▸ haim⟩
    · obtain ⟨e', he', haim⟩ := ih hlater o ho
      exact ⟨e', .tail _ he', haim⟩

theorem scope_ne_of_runOn_orders {asked : List Order} {mem mem' : Memory}
    (hrun : (orders env self frame list).runOn mem = (.ok asked, mem')) :
    ∀ o ∈ asked, o.aim.scope ≠ .self := by
  intro o ho
  obtain ⟨e, -, haim⟩ := exists_target_of_runOn_orders hrun o ho
  exact scope_ne_of_mem_aimsOf haim

theorem scope_ne_of_mem_carryOut {asked : List Order} (h : ∀ o ∈ asked, o.aim.scope ≠ .self) :
    ∀ c ∈ carryOut env [] asked, c.scope ≠ .self := by
  intro c hc
  have hkey : c.key ∈ (carryOut env [] asked).map Change.key := List.mem_map_of_mem hc
  rw [map_key_carryOut] at hkey
  obtain ⟨o, ho, heq⟩ := List.mem_map.mp hkey
  have hscope : o.aim.scope = c.scope := (Prod.mk.inj heq).1
  exact hscope ▸ h o ho

theorem scope_ne_of_runOn_effects {effect : Effect} {mem mem' : Memory}
    (hrun : (effects env self list frame).runOn mem = (.ok effect, mem')) :
    ∀ c ∈ effect, c.scope ≠ .self := by
  rw [effects_eq_carryOut] at hrun
  obtain ⟨asked, mem₁, hasked, hdone⟩ := EvalM.exists_of_runOn_bind hrun
  cases hdone
  exact scope_ne_of_mem_carryOut (scope_ne_of_runOn_orders hasked)

/-! ## Orders after an effect -/

/-- The order is for a quality whose holding is looked up in the states. -/
def Order.IsOpen (o : Order) : Prop := o.aim.scope ≠ .self ∧ o.aim.holding = none

theorem holding_of_mem_aimsOf (hself : ∀ binding ∈ frame.self, binding.state = none)
    {target : EffectTarget} {aim : Aim} (h : aim ∈ aimsOf env frame target) :
    aim.holding = none := by
  cases target with
  | quality r =>
    obtain ⟨scope, id, property⟩ := r
    cases scope with
    | player | world =>
      cases List.mem_singleton.mp h
      rfl
    | self =>
      cases hbound : frame.self with
      | none => simp [aimsOf, hbound] at h
      | some binding =>
        simp only [aimsOf, hbound, List.mem_singleton] at h
        subst h
        simp [hself binding hbound]
  | category name =>
    obtain ⟨d, -, rfl⟩ := List.mem_map.mp h
    rfl

theorem isOpen_of_runOn_orders (hself : ∀ binding ∈ frame.self, binding.state = none)
    {asked : List Order} {mem mem' : Memory}
    (hrun : (orders env self frame list).runOn mem = (.ok asked, mem')) :
    ∀ o ∈ asked, o.IsOpen := by
  intro o ho
  obtain ⟨e, -, haim⟩ := exists_target_of_runOn_orders hrun o ho
  exact ⟨scope_ne_of_mem_aimsOf haim, holding_of_mem_aimsOf hself haim⟩

/-- A change starts from the same holding whether the earlier changes are still to be written or are
in the states. -/
theorem Order.before_append {earlier : Effect} (hearlier : ∀ c ∈ earlier, c.scope ≠ .self)
    (changes : Effect) {o : Order} (ho : o.IsOpen) :
    o.before env (earlier ++ changes) = o.before (env.after earlier) changes := by
  unfold Order.before
  rw [Effect.on_append]
  cases hlast : (changes.on o.aim.key).getLast? with
  | some last => simp [hlast]
  | none =>
    have hnone : changes.on o.aim.key = [] := List.getLast?_eq_none_iff.mp hlast
    have hstate : (applyEffect earlier env.states).state? o.aim.key =
        (earlier.on o.aim.key).written o.aim.key.2 (env.states.state? o.aim.key) :=
      state?_applyEffect hearlier env.states ho.1
    simp only [hnone, List.append_nil, ho.2, Option.getD_none]
    change _ = ((World.state? (applyEffect earlier env.states) o.aim.key).map (·.holding)).getD _
    rw [hstate, Effect.written]
    cases (earlier.on o.aim.key).getLast? with
    | some last => rfl
    | none => rfl

theorem carryOut_after {earlier : Effect} (hearlier : ∀ c ∈ earlier, c.scope ≠ .self)
    {asked : List Order} (hasked : ∀ o ∈ asked, o.IsOpen) :
    carryOut env earlier asked = earlier ++ carryOut (env.after earlier) [] asked := by
  induction asked using List.reverseRecOn with
  | nil => exact (List.append_nil earlier).symm
  | append_singleton asked o ih =>
    have hinit := ih fun o' ho' => hasked o' (List.mem_append_left _ ho')
    have ho : o.IsOpen := hasked o (by simp)
    rw [carryOut_append, carryOut_append, hinit]
    simp only [carryOut, List.foldl_cons, List.foldl_nil, Order.change,
      Order.before_append hearlier _ ho, List.append_assoc]

theorem effects_append (hself : ∀ binding ∈ frame.self, binding.state = none)
    (first later : List EffectExpr) :
    effects env self (first ++ later) frame = do
      let effect ← effects env self first frame
      let asked ← orders env self frame later
      return effect ++ carryOut (env.after effect) [] asked := by
  simp only [effects_eq_carryOut, orders_append, bind_assoc, pure_bind]
  refine EvalM.bind_congr_of_runOn fun asked mem mem' hasked => ?_
  refine EvalM.bind_congr_of_runOn fun asked' mem mem' hasked' => ?_
  rw [carryOut_append,
    carryOut_after (scope_ne_of_mem_carryOut (scope_ne_of_runOn_orders hasked))
      (isOpen_of_runOn_orders hself hasked')]

/-! ## States after effects -/

/-- The states that a block of effects leaves. -/
def perform (env : Env) (fuel : Nat) (frame : Frame) (list : List EffectExpr) : EvalM World :=
  return applyEffect (← effects env (evaluator env fuel) list frame) env.states

/-- The states that two lists of effects leave if the amounts and descriptions of the second one are
read by an evaluator that may depend on what the first one did. -/
def performReading (env : Env) (fuel : Nat) (frame : Frame) (first later : List EffectExpr)
    (reader : Effect → Evaluator) : EvalM World := do
  let effect ← effects env (evaluator env fuel) first frame
  let asked ← orders env (reader effect) frame later
  return applyEffect (carryOut (env.after effect) [] asked) (env.after effect).states

theorem perform_append (hself : ∀ binding ∈ frame.self, binding.state = none) (fuel : Nat)
    (first later : List EffectExpr) :
    perform env fuel frame (first ++ later) =
      performReading env fuel frame first later fun _ => evaluator env fuel := by
  simp only [perform, performReading, effects_append hself, bind_assoc, pure_bind,
    applyEffect_append]
  rfl

theorem perform_bind_perform (fuel : Nat) (first later : List EffectExpr) :
    (perform env fuel frame first >>= fun states =>
        perform (env.withStates states) fuel frame later) =
      performReading env fuel frame first later fun effect => evaluator (env.after effect) fuel := by
  simp only [perform, performReading, effects_eq_carryOut, bind_assoc, pure_bind, orders_withStates]
  rfl

/-! ## Amounts that leave the changed qualities unread -/

theorem gives_orders {ι : Type} {L : Logic ι} {K : Kept env} {self : ι → Evaluator}
    {start mem : Memory} (hall : ∀ t, L.Answers K self t start) (h : K.At start mem frame)
    (list : List EffectExpr) :
    L.Gives K (fun i => orders (env.within (L.bounds i)) (self i) frame list) mem
      fun _ => True := by
  induction list generalizing mem with
  | nil => exact h.pure trivial
  | cons e rest ih =>
    refine h.bind (gives_amount (fun e _ => hall (.expr e)) h) fun _ _ h _ => ?_
    refine h.bind (gives_description (fun text _ => hall (.expand false text)) h) fun _ _ h _ => ?_
    exact h.bind (gives_aims h) fun _ _ h _ => h.map (ih h) fun _ _ => trivial

theorem entry_orders (list : List EffectExpr) :
    Entry fun env self frame => orders env self frame list :=
  ⟨fun hall _ h => gives_orders hall h list⟩

theorem sameOff_applyEffect {effect : Effect} (hscope : ∀ c ∈ effect, c.scope ≠ .self)
    (states : World) : states.SameOff (effect.map Change.key) (applyEffect effect states) := by
  intro key hkey hnone
  have hon : effect.on key = [] := List.filter_eq_nil_iff.mpr fun c hc heq =>
    hnone (of_decide_eq_true heq ▸ List.mem_map_of_mem hc)
  rw [state?_applyEffect hscope states hkey, hon]
  rfl

/-- Two lists of effects in one block and in turn differ in one point only: on which states the amounts
and descriptions of the second list are read. They leave the same states and the same memory if that
reading, on the states before both, is finished without the state of any quality that the first list
changes. -/
theorem perform_append_of_unread (env : Env) (fuel : Nat) (frame : Frame)
    (hself : ∀ binding ∈ frame.self, binding.state = none) (first later : List EffectExpr) :
    perform env fuel frame (first ++ later) =
        performReading env fuel frame first later (fun _ => evaluator env fuel) ∧
      (perform env fuel frame first >>= fun states =>
          perform (env.withStates states) fuel frame later) =
        performReading env fuel frame first later (fun effect => evaluator (env.after effect) fuel) ∧
      ∀ mem,
        (∀ effect mem',
          (effects env (evaluator env fuel) first frame).runOn mem = (.ok effect, mem') →
          ((orders env (evaluatorAvoiding env (effect.map Change.key) fuel) frame later).runOn
            mem').1 ≠ .error .unfinished) →
        (perform env fuel frame (first ++ later)).runOn mem =
          (perform env fuel frame first >>= fun states =>
            perform (env.withStates states) fuel frame later).runOn mem := by
  refine ⟨perform_append hself fuel first later, perform_bind_perform fuel first later,
    fun mem hunread => ?_⟩
  rw [perform_append hself, perform_bind_perform, performReading, performReading, EvalM.runOn_bind,
    EvalM.runOn_bind]
  rcases hfirst : (effects env (evaluator env fuel) first frame).runOn mem with ⟨e | effect, mem'⟩
  · rfl
  · have hread : (orders env (evaluator (env.after effect) fuel) frame later).runOn mem' =
        (orders env (evaluator env fuel) frame later).runOn mem' :=
      (entry_orders later).runOn_withStates
        (funext fun self => funext fun frame => orders_withStates _)
        (sameOff_applyEffect (scope_ne_of_runOn_effects hfirst) env.states)
        (hunread effect mem' hfirst)
    simp only [EvalM.runOn_bind, hread]

/-- In the block `$gold += 3, $xp = $gold` the gold is read before the gain, in turn it is read after
it. -/
theorem gold_read_before_its_gain :
    let env : Env := ⟨(States.empty.insert (.new "gold" (.item 1))).insert (.new "xp" (.counter 0)),
      .empty, (Content.Library.ofLists [] []).registry, .default, 9⟩
    let first : List EffectExpr :=
      [⟨.quality ⟨.player, "gold", .value⟩, .none, .add, some (.literal (.int 3))⟩]
    let later : List EffectExpr :=
      [⟨.quality ⟨.player, "xp", .value⟩, .none, .set, some (.ref ⟨.player, "gold", .value⟩)⟩]
    let block := perform env 2 (.new 0 none) (first ++ later)
    let turn := perform env 2 (.new 0 none) first >>= fun states =>
      perform (env.withStates states) 2 (.new 0 none) later
    let held (m : EvalM World) : Option (List (Option Holding)) :=
      (m.runOn (.fresh (.seeded 0))).1.toOption.map fun states =>
        ["gold", "xp"].map fun id => states.holding? (.player, id)
    Expr.parse "$gold += 3, $xp = $gold" = .ok (.effect (first ++ later)) ∧
      held block = some [some (.item 4), some (.counter 1)] ∧
      held turn = some [some (.item 4), some (.counter 4)] := by
  intro env first later block turn held
  exact ⟨by cbv, by decide +kernel, by decide +kernel⟩

/-- The coins are gained, and then gold is paid with a description that shows the luck. What the
payment starts from is what the gain left; how much it is comes from the luck, which also pays. -/
theorem perform_append_of_unread_of_coins :
    let library := Content.Library.ofLists
      [{ Definition.new "silver" with category := "Coins" },
        { Definition.new "gold" with kind := .item, category := "treasure, coins" }] []
    let env : Env := ⟨(States.empty.insert (.new "gold" (.item 3))).insert (.new "luck" (.counter 2)),
      .empty, library.registry, .default, 9⟩
    let frame := Frame.new 0 (some ⟨"luck", none⟩)
    let first : List EffectExpr := [⟨.category "coins", .none, .add, some (.literal (.int 5))⟩]
    let later : List EffectExpr :=
      [⟨.quality ⟨.player, "gold", .value⟩, ⟨some "Luck was \x7b$luck\x7d.", none⟩, .subtract,
          some (.ref ⟨.self, "", .value⟩)⟩,
        ⟨.quality ⟨.self, "", .value⟩, .none, .decrement, none⟩]
    let block := perform env 9 frame (first ++ later)
    let turn := perform env 9 frame first >>= fun states =>
      perform (env.withStates states) 9 frame later
    let held (m : EvalM World) : Option (List (Option Holding)) :=
      (m.runOn (.fresh (.seeded 0))).1.toOption.map fun states =>
        ["gold", "silver", "luck"].map fun id => states.holding? (.player, id)
    (∀ binding ∈ frame.self, binding.state = none) ∧
      block.runOn (.fresh (.seeded 0)) = turn.runOn (.fresh (.seeded 0)) ∧
      held turn = some [some (.item 6), some (.counter 5), some (.counter 1)] := by
  intro library env frame first later block turn held
  have hself : ∀ binding ∈ frame.self, binding.state = none := by
    rintro binding ⟨⟩
    rfl
  let ended := (effects env (evaluator env 9) first frame).runOn (.fresh (.seeded 0))
  have hunread : ((orders env (evaluatorAvoiding env
      ((ended.1.toOption.getD []).map Change.key) 9) frame later).runOn ended.2).1.toOption.isSome :=
    by decide +kernel
  refine ⟨hself, (perform_append_of_unread env 9 frame hself first later).2.2 _
    fun effect mem' hrun hunfinished => ?_, by decide +kernel⟩
  have hended : ended = (.ok effect, mem') := hrun
  simp only [hended, Except.toOption, Option.getD_some, hunfinished] at hunread
  exact absurd hunread (by simp)

end Eval

end QualityScript
