import QualityScript.Proofs.Syntax.References
import QualityScript.Proofs.Evaluation.Termination

/-!
# Two players side by side

The same evaluation runs with two players, who hold the same of every quality that is defined and has
no state in the world. Here is what the two runs are compared by: evaluations are alike if they do the
same from every memory whose aliases are impersonal, and leave such a memory. References to the world
or to the quality being shown stand for the same in both, and changes start from the same.
-/

namespace QualityScript

open Quality Content Randomness

def Value.IsImpersonal (v : Value) : Prop := QualityScript.IsImpersonal v.display.toList

namespace Value

@[simp] theorem isImpersonal_bool (b : Bool) : (bool b).IsImpersonal := by
  cases b <;> (unfold IsImpersonal; decide)

@[simp] theorem isImpersonal_int (n : Int64) : (int n).IsImpersonal := isImpersonal_wordText n

@[simp] theorem isImpersonal_effect (changes : Effect) : (effect changes).IsImpersonal := .nil

@[simp] theorem isImpersonal_empty : empty.IsImpersonal := .nil

@[simp] theorem isImpersonal_float (x : Float) : (float x).IsImpersonal := by
  change QualityScript.IsImpersonal (floatText x).toList
  unfold floatText
  split
  · exact isImpersonal_wordText _
  · exact isImpersonal_plainText x

@[simp] theorem isImpersonal_ofFloat (x : Float) : (ofFloat x).IsImpersonal := by
  unfold ofFloat
  split
  · split
    · exact isImpersonal_int _
    · exact isImpersonal_float x
  · exact isImpersonal_float x

end Value

/-- The text that is held, if any, is impersonal. -/
def Quality.Holding.IsImpersonal (holding : Holding) : Prop :=
  QualityScript.IsImpersonal holding.textValue.toList

/-- What an author writes to be shown of a quality is impersonal. -/
structure Quality.Definition.IsImpersonal (d : Definition) : Prop where
  name : QualityScript.IsImpersonal d.name.toList
  description : QualityScript.IsImpersonal d.description.toList
  plural : ∀ text ∈ d.plural, QualityScript.IsImpersonal text.toList
  variants : ∀ entry ∈ d.variants.entries, QualityScript.IsImpersonal entry.2.toList

def Memory.IsImpersonal (mem : Memory) : Prop := ∀ entry ∈ mem.aliases, entry.2.IsImpersonal

/-! ## Evaluations side by side -/

/-- From every impersonal memory both evaluations do the same. They leave an impersonal memory, and a
value as wanted if any. -/
def Alike {α : Type} (m m' : EvalM α) (post : α → Prop) : Prop :=
  ∀ mem : Memory, mem.IsImpersonal → m'.runOn mem = m.runOn mem ∧
    ∀ a mem', m.runOn mem = (.ok a, mem') → mem'.IsImpersonal ∧ post a

namespace Alike

variable {α β : Type} {post : α → Prop}

theorem of_runOn {m : EvalM α} (h : ∀ mem : Memory, mem.IsImpersonal →
    ∀ a mem', m.runOn mem = (.ok a, mem') → mem'.IsImpersonal ∧ post a) : Alike m m post :=
  fun mem hmem => ⟨rfl, h mem hmem⟩

theorem pure {a : α} (ha : post a) : Alike (pure a) (pure a) post :=
  of_runOn fun _ hmem _ _ hrun => by cases hrun; exact ⟨hmem, ha⟩

theorem throw (e : Abort) : Alike (throw e : EvalM α) (throw e) post :=
  of_runOn fun _ _ _ _ hrun => by cases hrun

theorem bind {m m' : EvalM α} {f f' : α → EvalM β} {mid : α → Prop} {post : β → Prop}
    (hm : Alike m m' mid) (hf : ∀ a, mid a → Alike (f a) (f' a) post) :
    Alike (m >>= f) (m' >>= f') post := by
  intro mem hmem
  obtain ⟨hsame, hvalue⟩ := hm mem hmem
  rcases hrun : m.runOn mem with ⟨e | a, mem₁⟩
  · rw [EvalM.runOn_bind_error hrun, EvalM.runOn_bind_error (hsame.trans hrun)]
    exact ⟨rfl, fun _ _ h => nomatch h⟩
  · obtain ⟨hmem₁, ha⟩ := hvalue a mem₁ hrun
    rw [EvalM.runOn_bind_ok hrun, EvalM.runOn_bind_ok (hsame.trans hrun)]
    exact hf a ha mem₁ hmem₁

theorem map {m m' : EvalM α} {g : α → β} {mid : α → Prop} {post : β → Prop} (hm : Alike m m' mid)
    (hg : ∀ a, mid a → post (g a)) :
    Alike (m >>= fun a => Pure.pure (g a)) (m' >>= fun a => Pure.pure (g a)) post :=
  hm.bind fun a ha => pure (hg a ha)

theorem record (p : Problem) : Alike (EvalM.record p) (EvalM.record p) fun _ => True :=
  of_runOn fun mem hmem _ _ hrun => by
    cases hrun
    exact ⟨fun entry he => hmem entry (mem.aliases_record p.diagnostic ▸ he), trivial⟩

theorem alias? (name : String) :
    Alike (EvalM.alias? name) (EvalM.alias? name) fun v => ∀ x ∈ v, x.IsImpersonal :=
  of_runOn fun mem hmem _ _ hrun => by
    cases hrun
    refine ⟨hmem, fun x hx => ?_⟩
    obtain ⟨front, back, heq, -⟩ := List.lookup_eq_some_iff.mp hx
    exact hmem (name, x) (by rw [heq]; simp)

theorem bindAlias (name : String) {value : Value} (hvalue : value.IsImpersonal) :
    Alike (EvalM.bindAlias name value) (EvalM.bindAlias name value) fun _ => True :=
  of_runOn fun mem hmem _ _ hrun => by
    cases hrun
    refine ⟨?_, trivial⟩
    change (mem.bind name value).2.IsImpersonal
    unfold Memory.bind
    split
    · exact fun entry he => hmem entry (Memory.aliases_record mem _ ▸ he)
    · exact List.forall_mem_append.mpr ⟨hmem, List.forall_mem_singleton.mpr hvalue⟩

theorem draw {d : Draw α} (hd : ∀ source a source', d source = some (a, source') → post a) :
    Alike (EvalM.draw d) (EvalM.draw d) post :=
  of_runOn fun mem hmem a mem' hrun => by
    rw [EvalM.runOn_draw] at hrun
    split at hrun
    · cases hrun
    · next hdrawn =>
      cases hrun
      exact ⟨hmem, hd _ _ _ hdrawn⟩

theorem descend {config : Config} {frame : Frame} {snippet : String} {f f' : Option Frame → EvalM α}
    (hnone : Alike (f none) (f' none) post)
    (hsome : Alike (f (some frame.deeper)) (f' (some frame.deeper)) post) :
    Alike (EvalM.descend config frame snippet >>= f) (EvalM.descend config frame snippet >>= f')
      post := by
  have hframe : Alike (EvalM.descend config frame snippet) (EvalM.descend config frame snippet)
      fun o => o = none ∨ o = some frame.deeper := by
    refine of_runOn fun mem hmem o mem' hrun => ?_
    rw [EvalM.runOn_descend] at hrun
    split at hrun
    · cases hrun
      exact ⟨fun entry he => hmem entry (Memory.aliases_record mem _ ▸ he), .inl rfl⟩
    · cases hrun
      exact ⟨hmem, .inr rfl⟩
  refine hframe.bind fun o ho => ?_
  obtain rfl | rfl := ho
  · exact hnone
  · exact hsome

end Alike

/-! ## Players that are not told apart -/

/-- The environment with another player. -/
def Env.withPlayer (env : Env) (player : States) : Env := { env with player }

/-- The texts of content and world are impersonal, and of what is defined and has no state in the
world the other player holds the same as the player. -/
structure Env.Agrees (env : Env) (other : States) : Prop where
  margin : env.config.margin.IsBuiltIn
  definitions : ∀ id d, env.registry.quality? id = some d → d.IsImpersonal
  states : ∀ id s, env.world.get? id = some s → s.holding.IsImpersonal
  players : ∀ id d, env.registry.quality? id = some d → env.world.get? id = none →
    env.player.get? id = other.get? id ∧ ∀ s, env.player.get? id = some s → s.holding.IsImpersonal

/-- With either player `$.` stands for the same state, one with an impersonal text. -/
structure SelfBinding.Agrees (binding : SelfBinding) (env : Env) (other : States) : Prop where
  id : IsImpersonal binding.id.toList
  same : (binding.state <|> other.get? binding.id) = (binding.state <|> env.player.get? binding.id)
  text : ∀ s, (binding.state <|> env.player.get? binding.id) = some s → s.holding.IsImpersonal

def Frame.Agrees (frame : Frame) (env : Env) (other : States) : Prop :=
  ∀ binding ∈ frame.self, binding.Agrees env other

/-! ## References -/

/-- The value is impersonal, or the template is and the quality bound in it is the same for both. -/
def Resolution.Agrees (env : Env) (other : States) : Resolution → Prop
  | .plain value => value.IsImpersonal
  | .template text owner => IsImpersonal text.toList ∧ owner.Agrees env other

theorem Quality.Holding.isImpersonal_empty (kind : Kind) : (Holding.empty kind).IsImpersonal := by
  cases kind <;> exact .nil

theorem isImpersonal_ofHolding {holding : Holding} (h : holding.IsImpersonal) :
    (Value.ofHolding holding).IsImpersonal := by
  cases holding with
  | text => exact h
  | _ => exact Value.isImpersonal_int _

theorem isImpersonal_pluralOf {name : String} (h : IsImpersonal name.toList) :
    IsImpersonal (Reference.pluralOf name).toList := by
  rw [Reference.pluralOf, String.toList_append]
  exact h.append (by decide)

/-- What is shown of a quality. A template is its text or comes from its definition, so its binding
must agree only if it has one of these. -/
theorem agrees_resolveProperty {env : Env} {other : States} (property : Property)
    {holding : Holding} (hholding : holding.IsImpersonal) (kind : Kind)
    {definition : Option Definition} (hdefinition : ∀ d ∈ definition, d.IsImpersonal)
    {owner : SelfBinding} (hid : IsImpersonal owner.id.toList)
    (howner : holding.kind = .text ∨ definition.isSome → owner.Agrees env other) :
    (Reference.resolveProperty property holding kind definition owner).Agrees env other := by
  cases property with
  | value =>
    cases holding with
    | text text => exact ⟨hholding, howner (.inl rfl)⟩
    | _ => exact Value.isImpersonal_int _
  | level | changePoints => exact Value.isImpersonal_int _
  | kind => cases kind <;> (change IsImpersonal _; decide)
  | name =>
    cases definition with
    | none => exact hid
    | some d => exact ⟨(hdefinition d rfl).name, howner (.inr rfl)⟩
  | description =>
    cases definition with
    | none => exact Value.isImpersonal_empty
    | some d => exact ⟨(hdefinition d rfl).description, howner (.inr rfl)⟩
  | plural =>
    cases definition with
    | none => exact isImpersonal_pluralOf hid
    | some d =>
      refine ⟨?_, howner (.inr rfl)⟩
      cases hplural : d.plural with
      | none => exact isImpersonal_pluralOf (hdefinition d rfl).name
      | some plural => exact (hdefinition d rfl).plural plural hplural
  | capital => exact isImpersonal_capitalize (isImpersonal_ofHolding hholding)
  | variant key =>
    cases definition with
    | none => exact Value.isImpersonal_empty
    | some d =>
      cases hvariant : d.variants.get? key with
      | none =>
        simp only [Reference.resolveProperty, Option.bind_some, hvariant]
        exact Value.isImpersonal_empty
      | some variant =>
        simp only [Reference.resolveProperty, Option.bind_some, hvariant]
        obtain ⟨front, back, heq, -⟩ := List.lookup_eq_some_iff.mp hvariant
        exact ⟨(hdefinition d rfl).variants (key, variant) (by rw [heq]; simp), howner (.inr rfl)⟩

theorem agrees_resolveQuality {env : Env} {other : States}
    (hdefinitions : ∀ id d, env.registry.quality? id = some d → d.IsImpersonal) {id : String}
    (hid : IsImpersonal id.toList) {state : Option State}
    (hstate : ∀ s ∈ state, s.holding.IsImpersonal)
    (howner : state.isSome ∨ (env.registry.quality? id).isSome →
      SelfBinding.Agrees ⟨id, state⟩ env other) (property : Property) :
    (Reference.resolveQuality env.registry id state property).resolution.Agrees env other := by
  cases state with
  | some s =>
    exact agrees_resolveProperty property (hstate s rfl) _ (fun d hd => hdefinitions id d hd) hid
      fun _ => howner (.inl rfl)
  | none =>
    refine agrees_resolveProperty property ?_ _ (fun d hd => hdefinitions id d hd) hid fun h => ?_
    · exact Holding.isImpersonal_empty _
    · -- Without a definition what is held of nothing is a counter.
      refine howner (.inr ?_)
      cases hd : env.registry.quality? id with
      | some d => rfl
      | none =>
        rw [hd] at h
        obtain h | h := h
        · cases h
        · cases h

variable {env : Env} {other : States} {frame : Frame}

/-- A reference to the world or to the quality being shown stands for the same with either player. -/
theorem Env.Agrees.resolve (h : env.Agrees other) (hframe : frame.Agrees env other) {r : Reference}
    (hr : r.IsImpersonal) :
    r.resolve (env.withPlayer other) frame = r.resolve env frame ∧
      (r.resolve env frame).resolution.Agrees env other := by
  unfold Reference.resolve
  cases hscope : r.scope with
  | player => exact absurd hscope hr.scope
  | world =>
    refine ⟨rfl, agrees_resolveQuality h.definitions hr.id (h.states r.id) (fun howner => ?_) _⟩
    cases hstate : env.world.get? r.id with
    | some s =>
      exact ⟨hr.id, rfl, fun _ hs => by cases hs; exact h.states r.id s hstate⟩
    | none =>
      rw [hstate] at howner
      obtain howner | hdefined := howner
      · cases howner
      · obtain ⟨d, hd⟩ := Option.isSome_iff_exists.mp hdefined
        obtain ⟨hsame, htext⟩ := h.players r.id d hd hstate
        exact ⟨hr.id, hsame.symm, htext⟩
  | self =>
    cases hself : frame.self with
    | none => exact ⟨rfl, Value.isImpersonal_int _⟩
    | some binding =>
      obtain ⟨hid, hsame, htext⟩ := hframe binding hself
      refine ⟨?_, agrees_resolveQuality h.definitions hid htext (fun _ => ?_) _⟩
      · simp only [Env.withPlayer, hsame]
      · generalize hbound : (binding.state <|> env.player.get? binding.id) = bound at hsame htext
        cases bound with
        | some s => exact ⟨hid, rfl, htext⟩
        | none =>
          obtain ⟨hstate, hplayer⟩ := Option.or_eq_none_iff.mp (Option.orElse_eq_or.symm.trans hbound)
          obtain ⟨-, hother⟩ := Option.or_eq_none_iff.mp (Option.orElse_eq_or.symm.trans hsame)
          exact ⟨hid, by simp [hplayer, hother], by simp [hplayer]⟩

/-- What is held before a change is the same with either player. -/
def Eval.Aim.Agrees (aim : Eval.Aim) (env : Env) (other : States) : Prop :=
  aim.holding = none → aim.scope ≠ .world → other.get? aim.id = env.player.get? aim.id

theorem Eval.Aim.Agrees.add_withPlayer {aim : Eval.Aim} (haim : aim.Agrees env other)
    (p : Eval.Progress) (e : EffectExpr) (amount : Value) (description : Option String) :
    p.add (env.withPlayer other) e amount description aim = p.add env e amount description aim := by
  have hbefore : p.before (env.withPlayer other) aim amount = p.before env aim amount := by
    unfold Eval.Progress.before
    split
    · rfl
    · cases hholding : aim.holding with
      | some holding => rfl
      | none =>
        unfold Eval.currentHolding
        cases hscope : aim.scope with
        | world => rfl
        | player | self =>
          have hsame := haim hholding (by simp [hscope])
          simp only [Env.withPlayer, hsame]
          rfl
  simp only [Eval.Progress.add, hbefore]

end QualityScript
