import QualityScript.Proofs.Evaluation.Unbraced

/-!
# Runs in lockstep

A script is tried with no states, and later it is played. The two runs go through the same script with
different values, so what they have in common is not their values: it is which aliases are bound and
how often they have expanded. If the first run is silent, the second run then meets no fault either.

Some parts of a script are passed by in one of the runs. Of such a part it is asked that it does
nothing to be seen: it is still. Whatever is put together by sequence alone can be said of a single
still run and of two runs in lockstep at once; a `Lockstep` is either reading.
-/

namespace QualityScript

open Quality Content Randomness

/-- What content should never lead to. -/
def DiagnosticKind.IsFault (kind : DiagnosticKind) : Prop :=
  kind = .parseDegrade ∨ kind = .unresolvedReference

instance (kind : DiagnosticKind) : Decidable kind.IsFault :=
  inferInstanceAs (Decidable (_ ∨ _))

namespace Memory

def Faultless (mem : Memory) : Prop := ∀ d ∈ mem.diagnostics, ¬d.kind.IsFault

/-- Nothing is reported but braces without a partner. -/
def Silent (mem : Memory) : Prop := ∀ d ∈ mem.diagnostics, d.kind = .unbalancedBraces

variable {mem mem' : Memory} {p : Problem}

theorem Silent.of_later (h : mem'.Silent) (hlater : mem.Later mem') : mem.Silent :=
  fun d hd => h d (hlater.diagnostics.subset hd)

theorem not_silent_record (hp : p.kind ≠ .unbalancedBraces) : ¬(mem.record p.diagnostic).Silent := by
  intro h
  obtain ⟨d, hd, hkind⟩ := mem.exists_kind_record p.diagnostic
  exact hp (hkind.symm.trans (h d hd))

theorem Faultless.record (h : mem.Faultless) (hp : ¬p.kind.IsFault) :
    (mem.record p.diagnostic).Faultless := by
  unfold Memory.record
  split
  · exact h
  · exact List.forall_mem_append.mpr ⟨h, List.forall_mem_singleton.mpr hp⟩

/-- The random source apart, nothing changed but that something may have been reported that is no
fault. -/
structure Unmoved (mem mem' : Memory) : Prop where
  aliases : mem'.aliases = mem.aliases
  expansions : mem'.expansions = mem.expansions
  faultless : mem.Faultless → mem'.Faultless

theorem Unmoved.refl (mem : Memory) : mem.Unmoved mem := ⟨rfl, rfl, id⟩

theorem Unmoved.trans {a b c : Memory} (h : a.Unmoved b) (h' : b.Unmoved c) : a.Unmoved c :=
  ⟨h'.aliases.trans h.aliases, h'.expansions.trans h.expansions, h'.faultless ∘ h.faultless⟩

theorem unmoved_record (hp : ¬p.kind.IsFault) : mem.Unmoved (mem.record p.diagnostic) :=
  ⟨mem.aliases_record _, mem.expansions_record _, fun h => h.record hp⟩

/-- The same aliases are bound and the same expansions were made; there is no block in a value, and no
fault in the second memory. -/
structure Mirrored (mem mem' : Memory) : Prop where
  names : mem.aliases.map Prod.fst = mem'.aliases.map Prod.fst
  expansions : mem.expansions = mem'.expansions
  unbraced : ∀ entry ∈ mem.aliases ++ mem'.aliases, entry.2.IsUnbraced
  faultless : mem'.Faultless

theorem Mirrored.unbraced_alias? {name : String} {value : Value} (h : mem.Mirrored mem')
    (halias : mem.alias? name = some value ∨ mem'.alias? name = some value) :
    value.IsUnbraced := by
  have hmem : (name, value) ∈ mem.aliases ++ mem'.aliases := by
    rw [List.mem_append]
    refine halias.imp (fun hsome => ?_) fun hsome => ?_
    all_goals
      obtain ⟨front, back, heq, -⟩ := List.lookup_eq_some_iff.mp hsome
      rw [heq]
      simp
  exact h.unbraced _ hmem

theorem Mirrored.unmoved {a b a' b' : Memory} (h : a.Mirrored a') (hb : a.Unmoved b)
    (hb' : a'.Unmoved b') : b.Mirrored b' where
  names := by rw [hb.aliases, hb'.aliases, h.names]
  expansions := by rw [hb.expansions, hb'.expansions, h.expansions]
  unbraced := by rw [hb.aliases, hb'.aliases]; exact h.unbraced
  faultless := hb'.faultless h.faultless

end Memory

/-! ## One run -/

variable {α β : Type}

/-- The run leaves the memory unmoved and gives a value as wanted, if `p`. A memory that is silent at
the end was so at the start in any case. -/
structure Still (p : Prop) (m : EvalM α) (post : α → Prop) : Prop where
  silent : ∀ ⦃mem a mem'⦄, m.runOn mem = (.ok a, mem') → mem'.Silent → mem.Silent
  still : p → ∀ ⦃mem r mem'⦄, m.runOn mem = (r, mem') → mem.Unmoved mem' ∧ ∀ a, r = .ok a → post a

namespace Still

variable {p : Prop} {post : α → Prop}

theorem pure {a : α} (ha : p → post a) : Still p (pure a) post where
  silent _ _ _ hrun hsilent := by
    cases hrun
    exact hsilent
  still hp mem _ _ hrun := by
    cases hrun
    exact ⟨.refl mem, fun _ h => Except.ok.inj h ▸ ha hp⟩

theorem throw (e : Abort) : Still p (throw e : EvalM α) post where
  silent _ _ _ hrun := by cases hrun
  still _ mem _ _ hrun := by
    cases hrun
    exact ⟨.refl mem, fun _ h => nomatch h⟩

theorem bind {m : EvalM α} {f : α → EvalM β} {mid : α → Prop} {post : β → Prop}
    (hm : Still p m mid) (hf : ∀ a, Still (p ∧ mid a) (f a) post) : Still p (m >>= f) post where
  silent _ _ _ hrun hsilent := by
    obtain ⟨a, mem', hfirst, hrest⟩ := EvalM.exists_of_runOn_bind hrun
    exact hm.silent hfirst ((hf a).silent hrest hsilent)
  still hp mem r mem'' hrun := by
    rcases hfirst : m.runOn mem with ⟨e | a, mem'⟩
    · rw [EvalM.runOn_bind_error hfirst] at hrun
      cases hrun
      exact ⟨(hm.still hp hfirst).1, fun _ h => nomatch h⟩
    · rw [EvalM.runOn_bind_ok hfirst] at hrun
      obtain ⟨hunmoved, ha⟩ := hm.still hp hfirst
      obtain ⟨hunmoved', hb⟩ := (hf a).still ⟨hp, ha a rfl⟩ hrun
      exact ⟨hunmoved.trans hunmoved', hb⟩

theorem mono {q : Prop} {m : EvalM α} (h : Still p m post) (hq : q → p) : Still q m post :=
  ⟨h.silent, fun hheld => h.still (hq hheld)⟩

theorem record {problem : Problem} (hproblem : p → ¬problem.kind.IsFault) :
    Still p (EvalM.record problem) fun _ => True where
  silent mem _ _ hrun hsilent := by
    cases hrun
    exact hsilent.of_later (mem.later_record _)
  still hp _ _ _ hrun := by
    cases hrun
    exact ⟨Memory.unmoved_record (hproblem hp), fun _ _ => trivial⟩

theorem noted {problem : Problem} (hproblem : ¬problem.kind.IsFault) {m : EvalM α}
    (h : Still p m post) : Still p (EvalM.record problem >>= fun _ => m) post :=
  (Still.record fun _ => hproblem).bind fun _ => h.mono And.left

theorem draw {d : Draw α} (hd : p → ∀ source a source', d source = some (a, source') → post a) :
    Still p (EvalM.draw d) post where
  silent mem a mem' hrun hsilent := by
    rw [EvalM.runOn_draw] at hrun
    split at hrun <;> cases hrun
    exact hsilent
  still hp mem r mem' hrun := by
    rw [EvalM.runOn_draw] at hrun
    split at hrun
    · cases hrun
      exact ⟨.refl mem, fun _ h => nomatch h⟩
    · next hdrawn =>
      cases hrun
      exact ⟨⟨rfl, rfl, id⟩, fun _ h => Except.ok.inj h ▸ hd hp _ _ _ hdrawn⟩

/-- Without `p` nothing is asked of the values. -/
theorem of_not {m : EvalM α} (hp : ¬p) (h : Still False m fun _ => True) : Still p m post :=
  ⟨h.silent, fun hheld => absurd hheld hp⟩

theorem descend {config : Config} {frame : Frame} {snippet : String} {f : Option Frame → EvalM α}
    (hp : ¬p) (hnone : Still p (f none) post) (hsome : Still p (f (some frame.deeper)) post) :
    Still p (EvalM.descend config frame snippet >>= f) post where
  silent mem a mem₂ hrun hsilent := by
    rw [EvalM.runOn_bind, EvalM.runOn_descend] at hrun
    split at hrun
    · next heq =>
      split at heq
      · cases heq
        exact (hnone.silent hrun hsilent).of_later (mem.later_record _)
      · cases heq
        have hspent := hsome.silent hrun hsilent
        exact hspent
    · cases hrun
  still hheld := absurd hheld hp

end Still

/-! ## Two runs -/

/-- From mirrored memories, if `p`: where the first run ends with a value and is silent, the second
meets no fault, and if it ends with a value the memories are mirrored again and both values are as
wanted. -/
structure Mirrors (p : Prop) (m m' : EvalM α) (post : α → Prop) : Prop where
  silent : ∀ ⦃mem a mem₁⦄, m.runOn mem = (.ok a, mem₁) → mem₁.Silent → mem.Silent
  mirrors : p → ∀ ⦃mem mem' a mem₁ r mem₁'⦄, mem.Mirrored mem' → m.runOn mem = (.ok a, mem₁) →
    mem₁.Silent → m'.runOn mem' = (r, mem₁') →
    mem₁'.Faultless ∧ ∀ a', r = .ok a' → mem₁.Mirrored mem₁' ∧ post a ∧ post a'

namespace Mirrors

variable {p : Prop} {post : α → Prop}

theorem of_still {m m' : EvalM α} (h : Still p m post) (h' : Still p m' post) :
    Mirrors p m m' post where
  silent := h.silent
  mirrors hp mem mem' a mem₁ r mem₁' hmem hrun _ hrun' := by
    obtain ⟨hunmoved, ha⟩ := h.still hp hrun
    obtain ⟨hunmoved', ha'⟩ := h'.still hp hrun'
    exact ⟨hunmoved'.faultless hmem.faultless, fun a' hr =>
      ⟨hmem.unmoved hunmoved hunmoved', ha a rfl, ha' a' hr⟩⟩

theorem bind {m m' : EvalM α} {f f' : α → EvalM β} {mid : α → Prop} {post : β → Prop}
    (hm : Mirrors p m m' mid)
    (hf : ∀ a a', Mirrors (p ∧ mid a ∧ mid a') (f a) (f' a') post) :
    Mirrors p (m >>= f) (m' >>= f') post where
  silent _ _ _ hrun hsilent := by
    obtain ⟨a, mem', hfirst, hrest⟩ := EvalM.exists_of_runOn_bind hrun
    exact hm.silent hfirst ((hf a a).silent hrest hsilent)
  mirrors hp mem mem' b mem₂ r mem₂' hmem hrun hsilent hrun' := by
    obtain ⟨a, mem₁, hfirst, hrest⟩ := EvalM.exists_of_runOn_bind hrun
    have hsilent₁ := (hf a a).silent hrest hsilent
    rcases hfirst' : m'.runOn mem' with ⟨e | a', mem₁'⟩
    · obtain ⟨hfaultless, -⟩ := hm.mirrors hp hmem hfirst hsilent₁ hfirst'
      rw [EvalM.runOn_bind_error hfirst'] at hrun'
      cases hrun'
      exact ⟨hfaultless, fun _ h => nomatch h⟩
    · obtain ⟨-, hvalue⟩ := hm.mirrors hp hmem hfirst hsilent₁ hfirst'
      obtain ⟨hmem₁, ha, ha'⟩ := hvalue a' rfl
      rw [EvalM.runOn_bind_ok hfirst'] at hrun'
      exact (hf a a').mirrors ⟨hp, ha, ha'⟩ hmem₁ hrest hsilent hrun'

theorem mono {q : Prop} {m m' : EvalM α} (h : Mirrors p m m' post) (hq : q → p) :
    Mirrors q m m' post :=
  ⟨h.silent, fun hheld => h.mirrors (hq hheld)⟩

/-- Where the first run reports more than braces, nothing is asked of the second. -/
theorem report {problem : Problem} (hproblem : problem.kind ≠ .unbalancedBraces)
    {f : Unit → EvalM α} {m' : EvalM α} (hf : Still False (f ()) fun _ => True) :
    Mirrors p (EvalM.record problem >>= f) m' post where
  silent mem a mem' hrun hsilent := by
    rw [EvalM.runOn_bind_ok (EvalM.runOn_record problem mem)] at hrun
    exact (hf.silent hrun hsilent).of_later (mem.later_record _)
  mirrors _ mem _ _ _ _ _ _ hrun hsilent _ := by
    rw [EvalM.runOn_bind_ok (EvalM.runOn_record problem mem)] at hrun
    exact absurd (hf.silent hrun hsilent) (Memory.not_silent_record hproblem)

theorem record {problem : Problem} (hproblem : problem.kind ≠ .unbalancedBraces) {m' : EvalM Unit}
    {post : Unit → Prop} : Mirrors p (EvalM.record problem) m' post := by
  rw [← bind_pure (EvalM.record problem)]
  exact report hproblem (.pure fun _ => trivial)

theorem of_not {m m' : EvalM α} (hp : ¬p)
    (h : ∀ ⦃mem a mem'⦄, m.runOn mem = (.ok a, mem') → mem'.Silent → mem.Silent) :
    Mirrors p m m' post :=
  ⟨h, fun hheld => absurd hheld hp⟩

/-- Where the first run ends early, nothing is asked of the second. -/
theorem early (e : Abort) {m' : EvalM α} : Mirrors p (throw e) m' post where
  silent _ _ _ hrun := by cases hrun
  mirrors _ _ _ _ _ _ _ _ hrun := by cases hrun

/-- A second run that ends at once has met no fault. -/
theorem throw {m : EvalM α} (e : Abort)
    (h : ∀ ⦃mem a mem'⦄, m.runOn mem = (.ok a, mem') → mem'.Silent → mem.Silent) :
    Mirrors p m (throw e) post where
  silent := h
  mirrors _ _ _ _ _ _ _ hmem _ _ hrun' := by
    cases hrun'
    exact ⟨hmem.faultless, fun _ h => nomatch h⟩

/-- Both runs descend, or both do not and the first reports it. -/
theorem descend {config : Config} {frame frame' : Frame} {snippet : String}
    {f f' : Option Frame → EvalM α} (hdepth : p → frame.depth = frame'.depth)
    (hnone : Still False (f none) fun _ => True)
    (hsome : Mirrors p (f (some frame.deeper)) (f' (some frame'.deeper)) post) :
    Mirrors p (EvalM.descend config frame snippet >>= f)
      (EvalM.descend config frame' snippet >>= f') post where
  silent :=
    (Still.descend id hnone ⟨hsome.silent, fun hfalse => hfalse.elim⟩ :
      Still False _ fun _ => True).silent
  mirrors hp mem mem' a mem₂ r mem₂' hmem hrun hsilent hrun' := by
    rw [EvalM.runOn_bind, EvalM.runOn_descend] at hrun hrun'
    rw [← hdepth hp, ← hmem.expansions] at hrun'
    split at hrun
    · next heq =>
      split at heq
      · cases heq
        have hearlier := hnone.silent hrun hsilent
        exact absurd hearlier (Memory.not_silent_record (by simp [Problem.kind]))
      · next hroom =>
        cases heq
        rw [if_neg hroom] at hrun'
        have hspent : mem.spend.Mirrored mem'.spend :=
          { hmem with expansions := congrArg (· + 1) hmem.expansions }
        exact hsome.mirrors hp hspent hrun hsilent hrun'
    · cases hrun

theorem isSome_alias? {mem mem' : Memory} (h : mem.aliases.map Prod.fst = mem'.aliases.map Prod.fst)
    (name : String) : (mem.alias? name).isSome = (mem'.alias? name).isSome := by
  have hmem (mem : Memory) : (mem.alias? name).isSome ↔ name ∈ mem.aliases.map Prod.fst := by
    simp [Memory.alias?, List.lookup_isSome_iff]
  rw [Bool.eq_iff_iff, hmem, hmem, h]

/-- An alias that is bound in the first run is bound in the second. -/
theorem aliasValue (name : String) :
    Mirrors p (Eval.aliasValue name) (Eval.aliasValue name) Value.IsUnbraced where
  silent mem r mem₁ hrun hsilent := by
    rw [Eval.aliasValue, EvalM.runOn_bind_ok (EvalM.runOn_alias? name mem)] at hrun
    cases halias : mem.alias? name with
    | some value =>
      rw [halias] at hrun
      cases hrun
      exact hsilent
    | none =>
      rw [halias] at hrun
      cases hrun
      exact hsilent.of_later (mem.later_record _)
  mirrors _ mem mem' a mem₁ r mem₁' hmem hrun hsilent hrun' := by
    rw [Eval.aliasValue, EvalM.runOn_bind_ok (EvalM.runOn_alias? name _)] at hrun hrun'
    have hbound := isSome_alias? hmem.names name
    cases halias : mem.alias? name with
    | none =>
      rw [halias] at hrun
      cases hrun
      exact absurd hsilent (Memory.not_silent_record (by simp [Problem.kind]))
    | some value =>
      rw [halias] at hrun hbound
      obtain ⟨value', halias'⟩ := Option.isSome_iff_exists.mp hbound.symm
      rw [halias'] at hrun'
      cases hrun
      cases hrun'
      refine ⟨hmem.faultless, fun a' ha' => ?_⟩
      cases ha'
      exact ⟨hmem, hmem.unbraced_alias? (.inl halias), hmem.unbraced_alias? (.inr halias')⟩

/-- An alias that is free in the first run is free in the second. -/
theorem bindAlias (name : String) {value value' : Value} (hvalue : p → value.IsUnbraced)
    (hvalue' : p → value'.IsUnbraced) :
    Mirrors p (EvalM.bindAlias name value) (EvalM.bindAlias name value') fun _ => True where
  silent mem r mem₁ hrun hsilent := by
    cases hrun
    exact hsilent.of_later (mem.later_bind name value)
  mirrors hp mem mem' a mem₁ r mem₁' hmem hrun hsilent hrun' := by
    rw [EvalM.runOn_bindAlias] at hrun hrun'
    have hbound := isSome_alias? hmem.names name
    unfold Memory.bind at hrun hrun'
    cases halias : mem.alias? name with
    | some _ =>
      rw [halias] at hrun
      cases hrun
      exact absurd hsilent (Memory.not_silent_record (by simp [Problem.kind]))
    | none =>
      rw [halias] at hrun hbound
      have hfree : mem'.alias? name = none := by simpa using hbound.symm
      rw [hfree] at hrun'
      cases hrun
      cases hrun'
      refine ⟨hmem.faultless, fun _ _ =>
        ⟨⟨?_, hmem.expansions, ?_, hmem.faultless⟩, trivial, trivial⟩⟩
      · simp [hmem.names]
      · have hboth := hmem.unbraced
        simp only [List.forall_mem_append] at hboth ⊢
        exact ⟨⟨hboth.1, List.forall_mem_singleton.mpr (hvalue hp)⟩, hboth.2,
          List.forall_mem_singleton.mpr (hvalue' hp)⟩

end Mirrors

/-! ## Either reading -/

/-- The run in which a script is tried and the run in which it is played. -/
inductive Side where
  | tried
  | played

def Side.pick {α : Type} (tried played : α) : Side → α
  | .tried => tried
  | .played => played

/-- What can be said of some runs of one script at once. -/
structure Lockstep (ι : Type) where
  rel {α : Type} (p : Prop) (m : ι → EvalM α) (post : α → Prop) : Prop
  of_still {α : Type} {p : Prop} {m : ι → EvalM α} {post : α → Prop} :
    (∀ i, Still p (m i) post) → rel p m post
  bind {α β : Type} {p : Prop} {m : ι → EvalM α} {f : ι → α → EvalM β} {mid : α → Prop}
    {post : β → Prop} : rel p m mid →
    (∀ a : ι → α, rel (p ∧ ∀ i, mid (a i)) (fun i => f i (a i)) post) →
    rel p (fun i => m i >>= f i) post
  mono {α : Type} {p q : Prop} {m : ι → EvalM α} {post : α → Prop} :
    rel p m post → (q → p) → rel q m post

namespace Lockstep

/-- One run that is still. -/
def alone : Lockstep Unit where
  rel p m post := Still p (m ()) post
  of_still h := h ()
  bind h hf := h.bind fun a => (hf fun _ => a).mono fun ha => ⟨ha.1, fun _ => ha.2⟩
  mono h hq := h.mono hq

/-- Two runs of which the second mirrors the first. -/
def besides : Lockstep Side where
  rel p m post := Mirrors p (m .tried) (m .played) post
  of_still h := .of_still (h .tried) (h .played)
  bind h hf := h.bind fun a a' =>
    (hf (Side.pick a a')).mono fun ha =>
      ⟨ha.1, fun i => by cases i; exacts [ha.2.1, ha.2.2]⟩
  mono h hq := h.mono hq

variable {ι : Type} (L : Lockstep ι) {p : Prop}

theorem pure {a : ι → α} {post : α → Prop} (ha : p → ∀ i, post (a i)) :
    L.rel p (fun i => pure (a i)) post :=
  L.of_still fun i => .pure fun hp => ha hp i

theorem map {m : ι → EvalM α} {g : ι → α → β} {mid : α → Prop} {post : β → Prop}
    (h : L.rel p m mid) (hg : p → ∀ i a, mid a → post (g i a)) :
    L.rel p (fun i => m i >>= fun a => Pure.pure (g i a)) post :=
  L.bind h fun a => L.pure fun ha i => hg ha.1 i (a i) (ha.2 i)

theorem mapM {f : ι → α → EvalM β} {post : β → Prop} {list : List α}
    (h : ∀ a ∈ list, L.rel p (fun i => f i a) post) :
    L.rel p (fun i => list.mapM (f i)) fun results => ∀ b ∈ results, post b := by
  induction list generalizing p with
  | nil => exact L.pure fun _ _ => by simp
  | cons a rest ih =>
    simp only [List.mapM_cons]
    refine L.bind (h a (.head _)) fun b => ?_
    refine L.map (ih fun a ha => L.mono (h a (.tail _ ha)) And.left) ?_
    exact fun hp i results hresults => List.forall_mem_cons.mpr ⟨hp.2 i, hresults⟩

end Lockstep

end QualityScript
