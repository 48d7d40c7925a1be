import QualityScript.Proofs.Evaluation.Caps
import QualityScript.Proofs.Evaluation.Entries

/-!
# What an evaluation fails for

An evaluation over an evaluator asks queries: tasks in frames, each from the memory that is reached
then. It hangs on a query if another answer to that query alone makes it end otherwise. Since an
answer that ends early ends the whole, an evaluation hangs on whatever it really asks.

An evaluation fails if it ends because caps cannot be ordered. That begins at one challenge and is
passed on: what fails either has such caps itself or hangs on a query that fails. To see this the
evaluation is read side by side over the evaluator and over variants of it, each with another answer
to one failing query.
-/

namespace QualityScript

open Randomness

/-- The evaluation ends because the caps of a challenge cannot be ordered. -/
def EvalM.Fails {α : Type} (m : EvalM α) (mem : Memory) : Prop :=
  (m.runOn mem).1 = .error .unorderedCaps

theorem EvalM.Fails.bind {α β : Type} {m : EvalM α} {mem : Memory} (h : m.Fails mem)
    (f : α → EvalM β) : (m >>= f).Fails mem := by
  rcases hm : m.runOn mem with ⟨result, mem'⟩
  unfold Fails at h
  rw [hm] at h
  subst h
  rw [Fails, runOn_bind_error hm]

/-- A task in a frame, from a memory. -/
structure Query where
  task : Task
  frame : Frame
  memory : Memory

namespace Evaluator

def answer (self : Evaluator) (q : Query) : Except Abort q.task.Result × Memory :=
  (self.run q.task q.frame).runOn q.memory

def Fails (self : Evaluator) (q : Query) : Prop := (self.run q.task q.frame).Fails q.memory

/-- The evaluators answer all queries alike, but one. -/
def SameBut (self : Evaluator) (q : Query) (other : Evaluator) : Prop :=
  ∀ q', q' ≠ q → other.answer q' = self.answer q'

/-- From this memory the evaluation over `self` ends otherwise if a single query is answered
otherwise. -/
def HangsOn {α : Type} (self : Evaluator) (m : Evaluator → EvalM α) (mem : Memory) (q : Query) :
    Prop :=
  ∃ other, self.SameBut q other ∧ (m other).runOn mem ≠ (m self).runOn mem

/-! ## Another answer to one query -/

/-- The evaluator that does tasks in a given way. -/
def ofRun (run : (t : Task) → Frame → EvalM t.Result) : Evaluator where
  content mode input := run (.content mode input)
  leaf input := run (.leaf input)
  expr e := run (.expr e)
  expand quotesKept input := run (.expand quotesKept input)

@[simp] theorem run_ofRun (run : (t : Task) → Frame → EvalM t.Result) (t : Task) :
    (ofRun run).run t = run t := by
  cases t <;> rfl

open Classical in
/-- The evaluator that does not finish one query. -/
noncomputable def haltedAt (self : Evaluator) (q : Query) : Evaluator :=
  ofRun fun t frame => do
    let mem ← get
    if ⟨t, frame, mem⟩ = q then throw .unfinished else self.run t frame

open Classical in
theorem answer_haltedAt (self : Evaluator) (q q' : Query) :
    (self.haltedAt q).answer q' =
      if q' = q then (.error .unfinished, q'.memory) else self.answer q' := by
  obtain ⟨t, frame, mem⟩ := q'
  simp only [answer, haltedAt, run_ofRun]
  rw [EvalM.runOn_bind_ok (EvalM.runOn_get mem)]
  split <;> rfl

/-- An evaluator with another answer to one failing query. -/
structure Variant (ev : Evaluator) where
  other : Evaluator
  query : Query
  same : ev.SameBut query other
  fails : ev.Fails query

/-- The variant that halts at a query that fails. -/
noncomputable def Variant.halted {ev : Evaluator} {q : Query} (h : ev.Fails q) : Variant ev where
  other := ev.haltedAt q
  query := q
  same q' hne := by rw [answer_haltedAt, if_neg hne]
  fails := h

/-- The evaluator itself, or a variant of it. -/
def orVariant (self : Evaluator) : Option (Variant self) → Evaluator
  | none => self
  | some v => v.other

end Evaluator

/-! ## Evaluations over variants -/

/-- Unless the evaluation fails, it is the same over all variants. If it fails, it halts over one. -/
structure Blames {α : Type} {ev : Evaluator} (m : Option ev.Variant → EvalM α) (mem : Memory)
    (post : α → Memory → Prop) : Prop where
  post : ∀ {a mem'}, (m none).runOn mem = (.ok a, mem') → post a mem'
  same : ¬ (m none).Fails mem → ∀ v, (m (some v)).runOn mem = (m none).runOn mem
  blame : (m none).Fails mem → ∃ v mem', (m (some v)).runOn mem = (.error .unfinished, mem')

namespace Blames

variable {α β : Type} {ev : Evaluator} {mem : Memory} {post : α → Memory → Prop}

theorem of_runOn {m : EvalM α} (hfails : ¬ m.Fails mem)
    (hpost : ∀ a mem', m.runOn mem = (.ok a, mem') → post a mem') :
    Blames (fun _ : Option ev.Variant => m) mem post :=
  ⟨fun h => hpost _ _ h, fun _ _ => rfl, fun h => absurd h hfails⟩

theorem bind {m : Option ev.Variant → EvalM α} {f : Option ev.Variant → α → EvalM β}
    {post : β → Memory → Prop} (h : Blames m mem fun a mem' => Blames (fun i => f i a) mem' post) :
    Blames (fun i => m i >>= f i) mem post := by
  rcases hm : (m none).runOn mem with ⟨e | a, mem'⟩
  · have hrun := EvalM.runOn_bind_error hm (f none)
    refine ⟨fun h' => ?_, fun hfails v => ?_, fun hfails => ?_⟩
    · rw [hrun] at h'
      cases h'
    · have hsame := h.same (fun hm' => hfails (hm'.bind _)) v
      rw [hrun]
      exact EvalM.runOn_bind_error (hsame.trans hm) (f (some v))
    · have hfirst : (m none).Fails mem := by
        rw [EvalM.Fails, hrun] at hfails
        rw [EvalM.Fails, hm]
        cases hfails
        rfl
      obtain ⟨v, mem', hv⟩ := h.blame hfirst
      exact ⟨v, mem', EvalM.runOn_bind_error hv (f (some v))⟩
  · have hrun := EvalM.runOn_bind_ok hm (f none)
    have hrest := h.post hm
    have hsame (v : ev.Variant) :
        (m (some v) >>= f (some v)).runOn mem = (f (some v) a).runOn mem' := by
      refine EvalM.runOn_bind_ok ((h.same ?_ v).trans hm) (f (some v))
      rw [EvalM.Fails, hm]
      exact nofun
    refine ⟨fun h' => hrest.post (hrun.symm.trans h'), fun hfails v => ?_, fun hfails => ?_⟩
    · rw [EvalM.Fails, hrun] at hfails
      rw [hsame, hrun]
      exact hrest.same hfails v
    · rw [EvalM.Fails, hrun] at hfails
      obtain ⟨v, mem'', hv⟩ := hrest.blame hfails
      exact ⟨v, mem'', (hsame v).trans hv⟩

theorem mono {m : Option ev.Variant → EvalM α} {post' : α → Memory → Prop}
    (h : Blames m mem post) (hpost : ∀ a mem', post a mem' → post' a mem') : Blames m mem post' :=
  ⟨fun h' => hpost _ _ (h.post h'), h.same, h.blame⟩

/-- What is known of a value includes how it came about. -/
theorem ran {m : Option ev.Variant → EvalM α} (h : Blames m mem post) :
    Blames m mem fun a mem' => post a mem' ∧ (m none).runOn mem = (.ok a, mem') :=
  ⟨fun h' => ⟨h.post h', h'⟩, h.same, h.blame⟩

theorem draw {d : Draw α}
    (h : ∀ a source, d mem.source = some (a, source) → post a { mem with source }) :
    Blames (fun _ : Option ev.Variant => EvalM.draw d) mem post := by
  refine of_runOn ?_ (Yields.draw h)
  rw [EvalM.Fails, EvalM.runOn_draw]
  rcases d mem.source with _ | ⟨a, source⟩ <;> intro h <;> cases h

theorem descend {config : Config} {frame : Frame} {snippet : String}
    {post : Option Frame → Memory → Prop}
    (hnone : post none (mem.record (Problem.tooDeep frame.depth snippet).diagnostic))
    (hsome : mem.expansions < config.expansionBudget → post (some frame.deeper) mem.spend) :
    Blames (fun _ : Option ev.Variant => EvalM.descend config frame snippet) mem post := by
  refine of_runOn ?_ (Yields.descend hnone hsome)
  rw [EvalM.Fails, EvalM.runOn_descend]
  split <;> exact nofun

end Blames

/-- Reading an evaluation over an evaluator and its variants. -/
def Bounds.blaming (b : Bounds) (ev : Evaluator) : Logic (Option ev.Variant) where
  bounds _ := b
  budget := b.expansionBudget
  rel := Blames
  pure h := .of_runOn nofun fun _ _ h' => by cases h'; exact h
  bind := .bind
  mono := .mono
  record h := .of_runOn nofun fun _ _ h' => by cases h'; exact h
  alias? h := .of_runOn nofun fun _ _ h' => by cases h'; exact h
  bindAlias h := .of_runOn nofun fun _ _ h' => by cases h'; exact h
  draw _ h := .draw fun a source hs => h _ a source hs
  descend hnone hsome := .descend hnone hsome

/-- A query that does not fail is answered alike by all variants; where one fails, a variant halts. -/
theorem answers_orVariant {env : Env} {ev : Evaluator}
    (hlater : ∀ (t : Task) (frame : Frame) (mem : Memory),
      Yields (ev.run t frame) mem fun _ mem' => mem.Later mem') (t : Task) (start : Memory) :
    (env.bounds.blaming ev).Answers (.nothing env) ev.orVariant t start := by
  intro mem frame _
  let q : Query := ⟨t, frame, mem⟩
  refine ⟨fun h => ⟨hlater t frame mem h, fun _ _ => trivial, by cases t <;> exact trivial⟩,
    fun (hfails : ¬ ev.Fails q) v => ?_, fun (hfails : ev.Fails q) => ?_⟩
  · have hne : q ≠ v.query := fun heq => hfails (heq ▸ v.fails)
    exact v.same q hne
  · have hhalted : (ev.haltedAt q).answer q = (.error .unfinished, mem) := by
      rw [Evaluator.answer_haltedAt, if_pos rfl]
    exact ⟨.halted hfails, mem, hhalted⟩

/-! ## Where a failure comes from -/

namespace Eval

/-- The parts of the challenge have values, but the caps among them cannot be ordered. -/
def CapsFail (env : Env) (ev : Evaluator) (c : Challenge) (frame : Frame) (mem : Memory) : Prop :=
  ∃ x mem', (inputs env ev c frame).runOn mem = (.ok x, mem') ∧ x.chance? c.direction = none

variable {env : Env} {ev : Evaluator} {c : Challenge} {frame : Frame} {mem : Memory}

theorem fails_of_capsFail (h : CapsFail env ev c frame mem) :
    (challengePercent env ev c frame).Fails mem := by
  obtain ⟨x, mem', hinputs, hnone⟩ := h
  rw [challengePercent_eq, EvalM.Fails, EvalM.runOn_bind_ok hinputs, Inputs.percent, hnone]
  split <;> rfl

theorem givesChance_of_not_capsFail
    (hall : ∀ t, (env.bounds.blaming ev).Answers (.nothing env) ev.orVariant t mem)
    (h : ¬ CapsFail env ev c frame mem) :
    (env.bounds.blaming ev).GivesChance (.nothing env) ev.orVariant c mem frame := by
  have hat : (Kept.nothing env).At mem mem frame := Kept.at_nothing mem frame
  have hinputs : Blames (fun i => inputs env (ev.orVariant i) c frame) mem _ :=
    gives_inputs ⟨fun e _ => hall (.expr e), fun _ _ e _ _ => hall (.expr e)⟩ hat
  unfold Logic.GivesChance
  simp only [challengePercent_eq]
  refine Blames.bind (hinputs.ran.mono fun x mem' ⟨⟨hlater, hmem, _⟩, hrun⟩ => ?_)
  have hchance : x.chance? c.direction ≠ none := fun hnone => h ⟨x, mem', hrun, hnone⟩
  have hpercent : (env.bounds.blaming ev).Gives (.nothing env) (fun _ => x.percent c.direction)
      mem' fun _ => True :=
    gives_percent (fun hnone => absurd hnone hchance) (hat.next hlater hmem)
  exact hpercent.mono fun _ _ ⟨hlater', hmem', _⟩ => ⟨hlater.trans hlater', hmem', trivial⟩

/-- An evaluation that reads well as soon as the challenges that it may start with have a chance fails
for the caps of one of these, or because a query fails that it hangs on. -/
theorem fails_iff {α : Type} {m : Evaluator → EvalM α} (starts : Challenge → Prop)
    (hall : ∀ t, (env.bounds.blaming ev).Answers (.nothing env) ev.orVariant t mem)
    (hstarts : ∀ c, starts c → ∃ rest, m ev = challengePercent env ev c frame >>= rest)
    (hreads : (∀ c, starts c →
        (env.bounds.blaming ev).GivesChance (.nothing env) ev.orVariant c mem frame) →
      ∃ post, Blames (fun i => m (ev.orVariant i)) mem post) :
    (m ev).Fails mem ↔
      (∃ c, starts c ∧ CapsFail env ev c frame mem) ∨
        ∃ q, ev.Fails q ∧ ev.HangsOn m mem q := by
  by_cases hown : ∃ c, starts c ∧ CapsFail env ev c frame mem
  · obtain ⟨c, hc, hcaps⟩ := hown
    obtain ⟨rest, hrest⟩ := hstarts c hc
    have hfails : (m ev).Fails mem := hrest ▸ (fails_of_capsFail hcaps).bind rest
    exact iff_of_true hfails (.inl ⟨c, hc, hcaps⟩)
  · obtain ⟨post, hblames⟩ := hreads fun c hc =>
      givesChance_of_not_capsFail hall fun hcaps => hown ⟨c, hc, hcaps⟩
    constructor
    · intro hfails
      obtain ⟨v, mem', hhalts⟩ := hblames.blame hfails
      refine .inr ⟨v.query, v.fails, v.other, v.same, fun hsame => ?_⟩
      have hended := congrArg Prod.fst (hhalts.symm.trans hsame)
      cases hended.trans hfails
    · rintro (h | ⟨q, hq, other, hother, hne⟩)
      · exact absurd h hown
      · refine Classical.byContradiction fun hfails => hne ?_
        exact hblames.same hfails ⟨other, q, hother, hq⟩

end Eval

end QualityScript
