import QualityScript.Proofs.Randomness.Draws
import QualityScript.Eval.Context

/-!
# How the memory grows

An evaluation computes a result and a memory. The equations below run the primitive evaluations.
Each of them leaves a later memory: bound aliases stay, diagnostics are only added, expansions are
counted up and the random source goes forward.
-/

namespace QualityScript

open Randomness

theorem eq_ok_of_toOption {ε α : Type} {x : Except ε α} {a : α} (h : x.toOption = some a) :
    x = .ok a := by
  cases x with
  | error _ => cases h
  | ok a => cases h; rfl

namespace EvalM

variable {α β : Type}

@[simp] theorem runOn_pure (a : α) (mem : Memory) : (pure a : EvalM α).runOn mem = (.ok a, mem) :=
  rfl

@[simp] theorem runOn_throw (e : Abort) (mem : Memory) :
    (throw e : EvalM α).runOn mem = (.error e, mem) := rfl

theorem runOn_bind (m : EvalM α) (f : α → EvalM β) (mem : Memory) :
    (m >>= f).runOn mem =
      match m.runOn mem with
      | (.ok a, mem) => (f a).runOn mem
      | (.error e, mem) => (.error e, mem) := by
  change (ExceptT.bind m f).run mem = _
  simp only [ExceptT.bind, ExceptT.mk, ExceptT.run, runOn, ExceptT.bindCont, bind, StateT.bind]
  rcases m mem with ⟨_ | _, _⟩ <;> rfl

theorem runOn_bind_ok {m : EvalM α} {a : α} {mem mem' : Memory} (h : m.runOn mem = (.ok a, mem'))
    (f : α → EvalM β) : (m >>= f).runOn mem = (f a).runOn mem' := by
  rw [runOn_bind, h]

theorem runOn_bind_error {m : EvalM α} {e : Abort} {mem mem' : Memory}
    (h : m.runOn mem = (.error e, mem')) (f : α → EvalM β) :
    (m >>= f).runOn mem = (.error e, mem') := by
  rw [runOn_bind, h]

/-- An evaluation in two parts that ends with a value has a value in the middle. -/
theorem exists_of_runOn_bind {m : EvalM α} {f : α → EvalM β} {b : β} {mem mem'' : Memory}
    (h : (m >>= f).runOn mem = (.ok b, mem'')) :
    ∃ a mem', m.runOn mem = (.ok a, mem') ∧ (f a).runOn mem' = (.ok b, mem'') := by
  rcases hm : m.runOn mem with ⟨e | a, mem'⟩
  · rw [runOn_bind_error hm] at h
    cases h
  · rw [runOn_bind_ok hm] at h
    exact ⟨a, mem', rfl, h⟩

@[simp] theorem runOn_record (p : Problem) (mem : Memory) :
    (record p).runOn mem = (.ok (), mem.record p.diagnostic) := rfl

@[simp] theorem runOn_alias? (name : String) (mem : Memory) :
    (alias? name).runOn mem = (.ok (mem.alias? name), mem) := rfl

@[simp] theorem runOn_bindAlias (name : String) (value : Value) (mem : Memory) :
    (bindAlias name value).runOn mem = (.ok (), (mem.bind name value).2) := rfl

theorem runOn_get (mem : Memory) : (get : EvalM Memory).runOn mem = (.ok mem, mem) := rfl

theorem runOn_draw (d : Draw α) (mem : Memory) :
    (draw d).runOn mem =
      match d mem.source with
      | none => (.error .unfinished, mem)
      | some (a, source) => (.ok a, { mem with source }) := by
  rw [draw, runOn_bind_ok (runOn_get mem)]
  rcases d mem.source with _ | ⟨_, _⟩ <;> rfl

end EvalM

def Frame.deeper (frame : Frame) : Frame := { frame with depth := frame.depth + 1 }

def Memory.spend (mem : Memory) : Memory := { mem with expansions := mem.expansions + 1 }

theorem EvalM.runOn_descend (config : Config) (frame : Frame) (snippet : String) (mem : Memory) :
    (descend config frame snippet).runOn mem =
      if config.maxDepth ≤ frame.depth ∨ config.expansionBudget ≤ mem.expansions then
        (.ok none, mem.record (Problem.tooDeep frame.depth snippet).diagnostic)
      else (.ok (some frame.deeper), mem.spend) := by
  rw [descend, runOn_bind_ok (runOn_get mem)]
  split <;> rfl

namespace Memory

/-- `mem'` comes from `mem` by evaluating. -/
structure Later (mem mem' : Memory) : Prop where
  aliases : ∀ {name value}, mem.alias? name = some value → mem'.alias? name = some value
  diagnostics : mem.diagnostics <+: mem'.diagnostics
  expansions : mem.expansions ≤ mem'.expansions
  source : mem.source.Before mem'.source

namespace Later

theorem refl (mem : Memory) : mem.Later mem :=
  ⟨id, List.prefix_refl _, Nat.le_refl _, .refl _⟩

theorem trans {a b c : Memory} (h : a.Later b) (h' : b.Later c) : a.Later c :=
  ⟨fun hv => h'.aliases (h.aliases hv), h.diagnostics.trans h'.diagnostics,
    Nat.le_trans h.expansions h'.expansions, h.source.trans h'.source⟩

end Later

theorem diagnostics_record (mem : Memory) (d : Diagnostic) :
    mem.diagnostics <+: (mem.record d).diagnostics := by
  unfold record
  split
  · exact List.prefix_refl _
  · exact List.prefix_append _ _

@[simp] theorem aliases_record (mem : Memory) (d : Diagnostic) :
    (mem.record d).aliases = mem.aliases := by
  unfold record; split <;> rfl

@[simp] theorem expansions_record (mem : Memory) (d : Diagnostic) :
    (mem.record d).expansions = mem.expansions := by
  unfold record; split <;> rfl

@[simp] theorem source_record (mem : Memory) (d : Diagnostic) :
    (mem.record d).source = mem.source := by
  unfold record; split <;> rfl

theorem exists_same_record (mem : Memory) (d : Diagnostic) :
    ∃ e ∈ (mem.record d).diagnostics, e.kind = d.kind ∧ e.snippet = d.snippet := by
  unfold record
  split
  · next h =>
    obtain ⟨e, he, hsame⟩ := List.any_eq_true.mp h
    exact ⟨e, he, of_decide_eq_true hsame⟩
  · exact ⟨d, by simp, rfl, rfl⟩

theorem exists_kind_record (mem : Memory) (d : Diagnostic) :
    ∃ e ∈ (mem.record d).diagnostics, e.kind = d.kind := by
  obtain ⟨e, he, hkind, -⟩ := mem.exists_same_record d
  exact ⟨e, he, hkind⟩

theorem later_record (mem : Memory) (d : Diagnostic) : mem.Later (mem.record d) where
  aliases := fun h => by simpa [alias?] using h
  diagnostics := mem.diagnostics_record d
  expansions := by simp
  source := by simpa using .refl _

theorem later_bind (mem : Memory) (name : String) (value : Value) :
    mem.Later (mem.bind name value).2 := by
  unfold bind
  split
  · exact mem.later_record _
  · exact
      { aliases := fun h => by
          simp only [alias?] at h
          simp only [alias?, List.lookup_append, h, Option.some_or]
        diagnostics := List.prefix_refl _
        expansions := Nat.le_refl _
        source := .refl _ }

theorem later_drawn {mem : Memory} {source : Source} (h : mem.source.Before source) :
    mem.Later { mem with source } :=
  ⟨id, List.prefix_refl _, Nat.le_refl _, h⟩

theorem later_spend (mem : Memory) : mem.Later mem.spend :=
  ⟨id, List.prefix_refl _, Nat.le_succ _, .refl _⟩

end Memory

end QualityScript
