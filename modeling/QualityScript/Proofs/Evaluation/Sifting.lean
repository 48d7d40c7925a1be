import QualityScript.Proofs.Evaluation.Memory
import QualityScript.Eval.Call

/-!
# Sifting the qualities of a category

A filter is asked about the qualities of a category one after the other, and it may change the memory
each time. What a pick, a roll or a list starts from is a sublist of the category: the qualities of
which the filter held when it came to them.
-/

namespace QualityScript.Eval

open Quality

/-- Whether a filter lets a quality through, evaluated with `$.` bound to the quality. Without a
filter every quality passes. -/
def admits (self : Evaluator) (filter : Option Expr) (frame : Frame) (d : Definition) :
    EvalM Bool :=
  match filter with
  | some filter => return (← self.expr filter (frame.rebind ⟨d.id, none⟩)).isTruthy
  | none => return true

/-- The members are asked one after the other, and those that answer yes are kept. -/
inductive Sifts (ask : Definition → EvalM Bool) :
    List Definition → Memory → List Definition → Memory → Prop where
  | nil {mem} : Sifts ask [] mem [] mem
  | kept {d members kept mem between mem'} : (ask d).runOn mem = (.ok true, between) →
      Sifts ask members between kept mem' → Sifts ask (d :: members) mem (d :: kept) mem'
  | dropped {d members kept mem between mem'} : (ask d).runOn mem = (.ok false, between) →
      Sifts ask members between kept mem' → Sifts ask (d :: members) mem kept mem'

variable {env : Env} {self : Evaluator} {frame : Frame} {category : String}
  {filter : Option Expr} {ids : List String} {mem sifted : Memory}

theorem Sifts.sublist {ask : Definition → EvalM Bool} {members kept : List Definition}
    (h : Sifts ask members mem kept sifted) : kept.Sublist members := by
  induction h with
  | nil => exact .slnil
  | kept _ _ ih => exact ih.cons_cons _
  | dropped _ _ ih => exact ih.cons _

theorem passing_cons (self : Evaluator) (filter : Expr) (frame : Frame) (d : Definition)
    (rest : List Definition) :
    passing self filter frame (d :: rest) = (do
      let admitted ← admits self (some filter) frame d
      let ids ← passing self filter frame rest
      return if admitted then d.id :: ids else ids) := by
  rw [passing, admits, bind_assoc]
  rfl

theorem runOn_passing_iff {filter : Expr} {members : List Definition} :
    (passing self filter frame members).runOn mem = (.ok ids, sifted) ↔
      ∃ kept, Sifts (admits self (some filter) frame) members mem kept sifted ∧
        ids = kept.map (·.id) := by
  constructor
  · intro h
    induction members generalizing mem ids with
    | nil =>
      cases h
      exact ⟨[], .nil, rfl⟩
    | cons d rest ih =>
      rw [passing_cons] at h
      obtain ⟨admitted, between, hask, hrest⟩ := EvalM.exists_of_runOn_bind h
      obtain ⟨others, mem', hothers, hvalue⟩ := EvalM.exists_of_runOn_bind hrest
      cases hvalue
      obtain ⟨kept, hsifts, rfl⟩ := ih hothers
      cases admitted with
      | true => exact ⟨d :: kept, .kept hask hsifts, rfl⟩
      | false => exact ⟨kept, .dropped hask hsifts, rfl⟩
  · rintro ⟨kept, hsifts, rfl⟩
    induction hsifts with
    | nil => rfl
    | kept hask _ ih | dropped hask _ ih =>
      rw [passing_cons, EvalM.runOn_bind_ok hask, EvalM.runOn_bind_ok ih]
      rfl

theorem sifts_none_iff {members kept : List Definition} :
    Sifts (admits self none frame) members mem kept sifted ↔ kept = members ∧ sifted = mem := by
  constructor
  · intro h
    induction h with
    | nil => exact ⟨rfl, rfl⟩
    | kept hask _ ih =>
      cases hask
      obtain ⟨rfl, rfl⟩ := ih
      exact ⟨rfl, rfl⟩
    | dropped hask => cases hask
  · rintro ⟨rfl, rfl⟩
    induction kept with
    | nil => exact .nil
    | cons d rest ih => exact .kept rfl ih

theorem runOn_candidates_iff :
    (candidates env self category filter frame).runOn mem = (.ok ids, sifted) ↔
      ∃ kept, Sifts (admits self filter frame) (env.registry.inCategory category) mem kept sifted ∧
        ids = kept.map (·.id) := by
  cases filter with
  | some filter => exact runOn_passing_iff
  | none =>
    constructor
    · intro h
      cases h
      exact ⟨_, sifts_none_iff.mpr ⟨rfl, rfl⟩, rfl⟩
    · rintro ⟨kept, hsifts, rfl⟩
      obtain ⟨rfl, rfl⟩ := sifts_none_iff.mp hsifts
      rfl

theorem sublist_of_runOn_candidates
    (h : (candidates env self category filter frame).runOn mem = (.ok ids, sifted)) :
    ids.Sublist ((env.registry.inCategory category).map (·.id)) := by
  obtain ⟨kept, hsifts, rfl⟩ := runOn_candidates_iff.mp h
  exact hsifts.sublist.map _

end QualityScript.Eval
