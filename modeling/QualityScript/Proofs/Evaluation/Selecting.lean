import QualityScript.Proofs.Randomness.Places
import QualityScript.Proofs.Content.Merging
import QualityScript.Proofs.Evaluation.Fuel
import QualityScript.Proofs.Evaluation.Entries
import QualityScript.Proofs.Evaluation.Sifting

/-!
# Selecting qualities

A pick and a roll draw from the qualities of a category that a filter lets through. Which ones these
are is settled first, quality by quality, and the filter may change the memory on the way. Then a pick
draws distinct places among them, and since no id comes twice in a library, distinct ids. A roll draws
a place of a level above zero; what has none is never drawn.
-/

namespace QualityScript

open Quality Randomness

theorem EvalM.runOn_draw_eq_ok_iff {α : Type} {d : Draw α} {a : α} {mem mem' : Memory} :
    (EvalM.draw d).runOn mem = (.ok a, mem') ↔
      ∃ source, d mem.source = some (a, source) ∧ mem' = { mem with source } := by
  rw [EvalM.runOn_draw]
  constructor
  · intro h
    split at h
    · cases h
    · next source hdrawn =>
      cases h
      exact ⟨source, hdrawn, rfl⟩
  · rintro ⟨source, hdrawn, rfl⟩
    rw [hdrawn]

theorem EvalM.exists_clean {α : Type} {m : EvalM α} {mem : Memory}
    (hvalue : (m.runOn mem).1.toOption.isSome) (hclean : (m.runOn mem).2.diagnostics = []) :
    ∃ a mem', m.runOn mem = (.ok a, mem') ∧ mem'.diagnostics = [] := by
  obtain ⟨a, ha⟩ := Option.isSome_iff_exists.mp hvalue
  exact ⟨a, _, Prod.ext (eq_ok_of_toOption ha) rfl, hclean⟩

namespace Entry

variable {α : Type} {m : Env → Evaluator → Frame → EvalM α} {env : Env} {fuel : Nat} {frame : Frame}
  {mem mem' : Memory} {a : α}

theorem later (hm : Entry m) (h : (m env (evaluator env fuel) frame).runOn mem = (.ok a, mem')) :
    mem.Later mem' := by
  have hgives : env.bounds.logic.Gives (.nothing env) (fun _ => m env (evaluator env fuel) frame) mem
      fun _ => True := hm.gives (fun t => env.answers (.nothing env) fuel t mem) (Kept.at_nothing _ _)
  exact (hgives h).1

theorem runOn_more (hm : Entry m) (h : (m env (evaluator env fuel) frame).runOn mem = (.ok a, mem'))
    (attempts more : Nat) (hattempts : env.attempts ≤ attempts) (hmore : fuel ≤ more) :
    (m { env with attempts } (evaluator { env with attempts } more) frame).runOn mem =
      (.ok a, mem') :=
  (hm.runOn_of_le rfl hattempts hmore (by simp [h])).trans h

theorem candidates (category : String) (filter : Option Expr) :
    Entry fun env self frame => Eval.candidates env self category filter frame :=
  ⟨fun hall _ h => Eval.gives_candidates (fun e _ => hall (.expr e)) h⟩

theorem pickCount (count : Option Expr) :
    Entry fun _ self frame => Eval.pickCount self count frame :=
  ⟨fun hall _ h => Eval.gives_pickCount (fun e _ => hall (.expr e)) h⟩

end Entry

namespace Eval

variable {env : Env} {self : Evaluator} {frame : Frame} {category : String}
  {count filter : Option Expr} {ids : List String} {n : Nat} {value : Value}
  {mem sifted counted ended : Memory}

theorem Sifts.runOn_candidates {fuel : Nat} {kept : List Definition}
    (h : Sifts (admits (evaluator env fuel) filter frame) (env.registry.inCategory category) mem kept
      sifted) :
    mem.source.Before sifted.source ∧
      ∀ attempts more, env.attempts ≤ attempts → fuel ≤ more →
        (candidates { env with attempts } (evaluator { env with attempts } more) category filter
          frame).runOn mem = (.ok (kept.map (·.id)), sifted) := by
  have hids : (candidates env (evaluator env fuel) category filter frame).runOn mem =
      (.ok (kept.map (·.id)), sifted) := runOn_candidates_iff.mpr ⟨kept, h, rfl⟩
  have hentry := Entry.candidates category filter
  exact ⟨(hentry.later hids).source, fun attempts more => hentry.runOn_more hids attempts more⟩

/-! ## Picks -/

/-- The memory of a pick before it draws: that there are no candidates is recorded. -/
def noted (category : String) (ids : List String) (mem : Memory) : Memory :=
  if ids.isEmpty then mem.record (Problem.nothingPicked category).diagnostic else mem

theorem source_noted (category : String) (ids : List String) (mem : Memory) :
    (noted category ids mem).source = mem.source := by
  unfold noted
  split
  · exact mem.source_record _
  · rfl

/-- After its candidates and their number a pick only draws. -/
theorem runOn_pick
    (hids : (candidates env self category filter frame).runOn mem = (.ok ids, sifted))
    (hcount : (pickCount self count frame).runOn sifted = (.ok n, counted)) :
    (pick env self category count filter frame).runOn mem =
      (do return .ids (← EvalM.draw (chooseMany env.attempts n ids)) : EvalM Value).runOn
        (noted category ids counted) := by
  rw [pick, EvalM.runOn_bind_ok hids, EvalM.runOn_bind_ok hcount]
  unfold noted
  cases ids.isEmpty <;> rfl

theorem exists_of_runOn_pick
    (h : (pick env self category count filter frame).runOn mem = (.ok value, ended)) :
    ∃ kept sifted n counted chosen source,
      Sifts (admits self filter frame) (env.registry.inCategory category) mem kept sifted ∧
      (pickCount self count frame).runOn sifted = (.ok n, counted) ∧ value = .ids chosen ∧
      chooseMany env.attempts n (kept.map (·.id)) counted.source = some (chosen, source) ∧
      ended = { noted category (kept.map (·.id)) counted with source } := by
  obtain ⟨ids, sifted, hids, hrest⟩ := EvalM.exists_of_runOn_bind h
  obtain ⟨n, counted, hcount, -⟩ := EvalM.exists_of_runOn_bind hrest
  obtain ⟨kept, hsifts, rfl⟩ := runOn_candidates_iff.mp hids
  rw [runOn_pick hids hcount] at h
  obtain ⟨chosen, mem', hdraw, hvalue⟩ := EvalM.exists_of_runOn_bind h
  cases hvalue
  obtain ⟨source, hchosen, rfl⟩ := EvalM.runOn_draw_eq_ok_iff.mp hdraw
  rw [source_noted] at hchosen
  exact ⟨kept, sifted, n, counted, chosen, source, hsifts, hcount, rfl, hchosen, rfl⟩

theorem nodup_ids_inCategory (library : Content.Library) (category : String) :
    ((library.inCategory category).map (·.id)).Nodup :=
  library.qualityTable.nodup_keys.sublist (List.filter_sublist.map _)

theorem exists_runOn_pick {fuel : Nat} {kept : List Definition}
    (hsifts : Sifts (admits (evaluator env fuel) filter frame) (env.registry.inCategory category) mem
      kept sifted)
    (hcount : (pickCount (evaluator env fuel) count frame).runOn sifted = (.ok n, counted))
    (hsource : mem.source.Accepting) :
    ∃ value ended enough, ∀ attempts more, enough ≤ attempts → enough ≤ more →
      (pick { env with attempts } (evaluator { env with attempts } more) category count filter
        frame).runOn mem = (.ok value, ended) := by
  obtain ⟨hsifted, hids⟩ := hsifts.runOn_candidates
  have hcounted : sifted.source.Before counted.source :=
    ((Entry.pickCount count).later hcount).source
  obtain ⟨words, chosen, source, hdraw⟩ :=
    (proper_chooseMany n (kept.map (·.id))).ends (hsource.later (hsifted.trans hcounted))
  refine ⟨.ids chosen, { noted category (kept.map (·.id)) counted with source },
    max words (max env.attempts fuel), fun attempts more hattempts hmore => ?_⟩
  have hids' := hids attempts more (by omega) (by omega)
  have hcount' := (Entry.pickCount count).runOn_more hcount attempts more (by omega)
    (by omega)
  have hdrawn : (EvalM.draw (chooseMany attempts n (kept.map (·.id)))).runOn
      (noted category (kept.map (·.id)) counted) =
        (.ok chosen, { noted category (kept.map (·.id)) counted with source }) :=
    EvalM.runOn_draw_eq_ok_iff.mpr
      ⟨source, by rw [source_noted]; exact hdraw attempts (by omega), rfl⟩
  rw [runOn_pick hids' hcount', EvalM.runOn_bind_ok hdrawn]
  rfl

def petLibrary : Content.Library :=
  .ofLists (["cat", "dog", "fish"].map fun id => { Definition.new id with category := "pets" }) []

/-- A player with two cats, a fish and fewer dogs than none. -/
def petOwner : Snapshot :=
  ⟨((States.empty.insert (.new "cat" (.item 2))).insert (.new "dog" (.counter (-1)))).insert
    (.new "fish" (.item 1)), none⟩

/-- The filter `$. > 0`. -/
def isOwned : Expr := .compare .gt (.ref ⟨.self, "", .value⟩) (.literal (.int 0))

theorem weight_pos_iff (env : Env) (id : String) :
    0 < weight env id ↔ 0 < env.player.level id := by
  unfold weight
  rw [Int64.lt_iff_toInt_lt, Int64.toInt_zero]
  omega

/-- What a roll does with the place it draws. -/
def rolled (category : String) (ids : List String) : Option Nat → EvalM Value
  | some place => return .text (ids.getD place "")
  | none => do
    EvalM.record (.nothingRolled category)
    return .empty

theorem runOn_roll
    (hids : (candidates env self category filter frame).runOn mem = (.ok ids, sifted)) :
    (roll env self category filter frame).runOn mem =
      (EvalM.draw (weighted env.attempts (ids.map (weight env))) >>= rolled category ids).runOn
        sifted := by
  rw [roll, EvalM.runOn_bind_ok hids]
  rfl

theorem exists_of_runOn_roll
    (h : (roll env self category filter frame).runOn mem = (.ok value, ended)) :
    ∃ kept sifted place source,
      Sifts (admits self filter frame) (env.registry.inCategory category) mem kept sifted ∧
      weighted env.attempts ((kept.map (·.id)).map (weight env)) sifted.source =
        some (place, source) ∧
      (rolled category (kept.map (·.id)) place).runOn { sifted with source } =
        (.ok value, ended) := by
  obtain ⟨ids, sifted, hids, -⟩ := EvalM.exists_of_runOn_bind h
  obtain ⟨kept, hsifts, rfl⟩ := runOn_candidates_iff.mp hids
  rw [runOn_roll hids] at h
  obtain ⟨place, mem', hdraw, hvalue⟩ := EvalM.exists_of_runOn_bind h
  obtain ⟨source, hplace, rfl⟩ := EvalM.runOn_draw_eq_ok_iff.mp hdraw
  exact ⟨kept, sifted, place, source, hsifts, hplace, hvalue⟩

/-- A drawn place is the place of a quality with a level above zero. -/
theorem exists_of_weighted {kept : List Definition} {attempts place : Nat} {s s' : Source}
    (h : weighted attempts ((kept.map (·.id)).map (weight env)) s = some (some place, s')) :
    ∃ d ∈ kept, 0 < env.player.level d.id ∧ (kept.map (·.id)).getD place "" = d.id := by
  obtain ⟨hlt, hpos⟩ := pos_of_weighted h
  have hplace : place < kept.length := by simpa using hlt
  refine ⟨kept[place], List.getElem_mem hplace, ?_, ?_⟩
  · rw [List.getElem_map, List.getElem_map] at hpos
    exact (weight_pos_iff env _).mp hpos
  · rw [List.getD_eq_getElem _ _ (by rwa [List.length_map]), List.getElem_map]

theorem not_exists_of_weighted {kept : List Definition} {attempts : Nat} {s s' : Source}
    (h : weighted attempts ((kept.map (·.id)).map (weight env)) s = some (none, s')) :
    ¬ ∃ d ∈ kept, 0 < env.player.level d.id := by
  rintro ⟨d, hmem, hlevel⟩
  have hzero := zero_of_weighted h (weight env d.id)
    (List.mem_map_of_mem (List.mem_map_of_mem hmem))
  exact Nat.ne_of_gt ((weight_pos_iff env d.id).mpr hlevel) hzero

theorem exists_runOn_roll {fuel : Nat} {kept : List Definition}
    (hsifts : Sifts (admits (evaluator env fuel) filter frame) (env.registry.inCategory category) mem
      kept sifted) (hsource : mem.source.Accepting) :
    ∃ value ended enough, ∀ attempts more, enough ≤ attempts → enough ≤ more →
      (roll { env with attempts } (evaluator { env with attempts } more) category filter
        frame).runOn mem = (.ok value, ended) := by
  obtain ⟨hsifted, hids⟩ := hsifts.runOn_candidates
  obtain ⟨words, place, source, hdraw⟩ :=
    (proper_weighted ((kept.map (·.id)).map (weight env))).ends (hsource.later hsifted)
  obtain ⟨value, ended, hvalue⟩ : ∃ value ended,
      (rolled category (kept.map (·.id)) place).runOn { sifted with source } =
        (.ok value, ended) := by
    cases place <;> exact ⟨_, _, rfl⟩
  refine ⟨value, ended, max words (max env.attempts fuel), fun attempts more hattempts hmore => ?_⟩
  have hids' := hids attempts more (by omega) (by omega)
  have hdrawn := EvalM.runOn_draw_eq_ok_iff.mpr ⟨source, hdraw attempts (by omega), rfl⟩
  rw [runOn_roll hids']
  exact (EvalM.runOn_bind_ok hdrawn _).trans hvalue

/-- A roll never comes to a quality without a level above zero. The qualities of the category are
asked in turn whether the filter holds of them. If the player has a level above zero of one that
passes, the value is the id of such a quality and nothing is recorded; else the value is empty and it
is recorded that nothing was found. The drawn place is always the place of a candidate. On a source
whose loops end there is such a value. -/
theorem roll_by_weight (env : Env) (fuel : Nat) (category : String) (filter : Option Expr)
    (frame : Frame) (mem : Memory) :
    let roll := Expr.call (.roll category filter)
    let asked := admits (evaluator env fuel) filter frame
    (∀ value ended, ((evaluator env (fuel + 1)).expr roll frame).runOn mem = (.ok value, ended) →
      ∃ kept sifted, Sifts asked (env.registry.inCategory category) mem kept sifted ∧
        ((∃ d ∈ kept, 0 < env.player.level d.id) →
          ∃ d ∈ kept, 0 < env.player.level d.id ∧ value = .text d.id ∧
            ended.diagnostics = sifted.diagnostics) ∧
        ((¬ ∃ d ∈ kept, 0 < env.player.level d.id) →
          value = .empty ∧
            ∃ e ∈ ended.diagnostics, e.kind = .emptySelection ∧ e.snippet = category)) ∧
    (∀ (ids : List String) (attempts place : Nat) (source source' : Source),
      weighted attempts (ids.map (weight env)) source = some (some place, source') →
      place < ids.length) ∧
    ∀ kept sifted, Sifts asked (env.registry.inCategory category) mem kept sifted →
      mem.source.Accepting →
      ∃ value ended enough, ∀ attempts more, enough ≤ attempts → enough ≤ more →
        ((evaluator { env with attempts } (more + 1)).expr roll frame).runOn mem =
          (.ok value, ended) := by
  refine ⟨fun value ended hrun => ?_, fun ids attempts place source source' hplace => ?_,
    fun kept sifted hsifts hsource => exists_runOn_roll hsifts hsource⟩
  · obtain ⟨kept, sifted, place, source, hsifts, hplace, hvalue⟩ := exists_of_runOn_roll hrun
    refine ⟨kept, sifted, hsifts, ?_⟩
    cases place with
    | some place =>
      obtain ⟨d, hmem, hlevel, hid⟩ := exists_of_weighted hplace
      cases hvalue
      rw [hid]
      exact ⟨fun _ => ⟨d, hmem, hlevel, rfl, rfl⟩, fun hnone => absurd ⟨d, hmem, hlevel⟩ hnone⟩
    | none =>
      have hnone := not_exists_of_weighted hplace
      cases hvalue
      refine ⟨fun hsome => absurd hsome hnone, fun _ => ⟨rfl, ?_⟩⟩
      exact Memory.exists_same_record _ (Problem.nothingRolled category).diagnostic
  · have hlt := lt_of_weighted hplace
    rwa [List.length_map] at hlt

/-- One of the pets that the player has is rolled, never a dog. -/
theorem roll_by_weight_of_pets :
    let env := (⟨petLibrary.registry, .default, .zeros⟩ : Engine).env 8 petOwner
    let roll := Expr.call (.roll "pets" none)
    Source.zeros.Accepting ∧
    (∃ id ended,
      ((evaluator env 4).expr roll (.new 0 none)).runOn (.fresh .zeros) = (.ok (.text id), ended) ∧
      0 < env.player.level id ∧ ended.diagnostics = []) ∧
    ∃ value ended enough, ∀ attempts more, enough ≤ attempts → enough ≤ more →
      ((evaluator { env with attempts } (more + 1)).expr roll (.new 0 none)).runOn (.fresh .zeros) =
        (.ok value, ended) := by
  intro env roll
  have hroll := roll_by_weight env 3 "pets" none (.new 0 none) (.fresh .zeros)
  obtain ⟨value, ended, hrun, hclean⟩ : ∃ value ended,
      ((evaluator env 4).expr roll (.new 0 none)).runOn (.fresh .zeros) = (.ok value, ended) ∧
      ended.diagnostics = [] :=
    EvalM.exists_clean (by decide +kernel) (by decide +kernel)
  obtain ⟨kept, sifted, hsifts, hsome, hnone⟩ := hroll.1 _ _ hrun
  refine ⟨accepting_zeros, ?_, hroll.2.2 kept sifted hsifts accepting_zeros⟩
  by_cases hlevel : ∃ d ∈ kept, 0 < env.player.level d.id
  · obtain ⟨d, -, hpos, rfl, -⟩ := hsome hlevel
    exact ⟨d.id, _, hrun, hpos, hclean⟩
  · obtain ⟨-, e, he, -⟩ := hnone hlevel
    rw [hclean] at he
    cases he

end Eval

end QualityScript
