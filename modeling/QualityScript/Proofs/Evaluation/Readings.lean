import Mathlib
import QualityScript.Proofs.Syntax.Forcing
import QualityScript.Proofs.Evaluation.Fuel
import QualityScript.Proofs.Evaluation.Chances
import QualityScript.Proofs.Effects.Options
import QualityScript.Lint

/-!
# Readings of a challenge

The chance of a challenge can be asked for by its text, by an option and by a block. The first reads
an expression and takes a challenge or a call for its chance. The second reads a challenge, so that
comparisons are challenges too, and takes no call. The third evaluates the text. Apart from
comparisons and calls they take the same texts, and they give the same chance.
-/

namespace QualityScript

open Text Number Quality Randomness

namespace Engine

/-- The text that a challenge is read from. -/
def challengeText (input : String) : String := trimmed (blockContent input)

/-- The text is read as a comparison or as a call for the chance of a challenge. -/
def ReadsOtherwise (input : String) : Prop :=
  (∃ op lhs rhs, Expr.parse (challengeText input) = .ok (.compare op lhs rhs)) ∨
    ∃ c, Expr.parse (challengeText input) = .ok (.call (.chance c))

/-- An option reads the text as a challenge. -/
def OptionReads (input : String) : Prop :=
  ∃ c, Expr.parseChallenge (challengeText input) = .ok c

theorem challengeOf?_eq_some_iff {input : String} {c : Challenge} :
    challengeOf? input = some c ↔
      ∃ e, Expr.parse (challengeText input) = .ok e ∧ e.challenge? = some c := by
  unfold challengeOf? challengeText
  cases Expr.parse (trimmed (blockContent input)) with
  | error e => simp
  | ok e => cases e with
    | challenge c => simp [Expr.challenge?]
    | call c => cases c <;> simp [Expr.challenge?]
    | _ => simp [Expr.challenge?]

theorem parse_of_challengeOf? {input : String} {c : Challenge} (h : challengeOf? input = some c)
    (hplain : ¬ ReadsOtherwise input) :
    Expr.parse (challengeText input) = .ok (.challenge c) := by
  obtain ⟨e, hparse, hc⟩ := challengeOf?_eq_some_iff.mp h
  unfold Expr.challenge? at hc
  split at hc
  · cases hc
    exact hparse
  · exact absurd (.inr ⟨_, hparse⟩) hplain
  · cases hc

/-- But for comparisons and calls, an option reads what is a challenge by its text. -/
theorem optionReads_iff {input : String} (hplain : ¬ ReadsOtherwise input) :
    OptionReads input ↔ (challengeOf? input).isSome := by
  constructor
  · rintro ⟨c, hc⟩
    rcases Expr.parseChallenge_eq_ok_iff.mp hc with ⟨plain, hparse, -⟩ | ⟨op, lhs, rhs, hparse, -⟩
    · exact Option.isSome_of_eq_some (challengeOf?_eq_some_iff.mpr ⟨_, hparse, rfl⟩)
    · exact absurd (.inl ⟨op, lhs, rhs, hparse⟩) hplain
  · intro hsome
    obtain ⟨c, hc⟩ := Option.isSome_iff_exists.mp hsome
    exact ⟨c.forced,
      Expr.parseChallenge_eq_ok_iff.mpr (.inl ⟨c, parse_of_challengeOf? hc hplain, rfl⟩)⟩

/-! ## By its text -/

theorem skillCheckChance_of_none {input : String} (h : challengeOf? input = none) (engine : Engine)
    (fuel : Nat) (states : Snapshot) (options : CallOptions) :
    (engine.skillCheckChance fuel input states options).result = .ok none := by
  rw [skillCheckChance, run_eq]
  simp only [h]
  rfl

theorem skillCheckChance_of_some {input : String} {c : Challenge} (h : challengeOf? input = some c)
    (engine : Engine) (fuel : Nat) (states : Snapshot) (options : CallOptions) :
    engine.skillCheckChance fuel input states options =
      engine.run fuel states options fun env self frame =>
        return some (roundFloat (← Eval.challengePercent env self c frame)) := by
  simp only [skillCheckChance, h]

theorem challengeOf?_of_skillCheckChance {input : String} {engine : Engine} {fuel : Nat}
    {states : Snapshot} {options : CallOptions}
    (h : (engine.skillCheckChance fuel input states options).result = .ok none) :
    challengeOf? input = none := by
  cases hc : challengeOf? input with
  | none => rfl
  | some c =>
    rw [skillCheckChance_of_some hc, run_eq] at h
    obtain ⟨percent, mem, -, hdone⟩ := EvalM.exists_of_runOn_bind (Prod.ext h rfl)
    cases hdone

/-! ## By an option -/

theorem optionChance_of_forced {input : String} {c : Challenge}
    (h : Expr.parse (challengeText input) = .ok (.challenge c)) (hforced : c.forced = c)
    (env : Env) (self : Evaluator) (frame : Frame) :
    optionChance env self input frame = Eval.challengePercent env self c frame := by
  have hread : Expr.parseChallenge (challengeText input) = .ok c :=
    Expr.parseChallenge_eq_ok_iff.mpr (.inl ⟨c, h, hforced.symm⟩)
  unfold challengeText at hread
  simp only [optionChance, hread]

theorem exists_percent_of_chooseOption {env : Env} {self : Evaluator} {frame : Frame}
    {o : Content.EventOption} {input : String} {outcome : OptionOutcome} {mem ended : Memory}
    (ho : o.challenge = some input)
    (h : (chooseOption env self o frame).runOn mem = (.ok outcome, ended)) :
    ∃ percent mem', (optionChance env self input frame).runOn mem = (.ok percent, mem') ∧
      outcome.chance = some (roundFloat percent) := by
  obtain ⟨chance, rolled, values, hroll, -, -, -, hchance⟩ := exists_values_of_chooseOption h
  rw [ho] at hroll
  obtain ⟨percent, mem', hpercent, hdrawn⟩ := EvalM.exists_of_runOn_bind hroll
  obtain ⟨drawn, mem'', -, hdone⟩ := EvalM.exists_of_runOn_bind hdrawn
  simp only [EvalM.runOn_pure, Prod.mk.injEq, Except.ok.injEq] at hdone
  obtain ⟨⟨rfl, -⟩, -⟩ := hdone
  exact ⟨percent, mem', hpercent, hchance⟩

theorem roundFloat_zero : roundFloat 0 = 0 := by decide +kernel

/-- What a text that an option does not read as a challenge leaves: no chance to pass, and a
diagnostic about the text. -/
theorem degrades_of_not_optionReads {env : Env} {fuel : Nat} {frame : Frame}
    {o : Content.EventOption} {input : String} {outcome : OptionOutcome} {mem ended : Memory}
    (ho : o.challenge = some input) (hreads : ¬ OptionReads input)
    (h : (chooseOption env (evaluator env fuel) o frame).runOn mem = (.ok outcome, ended)) :
    outcome.chance = some 0 ∧
      ∃ d ∈ ended.diagnostics, d.kind = .parseDegrade ∧ d.snippet = input := by
  cases hparse : Expr.parseChallenge (challengeText input) with
  | ok c => exact absurd ⟨c, hparse⟩ hreads
  | error error =>
    have hchance : (optionChance env (evaluator env fuel) input frame).runOn mem =
        (.ok 0, mem.record (Problem.noExpression error input).diagnostic) := by
      unfold challengeText at hparse
      simp only [optionChance, hparse]
      rfl
    obtain ⟨percent, mem', hpercent, houtcome⟩ := exists_percent_of_chooseOption ho h
    cases hchance.symm.trans hpercent
    rw [roundFloat_zero] at houtcome
    refine ⟨houtcome, ?_⟩
    obtain ⟨⟨chance, passed⟩, rolled, hroll, hrest⟩ := EvalM.exists_of_runOn_bind h
    rw [ho] at hroll
    obtain ⟨percent, mem', hpercent, hdrawn⟩ := EvalM.exists_of_runOn_bind hroll
    cases hchance.symm.trans hpercent
    obtain ⟨drawn, mem'', hdraw, hdone⟩ := EvalM.exists_of_runOn_bind hdrawn
    cases hdone
    have hat (mem : Memory) : (Kept.nothing env).At mem mem frame :=
      Kept.at_nothing _ _
    have hrolled : (mem.record (Problem.noExpression error input).diagnostic).Later rolled :=
      (((hat _).draw proper_percent : env.bounds.logic.Gives (.nothing env) _ _ _) hdraw).1
    obtain ⟨_, ended', hscripts, hdone⟩ := EvalM.exists_of_runOn_bind hrest
    cases hdone
    have hended : rolled.Later ended :=
      (gives_runScripts (fun t => env.answers (.nothing env) fuel t rolled) (hat rolled) _
        hscripts).1
    obtain ⟨d, hd, hkind, hsnippet⟩ :=
      mem.exists_same_record (Problem.noExpression error input).diagnostic
    exact ⟨d, (hrolled.diagnostics.trans hended.diagnostics).subset hd, hkind, hsnippet⟩

/-! ## By a block -/

/-- A block of the text is evaluated as a challenge that is not rolled. -/
structure IsChallengeBlock (input : String) (c : Challenge) : Prop where
  block : Template.blockContent? ("\x7b" ++ input ++ "\x7d") = some input
  leaf : Block.classify input = .leaf (trimmed input)
  parsed : Expr.parse (trimmed input) = .ok (.challenge c)
  unrolled : c.roll = false

theorem challengeText_of_hasBrace {input : String} (h : hasBrace input = false) :
    challengeText input = trimmed input := by
  rw [challengeText, blockContent, Template.blockContent?_of_hasBrace h, Option.getD_none]

theorem hasBrace_trimmed {input : String} (h : hasBrace input = false) :
    hasBrace (trimmed input) = false := by
  have hmem : '{' ∉ trim input.toList := fun hmem => not_mem_of_hasBrace h (mem_of_mem_trim hmem)
  simpa [hasBrace, trimmed] using hmem

theorem content_of_isChallengeBlock {input : String} {c : Challenge}
    (hblock : IsChallengeBlock input c) (h : hasBrace input = false) (env : Env) (fuel : Nat)
    (frame : Frame) :
    (evaluator env (fuel + 3)).content .standalone input frame = (do
      let percent ← Eval.challengePercent env (evaluator env fuel) c frame
      return ⟨.int (roundWord percent), false⟩) := by
  have hprose : (Expr.challenge c).readsAsProse = false := rfl
  simp only [evaluator_content, Eval.content, hblock.leaf, evaluator_leaf,
    Eval.leaf_of_hasBrace (hasBrace_trimmed h) (trimmed_trimmed input), Eval.expression,
    hblock.parsed, hprose, evaluator_expr, Eval.expr, Eval.challenge, hblock.unrolled,
    Bool.false_eq_true, if_false, bind_assoc, pure_bind]
  rfl

theorem skillCheckChance_of_evaluateBlock {input : String} {c : Challenge} {value : Value}
    {engine : Engine} {fuel : Nat} {states : Snapshot} {options : CallOptions}
    (hblock : IsChallengeBlock input c) (hbrace : hasBrace input = false)
    (h : (engine.evaluateBlock fuel ("\x7b" ++ input ++ "\x7d") states options).result =
      .ok value) :
    ∃ percent, (engine.skillCheckChance fuel input states options).result =
        .ok (some (roundFloat percent)) ∧ value = .int (roundWord percent) := by
  have hinput : challengeOf? input = some c :=
    challengeOf?_eq_some_iff.mpr ⟨.challenge c, by
      rw [challengeText_of_hasBrace hbrace]
      exact hblock.parsed, rfl⟩
  obtain ⟨mem, hrun⟩ := (Entry.block ("\x7b" ++ input ++ "\x7d")).exists_runOn_of_run h 3
  simp only [hblock.block, content_of_isChallengeBlock hblock hbrace, bind_assoc, pure_bind] at hrun
  obtain ⟨percent, mem', hpercent, hdone⟩ := EvalM.exists_of_runOn_bind hrun
  cases hdone
  refine ⟨percent, ?_, rfl⟩
  rw [skillCheckChance_of_some hinput, run_eq]
  exact congrArg Prod.fst (EvalM.runOn_bind_ok hpercent _)

end Engine

/-! ## The linter -/

namespace Lint

open Engine

theorem notAChallenge_mem_faults_iff {source : String} {fits : Bool}
    {diagnostics : List Diagnostic} :
    .notAChallenge ∈ faults source fits diagnostics ↔ fits = false := by
  have hbraces : .notAChallenge ∉ braceFaults source := by
    unfold braceFaults
    split <;> simp
  cases fits <;> simp [faults, hbraces]

/-- A script fits its use unless it is for a challenge and its text is none. -/
theorem fits_of_evaluate {script : Script} {engine : Engine} {fuel : Nat} {states : Snapshot}
    {source : Source} {fits : Bool}
    (h : (script.evaluate engine fuel states source).result = .ok fits) :
    fits = false ↔ script.use = .challenge ∧ challengeOf? script.source = none := by
  cases huse : script.use with
  | challenge =>
    simp only [Script.evaluate, huse, Evaluation.map] at h
    obtain ⟨chance, hchance, rfl⟩ := exists_of_map_eq_ok h
    constructor
    · intro hnone
      rw [Option.isSome_eq_false_iff, Option.isNone_iff_eq_none] at hnone
      subst hnone
      exact ⟨rfl, challengeOf?_of_skillCheckChance hchance⟩
    · rintro ⟨-, hnone⟩
      cases (skillCheckChance_of_none hnone engine fuel states _).symm.trans hchance
      rfl
  | text | condition | effect =>
    simp only [Script.evaluate, huse, Evaluation.map] at h
    obtain ⟨_, -, rfl⟩ := exists_of_map_eq_ok h
    simp

/-- The scripts that are reported as no challenges. -/
theorem notAChallenge_mem_iff {engine : Engine} {fuel : Nat} {source : Source}
    {scripts : List Script} {findings : List Finding}
    (h : tryAll engine fuel source scripts = .ok findings) (script : Script) :
    ⟨script, .notAChallenge⟩ ∈ findings ↔
      script ∈ scripts ∧ script.use = .challenge ∧ challengeOf? script.source = none := by
  induction scripts generalizing source findings with
  | nil =>
    cases h
    simp
  | cons first rest ih =>
    simp only [tryAll] at h
    split at h
    · cases h
    · next fits hfits =>
      obtain ⟨later, hlater, rfl⟩ := exists_of_map_eq_ok h
      have hfirst := fits_of_evaluate hfits
      simp only [List.mem_append, List.mem_map, Finding.mk.injEq, List.mem_cons, ih hlater]
      constructor
      · rintro (⟨fault, hfault, rfl, rfl⟩ | ⟨hmem, hscript⟩)
        · exact ⟨.inl rfl, hfirst.mp (notAChallenge_mem_faults_iff.mp hfault)⟩
        · exact ⟨.inr hmem, hscript⟩
      · rintro ⟨rfl | hmem, hscript⟩
        · exact .inl ⟨_, notAChallenge_mem_faults_iff.mpr (hfirst.mpr hscript), rfl, rfl⟩
        · exact .inr ⟨hmem, hscript⟩

/-- The script that an option has its challenge from. -/
def challengeScript (event option input : String) : Script :=
  ⟨.option event option, "challenge", input, .challenge⟩

theorem challengeScript_mem_scripts {library : Content.Library} {event : Content.Event}
    {o : Content.EventOption} {input : String} (hevent : event ∈ library.events)
    (ho : o ∈ event.options) (hinput : o.challenge = some input) :
    challengeScript event.id o.id input ∈ scripts library := by
  have hoption : challengeScript event.id o.id input ∈ ofOption event.id o := by
    simp [ofOption, challengeScript, hinput]
  have hplace : challengeScript event.id o.id input ∈ ofEvent event :=
    List.mem_append_right _ (List.mem_flatMap.mpr ⟨o, ho, hoption⟩)
  exact List.mem_append_right _ (List.mem_flatMap.mpr ⟨event, hevent, hplace⟩)

end Lint

/-! ## Agreement -/

namespace Engine

/-- An option that has nothing but a challenge. -/
def pricedOption (challenge : String) : Content.EventOption :=
  { id := "sell", name := "", description := "", requirements := [], challenge := some challenge
    successEffects := [], failureEffects := [] }

/-- One event with one option, to sell at a challenge. -/
def pricedLibrary (challenge : String) : Content.Library :=
  Content.Library.ofLists [] [⟨"deal", .storylet, "", "", [], [pricedOption challenge]⟩]

end Engine

end QualityScript
