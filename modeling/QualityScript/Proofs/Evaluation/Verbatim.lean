import QualityScript.Proofs.Syntax.Prose
import QualityScript.Proofs.Syntax.Composing
import QualityScript.Proofs.Evaluation.Chances
import QualityScript.Proofs.Evaluation.Entries

/-!
# Prose in blocks

The result of a branch and an option of a choice are leaves. Prose that is one of these stands for
itself, without a diagnostic and without a draw, and the block shows it as it was written. Only a word
alone in parentheses is an expression of its own, so the block shows the word and the parentheses are
lost.
-/

namespace QualityScript

open Text Randomness Quality

/-- The text is a word in one or more pairs of parentheses. -/
def InParentheses (s : String) : Prop := ∃ n w, IsEnclosed (n + 1) w s.toList

/-! ## Leaves -/

section Leaves

variable {s : String}

theorem hasBrace_of_isProse (h : IsProse s.toList) : hasBrace s = false := by
  have hmem : '{' ∉ s.toList := fun hmem => absurd (h.chars '{' hmem) (by decide)
  simpa [hasBrace] using hmem

theorem looksLikeScript_of_isProse {text : List Char}
    (h : ∀ c ∈ text, isLetter c ∨ c ∈ proseMarks) : looksLikeScript text = false := by
  induction text with
  | nil => rfl
  | cons c rest ih =>
    obtain ⟨hc, hrest⟩ := List.forall_mem_cons.mp h
    have hall : "$#@%=<>&~;!".toList.all fun c => ¬ (isLetter c ∨ c ∈ proseMarks) := by decide
    have hmark : isScriptMark c rest.head? = false := by
      refine eq_false_of_ne_true fun hmark =>
        of_decide_eq_true (List.all_eq_true.mp hall c ?_) hc
      simp only [isScriptMark, Bool.or_eq_true, Bool.and_eq_true, beq_iff_eq,
        List.contains_iff_mem] at hmark
      rcases hmark with hmark | ⟨rfl, -⟩
      · exact List.mem_append_left ['!'] hmark
      · decide
    rw [looksLikeScript, hmark, ih hrest]
    rfl

theorem isProse_trimmed (h : IsProse s.toList) : IsProse (trimmed s).toList := by
  rw [trimmed, String.toList_ofList]
  exact h.trim

theorem ne_trimmed_of_isEnclosed {n : Nat} {w : List Char} (h : IsEnclosed (n + 1) w s.toList) :
    String.ofList w ≠ trimmed s := by
  intro heq
  have hmem : '(' ∈ trim s.toList := mem_trim_of_mem h.openParen_mem rfl
  rw [trimmed, String.ofList_inj] at heq
  rw [← heq] at hmem
  exact absurd (h.2.1 '(' hmem) (by decide)

/-- What prose is shown as: the word that is alone in parentheses, or the text without blanks at its
ends. -/
structure Shows (s shown : String) : Prop where
  verbatim_iff : shown = trimmed s ↔ ¬ InParentheses s
  word : ∀ n w, IsEnclosed n w s.toList → shown = String.ofList w

theorem shows_word (h : IsProse s.toList) {n : Nat} {w : List Char} (hw : IsEnclosed n w s.toList) :
    Shows s (String.ofList w) := by
  have hunique (m : Nat) (v : List Char) (hv : IsEnclosed m v s.toList) :
      String.ofList w = String.ofList v := by
    have hparse := (Expr.parse_of_isEnclosed h hw).symm.trans (Expr.parse_of_isEnclosed h hv)
    exact Expr.word.inj (Except.ok.inj hparse)
  refine ⟨⟨?_, fun hnone => ?_⟩, hunique⟩
  · rintro heq ⟨m, v, hv⟩
    exact ne_trimmed_of_isEnclosed hv ((hunique _ v hv).symm.trans heq)
  · cases n with
    | zero => rw [trimmed, trim_of_isEnclosed_zero hw]
    | succ n => exact absurd ⟨n, w, hw⟩ hnone

theorem shows_trimmed (h : ∀ n w, ¬ IsEnclosed n w s.toList) : Shows s (trimmed s) :=
  ⟨iff_of_true rfl fun ⟨_, w, hw⟩ => h _ w hw, fun n w hw => absurd hw (h n w)⟩

theorem Shows.hasBrace {shown : String} (h : Shows s shown) (hs : IsProse s.toList) :
    hasBrace shown = false := by
  by_cases hparens : InParentheses s
  · obtain ⟨n, w, hw⟩ := hparens
    have hmem : '{' ∉ w := fun hmem => absurd (hw.2.1 '{' hmem) (by decide)
    simpa [h.word _ w hw, QualityScript.hasBrace] using hmem
  · rw [h.verbatim_iff.mpr hparens]
    exact hasBrace_of_isProse (isProse_trimmed hs)

namespace Eval

theorem leaf_of_trimmed (hs : hasBrace (trimmed s) = false) (env : Env) (self : Evaluator)
    (frame : Frame) : leaf env self s frame = expression self (trimmed s) frame := by
  simp only [leaf, nestedBlock?_of_hasBrace hs, expandNested, hs, Bool.false_eq_true, if_false,
    pure_bind]

theorem leaf_of_isEnclosed (h : IsProse s.toList) {n : Nat} {w : List Char}
    (hw : IsEnclosed n w s.toList) (env : Env) (fuel : Nat) {frame : Frame}
    (htarget : frame.target = none) :
    (evaluator env (fuel + 2)).leaf s frame = pure ⟨.text (String.ofList w), false⟩ := by
  have htrimmed := isProse_trimmed h
  have hparse : Expr.parse (trimmed s) = .ok (.word (String.ofList w)) :=
    Expr.parse_of_isEnclosed htrimmed (by rwa [trimmed, String.toList_ofList, isEnclosed_trim_iff h])
  have hprose : (Expr.word (String.ofList w)).readsAsProse = false := rfl
  rw [evaluator_leaf, leaf_of_trimmed (hasBrace_of_isProse htrimmed)]
  simp only [expression, hparse, hprose, evaluator_expr, expr, word, htarget, isSettled]
  rfl

theorem leaf_of_not_isEnclosed (h : IsProse s.toList) (hw : ∀ n w, ¬ IsEnclosed n w s.toList)
    (env : Env) (fuel : Nat) (frame : Frame) :
    (evaluator env (fuel + 1)).leaf s frame = pure (.ofValue (.text (trimmed s))) := by
  have htrimmed := isProse_trimmed h
  rw [evaluator_leaf, leaf_of_trimmed (hasBrace_of_isProse htrimmed), expression]
  cases hparse : Expr.parse (trimmed s) with
  | error error =>
    simp only [looksLikeScript_of_isProse htrimmed.chars]
    rfl
  | ok e =>
    obtain hprose | ⟨n, w, rfl, henclosed⟩ := Expr.prose_of_parse htrimmed hparse
    · simp only [hprose, if_true]
    · rw [trimmed, String.toList_ofList, isEnclosed_trim_iff h] at henclosed
      exact absurd henclosed (hw n _)

/-- Prose has what it is shown as for its value, whatever else is evaluated. -/
theorem exists_leaf_of_isProse (h : IsProse s.toList) :
    ∃ shown, Shows s shown ∧ ∀ (env : Env) (fuel : Nat) (frame : Frame), frame.target = none →
      ∃ settled, (evaluator env (fuel + 2)).leaf s frame = pure ⟨.text shown, settled⟩ := by
  by_cases henclosed : ∃ n w, IsEnclosed n w s.toList
  · obtain ⟨n, w, hw⟩ := henclosed
    exact ⟨_, shows_word h hw, fun env fuel frame htarget =>
      ⟨false, leaf_of_isEnclosed h hw env fuel htarget⟩⟩
  · have hnone : ∀ n w, ¬ IsEnclosed n w s.toList := fun n w hw => henclosed ⟨n, w, hw⟩
    exact ⟨_, shows_trimmed hnone, fun env fuel frame _ =>
      ⟨true, leaf_of_not_isEnclosed h hnone env (fuel + 1) frame⟩⟩

end Eval

end Leaves

/-! ## Blocks -/

theorem trimmed_partText (part : List Char) : trimmed (partText part) = partText part := by
  rw [trimmed, partText, String.toList_ofList, trim_trim]

/-- The parts of a block have no blanks at their ends. -/
theorem Block.trimmed_of_classify {input : String} :
    match classify input with
    | .conditional branches => ∀ b ∈ branches, trimmed b.result = b.result
    | .choice options => ∀ option ∈ options, trimmed option = option
    | _ => True := by
  have hresult (part : List Char) :
      trimmed (Branch.ofPart part).result = (Branch.ofPart part).result := by
    unfold Branch.ofPart
    split <;> exact trimmed_partText _
  unfold classify
  dsimp only
  generalize trim input.toList = text
  by_cases hempty : text.isEmpty
  · simp [hempty]
  · simp only [hempty, Bool.false_eq_true, if_false]
    unfold ofChars
    cases splitAssignment? text with
    | some => trivial
    | none =>
      by_cases hcond : (splitTopLevel '|' text).any fun part => !(topLevelOffsets ':' part).isEmpty
      · simp only [hcond, if_true]
        intro b hb
        obtain ⟨part, -, rfl⟩ := List.mem_map.mp hb
        exact hresult part
      · by_cases hmany : (splitTopLevel '|' text).length > 1
        · simp only [hcond, hmany, if_true]
          intro option ho
          obtain ⟨part, -, rfl⟩ := List.mem_map.mp ho
          exact trimmed_partText part
        · simp [hcond, hmany]

namespace Eval

variable {env : Env} {self : Evaluator} {frame : Frame} {mem mem' mem'' : Memory} {s : String}

/-- Of the branches of a chain one with this result gives the value: the conditions before it are
evaluated and fail, and its own, if it has one, holds. -/
inductive Reaches (self : Evaluator) (frame : Frame) :
    List Branch → Memory → String → Memory → Prop where
  | otherwise {rest mem s} : Reaches self frame (⟨none, s⟩ :: rest) mem s mem
  | holds {condition o rest mem mem' s} : (self.leaf condition frame).runOn mem = (.ok o, mem') →
      o.value.isTruthy → Reaches self frame (⟨some condition, s⟩ :: rest) mem s mem'
  | fails {condition o result rest mem mem' mem'' s} :
      (self.leaf condition frame).runOn mem = (.ok o, mem') → o.value.isTruthy = false →
      Reaches self frame rest mem' s mem'' →
      Reaches self frame (⟨some condition, result⟩ :: rest) mem s mem''

/-- A block comes to a text: as the result of a branch, or as the option that is drawn. -/
inductive Picks (env : Env) (self : Evaluator) (frame : Frame) (content : String) (mem : Memory)
    (s : String) (mem' : Memory) : Prop where
  | branch {branches} : Block.classify content = .conditional branches →
      Reaches self frame branches mem s mem' → Picks env self frame content mem s mem'
  | option {options} : Block.classify content = .choice options →
      (EvalM.draw (choose env.attempts options)).runOn mem = (.ok (some s), mem') →
      Picks env self frame content mem s mem'

theorem Reaches.runOn_chain {branches : List Branch} (h : Reaches self frame branches mem s mem') :
    (chain self frame branches).runOn mem = (self.leaf s frame).runOn mem' := by
  induction h with
  | otherwise => rfl
  | holds hleaf htruthy =>
    rw [chain, EvalM.runOn_bind_ok hleaf, htruthy, if_pos rfl]
  | fails hleaf hfalsy _ ih =>
    rw [chain, EvalM.runOn_bind_ok hleaf, hfalsy, if_neg Bool.false_ne_true, ih]

theorem Reaches.exists_mem {branches : List Branch} (h : Reaches self frame branches mem s mem') :
    ∃ branch ∈ branches, branch.result = s := by
  induction h with
  | otherwise => exact ⟨_, .head _, rfl⟩
  | holds => exact ⟨_, .head _, rfl⟩
  | fails _ _ _ ih =>
    obtain ⟨branch, hmem, hresult⟩ := ih
    exact ⟨branch, .tail _ hmem, hresult⟩

namespace Picks

variable {content : String}

theorem runOn_content (h : Picks env self frame content mem s mem') (mode : Mode) :
    (Eval.content env self mode content frame).runOn mem = (self.leaf s frame).runOn mem' := by
  cases h with
  | branch hshape hreaches =>
    simp only [Eval.content, hshape]
    exact hreaches.runOn_chain
  | option hshape hdraw =>
    simp only [Eval.content, hshape]
    rw [EvalM.runOn_bind_ok hdraw]

theorem trimmed_eq (h : Picks env self frame content mem s mem') : trimmed s = s := by
  have hparts := @Block.trimmed_of_classify content
  cases h with
  | branch hshape hreaches =>
    simp only [hshape] at hparts
    obtain ⟨branch, hmem, rfl⟩ := hreaches.exists_mem
    exact hparts branch hmem
  | option hshape hdraw =>
    simp only [hshape] at hparts
    rw [EvalM.runOn_draw] at hdraw
    split at hdraw
    · cases hdraw
    · next drawn =>
      cases hdraw
      exact hparts s (mem_of_choose drawn)

theorem runOn_blockText {shown : String} {settled : Bool} (h : Picks env self frame content mem s mem')
    (hleaf : self.leaf s frame = pure ⟨.text shown, settled⟩) (hshown : hasBrace shown = false)
    {outer : Evaluator} (houter : outer.content = Eval.content env self) :
    (blockText env outer content frame).runOn mem = (.ok shown, mem') := by
  have hrun : (outer.content .inText content frame).runOn mem =
      (.ok ⟨.text shown, settled⟩, mem') := by
    rw [houter, h.runOn_content, hleaf]
    rfl
  have hplain : (settled || !hasBrace shown) = true := by rw [hshown, Bool.not_false, Bool.or_true]
  rw [blockText, EvalM.runOn_bind_ok hrun]
  simp only [Value.display, hplain, if_true]
  rfl

end Picks

theorem segments_append (env : Env) (self : Evaluator) (frame : Frame) (front back : Template) :
    segments env self frame (front ++ back) = (do
      let before ← segments env self frame front
      let after ← segments env self frame back
      return before ++ after) := by
  induction front with
  | nil => simp only [List.nil_append, segments, pure_bind, String.empty_append, bind_pure]
  | cons part front ih =>
    cases part <;>
      simp only [List.cons_append, segments, ih, bind_assoc, pure_bind, String.append_assoc]

theorem expand_of_parse {template content : String} {front back : Template}
    (h : Template.parse template = .ok (front ++ .block content :: back)) (env : Env)
    (self : Evaluator) (frame : Frame) :
    expand env self false template frame =
      segments env self frame (front ++ .block content :: back) := by
  have hbrace : hasBrace template = true := by
    refine eq_true_of_ne_false fun hnone => ?_
    have hmem : Segment.block content ∈ literalPart template.toList.reverse := by
      rw [← Template.eq_of_parse hnone h]
      exact List.mem_append_right _ (.head _)
    unfold literalPart at hmem
    split at hmem
    · cases hmem
    · cases List.mem_singleton.mp hmem
  have hscan : scan false template = (front ++ .block content :: back, []) := by
    unfold Template.parse at h
    split at h
    · cases h
    · next hscan =>
      cases h
      exact hscan
  simp only [expand, hbrace, if_true, hscan]

end Eval

namespace Engine

/-- Prose stands for itself unless it is a word alone in parentheses, which stands for the word. As a
leaf it has that text for its value, without a diagnostic and without a draw; where a block of a
template comes to it, as the result of a branch or as an option, it has no blanks at its ends and that
text is in the place of the block. -/
theorem prose_shown {s : String} (h : IsProse s.toList) :
    ∃ shown, Shows s shown ∧
      (∀ (env : Env) (fuel : Nat) (frame : Frame), frame.target = none →
        ∃ settled, (evaluator env (fuel + 2)).leaf s frame = pure ⟨.text shown, settled⟩) ∧
      ∀ (engine : Engine) (fuel : Nat) (template : String) (states : Snapshot)
        (options : CallOptions) (front back : Template) (content before after : String)
        (mem mem' ended : Memory),
        let env := engine.env (fuel + 4) states
        let frame := Frame.new options.depth options.self
        Template.parse template = .ok (front ++ .block content :: back) →
        (Eval.segments env (evaluator env (fuel + 3)) frame front).runOn
          (.fresh (options.source.getD engine.fallbackSource)) = (.ok before, mem) →
        Eval.Picks env (evaluator env (fuel + 2)) frame content mem s mem' →
        (Eval.segments env (evaluator env (fuel + 3)) frame back).runOn mem' = (.ok after, ended) →
        trimmed s = s ∧ engine.evaluateText (fuel + 4) template states options =
          ⟨.ok (before ++ shown ++ after), ended⟩ := by
  obtain ⟨shown, hshows, hleaf⟩ := Eval.exists_leaf_of_isProse h
  refine ⟨shown, hshows, hleaf, ?_⟩
  intro engine fuel template states options front back content before after mem mem' ended env frame
    hparse hfront hpicks hback
  obtain ⟨settled, hvalue⟩ := hleaf env fuel frame rfl
  have hblock : (Eval.blockText env (evaluator env (fuel + 3)) content frame).runOn mem =
      (.ok shown, mem') :=
    hpicks.runOn_blockText hvalue (hshows.hasBrace h) (evaluator_content env (fuel + 2))
  have hrest : (Eval.segments env (evaluator env (fuel + 3)) frame (.block content :: back)).runOn mem =
      (.ok (shown ++ after), ended) := by
    rw [Eval.segments, EvalM.runOn_bind_ok hblock, EvalM.runOn_bind_ok hback, EvalM.runOn_pure]
  have hall : (Eval.expand env (evaluator env (fuel + 3)) false template frame).runOn
      (.fresh (options.source.getD engine.fallbackSource)) =
        (.ok (before ++ shown ++ after), ended) := by
    rw [Eval.expand_of_parse hparse, Eval.segments_append, EvalM.runOn_bind_ok hfront,
      EvalM.runOn_bind_ok hrest, EvalM.runOn_pure, String.append_assoc]
  refine ⟨hpicks.trimmed_eq, ?_⟩
  rw [evaluateText, run_eq]
  dsimp only
  rw [evaluator_expand, hall]

/-- A player with five pieces of gold. -/
def wealthy : Snapshot := ⟨States.empty.insert (.new "gold" (.item 5)), none⟩

/-- A word alone in parentheses loses them. -/
theorem parentheses_lost :
    let engine : Engine := ⟨Content.Library.empty.registry, .default, .zeros⟩
    IsProse "(quietly)".toList ∧
    (((evaluator (engine.env 8 wealthy) 2).leaf "(quietly)" (.new 0 none)).runOn
      (.fresh engine.fallbackSource)).1.toOption.map (·.value.display) = some "quietly" ∧
    (engine.evaluateText 8 "You nod {$gold > 1 : (quietly) | x}." wealthy .none).result.toOption =
      some "You nod quietly." := by
  decide +kernel

/-- Two words joined by a dash are shown as they are. -/
theorem prose_shown_of_dash :
    let engine : Engine := ⟨Content.Library.empty.registry, .default, .zeros⟩
    IsProse "well-dressed".toList ∧ ¬ InParentheses "well-dressed" ∧
    (engine.evaluateText 8 "You look {$gold > 1 : well-dressed | shabby}." wealthy .none).result =
      .ok "You look well-dressed." := by
  intro engine
  have hprose : IsProse "well-dressed".toList := by decide
  have hplain : ¬ InParentheses "well-dressed" := by
    rintro ⟨n, w, hw⟩
    exact absurd hw.openParen_mem (by decide)
  obtain ⟨shown, hshows, -, htext⟩ := prose_shown hprose
  have hshown : shown = "well-dressed" := (hshows.verbatim_iff.mpr hplain).trans (by decide)
  have hparse : Template.parse "You look \x7b$gold > 1 : well-dressed | shabby\x7d." =
      .ok ([.literal "You look "] ++ .block "$gold > 1 : well-dressed | shabby" :: [.literal "."]) :=
    eq_ok_of_toOption (by decide +kernel)
  have hshape : Block.classify "$gold > 1 : well-dressed | shabby" =
      .conditional [⟨some "$gold > 1", "well-dressed"⟩, ⟨none, "shabby"⟩] := by
    decide +kernel
  obtain ⟨o, mem, hleaf, htruthy⟩ : ∃ o mem, ((evaluator (engine.env 8 wealthy) 6).leaf "$gold > 1"
      (.new 0 none)).runOn (.fresh engine.fallbackSource) = (.ok o, mem) ∧ o.value.isTruthy := by
    have htrue : (((evaluator (engine.env 8 wealthy) 6).leaf "$gold > 1"
        (.new 0 none)).runOn (.fresh engine.fallbackSource)).1.toOption.map (·.value.isTruthy) =
          some true := by
      decide +kernel
    obtain ⟨o, ho, htruthy⟩ := Option.map_eq_some_iff.mp htrue
    exact ⟨o, _, Prod.ext (eq_ok_of_toOption ho) rfl, htruthy⟩
  obtain ⟨-, hresult⟩ := htext engine 4 _ wealthy .none _ _ _ _ _ _ _ _ hparse rfl
    (.branch hshape (.holds hleaf htruthy)) rfl
  rw [hresult, hshown]
  exact ⟨hprose, hplain, rfl⟩

end Engine

end QualityScript
