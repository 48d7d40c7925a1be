import QualityScript.Proofs.Evaluation.LoneReferences
import QualityScript.Proofs.Evaluation.Sifting

/-!
# Names of qualities

A name is shown in three ways: by the property `$id.name`, by showing the quality and as an entry of
a `%list`. Without a name the last two show the id, while the property is the empty text that the
definition has. The plural is made of the name in each way, so it differs where the name does and no
plural is given.
-/

namespace QualityScript

open Text Quality Content

/-- The template that is one reference to a property of a quality of the player. -/
def propertyTemplate (id : String) (property : Property) : String :=
  "\x7b" ++ (⟨.player, id, property⟩ : Reference).display ++ "\x7d"

example : propertyTemplate "hat" .name = "\x7b$hat.name\x7d" := by decide

variable {id text : String} {property : Property}

theorem isProperty_name : Reference.IsProperty .name :=
  @Reference.IsProperty.word 'n' ['a', 'm', 'e'] rfl (List.all_eq_true.mp rfl)

theorem isProperty_plural : Reference.IsProperty .plural :=
  @Reference.IsProperty.word 'p' ['l', 'u', 'r', 'a', 'l'] rfl (List.all_eq_true.mp rfl)

theorem evaluateText_propertyTemplate (hid : IsName id) (hproperty : Reference.IsProperty property)
    {engine : Engine} {states : Snapshot} {options : CallOptions} {shown : String}
    {owner : SelfBinding} (hshown : hasBrace shown = false)
    (hresolve : ∀ env frame, env.registry = engine.registry → env.player = states.player →
      (⟨.player, id, property⟩ : Reference).resolve env frame = ⟨.template shown owner, false⟩)
    (fuel : Nat) :
    engine.evaluateText (fuel + 4) (propertyTemplate id property) states options =
      ⟨.ok shown, .fresh (options.source.getD engine.fallbackSource)⟩ := by
  have hread : Reference.IsRead ⟨.player, id, property⟩ := .named nofun hid hproperty
  have hexpand : (evaluator (engine.env (fuel + 4) states) (fuel + 4)).expand false
      (propertyTemplate id property) (.new options.depth options.self) = pure shown := by
    rw [propertyTemplate, ← Reference.template, Eval.expand_template hread, Eval.reference,
      hresolve _ _ rfl rfl]
    simp only [Evaluator.expandOwned, hshown, Bool.false_eq_true, if_false, pure_bind]
    rfl
  rw [Engine.evaluateText, Engine.run_eq]
  simp only [hexpand, EvalM.runOn_pure]

/-! ## The name in each way -/

/-- The name of a definition, or its id if it has none. -/
def Quality.Definition.shownName (d : Definition) : String :=
  if d.name.isEmpty then d.id else d.name

/-- The plural of a definition, or the name with an `s`. -/
def Quality.Definition.pluralFrom (d : Definition) (name : String) : String :=
  d.plural.getD (Reference.pluralOf name)

theorem hasBrace_pluralFrom {d : Definition} {name : String} (hname : hasBrace name = false)
    (hplural : ∀ text ∈ d.plural, hasBrace text = false) : hasBrace (d.pluralFrom name) = false := by
  unfold Definition.pluralFrom
  cases h : d.plural with
  | some text => exact hplural text h
  | none => simpa [hasBrace, Reference.pluralOf] using hname

variable {engine : Engine} {states : Snapshot} {options : CallOptions} {d : Definition}

/-- The property is the name as the definition has it, empty or not. -/
theorem evaluateText_name (hd : engine.registry.quality? d.id = some d) (hid : IsName d.id)
    (hname : hasBrace d.name = false) (fuel : Nat) :
    engine.evaluateText (fuel + 4) (propertyTemplate d.id .name) states options =
      ⟨.ok d.name, .fresh (options.source.getD engine.fallbackSource)⟩ := by
  have hresolve (env : Env) (frame : Frame) (hregistry : env.registry = engine.registry)
      (hplayer : env.player = states.player) :
      (⟨.player, d.id, .name⟩ : Reference).resolve env frame =
        ⟨.template d.name ⟨d.id, states.player.get? d.id⟩, false⟩ := by
    simp [Reference.resolve, Reference.resolveQuality, Reference.resolveProperty, hregistry,
      hplayer, hd]
  exact evaluateText_propertyTemplate hid isProperty_name hname hresolve fuel

theorem evaluateText_plural (hd : engine.registry.quality? d.id = some d) (hid : IsName d.id)
    (hname : hasBrace d.name = false) (hplural : ∀ text ∈ d.plural, hasBrace text = false)
    (fuel : Nat) :
    engine.evaluateText (fuel + 4) (propertyTemplate d.id .plural) states options =
      ⟨.ok (d.pluralFrom d.name), .fresh (options.source.getD engine.fallbackSource)⟩ := by
  have hresolve (env : Env) (frame : Frame) (hregistry : env.registry = engine.registry)
      (hplayer : env.player = states.player) :
      (⟨.player, d.id, .plural⟩ : Reference).resolve env frame =
        ⟨.template (d.pluralFrom d.name) ⟨d.id, states.player.get? d.id⟩, false⟩ := by
    simp [Reference.resolve, Reference.resolveQuality, Reference.resolveProperty, hregistry,
      hplayer, hd, Definition.pluralFrom]
  exact evaluateText_propertyTemplate hid isProperty_plural
    (hasBrace_pluralFrom hname hplural) hresolve fuel

theorem eq_of_runOn_expand {env : Env} {fuel : Nat} {quotesKept : Bool} {frame : Frame} {a : String}
    {mem mem' : Memory} (h : hasBrace text = false)
    (hrun : ((evaluator env fuel).expand quotesKept text frame).runOn mem = (.ok a, mem')) :
    a = text := by
  cases fuel with
  | zero => cases hrun
  | succ fuel =>
    simp only [evaluator_expand, Eval.expand, h, Bool.false_eq_true, if_false,
      EvalM.runOn_pure] at hrun
    cases hrun
    rfl

namespace RenderedQuality

variable {env : Env} {fuel : Nat} {holding : Holding} {frame : Frame} {r : RenderedQuality}
  {mem mem' : Memory}

def pluralText (self : Evaluator) (frame : Frame) (d : Definition) (name : String) :
    EvalM String :=
  match d.plural with
  | some plural => self.expand false plural frame
  | none => return Reference.pluralOf name

/-- After the name and up to the plural nothing else decides the two. -/
theorem eq_of_runOn_described {self : Evaluator} {name : String} {plural : EvalM String}
    (hrun : EvalM.runOn (do
      let description ← self.expand false d.description frame
      let plural ← plural
      let variants ← renderVariants self frame d.variants.entries
      let bonus ← self.expand false (bonusTemplate holding d) frame
      return ({ id, kind := holding.kind, name, description, plural, variants, bonus, holding,
                categories := d.categories, tags := d.tags, image := d.image } :
        RenderedQuality)) mem = (.ok r, mem')) :
    r.name = name ∧ ∃ mem mem', plural.runOn mem = (.ok r.plural, mem') := by
  obtain ⟨description, mem₁, -, hrun⟩ := EvalM.exists_of_runOn_bind hrun
  obtain ⟨shown, mem₂, hplural, hrun⟩ := EvalM.exists_of_runOn_bind hrun
  obtain ⟨variants, mem₃, -, hrun⟩ := EvalM.exists_of_runOn_bind hrun
  obtain ⟨bonus, mem₄, -, hrun⟩ := EvalM.exists_of_runOn_bind hrun
  cases hrun
  exact ⟨rfl, mem₁, mem₂, hplural⟩

/-- A definition is shown under its name or, without one, its id, and with the plural of that. -/
theorem eq_of_runOn_defined (hname : hasBrace d.name = false)
    (hplural : ∀ text ∈ d.plural, hasBrace text = false)
    (hrun : (defined (evaluator env fuel) d.id d holding frame).runOn mem = (.ok r, mem')) :
    r.name = d.shownName ∧ r.plural = d.pluralFrom d.shownName := by
  obtain ⟨name, mem₁, hshown, hrun⟩ : ∃ name mem₁, name = d.shownName ∧
      EvalM.runOn (do
        let description ← (evaluator env fuel).expand false d.description frame
        let plural ← pluralText (evaluator env fuel) frame d name
        let variants ← renderVariants (evaluator env fuel) frame d.variants.entries
        let bonus ← (evaluator env fuel).expand false (bonusTemplate holding d) frame
        return ({ id := d.id, kind := holding.kind, name, description, plural, variants, bonus,
                  holding, categories := d.categories, tags := d.tags, image := d.image } :
          RenderedQuality)) mem₁ = (.ok r, mem') := by
    unfold Definition.shownName
    by_cases hempty : d.name.isEmpty
    · simp only [defined, hempty, if_true] at hrun
      rw [pure_bind] at hrun
      refine ⟨d.id, mem, by rw [if_pos hempty], ?_⟩
      rw [← hrun]
      unfold pluralText
      cases d.plural <;> rfl
    · simp only [defined, hempty] at hrun
      obtain ⟨name, mem₁, hshown, hrun⟩ := EvalM.exists_of_runOn_bind hrun
      refine ⟨name, mem₁, by rw [if_neg hempty, eq_of_runOn_expand hname hshown], ?_⟩
      rw [← hrun]
      unfold pluralText
      cases d.plural <;> rfl
  obtain ⟨rfl, mem₂, mem₃, hrun⟩ := eq_of_runOn_described hrun
  refine ⟨hshown, ?_⟩
  unfold pluralText at hrun
  unfold Definition.pluralFrom
  cases hgiven : d.plural with
  | some text =>
    rw [hgiven] at hrun
    exact eq_of_runOn_expand (hplural text hgiven) hrun
  | none =>
    rw [hgiven] at hrun
    have heq : Reference.pluralOf r.name = r.plural := Except.ok.inj (congrArg Prod.fst hrun)
    rw [← heq, hshown]
    rfl

end RenderedQuality

theorem eq_of_renderQuality (hd : engine.registry.quality? d.id = some d)
    (hname : hasBrace d.name = false) (hplural : ∀ text ∈ d.plural, hasBrace text = false)
    {fuel : Nat} {r : RenderedQuality}
    (h : (engine.renderQuality fuel d.id states options).result = .ok r) :
    r.name = d.shownName ∧ r.plural = d.pluralFrom d.shownName := by
  rw [Engine.renderQuality, Engine.run_eq] at h
  simp only [hd, RenderedQuality.render] at h
  exact RenderedQuality.eq_of_runOn_defined hname hplural (Prod.ext h rfl)

/-! ## Entries of lists -/

namespace Eval

theorem forall₂_of_runOn_mapM {α β : Type} {f : α → EvalM β} {R : α → β → Prop}
    (hf : ∀ a b mem mem', (f a).runOn mem = (.ok b, mem') → R a b) {list : List α} {results : List β}
    {mem mem' : Memory} (hrun : (list.mapM f).runOn mem = (.ok results, mem')) :
    List.Forall₂ R list results := by
  induction list generalizing results mem with
  | nil =>
    cases hrun
    exact .nil
  | cons a rest ih =>
    rw [List.mapM_cons] at hrun
    obtain ⟨b, mem₁, hb, hrun⟩ := EvalM.exists_of_runOn_bind hrun
    obtain ⟨rest', mem₂, hrest, hrun⟩ := EvalM.exists_of_runOn_bind hrun
    cases hrun
    exact .cons (hf a b _ _ hb) (ih hrest)

/-- A list has an entry for each quality that it lets through, all of them without a filter. The entry
of a definition is its name, or its id if it has none. -/
theorem exists_of_runOn_list {env : Env} (hd : env.registry.quality? d.id = some d)
    (hname : hasBrace d.name = false) {fuel : Nat} {category : String} {separator : Separator}
    {filter : Option Expr} {frame : Frame} {value : Value} {mem mem' : Memory}
    (hrun : ((evaluator env fuel).expr (.call (.list category separator filter)) frame).runOn mem =
      (.ok value, mem')) :
    ∃ ids entries, value = .text (separator.join entries) ∧
      ids.Sublist ((env.registry.inCategory category).map (·.id)) ∧
      (filter = none → ids = (env.registry.inCategory category).map (·.id)) ∧
      List.Forall₂ (fun id entry => id = d.id → entry = d.shownName) ids entries := by
  cases fuel with
  | zero => cases hrun
  | succ fuel =>
    rw [evaluator_expr] at hrun
    obtain ⟨ids, mem₁, hids, hrun⟩ := EvalM.exists_of_runOn_bind hrun
    obtain ⟨entries, mem₂, hentries, hrun⟩ := EvalM.exists_of_runOn_bind hrun
    cases hrun
    refine ⟨ids, entries, rfl, sublist_of_runOn_candidates hids, ?_,
      forall₂_of_runOn_mapM (fun id entry mem mem' hrun => ?_) hentries⟩
    · rintro rfl
      cases hids
      rfl
    · rintro rfl
      simp only [displayName, hd] at hrun
      unfold Definition.shownName
      split at hrun
      · next hempty =>
        cases hrun
        rw [if_pos hempty]
      · next hgiven =>
        simp only [Evaluator.expandOwned, hname, Bool.false_eq_true, if_false] at hrun
        cases hrun
        rw [if_neg hgiven]

end Eval

/-! ## The three together -/

theorem Quality.Definition.shownName_eq_name_iff (hid : IsName d.id) :
    d.name = d.shownName ↔ d.name ≠ "" := by
  have hne : d.id ≠ "" := fun heq => hid.ne_empty (by rw [heq]; rfl)
  unfold shownName
  split
  · next hempty =>
    have hname : d.name = "" := by simpa using hempty
    simpa [hname] using hne.symm
  · next hgiven => simpa using hgiven

theorem Quality.Definition.pluralFrom_shownName_iff (hid : IsName d.id) :
    d.pluralFrom d.name = d.pluralFrom d.shownName ↔ d.name ≠ "" ∨ d.plural.isSome := by
  unfold pluralFrom
  cases d.plural with
  | some text => simp
  | none =>
    rw [← shownName_eq_name_iff hid]
    simp [Reference.pluralOf]

namespace Engine

/-- Showing a quality and listing it agree on the name of a definition, its id if it has none, and the
property `$id.name` agrees with them exactly if there is a name. The plural that is shown and the
property `$id.plural` agree exactly if there is a name or a plural. -/
theorem name_property_agrees_iff {engine : Engine} {d : Definition}
    (hd : engine.registry.quality? d.id = some d) (hid : IsName d.id)
    (hname : hasBrace d.name = false) (hplural : ∀ text ∈ d.plural, hasBrace text = false)
    (states : Snapshot) (options : CallOptions) :
    (∀ fuel r, (engine.renderQuality fuel d.id states options).result = .ok r →
      r.name = d.shownName ∧ r.plural = d.pluralFrom d.shownName) ∧
    (∀ (env : Env) fuel category separator filter frame mem value mem',
      env.registry = engine.registry →
      ((evaluator env fuel).expr (.call (.list category separator filter)) frame).runOn mem =
        (.ok value, mem') →
      ∃ ids entries, value = .text (separator.join entries) ∧
        ids.Sublist ((engine.registry.inCategory category).map (·.id)) ∧
        (filter = none → ids = (engine.registry.inCategory category).map (·.id)) ∧
        List.Forall₂ (fun id entry => id = d.id → entry = d.shownName) ids entries) ∧
    (∀ fuel, 4 ≤ fuel →
      let name := engine.evaluateText fuel (propertyTemplate d.id .name) states options
      let plural := engine.evaluateText fuel (propertyTemplate d.id .plural) states options
      name.isClean ∧ plural.isClean ∧
      name.result = .ok d.name ∧ plural.result = .ok (d.pluralFrom d.name) ∧
      (name.result = .ok d.shownName ↔ d.name ≠ "") ∧
      (plural.result = .ok (d.pluralFrom d.shownName) ↔ d.name ≠ "" ∨ d.plural.isSome)) := by
  refine ⟨fun fuel r hr => eq_of_renderQuality hd hname hplural hr, ?_, fun fuel hfuel => ?_⟩
  · intro env fuel category separator filter frame mem value mem' henv hrun
    rw [← henv] at hd ⊢
    exact Eval.exists_of_runOn_list hd hname hrun
  · obtain ⟨fuel, rfl⟩ := Nat.exists_eq_add_of_le' hfuel
    intro name plural
    have hnameText : name = ⟨.ok d.name, _⟩ := evaluateText_name hd hid hname fuel
    have hpluralText : plural = ⟨.ok (d.pluralFrom d.name), _⟩ :=
      evaluateText_plural hd hid hname hplural fuel
    rw [hnameText, hpluralText]
    refine ⟨rfl, rfl, rfl, rfl, ?_, ?_⟩
    · rw [← Definition.shownName_eq_name_iff hid]
      simp only [Except.ok.injEq]
    · rw [← Definition.pluralFrom_shownName_iff hid]
      simp only [Except.ok.injEq]

/-- With a name all three show it. -/
theorem name_property_agrees_of_name :
    let hat := { Definition.new "hat" with name := "Top hat", category := "clothes" }
    let engine : Engine := ⟨(Library.ofLists [hat] []).registry, .default, .zeros⟩
    let states : Snapshot := ⟨.empty, none⟩
    hat.shownName = "Top hat" ∧
      (∃ r, (engine.renderQuality 4 "hat" states .none).result = .ok r ∧ r.name = "Top hat" ∧
        r.plural = "Top hats") ∧
      (engine.evaluateText 9 "\x7b%list[clothes]\x7d" states .none).result = .ok "Top hat" ∧
      (engine.evaluateText 4 "\x7b$hat.name\x7d" states .none).result = .ok "Top hat" ∧
      (engine.evaluateText 4 "\x7b$hat.plural\x7d" states .none).result = .ok "Top hats" := by
  intro hat engine states
  have hid : IsName hat.id := ⟨by decide, List.all_eq_true.mp (by decide)⟩
  obtain ⟨hshown, -, hproperty⟩ := @name_property_agrees_iff engine hat
    (by decide +kernel) hid (by decide) (by decide) states .none
  have hrendered : (engine.renderQuality 4 "hat" states .none).result.toOption.isSome := by
    decide +kernel
  obtain ⟨r, hr⟩ := Option.isSome_iff_exists.mp hrendered
  obtain ⟨hname, hplural⟩ := hshown 4 r (eq_ok_of_toOption hr)
  obtain ⟨-, -, htext, hpluralText, -⟩ := hproperty 4 (by decide)
  refine ⟨by decide, ⟨r, eq_ok_of_toOption hr, hname.trans (by decide), hplural.trans (by decide)⟩,
    eq_ok_of_toOption (by decide +kernel), htext, hpluralText⟩

/-- Without a name the property is empty, while the id is shown in the other ways. -/
theorem name_property_empty_without_name :
    let hat := { Definition.new "hat" with category := "clothes" }
    let engine : Engine := ⟨(Library.ofLists [hat] []).registry, .default, .zeros⟩
    let states : Snapshot := ⟨.empty, none⟩
    ((engine.renderQuality 9 "hat" states .none).result.toOption.map fun r => (r.name, r.plural)) =
        some ("hat", "hats") ∧
      (engine.evaluateText 9 "\x7b%list[clothes]\x7d" states .none).result.toOption = some "hat" ∧
      (engine.evaluateText 9 "\x7b$hat.name\x7d" states .none).result.toOption = some "" ∧
      (engine.evaluateText 9 "\x7b$hat.plural\x7d" states .none).result.toOption = some "s" := by
  decide +kernel

end Engine

end QualityScript
