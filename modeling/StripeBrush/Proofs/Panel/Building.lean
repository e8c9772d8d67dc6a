/-
**Which panels are built.**

A list of registrations fits together if no parameter has two of them, every dependency starts at a
checkbox and ends at a registered parameter, and no walk along the dependencies comes back to where
it has been.  Exactly those lists are built.  For any other list one thing that is wrong with it is
reported: a repeated parameter before a dependency that cannot be, and this before a circle.

Main definitions:

* `DependencyFits`, `FitTogether` — the registrations that are built;
* `Misfit` — **what is reported of the others**.

Main results:

* `firstRepeated_eq_some` — the parameter that is reported is the first one that repeats another;
* `dependencyError?_eq_some` — the fault of a dependency;
* `registrationError?_eq_none_iff`, `misfit_of_registrationError?` — nothing is wrong exactly with
  registrations that fit together, and what is reported of others is wrong with them;
* `Panel.build_iff_fitTogether` — **the panels that are built, and what is reported of the others**.
-/

import StripeBrush.Proofs.Panel.Chains
import StripeBrush.Proofs.Panel.Editing

set_option relaxedAutoImplicit false
set_option autoImplicit false

namespace StripeBrush

variable {registrations : List Registration} {registered : List Param} {r : Registration}
  {e : PanelError} {p : Param}

/-- What a registration depends on can be: a widget that disables another one is a checkbox, and the
other one is registered. -/
def DependencyFits (registered : List Param) (r : Registration) : Prop :=
  ∀ target, r.2.effect = .disableWhenChecked target →
    r.2.control = .checkbox ∧ target ∈ registered

/-- Registrations that fit together. -/
structure FitTogether (registrations : List Registration) : Prop where
  /-- No parameter is registered twice. -/
  nodup : (registrations.map Prod.fst).Nodup
  /-- Every dependency can be. -/
  dependencies : ∀ r ∈ registrations, DependencyFits (registrations.map Prod.fst) r
  /-- Following dependencies never comes back to a parameter that was passed. -/
  walks : ∀ walk : List Param, walk.IsChain (Disables registrations) → walk.Nodup

/-- What is wrong with registrations that do not fit together.  A repeated parameter comes before
everything else, and the dependencies one by one before where they lead to. -/
inductive Misfit (registrations : List Registration) : PanelError → Prop
  /-- The first parameter that was registered before. -/
  | repeated {before after : List Registration} {r : Registration}
      (split : registrations = before ++ r :: after)
      (first : (before.map Prod.fst).Nodup) (again : r.1 ∈ before.map Prod.fst) :
      Misfit registrations (.duplicateWidget r.1)
  /-- The first dependency that cannot be starts at a widget that is no checkbox, wherever it
  ends. -/
  | notCheckbox {before after : List Registration} {r : Registration} {target : Param}
      (nodup : (registrations.map Prod.fst).Nodup)
      (split : registrations = before ++ r :: after)
      (first : ∀ b ∈ before, DependencyFits (registrations.map Prod.fst) b)
      (effect : r.2.effect = .disableWhenChecked target) (control : r.2.control ≠ .checkbox) :
      Misfit registrations (.typeMismatch ⟨r.1, .flag⟩)
  /-- The first dependency that cannot be starts at a checkbox and ends at a parameter that is not
  registered. -/
  | unknownTarget {before after : List Registration} {r : Registration} {target : Param}
      (nodup : (registrations.map Prod.fst).Nodup)
      (split : registrations = before ++ r :: after)
      (first : ∀ b ∈ before, DependencyFits (registrations.map Prod.fst) b)
      (effect : r.2.effect = .disableWhenChecked target) (control : r.2.control = .checkbox)
      (unknown : target ∉ registrations.map Prod.fst) :
      Misfit registrations (.unknownWidget target)
  /-- All dependencies can be, and some of them run in a circle. -/
  | circle {chain : List Param} (nodup : (registrations.map Prod.fst).Nodup)
      (dependencies : ∀ r ∈ registrations, DependencyFits (registrations.map Prod.fst) r)
      (circle : IsCircle registrations chain) :
      Misfit registrations (.dependencyCycle chain)

/-! ### Repeated parameters -/

/-- The parameter that is reported is the first one that repeats another. -/
theorem firstRepeated_eq_some {seen ps : List Param} (h : firstRepeated seen ps = some p) :
    ∃ before after, ps = before ++ p :: after ∧ before.Nodup ∧ (∀ q ∈ before, q ∉ seen) ∧
      (p ∈ seen ∨ p ∈ before) := by
  induction ps generalizing seen with
  | nil => simp [firstRepeated] at h
  | cons q ps ih =>
      simp only [firstRepeated] at h
      split at h
      · rename_i hseen
        obtain rfl := Option.some.inj h
        exact ⟨[], ps, rfl, List.nodup_nil, by simp, .inl hseen⟩
      · rename_i hnew
        obtain ⟨before, after, rfl, hnodup, hbefore, hagain⟩ := ih h
        refine ⟨q :: before, after, rfl, ?_, ?_, ?_⟩
        · exact List.nodup_cons.2 ⟨fun hq => hbefore q hq (List.mem_cons_self ..), hnodup⟩
        · intro x hx
          rcases List.mem_cons.1 hx with rfl | hx
          · exact hnew
          · exact fun hseen => hbefore x hx (List.mem_cons_of_mem _ hseen)
        · rcases hagain with hseen | hmem
          · rcases List.mem_cons.1 hseen with rfl | hseen
            · exact .inr (List.mem_cons_self ..)
            · exact .inl hseen
          · exact .inr (List.mem_cons_of_mem _ hmem)

theorem misfit_of_firstRepeated
    (h : firstRepeated [] (registrations.map Prod.fst) = some p) :
    Misfit registrations (.duplicateWidget p) := by
  obtain ⟨before, after, hsplit, hnodup, -, hagain⟩ := firstRepeated_eq_some h
  obtain ⟨l₁, l₂, rfl, rfl, htail⟩ := List.map_eq_append_iff.1 hsplit
  obtain ⟨r, l₂, rfl, rfl, rfl⟩ := List.map_eq_cons_iff.1 htail
  exact .repeated rfl hnodup (hagain.resolve_left (by simp))

/-! ### Dependencies one by one -/

theorem dependencyError?_eq_none_iff :
    dependencyError? registered r = none ↔ DependencyFits registered r := by
  constructor
  · intro h target heffect
    have ht : r.2.effect.target? = some target := Effect.target?_eq_some_iff.2 heffect
    obtain ⟨hkind, hmem⟩ := dependencyError?_eq_none h ht
    exact ⟨WidgetSpec.kind_eq_flag_iff.1 hkind, hmem⟩
  · intro h
    unfold dependencyError?
    cases ht : r.2.effect.target? with
    | none => rfl
    | some target =>
        obtain ⟨hcontrol, hmem⟩ := h target (Effect.target?_eq_some_iff.1 ht)
        simp [WidgetSpec.kind_eq_flag_iff.2 hcontrol, hmem]

/-- The fault of a dependency: it does not start at a checkbox, or it does and ends at a parameter
that is not registered. -/
theorem dependencyError?_eq_some (h : dependencyError? registered r = some e) :
    ∃ target, r.2.effect = .disableWhenChecked target ∧
      ((r.2.control ≠ .checkbox ∧ e = .typeMismatch ⟨r.1, .flag⟩) ∨
        (r.2.control = .checkbox ∧ target ∉ registered ∧ e = .unknownWidget target)) := by
  unfold dependencyError? at h
  cases ht : r.2.effect.target? with
  | none => simp [ht] at h
  | some target =>
      refine ⟨target, Effect.target?_eq_some_iff.1 ht, ?_⟩
      simp only [ht] at h
      by_cases hcontrol : r.2.control = .checkbox
      · right
        have hkind := WidgetSpec.kind_eq_flag_iff.2 hcontrol
        by_cases hmem : target ∈ registered
        · simp [hkind, hmem] at h
        · simp only [hkind, ne_eq, not_true_eq_false, if_false, hmem, not_false_eq_true,
            if_true] at h
          exact ⟨hcontrol, hmem, (Option.some.inj h).symm⟩
      · left
        have hkind : r.2.kind ≠ .flag := fun hk => hcontrol (WidgetSpec.kind_eq_flag_iff.1 hk)
        rw [if_pos hkind] at h
        exact ⟨hcontrol, (Option.some.inj h).symm⟩

/-- No dependency is at fault exactly when all of them can be. -/
theorem findSome?_dependencyError?_eq_none_iff :
    registrations.findSome? (dependencyError? registered) = none ↔
      ∀ r ∈ registrations, DependencyFits registered r := by
  simp only [List.findSome?_eq_none_iff, dependencyError?_eq_none_iff]

theorem misfit_of_dependencyError? (hnodup : (registrations.map Prod.fst).Nodup)
    (h : registrations.findSome? (dependencyError? (registrations.map Prod.fst)) = some e) :
    Misfit registrations e := by
  obtain ⟨before, r, after, hsplit, hfault, hfirst⟩ := List.findSome?_eq_some_iff.1 h
  have hfits : ∀ b ∈ before, DependencyFits (registrations.map Prod.fst) b :=
    fun b hb => dependencyError?_eq_none_iff.1 (hfirst b hb)
  obtain ⟨target, heffect, ⟨hcontrol, rfl⟩ | ⟨hcontrol, hunknown, rfl⟩⟩ :=
    dependencyError?_eq_some hfault
  · exact .notCheckbox hnodup hsplit hfits heffect hcontrol
  · exact .unknownTarget hnodup hsplit hfits heffect hcontrol hunknown

/-! ### All of it -/

/-- Nothing is wrong exactly with registrations that fit together. -/
theorem registrationError?_eq_none_iff :
    registrationError? registrations = none ↔ FitTogether registrations := by
  rw [registrationError?]
  constructor
  · intro h
    split at h
    · simp at h
    · rename_i hrepeated
      have hnodup := ((firstRepeated_eq_none_iff [] _).1 hrepeated).1
      split at h
      · simp at h
      · rename_i hdependencies
        exact
          { nodup := hnodup
            dependencies := findSome?_dependencyError?_eq_none_iff.1 hdependencies
            walks := (cycle?_eq_none_iff hnodup).1 (by simpa using h) }
  · intro h
    have hrepeated : firstRepeated [] (registrations.map Prod.fst) = none :=
      (firstRepeated_eq_none_iff [] _).2 ⟨h.nodup, by simp⟩
    have hdependencies := findSome?_dependencyError?_eq_none_iff.2 h.dependencies
    simp [hrepeated, hdependencies, (cycle?_eq_none_iff h.nodup).2 h.walks]

/-- What is reported is wrong with the registrations. -/
theorem misfit_of_registrationError? (h : registrationError? registrations = some e) :
    Misfit registrations e := by
  rw [registrationError?] at h
  split at h
  · rename_i p hrepeated
    obtain rfl := Option.some.inj h
    exact misfit_of_firstRepeated hrepeated
  · rename_i hrepeated
    have hnodup := ((firstRepeated_eq_none_iff [] _).1 hrepeated).1
    split at h
    · rename_i fault hfault
      obtain rfl := Option.some.inj h
      exact misfit_of_dependencyError? hnodup hfault
    · rename_i hdependencies
      obtain ⟨chain, hchain, rfl⟩ := Option.map_eq_some_iff.1 h
      exact .circle hnodup (findSome?_dependencyError?_eq_none_iff.1 hdependencies)
        (isCircle_of_cycle?_eq_some hchain)

/-- **The panels that are built, and what is reported of the others.**  Following dependencies comes
to an end wherever it starts.  Registrations are built exactly if they fit together, and the panel
then holds them in order, all enabled; of any others, what is reported is wrong with them. -/
theorem Panel.build_iff_fitTogether (title : String) (registrations : List Registration) :
    (∀ p, Follows registrations [p] p
      (cycleFrom? registrations registrations.length [p] p)) ∧
    ((∃ panel, Panel.build title registrations = .ok panel) ↔ FitTogether registrations) ∧
    (∀ panel, Panel.build title registrations = .ok panel → panel.title = title ∧
      panel.widgets = registrations.map fun r => (r.1, { spec := r.2, enabled := true })) ∧
    (∀ e, Panel.build title registrations = .error e → Misfit registrations e) := by
  refine ⟨follows_cycleFrom? registrations, ?_, ?_, ?_⟩
  · rw [← registrationError?_eq_none_iff]
    unfold Panel.build
    cases registrationError? registrations <;> simp
  · intro panel h
    rw [Panel.build_eq_ok h]
    exact ⟨rfl, rfl⟩
  · intro e h
    unfold Panel.build at h
    split at h
    · rename_i fault hfault
      obtain rfl := Except.error.inj h
      exact misfit_of_registrationError? hfault
    · simp at h

/-- Three checkboxes of which the first disables the second, and the second and the third disable
each other: what is reported is the circle without the way that leads into it. -/
theorem Panel.build_tail_and_circle :
    let registrations : List Registration := [
      (.distance, { label := "A", control := .checkbox, effect := .disableWhenChecked .offset }),
      (.offset, { label := "B", control := .checkbox, effect := .disableWhenChecked .mouseOffset }),
      (.mouseOffset, { label := "C", control := .checkbox, effect := .disableWhenChecked .offset })]
    Panel.build "Loop" registrations =
      .error (.dependencyCycle [.offset, .mouseOffset, .offset]) ∧
    ¬ FitTogether registrations ∧
    Misfit registrations (.dependencyCycle [.offset, .mouseOffset, .offset]) := by
  intro registrations
  have hbuild : Panel.build "Loop" registrations =
      .error (.dependencyCycle [.offset, .mouseOffset, .offset]) := rfl
  obtain ⟨-, hbuilt, -, hmisfit⟩ := Panel.build_iff_fitTogether "Loop" registrations
  refine ⟨hbuild, fun hfit => ?_, hmisfit _ hbuild⟩
  obtain ⟨panel, hpanel⟩ := hbuilt.2 hfit
  rw [hbuild] at hpanel
  simp at hpanel

end StripeBrush
