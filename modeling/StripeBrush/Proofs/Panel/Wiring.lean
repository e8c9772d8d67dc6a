/-
**What building a panel makes sure of.**

A panel is *built* if its widgets could be registered together, whatever has become of their flags
since.  Then no parameter has two widgets, and a widget that disables another one is a checkbox, the
other one is there, and it is not the checkbox itself.  The flags are looked up and set one by one:
setting the flag of a parameter shows at that parameter and nowhere else.

Main definitions:

* `Panel.Built` — the widgets of the panel can be registered together;
* `Panel.Wired` — what this makes sure of.

Main results:

* `Panel.enabled?_setFlag` — a flag that is set shows at its parameter and nowhere else;
* `firstRepeated_eq_none_iff` — nothing is found to be repeated exactly when nothing is;
* `Panel.Built.wired` — **a panel that is built is wired**.
-/

import StripeBrush.Panel.Basic

set_option relaxedAutoImplicit false
set_option autoImplicit false

namespace StripeBrush

/-! ### Looking up widgets -/

/-- A list of entries can be looked up before or after its values are changed. -/
theorem lookup_map_entry {α β : Type} (l : List (Param × α)) (f : Param → α → β) (q : Param) :
    (l.map fun e => (e.1, f e.1 e.2)).lookup q = (l.lookup q).map (f q) := by
  induction l with
  | nil => rfl
  | cons e l ih =>
      obtain ⟨p, a⟩ := e
      by_cases h : q = p
      · subst h
        simp
      · have hne : (q == p) = false := by simpa using h
        simp [List.lookup_cons, hne, ih]

/-- A parameter without an entry is not found. -/
theorem lookup_eq_none_of_notMem {α : Type} {l : List (Param × α)} {p : Param}
    (h : p ∉ l.map Prod.fst) : l.lookup p = none := by
  rw [List.lookup_eq_none_iff]
  intro e he
  have hne : p ≠ e.1 := by
    rintro rfl
    exact h (List.mem_map_of_mem he)
  simpa using hne

theorem lookup_eq_some_of_mem {α : Type} {l : List (Param × α)} {p : Param} {a : α}
    (hnodup : (l.map Prod.fst).Nodup) (h : (p, a) ∈ l) : l.lookup p = some a := by
  induction l with
  | nil => simp at h
  | cons e l ih =>
      rw [List.map_cons, List.nodup_cons] at hnodup
      rcases List.mem_cons.1 h with rfl | h
      · exact List.lookup_cons_self
      · have hne : p ≠ e.1 := by
          rintro rfl
          exact hnodup.1 (List.mem_map.2 ⟨_, h, rfl⟩)
        have hbeq : (p == e.1) = false := by simpa using hne
        rw [List.lookup_cons, hbeq]
        exact ih hnodup.2 h

namespace Panel

variable {panel : Panel} {p q : Param} {w : Widget}

theorem widgets_setFlag (panel : Panel) (p : Param) (b : Bool) :
    (panel.setFlag p b).widgets = panel.widgets.map fun e =>
      (e.1, if e.1 = p then { e.2 with enabled := b } else e.2) := by
  simp only [setFlag]
  apply List.map_congr_left
  intro e _
  split <;> rfl

theorem widget?_setFlag (panel : Panel) (p : Param) (b : Bool) (q : Param) :
    (panel.setFlag p b).widget? q =
      (panel.widget? q).map fun w => if q = p then { w with enabled := b } else w := by
  simp only [widget?, widgets_setFlag]
  exact lookup_map_entry panel.widgets
    (fun r w => if r = p then { w with enabled := b } else w) q

/-- A flag that is set shows at its parameter and nowhere else. -/
theorem enabled?_setFlag (panel : Panel) (p : Param) (b : Bool) (q : Param) :
    (panel.setFlag p b).enabled? q =
      if q = p then (panel.enabled? p).map fun _ => b else panel.enabled? q := by
  simp only [enabled?, widget?_setFlag]
  by_cases h : q = p
  · subst h
    cases panel.widget? q <;> simp
  · cases panel.widget? q <;> simp [h]

theorem setFlag_setFlag (panel : Panel) (p : Param) (b c : Bool) :
    (panel.setFlag p b).setFlag p c = panel.setFlag p c := by
  simp only [setFlag, List.map_map]
  congr 1
  apply List.map_congr_left
  intro e _
  by_cases h : e.1 = p <;> simp [h]

theorem lookup_specs (panel : Panel) (p : Param) :
    panel.specs.lookup p = (panel.widget? p).map Widget.spec :=
  lookup_map_entry panel.widgets (fun _ w => w.spec) p

theorem mem_widgets_of_widget? (h : panel.widget? p = some w) : (p, w) ∈ panel.widgets := by
  obtain ⟨before, after, hsplit, -⟩ := List.lookup_eq_some_iff.1 h
  rw [hsplit]
  simp

theorem mem_specs_of_widget? (h : panel.widget? p = some w) : (p, w.spec) ∈ panel.specs :=
  List.mem_map.2 ⟨(p, w), mem_widgets_of_widget? h, rfl⟩

/-- A parameter has a widget exactly when it is among those registered. -/
theorem isSome_widget?_iff (panel : Panel) (p : Param) :
    (panel.widget? p).isSome ↔ p ∈ panel.specs.map Prod.fst := by
  have h := lookup_specs panel p
  rw [← Option.isSome_map (f := Widget.spec), ← h, List.lookup_isSome_iff, List.mem_map]
  constructor
  · rintro ⟨r, hr, hp⟩
    exact ⟨r, hr, (beq_iff_eq.1 hp).symm⟩
  · rintro ⟨r, hr, rfl⟩
    exact ⟨r, hr, beq_self_eq_true _⟩

end Panel

/-! ### What building checks -/

/-- Nothing is found to be repeated exactly when nothing is. -/
theorem firstRepeated_eq_none_iff (seen ps : List Param) :
    firstRepeated seen ps = none ↔ ps.Nodup ∧ ∀ p ∈ ps, p ∉ seen := by
  induction ps generalizing seen with
  | nil => simp [firstRepeated]
  | cons p ps ih =>
      simp only [firstRepeated]
      split
      · rename_i hp
        simp only [List.mem_cons, List.nodup_cons]
        constructor
        · intro h
          simp at h
        · rintro ⟨-, hnew⟩
          exact absurd hp (hnew p (Or.inl rfl))
      · rename_i hp
        rw [ih, List.nodup_cons]
        constructor
        · rintro ⟨hnodup, hnew⟩
          refine ⟨⟨fun hmem => hnew p hmem (by simp), hnodup⟩, ?_⟩
          intro q hq
          rcases List.mem_cons.1 hq with rfl | hq
          · exact hp
          · exact fun hseen => hnew q hq (List.mem_cons_of_mem _ hseen)
        · rintro ⟨⟨hnot, hnodup⟩, hnew⟩
          refine ⟨hnodup, fun q hq hmem => ?_⟩
          rcases List.mem_cons.1 hmem with rfl | hmem
          · exact hnot hq
          · exact hnew q (List.mem_cons_of_mem _ hq) hmem

/-- A dependency without a fault starts at a checkbox and ends at a registered parameter. -/
theorem dependencyError?_eq_none {registered : List Param} {r : Registration} {target : Param}
    (h : dependencyError? registered r = none) (ht : r.2.effect.target? = some target) :
    r.2.kind = .flag ∧ target ∈ registered := by
  simp only [dependencyError?, ht] at h
  split at h
  · simp at h
  · rename_i hkind
    split at h
    · simp at h
    · rename_i hmem
      exact ⟨by simpa using hkind, by simpa using hmem⟩

/-- Where no circle is found, no widget disables itself. -/
theorem targetOf_ne_self {registrations : List Registration} {r : Registration}
    (h : cycle? registrations = none) (hr : r ∈ registrations) :
    targetOf registrations r.1 ≠ some r.1 := by
  intro hself
  have hnone := List.findSome?_eq_none_iff.1 h r hr
  obtain ⟨n, hn⟩ : ∃ n, registrations.length = n + 1 :=
    ⟨registrations.length - 1, by have := List.length_pos_of_mem hr; omega⟩
  simp [hn, cycleFrom?, hself] at hnone

namespace Panel

/-- The widgets of the panel can be registered together.  Nothing is said about the flags, which may
have been set since. -/
def Built (panel : Panel) : Prop := ∃ fresh, build panel.title panel.specs = .ok fresh

/-- The widgets of a panel fit together: no parameter has two of them, and a widget that disables
another one is a checkbox, and the other one is there and is not itself. -/
structure Wired (panel : Panel) : Prop where
  nodup : (panel.widgets.map Prod.fst).Nodup
  checkbox : ∀ {p w target}, panel.widget? p = some w → w.spec.effect.target? = some target →
    w.spec.kind = .flag
  registered : ∀ {p w target}, panel.widget? p = some w → w.spec.effect.target? = some target →
    (panel.widget? target).isSome
  ne_self : ∀ {p w target}, panel.widget? p = some w → w.spec.effect.target? = some target →
    target ≠ p

/-- A panel can be built exactly when nothing is wrong with its registrations. -/
theorem built_iff (panel : Panel) : panel.Built ↔ registrationError? panel.specs = none := by
  unfold Built build
  cases registrationError? panel.specs <;> simp

/-- The flags have no part in whether a panel is built. -/
theorem Built.of_specs_eq {panel panel' : Panel} (h : panel.Built) (hs : panel'.specs = panel.specs) :
    panel'.Built := by
  rw [built_iff] at h ⊢
  rwa [hs]

/-- **A panel that is built is wired.** -/
theorem Built.wired {panel : Panel} (h : panel.Built) : panel.Wired := by
  rw [built_iff, registrationError?] at h
  split at h
  · simp at h
  · rename_i hrepeated
    split at h
    · simp at h
    · rename_i hdependency
      have hcycle : cycle? panel.specs = none := by simpa using h
      have hnodup := ((firstRepeated_eq_none_iff [] _).1 hrepeated).1
      have hfits : ∀ {p w target}, panel.widget? p = some w →
          w.spec.effect.target? = some target →
          w.spec.kind = .flag ∧ target ∈ panel.specs.map Prod.fst := by
        intro p w target hw ht
        have hnone := List.findSome?_eq_none_iff.1 hdependency _ (mem_specs_of_widget? hw)
        exact dependencyError?_eq_none hnone ht
      refine ⟨?_, fun hw ht => (hfits hw ht).1, fun hw ht => ?_, fun {p w target} hw ht => ?_⟩
      · simpa [specs, Function.comp_def] using hnodup
      · exact (isSome_widget?_iff panel _).2 (hfits hw ht).2
      · rintro rfl
        have htarget : targetOf panel.specs target = some target := by
          simp [targetOf, lookup_specs, hw, ht]
        exact targetOf_ne_self hcycle (mem_specs_of_widget? hw) htarget

end Panel

end StripeBrush
