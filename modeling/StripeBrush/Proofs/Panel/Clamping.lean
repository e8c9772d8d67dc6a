/-
**Settings as the widgets of a panel store them.**

Every value that has a widget is passed through it on its own: a value that the widget takes is
moved into its range, and any other one becomes the default.  Where every range bounds something
this always succeeds, and afterwards the values lie in the ranges of their widgets.  They stay there
whatever is edited.

Main definitions:

* `WidgetSpec.presetValue` — what becomes of one value;
* `Form.WithinRanges` — every number lies in the range of its widget.

Main results:

* `Panel.clampedSettings_eq_ok` — **the settings are passed through the widgets one by one**;
* `Form.WithinRanges.edit` — an edit leaves the numbers in their ranges.
-/

import StripeBrush.Proofs.Binary.Order
import StripeBrush.Proofs.Panel.Editing

set_option relaxedAutoImplicit false
set_option autoImplicit false

namespace StripeBrush

/-! ### One value -/

namespace WidgetSpec

variable {spec : WidgetSpec} {param : Param} {value : Value}

/-- What becomes of a value in a preset: it is stored if the widget takes it, and else replaced by
the default. -/
def presetValue (spec : WidgetSpec) (param : Param) (value : Value) : Value :=
  if spec.Takes value then spec.stored value else Settings.default.get param

theorem kind_presetValue (spec : WidgetSpec) (h : value.kind = param.kind) :
    (spec.presetValue param value).kind = param.kind := by
  unfold presetValue
  split
  · rw [kind_stored, h]
  · exact Settings.kind_get _ _

/-- A value that a widget does not take is refused, unless the range of the widget bounds
nothing. -/
theorem validate_eq_error (param : Param) (hbounds : ∀ r ∈ spec.range, r.Bounds) (h : ¬ spec.Takes value) :
    ∃ e, spec.validate param value = .error (.refused e) := by
  unfold validate
  split
  · rename_i hkind
    exact absurd (kind_eq_flag_iff.1 hkind) h
  · rename_i x hkind
    split
    · rename_i hx
      exact absurd ⟨kind_eq_number_iff.1 hkind, hx, hbounds⟩ h
    · exact ⟨_, rfl⟩
  · exact ⟨_, rfl⟩

end WidgetSpec

/-! ### All values -/

namespace Panel

/-- One widget's part in passing settings through a panel. -/
def clampStep (s clamped : Settings) (e : Param × Widget) : Except Fault Settings :=
  let store (value : Value) : Settings := (clamped.set e.1 value).toOption.getD clamped
  match e.2.spec.validate e.1 (s.get e.1) with
  | .ok value => .ok (store value)
  | .error (.refused _) => .ok (store (Settings.default.get e.1))
  | .error (.unbounded r) => .error (.unbounded r)

theorem clampedSettings_eq_foldlM (panel : Panel) (s : Settings) :
    panel.clampedSettings s = panel.widgets.foldlM (clampStep s) s := rfl

/-- One widget writes its own parameter and no other one. -/
theorem clampStep_eq_ok (s clamped : Settings) {e : Param × Widget}
    (hbounds : ∀ r ∈ e.2.spec.range, r.Bounds) :
    ∃ t, clampStep s clamped e = .ok t ∧
      ∀ q, t.get q = if q = e.1 then e.2.spec.presetValue e.1 (s.get e.1) else clamped.get q := by
  have hkind := WidgetSpec.kind_presetValue e.2.spec (Settings.kind_get s e.1)
  obtain ⟨t, ht⟩ := (Settings.set_eq_ok_iff clamped _ _).2 hkind
  refine ⟨t, ?_, fun q => ?_⟩
  · unfold clampStep
    unfold WidgetSpec.presetValue at ht
    split at ht
    · rename_i htakes
      rw [WidgetSpec.validate_eq_ok_iff.2 ⟨htakes, rfl⟩]
      simp [ht, Except.toOption]
    · rename_i htakes
      obtain ⟨error, herror⟩ := WidgetSpec.validate_eq_error e.1 hbounds htakes
      simp [herror, ht, Except.toOption]
  · split
    · rename_i hq
      subst hq
      exact Settings.get_set_self ht
    · rename_i hq
      exact Settings.get_set_of_ne ht hq

/-- What some widgets make of settings, where no parameter has two of them.  The values that they
store come from `s`, and those of all other parameters from `clamped`. -/
theorem foldlM_clampStep (s : Settings) (widgets : List (Param × Widget))
    (hnodup : (widgets.map Prod.fst).Nodup)
    (hbounds : ∀ e ∈ widgets, ∀ r ∈ e.2.spec.range, r.Bounds) (clamped : Settings) :
    ∃ t, widgets.foldlM (clampStep s) clamped = .ok t ∧
      ∀ q, t.get q = ((widgets.lookup q).map fun w => w.spec.presetValue q (s.get q)).getD
        (clamped.get q) := by
  induction widgets generalizing clamped with
  | nil => exact ⟨clamped, rfl, fun q => rfl⟩
  | cons e widgets ih =>
      obtain ⟨p, w⟩ := e
      rw [List.map_cons, List.nodup_cons] at hnodup
      obtain ⟨u, hu, hget⟩ := clampStep_eq_ok s clamped (hbounds (p, w) (by simp))
      obtain ⟨t, ht, hrest⟩ := ih hnodup.2 (fun e he => hbounds e (by simp [he])) u
      refine ⟨t, ?_, fun q => ?_⟩
      · rw [List.foldlM_cons, hu]
        exact ht
      · rw [hrest, hget]
        by_cases hq : q = p
        · subst hq
          -- the parameter does not occur again, so nothing overwrites its value
          have hnone : widgets.lookup q = none := lookup_eq_none_of_notMem hnodup.1
          simp [hnone]
        · have hne : (q == p) = false := by simpa using hq
          simp [List.lookup_cons, hne, hq]

/-- **The settings are passed through the widgets one by one.**  Each value with a widget becomes
what the widget makes of it, and all other values are kept. -/
theorem clampedSettings_eq_ok {panel : Panel} (hnodup : (panel.widgets.map Prod.fst).Nodup)
    (hbounds : ∀ e ∈ panel.widgets, ∀ r ∈ e.2.spec.range, r.Bounds) (s : Settings) :
    ∃ t, panel.clampedSettings s = .ok t ∧
      ∀ q, t.get q = ((panel.widget? q).map fun w => w.spec.presetValue q (s.get q)).getD
        (s.get q) := by
  rw [clampedSettings_eq_foldlM]
  exact foldlM_clampStep s panel.widgets hnodup hbounds s

end Panel

/-! ### Staying in range -/

/-- The number lies in the range. -/
def Range.Contains (r : Range) (x : Binary32) : Prop := r.lo ≤ x ∧ x ≤ r.hi

instance (r : Range) (x : Binary32) : Decidable (r.Contains x) :=
  inferInstanceAs (Decidable (r.lo ≤ x ∧ x ≤ r.hi))

/-- A finite number that is moved into a range lies in it. -/
theorem Range.contains_nearest {r : Range} (h : r.Bounds) {x : Binary32} (hx : x.isFinite = true) :
    r.Contains (r.nearest x) :=
  Binary.le_clamp_le (Range.clamp?_of_bounds h x) (Binary.isNaN_of_isFinite hx)

/-- A number that a widget has stored lies in its range. -/
theorem WidgetSpec.contains_stored {spec : WidgetSpec} {value : Value} (h : spec.Takes value)
    {x : Binary32} (hx : spec.stored value = .number x) {r : Range} (hr : r ∈ spec.range) :
    r.Contains x := by
  cases value with
  | flag b => simp [stored] at hx
  | number y =>
      obtain ⟨-, hfinite, hbounds⟩ := h
      rw [Option.mem_def] at hr
      simp only [stored, hr, Option.map_some, Option.getD_some, Value.number.injEq] at hx
      subst hx
      exact Range.contains_nearest (hbounds r hr) hfinite

namespace Form

variable {form form' : Form} {param : Param} {value : Value} {outcome : EditOutcome}

/-- Every number of the settings lies in the range of its widget. -/
def WithinRanges (form : Form) : Prop :=
  ∀ p w x, form.panel.widget? p = some w → form.settings.get p = .number x →
    ∀ r ∈ w.spec.range, r.Contains x

/-- Whether the numbers are in their ranges depends on the widgets' descriptions only. -/
theorem WithinRanges.of_specs_eq (h : form.WithinRanges)
    (hspecs : form'.panel.specs = form.panel.specs)
    (hsettings : form'.settings = form.settings) : form'.WithinRanges := by
  intro p w x hw hx r hr
  have hspec := congrArg (fun specs => specs.lookup p) hspecs
  simp only [Panel.lookup_specs, hw, Option.map_some] at hspec
  obtain ⟨w', hw', hs⟩ := Option.map_eq_some_iff.1 hspec.symm
  exact h p w' x hw' (hsettings ▸ hx) r (hs ▸ hr)

/-- An edit leaves the numbers in their ranges. -/
theorem WithinRanges.edit (h : form.WithinRanges) (hwired : form.panel.Wired)
    (hedit : form.edit param value = (.ok outcome, form')) : form'.WithinRanges := by
  obtain ⟨w, hw, htakes, -, hedited⟩ := edited_of_edit hwired hedit
  intro p w' x hw' hx r hr
  -- the widget of `p` before the edit has the same description
  have hspec := congrArg (fun specs => specs.lookup p) hedited.specs_eq
  simp only [Panel.lookup_specs, hw', Option.map_some] at hspec
  obtain ⟨w₀, hw₀, hs⟩ := Option.map_eq_some_iff.1 hspec.symm
  rw [hedited.get_eq] at hx
  split at hx
  · rename_i hp
    subst hp
    obtain rfl := Option.some.inj (hw.symm.trans hw₀)
    rw [hedited.value_eq] at hx
    exact WidgetSpec.contains_stored htakes hx (hs ▸ hr)
  · exact h p w₀ x hw₀ hx r (hs ▸ hr)

end Form

end StripeBrush
