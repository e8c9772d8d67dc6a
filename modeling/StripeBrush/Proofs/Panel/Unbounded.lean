/-
**Ranges that bound nothing.**

A range whose ends are in the wrong order, or one of whose ends is `NaN`, bounds nothing, and no
number can be moved into it.  Building a panel does not look at ranges.  So an operation on a panel
that was built may come to such a range, and this is found out no sooner than a finite number is to
be moved into it: by an edit through the widget, or when settings are passed through the panel.

Main definitions:

* `WidgetSpec.Stuck`, `Form.Op.Stuck` — a value, or an operation, comes to such a range;
* `Panel.RangesBound` — no widget for numbers has such a range.

Main results:

* `WidgetSpec.exists_unbounded_iff`, `Panel.clampedSettings_unbounded_iff`,
  `Form.apply_unbounded_iff` — **what comes to a range that bounds nothing**;
* `Form.never_unbounded_iff` — a panel on which no run ever does;
* `Form.edit_into_reversed_range` — a panel on which a run does.
-/

import StripeBrush.Proofs.Panel.Clamping
import StripeBrush.Proofs.Panel.Syncing

set_option relaxedAutoImplicit false
set_option autoImplicit false

namespace StripeBrush

/-! ### One value -/

namespace WidgetSpec

variable {spec : WidgetSpec} {param : Param} {value : Value} {range : Range}

/-- The value is a finite number, and the widget would move it into a range that bounds nothing. -/
def Stuck (spec : WidgetSpec) (value : Value) : Prop :=
  spec.control ≠ .checkbox ∧ (∃ x, value = .number x ∧ x.isFinite = true) ∧
    ∃ r ∈ spec.range, ¬ r.Bounds

theorem clamp_eq_unbounded_iff {x : Binary32} :
    spec.clamp x = .error (.unbounded range) ↔ range ∈ spec.range ∧ ¬ range.Bounds := by
  unfold clamp
  cases hr : spec.range with
  | none => simp
  | some r =>
      by_cases hb : r.Bounds
      · simp only [Range.clamp?_of_bounds hb, Option.mem_def, Option.some.injEq, reduceCtorEq,
          false_iff, not_and, not_not]
        rintro rfl
        exact hb
      · simp only [Range.clamp?_of_not_bounds hb, Except.error.injEq, Fault.unbounded.injEq,
          Option.mem_def, Option.some.injEq]
        constructor
        · rintro rfl
          exact ⟨rfl, hb⟩
        · rintro ⟨rfl, -⟩
          rfl

/-- Validation comes to a range that bounds nothing exactly if the value is stuck there. -/
theorem exists_unbounded_iff (param : Param) :
    (∃ range, spec.validate param value = .error (.unbounded range)) ↔ spec.Stuck value := by
  unfold validate Stuck
  rw [Ne, ← kind_eq_flag_iff]
  cases value with
  | flag b => cases spec.kind <;> simp
  | number x =>
      cases hkind : spec.kind with
      | flag => simp
      | number =>
          cases hx : x.isFinite with
          | false => simp [hx]
          | true =>
              have hmap : ∀ r, (spec.clamp x).map Value.number = .error (.unbounded r) ↔
                  r ∈ spec.range ∧ ¬ r.Bounds := by
                intro r
                rw [← clamp_eq_unbounded_iff (x := x)]
                cases spec.clamp x <;> simp [Except.map]
              simp [hx, hmap]

end WidgetSpec

/-! ### All values -/

namespace Panel

/-- One widget's part comes to a range that bounds nothing if its own value does, and fails for no
other reason. -/
theorem clampStep_unbounded_iff (s clamped : Settings) (e : Param × Widget) :
    (∃ range, clampStep s clamped e = .error (.unbounded range)) ↔ e.2.spec.Stuck (s.get e.1) := by
  rw [← WidgetSpec.exists_unbounded_iff e.1]
  unfold clampStep
  cases hvalid : e.2.spec.validate e.1 (s.get e.1) with
  | ok stored => simp
  | error fault => cases fault <;> simp

theorem exists_clampStep_of_not_stuck {s : Settings} (clamped : Settings) {e : Param × Widget}
    (h : ¬ e.2.spec.Stuck (s.get e.1)) : ∃ t, clampStep s clamped e = .ok t := by
  rw [← WidgetSpec.exists_unbounded_iff e.1] at h
  unfold clampStep
  cases hvalid : e.2.spec.validate e.1 (s.get e.1) with
  | ok stored => exact ⟨_, rfl⟩
  | error fault =>
      cases fault with
      | refused error => exact ⟨_, rfl⟩
      | unbounded range => exact absurd ⟨range, hvalid⟩ h

theorem foldlM_clampStep_unbounded_iff (s : Settings) (widgets : List (Param × Widget))
    (clamped : Settings) :
    (∃ range, widgets.foldlM (clampStep s) clamped = .error (.unbounded range)) ↔
      ∃ e ∈ widgets, e.2.spec.Stuck (s.get e.1) := by
  induction widgets generalizing clamped with
  | nil => simp [pure, Except.pure]
  | cons e widgets ih =>
      rw [List.foldlM_cons]
      by_cases h : e.2.spec.Stuck (s.get e.1)
      · obtain ⟨range, hrange⟩ := (clampStep_unbounded_iff s clamped e).2 h
        rw [hrange]
        exact ⟨fun _ => ⟨e, List.mem_cons_self .., h⟩, fun _ => ⟨range, rfl⟩⟩
      · -- the first widget passes, so that the rest decides
        obtain ⟨t, ht⟩ := exists_clampStep_of_not_stuck clamped h
        rw [ht]
        refine (ih t).trans ?_
        simp [h]

/-- **Passing settings through a panel comes to a range that bounds nothing** exactly if one of
their values is stuck in its widget. -/
theorem clampedSettings_unbounded_iff (panel : Panel) (s : Settings) :
    (∃ range, panel.clampedSettings s = .error (.unbounded range)) ↔
      ∃ e ∈ panel.widgets, e.2.spec.Stuck (s.get e.1) := by
  rw [clampedSettings_eq_foldlM]
  exact foldlM_clampStep_unbounded_iff s panel.widgets s

/-- Every range of a widget for numbers bounds something. -/
def RangesBound (panel : Panel) : Prop :=
  ∀ r ∈ panel.specs, r.2.control ≠ .checkbox → ∀ range ∈ r.2.range, range.Bounds

end Panel

/-! ### Operations and runs -/

namespace Form

variable {form : Form} {param : Param} {value : Value}

theorem widgetFor_ne_unbounded (form : Form) (param : Param) (range : Range) :
    (form.exec (widgetFor param)).1 ≠ .error (.unbounded range) := by
  rw [exec_widgetFor]
  cases form.panel.widget? param with
  | none => simp
  | some w => cases henabled : w.enabled <;> simp [henabled]

theorem stage_ne_unbounded (form : Form) (param : Param) (stored : Value) (range : Range) :
    (form.exec (stage param stored)).1 ≠ .error (.unbounded range) := by
  rw [exec_stage]
  cases form.settings.set param stored <;> nofun

/-- What is wrong with an effect is a refusal. -/
theorem runEffect_ne_unbounded (form : Form) (param : Param) (stored : Value) (staged : Settings)
    (effect : Effect) (range : Range) :
    (form.exec (runEffect param stored staged effect)).1 ≠ .error (.unbounded range) := by
  cases effect with
  | store => exact fun h => nomatch h
  | forwardMinDistance => exact fun h => nomatch h
  | disableWhenChecked target =>
      unfold runEffect
      rw [Ne, answer_bind_eq_error_iff (reads_checkedBy param stored)]
      rintro (h | ⟨checked, -, h⟩)
      · cases stored <;> exact nomatch h
      rw [answer_bind_eq_error_iff (reads_findTarget target), exec_findTarget] at h
      rcases h with h | ⟨-, -, h⟩
      · split at h <;> simp at h
      · exact nomatch h

/-- **An edit comes to a range that bounds nothing** exactly if the widget is there and takes input,
and the value is stuck in it. -/
theorem edit_unbounded_iff :
    (∃ range, (form.edit param value).1 = .error (.unbounded range)) ↔
      ∃ w, form.panel.widget? param = some w ∧ w.enabled = true ∧ w.spec.Stuck value := by
  unfold edit editing
  simp only [answer_bind_eq_error_iff (reads_widgetFor param),
    answer_bind_eq_error_iff (reads_accept _ param value),
    answer_bind_eq_error_iff (reads_stage param _), widgetFor_ne_unbounded, stage_ne_unbounded,
    runEffect_ne_unbounded, widgetFor_eq_ok_iff, exec_accept, false_or, or_false, and_false,
    exists_false, ← WidgetSpec.exists_unbounded_iff param]
  constructor
  · rintro ⟨range, w, ⟨hw, henabled⟩, h⟩
    exact ⟨w, hw, henabled, range, h⟩
  · rintro ⟨w, hw, henabled, range, h⟩
    exact ⟨range, w, ⟨hw, henabled⟩, h⟩

/-- The operation comes to a range that bounds nothing. -/
def Op.Stuck (form : Form) : Op → Prop
  | .edit param value =>
    ∃ w, form.panel.widget? param = some w ∧ w.enabled = true ∧ w.spec.Stuck value
  | .clamped => ∃ e ∈ form.panel.widgets, e.2.spec.Stuck (form.settings.get e.1)
  | _ => False

/-- **An operation fails for want of a range** exactly if it is stuck; all others are carried out or
refused. -/
theorem apply_unbounded_iff (form : Form) (op : Op) :
    (∃ range, (form.apply op).1 = .failed (.unbounded range)) ↔ op.Stuck form := by
  cases op with
  | edit param value =>
      change _ ↔ ∃ w, _
      rw [← edit_unbounded_iff]
      change (∃ range, Reply.ofEdit (form.edit param value).1 = _) ↔ _
      cases (form.edit param value).1 <;> simp [Reply.ofEdit]
  | setEnabled param enabled =>
      simp only [apply, setEnabled_eq, Op.Stuck, iff_false]
      split <;> simp [Reply.ofSetEnabled]
  | sync => simp [apply, Op.Stuck]
  | clamped =>
      change _ ↔ ∃ e ∈ form.panel.widgets, _
      rw [← Panel.clampedSettings_unbounded_iff]
      cases hclamped : form.panel.clampedSettings form.settings <;> simp [apply, hclamped]
  | load settings => simp [apply, Op.Stuck]

theorem not_stuck_of_rangesBound (h : form.panel.RangesBound) (op : Op) : ¬ op.Stuck form := by
  cases op with
  | edit param value =>
      rintro ⟨w, hw, -, hcontrol, -, range, hrange, hnot⟩
      exact hnot (h _ (Panel.mem_specs_of_widget? hw) hcontrol range hrange)
  | clamped =>
      rintro ⟨e, he, hcontrol, -, range, hrange, hnot⟩
      exact hnot (h (e.1, e.2.spec) (List.mem_map_of_mem he) hcontrol range hrange)
  | setEnabled param enabled => exact id
  | sync => exact id
  | load settings => exact id

theorem run_ne_unbounded (form : Form) (hbuilt : form.panel.Built) (h : form.panel.RangesBound)
    (ops : List Op) :
    ∀ reply ∈ (form.run ops).1, ∀ range, reply ≠ .failed (.unbounded range) := by
  induction ops generalizing form with
  | nil => simp [run]
  | cons op ops ih =>
      have hspecs := form.specs_apply hbuilt.wired op
      have hrest : (form.apply op).2.panel.RangesBound := by
        unfold Panel.RangesBound
        rwa [hspecs]
      intro reply hreply range heq
      rcases List.mem_cons.1 hreply with rfl | hreply
      · exact not_stuck_of_rangesBound h op ((apply_unbounded_iff form op).1 ⟨range, heq⟩)
      · exact ih _ (hbuilt.of_specs_eq hspecs) hrest reply hreply range heq

/-- A widget whose range bounds nothing can be come to: it is enabled, and a number is entered. -/
theorem exists_run_unbounded {panel : Panel} (hbuilt : panel.Built) {spec : WidgetSpec}
    (hspec : (param, spec) ∈ panel.specs) (hcontrol : spec.control ≠ .checkbox) {range : Range}
    (hrange : range ∈ spec.range) (hnot : ¬ range.Bounds) (s : Settings) :
    ∃ r, .failed (.unbounded r) ∈
      (run ⟨panel, s⟩ [.setEnabled param true, .edit param (.number 0)]).1 := by
  obtain ⟨⟨q, w⟩, hmem, heq⟩ := List.mem_map.1 hspec
  obtain ⟨rfl, rfl⟩ := Prod.mk.inj heq
  have hw : panel.widget? q = some w := lookup_eq_some_of_mem hbuilt.wired.nodup hmem
  have hset : apply ⟨panel, s⟩ (.setEnabled q true) = (.done, ⟨panel.setFlag q true, s⟩) := by
    simp [apply, setEnabled_eq, hw, Reply.ofSetEnabled]
  have hwidget : (panel.setFlag q true).widget? q = some { w with enabled := true } := by
    simp [Panel.widget?_setFlag, hw]
  obtain ⟨r, hr⟩ := (apply_unbounded_iff ⟨panel.setFlag q true, s⟩ (.edit q (.number 0))).2
    ⟨_, hwidget, rfl, hcontrol, ⟨0, rfl, by decide⟩, range, hrange, hnot⟩
  refine ⟨r, ?_⟩
  simp only [run, hset]
  exact List.mem_cons_of_mem _ (hr ▸ List.mem_cons_self ..)

/-- **The panels on which no run fails for want of a range** are those in which every range of a
widget for numbers bounds something.  It is not enough that the panel is built. -/
theorem never_unbounded_iff (panel : Panel) (h : panel.Built) :
    (∀ (s : Settings) (ops : List Op), ∀ reply ∈ (run ⟨panel, s⟩ ops).1,
      ∀ range, reply ≠ .failed (.unbounded range)) ↔
    ∀ r ∈ panel.specs, r.2.control ≠ .checkbox → ∀ range ∈ r.2.range, range.Bounds := by
  constructor
  · rintro hnever ⟨param, spec⟩ hspec hcontrol range hrange
    refine Decidable.byContradiction fun hnot => ?_
    obtain ⟨r, hr⟩ := exists_run_unbounded h hspec hcontrol hrange hnot .default
    exact hnever _ _ _ hr r rfl
  · intro hranges s ops
    exact run_ne_unbounded ⟨panel, s⟩ h hranges ops

/-- The range of a checkbox is not looked at, so that one in the wrong order does no harm there. -/
theorem never_unbounded_of_checkbox_range :
    let panel : Panel := ⟨"T", [
      (.mouseOffset, { spec := ⟨"Dynamic size", .checkbox, some ⟨5, 1⟩, .store⟩ }),
      (.offset, { spec := ⟨"Size", .slider, some ⟨1, 5⟩, .store⟩ })]⟩
    panel.Built ∧ ∀ (s : Settings) (ops : List Op), ∀ reply ∈ (run ⟨panel, s⟩ ops).1,
      ∀ range, reply ≠ .failed (.unbounded range) := by
  intro panel
  have hbuilt : panel.Built := by
    rw [Panel.built_iff]
    decide
  exact ⟨hbuilt, (never_unbounded_iff panel hbuilt).2 (by decide)⟩

/-- Building a panel does not keep runs from failing for want of a range: where the range of the size
goes from five to one, the panel is built, and the first number that is entered fails. -/
theorem edit_into_reversed_range :
    let registrations : List Registration := [
      (.offset, { label := "Size", control := .number, range := some ⟨5, 1⟩ })]
    ∃ panel, Panel.build "T" registrations = .ok panel ∧
      (run ⟨panel, .default⟩ [.edit .offset (.number 7)]).1 = [.failed (.unbounded ⟨5, 1⟩)] :=
  ⟨_, rfl, rfl⟩

end Form

end StripeBrush
