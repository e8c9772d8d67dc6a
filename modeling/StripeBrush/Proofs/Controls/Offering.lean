/-
**What a panel offers, and what it takes.**

Which control a widget is shown as goes by its own kind and by the kind of its parameter; whether an
edit is carried out goes by the same two, one after the other.  The two ways of going about it agree
wherever the widget suits its parameter: what a control reports has the kind of the parameter, and
an edit to it is carried out, if the control is enabled and the number, if it is one, is finite.  A
widget for numbers on a flag shows nothing, so that it offers nothing either.  It does not matter
what the toolkit makes of the pointer and the keyboard, or what its controls show.

They do not agree on a checkbox that was registered for a number.  It is shown as a number field,
and every number that is entered in the field is refused, because a checkbox takes only flags.

Main definitions:

* `Panel.Quiet` — no control that is disabled reports a change;
* `Panel.Unsuited` — the widget of a parameter is a checkbox, and the parameter is no flag.

Main results:

* `Panel.exists_widget?_of_change` — what is behind a change that a panel reports;
* `Panel.edit_of_change_iff` — **which of the changes that are offered are carried out**;
* `Panel.edit_of_unsuited_checkbox` — a change that is offered and refused.
-/

import StripeBrush.Desktop.Controls
import StripeBrush.Proofs.Controls.Shown
import StripeBrush.Proofs.Panel.Unbounded

set_option relaxedAutoImplicit false
set_option autoImplicit false

namespace StripeBrush

namespace Panel

variable {Ui : Type} {kit : Toolkit Ui} {panel : Panel} {s : Settings} {ui : Ui} {p : Param}
  {value : Value}

/-- No control that is disabled reports a change in the frame. -/
def Quiet (kit : Toolkit Ui) (panel : Panel) (s : Settings) (ui : Ui) : Prop :=
  ∀ e ∈ panel.widgets.zip (panel.responses kit s ui), e.1.2.enabled = false → e.2.change = none

instance (panel : Panel) (s : Settings) (ui : Ui) : Decidable (panel.Quiet kit s ui) :=
  inferInstanceAs (Decidable (∀ e ∈ panel.widgets.zip (panel.responses kit s ui),
    e.1.2.enabled = false → e.2.change = none))

/-- The widget of a parameter is a checkbox, and the parameter is no flag. -/
def Unsuited (panel : Panel) (p : Param) : Prop :=
  ∃ w, panel.widget? p = some w ∧ w.spec.control = .checkbox ∧ p.kind ≠ .flag

/-- What is behind a change that a panel reports: a widget that is enabled, if no disabled one
reports anything, and a value of the parameter's kind. -/
theorem exists_widget?_of_change (hwired : panel.Wired) (hquiet : panel.Quiet kit s ui)
    (h : (panel.view kit s ui).change = some (p, value)) :
    ∃ w, panel.widget? p = some w ∧ w.enabled = true ∧ value.kind = p.kind ∧
      (p.kind = .flag → w.spec.control = .checkbox) := by
  obtain ⟨w, response, hmem, hchange⟩ := exists_of_lastChange (change_view kit panel s ui ▸ h)
  have henabled : w.enabled = true := by
    cases hflag : w.enabled with
    | true => rfl
    | false =>
        have hnone := hquiet _ hmem hflag
        simp [hchange] at hnone
  obtain ⟨ui', rfl⟩ := List.forall₂_zip (kit.forall₂_responses ..) hmem
  obtain ⟨hkind, hcheckbox⟩ := kind_of_change hchange
  rw [Settings.kind_get] at hkind hcheckbox
  exact ⟨w, lookup_eq_some_of_mem hwired.nodup (List.of_mem_zip hmem).1, henabled, hkind, hcheckbox⟩

/-- A widget that suits its parameter takes the values of the parameter, numbers if they are finite
and its range bounds something. -/
theorem takes_of_kind (hranges : panel.RangesBound) {w : Widget} (hw : panel.widget? p = some w)
    (hflag : p.kind = .flag → w.spec.control = .checkbox) (hsuited : ¬ panel.Unsuited p)
    (hkind : value.kind = p.kind) (hfinite : ∀ x ∈ value.number?, x.isFinite = true) :
    w.spec.Takes value := by
  cases value with
  | flag b => exact hflag hkind.symm
  | number x =>
      have hcontrol : w.spec.control ≠ .checkbox := by
        intro hcheckbox
        refine hsuited ⟨w, hw, hcheckbox, ?_⟩
        rw [← hkind]
        simp [Value.kind]
      exact ⟨hcontrol, hfinite x rfl, hranges _ (mem_specs_of_widget? hw) hcontrol⟩

/-- A checkbox refuses every number. -/
theorem edit_number_of_checkbox {form : Form} {w : Widget} (hw : form.panel.widget? p = some w)
    (henabled : w.enabled = true) (hcheckbox : w.spec.control = .checkbox) (x : Binary32) :
    form.edit p (.number x) = (.error (.refused (.typeMismatch ⟨p, .flag⟩)), form) := by
  have hkind : w.spec.kind = .flag := WidgetSpec.kind_eq_flag_iff.2 hcheckbox
  have hvalid : w.spec.validate p (.number x) = .error (.refused (.typeMismatch ⟨p, .flag⟩)) := by
    simp only [WidgetSpec.validate, hkind]
  have hfound : (form.exec (Form.widgetFor p)).1 = .ok w :=
    Form.widgetFor_eq_ok_iff.2 ⟨hw, henabled⟩
  unfold Form.edit Form.editing
  rw [Form.exec_bind, (Form.reads_widgetFor p).exec_eq, hfound]
  simp only [Form.exec_bind, Form.exec_accept, hvalid]

/-- **Which of the changes that are offered are carried out.**  In a panel that is built, whatever
its flags are, and whose ranges bound something, take any toolkit, and any frame in which no disabled
control reports a change, and let the panel report a flag or a finite number.  Then the edit is
carried out unless the widget is a checkbox on a parameter that is no flag; and there it is refused
for its kind, and the form is left as it was. -/
theorem edit_of_change_iff (hbuilt : panel.Built) (hranges : panel.RangesBound)
    (hquiet : panel.Quiet kit s ui) (h : (panel.view kit s ui).change = some (p, value))
    (hfinite : ∀ x ∈ value.number?, x.isFinite = true) :
    ((∃ outcome form', Form.edit ⟨panel, s⟩ p value = (.ok outcome, form')) ↔
        ¬ panel.Unsuited p) ∧
      (panel.Unsuited p →
        Form.edit ⟨panel, s⟩ p value =
          (.error (.refused (.typeMismatch ⟨p, .flag⟩)), ⟨panel, s⟩)) := by
  obtain ⟨w, hw, henabled, hkind, hflag⟩ := exists_widget?_of_change hbuilt.wired hquiet h
  have hrefused : panel.Unsuited p → Form.edit ⟨panel, s⟩ p value =
      (.error (.refused (.typeMismatch ⟨p, .flag⟩)), ⟨panel, s⟩) := by
    rintro ⟨w', hw', hcheckbox, hnumber⟩
    obtain rfl := Option.some.inj (hw.symm.trans hw')
    cases value with
    | flag b => exact absurd hkind.symm hnumber
    | number x => exact edit_number_of_checkbox hw henabled hcheckbox x
  refine ⟨⟨?_, ?_⟩, hrefused⟩
  · rintro ⟨outcome, form', hedit⟩ hunsuited
    rw [hrefused hunsuited] at hedit
    simp at hedit
  · intro hsuited
    have htakes := takes_of_kind hranges hw hflag hsuited hkind hfinite
    have hform : (⟨panel, s⟩ : Form).panel.widget? p = some w := hw
    obtain ⟨settings, -, hedit⟩ := Form.edit_of_accepts hbuilt.wired hform henabled htakes hkind
    exact ⟨_, _, hedit⟩

/-- In the panel of the brush, with the size disabled by the flag, a distance that is set on a desktop
is carried out. -/
theorem edit_of_change_iff_of_disabled_size :
    let panel := freshBrushPanel.setFlag .offset false
    let s : Settings := { mouseOffset := true }
    let ui := ({ inputs := [.setValue 0 25] } : ControlFrame).ui
    panel.Built ∧ panel.RangesBound ∧ panel.Quiet desktop s ui ∧
      (panel.view desktop s ui).change = some (.distance, .number 25) ∧
      (∀ x ∈ (Value.number 25).number?, x.isFinite = true) ∧ ¬ panel.Unsuited .distance ∧
      ∃ outcome form', Form.edit ⟨panel, s⟩ .distance (.number 25) = (.ok outcome, form') := by
  intro panel s ui
  have hbuilt : panel.Built := by
    rw [built_iff]
    decide
  have hranges : panel.RangesBound := by
    unfold RangesBound
    decide
  have hquiet : panel.Quiet desktop s ui := by decide +kernel
  have hchange : (panel.view desktop s ui).change = some (.distance, .number 25) := by
    decide +kernel
  have hfinite : ∀ x ∈ (Value.number 25).number?, x.isFinite = true := by decide +kernel
  have hsuited : ¬ panel.Unsuited .distance := by
    rintro ⟨w, hw, hcheckbox, -⟩
    obtain rfl := Option.some.inj hw
    simp at hcheckbox
  exact ⟨hbuilt, hranges, hquiet, hchange, hfinite, hsuited,
    (edit_of_change_iff hbuilt hranges hquiet hchange hfinite).1.2 hsuited⟩

/-- A panel offers what it refuses: a checkbox that is registered for the size is shown as a number
field, and the number that is set in it is not taken. -/
theorem edit_of_unsuited_checkbox :
    let registrations : List Registration := [(.offset, { label := "Size", control := .checkbox })]
    let ui := ({ inputs := [.setValue 0 20] } : ControlFrame).ui
    ∃ panel, build "T" registrations = .ok panel ∧ panel.RangesBound ∧
      panel.Quiet desktop .default ui ∧
      (panel.view desktop .default ui).change = some (.offset, .number 20) ∧
      (20 : Binary32).isFinite = true ∧
      Form.edit ⟨panel, .default⟩ .offset (.number 20) =
        (.error (.refused (.typeMismatch ⟨.offset, .flag⟩)), ⟨panel, .default⟩) := by
  refine ⟨_, rfl, ?_, ?_, ?_, ?_, rfl⟩
  · unfold RangesBound
    decide
  · decide +kernel
  · decide +kernel
  · decide +kernel

end Panel

end StripeBrush
