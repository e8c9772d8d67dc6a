/-
**What a panel shows.**

A toolkit may do what it likes, as long as two things can be relied on.  A control shows itself, with
the flag that it was added with; and a control that reports no change in a frame shows the value that
it was given, if that is in its range.  Nothing is said about a control that reports a change: it may
show the old value or the new one, or what is on the way from one to the other.

Then a panel shows its title and after it every widget in order, with its flag and with its value, but
for the controls that report a change; and the change that the panel reports is that of the last of
them.

Main definitions:

* `Toolkit.Faithful` — **what is relied on of a toolkit**;
* `Widget.Shows` — what the control of a widget shows;
* `Panel.responses` — the responses of a panel's controls, and `lastChange` — the last change among
  them.

Main results:

* `Toolkit.Faithful.shows` — the control that is chosen for a widget shows its value;
* `Panel.nodes_view`, `Panel.forall₂_responses` — **what a panel shows**;
* `Panel.change_view` — **the change that a panel reports**;
* `kind_of_change` — what a control reports has the kind of its parameter.
-/

import Mathlib.Data.List.Forall2
import StripeBrush.Controls.View
import StripeBrush.Proofs.Binary.SameValue
import StripeBrush.Proofs.Panel.Clamping

set_option relaxedAutoImplicit false
set_option autoImplicit false

namespace StripeBrush

variable {Ui : Type} {kit : Toolkit Ui}

/-! ### Controls -/

namespace Response

variable {α β : Type} {f : α → β} {response : Response α}

/-- The response of a checkbox that is added for a flag. -/
def ShowsFlag (response : Response α) (enabled checked : Bool) : Prop :=
  ∃ b, response.shown = [.checkbox b enabled] ∧ (response.change = none → b = checked)

/-- The response of a number field that is added for a number. -/
def ShowsNumber (response : Response α) (enabled : Bool) (x : Binary32) : Prop :=
  ∃ y, response.shown = [.number y enabled] ∧ (response.change = none → y.SameValue x)

/-- The response of a slider and its number field that are added for a number. -/
def ShowsSlider (response : Response α) (enabled : Bool) (x : Binary32) : Prop :=
  ∃ y z, response.shown = [.slider y enabled, .number z enabled] ∧
    (response.change = none → y.SameValue x ∧ z.SameValue x)

@[simp] theorem shown_map : (response.map f).shown = response.shown := rfl

@[simp] theorem change_map_eq_none : (response.map f).change = none ↔ response.change = none :=
  Option.map_eq_none_iff

theorem ShowsFlag.map {enabled checked : Bool} (h : response.ShowsFlag enabled checked) :
    (response.map f).ShowsFlag enabled checked := by
  simpa [ShowsFlag] using h

theorem ShowsNumber.map {enabled : Bool} {x : Binary32} (h : response.ShowsNumber enabled x) :
    (response.map f).ShowsNumber enabled x := by
  simpa [ShowsNumber] using h

theorem ShowsSlider.map {enabled : Bool} {x : Binary32} (h : response.ShowsSlider enabled x) :
    (response.map f).ShowsSlider enabled x := by
  simpa [ShowsSlider] using h

theorem kind_of_map {f : α → Value} {kind : Kind} {changed : Value} (hf : ∀ a, (f a).kind = kind)
    (h : (response.map f).change = some changed) : changed.kind = kind := by
  obtain ⟨a, -, rfl⟩ := Option.map_eq_some_iff.1 h
  exact hf a

end Response

/-- **What is relied on of a toolkit**: a control shows itself, with the flag that it was added with,
and the value that it was given, unless it reports a change.  Numbers are shown up to the sign of a
zero, and those outside the range of their control may be shown as other ones. -/
structure Toolkit.Faithful (kit : Toolkit Ui) : Prop where
  label : ∀ enabled text ui, (kit.label enabled text ui).1 = [.label text enabled]
  button : ∀ text ui, (kit.button text ui).1.shown = [.button text true]
  checkbox : ∀ enabled checked ui, (kit.checkbox enabled checked ui).1.ShowsFlag enabled checked
  slider : ∀ enabled range x ui, range.Contains x →
    (kit.slider enabled range x ui).1.ShowsSlider enabled x
  number : ∀ enabled speed range x ui, (∀ r ∈ range, r.Contains x) →
    (kit.number enabled speed range x ui).1.ShowsNumber enabled x

/-! ### Widgets -/

/-- A value that is a number is in the range of the widget, if there is one. -/
def WidgetSpec.Holds (spec : WidgetSpec) (value : Value) : Prop :=
  ∀ x ∈ value.number?, ∀ r ∈ spec.range, r.Contains x

/-- What the control of a widget shows for a value. -/
def Widget.Shows (widget : Widget) (value : Value) (response : Response Value) : Prop :=
  match widget.spec.control, value, widget.spec.range with
  | .checkbox, .flag checked, _ => response.ShowsFlag widget.enabled checked
  | .slider, .number x, some _ => response.ShowsSlider widget.enabled x
  | _, .number x, _ => response.ShowsNumber widget.enabled x
  | _, .flag _, _ => response.shown = [] ∧ response.change = none

section Widgets

variable {widget : Widget} {value changed : Value}

/-- The control that is chosen for a widget shows its value, unless it reports a change. -/
theorem Toolkit.Faithful.shows (h : kit.Faithful) (hvalue : widget.spec.Holds value) (ui : Ui) :
    widget.Shows value (kit.showWidget widget value ui).1 := by
  obtain ⟨⟨label, control, range, effect⟩, enabled⟩ := widget
  cases value with
  | flag checked =>
      cases control with
      | checkbox => exact (h.checkbox enabled checked ui).map
      | number => cases range <;> exact ⟨rfl, rfl⟩
      | slider => cases range <;> exact ⟨rfl, rfl⟩
  | number x =>
      have hx := hvalue x rfl
      have hnumber := (h.number enabled dragSpeed range x ui hx).map (f := Value.number)
      cases control with
      | checkbox => cases range <;> exact hnumber
      | number => cases range <;> exact hnumber
      | slider =>
          cases range with
          | none => exact hnumber
          | some r => exact (h.slider enabled r x ui (hx r rfl)).map

/-- **What a control reports has the kind of its parameter**, and only a checkbox reports a flag. -/
theorem kind_of_change {ui : Ui} (h : (kit.showWidget widget value ui).1.change = some changed) :
    changed.kind = value.kind ∧ (value.kind = .flag → widget.spec.control = .checkbox) := by
  obtain ⟨⟨label, control, range, effect⟩, enabled⟩ := widget
  cases value with
  | flag checked =>
      cases control with
      | checkbox => exact ⟨Response.kind_of_map (f := Value.flag) (fun _ => rfl) h, fun _ => rfl⟩
      | number => cases range <;> simp [Toolkit.showWidget] at h
      | slider => cases range <;> simp [Toolkit.showWidget] at h
  | number x =>
      refine ⟨?_, fun hflag => by simp [Value.kind] at hflag⟩
      cases control <;> cases range <;>
        exact Response.kind_of_map (f := Value.number) (fun _ => rfl) h

end Widgets

/-! ### Panels -/

/-- The last change among the responses of some widgets. -/
def lastChange : List ((Param × Widget) × Response Value) → Option (Param × Value)
  | [] => none
  | (e, response) :: rest =>
    (lastChange rest).or (response.change.map fun value => (e.1, value))

/-- What widgets show one after the other, each its label and then its control. -/
def shownNodes (responses : List ((Param × Widget) × Response Value)) : List Node :=
  responses.flatMap fun e => .label e.1.2.spec.label e.1.2.enabled :: e.2.shown

/-- The responses of the controls of some widgets, one after the other. -/
def Toolkit.responses (kit : Toolkit Ui) (s : Settings) :
    Ui → List (Param × Widget) → List (Response Value)
  | _, [] => []
  | ui, (p, widget) :: rest =>
    let (response, ui) :=
      kit.showWidget widget (s.get p) (kit.label widget.enabled widget.spec.label ui).2
    response :: kit.responses s ui rest

namespace PanelView

variable {s : Settings} {view : PanelView Ui} {widgets : List (Param × Widget)}

theorem nodes_foldl_add (h : kit.Faithful) :
    (widgets.foldl (add kit s) view).nodes =
      view.nodes ++ shownNodes (widgets.zip (kit.responses s view.ui widgets)) := by
  induction widgets generalizing view with
  | nil => simp [shownNodes]
  | cons e widgets ih =>
      rw [List.foldl_cons, ih]
      simp [add, Toolkit.responses, shownNodes, h.label]

/-- The change that is reported after some widgets is the last one among theirs, or else the one from
before. -/
theorem change_foldl_add : (widgets.foldl (add kit s) view).change =
    (lastChange (widgets.zip (kit.responses s view.ui widgets))).or view.change := by
  induction widgets generalizing view with
  | nil => rfl
  | cons e widgets ih =>
      rw [List.foldl_cons, ih]
      exact Option.or_assoc.symm

end PanelView

/-- A change that is reported by some widgets is one of theirs. -/
theorem exists_of_lastChange {responses : List ((Param × Widget) × Response Value)} {p : Param}
    {value : Value} (h : lastChange responses = some (p, value)) :
    ∃ widget response, ((p, widget), response) ∈ responses ∧ response.change = some value := by
  induction responses with
  | nil => simp [lastChange] at h
  | cons e rest ih =>
      obtain ⟨⟨q, widget⟩, response⟩ := e
      rcases Option.or_eq_some_iff.1 h with hrest | ⟨-, hfirst⟩
      · obtain ⟨widget', response', hmem, hchange⟩ := ih hrest
        exact ⟨widget', response', List.mem_cons_of_mem _ hmem, hchange⟩
      · obtain ⟨changed, hchange, heq⟩ := Option.map_eq_some_iff.1 hfirst
        obtain ⟨rfl, rfl⟩ := Prod.mk.inj heq
        exact ⟨widget, response, List.mem_cons_self .., hchange⟩

/-- The response of every widget is that of its control, somewhere on the way. -/
theorem Toolkit.forall₂_responses (kit : Toolkit Ui) (s : Settings) (ui : Ui)
    (widgets : List (Param × Widget)) :
    List.Forall₂ (fun e response => ∃ ui, response = (kit.showWidget e.2 (s.get e.1) ui).1) widgets
      (kit.responses s ui widgets) := by
  induction widgets generalizing ui with
  | nil => exact .nil
  | cons e widgets ih => exact .cons ⟨_, rfl⟩ (ih _)

namespace Panel

variable {panel : Panel} {s : Settings} {ui : Ui} {p : Param} {value : Value}

/-- The responses of the controls of a panel, in the order of its widgets. -/
def responses (kit : Toolkit Ui) (panel : Panel) (s : Settings) (ui : Ui) : List (Response Value) :=
  kit.responses s (kit.label true panel.title ui).2 panel.widgets

/-- **A panel shows its title and then every widget in order**: its label, and its control. -/
theorem nodes_view (h : kit.Faithful) (panel : Panel) (s : Settings) (ui : Ui) :
    (panel.view kit s ui).nodes =
      .label panel.title true :: shownNodes (panel.widgets.zip (panel.responses kit s ui)) := by
  refine (PanelView.nodes_foldl_add h).trans ?_
  rw [h.label]
  rfl

/-- Every control shows the value of its parameter, unless it reports a change. -/
theorem forall₂_responses (h : kit.Faithful)
    (hvalues : ∀ e ∈ panel.widgets, e.2.spec.Holds (s.get e.1)) (ui : Ui) :
    List.Forall₂ (fun e response => e.2.Shows (s.get e.1) response) panel.widgets
      (panel.responses kit s ui) := by
  have hresponses := kit.forall₂_responses s (kit.label true panel.title ui).2 panel.widgets
  refine ((List.forall₂_and_left _ _).2 ⟨hvalues, hresponses⟩).imp ?_
  rintro e response ⟨hvalue, ui', rfl⟩
  exact h.shows hvalue ui'

/-- **The change that a panel reports** is the last one among those of its controls. -/
theorem change_view (kit : Toolkit Ui) (panel : Panel) (s : Settings) (ui : Ui) :
    (panel.view kit s ui).change = lastChange (panel.widgets.zip (panel.responses kit s ui)) :=
  PanelView.change_foldl_add.trans Option.or_none

end Panel

end StripeBrush
