/-
**What a panel shows.**

In every frame a panel is shown afresh from the settings: its title, and for every widget a label
and the control that suits both the widget and its parameter.  The panel reports a change, if any of
its controls does.

Main definitions:

* `Toolkit.showWidget` — the control of a widget;
* `PanelView` — what a panel shows in a frame, and the change that it reports;
* `Panel.view` — **a panel in a frame**; the change is that of the last widget that reports one.
-/

import StripeBrush.Controls.Toolkit
import StripeBrush.Panel.Basic

set_option relaxedAutoImplicit false
set_option autoImplicit false

namespace StripeBrush

variable {Ui : Type}

/-! ### Widgets -/

/-- By how much a number changes for each point that its field is dragged. -/
def dragSpeed : Binary32 := 0.5

/-- The control of a widget: a checkbox for a flag, a slider for a number with a range, else a number
field.  A flag that is no checkbox shows nothing. -/
def Toolkit.showWidget (kit : Toolkit Ui) (widget : Widget) (value : Value) (ui : Ui) :
    Response Value × Ui :=
  let enabled := widget.enabled
  match widget.spec.control, value, widget.spec.range with
  | .checkbox, .flag checked, _ =>
    let (response, ui) := kit.checkbox enabled checked ui
    (response.map .flag, ui)
  | .slider, .number x, some range =>
    let (response, ui) := kit.slider enabled range x ui
    (response.map .number, ui)
  | _, .number x, range =>
    let (response, ui) := kit.number enabled dragSpeed range x ui
    (response.map .number, ui)
  | _, .flag _, _ => (⟨[], none⟩, ui)

/-! ### Panels -/

/-- What a panel shows in a frame, the change that it reports, and the state of the toolkit after
it. -/
structure PanelView (Ui : Type) where
  nodes : List Node
  change : Option (Param × Value) := none
  ui : Ui
deriving DecidableEq

/-- The view with a widget after all others: its label, and its control. -/
def PanelView.add (kit : Toolkit Ui) (s : Settings) (view : PanelView Ui) (e : Param × Widget) :
    PanelView Ui :=
  let (p, widget) := e
  let (label, ui) := kit.label widget.enabled widget.spec.label view.ui
  let (response, ui) := kit.showWidget widget (s.get p) ui
  { nodes := view.nodes ++ label ++ response.shown
    change := (response.change.map fun value => (p, value)).or view.change
    ui }

/-- A panel in a frame. -/
def Panel.view (kit : Toolkit Ui) (panel : Panel) (s : Settings) (ui : Ui) : PanelView Ui :=
  let (title, ui) := kit.label true panel.title ui
  panel.widgets.foldl (PanelView.add kit s) { nodes := title, ui }

end StripeBrush
