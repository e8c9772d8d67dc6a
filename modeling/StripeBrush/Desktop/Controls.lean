/-
**The controls of a desktop.**

A number outside its range is moved into it as soon as it is shown, which is a change.  A checkbox
takes no click while it is disabled; a number can be set even then, and it is for the panel to
refuse the edit.  All that lasts from one frame to the next is which number field is typed in.

Main definitions:

* `desktop` — **the toolkit of a desktop**;
* `Panel.show` — a panel frame by frame, unless one of its sliders has no end.
-/

import StripeBrush.Controls.View
import StripeBrush.Desktop.Slider

set_option relaxedAutoImplicit false
set_option autoImplicit false

namespace StripeBrush

namespace DesktopUi

/-- What the next control starts from, after some that have left the focus as it is given. -/
def past (ui : DesktopUi) (controls : Nat) (focus : Option Focus) : DesktopUi :=
  { ui with control := ui.control + controls, focus }

/-- A checkbox: a click turns it over. -/
def checkbox (enabled checked : Bool) (ui : DesktopUi) : Response Bool × DesktopUi :=
  let turned := if ui.frame.clicked ui.control && enabled then !checked else checked
  ({ shown := [.checkbox turned enabled]
     change := if turned = checked then none else some turned },
    ui.past 1 ui.focus)

/-- A slider, with its number field. -/
def slider (enabled : Bool) (range : Range) (x : Binary32) (ui : DesktopUi) :
    Response Binary32 × DesktopUi :=
  let slider : Slider := { control := ui.control, range := range.widen, enabled }
  let (response, focus) := slider.entry ui.frame ui.focus x
  (response, ui.past 2 focus)

/-- A number field that stands by itself. -/
def number (enabled : Bool) (speed : Binary32) (range : Option Range) (x : Binary32)
    (ui : DesktopUi) : Response Binary32 × DesktopUi :=
  let field : NumberField := {
    control := ui.control
    range := (range.map Range.widen).getD .full
    decimals := decimalsFor (speed.convert Format.binary64)
    enabled }
  let (response, focus) := field.entry ui.frame ui.focus x
  (response, ui.past 1 focus)

/-- A button. -/
def button (text : String) (ui : DesktopUi) : Response Unit × DesktopUi :=
  ({ shown := [.button text true]
     change := if ui.frame.clicked ui.control then some () else none },
    ui.past 1 ui.focus)

end DesktopUi

/-- The toolkit of a desktop. -/
def desktop : Toolkit DesktopUi where
  label enabled text ui := ([.label text enabled], ui)
  checkbox := DesktopUi.checkbox
  slider := DesktopUi.slider
  number := DesktopUi.number
  button := DesktopUi.button

namespace Panel

/-! ### Panels that cannot be shown -/

/-- A widget that would be shown as a slider without an end. -/
structure EndlessSlider where
  param : Param
  range : Range
deriving DecidableEq

/-- The first widget that would be shown as a slider without an end. -/
def endlessSlider? (panel : Panel) (s : Settings) : Option EndlessSlider :=
  panel.specs.findSome? fun (p, spec) =>
    match spec.control, s.get p, spec.range with
    | .slider, .number _, some range => if range.isEndless then some ⟨p, range⟩ else none
    | _, _, _ => none

/-- A panel frame by frame, each given by its inputs. -/
def views (panel : Panel) (s : Settings) :
    Option Focus → List (List ControlInput) → List (PanelView DesktopUi)
  | _, [] => []
  | focus, inputs :: frames =>
    let frame : ControlFrame := { inputs, focus }
    let view := panel.view desktop s frame.ui
    view :: panel.views s view.ui.focus frames

end Panel

/-- A panel frame by frame, first without the focus anywhere.  A panel with a slider that has no end
is not shown at all. -/
def Panel.show (panel : Panel) (s : Settings) (frames : List (List ControlInput)) :
    Except Panel.EndlessSlider (List (PanelView DesktopUi)) :=
  match panel.endlessSlider? s with
  | some slider => .error slider
  | none => .ok (panel.views s none frames)

end StripeBrush
