/-
**Input to the controls of a desktop.**

The controls of a frame are numbered, counted over all that take input, and the input of the frame
is addressed to them by number.  A number that is entered in a control is moved into the range of
the control in double precision; it is stored in single precision.

Main definitions:

* `ControlInput` — one input;
* `Focus` — the number field that is typed in;
* `ControlFrame` — what the controls of a frame start from, and `DesktopUi` — what one of them does;
* `WideRange.moveInto` — **a number moved into a range**.
-/

import StripeBrush.Controls.Toolkit

set_option relaxedAutoImplicit false
set_option autoImplicit false

namespace StripeBrush

/-! ### Input -/

/-- One input to the controls. -/
inductive ControlInput where
  | click (control : Nat)
  | setValue (control : Nat) (value : Binary64)
  /-- The button of the pointer goes down, beside all controls. -/
  | pressBeside
deriving DecidableEq

/-- The number field that is typed in: its number among the controls, and the number that its text
stands for.  It has a text from the first frame on that shows it with the focus. -/
structure Focus where
  control : Nat
  draft : Option Binary64 := none
deriving DecidableEq

/-- What the controls of a frame start from: the inputs of the frame, and the focus before it. -/
structure ControlFrame where
  inputs : List ControlInput := []
  focus : Option Focus := none
deriving DecidableEq

namespace ControlFrame

/-- Whether a control is clicked. -/
def clicked (frame : ControlFrame) (control : Nat) : Bool := .click control ∈ frame.inputs

/-- Whether the button of the pointer goes down beside all controls. -/
def pressedBeside (frame : ControlFrame) : Bool := .pressBeside ∈ frame.inputs

/-- The value that a control is last set to. -/
def lastSet? (frame : ControlFrame) (control : Nat) : Option Binary64 :=
  frame.inputs.reverse.findSome? fun
    | .setValue c value => if c = control then some value else none
    | _ => none

end ControlFrame

/-- What a control starts from: the frame that it is shown in, its number, and the focus as the
controls before it have left it. -/
structure DesktopUi where
  frame : ControlFrame
  control : Nat := 0
  focus : Option Focus := none
deriving DecidableEq

/-- What the first control of a frame starts from. -/
def ControlFrame.ui (frame : ControlFrame) : DesktopUi := { frame, focus := frame.focus }

/-! ### Ranges -/

/-- A range in double precision. -/
structure WideRange where
  lo : Binary64
  hi : Binary64
deriving DecidableEq

/-- The range of a widget in double precision. -/
def Range.widen (r : Range) : WideRange :=
  ⟨r.lo.convert Format.binary64, r.hi.convert Format.binary64⟩

namespace WideRange

/-- The range that holds everything. -/
def full : WideRange := ⟨.inf true, .inf false⟩

/-- A range with its ends in order. -/
def ordered (r : WideRange) : WideRange :=
  if r.hi.totalKey < r.lo.totalKey then ⟨r.hi, r.lo⟩ else r

/-- A number moved into a range.  The ends of the range are taken in order, and zeros are told
apart: what is not above the lower end becomes the lower end, and what is not below the upper end,
as `NaN` never is, becomes the upper end. -/
def moveInto (r : WideRange) (x : Binary64) : Binary64 :=
  let ⟨lo, hi⟩ := r.ordered
  if x.totalKey ≤ lo.totalKey then lo else if hi.totalKey ≤ x.totalKey then hi else x

end WideRange

end StripeBrush
