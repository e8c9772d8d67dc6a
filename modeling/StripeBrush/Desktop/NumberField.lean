/-
**Number fields.**

A number field shows a number, which can be set, and which is moved into the range of the field
whether it was set or not.

A field that is clicked has the focus.  From the next frame on it holds a text, in which the number
is written with few decimals.  The text is read again when the focus goes to a field that is shown
earlier: the field that had it before the frame finds that it has it no more.  Whatever else takes
the focus away leaves the number as it is.  So a number may be rounded as the focus moves on, and it
goes back to what its text says if it was changed from outside in the meantime.

Main definitions:

* `passFor` — whether a text shows a number well enough;
* `written` — **the number that a text stands for**;
* `decimalsFor` — the decimals that show a change of a number;
* `NumberField.respond` — **what a number field makes of a frame**;
* `NumberField.entry` — the number field that is shown for a number.
-/

import StripeBrush.Decimal
import StripeBrush.Desktop.Input

set_option relaxedAutoImplicit false
set_option autoImplicit false

namespace StripeBrush

attribute [local instance (high)] instPowNat

/-! ### The text of a number -/

/-- How far apart two numbers may be, as a part of the larger one, to pass for each other. -/
def textTolerance : Binary32 := 1.9073486328125e-6

/-- Whether two numbers pass for each other: they are equal, or both next to zero, or next to each
other for their size. -/
def passFor (a b : Binary32) : Bool :=
  let larger := max a.abs b.abs
  a.numEq b || decide (larger ≤ textTolerance) || decide ((a - b).abs / larger ≤ textTolerance)

/-- The most decimals that a text ever has. -/
def maxDecimals : Nat := 16

/-- The number that the text of `x` stands for.  The text has `decimals` decimals if those are
enough to pass for `x` in single precision, else one more, or else two more. -/
def written (decimals : Nat) (x : Binary64) : Binary64 :=
  let most := min maxDecimals (decimals + 2)
  let places := (List.range' decimals (most - decimals)).find? fun places =>
    passFor (x.atPlaces Format.binary32 places) (x.convert Format.binary32)
  x.atPlaces Format.binary64 (places.getD most)

/-- The decimals that show a change of a number by `step`, fifteen at most. -/
def decimalsFor (step : Binary64) : Nat :=
  let most := 15
  ((List.range most).find? fun decimals =>
    !decide (Binary.ofNat _ (10 ^ decimals) < 1 / step)).getD most

/-! ### Fields -/

/-- A number field: its number among the controls, the range that its numbers are moved into, the
decimals that it writes at least, and whether it is enabled. -/
structure NumberField where
  control : Nat
  range : WideRange
  decimals : Nat
  enabled : Bool
deriving DecidableEq

namespace NumberField

/-- What a number field makes of a frame: the number that it shows, the number that it stores, and
the focus after it. -/
structure Outcome where
  shown : Binary64
  stored : Binary64
  focus : Option Focus
deriving DecidableEq

/-- Whether a field has the focus. -/
def hasFocus (field : NumberField) (focus : Option Focus) : Bool :=
  focus.any fun f => f.control == field.control

/-- The number that the field's text stands for, if it had the focus before the frame.  A field
whose number was changed has no text from before. -/
def draft? (field : NumberField) (before : Option Focus) (old shown : Binary64) :
    Option Binary64 :=
  if field.hasFocus before && old.numEq shown then before.bind Focus.draft else none

/-- What a field that holds the number `old` makes of a frame, where the controls before it have
left the focus `now`.  A field with the focus keeps it while it is enabled, and until the pointer
goes down elsewhere; a click on a field that is enabled gives it the focus. -/
def respond (field : NumberField) (frame : ControlFrame) (now : Option Focus) (old : Binary64) :
    Outcome :=
  let shown := field.range.moveInto ((frame.lastSet? field.control).getD old)
  let draft := field.draft? frame.focus old shown
  { shown
    stored :=
      if field.hasFocus frame.focus && !field.hasFocus now then
        (draft.map field.range.moveInto).getD shown
      else shown
    focus :=
      if field.hasFocus now then
        if field.enabled && !frame.pressedBeside then
          some ⟨field.control, some (draft.getD (written field.decimals shown))⟩
        else none
      else if field.enabled && frame.clicked field.control then some ⟨field.control, none⟩
      else now }

/-- A number field that holds `x`.  It reports a change where the number that it stores is not the
one that it was shown for. -/
def entry (field : NumberField) (frame : ControlFrame) (now : Option Focus) (x : Binary32) :
    Response Binary32 × Option Focus :=
  let response := field.respond frame now (x.convert Format.binary64)
  let stored := response.stored.convert Format.binary32
  ({ shown := [.number (response.shown.convert Format.binary32) field.enabled]
     change := if stored.numEq x then none else some stored },
    response.focus)

end NumberField

end StripeBrush
