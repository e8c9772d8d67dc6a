/-
**Sliders.**

A slider starts from inside its range, which is no change, and can be set.  It has a number field of
its own, which starts from where the slider stands and may be set by itself; the slider is shown
where it stood before that.  The field writes as many decimals as tell neighbouring points of the
slider apart.

A slider is at a part of the way from one end of its range to the other.  There is no such part
where an end is infinite, and no slider.

Main definitions:

* `Range.isEndless` — whether a range is too long for a slider;
* `WideRange.pointWorth` — what a point of the slider is worth;
* `Slider.entry` — **what a slider and its number field make of a frame**.
-/

import StripeBrush.Desktop.NumberField

set_option relaxedAutoImplicit false
set_option autoImplicit false

namespace StripeBrush

/-! ### Ranges of sliders -/

/-- Whether a range goes from one end to another one, and an end of it is infinite. -/
def Range.isEndless (r : Range) : Bool :=
  !r.lo.isNaN && !r.hi.isNaN && !r.lo.numEq r.hi && (r.lo.isInf || r.hi.isInf)

namespace WideRange

/-- How many points a slider has for its whole range, on the display of the desktop. -/
def sliderTravel : Binary64 := 85.6

/-- How much a point is worth to a slider that stands at `x`: how far the values half a point to
either side, but not beyond the range, are apart. -/
def pointWorth (r : WideRange) (x : Binary64) : Binary64 :=
  let ⟨lo, hi⟩ := r.ordered
  let half := (hi - lo) / (2 * sliderTravel)
  let above := if hi < x + half then hi else x + half
  let below := if x - half < lo then lo else x - half
  above - below

end WideRange

/-! ### Sliders -/

/-- A slider: its number among the controls, which its number field comes next after, its range, and
whether it is enabled. -/
structure Slider where
  control : Nat
  range : WideRange
  enabled : Bool
deriving DecidableEq

namespace Slider

/-- The number field of a slider that stands at `stood`. -/
def field (slider : Slider) (stood : Binary64) : NumberField where
  control := slider.control + 1
  range := slider.range
  decimals := decimalsFor (slider.range.pointWorth stood)
  enabled := slider.enabled

/-- Where a slider comes to stand that is moved to `x`. -/
def settle (slider : Slider) (x : Binary64) : Binary64 :=
  slider.range.moveInto
    (((slider.range.moveInto x).convert Format.binary32).convert Format.binary64)

/-- The slider that is shown for `x`, and its number field.  It reports a change where it was moved or
its number field gave another number. -/
def entry (slider : Slider) (frame : ControlFrame) (now : Option Focus) (x : Binary32) :
    Response Binary32 × Option Focus :=
  let initial := slider.range.moveInto (x.convert Format.binary64)
  let stood := slider.settle ((frame.lastSet? slider.control).getD initial)
  let response := (slider.field stood).respond frame now stood
  let kept := response.stored.numEq stood
  let stored := (if kept then stood else response.stored).convert Format.binary32
  ({ shown := [.slider (stood.convert Format.binary32) slider.enabled,
       .number (response.shown.convert Format.binary32) slider.enabled]
     change := if stood.numEq initial && kept then none else some stored },
    response.focus)

end Slider

end StripeBrush
