/-
**The geometry of a stripe.**

Every sample of a drag is a point and the movement since the sample before.  It yields at most one
stripe: a bar across the movement, centred halfway back along it, so that a drag leaves a trail of
parallel bars.  The bar reaches to both sides as far as the settings say, either a fixed offset or
the length of the movement itself.

Main definitions:

* `Sample` and `Segment`;
* `Settings.step` — the vector that is turned to both sides;
* `Settings.stripe` — **the stripe of a sample**, none where it would be degenerate;
* `Phase` — whether the brush is in a drag, with `Phase.stripe`, which draws only then, and
  `Phase.after`, the phase after a `Signal`.

Main results:

* `Settings.stripe_isFinite` — the ends of a stripe are finite;
* `Settings.stripe_length_pos` — and a stripe has positive length.
-/

import StripeBrush.Settings
import StripeBrush.Vec

set_option relaxedAutoImplicit false
set_option autoImplicit false

namespace StripeBrush

/-- One sample of a drag: where the pointer is, and how it moved since the sample before. -/
structure Sample where
  point : Vec
  delta : Vec
deriving DecidableEq

/-- A straight segment. -/
structure Segment where
  start : Vec
  stop : Vec
deriving DecidableEq

/-- The length of a segment. -/
def Segment.length (s : Segment) : Binary32 := s.start.distance s.stop

namespace Settings

/-- The vector that a stripe reaches to each side, before it is turned: the movement itself where
the offset follows the pointer, else the movement rescaled to the fixed offset.  A movement without
a direction has none. -/
def step (s : Settings) (delta : Vec) : Option Vec :=
  if delta.isFinite = false ∨ delta.length ≤ 0 then none
  else if s.mouseOffset then some delta
  else delta.withLength s.offset

/-- The stripe of a sample: from the point a quarter turn clockwise of the step to the one a quarter
turn counter-clockwise of it, around the point halfway back.  There is none where the sample is not
finite, the movement has no direction, an end is not finite, or both ends fall together. -/
def stripe (s : Settings) (sample : Sample) : Option Segment :=
  if sample.point.isFinite then
    match s.step sample.delta with
    | none => none
    | some step =>
      let middle := sample.point.midpointBehind sample.delta
      let segment : Segment :=
        ⟨middle + step.rotateDegrees (-90), middle + step.rotateDegrees 90⟩
      if segment.start.isFinite ∧ segment.stop.isFinite ∧ 0 < segment.length then some segment
      else none
  else none

theorem stripe_ends {s : Settings} {sample : Sample} {segment : Segment}
    (h : s.stripe sample = some segment) :
    segment.start.isFinite ∧ segment.stop.isFinite ∧ 0 < segment.length := by
  unfold stripe at h
  split at h
  · split at h
    · simp at h
    · simp only at h
      split at h
      · rename_i hends
        obtain rfl := Option.some.inj h
        exact hends
      · simp at h
  · simp at h

/-- The ends of a stripe are finite. -/
theorem stripe_isFinite {s : Settings} {sample : Sample} {segment : Segment}
    (h : s.stripe sample = some segment) :
    segment.start.isFinite ∧ segment.stop.isFinite :=
  ⟨(stripe_ends h).1, (stripe_ends h).2.1⟩

/-- A stripe has positive length. -/
theorem stripe_length_pos {s : Settings} {sample : Sample} {segment : Segment}
    (h : s.stripe sample = some segment) : 0 < segment.length :=
  (stripe_ends h).2.2

end Settings

/-! ### The phase of a drag -/

/-- Whether the brush is in a drag. -/
inductive Phase where
  | idle
  | dragging
deriving DecidableEq

namespace Phase

/-- The name of a phase, for display. -/
def name : Phase → String
  | idle => "Idle"
  | dragging => "Dragging"

/-- The stripe that the brush draws for a sample: none outside a drag. -/
def stripe (phase : Phase) (s : Settings) (sample : Sample) : Option Segment :=
  match phase with
  | idle => none
  | dragging => s.stripe sample

end Phase

/-- What the brush is told: that it is picked up or put down, and that the button goes down or is
released. -/
inductive Signal where
  | pickedUp
  | putDown
  | pressed
  | released
deriving DecidableEq

/-- The phase after a signal: a drag lasts from a press to whatever comes next. -/
def Phase.after : Signal → Phase
  | .pressed => .dragging
  | _ => .idle

end StripeBrush
