/-
**Turning pointer positions into drag samples.**

A sampler thins out the positions of a drag: a sample is taken only once the pointer has moved far
enough from the place of the last one, the *anchor*.  With an upper limit set, a longer jump is
split into evenly spaced samples that end at the pointer.

Main definitions:

* `Sampler`, with `Sampler.ofMinDistance` and `Sampler.withMaxDistance`;
* `Sampler.begin`, `Sampler.finish` — the two ends of a drag;
* `Sampler.accepts` — whether a position completes a sample;
* `Sampler.sample` — **the samples that a position completes**;
* `Sampler.Op`, `Sampler.apply`, `Sampler.run` — sequences of operations as data.

Main results:

* `Sampler.sample_anchor` — an accepted position becomes the anchor, and any other leaves the
  sampler as it is.
-/

import StripeBrush.Stripe

set_option relaxedAutoImplicit false
set_option autoImplicit false

namespace StripeBrush

/-- A sampler: the least travel between two samples, the greatest one if jumps are split, and the
anchor while a drag is on. -/
structure Sampler where
  minDistance : Binary32
  maxDistance : Option Binary32 := none
  anchor : Option Vec := none
deriving DecidableEq

namespace Sampler

/-- A sampler that does not split jumps, outside a drag. -/
def ofMinDistance (minDistance : Binary32) : Sampler := { minDistance }

/-- The sampler with a limit for the length of a jump.  A limit below one is raised to one, and
without a positive finite limit jumps are not split. -/
def withMaxDistance (s : Sampler) (limit : Option Binary32) : Sampler :=
  { s with
    maxDistance := (limit.filter fun m => m.isFinite && decide (0 < m)).map fun m => max m 1 }

/-- The most samples that one jump is split into. -/
def maxSplit : Nat := 1024

/-- A drag is on. -/
def isActive (s : Sampler) : Bool := s.anchor.isSome

/-- The sampler at the start of a drag.  A drag cannot start at a point that is not finite. -/
def begin (s : Sampler) (point : Vec) : Sampler :=
  { s with anchor := if point.isFinite then some point else none }

/-- The sampler after the end of a drag. -/
def finish (s : Sampler) : Sampler := { s with anchor := none }

/-- The sampler with another least travel between two samples. -/
def setMinDistance (s : Sampler) (minDistance : Binary32) : Sampler := { s with minDistance }

/-- Whether a position, seen from the anchor, completes a sample: it is finite and has moved by a
positive distance that is not below the least travel.  A negative least travel counts as zero, and
so does `NaN`. -/
def accepts (s : Sampler) (anchor point : Vec) : Bool :=
  let distance := (point - anchor).length
  point.isFinite && !decide (distance ≤ 0) && !decide (distance < max s.minDistance 0)

/-- The samples of a jump to `point` that is split into `count` equal movements: all points but the
last are counted off from the anchor, and the last one is `point` itself. -/
def splitJump (anchor point : Vec) (count : Nat) : List Sample :=
  let step := (point - anchor) / Binary.ofNat Format.binary32 count
  (List.range count).map fun i =>
    let place := if i + 1 = count then point
      else anchor + step * Binary.ofNat Format.binary32 (i + 1)
    ⟨place, step⟩

/-- The samples of an accepted jump from the anchor to `point`. -/
def jump (s : Sampler) (anchor point : Vec) : List Sample :=
  let delta := point - anchor
  match s.maxDistance with
  | some limit =>
    if limit < delta.length then
      splitJump anchor point ((delta.length / limit).ceilUpTo maxSplit)
    else [⟨point, delta⟩]
  | none => [⟨point, delta⟩]

/-- The samples that a pointer position completes, and the sampler after it. -/
def sample (s : Sampler) (point : Vec) : List Sample × Sampler :=
  match s.anchor with
  | none => ([], s)
  | some anchor =>
    if s.accepts anchor point then (s.jump anchor point, { s with anchor := some point })
    else ([], s)

/-- An accepted position becomes the anchor, and any other leaves the sampler as it is. -/
theorem sample_anchor (s : Sampler) (point : Vec) :
    (s.sample point).2 =
      if s.anchor.any (s.accepts · point) then { s with anchor := some point } else s := by
  unfold sample
  cases s.anchor with
  | none => rfl
  | some a => simp only [Option.any_some]; split <;> rfl

/-! ### Runs of a sampler -/

/-- An operation on a sampler. -/
inductive Op where
  | begin (point : Vec)
  | sample (point : Vec)
  | finish
  | setMinDistance (minDistance : Binary32)
deriving DecidableEq

/-- One operation: the samples that it completes, and the sampler after it. -/
def apply (s : Sampler) : Op → List Sample × Sampler
  | .begin point => ([], s.begin point)
  | .sample point => s.sample point
  | .finish => ([], s.finish)
  | .setMinDistance minDistance => ([], s.setMinDistance minDistance)

/-- A sequence of operations: the samples that each of them completes, and the sampler after
all. -/
def run (s : Sampler) : List Op → List (List Sample) × Sampler
  | [] => ([], s)
  | op :: ops =>
    let (samples, s') := s.apply op
    let (rest, last) := s'.run ops
    (samples :: rest, last)

end Sampler

end StripeBrush
