/-
**What one position does to a sampler.**

A drag starts at a point if that is finite, and goes on until it is ended: no position that is fed
to the sampler in between starts or ends it.  The point that a drag starts at completes no sample
itself, and where jumps are not split every position completes at most one.

Main results:

* `Sampler.isActive_sample` — feeding a position neither starts nor ends a drag;
* `Sampler.sample_begin` — the point that a drag starts at completes no sample;
* `Sampler.length_sample_le` — **a position completes at most one sample**.
-/

import StripeBrush.Proofs.Binary.Sums
import StripeBrush.Sampler

set_option relaxedAutoImplicit false
set_option autoImplicit false

namespace StripeBrush.Sampler

variable {s : Sampler}

@[simp] theorem isActive_begin (s : Sampler) (point : Vec) :
    (s.begin point).isActive = point.isFinite := by
  unfold begin isActive
  cases point.isFinite <;> rfl

@[simp] theorem isActive_finish (s : Sampler) : s.finish.isActive = false := rfl

@[simp] theorem isActive_setMinDistance (s : Sampler) (minDistance : Binary32) :
    (s.setMinDistance minDistance).isActive = s.isActive := rfl

/-- Feeding a position neither starts nor ends a drag. -/
@[simp] theorem isActive_sample (s : Sampler) (point : Vec) :
    (s.sample point).2.isActive = s.isActive := by
  rw [sample_anchor]
  split
  · rename_i haccepted
    obtain ⟨anchor, hanchor, -⟩ := (Option.any_eq_true ..).1 haccepted
    simp [isActive, hanchor]
  · rfl

/-- The point that a drag starts at completes no sample. -/
theorem sample_begin (s : Sampler) (point : Vec) : ((s.begin point).sample point).1 = [] := by
  cases hfinite : point.isFinite with
  | false => simp [begin, sample, hfinite]
  | true =>
      have hrejected : (s.begin point).accepts point point = false := by
        simp [accepts, Vec.length_sub_self_le hfinite]
      have hanchor : (s.begin point).anchor = some point := by simp [begin, hfinite]
      simp [sample, hanchor, hrejected]

/-- **A position completes at most one sample**, where jumps are not split. -/
theorem length_sample_le (h : s.maxDistance = none) (point : Vec) :
    (s.sample point).1.length ≤ 1 := by
  unfold sample
  split
  · simp
  · split
    · simp [jump, h]
    · simp

end StripeBrush.Sampler
