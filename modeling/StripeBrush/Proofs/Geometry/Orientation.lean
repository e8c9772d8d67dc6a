/-
**On which side of a movement the ends of its stripe lie.**

A stripe is drawn from the right of a movement to its left, as seen on the canvas, whose second
coordinate grows downwards: across a movement to the right, it is drawn upwards.  The turn by a
quarter is inexact, since the angle is, and its cosine is no zero; the ends are points around a middle
that may be so far out that it absorbs them.  But both ends go through the same operations, and
before the turns they only differ in the sign of the sine.  Each rounding after it keeps their order,
though it may make them equal in one coordinate; that they are not in both is what the last check of
a stripe sees to.

Main definitions:

* `Segment.Crosses` — a segment goes from the right of a movement to its left.

Main results:

* `Vec.crosses_rotate` — the two turns of a movement by opposite angles;
* `Settings.step_keepsSign` — a step has the signs of its movement;
* `Settings.stripe_crosses` — **every stripe goes from the right of its movement to its left**.
-/

import StripeBrush.Proofs.Geometry.Rescaling

set_option relaxedAutoImplicit false
set_option autoImplicit false

namespace StripeBrush

variable {v w : Vec} {angle : Binary32}

namespace Segment

variable {s : Segment}

/-- The segment goes from the right of a movement to its left: upwards across a movement to the right,
to the right across one downwards, and so for the other two directions.  Coordinates may be equal. -/
structure Crosses (s : Segment) (delta : Vec) : Prop where
  up : 0 ≤ delta.x → s.stop.y ≤ s.start.y
  down : delta.x ≤ 0 → s.start.y ≤ s.stop.y
  right : 0 ≤ delta.y → s.start.x ≤ s.stop.x
  left : delta.y ≤ 0 → s.stop.x ≤ s.start.x

theorem Crosses.of_keepsSign (h : s.Crosses w) (hx : w.x.KeepsSign v.x) (hy : w.y.KeepsSign v.y) :
    s.Crosses v where
  up hpos := h.up (hx.nonneg hpos)
  down hneg := h.down (hx.nonpos hneg)
  right hpos := h.right (hy.nonneg hpos)
  left hneg := h.left (hy.nonpos hneg)

theorem Crosses.add (h : s.Crosses v) (middle : Vec) (hstart : (middle + s.start).isFinite = true)
    (hstop : (middle + s.stop).isFinite = true) :
    Crosses ⟨middle + s.start, middle + s.stop⟩ v := by
  obtain ⟨hmiddle, -⟩ := Vec.isFinite_of_add hstart
  obtain ⟨hmx, hmy⟩ := Bool.and_eq_true_iff.1 hmiddle
  obtain ⟨hax, hay⟩ := Bool.and_eq_true_iff.1 hstart
  obtain ⟨hbx, hby⟩ := Bool.and_eq_true_iff.1 hstop
  have hx := Binary.le_refl (Binary.isNaN_of_isFinite hmx)
  have hy := Binary.le_refl (Binary.isNaN_of_isFinite hmy)
  exact {
    up := fun hpos => Binary.sum_le_sum hby hay hy (h.up hpos)
    down := fun hneg => Binary.sum_le_sum hay hby hy (h.down hneg)
    right := fun hpos => Binary.sum_le_sum hax hbx hx (h.right hpos)
    left := fun hneg => Binary.sum_le_sum hbx hax hx (h.left hneg) }

theorem not_numEq_of_length_pos (hstart : s.start.isFinite = true) (hstop : s.stop.isFinite = true)
    (hpos : 0 < s.length) :
    ¬ (s.start.x.numEq s.stop.x = true ∧ s.start.y.numEq s.stop.y = true) := by
  rintro ⟨hx, hy⟩
  obtain ⟨hax, hay⟩ := Bool.and_eq_true_iff.1 hstart
  obtain ⟨hbx, hby⟩ := Bool.and_eq_true_iff.1 hstop
  have hsame : s.start.SameValue s.stop :=
    ⟨.of_numEq hax hbx hx, .of_numEq hay hby hy⟩
  have hlength : s.length = (s.stop - s.stop).length :=
    (hsame.sub (.refl s.stop)).length_eq
  rw [hlength] at hpos
  exact Binary.not_lt_of_le (Vec.length_sub_self_le hstop) hpos

end Segment

/-! ### Turns -/

/-- **The two turns of a movement by opposite angles** lie on its right and on its left, whatever the
angle is, if it turns to the left. -/
theorem Vec.crosses_rotate (hsin : 0 ≤ angle.sin) (hright : (v.rotate (-angle)).isFinite = true)
    (hleft : (v.rotate angle).isFinite = true) :
    Segment.Crosses ⟨v.rotate (-angle), v.rotate angle⟩ v := by
  have hF : 0 < Format.binary32.infIndex := by decide
  obtain ⟨hax, hay⟩ := Bool.and_eq_true_iff.1 hright
  obtain ⟨hbx, hby⟩ := Bool.and_eq_true_iff.1 hleft
  simp only [Vec.rotate, Binary.sin_neg, Binary.cos_neg] at hax hay hbx hby ⊢
  -- the two turns have the product with the cosine in common
  obtain ⟨hxcos, -⟩ := Binary.isFinite_of_add hax
  obtain ⟨-, hycos⟩ := Binary.isFinite_of_add hay
  obtain ⟨-, hysin⟩ := Binary.isFinite_of_add hbx
  obtain ⟨hxsin, -⟩ := Binary.isFinite_of_add hby
  have hx : v.x.isFinite = true := (Binary.isFinite_of_mul hxcos).1
  have hxcos := Binary.le_refl (Binary.isNaN_of_isFinite hxcos)
  have hycos := Binary.le_refl (Binary.isNaN_of_isFinite hycos)
  constructor
  case up =>
    intro hpos
    have hneg : -v.x ≤ 0 := (Binary.neg_le_zero_iff hF hx).2 hpos
    exact Binary.sum_le_sum hby hay (Binary.mul_le_mul_neg hF hxsin hsin hneg) hycos
  case down =>
    intro hneg
    have hpos : 0 ≤ -v.x := (Binary.zero_le_neg_iff hF hx).2 hneg
    exact Binary.sum_le_sum hay hby (Binary.mul_neg_le_mul hF hxsin hsin hpos) hycos
  case right =>
    intro hpos
    exact Binary.sum_le_sum hax hbx hxcos (Binary.mul_neg_le_mul hF hysin hsin hpos)
  case left =>
    intro hneg
    exact Binary.sum_le_sum hbx hax hxcos (Binary.mul_le_mul_neg hF hysin hsin hneg)

/-! ### Stripes -/

namespace Settings

/-- The step of a movement keeps the signs of its coordinates, if it is finite and the offset is not
below zero. -/
theorem step_keepsSign {s : Settings} {delta step : Vec}
    (hoffset : s.mouseOffset = true ∨ 0 ≤ s.offset) (h : s.step delta = some step)
    (hstep : step.isFinite = true) : step.x.KeepsSign delta.x ∧ step.y.KeepsSign delta.y := by
  unfold Settings.step at h
  split at h
  · simp at h
  · split at h
    case isTrue =>
      obtain rfl := Option.some.inj h
      exact ⟨⟨id, id⟩, ⟨id, id⟩⟩
    case isFalse hfixed => exact Vec.keepsSign_withLength h (hoffset.resolve_left hfixed) hstep

/-- **Every stripe goes from the right of its movement to its left**, and its ends are not equal,
whatever the magnitudes of the point, the movement and the offset are. -/
theorem stripe_crosses {s : Settings} {sample : Sample} {segment : Segment}
    (hoffset : s.mouseOffset = true ∨ 0 ≤ s.offset) (h : s.stripe sample = some segment) :
    segment.Crosses sample.delta ∧
      ¬ (segment.start.x.numEq segment.stop.x = true ∧
        segment.start.y.numEq segment.stop.y = true) := by
  obtain ⟨hstart, hstop, hpos⟩ := stripe_ends h
  refine ⟨?_, Segment.not_numEq_of_length_pos hstart hstop hpos⟩
  obtain ⟨step, hstep, rfl⟩ := exists_step_of_stripe h
  have hsin : 0 ≤ (Binary.toRadians 90).sin := by decide +kernel
  have hright := (Vec.isFinite_of_add hstart).2
  have hleft := (Vec.isFinite_of_add hstop).2
  have hcrosses : Segment.Crosses ⟨step.rotateDegrees (-90), step.rotateDegrees 90⟩ step := by
    unfold Vec.rotateDegrees at hright hleft ⊢
    rw [toRadians_neg_ninety] at hright ⊢
    exact Vec.crosses_rotate hsin hright hleft
  obtain ⟨hx, hy⟩ := step_keepsSign hoffset hstep (Vec.isFinite_of_rotate hleft)
  exact (hcrosses.add _ hstart hstop).of_keepsSign hx hy

/-- The stripe of a movement to the right and upwards, with the settings of a new brush. -/
theorem stripe_crosses_of_movement :
    let s : Settings := {}
    let segment : Segment := ⟨⟨.ofBits _ 0x42d50000, 208⟩, ⟨.ofBits _ 0x42b50000, 196⟩⟩
    (s.mouseOffset = true ∨ 0 ≤ s.offset) ∧
      s.stripe ⟨⟨100, 200⟩, ⟨3, -4⟩⟩ = some segment ∧
      segment.Crosses ⟨3, -4⟩ ∧ ¬ (segment.start.x.numEq segment.stop.x = true ∧
        segment.start.y.numEq segment.stop.y = true) := by
  intro s segment
  have hoffset : s.mouseOffset = true ∨ 0 ≤ s.offset := by decide +kernel
  have hstripe : s.stripe ⟨⟨100, 200⟩, ⟨3, -4⟩⟩ = some segment := by decide +kernel
  exact ⟨hoffset, hstripe, stripe_crosses hoffset hstripe⟩

end Settings

end StripeBrush
