/-
**Sine and cosine of single precision numbers.**

Both are computed in fixed point, with four hundred binary places, and rounded once.  The argument
is reduced by whole quarter turns, so that only the sine of an angle between zero and a quarter turn
is needed; there the alternating series

```
sin x = x * (1 - x² / (2 * 3) * (1 - x² / (4 * 5) * (1 - …)))
```

falls below the last place within fifty terms.  The largest single precision number holds fewer than
`2 ^ 128` quarter turns, so that the reduced angle is right to more than two hundred and fifty
places, far beyond what the nearest number of the format depends on.

Main definitions:

* `Angle.quarterTurn` — a quarter turn in fixed point, and `Angle.sine` — the sine up to there;
* `Binary.sin`, `Binary.cos` — **the nearest numbers to sine and cosine**;
* `Binary.toRadians` — degrees to radians.

Main results:

* `Binary.sin_neg`, `Binary.cos_neg` — sine is odd and cosine even, bit for bit.
-/

import StripeBrush.Binary.Arith

set_option relaxedAutoImplicit false
set_option autoImplicit false

namespace StripeBrush

attribute [local instance (high)] instPowNat

namespace Angle

/-! ### Fixed point angles -/

/-- The number of binary places of a fixed point angle. -/
def places : Nat := 400

/-- One, in fixed point. -/
def unit : Nat := 2 ^ places

/-- A quarter turn, half of `π`, in fixed point. -/
def quarterTurn : Nat :=
  4056188623365485619431135675650447259580575800089632601795595518807615452686995249372761680463408407713783389863663788118

/-- The first `terms` terms of the series of `sin x / x` from term `k` on, divided by the term
before, where `y` is the square of the angle. -/
def sineSeries (y : Nat) : Nat → Nat → Nat
  | 0, _ => unit
  | terms + 1, k => unit - y * sineSeries y terms (k + 1) / (unit * (2 * k * (2 * k + 1)))

/-- The sine of an angle of at most a quarter turn. -/
def sine (x : Nat) : Nat := x * sineSeries (x * x / unit) 50 1 / unit

/-- The sine of an angle: whether it is negative, and its magnitude.  Every second quarter turn runs
back, and the two of the second half of the turn are negative. -/
def sineOfAngle (x : Nat) : Bool × Nat :=
  let quarter := x / quarterTurn % 4
  let rest := x % quarterTurn
  (decide (2 ≤ quarter), sine (if quarter % 2 = 0 then rest else quarterTurn - rest))

/-- The cosine of an angle is the sine of the angle a quarter turn further. -/
def cosineOfAngle (x : Nat) : Bool × Nat := sineOfAngle (x + quarterTurn)

end Angle

namespace Binary

/-- The fixed point angle of the magnitude at an index. -/
def angle (i : Fin Format.binary32.infIndex) : Nat :=
  Format.binary32.magnitude i * 2 ^ (Angle.places - Format.binary32.scale)

/-- The number nearest to a fixed point value. -/
def ofFixed (neg : Bool) (v : Nat) : Binary32 :=
  ofQuanta Format.binary32 neg v (2 ^ (Angle.places - Format.binary32.scale))

/-- The sine of an angle in radians; an infinite angle has none. -/
def sin : Binary32 → Binary32
  | finite s i =>
    let (below, v) := Angle.sineOfAngle (angle i)
    ofFixed (s != below) v
  | inf s => nan s
  | nan s => nan s

/-- The cosine of an angle in radians; an infinite angle has none. -/
def cos : Binary32 → Binary32
  | finite _ i =>
    let (below, v) := Angle.cosineOfAngle (angle i)
    ofFixed below v
  | _ => nan false

/-- One degree in radians: the nearest number to `π`, divided by `180`. -/
def degree : Binary32 := ofBits Format.binary32 0x3c8efa35

/-- Degrees turned into radians. -/
def toRadians (degrees : Binary32) : Binary32 := degrees * degree

/-- Sine is odd. -/
theorem sin_neg (x : Binary32) : (-x).sin = -x.sin := by
  cases x with
  | nan s => rfl
  | inf s => rfl
  | finite s i =>
      have hflip : ∀ a b : Bool, ((!a) != b) = !(a != b) := by decide
      change ofFixed ((!s) != (Angle.sineOfAngle (angle i)).1) (Angle.sineOfAngle (angle i)).2 =
        -(ofFixed (s != (Angle.sineOfAngle (angle i)).1) (Angle.sineOfAngle (angle i)).2)
      unfold ofFixed
      rw [neg_ofQuanta, hflip]

/-- Cosine is even. -/
theorem cos_neg (x : Binary32) : (-x).cos = x.cos := by
  cases x <;> rfl

end Binary

end StripeBrush
