/-
**Points and vectors of the canvas.**

A point and a movement are both a pair of single precision coordinates; the second one grows
downwards.  Operations act on the coordinates one by one, and each is rounded on its own.

Main definitions:

* `Vec.length` — the length, computed in double precision and rounded to single precision;
* `Vec.normalized`, `Vec.withLength` — the same direction with length one, or with a given length;
* `Vec.rotate`, `Vec.rotateDegrees` — rotation, counter-clockwise as seen on the canvas;
* `Vec.midpointBehind` — the point halfway back along a movement.

Main results:

* `Vec.length_swap`, `Vec.length_neg_x`, `Vec.length_neg_y` — the length ignores the order and the
  signs of the coordinates.
-/

import StripeBrush.Binary.Trig

set_option relaxedAutoImplicit false
set_option autoImplicit false

namespace StripeBrush

/-- A point of the canvas, or a movement on it. -/
structure Vec where
  x : Binary32
  y : Binary32
deriving DecidableEq

namespace Vec

instance : Add Vec := ⟨fun a b => ⟨a.x + b.x, a.y + b.y⟩⟩
instance : Sub Vec := ⟨fun a b => ⟨a.x - b.x, a.y - b.y⟩⟩
instance : HMul Vec Binary32 Vec := ⟨fun v k => ⟨v.x * k, v.y * k⟩⟩
instance : HDiv Vec Binary32 Vec := ⟨fun v k => ⟨v.x / k, v.y / k⟩⟩

/-- Both coordinates are finite. -/
def isFinite (v : Vec) : Bool := v.x.isFinite && v.y.isFinite

/-! ### Length -/

/-- The length.  It is infinite as soon as one coordinate is, even beside `NaN`; otherwise the
coordinates are squared, added and the root is taken in double precision, and the result is rounded
to single precision. -/
def length (v : Vec) : Binary32 :=
  if v.x.isInf || v.y.isInf then .inf false
  else
    let x := v.x.convert Format.binary64
    let y := v.y.convert Format.binary64
    (x * x + y * y).sqrt.convert Format.binary32

/-- The distance between two points. -/
def distance (a b : Vec) : Binary32 := (a - b).length

theorem length_swap (v : Vec) : length ⟨v.y, v.x⟩ = v.length := by
  simp only [length, Bool.or_comm, Binary.add_comm]

theorem length_neg_x (v : Vec) : length ⟨-v.x, v.y⟩ = v.length := by
  have h : (-v.x).isInf = v.x.isInf := by cases v.x <;> rfl
  simp only [length, h, Binary.convert_neg, Binary.neg_mul_neg]

theorem length_neg_y (v : Vec) : length ⟨v.x, -v.y⟩ = v.length := by
  have h : (-v.y).isInf = v.y.isInf := by cases v.y <;> rfl
  simp only [length, h, Binary.convert_neg, Binary.neg_mul_neg]

/-- The vector divided by its length; one that has no positive length, or that has none at all, is
kept or becomes `NaN` as the division has it. -/
def normalized (v : Vec) : Vec := if v.length ≤ 0 then v else v / v.length

/-- The vector rescaled to `length`, keeping its direction.  Only a vector of finite positive length
has a direction, and only a finite length can be given to it. -/
def withLength (v : Vec) (length : Binary32) : Option Vec :=
  let current := v.length
  if current.isFinite = false ∨ current ≤ 0 ∨ length.isFinite = false then none
  else some (v * (length / current))

/-! ### Rotation -/

/-- The vector turned by `angle` radians.  Positive angles turn counter-clockwise as seen on the
canvas, whose second coordinate grows downwards: a quarter turn takes `(1, 0)` to `(0, -1)`. -/
def rotate (v : Vec) (angle : Binary32) : Vec :=
  let sin := angle.sin
  let cos := angle.cos
  ⟨v.x * cos + v.y * sin, -v.x * sin + v.y * cos⟩

/-- The vector turned by an angle in degrees. -/
def rotateDegrees (v : Vec) (degrees : Binary32) : Vec := v.rotate degrees.toRadians

/-- The point halfway between `point` and the point `delta` before it. -/
def midpointBehind (point delta : Vec) : Vec := point - delta / (2 : Binary32)

end Vec

end StripeBrush
