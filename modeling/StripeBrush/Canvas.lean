/-
**Painting a drawing.**

A path is painted as one open line through its points, moved to the place of the canvas in the
window.  Its cap shows at the two ends: a round cap paints a disc at each, a square cap pushes the
end points outwards by half the width of the stroke.

A painter is handed the shapes, and may make another stroke of the one that a line comes with.

Main definitions:

* `Shape` — what is painted;
* `Painter` — what a painter makes of a stroke;
* `cappedPoints` — the points of the line that is stroked;
* `Path.shapes`, `Drawing.shapes` — **the shapes of a drawing, in order**.

Main results:

* `length_cappedPoints` — a cap adds no point;
* `cappedPoints_of_ne_square` — only a square cap moves points.
-/

import StripeBrush.Drawing

set_option relaxedAutoImplicit false
set_option autoImplicit false

namespace StripeBrush

/-- A shape as it is painted. -/
inductive Shape where
  /-- A filled disc. -/
  | circle (center : Vec) (radius : Binary32) (color : Color)
  /-- An open line through some points. -/
  | line (points : List Vec) (width : Binary32) (color : Color)
deriving DecidableEq

/-! ### Caps -/

/-- An end point pushed away from its neighbour by `reach`; it stays where it is when the direction
between the two is not finite. -/
def pushOut (reach : Binary32) (tip neighbour : Vec) : Vec :=
  let direction := (tip - neighbour).normalized
  if direction.isFinite then tip + direction * reach else tip

/-- The points after `previous`, the last of them pushed out. -/
def pushOutLast (reach : Binary32) (previous : Vec) : List Vec → List Vec
  | [] => []
  | [tip] => [pushOut reach tip previous]
  | point :: next :: rest => point :: pushOutLast reach point (next :: rest)

/-- The points of the line that is stroked: a square cap pushes both end points out by half the
width, each seen from its neighbour on the path; other caps leave the points as they are. -/
def cappedPoints (style : Style) (points : List Vec) : List Vec :=
  match style.cap, points with
  | .square, first :: second :: rest =>
    let reach := style.width / 2
    pushOut reach first second :: pushOutLast reach first (second :: rest)
  | _, points => points

@[simp] theorem length_pushOutLast (reach : Binary32) (previous : Vec) (points : List Vec) :
    (pushOutLast reach previous points).length = points.length := by
  fun_induction pushOutLast reach previous points with
  | case1 => rfl
  | case2 => rfl
  | case3 _ _ _ _ ih => simp [ih]

/-- A cap adds no point and drops none. -/
@[simp] theorem length_cappedPoints (style : Style) (points : List Vec) :
    (cappedPoints style points).length = points.length := by
  unfold cappedPoints
  split <;> simp

/-- Only a square cap moves points. -/
theorem cappedPoints_of_ne_square {style : Style} (h : style.cap ≠ .square) (points : List Vec) :
    cappedPoints style points = points := by
  unfold cappedPoints
  split
  · exact absurd ‹_› h
  · rfl

/-! ### Shapes -/

/-- A painter: the width and the colour in which it strokes a line that comes with a width and a
colour. -/
structure Painter where
  stroke : Binary32 → Color → Binary32 × Color

/-- The shapes of a path on a canvas whose corner is `origin`.  A lone point shows only under a
round cap. -/
def Path.shapes (painter : Painter) (origin : Vec) (path : Path) : List Shape :=
  let style := path.style
  let stroke := painter.stroke style.width style.color
  let disc (center : Vec) : List Shape :=
    if style.cap = .round then [.circle center (style.width / 2) style.color] else []
  match (cappedPoints style path.points).map (· + origin) with
  | [] => []
  | [point] => disc point
  | first :: second :: rest =>
    disc first ++ disc ((second :: rest).getLast (by simp)) ++
      [.line (first :: second :: rest) stroke.1 stroke.2]

/-- The shapes of a drawing, path by path. -/
def Drawing.shapes (painter : Painter) (origin : Vec) (drawing : Drawing) : List Shape :=
  drawing.paths.flatMap (Path.shapes painter origin)

end StripeBrush
