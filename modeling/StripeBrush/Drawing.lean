/-
**Drawings.**

A drawing is a flat list of open polylines, each with the style that it is stroked in, and a style
for the stripes that are still to come.

Main definitions:

* `Color`, `Cap`, `Style`;
* `Path`, with `Path.line`, `Path.addPoint`, `Path.segmentLengths` and `Path.length`;
* `Drawing`, with `Drawing.addPath`, `Drawing.addLine` and `Drawing.clear`.

Main results:

* `Drawing.paths_addLine` — a line is added at the end, in the drawing's own style.
-/

import StripeBrush.Stripe

set_option relaxedAutoImplicit false
set_option autoImplicit false

namespace StripeBrush

/-! ### Styles -/

/-- A colour in premultiplied components. -/
structure Color where
  red : UInt8
  green : UInt8
  blue : UInt8
  alpha : UInt8
deriving DecidableEq

/-- Opaque black. -/
def Color.black : Color := ⟨0, 0, 0, 255⟩

/-- The colour that leaves no trace. -/
def Color.transparent : Color := ⟨0, 0, 0, 0⟩

/-- How the open ends of a path are drawn. -/
inductive Cap where
  /-- The stroke ends at the end point. -/
  | butt
  /-- A disc around each end point. -/
  | round
  /-- The stroke goes on for half its width beyond each end point. -/
  | square
deriving DecidableEq

/-- How a path is stroked. -/
structure Style where
  color : Color := Color.black
  width : Binary32 := 1
  cap : Cap := .butt
deriving DecidableEq

/-! ### Paths -/

/-- An open polyline with its style. -/
structure Path where
  points : List Vec
  style : Style
deriving DecidableEq

namespace Path

/-- A single straight segment. -/
def line (segment : Segment) (style : Style) : Path := ⟨[segment.start, segment.stop], style⟩

/-- The path with one more point at its end. -/
def addPoint (path : Path) (point : Vec) : Path := { path with points := path.points ++ [point] }

/-- The distances between neighbouring points, in order. -/
def segmentLengths : List Vec → List Binary32
  | a :: b :: rest => a.distance b :: segmentLengths (b :: rest)
  | _ => []

/-- The length of a path: the distances added up in order, each sum rounded.  The sum starts from
negative zero, which is what no distance at all adds up to. -/
def length (path : Path) : Binary32 :=
  (segmentLengths path.points).foldl (· + ·) (Binary.zero Format.binary32 true)

end Path

/-! ### Drawings -/

/-- The paths of a drawing, in the order they are painted in, and the style of new stripes. -/
structure Drawing where
  paths : List Path := []
  defaultStyle : Style := {}
deriving DecidableEq

namespace Drawing

/-- The drawing with one more path at the end. -/
def addPath (d : Drawing) (path : Path) : Drawing := { d with paths := d.paths ++ [path] }

/-- The drawing with one more segment at the end, in the style of the drawing. -/
def addLine (d : Drawing) (segment : Segment) : Drawing := d.addPath (.line segment d.defaultStyle)

/-- The drawing without its paths. -/
def clear (d : Drawing) : Drawing := { d with paths := [] }

theorem paths_addLine (d : Drawing) (segment : Segment) :
    (d.addLine segment).paths = d.paths ++ [.line segment d.defaultStyle] := rfl

/-- Adding segments one after the other. -/
theorem paths_foldl_addLine (d : Drawing) (segments : List Segment) :
    (segments.foldl addLine d).paths = d.paths ++ segments.map (Path.line · d.defaultStyle) ∧
      (segments.foldl addLine d).defaultStyle = d.defaultStyle := by
  induction segments generalizing d with
  | nil => simp
  | cons s rest ih =>
      obtain ⟨h1, h2⟩ := ih (d.addLine s)
      rw [paths_addLine, List.append_assoc] at h1
      exact ⟨h1, h2⟩

end Drawing

end StripeBrush
