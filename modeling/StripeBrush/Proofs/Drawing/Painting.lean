/-
**What a drawing is painted as.**

The shapes of a drawing are those of its paths, in order.  A path without points gives none, and a
lone point gives a disc under a round cap and nothing under any other.  Two points or more give one
open line, through the points that the cap leaves, moved to the place of the canvas in the window; a
round cap puts two discs before it, on the ends of that very line.

The line comes with the width and the colour of its path.  A painter keeps them, unless there is
nothing to be seen of them: a line without a positive width, or in the transparent colour, is painted
as an empty stroke, which has neither.

Main definitions:

* `Style.Invisible` — a line in this style is not to be seen;
* `Painter.Lawful` — **what a painter does with a stroke**;
* `Path.StrokedThrough` — the points of the line that is painted for a path;
* `Path.PaintedAs` — **what is painted for a path**, by the number of its points.

Main results:

* `Path.strokedThrough_map` — the points of the line;
* `Path.shapes_of_cons_cons` — the shapes of a path of two points or more;
* `Drawing.painted_path_by_path` — **the shapes of a drawing**;
* `Drawing.shapes_of_no_width` — a line of width zero loses its colour.
-/

import StripeBrush.Desktop.Painter
import StripeBrush.Proofs.Drawing.Caps

set_option relaxedAutoImplicit false
set_option autoImplicit false

namespace StripeBrush

/-! ### The points of a line -/

/-- A line in this style is not to be seen. -/
def Style.Invisible (style : Style) : Prop := style.width ≤ 0 ∨ style.color = .transparent

/-- What a painter does with a stroke: it keeps one that is to be seen, and makes an empty stroke of
any other. -/
structure Painter.Lawful (painter : Painter) : Prop where
  stroke_of_not_invisible : ∀ style : Style, ¬ style.Invisible →
    painter.stroke style.width style.color = (style.width, style.color)
  stroke_of_invisible : ∀ style : Style, style.Invisible →
    painter.stroke style.width style.color = (0, .transparent)

theorem desktopPainter_lawful : desktopPainter.Lawful where
  stroke_of_not_invisible _ h := if_neg h
  stroke_of_invisible _ h := if_pos h

namespace Path

variable {painter : Painter} {origin : Vec} {path : Path}

/-- A line goes through the points of a path: there are as many of them, each of them is the capped
point of its place, moved by `origin`, and so it is the path's own point, moved by `origin`, unless it
is an end under a square cap. -/
structure StrokedThrough (origin : Vec) (path : Path) (points : List Vec) : Prop where
  length_eq : points.length = path.points.length
  capped : ∀ (i : ℕ) (p : Vec), (cappedPoints path.style path.points)[i]? = some p →
    points[i]? = some (p + origin)
  kept : ∀ (i : ℕ) (p : Vec), path.points[i]? = some p →
    path.style.cap ≠ .square ∨ 0 < i ∧ i + 1 < path.points.length → points[i]? = some (p + origin)

/-- The capped points, moved one by one, make such a line. -/
theorem strokedThrough_map (origin : Vec) (path : Path) :
    path.StrokedThrough origin ((cappedPoints path.style path.points).map (· + origin)) where
  length_eq := by simp
  capped := by
    intro i p hp
    rw [List.getElem?_map, hp]
    rfl
  kept := by
    intro i p hp hstays
    have hsame : (cappedPoints path.style path.points)[i]? = path.points[i]? := by
      rcases hstays with hcap | ⟨hlo, hhi⟩
      · rw [cappedPoints_of_ne_square hcap]
      · exact getElem?_cappedPoints_inner hlo hhi
    rw [List.getElem?_map, hsame, hp]
    rfl

/-! ### The shapes of a path -/

/-- **What is painted for a path**: nothing without points; for a lone point a disc under a round cap,
and nothing under any other; for more points one line, and before it under a round cap two discs of
half the width, on the first and the last point of the line. -/
structure PaintedAs (origin : Vec) (path : Path) (shapes : List Shape) : Prop where
  nothing : path.points = [] → shapes = []
  lone : ∀ p, path.points = [p] → shapes =
    if path.style.cap = .round then
      [.circle (p + origin) (path.style.width / 2) path.style.color] else []
  stroked : 2 ≤ path.points.length → ∃ points first last width color,
    path.StrokedThrough origin points ∧
    points[0]? = some first ∧ points[path.points.length - 1]? = some last ∧
    (¬ path.style.Invisible → width = path.style.width ∧ color = path.style.color) ∧
    (path.style.Invisible → width = 0 ∧ color = .transparent) ∧
    shapes = (if path.style.cap = .round then
      [.circle first (path.style.width / 2) path.style.color,
        .circle last (path.style.width / 2) path.style.color] else []) ++
      [.line points width color]

/-- The shapes of a path of two points or more, from the points of its line. -/
theorem shapes_of_cons_cons {first second : Vec} {rest : List Vec}
    (h : (cappedPoints path.style path.points).map (· + origin) = first :: second :: rest) :
    path.shapes painter origin = (if path.style.cap = .round then
      [.circle first (path.style.width / 2) path.style.color,
        .circle ((second :: rest).getLast (by simp)) (path.style.width / 2) path.style.color]
      else []) ++ [.line (first :: second :: rest)
        (painter.stroke path.style.width path.style.color).1
        (painter.stroke path.style.width path.style.color).2] := by
  simp only [shapes, h]
  split <;> rfl

theorem paintedAs_shapes (hpainter : painter.Lawful) (origin : Vec) (path : Path) :
    path.PaintedAs origin (path.shapes painter origin) where
  nothing := by
    intro hpoints
    simp [shapes, hpoints, cappedPoints]
  lone := by
    intro p hpoints
    simp [shapes, hpoints, cappedPoints]
  stroked := by
    intro hlength
    have hstroked := strokedThrough_map origin path
    obtain ⟨first, second, rest, hline⟩ :=
      exists_cons_cons_of_two_le (hlength.trans_eq hstroked.length_eq.symm)
    rw [hline] at hstroked
    have hlast : (first :: second :: rest)[path.points.length - 1]? =
        some ((second :: rest).getLast (by simp)) := by
      rw [← hstroked.length_eq, ← List.getLast?_eq_getElem?, List.getLast?_cons_cons,
        List.getLast?_eq_some_getLast]
    refine ⟨_, first, _, _, _, hstroked, rfl, hlast, fun hvisible => ?_, fun hinvisible => ?_,
      shapes_of_cons_cons hline⟩
    · rw [hpainter.stroke_of_not_invisible _ hvisible]
      exact ⟨rfl, rfl⟩
    · rw [hpainter.stroke_of_invisible _ hinvisible]
      exact ⟨rfl, rfl⟩

end Path

/-! ### The shapes of a drawing -/

namespace Drawing

/-- **The shapes of a drawing are those of its paths, one after the other.** -/
theorem painted_path_by_path {painter : Painter} (hpainter : painter.Lawful) (origin : Vec)
    (drawing : Drawing) :
    ∃ parts, List.Forall₂ (Path.PaintedAs origin) drawing.paths parts ∧
      drawing.shapes painter origin = parts.flatten := by
  refine ⟨drawing.paths.map (Path.shapes painter origin), ?_, rfl⟩
  rw [List.forall₂_map_right_iff, List.forall₂_same]
  exact fun path _ => path.paintedAs_shapes hpainter origin

/-- A drawing of a lone point under a round cap, and of a line of width zero. -/
def pointAndLine : Drawing where
  paths := [⟨[⟨1, 1⟩], { cap := .round }⟩, ⟨[⟨0, 0⟩, ⟨10, 0⟩], { width := 0 }⟩]

theorem painted_path_by_path_of_pointAndLine :
    desktopPainter.Lawful ∧ ∃ parts, List.Forall₂ (Path.PaintedAs ⟨5, 5⟩) pointAndLine.paths parts ∧
      pointAndLine.shapes desktopPainter ⟨5, 5⟩ = parts.flatten :=
  ⟨desktopPainter_lawful, painted_path_by_path desktopPainter_lawful ⟨5, 5⟩ pointAndLine⟩

/-- A line of width zero is not painted in the colour of its path. -/
theorem shapes_of_no_width :
    let path : Path := ⟨[⟨0, 0⟩, ⟨10, 0⟩], { width := 0 }⟩
    let drawing : Drawing := { paths := [path] }
    desktopPainter.Lawful ∧
      drawing.shapes desktopPainter ⟨0, 0⟩ = [.line path.points 0 .transparent] ∧
      ∀ points, .line points path.style.width path.style.color ∉
        drawing.shapes desktopPainter ⟨0, 0⟩ := by
  intro path drawing
  have hshapes : drawing.shapes desktopPainter ⟨0, 0⟩ = [.line path.points 0 .transparent] := by
    decide +kernel
  refine ⟨desktopPainter_lawful, hshapes, fun points hpainted => ?_⟩
  rw [hshapes, List.mem_singleton] at hpainted
  have hcolor : path.style.color = .transparent := (Shape.line.inj hpainted).2.2
  revert hcolor
  decide

end Drawing

end StripeBrush
