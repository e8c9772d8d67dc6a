/-
**The window: side panel, border and canvas, and the pointer over them.**

The window is divided by an upright border, with the side panel to the left of it and the canvas to
the right.  The border has a handle, a narrow strip to both sides of it.  A press takes hold of the
canvas or of the border, which then moves along with the pointer, and the corner of the canvas with
it.  While the border is held the canvas reports no drag.

Handle and canvas overlap.  There the handle comes first, as long as the canvas is wide enough to be
hit beside it.  A canvas that lies within the handle from end to end comes first wherever the handle
is pressed.  A press on neither of them takes hold of the nearer one, if that is near enough.

Main definitions:

* `Strip` — a part of the window between two upright lines;
* `Grip`, `Window` — what the pointer holds on to, and where the border is;
* `Window.partAt` — **what a press takes hold of**;
* `Window.after` — the window after a frame, and `Window.report` — what the canvas reports in it.
-/

import StripeBrush.Pointer

set_option relaxedAutoImplicit false
set_option autoImplicit false

namespace StripeBrush

/-! ### Strips -/

/-- The part of the window between two upright lines. -/
structure Strip where
  left : Binary32
  right : Binary32
deriving DecidableEq

namespace Strip

/-- The width of a strip. -/
def width (s : Strip) : Binary32 := s.right - s.left

/-- How far `x` is from a strip: zero on the strip, edges included. -/
def away (s : Strip) (x : Binary32) : Binary32 :=
  if x < s.left then s.left - x else if s.right < x then x - s.right else 0

/-- Whether `x` is on the strip. -/
def covers (s : Strip) (x : Binary32) : Bool := decide (s.away x ≤ 0)

/-- Whether a strip lies within another one from end to end. -/
def isWithin (s t : Strip) : Bool := decide (t.left ≤ s.left) && decide (s.right ≤ t.right)

end Strip

/-! ### The pointer -/

/-- What the pointer holds on to. -/
inductive Grip where
  /-- Nothing: the button is up, or it went down on the side panel. -/
  | none
  /-- The canvas, where the pointer was last seen. -/
  | canvas (last : Vec)
  /-- The border between side panel and canvas. -/
  | border
deriving DecidableEq

/-- What happens to the pointer in a frame.  Positions count from where the corner of the canvas is
at the start. -/
inductive PointerInput where
  | still
  | press (pos : Vec)
  | move (pos : Vec)
  | release (pos : Vec)
deriving DecidableEq

/-- A part of the window that a press can take hold of. -/
inductive WindowPart where
  | border
  | canvas
deriving DecidableEq

/-! ### The window -/

/-- The corner of the canvas at the start.  What the side panel shows leaves it no narrower. -/
def homeCorner : Vec := ⟨248, 0⟩

/-- The window: where the corner of the canvas is, and what the pointer holds on to. -/
structure Window where
  corner : Vec := homeCorner
  grip : Grip := .none
deriving DecidableEq

namespace Window

/-- The width of the window. -/
def width : Binary32 := 2000

/-- How far the handle of the border reaches to either side of it. -/
def handleReach : Binary32 := 5

/-- How far a press may be from what it takes hold of. -/
def pressReach : Binary32 := 5

/-- The strip of the canvas. -/
def canvas (window : Window) : Strip := ⟨window.corner.x, width⟩

/-- The strip of the handle, as far as it is in the window. -/
def handle (window : Window) : Strip :=
  let right := window.corner.x + handleReach
  ⟨window.corner.x - handleReach, if width < right then width else right⟩

/-- What a press at `x` takes hold of.  On the canvas that is the border where the handle is there,
too, and at most half as wide as the canvas, else the canvas; on the handle alone it is the border,
unless the canvas lies within the handle; beside both it is the nearer one within reach. -/
def partAt (window : Window) (x : Binary32) : Option WindowPart :=
  let handle := window.handle
  let canvas := window.canvas
  if canvas.covers x then
    some (if handle.covers x ∧ handle.width ≤ canvas.width / 2 then .border else .canvas)
  else if handle.covers x then
    some (if canvas.isWithin handle then .canvas else .border)
  else if handle.away x < canvas.away x then
    if handle.away x ≤ pressReach then some .border else none
  else
    if canvas.away x ≤ pressReach then some .canvas else none

/-- The side panel's width while its border is pulled to `x`: as far as the pointer is from the edge
of the window, to either side of it, but no narrower than what it shows and no wider than the
window.  It is as wide as the window where the distance is no number. -/
def sideWidth (x : Binary32) : Binary32 :=
  if x.abs ≤ width then max x.abs homeCorner.x else width

/-- The window with its border pulled to the pointer. -/
def pull (window : Window) (pos : Vec) : Window :=
  { corner := ⟨sideWidth pos.x, window.corner.y⟩, grip := .border }

/-- The window after the button went down.  A border that is taken hold of comes to the pointer at
once. -/
def press (window : Window) (pos : Vec) : Window :=
  match window.partAt pos.x with
  | none => { window with grip := .none }
  | some .border => window.pull pos
  | some .canvas => { window with grip := .canvas pos }

/-- The window with the pointer at another place. -/
def moveTo (window : Window) (pos : Vec) : Window :=
  match window.grip with
  | .none => window
  | .canvas _ => { window with grip := .canvas pos }
  | .border => window.pull pos

/-- The window after what happens to the pointer in a frame.  Another press of a button that holds
something is a move. -/
def after (window : Window) : PointerInput → Window
  | .still => window
  | .press pos =>
    if window.grip = .none then window.press (pos + homeCorner)
    else window.moveTo (pos + homeCorner)
  | .move pos => window.moveTo (pos + homeCorner)
  | .release _ => { window with grip := .none }

/-- Where the canvas is held, if it is. -/
def heldAt (window : Window) : Option Vec :=
  match window.grip with
  | .canvas last => some last
  | _ => none

/-- What the canvas reports between one state of the window and the next: that a drag started where
it is held now and was not before, that it goes on while it is held, moved or not, and that it
stopped where it is not held any more. -/
def report (before now : Window) : CanvasInput :=
  { started := now.heldAt.isSome && before.heldAt.isNone
    dragged := now.heldAt.isSome
    stopped := before.heldAt.isSome && now.heldAt.isNone
    pos := now.heldAt
    corner := now.corner }

end Window

end StripeBrush
