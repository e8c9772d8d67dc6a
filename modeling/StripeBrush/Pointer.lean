/-
**Pointer events on the canvas.**

What the host reports for the canvas in one frame — that a drag started, goes on or stopped, and
where the pointer is — becomes a short list of events.  Their positions are relative to the corner
of the canvas, so that a drawing does not depend on where the canvas sits in the window.

Main definitions:

* `PointerEvent`;
* `CanvasInput` and `CanvasInput.events` — **the events of one frame**.
-/

import StripeBrush.Vec

set_option relaxedAutoImplicit false
set_option autoImplicit false

namespace StripeBrush

/-- An event on the canvas. -/
inductive PointerEvent where
  /-- The primary button went down. -/
  | down (pos : Vec)
  /-- The pointer is at `pos` while the button is held. -/
  | move (pos : Vec)
  /-- The button was released. -/
  | up
deriving DecidableEq

/-- What happened on the canvas in one frame: the three flags of a drag, the position of the pointer
in the window, if it is known, and the corner of the canvas. -/
structure CanvasInput where
  started : Bool
  dragged : Bool
  stopped : Bool
  pos : Option Vec
  corner : Vec
deriving DecidableEq

namespace CanvasInput

/-- The pointer's position on the canvas. -/
def localPos (input : CanvasInput) : Option Vec := input.pos.map (· - input.corner)

/-- The events of one frame: a press, then a move, both only where the position is known, then a
release. -/
def events (input : CanvasInput) : List PointerEvent :=
  let ifKnown (flag : Bool) (event : Vec → PointerEvent) : List PointerEvent :=
    if flag then (input.localPos.map event).toList else []
  ifKnown input.started .down ++ ifKnown input.dragged .move ++
    if input.stopped then [.up] else []

end CanvasInput

end StripeBrush
