/-
**The controls that panels are built from.**

A panel is shown by a toolkit that is not part of this development.  All that is fixed here is how it
is asked: which control is added, whether it takes input, and the value that it is given; and what
comes back: what the control shows, and the value that it now holds, where that is a change.  What a
toolkit makes of the pointer and the keyboard is its own affair.  It goes by a state of its own, which
every control passes on to the next one.  A control shows its value; with which digits it is drawn, or
what is being typed in its place, is not looked at.

Main definitions:

* `Node` — one thing that is shown;
* `Response` — what comes back from a control;
* `Toolkit` — **the controls**.
-/

import StripeBrush.Panel.Widget

set_option relaxedAutoImplicit false
set_option autoImplicit false

namespace StripeBrush

/-- One thing that is shown, with its value and whether it takes input. -/
inductive Node where
  | label (text : String) (enabled : Bool)
  | number (x : Binary32) (enabled : Bool)
  | slider (x : Binary32) (enabled : Bool)
  | checkbox (checked : Bool) (enabled : Bool)
  | button (text : String) (enabled : Bool)
deriving DecidableEq

/-- What comes back from a control in a frame: what it shows, and the value that it now holds, if it
reports a change. -/
structure Response (α : Type) where
  shown : List Node
  change : Option α
deriving DecidableEq

/-- The same response about a value of another type. -/
def Response.map {α β : Type} (f : α → β) (response : Response α) : Response β :=
  { shown := response.shown, change := response.change.map f }

/-- The controls of a toolkit whose state in a frame is a `Ui`. -/
structure Toolkit (Ui : Type) where
  label (enabled : Bool) (text : String) : Ui → List Node × Ui
  checkbox (enabled checked : Bool) : Ui → Response Bool × Ui
  /-- A slider, with the number field that belongs to it. -/
  slider (enabled : Bool) (range : Range) (x : Binary32) : Ui → Response Binary32 × Ui
  /-- A number field.  While it is dragged the number changes by `speed` for each point. -/
  number (enabled : Bool) (speed : Binary32) (range : Option Range) (x : Binary32) :
    Ui → Response Binary32 × Ui
  /-- A button; being clicked is the change that it reports. -/
  button (text : String) : Ui → Response Unit × Ui

end StripeBrush
