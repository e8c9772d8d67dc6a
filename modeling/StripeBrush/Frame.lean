/-
**Frames of side panel and canvas.**

In a frame the side panel comes first.  The change that its controls report is carried out as an
edit; a refused one is dropped.  Then the drawing is cleared if that was asked for.  What the side
panel shows next are the number of paths and the phase, and after it the pointer events of the
canvas are routed.

Main definitions:

* `Workspace.frame` — **one frame of side panel and canvas**;
* `Workspace.afterFrames` — a workspace after several of them.
-/

import StripeBrush.Controls.View
import StripeBrush.Workspace

set_option relaxedAutoImplicit false
set_option autoImplicit false

namespace StripeBrush

namespace Workspace

variable {Ui : Type}

/-- The label of the button that clears the drawing. -/
def clearLabel : String := "Clear"

/-- The workspace after the change that the panel reports; one that is refused changes nothing. -/
def applyChange (w : Workspace) : Option (Param × Value) → Workspace
  | none => w
  | some (p, value) => (w.perform (.edit p value)).2

/-- The workspace with its drawing cleared, if that was asked for. -/
def clearIf (w : Workspace) (asked : Bool) : Workspace :=
  if asked then { w with drawing := w.drawing.clear } else w

/-- The line with the number of paths. -/
def pathsText (w : Workspace) : String := "Paths: " ++ toString w.drawing.paths.length

/-- The line with the phase of the drag. -/
def phaseText (w : Workspace) : String := "(State: " ++ w.session.phase.name ++ ")"

/-- One frame: the side panel, then the canvas.  It gives what the side panel shows, and the
workspace after the frame. -/
def frame (kit : Toolkit Ui) (w : Workspace) (ui : Ui) (canvas : CanvasInput) :
    PanelView Ui × Workspace :=
  let view := w.session.form.panel.view kit w.session.settings ui
  let w := w.applyChange view.change
  let (clear, ui) := kit.button clearLabel view.ui
  let w := w.clearIf clear.change.isSome
  let (paths, ui) := kit.label true w.pathsText ui
  let (phase, ui) := kit.label true w.phaseText ui
  ({ view with nodes := view.nodes ++ clear.shown ++ paths ++ phase, ui },
    (w.perform (.frame canvas)).2)

/-- The workspace after some frames, each given by the state of the toolkit that it starts from, and
by what is reported for the canvas. -/
def afterFrames (kit : Toolkit Ui) (w : Workspace) (frames : List (Ui × CanvasInput)) : Workspace :=
  frames.foldl (fun w f => (w.frame kit f.1 f.2).2) w

end Workspace

end StripeBrush
