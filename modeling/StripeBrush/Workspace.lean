/-
**Workspaces: a session and the drawing that it draws into.**

Main definitions:

* `Workspace`, with `Workspace.start`;
* `Workspace.Op`, `Workspace.apply`, `Workspace.run` — operations of the session, and the two that
  touch the drawing alone.

Main results:

* `Workspace.drawing_perform` — an operation of the session adds exactly the stripes that it draws,
  at the end of the drawing.
-/

import StripeBrush.Drawing
import StripeBrush.Session

set_option relaxedAutoImplicit false
set_option autoImplicit false

namespace StripeBrush

/-- A session and its drawing. -/
structure Workspace where
  session : Session
  drawing : Drawing
deriving DecidableEq

namespace Workspace

/-- A new session with an empty drawing. -/
def start (preset : Settings) (style : Style) : Except Fault Workspace :=
  (Session.start preset).map fun session => ⟨session, { defaultStyle := style }⟩

/-- The drawing with the stripes that a session drew. -/
def draw (w : Workspace) (segments : List Segment) (session : Session) : Workspace :=
  ⟨session, segments.foldl Drawing.addLine w.drawing⟩

/-- An operation of the session: its answer, and the workspace after it. -/
def perform (w : Workspace) (op : Session.Op) : Session.Reply × Workspace :=
  let step := w.session.apply op
  (step.reply, w.draw step.drawn step.session)

/-- An operation. -/
inductive Op where
  | session (op : Session.Op)
  | addPath (path : Path)
  | clear
deriving DecidableEq

/-- One operation: its answer, and the workspace after it. -/
def apply (w : Workspace) : Op → Session.Reply × Workspace
  | .session op => w.perform op
  | .addPath path => (.done, { w with drawing := w.drawing.addPath path })
  | .clear => (.done, { w with drawing := w.drawing.clear })

/-- A sequence of operations: their answers, and the workspace after all. -/
def run (w : Workspace) : List Op → List Session.Reply × Workspace
  | [] => ([], w)
  | op :: ops =>
    let (reply, w') := w.apply op
    let (replies, last) := w'.run ops
    (reply :: replies, last)

/-- An operation of the session adds exactly the stripes that it draws, at the end. -/
theorem drawing_perform (w : Workspace) (op : Session.Op) :
    (w.perform op).2.drawing.paths = w.drawing.paths ++
      (w.session.apply op).drawn.map (Path.line · w.drawing.defaultStyle) :=
  (w.drawing.paths_foldl_addLine _).1

end Workspace

end StripeBrush
