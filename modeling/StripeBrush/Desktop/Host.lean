/-
**The host: a workspace in the window of a desktop.**

Main definitions:

* `Host`, with `Host.start` — the workspace, the window, and which number field is typed in;
* `Host.frame` — **one frame**.
-/

import StripeBrush.Desktop.Controls
import StripeBrush.Desktop.Window
import StripeBrush.Frame

set_option relaxedAutoImplicit false
set_option autoImplicit false

namespace StripeBrush

/-- The host: its workspace, its window, and the number field that is typed in. -/
structure Host where
  workspace : Workspace
  window : Window := {}
  focus : Option Focus := none
deriving DecidableEq

namespace Host

/-- The host with default settings and an empty drawing. -/
def start : Except Fault Host :=
  (Workspace.start .default {}).map fun workspace => { workspace }

/-- What the pointer is to the controls: it never comes over them, but they notice a press. -/
def pressBeside : PointerInput → List ControlInput
  | .press _ => [.pressBeside]
  | _ => []

/-- One frame: what the side panel shows, and the host after the frame. -/
def frame (host : Host) (inputs : List ControlInput) (pointer : PointerInput) : List Node × Host :=
  let window := host.window.after pointer
  let controls : ControlFrame := { inputs := inputs ++ pressBeside pointer, focus := host.focus }
  let (view, workspace) := host.workspace.frame desktop controls.ui (host.window.report window)
  (view.nodes, { workspace, window, focus := view.ui.focus })

end Host

end StripeBrush
