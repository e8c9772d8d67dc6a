/-
**A workspace frame by frame.**

A frame of side panel and canvas is nothing but a few operations in a row: the edit that the
controls report, if any, the clearing, if it is asked for, and the pointer events, the press first
and the release last.  So what is drawn in a frame goes by the parameters that were edited in the
same frame, and it is there after a clearing in the same frame.

What the side panel shows of a frame is a mixture.  The flags of the widgets are those from before
the edit, and so are the values, but a control that reports a change may show at once what it was
changed to, whatever becomes of the edit.  The number of paths is the one after the clearing and
before any stripe of the frame, and the phase is the one before the pointer events.

Main definitions:

* `Workspace.panelOps`, `Workspace.canvasOps` — the operations that a frame consists of;
* `Workspace.clears` — whether the drawing is cleared in a frame.

Main results:

* `Workspace.frame_eq_run` — **a frame is a run of operations**;
* `Workspace.run_canvasOps` — the events of a frame one by one;
* `Workspace.nodes_frame` — what is shown below the panel;
* `Workspace.frame_after_frames` — **what a frame does and what it shows**, after any frames.
-/

import StripeBrush.Frame
import StripeBrush.Proofs.Desktop.Faithful
import StripeBrush.Proofs.Session.Activation
import StripeBrush.Proofs.Workspace.Growth

set_option relaxedAutoImplicit false
set_option autoImplicit false

namespace StripeBrush

theorem Session.Coherent.holds {s : Session} (h : s.Coherent) :
    ∀ e ∈ s.form.panel.widgets, e.2.spec.Holds (s.settings.get e.1) := by
  rintro ⟨p, widget⟩ hmem x hx r hr
  have hnodup := (Panel.built_of_specs_eq h.specs_eq).wired.nodup
  refine h.within p widget x (lookup_eq_some_of_mem hnodup hmem) ?_ r hr
  change s.settings.get p = .number x
  cases hvalue : s.settings.get p with
  | number y => simp_all [Value.number?]
  | flag b => simp_all [Value.number?]

namespace Workspace

variable {Ui : Type} {kit : Toolkit Ui} {w : Workspace} {style : Style}

/-! ### The operations of a frame -/

/-- What a frame does before the pointer events: the edit that the controls report, and the clearing
if it is asked for. -/
def panelOps (change : Option (Param × Value)) (cleared : Bool) : List Op :=
  (change.map fun e => .session (.edit e.1 e.2)).toList ++ if cleared then [.clear] else []

/-- The pointer events of a frame, one by one. -/
def canvasOps (canvas : CanvasInput) : List Op :=
  canvas.events.map fun event => .session (.route event)

theorem run_append (w : Workspace) (ops ops' : List Op) :
    (w.run (ops ++ ops')).2 = ((w.run ops).2.run ops').2 := by
  induction ops generalizing w with
  | nil => rfl
  | cons op ops ih => exact ih (w.apply op).2

theorem run_panelOps (w : Workspace) (change : Option (Param × Value)) (cleared : Bool) :
    (w.run (panelOps change cleared)).2 = (w.applyChange change).clearIf cleared := by
  cases change <;> cases cleared <;> rfl

theorem draw_append (w : Workspace) (segments segments' : List Segment) (s s' : Session) :
    w.draw (segments ++ segments') s' = (w.draw segments s).draw segments' s' := by
  simp only [draw, List.foldl_append]

/-- **The events of a frame one by one**: each answers how many stripes it has drawn, and together
they draw what the frame does. -/
theorem run_canvasOps (w : Workspace) (events : List PointerEvent) :
    w.run (events.map fun event => .session (.route event)) =
      ((w.session.routeAll events).1.map fun e => .count e.2.length,
        w.draw (w.session.drawnBy events) (w.session.routeAll events).2) := by
  induction events generalizing w with
  | nil => rfl
  | cons event events ih =>
      simp only [List.map_cons, run, ih]
      refine Prod.ext rfl ?_
      exact (w.draw_append _ _ _ _).symm

/-- Whether the button is clicked that clears the drawing. -/
def clears (kit : Toolkit Ui) (w : Workspace) (ui : Ui) : Bool :=
  (kit.button clearLabel
    (w.session.form.panel.view kit w.session.settings ui).ui).1.change.isSome

/-- **A frame is a run of operations**: an edit, a clearing, and the pointer events. -/
theorem frame_eq_run (kit : Toolkit Ui) (w : Workspace) (ui : Ui) (canvas : CanvasInput) :
    (w.frame kit ui canvas).2 =
      (w.run (panelOps (w.session.form.panel.view kit w.session.settings ui).change
        (w.clears kit ui) ++ canvasOps canvas)).2 := by
  rw [run_append, run_panelOps, canvasOps, run_canvasOps]
  rfl

end Workspace

/-- The events of a frame are a press, a move and a release in this order, each of them once or not
at all. -/
theorem CanvasInput.exists_events_sublist (canvas : CanvasInput) :
    ∃ pos, canvas.events.Sublist [.down pos, .move pos, .up] := by
  obtain ⟨started, dragged, stopped, pos, corner⟩ := canvas
  cases pos with
  | none =>
      refine ⟨corner, ?_⟩
      rw [events_of_pos_none rfl]
      cases stopped <;> simp
  | some pos =>
      refine ⟨pos - corner, ?_⟩
      rw [events_of_pos_some rfl]
      cases started <;> cases dragged <;> cases stopped <;> simp

namespace Workspace

variable {Ui : Type} {kit : Toolkit Ui} {w : Workspace} {style : Style}

/-! ### Before the pointer events -/

theorem drawing_applyChange (w : Workspace) (change : Option (Param × Value)) :
    (w.applyChange change).drawing = w.drawing := by
  cases change <;> rfl

theorem phase_applyChange (w : Workspace) (change : Option (Param × Value)) :
    (w.applyChange change).session.phase = w.session.phase := by
  cases change with
  | none => rfl
  | some e => exact (w.session.drag_edit e.1 e.2).1

@[simp] theorem session_clearIf (w : Workspace) (cleared : Bool) :
    (w.clearIf cleared).session = w.session := by
  cases cleared <;> rfl

theorem paths_clearIf (w : Workspace) (cleared : Bool) :
    (w.clearIf cleared).drawing.paths = if cleared then [] else w.drawing.paths := by
  cases cleared <;> rfl

/-- The number of paths that is shown is the one after the clearing. -/
theorem pathsText_clearIf (w : Workspace) (change : Option (Param × Value)) (cleared : Bool) :
    ((w.applyChange change).clearIf cleared).pathsText =
      "Paths: " ++ toString (if cleared then 0 else w.drawing.paths.length) := by
  rw [pathsText, paths_clearIf, drawing_applyChange]
  cases cleared <;> rfl

theorem phaseText_clearIf (w : Workspace) (change : Option (Param × Value)) (cleared : Bool) :
    ((w.applyChange change).clearIf cleared).phaseText =
      "(State: " ++ w.session.phase.name ++ ")" := by
  rw [phaseText, session_clearIf, phase_applyChange]

/-- The lines below the panel: the button, the number of paths after the clearing, and the phase. -/
theorem nodes_frame (h : kit.Faithful) (w : Workspace) (ui : Ui) (canvas : CanvasInput) :
    (w.frame kit ui canvas).1.nodes =
      (w.session.form.panel.view kit w.session.settings ui).nodes ++ [.button clearLabel true,
        .label ("Paths: " ++ toString (if w.clears kit ui then 0 else w.drawing.paths.length)) true,
        .label ("(State: " ++ w.session.phase.name ++ ")") true] := by
  rw [← w.pathsText_clearIf (w.session.form.panel.view kit w.session.settings ui).change,
    ← w.phaseText_clearIf (w.session.form.panel.view kit w.session.settings ui).change
      (w.clears kit ui)]
  simp only [frame, h.button, h.label, List.append_assoc]
  rfl

/-! ### Frame by frame -/

theorem coherent_frame (h : w.session.Coherent) (ui : Ui) (canvas : CanvasInput) :
    (w.frame kit ui canvas).2.session.Coherent := by
  refine Session.Coherent.apply ?_ (.frame canvas)
  rw [session_clearIf]
  cases (w.session.form.panel.view kit w.session.settings ui).change with
  | none => exact h
  | some e => exact h.apply (.edit e.1 e.2)

theorem coherent_afterFrames (h : w.session.Coherent) (frames : List (Ui × CanvasInput)) :
    (w.afterFrames kit frames).session.Coherent := by
  induction frames generalizing w with
  | nil => exact h
  | cons f frames ih => exact ih (coherent_frame h f.1 f.2)

theorem defaultStyle_afterFrames (kit : Toolkit Ui) (w : Workspace)
    (frames : List (Ui × CanvasInput)) :
    (w.afterFrames kit frames).drawing.defaultStyle = w.drawing.defaultStyle := by
  induction frames generalizing w with
  | nil => rfl
  | cons f frames ih =>
      refine (ih (w.frame kit f.1 f.2).2).trans ?_
      rw [frame_eq_run]
      exact defaultStyle_run w _

theorem exists_start (preset : Settings) (style : Style) :
    ∃ s, start preset style = .ok ⟨s, { defaultStyle := style }⟩ ∧ s.Coherent := by
  obtain ⟨settings, -, hstart⟩ := Session.start_eq_ok preset
  refine ⟨_, ?_, Session.coherent_start hstart⟩
  rw [start, hstart]
  rfl

/-- What the events of a frame add to a drawing, and what they answer. -/
theorem paths_run_canvasOps (w : Workspace) (canvas : CanvasInput) :
    ∃ (counts : List Nat) (added : List Path), (w.run (canvasOps canvas)).1 = counts.map .count ∧
      (w.run (canvasOps canvas)).2.drawing.paths = w.drawing.paths ++ added ∧
      added.length = counts.sum ∧
      ∀ path ∈ added, ∃ sample segment, w.session.settings.stripe sample = some segment ∧
        path = .line segment w.drawing.defaultStyle := by
  rw [canvasOps, run_canvasOps]
  refine ⟨(w.session.routeAll canvas.events).1.map fun e => e.2.length,
    (w.session.drawnBy canvas.events).map (Path.line · w.drawing.defaultStyle), ?_,
    (w.drawing.paths_foldl_addLine _).1, ?_, ?_⟩
  · rw [List.map_map]
    rfl
  · rw [List.length_map, Session.drawnBy, List.length_flatMap]
  · intro path hpath
    obtain ⟨segment, hsegment, rfl⟩ := List.mem_map.1 hpath
    obtain ⟨sample, hstripe⟩ := Session.exists_stripe_of_mem_drawnBy hsegment
    exact ⟨sample, segment, hstripe, rfl⟩

/-- **What a frame does and what it shows**, after any frames, and whatever the toolkit makes of the
input to it.  The edit that the controls report comes first, then the clearing, and then the pointer
events in the order of press, move and release.  So a clearing takes all paths that were there before
the frame, and the stripes of the frame come after it; they go by the settings after the edit, and are
as many as the events answer.  The side panel shows every registered widget in order, with its flag
from before the edit, and with its value from before the edit, too, unless its control reports a
change in the frame.  Below are the number of paths after the clearing and before the stripes, and the
phase before the pointer events. -/
theorem frame_after_frames (hkit : kit.Faithful) (preset : Settings) (style : Style)
    (frames : List (Ui × CanvasInput)) (ui : Ui) (canvas : CanvasInput) :
    ∃ w₀, start preset style = .ok w₀ ∧
      let w := w₀.afterFrames kit frames
      let panel := w.session.form.panel
      let change := (panel.view kit w.session.settings ui).change
      let cleared := w.clears kit ui
      let ready := (w.run (panelOps change cleared)).2
      let last := (w.frame kit ui canvas).2
      last = (ready.run (canvasOps canvas)).2 ∧
      (∃ pos, canvas.events.Sublist [.down pos, .move pos, .up]) ∧
      (∃ (counts : List Nat) (added : List Path),
        (ready.run (canvasOps canvas)).1 = counts.map .count ∧
        last.drawing.paths = (if cleared then [] else w.drawing.paths) ++ added ∧
        last.drawing.paths.length = (if cleared then 0 else w.drawing.paths.length) + counts.sum ∧
        ∀ path ∈ added, ∃ sample segment,
          ready.session.settings.stripe sample = some segment ∧ path = .line segment style) ∧
      panel.specs = brushWidgets ∧
      ∃ responses : List (Response Value),
        List.Forall₂ (fun e response => e.2.Shows (w.session.settings.get e.1) response)
          panel.widgets responses ∧
        change = lastChange (panel.widgets.zip responses) ∧
        (w.frame kit ui canvas).1.nodes =
          .label panel.title true :: shownNodes (panel.widgets.zip responses) ++
          [.button clearLabel true,
            .label ("Paths: " ++ toString (if cleared then 0 else w.drawing.paths.length)) true,
            .label ("(State: " ++ w.session.phase.name ++ ")") true] := by
  obtain ⟨s, hstart, hcoherent⟩ := exists_start preset style
  refine ⟨_, hstart, ?_⟩
  intro w panel change cleared ready last
  have hw : w.session.Coherent := coherent_afterFrames hcoherent frames
  have hlast : last = (ready.run (canvasOps canvas)).2 := by
    rw [← run_append]
    exact frame_eq_run kit w ui canvas
  have hready : ready = (w.applyChange change).clearIf cleared := run_panelOps w _ _
  have hpaths : ready.drawing.paths = if cleared then [] else w.drawing.paths := by
    rw [hready, paths_clearIf, drawing_applyChange]
  have hstyle : ready.drawing.defaultStyle = style :=
    (defaultStyle_run w _).trans (defaultStyle_afterFrames kit _ frames)
  refine ⟨hlast, canvas.exists_events_sublist, ?_, hw.specs_eq,
    panel.responses kit w.session.settings ui, Panel.forall₂_responses hkit hw.holds ui,
    Panel.change_view kit panel _ ui, ?_⟩
  · obtain ⟨counts, added, hcounts, hadded, hlength, hstripes⟩ := ready.paths_run_canvasOps canvas
    rw [← hlast, hpaths] at hadded
    rw [hstyle] at hstripes
    refine ⟨counts, added, hcounts, hadded, ?_, hstripes⟩
    rw [hadded, List.length_append, hlength]
    cases cleared <;> rfl
  · rw [nodes_frame hkit, Panel.nodes_view hkit]

/-- So it is on a desktop for a frame in the middle of a drag that lowers the distance, clears the
drawing and moves the pointer: the new distance is already enough for a stripe, which is there
afterwards, while the side panel shows that there are no paths. -/
theorem frame_after_frames_of_edit_and_clear :
    let idle := ({} : ControlFrame).ui
    let frames : List (DesktopUi × CanvasInput) := [
      (idle, ⟨true, true, false, some ⟨0, 0⟩, ⟨0, 0⟩⟩),
      (idle, ⟨false, true, false, some ⟨30, 0⟩, ⟨0, 0⟩⟩)]
    let ui := ({ inputs := [.setValue 0 5, .click 5] } : ControlFrame).ui
    let canvas : CanvasInput := ⟨false, true, false, some ⟨36, 0⟩, ⟨0, 0⟩⟩
    desktop.Faithful ∧ ∃ w₀, start .default {} = .ok w₀ ∧
      let w := w₀.afterFrames desktop frames
      let last := (w.frame desktop ui canvas).2
      w.drawing.paths.length = 1 ∧ w.session.settings.distance = 10 ∧
        last.session.settings.distance = 5 ∧ last.drawing.paths.length = 1 ∧
        .label ("Paths: " ++ toString 0) true ∈ (w.frame desktop ui canvas).1.nodes := by
  intro idle frames ui canvas
  refine ⟨desktop_faithful, ?_⟩
  obtain ⟨w₀, hstart, -, -, ⟨counts, added, hcounts, -, hlength, -⟩, -, responses, -, -, hnodes⟩ :=
    frame_after_frames desktop_faithful .default {} frames ui canvas
  have hdefault : start .default {} = .ok ⟨brushSession .default, {}⟩ := by
    rw [start, Session.start_default]
    rfl
  obtain rfl := Except.ok.inj (hdefault.symm.trans hstart)
  refine ⟨_, hstart, ?_⟩
  intro w last
  have hpaths : w.drawing.paths.length = 1 := by decide +kernel
  have hbefore : w.session.settings.distance = 10 := by decide +kernel
  have hafter : last.session.settings.distance = 5 := by decide +kernel
  have hcleared : w.clears desktop ui = true := by decide +kernel
  refine ⟨hpaths, hbefore, hafter, ?_, ?_⟩
  · have hone : counts.map Session.Reply.count = [1].map .count :=
      hcounts.symm.trans (by decide +kernel)
    obtain rfl : counts = [1] :=
      List.map_injective_iff.2 (fun _ _ => Session.Reply.count.inj) hone
    rw [hlength, if_pos hcleared]
    rfl
  · rw [hnodes, if_pos hcleared]
    simp

/-- A checkbox that is clicked on a desktop is shown checked in the same frame, before the edit has
taken place: what the side panel shows is not the values from before it. -/
theorem shown_in_frame_of_click :
    let w : Workspace := ⟨brushSession .default, {}⟩
    let ui := ({ inputs := [.click 2] } : ControlFrame).ui
    let canvas : CanvasInput := ⟨false, false, false, none, ⟨0, 0⟩⟩
    desktop.Faithful ∧ start .default {} = .ok w ∧
      w.session.settings.get .mouseOffset = .flag false ∧
      w.session.form.panel.enabled? .mouseOffset = some true ∧
      .checkbox true true ∈ (w.frame desktop ui canvas).1.nodes ∧
      .checkbox false true ∉ (w.frame desktop ui canvas).1.nodes := by
  intro w ui canvas
  have hstart : start .default {} = .ok w := by
    rw [start, Session.start_default]
    rfl
  exact ⟨desktop_faithful, hstart, rfl, rfl, by decide +kernel, by decide +kernel⟩

end Workspace

end StripeBrush
