/-
**A session that is driven by frames.**

Whether a drag is on is kept twice, in the phase of the drag and in the anchor of the sampler.  Both
are told of every press and every release, in the order in which the events of a frame are routed:
the press before the move, and the release last.  So a frame in which the button is released ends
the drag, whatever else happens in it, and otherwise one in which it is pressed starts a drag; any
other frame only moves the pointer, and changes neither.

A drag that starts at a point that is not finite is one for the phase and none for the sampler.  The
other way round the two never disagree.

Main definitions:

* `Session.DragAgrees` — where the sampler is in a drag, so is the phase;
* `Session.drawnBy` — the stripes that some events draw.

Main results:

* `Session.dragAgrees_apply`, `Session.Reachable.dragAgrees` — every operation keeps the two records
  together;
* `Session.drag_frame_of_stopped`, `Session.drag_frame_of_started`, `Session.drag_frame_of_neither`
  — what each kind of frame does to them;
* `Session.drawn_frame_eq_nil`, `Session.length_drawn_frame_le` — what a frame draws;
* `Session.drag_after_frames` — **all of this after any frames of any reachable session**.
-/

import StripeBrush.Proofs.Pointer.Sampling
import StripeBrush.Proofs.Session.Activation
import StripeBrush.Proofs.Session.Bounds

set_option relaxedAutoImplicit false
set_option autoImplicit false

namespace StripeBrush

/-! ### The events of a frame -/

namespace CanvasInput

variable {input : CanvasInput} {pos : Vec}

/-- Without a position a frame can only tell of a release. -/
theorem events_of_pos_none (h : input.pos = none) :
    input.events = if input.stopped then [.up] else [] := by
  simp [events, localPos, h]

/-- With a position the press comes before the move, and the release last. -/
theorem events_of_pos_some (h : input.pos = some pos) :
    input.events = (if input.started then [.down (pos - input.corner)] else []) ++
      (if input.dragged then [.move (pos - input.corner)] else []) ++
      if input.stopped then [.up] else [] := by
  simp [events, localPos, h]

theorem events_of_stopped (h : input.stopped = true) :
    ∃ before, input.events = before ++ [.up] := by
  cases hpos : input.pos with
  | none => exact ⟨[], by rw [events_of_pos_none hpos, h]; rfl⟩
  | some pos => exact ⟨_, by rw [events_of_pos_some hpos, h, if_pos rfl]⟩

end CanvasInput

namespace Session

variable {s : Session} {pos : Vec} {input : CanvasInput}

/-! ### Both records of a drag -/

/-- Where the sampler is in a drag, so is the phase. -/
def DragAgrees (s : Session) : Prop := s.sampler.isActive = true → s.phase = .dragging

theorem isActive_move (s : Session) (pos : Vec) :
    (s.move pos).2.sampler.isActive = s.sampler.isActive :=
  s.sampler.isActive_sample pos

theorem dragAgrees_route (h : s.DragAgrees) (event : PointerEvent) :
    (s.route event).2.DragAgrees := by
  intro hactive
  cases event with
  | down pos => rfl
  | move pos => exact h ((s.isActive_move pos).symm.trans hactive)
  | up => simp [route, up] at hactive

theorem dragAgrees_routeAll (h : s.DragAgrees) (events : List PointerEvent) :
    (s.routeAll events).2.DragAgrees := by
  induction events generalizing s with
  | nil => exact h
  | cons event events ih => exact ih (dragAgrees_route h event)

/-- An edit changes neither of the two. -/
theorem drag_edit (s : Session) (param : Param) (value : Value) :
    (s.edit param value).2.phase = s.phase ∧
      (s.edit param value).2.sampler.isActive = s.sampler.isActive := by
  unfold edit
  rcases s.form.edit param value with ⟨fault | outcome, form'⟩
  · exact ⟨rfl, rfl⟩
  · obtain ⟨_, _, minDistance, _⟩ := outcome
    refine ⟨rfl, ?_⟩
    cases minDistance with
    | none => rfl
    | some minDistance => exact s.sampler.isActive_setMinDistance minDistance

/-- Every operation keeps the two records of a drag together. -/
theorem dragAgrees_apply (h : s.DragAgrees) (op : Op) : (s.apply op).session.DragAgrees := by
  cases op with
  | edit param value =>
      obtain ⟨hphase, hactive⟩ := s.drag_edit param value
      exact fun hs => hphase.trans (h (hactive.symm.trans hs))
  | setEnabled param enabled => exact h
  | down pos => exact fun _ => rfl
  | move pos => exact dragAgrees_route h (.move pos)
  | drag sample => exact h
  | up => exact dragAgrees_route h .up
  | route event => exact dragAgrees_route h event
  | frame input => exact dragAgrees_routeAll h input.events

/-- In every reachable session an active sampler has a drag of the phase with it. -/
theorem Reachable.dragAgrees (h : s.Reachable) : s.DragAgrees := by
  refine h.induction (fun preset s hstart => ?_) fun s op h => dragAgrees_apply h op
  obtain ⟨t, -, ht⟩ := start_eq_brushSession preset
  obtain rfl := Except.ok.inj (hstart.symm.trans ht)
  intro hactive
  simp [brushSession, Sampler.ofMinDistance, Sampler.isActive] at hactive

/-! ### Events in order -/

/-- The stripes that some events draw, in order. -/
def drawnBy (s : Session) (events : List PointerEvent) : List Segment :=
  (s.routeAll events).1.flatMap Prod.snd

theorem routeAll_append (s : Session) (events events' : List PointerEvent) :
    (s.routeAll (events ++ events')).2 = ((s.routeAll events).2.routeAll events').2 := by
  induction events generalizing s with
  | nil => rfl
  | cons event events ih => exact ih _

theorem drawnBy_cons (s : Session) (event : PointerEvent) (events : List PointerEvent) :
    s.drawnBy (event :: events) = (s.route event).1 ++ (s.route event).2.drawnBy events := rfl

theorem drawnBy_append (s : Session) (events events' : List PointerEvent) :
    s.drawnBy (events ++ events') =
      s.drawnBy events ++ (s.routeAll events).2.drawnBy events' := by
  induction events generalizing s with
  | nil => rfl
  | cons event events ih =>
      rw [List.cons_append, drawnBy_cons, ih, drawnBy_cons, List.append_assoc]
      rfl

/-- A position draws at most one stripe, where the sampler does not split jumps. -/
theorem length_move_le (h : s.sampler.maxDistance = none) (pos : Vec) :
    (s.move pos).1.length ≤ 1 :=
  (List.length_filterMap_le _ _).trans (Sampler.length_sample_le h pos)

/-- The point that a drag starts at draws nothing. -/
theorem move_down (s : Session) (pos : Vec) : ((s.down pos).move pos).1 = [] := by
  have hnone : ((s.down pos).sampler.sample pos).1 = [] := s.sampler.sample_begin pos
  simp [move, hnone]

/-! ### One frame -/

/-- A frame with a release ends the drag, whatever else happens in it. -/
theorem drag_frame_of_stopped (s : Session) (h : input.stopped = true) :
    (s.apply (.frame input)).session.phase = .idle ∧
      (s.apply (.frame input)).session.sampler.isActive = false := by
  obtain ⟨before, hevents⟩ := CanvasInput.events_of_stopped h
  have hup : (s.apply (.frame input)).session = ((s.routeAll before).2).up := by
    change (s.routeAll input.events).2 = _
    rw [hevents, routeAll_append]
    rfl
  rw [hup]
  exact ⟨rfl, rfl⟩

/-- A frame with a press and without a release starts a drag at the position of the press; for the
sampler that is one only if the position is finite. -/
theorem drag_frame_of_started (s : Session) (hstopped : input.stopped = false)
    (hstarted : input.started = true) (hpos : input.pos = some pos) :
    (s.apply (.frame input)).session.phase = .dragging ∧
      (s.apply (.frame input)).session.sampler.isActive = (pos - input.corner).isFinite := by
  have hevents := CanvasInput.events_of_pos_some hpos
  rw [hstopped, hstarted] at hevents
  change (s.routeAll input.events).2.phase = _ ∧ (s.routeAll input.events).2.sampler.isActive = _
  rw [hevents]
  cases input.dragged with
  | false => exact ⟨rfl, s.sampler.isActive_begin _⟩
  | true =>
      -- the move after the press leaves both as they are
      refine ⟨rfl, ?_⟩
      exact ((s.down _).isActive_move _).trans (s.sampler.isActive_begin _)

/-- Any other frame leaves the drag as it is. -/
theorem drag_frame_of_neither (s : Session) (hstopped : input.stopped = false)
    (hstarted : input.started = false ∨ input.pos = none) :
    (s.apply (.frame input)).session.phase = s.phase ∧
      (s.apply (.frame input)).session.sampler.isActive = s.sampler.isActive := by
  change (s.routeAll input.events).2.phase = _ ∧ (s.routeAll input.events).2.sampler.isActive = _
  cases hpos : input.pos with
  | none =>
      rw [CanvasInput.events_of_pos_none hpos, hstopped]
      exact ⟨rfl, rfl⟩
  | some pos =>
      have hnot : input.started = false := hstarted.resolve_right (by simp [hpos])
      rw [CanvasInput.events_of_pos_some hpos, hstopped, hnot]
      cases input.dragged with
      | false => exact ⟨rfl, rfl⟩
      | true => exact ⟨rfl, s.isActive_move _⟩

/-! ### What a frame draws -/

theorem drawnBy_append_up (s : Session) (events : List PointerEvent) (stopped : Bool) :
    s.drawnBy (events ++ if stopped then [.up] else []) = s.drawnBy events := by
  rw [drawnBy_append]
  cases stopped <;> exact List.append_nil _

/-- A frame without a position draws nothing, and neither does one in which a drag starts. -/
theorem drawn_frame_eq_nil (s : Session) (h : input.pos = none ∨ input.started = true) :
    (s.apply (.frame input)).drawn = [] := by
  change s.drawnBy input.events = []
  cases hpos : input.pos with
  | none =>
      rw [CanvasInput.events_of_pos_none hpos]
      exact s.drawnBy_append_up [] input.stopped
  | some pos =>
      have hstarted : input.started = true := h.resolve_left (by simp [hpos])
      rw [CanvasInput.events_of_pos_some hpos, drawnBy_append_up, hstarted]
      cases input.dragged with
      | false => rfl
      | true =>
          change ((s.down _).move _).1 ++ [] = []
          rw [move_down, List.append_nil]

/-- A frame draws at most one stripe, where the sampler does not split jumps. -/
theorem length_drawn_frame_le (h : s.sampler.maxDistance = none) (input : CanvasInput) :
    (s.apply (.frame input)).drawn.length ≤ 1 := by
  cases hpos : input.pos with
  | none => simp [s.drawn_frame_eq_nil (.inl hpos)]
  | some pos =>
      cases hstarted : input.started with
      | true => simp [s.drawn_frame_eq_nil (.inr hstarted)]
      | false =>
          change (s.drawnBy input.events).length ≤ 1
          rw [CanvasInput.events_of_pos_some hpos, drawnBy_append_up, hstarted]
          cases input.dragged with
          | false => exact Nat.zero_le 1
          | true =>
              change ((s.move _).1 ++ []).length ≤ 1
              rw [List.append_nil]
              exact length_move_le h _

/-! ### Runs of frames -/

/-- **What a frame does to the drag, and how much it draws**, after any frames of any reachable
session.  A release ends the drag; otherwise a press at a known position starts one, for the sampler
only if the position on the canvas is finite; any other frame leaves both records as they are.  At
most one stripe is drawn, and none without a position or in a frame with a press.  Where the sampler
is in a drag, so is the phase. -/
theorem drag_after_frames (h : s.Reachable) (frames : List CanvasInput) (input : CanvasInput) :
    let t := s.after (frames.map .frame)
    let step := t.apply (.frame input)
    (input.stopped = true →
      step.session.phase = .idle ∧ step.session.sampler.isActive = false) ∧
    (input.stopped = false → input.started = true → ∀ pos, input.pos = some pos →
      step.session.phase = .dragging ∧
        step.session.sampler.isActive = (pos - input.corner).isFinite) ∧
    (input.stopped = false → input.started = false ∨ input.pos = none →
      step.session.phase = t.phase ∧ step.session.sampler.isActive = t.sampler.isActive) ∧
    step.drawn.length ≤ 1 ∧
    (input.pos = none ∨ input.started = true → step.drawn = []) ∧
    (t.sampler.isActive = true → t.phase = .dragging) := by
  intro t step
  have ht : t.Reachable := h.after _
  refine ⟨?_, ?_, ?_, ?_, ?_, ht.dragAgrees⟩
  · exact fun hstopped => t.drag_frame_of_stopped hstopped
  · exact fun hstopped hstarted pos hpos => t.drag_frame_of_started hstopped hstarted hpos
  · exact fun hstopped hstarted => t.drag_frame_of_neither hstopped hstarted
  · exact length_drawn_frame_le ht.coherent.maxDistance_eq input
  · exact fun hnone => t.drawn_frame_eq_nil hnone

/-- So it is for a press beyond all finite positions, after a frame in which nothing happened: the
phase is in a drag, and the sampler is not. -/
theorem drag_after_frames_of_infinite_press :
    let nothing : CanvasInput := ⟨false, false, false, none, ⟨0, 0⟩⟩
    let press : CanvasInput := ⟨true, true, false, some ⟨.inf false, 0⟩, ⟨0, 0⟩⟩
    let step := ((brushSession .default).after ([nothing].map .frame)).apply (.frame press)
    (brushSession .default).Reachable ∧
      step.session.phase = .dragging ∧ step.session.sampler.isActive = false ∧
      step.drawn = [] := by
  intro nothing press step
  have hreachable : (brushSession .default).Reachable := reachable_of_start start_default
  obtain ⟨-, hstarted, -, -, hdrawn, -⟩ := drag_after_frames hreachable [nothing] press
  obtain ⟨hphase, hactive⟩ := hstarted rfl rfl _ rfl
  have hinfinite : ((⟨.inf false, 0⟩ : Vec) - ⟨0, 0⟩).isFinite = false := by decide
  exact ⟨hreachable, hphase, hactive.trans hinfinite, hdrawn (.inr rfl)⟩

end Session

end StripeBrush
