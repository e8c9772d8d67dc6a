/-
**How a drawing grows.**

A session only ever adds to the drawing, at its end, and what it adds are stripes: single segments
with two finite ends and a positive length, in the style of the drawing.  How many it adds is what
the operation answers.  Paths may be added by hand in between, and only clearing removes any.  The
session does not look at the drawing, so that it goes on, and answers, as it would alone.

Main definitions:

* `IsStripe` — a path as a session adds it;
* `Workspace.drag`, `Workspace.drags`, `Workspace.move` — samples drawn one by one, each stripe put
  into the drawing at once and counted apart;
* `Workspace.Tells` — what an operation answers of the stripes that it has added;
* `Workspace.sessionOps`, `Workspace.sessionReplies` — the part of a run that is the session's.

Main results:

* `Path.length_line` — a segment has the same length as a path;
* `Session.exists_stripe_of_mem_drawn`, `Session.ends_of_mem_drawn` — what a session draws are
  stripes of its settings, with finite ends and positive length;
* `Workspace.perform_move` — counting stripe by stripe comes to the same as adding them all;
* `Workspace.tells_apply` — an operation answers what it has drawn;
* `Workspace.run_session` — **a session goes on in a workspace as it does alone**;
* `Workspace.drawing_after` — **what every operation adds to the drawing**, after any run.
-/

import StripeBrush.Proofs.Binary.Sums
import StripeBrush.Proofs.Session.Frames
import StripeBrush.Workspace

set_option relaxedAutoImplicit false
set_option autoImplicit false

namespace StripeBrush

/-! ### Stripes as paths -/

/-- A path as a session adds it: it has exactly two points, both are finite, its length is positive,
and it has the given style. -/
structure IsStripe (style : Style) (path : Path) : Prop where
  ends : ∃ start stop : Vec, path.points = [start, stop] ∧ start.isFinite = true ∧
    stop.isFinite = true
  length_pos : 0 < path.length
  style_eq : path.style = style

/-- A segment of positive length has the same length as a path. -/
theorem Path.length_line {segment : Segment} (h : 0 < segment.length) (style : Style) :
    (Path.line segment style).length = segment.length := by
  have hF : 0 < Format.binary32.infIndex := by decide
  exact Binary.zero_add_of_pos hF true h

theorem isStripe_line {segment : Segment} (h : segment.start.isFinite ∧ segment.stop.isFinite ∧
      0 < segment.length) (style : Style) : IsStripe style (.line segment style) where
  ends := ⟨segment.start, segment.stop, rfl, h.1, h.2.1⟩
  length_pos := by
    rw [Path.length_line h.2.2]
    exact h.2.2
  style_eq := rfl

/-! ### What a session draws -/

namespace Session

variable {s : Session} {segment : Segment}

theorem stripe_of_drag {sample : Sample} (h : s.drag sample = some segment) :
    s.settings.stripe sample = some segment := by
  unfold drag Phase.stripe at h
  split at h
  · simp at h
  · exact h

theorem exists_stripe_of_mem_route (event : PointerEvent) (h : segment ∈ (s.route event).1) :
    ∃ sample, s.settings.stripe sample = some segment := by
  cases event with
  | down pos => simp [route] at h
  | move pos =>
      obtain ⟨sample, -, hdrag⟩ := List.mem_filterMap.1 h
      exact ⟨sample, stripe_of_drag hdrag⟩
  | up => simp [route] at h

theorem exists_stripe_of_mem_drawnBy {events : List PointerEvent}
    (h : segment ∈ s.drawnBy events) : ∃ sample, s.settings.stripe sample = some segment := by
  induction events generalizing s with
  | nil => simp [drawnBy, routeAll] at h
  | cons event events ih =>
      rw [drawnBy_cons, List.mem_append] at h
      rcases h with h | h
      · exact exists_stripe_of_mem_route event h
      · obtain ⟨sample, hstripe⟩ := ih h
        rw [settings, form_route] at hstripe
        exact ⟨sample, hstripe⟩

/-- What an operation draws are stripes of the settings. -/
theorem exists_stripe_of_mem_drawn {op : Op} (h : segment ∈ (s.apply op).drawn) :
    ∃ sample, s.settings.stripe sample = some segment := by
  cases op with
  | edit param value => simp [apply] at h
  | setEnabled param enabled => simp [apply] at h
  | down pos => simp [apply] at h
  | move pos => exact exists_stripe_of_mem_route (.move pos) h
  | drag sample => exact ⟨sample, stripe_of_drag (Option.mem_toList.1 h)⟩
  | up => simp [apply] at h
  | route event => exact exists_stripe_of_mem_route event h
  | frame input => exact exists_stripe_of_mem_drawnBy h

/-- What a session draws has finite ends and a positive length. -/
theorem ends_of_mem_drawn {op : Op} (h : segment ∈ (s.apply op).drawn) :
    segment.start.isFinite ∧ segment.stop.isFinite ∧ 0 < segment.length := by
  obtain ⟨sample, hstripe⟩ := exists_stripe_of_mem_drawn h
  exact Settings.stripe_ends hstripe

end Session

namespace Workspace

/-! ### Stripe by stripe -/

/-- One sample: whether it was drawn, and the workspace with its stripe. -/
def drag (w : Workspace) (sample : Sample) : Bool × Workspace :=
  match w.session.drag sample with
  | some segment => (true, { w with drawing := w.drawing.addLine segment })
  | none => (false, w)

/-- Samples one after the other: how many of them were drawn, and the workspace with their
stripes. -/
def drags (w : Workspace) : List Sample → Nat × Workspace
  | [] => (0, w)
  | sample :: samples =>
    let (drawn, w') := w.drag sample
    let (n, last) := w'.drags samples
    (if drawn then n + 1 else n, last)

/-- A position: the sampler takes it, and then the samples that it completes are drawn. -/
def move (w : Workspace) (pos : Vec) : Nat × Workspace :=
  let (samples, sampler) := w.session.sampler.sample pos
  drags { w with session := { w.session with sampler } } samples

theorem perform_drag (w : Workspace) (sample : Sample) :
    w.perform (.drag sample) = (.drew (w.drag sample).1, (w.drag sample).2) := by
  unfold drag
  cases hdrag : w.session.drag sample <;> simp [perform, Session.apply, draw, hdrag]

theorem drags_eq (w : Workspace) (samples : List Sample) :
    w.drags samples = ((samples.filterMap w.session.drag).length,
      w.draw (samples.filterMap w.session.drag) w.session) := by
  induction samples generalizing w with
  | nil => rfl
  | cons sample samples ih =>
      cases hdrag : w.session.drag sample with
      | none =>
          have hstep : w.drag sample = (false, w) := by simp [drag, hdrag]
          simp [drags, hstep, ih, hdrag]
      | some segment =>
          have hstep : w.drag sample =
              (true, { w with drawing := w.drawing.addLine segment }) := by simp [drag, hdrag]
          simp [drags, hstep, ih, hdrag, draw]

/-- Counting stripe by stripe comes to the same as adding them all. -/
theorem perform_move (w : Workspace) (pos : Vec) :
    w.perform (.move pos) = (.count (w.move pos).1, (w.move pos).2) := by
  simp only [move, drags_eq]
  rfl

/-! ### What a session answers -/

/-- What an operation of a session answers of the `n` stripes that it has added.  A move and a
routed event give their number, a sample says whether there is one, and a frame gives a number for
each of its events; no other operation adds any. -/
def Tells (op : Session.Op) (reply : Session.Reply) (n : Nat) : Prop :=
  match op with
  | .move _ => reply = .count n ∧ n ≤ 1
  | .route _ => reply = .count n ∧ n ≤ 1
  | .drag _ => ∃ drawn : Bool, reply = .drew drawn ∧ n = if drawn then 1 else 0
  | .frame _ => ∃ events, reply = .counts events ∧ n = (events.map Prod.snd).sum
  | _ => n = 0

/-- An operation answers what it has drawn. -/
theorem tells_apply {s : Session} (h : s.sampler.maxDistance = none) (op : Session.Op) :
    Tells op (s.apply op).reply (s.apply op).drawn.length := by
  cases op with
  | edit param value => rfl
  | setEnabled param enabled => rfl
  | down pos => rfl
  | move pos => exact ⟨rfl, Session.length_move_le h pos⟩
  | drag sample =>
      refine ⟨_, rfl, ?_⟩
      cases hdrag : s.drag sample <;> simp [Session.apply, hdrag]
  | up => rfl
  | route event =>
      refine ⟨rfl, ?_⟩
      cases event with
      | down pos => exact Nat.zero_le 1
      | move pos => exact Session.length_move_le h pos
      | up => exact Nat.zero_le 1
  | frame input =>
      refine ⟨_, rfl, ?_⟩
      simp [Session.apply, List.length_flatMap, Function.comp_def]

/-! ### Runs -/

/-- The operation of the session, if it is one. -/
def Op.session? : Op → Option Session.Op
  | .session op => some op
  | _ => none

/-- The operations of the session in a run, in order. -/
def sessionOps (ops : List Op) : List Session.Op := ops.filterMap Op.session?

/-- What the session answers in a run, in order. -/
def sessionReplies (ops : List Op) (replies : List Session.Reply) : List Session.Reply :=
  (ops.zip replies).filterMap fun e => e.1.session?.map fun _ => e.2

/-- **A session goes on in a workspace as it does alone**, and answers the same, whatever is in the
drawing and whatever becomes of it. -/
theorem run_session (w : Workspace) (ops : List Op) :
    (w.run ops).2.session = w.session.after (sessionOps ops) ∧
      sessionReplies ops (w.run ops).1 =
        (w.session.run (sessionOps ops)).map Session.Step.reply := by
  induction ops generalizing w with
  | nil => exact ⟨rfl, rfl⟩
  | cons op ops ih =>
      obtain ⟨hsession, hreplies⟩ := ih (w.apply op).2
      cases op with
      | session op => exact ⟨hsession, congrArg ((w.session.apply op).reply :: ·) hreplies⟩
      | addPath path => exact ⟨hsession, hreplies⟩
      | clear => exact ⟨hsession, hreplies⟩

theorem defaultStyle_apply (w : Workspace) (op : Op) :
    (w.apply op).2.drawing.defaultStyle = w.drawing.defaultStyle := by
  cases op with
  | session op => exact (w.drawing.paths_foldl_addLine _).2
  | addPath path => rfl
  | clear => rfl

theorem defaultStyle_run (w : Workspace) (ops : List Op) :
    (w.run ops).2.drawing.defaultStyle = w.drawing.defaultStyle := by
  induction ops generalizing w with
  | nil => rfl
  | cons op ops ih => exact (ih (w.apply op).2).trans (w.defaultStyle_apply op)

/-- An operation other than clearing keeps every path where it is. -/
theorem prefix_apply (w : Workspace) {op : Op} (h : op ≠ .clear) :
    w.drawing.paths <+: (w.apply op).2.drawing.paths := by
  cases op with
  | session op =>
      change w.drawing.paths <+: (w.perform op).2.drawing.paths
      rw [drawing_perform]
      exact List.prefix_append ..
  | addPath path => exact List.prefix_append ..
  | clear => exact absurd rfl h

/-- So does every run without clearing. -/
theorem prefix_run (w : Workspace) {ops : List Op} (h : .clear ∉ ops) :
    w.drawing.paths <+: (w.run ops).2.drawing.paths := by
  induction ops generalizing w with
  | nil => exact List.prefix_refl _
  | cons op ops ih =>
      have hop : op ≠ .clear := fun heq => h (heq ▸ List.mem_cons_self ..)
      exact (w.prefix_apply hop).trans
        (ih (w.apply op).2 fun hmem => h (List.mem_cons_of_mem _ hmem))

/-- **What every operation adds to the drawing**, after any run of operations of a reachable session
on any drawing.  An operation of the session adds stripes in the style of the drawing, at the end,
and answers how many, which is what counting them one by one as they are drawn gives; a path that is
added by hand comes to the end as it is; clearing leaves nothing, and without it no path is ever
lost.  The session goes on and answers as it does alone. -/
theorem drawing_after {s : Session} (h : s.Reachable) (d : Drawing) (ops : List Op) :
    let w := ((⟨s, d⟩ : Workspace).run ops).2
    (∀ op, ∃ added, (w.apply (.session op)).2.drawing.paths = w.drawing.paths ++ added ∧
      (∀ path ∈ added, IsStripe d.defaultStyle path) ∧
      Tells op (w.apply (.session op)).1 added.length) ∧
    (∀ sample, w.apply (.session (.drag sample)) = (.drew (w.drag sample).1, (w.drag sample).2)) ∧
    (∀ pos, w.apply (.session (.move pos)) = (.count (w.move pos).1, (w.move pos).2)) ∧
    (∀ path, (w.apply (.addPath path)).2.drawing.paths = w.drawing.paths ++ [path]) ∧
    (w.apply .clear).2.drawing.paths = [] ∧
    (.clear ∉ ops → d.paths <+: w.drawing.paths) ∧
    w.session = s.after (sessionOps ops) ∧
    sessionReplies ops ((⟨s, d⟩ : Workspace).run ops).1 =
      (s.run (sessionOps ops)).map Session.Step.reply := by
  intro w
  obtain ⟨hsession, hreplies⟩ := run_session ⟨s, d⟩ ops
  have hreachable : w.session.Reachable := by
    rw [hsession]
    exact h.after _
  have hstyle : w.drawing.defaultStyle = d.defaultStyle := defaultStyle_run ⟨s, d⟩ ops
  refine ⟨fun op => ?_, w.perform_drag, w.perform_move, fun path => rfl, rfl,
    prefix_run ⟨s, d⟩, hsession, hreplies⟩
  refine ⟨_, w.drawing_perform op, fun path hpath => ?_, ?_⟩
  · obtain ⟨segment, hsegment, rfl⟩ := List.mem_map.1 hpath
    rw [hstyle]
    exact isStripe_line (Session.ends_of_mem_drawn hsegment) d.defaultStyle
  · rw [List.length_map]
    exact tells_apply hreachable.coherent.maxDistance_eq op

/-- So it is for a move of ten to the right after a press, in a drawing that holds a path without
points: one stripe comes after that path. -/
theorem drawing_after_press :
    let d : Drawing := { paths := [⟨[], {}⟩], defaultStyle := { width := 3, cap := .round } }
    let w := ((⟨brushSession .default, d⟩ : Workspace).run [.session (.down ⟨0, 0⟩)]).2
    (brushSession .default).Reachable ∧
      ∃ path, (w.apply (.session (.move ⟨10, 0⟩))).2.drawing.paths = [⟨[], {}⟩, path] ∧
        IsStripe d.defaultStyle path := by
  intro d w
  have hreachable : (brushSession .default).Reachable :=
    Session.reachable_of_start Session.start_default
  obtain ⟨hadds, -⟩ := drawing_after hreachable d [.session (.down ⟨0, 0⟩)]
  obtain ⟨added, hpaths, hstripes, hcount, -⟩ := hadds (.move ⟨10, 0⟩)
  have hone : (w.apply (.session (.move ⟨10, 0⟩))).1 = .count 1 := by decide +kernel
  obtain ⟨path, rfl⟩ : ∃ path, added = [path] :=
    List.length_eq_one_iff.1 (Session.Reply.count.inj (hcount.symm.trans hone))
  exact ⟨hreachable, path, hpaths, hstripes path (List.mem_singleton_self path)⟩

end Workspace

end StripeBrush
