/-
**Sessions that draw alike.**

What the pointer does to a session, and what it draws, goes by three things: the settings, as far as
stripes depend on them, the phase of the drag, and the sampler.  Two sessions that agree on these go
on alike, whatever the pointer does.

A press sets the phase and the anchor of the sampler afresh, whatever they were, and the sampler
goes by the distance of the settings.  So after a press only the settings are left: nothing of what
went on before, an unfinished drag included, shows in what the pointer does from there on.

Main definitions:

* `Session.DrawsAlike` — two sessions agree on what the pointer goes by;
* `Session.Op.isPointer` — the operations that are about the pointer;
* `Session.Step.seen` — what is seen of an operation.

Main results:

* `Session.DrawsAlike.apply`, `Session.DrawsAlike.run` — pointer operations keep two sessions alike,
  and the same is seen of them;
* `Session.drawsAlike_down` — a press makes sessions with the same settings alike;
* `Session.run_eq_after_press` — **no history is kept across drags**.
-/

import StripeBrush.Proofs.Session.Activation
import StripeBrush.Proofs.Session.Bounds

set_option relaxedAutoImplicit false
set_option autoImplicit false

namespace StripeBrush.Session

variable {s t : Session} {op : Op} {ops : List Op}

/-! ### What is seen of an operation -/

/-- The operations that are about the pointer. -/
def Op.isPointer : Op → Bool
  | .edit _ _ => false
  | .setEnabled _ _ => false
  | _ => true

/-- What is seen of an operation: its answer, and the stripes that it draws, in order. -/
def Step.seen (step : Step) : Reply × List Segment := (step.reply, step.drawn)

/-- A pointer operation changes neither the form nor the limits of the sampler. -/
theorem sameForm_apply (s : Session) (hop : op.isPointer = true) :
    s.SameForm (s.apply op).session := by
  rcases s.apply_cases op with ⟨param, value, outcome, form', rfl, -⟩ |
    ⟨param, enabled, rfl, -⟩ | hsame
  · simp [Op.isPointer] at hop
  · simp [Op.isPointer] at hop
  · exact hsame

/-! ### Drawing alike -/

/-- Two sessions agree on what the pointer goes by: they draw the same stripes for the same samples,
they are in the same phase, and their samplers are the same. -/
structure DrawsAlike (s t : Session) : Prop where
  stripe_eq : ∀ sample, s.settings.stripe sample = t.settings.stripe sample
  phase_eq : s.phase = t.phase
  sampler_eq : s.sampler = t.sampler

namespace DrawsAlike

theorem drag (h : s.DrawsAlike t) (sample : Sample) : s.drag sample = t.drag sample := by
  unfold Session.drag
  rw [h.phase_eq]
  cases t.phase with
  | idle => rfl
  | dragging => exact h.stripe_eq sample

theorem route (h : s.DrawsAlike t) (event : PointerEvent) :
    (s.route event).1 = (t.route event).1 ∧ (s.route event).2.DrawsAlike (t.route event).2 := by
  cases event with
  | down pos =>
      refine ⟨rfl, h.stripe_eq, rfl, ?_⟩
      exact congrArg (Sampler.begin · pos) h.sampler_eq
  | move pos =>
      have hdrag : s.drag = t.drag := funext h.drag
      refine ⟨?_, h.stripe_eq, h.phase_eq, ?_⟩
      · simp only [Session.route, move, h.sampler_eq, hdrag]
      · simp only [Session.route, move, h.sampler_eq]
  | up =>
      refine ⟨rfl, h.stripe_eq, rfl, ?_⟩
      exact congrArg Sampler.finish h.sampler_eq

theorem routeAll (h : s.DrawsAlike t) (events : List PointerEvent) :
    (s.routeAll events).1 = (t.routeAll events).1 ∧
      (s.routeAll events).2.DrawsAlike (t.routeAll events).2 := by
  induction events generalizing s t with
  | nil => exact ⟨rfl, h⟩
  | cons event events ih =>
      obtain ⟨hdrawn, hnext⟩ := h.route event
      obtain ⟨hrest, hlast⟩ := ih hnext
      refine ⟨?_, hlast⟩
      simp only [Session.routeAll, hdrawn, hrest]

/-- A pointer operation keeps two sessions alike, and the same is seen of it in both. -/
theorem apply (h : s.DrawsAlike t) (hop : op.isPointer = true) :
    (s.apply op).seen = (t.apply op).seen ∧
      (s.apply op).session.DrawsAlike (t.apply op).session := by
  cases op with
  | edit param value => simp [Op.isPointer] at hop
  | setEnabled param enabled => simp [Op.isPointer] at hop
  | down pos => exact ⟨rfl, (h.route (.down pos)).2⟩
  | move pos =>
      obtain ⟨hdrawn, hnext⟩ := h.route (.move pos)
      refine ⟨?_, hnext⟩
      exact congrArg (fun drawn : List Segment => (Reply.count drawn.length, drawn)) hdrawn
  | drag sample =>
      refine ⟨?_, h⟩
      simp only [Step.seen, Session.apply, h.drag]
  | up => exact ⟨rfl, (h.route .up).2⟩
  | route event =>
      obtain ⟨hdrawn, hnext⟩ := h.route event
      refine ⟨?_, hnext⟩
      simp only [Step.seen, Session.apply, hdrawn]
  | frame input =>
      obtain ⟨hevents, hnext⟩ := h.routeAll input.events
      refine ⟨?_, hnext⟩
      simp only [Step.seen, Session.apply, hevents]

/-- So does a run of pointer operations. -/
theorem run (h : s.DrawsAlike t) (hops : ∀ op ∈ ops, op.isPointer = true) :
    (s.run ops).map Step.seen = (t.run ops).map Step.seen ∧
      (s.after ops).DrawsAlike (t.after ops) := by
  induction ops generalizing s t with
  | nil => exact ⟨rfl, h⟩
  | cons op ops ih =>
      obtain ⟨hseen, hnext⟩ := h.apply (hops op (List.mem_cons_self ..))
      have hrest : ∀ later ∈ ops, later.isPointer = true := by
        intro later hlater
        exact hops later (List.mem_cons_of_mem _ hlater)
      obtain ⟨hrun, hlast⟩ := ih hnext hrest
      refine ⟨?_, hlast⟩
      simp only [Session.run, List.map_cons, hseen, hrun]

end DrawsAlike

/-! ### A press -/

/-- A press makes sessions with the same settings alike: their samplers go by the same distance, do
not split jumps, and have the position of the press for an anchor, or none if it is not finite. -/
theorem drawsAlike_down (hs : s.Coherent) (ht : t.Coherent) (h : s.settings = t.settings)
    (pos : Vec) : (s.down pos).DrawsAlike (t.down pos) := by
  refine ⟨?_, rfl, ?_⟩
  · intro sample
    exact congrArg (Settings.stripe · sample) h
  · have hmin : s.sampler.minDistance = t.sampler.minDistance := by
      rw [hs.minDistance_eq, ht.minDistance_eq, h]
    have hmax : s.sampler.maxDistance = t.sampler.maxDistance := by
      rw [hs.maxDistance_eq, ht.maxDistance_eq]
    simp only [down, Sampler.begin, hmin, hmax]

/-- **No history is kept across drags.**  After a press at one position, two reachable sessions with
the same settings answer the same to any sequence of pointer operations and draw the same stripes in
the same order, and they are left in the same phase and with the same sampler, whatever went on in
each of them before. -/
theorem run_eq_after_press (hs : s.Reachable) (ht : t.Reachable) (h : s.settings = t.settings)
    (pos : Vec) (ops : List Op) (hops : ∀ op ∈ ops, op.isPointer = true) :
    ((s.down pos).run ops).map Step.seen = ((t.down pos).run ops).map Step.seen ∧
      ((s.down pos).after ops).phase = ((t.down pos).after ops).phase ∧
      ((s.down pos).after ops).sampler = ((t.down pos).after ops).sampler := by
  have halike := drawsAlike_down hs.coherent ht.coherent h pos
  obtain ⟨hseen, hlast⟩ := halike.run hops
  exact ⟨hseen, hlast.phase_eq, hlast.sampler_eq⟩

/-- So it is for a session in the middle of a drag, with a flag set by hand and a distance that was
edited and put back, beside one that was just started. -/
theorem run_eq_after_press_in_drag :
    let past : List Op := [.down ⟨3, 4⟩, .move ⟨40, 4⟩, .edit .distance (.number 25),
      .edit .distance (.number 10), .setEnabled .speedScale false]
    let s := (brushSession .default).after past
    let t := brushSession .default
    let ops : List Op := [.move ⟨10, 0⟩, .up, .move ⟨30, 0⟩]
    s.Reachable ∧ t.Reachable ∧ s.settings = t.settings ∧ (∀ op ∈ ops, op.isPointer = true) ∧
      s.sampler.anchor = some ⟨40, 4⟩ ∧
      ((s.down ⟨0, 0⟩).run ops).map Step.seen = ((t.down ⟨0, 0⟩).run ops).map Step.seen := by
  intro past s t ops
  have ht : t.Reachable := reachable_of_start start_default
  have hs : s.Reachable := ht.after past
  have hsettings : s.settings = t.settings := by decide +kernel
  have hops : ∀ op ∈ ops, op.isPointer = true := by decide
  have hanchor : s.sampler.anchor = some ⟨40, 4⟩ := by decide +kernel
  exact ⟨hs, ht, hsettings, hops, hanchor, (run_eq_after_press hs ht hsettings ⟨0, 0⟩ ops hops).1⟩

end StripeBrush.Session
