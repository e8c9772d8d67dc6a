/-
**Sessions.**

A session is the time between picking up the brush and putting it down.  It holds the form of the
brush, the phase of the drag and the sampler.  Edits and pointer events go through it one at a time,
so that an edit has taken place before the next sample is drawn.

What a session draws is given back as a list of segments; where they go is not its concern.

Main definitions:

* `Session`, with `Session.start` and `Session.finish`;
* `Session.edit`, `Session.setEnabled`, `Session.down`, `Session.move`, `Session.drag`,
  `Session.up`;
* `Session.route` — a pointer event, and `Session.routeAll` — the events of a frame in order;
* `Session.Op`, `Session.apply`, `Session.run` — sequences of operations as data.

Main results:

* `Session.form_move` — moving the pointer leaves the form as it is.
-/

import StripeBrush.Panel.Form
import StripeBrush.Pointer
import StripeBrush.Sampler

set_option relaxedAutoImplicit false
set_option autoImplicit false

namespace StripeBrush

/-- A session of the brush. -/
structure Session where
  form : Form
  phase : Phase
  sampler : Sampler
deriving DecidableEq

namespace Session

/-! ### Start and end -/

/-- Picks up the brush with a preset.  Its values are moved into the ranges of the panel as edits
are. -/
def start (preset : Settings) : Except Fault Session :=
  match brushPanel preset with
  | .error e => .error (.refused e)
  | .ok panel =>
    match panel.clampedSettings preset with
    | .error fault => .error fault
    | .ok settings => .ok {
        form := ⟨panel.syncEnabled settings, settings⟩
        phase := .after .pickedUp
        sampler := .ofMinDistance settings.distance }

/-- The settings of the session. -/
def settings (s : Session) : Settings := s.form.settings

/-- Puts the brush down, and hands back its settings. -/
def finish (s : Session) : Settings := s.settings

/-! ### The panel -/

/-- An edit: its outcome, or why it failed, and the session after it.  The least travel that an edit
forwards goes to the sampler. -/
def edit (s : Session) (param : Param) (value : Value) : Except Fault EditOutcome × Session :=
  let (result, form) := s.form.edit param value
  match result with
  | .ok outcome =>
    (.ok outcome, { s with
      form
      sampler := (outcome.minDistance.map s.sampler.setMinDistance).getD s.sampler })
  | .error fault => (.error fault, { s with form })

/-- The flag of a widget set by hand: why that failed, if it did, and the session after it. -/
def setEnabled (s : Session) (param : Param) (enabled : Bool) : Except Fault Unit × Session :=
  let (result, form) := s.form.setEnabled param enabled
  (result, { s with form })

/-! ### The pointer -/

/-- The button goes down: a drag starts. -/
def down (s : Session) (pos : Vec) : Session :=
  { s with phase := .after .pressed, sampler := s.sampler.begin pos }

/-- The stripe that is drawn for a sample, if any. -/
def drag (s : Session) (sample : Sample) : Option Segment := s.phase.stripe s.settings sample

/-- The pointer moves: the stripes of the samples that its position completes. -/
def move (s : Session) (pos : Vec) : List Segment × Session :=
  let (samples, sampler) := s.sampler.sample pos
  (samples.filterMap s.drag, { s with sampler })

/-- The button is released: the drag is over. -/
def up (s : Session) : Session := { s with phase := .after .released, sampler := s.sampler.finish }

/-- A pointer event: the stripes that it draws, and the session after it. -/
def route (s : Session) : PointerEvent → List Segment × Session
  | .down pos => ([], s.down pos)
  | .move pos => s.move pos
  | .up => ([], s.up)

/-- Pointer events in order: each with the stripes that it draws, and the session after all. -/
def routeAll (s : Session) : List PointerEvent → List (PointerEvent × List Segment) × Session
  | [] => ([], s)
  | event :: events =>
    let (drawn, s') := s.route event
    let (rest, last) := s'.routeAll events
    ((event, drawn) :: rest, last)

@[simp] theorem form_move (s : Session) (pos : Vec) : (s.move pos).2.form = s.form := rfl

@[simp] theorem phase_move (s : Session) (pos : Vec) : (s.move pos).2.phase = s.phase := rfl

@[simp] theorem form_route (s : Session) (event : PointerEvent) :
    (s.route event).2.form = s.form := by
  cases event <;> rfl

/-! ### Runs of a session -/

/-- An operation of a session. -/
inductive Op where
  | edit (param : Param) (value : Value)
  | setEnabled (param : Param) (enabled : Bool)
  | down (pos : Vec)
  | move (pos : Vec)
  /-- A sample that was taken elsewhere. -/
  | drag (sample : Sample)
  | up
  | route (event : PointerEvent)
  /-- What the host reports for the canvas in one frame. -/
  | frame (input : CanvasInput)
deriving DecidableEq

/-- What an operation answers. -/
inductive Reply where
  | done
  | edited (outcome : EditOutcome)
  | failed (fault : Fault)
  /-- Whether the sample was drawn. -/
  | drew (drawn : Bool)
  /-- How many stripes were drawn. -/
  | count (n : Nat)
  /-- How many stripes each event of a frame drew. -/
  | counts (events : List (PointerEvent × Nat))
deriving DecidableEq

/-- What an edit answers, as an operation. -/
def Reply.ofEdit : Except Fault EditOutcome → Reply
  | .ok outcome => .edited outcome
  | .error fault => .failed fault

/-- What setting a flag by hand answers, as an operation. -/
def Reply.ofSetEnabled : Except Fault Unit → Reply
  | .ok () => .done
  | .error fault => .failed fault

/-- What an operation leads to: its answer, the stripes that it draws, and the session after it. -/
structure Step where
  reply : Reply
  drawn : List Segment := []
  session : Session
deriving DecidableEq

/-- One operation. -/
def apply (s : Session) : Op → Step
  | .edit param value =>
    let (result, session) := s.edit param value
    { reply := .ofEdit result, session }
  | .setEnabled param enabled =>
    let (result, session) := s.setEnabled param enabled
    { reply := .ofSetEnabled result, session }
  | .down pos => { reply := .done, session := s.down pos }
  | .move pos =>
    let (drawn, session) := s.move pos
    { reply := .count drawn.length, drawn, session }
  | .drag sample =>
    let drawn := (s.drag sample).toList
    { reply := .drew !drawn.isEmpty, drawn, session := s }
  | .up => { reply := .done, session := s.up }
  | .route event =>
    let (drawn, session) := s.route event
    { reply := .count drawn.length, drawn, session }
  | .frame input =>
    let (events, session) := s.routeAll input.events
    { reply := .counts (events.map fun e => (e.1, e.2.length))
      drawn := events.flatMap Prod.snd
      session }

/-- A sequence of operations: what each of them leads to. -/
def run (s : Session) : List Op → List Step
  | [] => []
  | op :: ops =>
    let step := s.apply op
    step :: step.session.run ops

/-- The session after a sequence of operations. -/
def after (s : Session) (ops : List Op) : Session := ops.foldl (fun s op => (s.apply op).session) s

/-- A session that some preset and some sequence of operations lead to. -/
def Reachable (s : Session) : Prop :=
  ∃ preset s₀ ops, start preset = .ok s₀ ∧ s = s₀.after ops

end Session

end StripeBrush
