/-
**Forms: a panel bound to settings.**

An edit goes through the widget of a parameter.  The value is validated, the settings with it are
staged, and what the widget has for an effect is looked into; only then the settings are written, and
the flag that the effect sets.  An edit gives the form back whether it was carried out or failed.

Main definitions:

* `EditOutcome` — what an edit changed;
* `Form`, and `Action` with `Form.exec` — what is done to a form, and how a failure leaves it;
* `Form.editing`, `Form.edit` — **an edit** — and `Form.setEnabled`, `Form.sync`;
* `Panel.clampedSettings` — settings with every bound value passed through its widget;
* `Form.Op`, `Form.apply`, `Form.run` — sequences of operations as data;
* `brushPanel` — the panel of the stripe brush.

Main results:

* `brushPanel_isOk` — the panel of the brush can be built.
-/

import StripeBrush.Panel.Basic

set_option relaxedAutoImplicit false
set_option autoImplicit false

namespace StripeBrush

/-- What an accepted edit changed: the parameter, the value as it was stored, the least travel
between drag samples where it is to be forwarded, and the widget whose flag was set. -/
structure EditOutcome where
  param : Param
  value : Value
  minDistance : Option Binary32 := none
  toggled : Option (Param × Bool) := none
deriving DecidableEq

/-- Settings with every value that has a widget passed through it, as if it had been entered there.
A value that the widget refuses becomes the default one. -/
def Panel.clampedSettings (panel : Panel) (s : Settings) : Except Fault Settings :=
  panel.widgets.foldlM (fun clamped e =>
    let store (value : Value) : Settings := (clamped.set e.1 value).toOption.getD clamped
    match e.2.spec.validate e.1 (s.get e.1) with
    | .ok value => .ok (store value)
    | .error (.refused _) => .ok (store (Settings.default.get e.1))
    | .error (.unbounded r) => .error (.unbounded r)) s

/-- A panel bound to settings. -/
structure Form where
  panel : Panel
  settings : Settings
deriving DecidableEq

/-- Something that is done to a form.  It may fail on the way, and gives the form back as it then
is: what was written before stays written. -/
abbrev Action (α : Type) := ExceptT Fault (StateM Form) α

namespace Form

/-- Does something to a form: its result or why it failed, and the form after it. -/
def exec {α : Type} (form : Form) (x : Action α) : Except Fault α × Form := x.run.run form

/-! ### The steps of an edit -/

/-- The widget that an edit goes through has to be there, and to take input. -/
def widgetFor (param : Param) : Action Widget := do
  match (← get).panel.widget? param with
  | none => throw (.refused (.unknownWidget param))
  | some widget =>
    if widget.enabled then return widget else throw (.refused (.widgetDisabled param))

/-- The value as the widget stores it. -/
def accept (widget : Widget) (param : Param) (value : Value) : Action Value :=
  match widget.spec.validate param value with
  | .ok stored => return stored
  | .error fault => throw fault

/-- The settings with the value stored, which are not written yet. -/
def stage (param : Param) (stored : Value) : Action Settings := do
  match (← get).settings.set param stored with
  | .ok staged => return staged
  | .error mismatch => throw (.refused (.typeMismatch mismatch))

/-- The flag that an effect goes by. -/
def checkedBy (param : Param) (stored : Value) : Action Bool :=
  match stored.flag? with
  | some checked => return checked
  | none => throw (.refused (.typeMismatch ⟨param, .flag⟩))

/-- The widget whose flag is to be set has to be there. -/
def findTarget (target : Param) : Action Unit := do
  if ((← get).panel.widget? target).isSome then return ()
  else throw (.refused (.unknownWidget target))

/-- Writes the settings. -/
def commit (staged : Settings) : Action Unit :=
  modify fun form => { form with settings := staged }

/-- Writes the flag of a widget. -/
def commitFlag (target : Param) (enabled : Bool) : Action Unit :=
  modify fun form => { form with panel := form.panel.setFlag target enabled }

/-- Carries out an effect, and writes the settings that were staged for it. -/
def runEffect (param : Param) (stored : Value) (staged : Settings) : Effect → Action EditOutcome
  | .store => do
    commit staged
    return { param, value := stored }
  | .forwardMinDistance => do
    commit staged
    return { param, value := stored, minDistance := stored.number? }
  | .disableWhenChecked target => do
    let checked ← checkedBy param stored
    findTarget target
    commit staged
    commitFlag target !checked
    return { param, value := stored, toggled := some (target, !checked) }

/-- An edit, step by step: every test comes before anything is written. -/
def editing (param : Param) (value : Value) : Action EditOutcome := do
  let widget ← widgetFor param
  let stored ← accept widget param value
  let staged ← stage param stored
  runEffect param stored staged widget.spec.effect

/-- An edit: its outcome, or why it failed, and the form after it in either case. -/
def edit (form : Form) (param : Param) (value : Value) : Except Fault EditOutcome × Form :=
  form.exec (editing param value)

/-- Sets the flag of a widget by hand. -/
def enabling (param : Param) (enabled : Bool) : Action Unit := do
  findTarget param
  commitFlag param enabled

/-- The flag of a widget set by hand: why that failed, if it did, and the form after it. -/
def setEnabled (form : Form) (param : Param) (enabled : Bool) : Except Fault Unit × Form :=
  form.exec (enabling param enabled)

/-- The form with every dependent flag in line with the settings. -/
def sync (form : Form) : Form := { form with panel := form.panel.syncEnabled form.settings }

/-! ### Runs of a form -/

/-- An operation on a form. -/
inductive Op where
  | edit (param : Param) (value : Value)
  | setEnabled (param : Param) (enabled : Bool)
  /-- Bring the dependent flags in line with the settings. -/
  | sync
  /-- Ask for the settings as the widgets would store them. -/
  | clamped
  /-- Replace the settings and leave the flags. -/
  | load (settings : Settings)
deriving DecidableEq

/-- What an operation answers. -/
inductive Reply where
  | done
  | edited (outcome : EditOutcome)
  | clamped (settings : Settings)
  | failed (fault : Fault)
deriving DecidableEq

/-- What an edit answers, as an operation. -/
def Reply.ofEdit : Except Fault EditOutcome → Reply
  | .ok outcome => .edited outcome
  | .error fault => .failed fault

/-- What setting a flag by hand answers, as an operation. -/
def Reply.ofSetEnabled : Except Fault Unit → Reply
  | .ok () => .done
  | .error fault => .failed fault

/-- One operation: its answer, and the form after it. -/
def apply (form : Form) : Op → Reply × Form
  | .edit param value =>
    let (result, form') := form.edit param value
    (.ofEdit result, form')
  | .setEnabled param enabled =>
    let (result, form') := form.setEnabled param enabled
    (.ofSetEnabled result, form')
  | .sync => (.done, form.sync)
  | .clamped =>
    match form.panel.clampedSettings form.settings with
    | .ok settings => (.clamped settings, form)
    | .error fault => (.failed fault, form)
  | .load settings => (.done, { form with settings })

/-- A sequence of operations: their answers, and the form after all. -/
def run (form : Form) : List Op → List Reply × Form
  | [] => ([], form)
  | op :: ops =>
    let (reply, form') := form.apply op
    let (replies, last) := form'.run ops
    (reply :: replies, last)

end Form

/-! ### The panel of the brush -/

/-- The widgets of the stripe brush. -/
def brushWidgets : List Registration := [
  (.distance,
    { label := "Spacing", control := .number, range := some ⟨0, Binary.maxFinite _⟩,
      effect := .forwardMinDistance }),
  (.offset, { label := "Size", control := .number, range := some ⟨0, 500⟩ }),
  (.mouseOffset,
    { label := "Dynamic size", control := .checkbox, effect := .disableWhenChecked .offset }),
  (.speedScale, { label := "Speed scale", control := .slider, range := some ⟨0, 10⟩ })]

/-- The panel of the stripe brush, with flags in line with the settings. -/
def brushPanel (s : Settings) : Except PanelError Panel :=
  (Panel.build brushName brushWidgets).map fun panel => panel.syncEnabled s

/-- The panel of the brush before any flag is brought in line: all its widgets take input. -/
def freshBrushPanel : Panel :=
  ⟨brushName, brushWidgets.map fun r => (r.1, { spec := r.2 })⟩

/-- The panel of the brush can be built, whatever the settings are. -/
theorem brushPanel_isOk (s : Settings) : brushPanel s = .ok (freshBrushPanel.syncEnabled s) := by
  have h : registrationError? brushWidgets = none := by decide
  simp [brushPanel, Panel.build, h, freshBrushPanel, Except.map]

end StripeBrush
