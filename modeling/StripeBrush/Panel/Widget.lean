/-
**Widgets of a configuration panel.**

A widget is a labelled control for one parameter.  Its *specification* says which control it is
shown as, which range numbers are moved into, and what else happens when a value is stored; besides
that it only has a flag that says whether it takes input.

Main definitions:

* `Control`, `Range`, `Effect`, `WidgetSpec`, `Widget`;
* `PanelError` — why a panel or an edit is refused, with `PanelError.message`;
* `Fault` — a refusal, or a range that bounds nothing;
* `WidgetSpec.validate` — **what a widget makes of a value entered in it**.

Main results:

* `WidgetSpec.validate_flag_iff`, `WidgetSpec.validate_number_iff` — exactly which values are
  accepted.
-/

import StripeBrush.Settings

set_option relaxedAutoImplicit false
set_option autoImplicit false

namespace StripeBrush

/-! ### Specifications -/

/-- What a widget is shown as. -/
inductive Control where
  | slider
  | number
  | checkbox
deriving DecidableEq

/-- The range that a widget moves numbers into. -/
structure Range where
  lo : Binary32
  hi : Binary32
deriving DecidableEq

/-- A range bounds something: its ends are in order, and none of them is `NaN`. -/
def Range.Bounds (r : Range) : Prop := r.lo ≤ r.hi

instance (r : Range) : Decidable r.Bounds := inferInstanceAs (Decidable (r.lo ≤ r.hi))

/-- What happens after the value of a widget was stored. -/
inductive Effect where
  /-- Nothing else. -/
  | store
  /-- The value becomes the least travel between two drag samples, too. -/
  | forwardMinDistance
  /-- The widget of `target` is disabled while this one is checked. -/
  | disableWhenChecked (target : Param)
deriving DecidableEq

/-- The parameter whose widget is enabled and disabled by an effect. -/
def Effect.target? : Effect → Option Param
  | .disableWhenChecked target => some target
  | _ => none

/-- The description of a widget. -/
structure WidgetSpec where
  label : String
  control : Control
  range : Option Range := none
  effect : Effect := .store
deriving DecidableEq

/-- A widget: its description, and whether it takes input. -/
structure Widget where
  spec : WidgetSpec
  enabled : Bool := true
deriving DecidableEq

/-! ### Refusals -/

/-- Why a panel cannot be built, or an edit is not applied. -/
inductive PanelError where
  /-- There is no widget for the parameter. -/
  | unknownWidget (param : Param)
  /-- A second widget was registered for the parameter. -/
  | duplicateWidget (param : Param)
  /-- The widget does not take input. -/
  | widgetDisabled (param : Param)
  /-- The value has the wrong kind. -/
  | typeMismatch (mismatch : KindMismatch)
  /-- The number is infinite or `NaN`. -/
  | nonFinite (param : Param)
  /-- Widgets disable one another in a circle. -/
  | dependencyCycle (chain : List Param)
deriving DecidableEq

/-- The message of a refusal. -/
def PanelError.message : PanelError → String
  | unknownWidget p => "no widget registered for " ++ p.name
  | duplicateWidget p => "widget " ++ p.name ++ " registered twice"
  | widgetDisabled p => "widget " ++ p.name ++ " is disabled"
  | typeMismatch m => "widget " ++ m.message
  | nonFinite p => "widget " ++ p.name ++ " received a non-finite value"
  | dependencyCycle chain =>
    "enable/disable dependency cycle: " ++ " -> ".intercalate (chain.map Param.name)

/-- What keeps an operation of a panel from being carried out. -/
inductive Fault where
  /-- The operation is refused. -/
  | refused (error : PanelError)
  /-- A number is to be moved into a range that bounds nothing. -/
  | unbounded (range : Range)
deriving DecidableEq

/-! ### Validation -/

namespace WidgetSpec

/-- The kind of the values that are entered in a widget. -/
def kind (spec : WidgetSpec) : Kind :=
  match spec.control with
  | .checkbox => .flag
  | _ => .number

/-- A number moved into the range of the widget; without a range it is kept. -/
def clamp (spec : WidgetSpec) (x : Binary32) : Except Fault Binary32 :=
  match spec.range with
  | none => .ok x
  | some r =>
    match Binary.clamp? r.lo r.hi x with
    | some y => .ok y
    | none => .error (.unbounded r)

/-- What a widget for `param` makes of a value: a checkbox takes flags as they are, any other
control takes finite numbers and moves them into its range. -/
def validate (spec : WidgetSpec) (param : Param) (value : Value) : Except Fault Value :=
  match spec.kind, value with
  | .flag, .flag b => .ok (.flag b)
  | .number, .number x =>
    if x.isFinite then (spec.clamp x).map .number else .error (.refused (.nonFinite param))
  | expected, _ => .error (.refused (.typeMismatch ⟨param, expected⟩))

/-- A flag is accepted by a checkbox, as it is, and by nothing else. -/
theorem validate_flag_iff {spec : WidgetSpec} {param : Param} {b : Bool} {stored : Value} :
    spec.validate param (.flag b) = .ok stored ↔ spec.kind = .flag ∧ stored = .flag b := by
  unfold validate
  cases spec.kind <;> simp [eq_comm]

/-- A number is accepted by any control but a checkbox, if it is finite and can be moved into the
range. -/
theorem validate_number_iff {spec : WidgetSpec} {param : Param} {x : Binary32} {stored : Value} :
    spec.validate param (.number x) = .ok stored ↔
      spec.kind = .number ∧ x.isFinite = true ∧
        ∃ y, spec.clamp x = .ok y ∧ stored = .number y := by
  unfold validate
  cases spec.kind with
  | flag => simp
  | number =>
      cases hx : x.isFinite with
      | false => simp [hx]
      | true =>
          cases hc : spec.clamp x with
          | error e => simp [hx, hc, Except.map]
          | ok y =>
              simp only [hx, hc, if_true, Except.map]
              constructor
              · intro h
                exact ⟨trivial, trivial, y, rfl, (Except.ok.inj h).symm⟩
              · rintro ⟨-, -, z, hz, rfl⟩
                rw [Except.ok.inj hz]

end WidgetSpec

end StripeBrush
