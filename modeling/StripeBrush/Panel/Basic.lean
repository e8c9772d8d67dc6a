/-
**Configuration panels.**

A panel is a titled list of widgets, at most one for each parameter.  A checkbox may disable one
other widget while it is checked; a panel in which such dependencies lead to a widget that is not
there, start at something other than a checkbox, or run in a circle is not built.

Main definitions:

* `Panel`, with `Panel.widget?`, `Panel.enabled?` and `Panel.setFlag`;
* `firstRepeated`, `dependencyError?`, `cycleFrom?` — the three things that are wrong with a list of
  registrations;
* `Panel.build` — **the panel of a list of registrations**;
* `Panel.syncEnabled` — every dependent flag brought in line with some settings.

Main results:

* `Panel.build_eq_ok` — a panel that is built holds its registrations in order, all enabled;
* `Panel.specs_setFlag` — setting a flag changes no description.
-/

import StripeBrush.Panel.Widget

set_option relaxedAutoImplicit false
set_option autoImplicit false

namespace StripeBrush

/-- A widget to be registered for a parameter. -/
abbrev Registration := Param × WidgetSpec

/-- A panel: its title, and its widgets in the order they were registered in. -/
structure Panel where
  title : String
  widgets : List (Param × Widget)
deriving DecidableEq

namespace Panel

/-! ### Looking up and enabling widgets -/

/-- The widget of a parameter. -/
def widget? (panel : Panel) (p : Param) : Option Widget := panel.widgets.lookup p

/-- Whether the widget of a parameter takes input. -/
def enabled? (panel : Panel) (p : Param) : Option Bool := (panel.widget? p).map Widget.enabled

/-- The flags of all widgets, in order. -/
def flags (panel : Panel) : List (Param × Bool) := panel.widgets.map fun e => (e.1, e.2.enabled)

/-- The registrations that a panel was built from. -/
def specs (panel : Panel) : List Registration := panel.widgets.map fun e => (e.1, e.2.spec)

/-- The panel with the flag of a widget set.  A parameter without a widget has no flag. -/
def setFlag (panel : Panel) (p : Param) (enabled : Bool) : Panel :=
  { panel with
    widgets := panel.widgets.map fun e => if e.1 = p then (e.1, { e.2 with enabled }) else e }

@[simp] theorem specs_setFlag (panel : Panel) (p : Param) (enabled : Bool) :
    (panel.setFlag p enabled).specs = panel.specs := by
  simp only [specs, setFlag, List.map_map]
  apply List.map_congr_left
  intro e _
  simp only [Function.comp]
  split <;> rfl

@[simp] theorem title_setFlag (panel : Panel) (p : Param) (enabled : Bool) :
    (panel.setFlag p enabled).title = panel.title := rfl

/-- The dependencies that the settings decide on: for every widget that may disable another one, and
whose parameter is a flag, the other one and whether it is enabled. -/
def dependentFlags (panel : Panel) (s : Settings) : List (Param × Bool) :=
  panel.widgets.filterMap fun e =>
    match e.2.spec.effect.target?, (s.get e.1).flag? with
    | some target, some checked => some (target, !checked)
    | _, _ => none

/-- The panel with every dependent flag in line with the settings. -/
def syncEnabled (panel : Panel) (s : Settings) : Panel :=
  (panel.dependentFlags s).foldl (fun q e => q.setFlag e.1 e.2) panel

end Panel

/-! ### Building a panel -/

/-- The first parameter of the list that occurs in `seen` or earlier in the list. -/
def firstRepeated (seen : List Param) : List Param → Option Param
  | [] => none
  | p :: rest => if p ∈ seen then some p else firstRepeated (p :: seen) rest

/-- What is wrong with the dependency of one registration: it must start at a checkbox, and its
target must be registered. -/
def dependencyError? (registered : List Param) (r : Registration) : Option PanelError :=
  match r.2.effect.target? with
  | none => none
  | some target =>
    if r.2.kind ≠ .flag then some (.typeMismatch ⟨r.1, .flag⟩)
    else if target ∉ registered then some (.unknownWidget target)
    else none

/-- The parameter whose widget the widget of `p` disables. -/
def targetOf (registrations : List Registration) (p : Param) : Option Param :=
  (registrations.lookup p).bind fun spec => spec.effect.target?

/-- Follows dependencies from `current`, which ends the chain of parameters passed so far.  Coming
back to one of them closes a circle, which is given back from its first passing to its second. -/
def cycleFrom? (registrations : List Registration) :
    Nat → List Param → Param → Option (List Param)
  | 0, _, _ => none
  | fuel + 1, chain, current =>
    match targetOf registrations current with
    | none => none
    | some next =>
      if next ∈ chain then some (chain.dropWhile (fun p => !decide (p = next)) ++ [next])
      else cycleFrom? registrations fuel (chain ++ [next]) next

/-- The first circle that is met when dependencies are followed from each registration in turn.  A
chain without a repetition is no longer than the list of registrations. -/
def cycle? (registrations : List Registration) : Option (List Param) :=
  registrations.findSome? fun r => cycleFrom? registrations registrations.length [r.1] r.1

/-- What is wrong with a list of registrations: a parameter registered twice, else a dependency that
cannot be, else a circle of dependencies. -/
def registrationError? (registrations : List Registration) : Option PanelError :=
  let registered := registrations.map Prod.fst
  match firstRepeated [] registered with
  | some p => some (.duplicateWidget p)
  | none =>
    match registrations.findSome? (dependencyError? registered) with
    | some e => some e
    | none => (cycle? registrations).map .dependencyCycle

/-- The panel of a list of registrations. -/
def Panel.build (title : String) (registrations : List Registration) : Except PanelError Panel :=
  match registrationError? registrations with
  | some e => .error e
  | none => .ok ⟨title, registrations.map fun r => (r.1, { spec := r.2 })⟩

/-- A panel that is built holds its registrations in order, all enabled. -/
theorem Panel.build_eq_ok {title : String} {registrations : List Registration} {panel : Panel}
    (h : Panel.build title registrations = .ok panel) :
    panel = ⟨title, registrations.map fun r => (r.1, { spec := r.2 })⟩ := by
  unfold Panel.build at h
  split at h
  · simp at h
  · exact (Except.ok.inj h).symm

end StripeBrush
