/-
**The settings of the stripe brush.**

The brush has four parameters, three numbers and one flag.  They are addressed by name, both by the
widgets of a panel and in preset texts; writing a value of the wrong kind is refused.

Main definitions:

* `Param` — the names, with `Param.name` and `Param.ofName?`;
* `Value` — a number or a flag, and its `Kind`;
* `Settings`, with `Settings.get` and `Settings.set`;
* `KindMismatch` — the refusal of a value, with its message.

Main results:

* `Param.ofName?_name` — every name is read back;
* `Settings.set_eq_ok_iff` — **a value is accepted exactly when it has the kind of the parameter**;
* `Settings.get_set_self`, `Settings.get_set_of_ne` — a write shows in the parameter written and in
  no other one.
-/

import StripeBrush.Binary.Arith

set_option relaxedAutoImplicit false
set_option autoImplicit false

namespace StripeBrush

/-- The name of the brush, for display. -/
def brushName : String := "Zebra"

/-! ### Parameters and values -/

/-- The parameters of the brush. -/
inductive Param where
  /-- The length of a stripe's half, where it is fixed. -/
  | offset
  /-- How far the pointer has to travel between two stripes. -/
  | distance
  /-- Whether a stripe is as long as the movement it crosses. -/
  | mouseOffset
  /-- A factor for brushes that respond to speed; stripes do not depend on it. -/
  | speedScale
deriving DecidableEq

namespace Param

/-- All parameters, in the order of the settings. -/
def all : List Param := [offset, distance, mouseOffset, speedScale]

/-- The letters of a parameter's name, as presets and messages have it. -/
def letters : Param → List Char
  | offset => ['o', 'f', 'f', 's', 'e', 't']
  | distance => ['d', 'i', 's', 't', 'a', 'n', 'c', 'e']
  | mouseOffset => ['m', 'o', 'u', 's', 'e', 'O', 'f', 'f', 's', 'e', 't']
  | speedScale => ['s', 'p', 'e', 'e', 'd', 'S', 'c', 'a', 'l', 'e']

/-- The name of a parameter. -/
def name (p : Param) : String := String.ofList p.letters

/-- The parameter whose name has these letters. -/
def ofLetters? (cs : List Char) : Option Param := all.find? fun p => p.letters == cs

/-- The parameter of a name. -/
def ofName? (s : String) : Option Param := ofLetters? s.toList

/-- The message for a name that is no parameter's. -/
def unknownMessage (s : String) : String := "unknown parameter: " ++ s

/-- Every name is read back. -/
theorem ofName?_name (p : Param) : ofName? p.name = some p := by
  simp only [ofName?, name, String.toList_ofList]
  cases p <;> decide

end Param

/-- The kinds of values. -/
inductive Kind where
  | number
  | flag
deriving DecidableEq

/-- The word for a kind in messages. -/
def Kind.word : Kind → String
  | number => "numeric"
  | flag => "boolean"

/-- The kind of a parameter. -/
def Param.kind : Param → Kind
  | .mouseOffset => .flag
  | _ => .number

/-- The value of a parameter. -/
inductive Value where
  | number (x : Binary32)
  | flag (b : Bool)
deriving DecidableEq

namespace Value

/-- The kind of a value. -/
def kind : Value → Kind
  | number _ => .number
  | flag _ => .flag

/-- The number that a value is, if it is one. -/
def number? : Value → Option Binary32
  | number x => some x
  | flag _ => none

/-- The flag that a value is, if it is one. -/
def flag? : Value → Option Bool
  | number _ => none
  | flag b => some b

end Value

/-- A value was refused because the parameter takes values of another kind. -/
structure KindMismatch where
  param : Param
  expected : Kind
deriving DecidableEq

/-- The message of a refusal. -/
def KindMismatch.message (e : KindMismatch) : String :=
  e.param.name ++ " expects a " ++ e.expected.word ++ " value"

/-! ### Settings -/

/-- A setting of all parameters. -/
structure Settings where
  offset : Binary32 := 10
  distance : Binary32 := 10
  mouseOffset : Bool := false
  speedScale : Binary32 := 1.5
deriving DecidableEq

namespace Settings

/-- The settings of a brush that nothing was changed on. -/
def default : Settings := {}

/-- The value of a parameter. -/
def get (s : Settings) : Param → Value
  | .offset => .number s.offset
  | .distance => .number s.distance
  | .mouseOffset => .flag s.mouseOffset
  | .speedScale => .number s.speedScale

/-- The settings with one value replaced.  Only the kind of the value is checked: its range is the
business of the widget that it was entered with. -/
def set (s : Settings) : Param → Value → Except KindMismatch Settings
  | .offset, .number x => .ok { s with offset := x }
  | .distance, .number x => .ok { s with distance := x }
  | .speedScale, .number x => .ok { s with speedScale := x }
  | .mouseOffset, .flag b => .ok { s with mouseOffset := b }
  | p, _ => .error ⟨p, p.kind⟩

/-- Numerical equality of two settings, which a setting that holds `NaN` does not even have with
itself. -/
def numEq (s t : Settings) : Bool :=
  s.offset.numEq t.offset && s.distance.numEq t.distance && s.mouseOffset == t.mouseOffset &&
    s.speedScale.numEq t.speedScale

@[simp] theorem kind_get (s : Settings) (p : Param) : (s.get p).kind = p.kind := by
  cases p <;> rfl

/-- **A value is accepted exactly when it has the kind of the parameter.** -/
theorem set_eq_ok_iff (s : Settings) (p : Param) (v : Value) :
    (∃ t, s.set p v = .ok t) ↔ v.kind = p.kind := by
  cases p <;> cases v <;> simp [set, Value.kind, Param.kind]

theorem set_of_kind_ne (s : Settings) {p : Param} {v : Value} (h : v.kind ≠ p.kind) :
    s.set p v = .error ⟨p, p.kind⟩ := by
  cases p <;> cases v <;> simp_all [set, Value.kind, Param.kind]

theorem get_set_self {s t : Settings} {p : Param} {v : Value} (h : s.set p v = .ok t) :
    t.get p = v := by
  cases p <;> cases v <;> simp [set] at h <;> subst h <;> rfl

theorem get_set_of_ne {s t : Settings} {p q : Param} {v : Value} (h : s.set p v = .ok t)
    (hq : q ≠ p) : t.get q = s.get q := by
  cases p <;> cases v <;> simp [set] at h <;> subst h <;> cases q <;>
    simp [get] at hq ⊢

theorem ext_get {s t : Settings} (h : ∀ p, s.get p = t.get p) : s = t := by
  have h1 := h .offset
  have h2 := h .distance
  have h3 := h .mouseOffset
  have h4 := h .speedScale
  cases s
  cases t
  simp_all [get]

end Settings

end StripeBrush
