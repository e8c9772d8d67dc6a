/-
**Settings as a preset.**

A preset is a text that holds settings as a record, with the parameters for its fields.  It is read
and written with a JSON library, by code that follows the declaration of the record: members are
read one after the other, a field that is not there has its default, and fields are written in their
order.

Main definitions:

* `Preset.Fields`, `Preset.settingsOf` — the fields that were read, and the settings that they make;
* `Preset.Codec` — **a library, with the code for the record**;
* `Settings.ofPreset`, `Settings.toPreset` — the settings of a preset, and the preset of some
  settings.
-/

import StripeBrush.Json.Library
import StripeBrush.Settings

set_option relaxedAutoImplicit false
set_option autoImplicit false

namespace StripeBrush

namespace Preset

/-- The values that were read so far, in the order of the text. -/
abbrev Fields := List (Param × Value)

/-- The settings with these values, and default values for the others. -/
def settingsOf (fields : Fields) : Settings :=
  fields.foldl (fun s field => (s.set field.1 field.2).toOption.getD s) Settings.default

/-- A JSON library, with the code that reads and writes the record of the parameters. -/
structure Codec (ε : Type) extends Json.Library ε where
  /-- The members of an object, after the fields that were read before them.  The flag says that
  there was no member yet. -/
  visit : Bool → Fields → List Char → Except ε (Fields × List Char)
  /-- The fields of a text. -/
  read : List Char → Except ε Fields
  /-- The text of some settings. -/
  write : Settings → Except ε (List Char)

namespace Codec

variable {ε : Type} (codec : Codec ε)

/-- The value of a parameter, after its key. -/
def nextValue (p : Param) (cs : List Char) : Except ε (Value × List Char) :=
  match p.kind with
  | .number => (codec.nextNumber cs).map fun r => (.number r.1, r.2)
  | .flag => (codec.nextFlag cs).map fun r => (.flag r.1, r.2)

/-- The text of a value. -/
def valueText : Value → List Char
  | .number x => codec.numberText x
  | .flag b => Json.flagText b

end Codec

end Preset

namespace Settings

variable {ε : Type} (codec : Preset.Codec ε)

/-- The settings of a preset. -/
def ofPreset (text : String) : Except ε Settings :=
  (codec.read text.toList).map Preset.settingsOf

/-- The preset of some settings. -/
def toPreset (s : Settings) : Except ε String := (codec.write s).map String.ofList

end Settings

end StripeBrush
