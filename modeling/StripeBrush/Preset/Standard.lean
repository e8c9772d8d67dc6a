/-
**The code behind presets.**

A preset is a JSON object whose members are parameters by name, in any order, or a JSON list of
their values in the order of the settings.  A parameter that is not there has its default value; a
name that is not a parameter's is passed over with its value, which only has to be JSON.  A
parameter that occurs twice, and a value of the wrong type, are refused as soon as they are met.
Settings are written as an object, with each member on a line of its own.

Main definitions:

* `Preset.readValue` — the value of one parameter;
* `Preset.readMembers`, `Preset.readElements` — the two forms of a preset;
* `Preset.settingsText` — the text of some settings;
* `Preset.standard` — **the code**, with the library that it uses.
-/

import StripeBrush.Json.Standard
import StripeBrush.Preset.Codec

set_option relaxedAutoImplicit false
set_option autoImplicit false

namespace StripeBrush.Preset

open Json

/-- The value of a parameter. -/
def readValue (p : Param) : Reader Value := fun cs =>
  match p.kind with
  | .number => (readNumberValue cs).map fun r => (.number r.1, r.2)
  | .flag => (readFlagValue cs).map fun r => (.flag r.1, r.2)

theorem length_le_of_readValue {p : Param} {cs rest : List Char} {v : Value}
    (h : readValue p cs = .ok (v, rest)) : rest.length ≤ cs.length := by
  unfold readValue at h
  split at h
  · obtain ⟨_, hvalue, hrest⟩ := exists_of_map_eq_ok h
    cases hrest
    exact length_le_of_readNumberValue hvalue
  · obtain ⟨_, hvalue, hrest⟩ := exists_of_map_eq_ok h
    cases hrest
    exact length_le_of_readFlagValue hvalue

/-! ### Members of an object -/

/-- The member whose key was just read: the value of a parameter that does not have one yet, or
anything at all under another name. -/
def readMember (fields : Fields) (key : List Char) : Reader Fields := fun cs =>
  match Param.ofLetters? key with
  | none => (skipNext cs).map fun rest => (fields, rest)
  | some p =>
    if fields.any fun field => field.1 = p then .error (.duplicateField p.name)
    else (afterColon (readValue p) cs).map fun r => (fields ++ [(p, r.1)], r.2)

theorem length_le_of_readMember {fields fields' : Fields} {key cs rest : List Char}
    (h : readMember fields key cs = .ok (fields', rest)) : rest.length ≤ cs.length := by
  unfold readMember at h
  split at h
  · obtain ⟨_, hskip, hrest⟩ := exists_of_map_eq_ok h
    cases hrest
    exact length_le_of_skipNext hskip
  · split at h
    · cases h
    · obtain ⟨_, hvalue, hrest⟩ := exists_of_map_eq_ok h
      cases hrest
      exact length_le_of_afterColon length_le_of_readValue hvalue

/-- The members of an object, after the fields that were read before them. -/
def readMembers (isFirst : Bool) (fields : Fields) (cs : List Char) :
    Except ReadError (Fields × List Char) :=
  match _hkey : nextKey isFirst cs with
  | .error e => .error e
  | .ok (none, rest) => .ok (fields, rest)
  | .ok (some key, rest) =>
    match _hmember : readMember fields key rest with
    | .error e => .error e
    | .ok (fields, rest) => readMembers false fields rest
termination_by cs.length
decreasing_by
  exact Nat.lt_of_le_of_lt (length_le_of_readMember _hmember) (length_lt_of_nextKey _hkey)

/-! ### Elements of a list -/

/-- The end of a list that has given a value to every parameter. -/
def readListEnd (cs : List Char) : Except ReadError (List Char) :=
  match skipBlanks cs with
  | [] => .error (.ended .list)
  | ']' :: rest => .ok rest
  | ',' :: rest =>
    match skipBlanks rest with
    | ']' :: _ => .error (.malformed .trailingComma)
    | _ => .error (.malformed .trailingCharacters)
  | _ => .error (.malformed .trailingCharacters)

/-- The elements of a list for the parameters that are left. -/
def readElementsAux : List Param → Bool → Fields → Reader Fields
  | [], _, fields, cs => (readListEnd cs).map fun rest => (fields, rest)
  | p :: params, isFirst, fields, cs =>
    let element (cs : List Char) : Except ReadError (Fields × List Char) := do
      let (value, rest) ← readValue p cs
      readElementsAux params false (fields ++ [(p, value)]) rest
    match skipBlanks cs with
    | [] => .error (.ended .list)
    | ']' :: rest => .ok (fields, rest)
    | c :: rest =>
      if isFirst then element (c :: rest)
      else if c = ',' then
        match skipBlanks rest with
        | [] => .error (.ended .value)
        | ']' :: _ => .error (.malformed .trailingComma)
        | rest => element rest
      else .error (.malformed .expectedCommaOrBracket)

/-- The elements of a list, after its opening bracket: values of the parameters in their order,
where the last ones may be missing. -/
def readElements (cs : List Char) : Except ReadError (Fields × List Char) :=
  readElementsAux Param.all true [] cs

/-! ### Presets -/

/-- The values of a preset, and the rest of the text after it. -/
def readFields (cs : List Char) : Except ReadError (Fields × List Char) :=
  match skipBlanks cs with
  | '[' :: rest => readElements rest
  | _ => Json.standard.openObject cs >>= readMembers true []

/-- The values of a preset, which nothing but blanks may follow. -/
def read (cs : List Char) : Except ReadError Fields := do
  let (fields, rest) ← readFields cs
  let _ ← finish rest
  return fields

/-- The member of a parameter: its name and its value. -/
def memberText (s : Settings) (p : Param) : List Char :=
  let value := match s.get p with
    | .number x => Json.standard.numberText x
    | .flag b => flagText b
  ' ' :: ' ' :: '"' :: (p.letters ++ '"' :: ':' :: ' ' :: value)

/-- The text of some settings. -/
def settingsText (s : Settings) : List Char :=
  '\x7b' :: '\n' :: ([',', '\n'].intercalate (Param.all.map (memberText s)) ++ ['\n', '\x7d'])

/-- The code, with the library that it uses. -/
def standard : Codec ReadError where
  toLibrary := Json.standard
  visit := readMembers
  read := read
  write s := .ok (settingsText s)

end StripeBrush.Preset
