/-
**The library behind presets.**

The pieces of a text, put together to a library: what a record needs of an object, and how numbers
are printed.

Main definitions:

* `Json.readNumberValue`, `Json.readFlagValue` — a value where a number or a flag is expected;
* `Json.wrongValue` — a value of another type than the one expected;
* `Json.nextKey`, `Json.afterColon` — between the values of an object;
* `Json.standard` — **the library**.
-/

import StripeBrush.Json.Skip

set_option relaxedAutoImplicit false
set_option autoImplicit false

namespace StripeBrush.Json

/-! ### Values -/

/-- The value that starts with `c`, read as far as is needed to say what it is. -/
def findValue (c : Char) (cs : List Char) : Except ReadError Found :=
  match wordAfter c with
  | some letters => (readWord letters cs).map fun _ => if c = 'n' then .null else .flag (c == 't')
  | none =>
    if c = '-' then (readNumber true cs).map fun r => r.1.found
    else if c.isDigit then (readNumber false (c :: cs)).map fun r => r.1.found
    else if c = '"' then (readText true cs).map fun r => .text r.1
    else if c = '[' then .ok .list
    else if c = '\x7b' then .ok .object
    else .error (.malformed .expectedValue)

/-- The value that starts with `c` is found where another type is expected. -/
def wrongValue {α : Type} (expected : String) (c : Char) (cs : List Char) : Except ReadError α :=
  findValue c cs >>= fun found => .error (.wrongType found expected)

theorem wrongValue_ne_ok {α : Type} {expected : String} {c : Char} {cs : List Char} {a : α}
    (h : wrongValue expected c cs = .ok a) : False := by
  obtain ⟨_, -, h⟩ := exists_of_bind_eq_ok h
  cases h

/-- A number, where one is expected. -/
def readNumberValue : Reader Binary32 := fun cs =>
  match skipBlanks cs with
  | [] => .error (.ended .value)
  | c :: rest =>
    if c = '-' then (readNumber true rest).map fun r => (r.1.toBinary32, r.2)
    else if c.isDigit then (readNumber false (c :: rest)).map fun r => (r.1.toBinary32, r.2)
    else wrongValue "f32" c rest

theorem length_le_of_readNumberValue {cs rest : List Char} {x : Binary32}
    (h : readNumberValue cs = .ok (x, rest)) : rest.length ≤ cs.length := by
  have hle := length_skipBlanks_le cs
  unfold readNumberValue at h
  split at h
  · cases h
  · next heq =>
      rw [heq] at hle
      split at h
      · obtain ⟨_, hnumber, hrest⟩ := exists_of_map_eq_ok h
        cases hrest
        exact Nat.le_trans (length_le_of_readNumber hnumber) (Nat.le_of_succ_le hle)
      · split at h
        · obtain ⟨_, hnumber, hrest⟩ := exists_of_map_eq_ok h
          cases hrest
          exact Nat.le_trans (length_le_of_readNumber hnumber) hle
        · exact (wrongValue_ne_ok h).elim

/-- A flag, where one is expected. -/
def readFlagValue : Reader Bool := fun cs =>
  match skipBlanks cs with
  | [] => .error (.ended .value)
  | c :: rest =>
    if c = 't' ∨ c = 'f' then
      (readWord ((wordAfter c).getD []) rest).map fun rest => (c == 't', rest)
    else wrongValue "a boolean" c rest

theorem length_le_of_readFlagValue {cs rest : List Char} {b : Bool}
    (h : readFlagValue cs = .ok (b, rest)) : rest.length ≤ cs.length := by
  have hle := length_skipBlanks_le cs
  unfold readFlagValue at h
  split at h
  · cases h
  · next heq =>
      rw [heq] at hle
      split at h
      · obtain ⟨_, hword, hrest⟩ := exists_of_map_eq_ok h
        cases hrest
        exact Nat.le_trans (length_le_of_readWord hword) (Nat.le_of_succ_le hle)
      · exact (wrongValue_ne_ok h).elim

/-! ### Objects -/

/-- The rest of a text after the brace that opens an object. -/
def openObject (expected : String) (cs : List Char) : Except ReadError (List Char) :=
  match skipBlanks cs with
  | [] => .error (.ended .value)
  | '{' :: rest => .ok rest
  | c :: rest => wrongValue expected c rest

/-- The rest of a text after the quotation mark of the next key, or `none` with the rest after the
brace that closes the object. -/
def nextQuote (isFirst : Bool) (cs : List Char) : Except ReadError (Bool × List Char) :=
  match skipBlanks cs with
  | [] => .error (.ended .object)
  | '}' :: rest => .ok (false, rest)
  | c :: rest =>
    if isFirst then
      if c = '"' then .ok (true, rest) else .error (.malformed .keyNotText)
    else if c = ',' then
      match skipBlanks rest with
      | [] => .error (.ended .value)
      | '"' :: rest => .ok (true, rest)
      | '}' :: _ => .error (.malformed .trailingComma)
      | _ => .error (.malformed .keyNotText)
    else .error (.malformed .expectedCommaOrBrace)

theorem length_le_of_nextQuote {isFirst goesOn : Bool} {cs rest : List Char}
    (h : nextQuote isFirst cs = .ok (goesOn, rest)) : rest.length ≤ cs.length := by
  have hle := length_skipBlanks_le cs
  unfold nextQuote at h
  split at h
  · cases h
  · next heq =>
      cases h
      rw [heq] at hle
      exact Nat.le_of_succ_le hle
  · next heq =>
      rw [heq] at hle
      have hle := Nat.le_of_succ_le hle
      split at h
      · split at h
        · cases h
          exact hle
        · cases h
      · split at h
        · have hle' := Nat.le_trans (length_skipBlanks_le _) hle
          split at h
          · cases h
          · next heq' =>
              cases h
              rw [heq'] at hle'
              exact Nat.le_of_succ_le hle'
          · cases h
          · cases h
        · cases h

/-- The next key of an object, or its end. -/
def nextKey (isFirst : Bool) : Reader (Option (List Char)) := fun cs => do
  let (goesOn, rest) ← nextQuote isFirst cs
  if goesOn then (readText true rest).map fun r => (some r.1, r.2) else .ok (none, rest)

theorem length_lt_of_nextKey {isFirst : Bool} {cs rest key : List Char}
    (h : nextKey isFirst cs = .ok (some key, rest)) : rest.length < cs.length := by
  obtain ⟨⟨goesOn, rest'⟩, hquote, h⟩ := exists_of_bind_eq_ok h
  have hle := length_le_of_nextQuote hquote
  cases goesOn with
  | false => cases h
  | true =>
      obtain ⟨_, htext, hrest⟩ := exists_of_map_eq_ok h
      cases hrest
      exact Nat.lt_of_lt_of_le (length_lt_of_readText htext) hle

/-- A value after its colon. -/
def afterColon {α : Type} (value : Reader α) : Reader α := fun cs => readColon cs >>= value

theorem length_le_of_afterColon {α : Type} {value : Reader α} {cs rest : List Char} {a : α}
    (hvalue : ∀ {cs rest a}, value cs = .ok (a, rest) → rest.length ≤ cs.length)
    (h : afterColon value cs = .ok (a, rest)) : rest.length ≤ cs.length := by
  obtain ⟨_, hcolon, h⟩ := exists_of_bind_eq_ok h
  exact Nat.le_trans (hvalue h) (length_le_of_readColon hcolon)

/-- The rest of a text after a colon and any value. -/
def skipNext (cs : List Char) : Except ReadError (List Char) := readColon cs >>= skipValue

theorem length_le_of_skipNext {cs rest : List Char} (h : skipNext cs = .ok rest) :
    rest.length ≤ cs.length := by
  obtain ⟨_, hcolon, h⟩ := exists_of_bind_eq_ok h
  exact Nat.le_trans (length_le_of_skipValue h) (length_le_of_readColon hcolon)

/-- Nothing but blanks may follow. -/
def finish (cs : List Char) : Except ReadError Unit :=
  if skipBlanks cs = [] then .ok () else .error (.malformed .trailingCharacters)

/-! ### The library -/

/-- How the numbers of a record are laid out. -/
def recordLayout : DecimalLayout := ⟨-6, 12⟩

/-- The library. -/
def standard : Library ReadError where
  category := ReadError.category
  outOfRange := .malformed .numberOutOfRange
  duplicateField := .duplicateField
  openObject := openObject "struct ToolState"
  nextKey := nextKey
  nextNumber := afterColon readNumberValue
  nextFlag := afterColon readFlagValue
  skipNext := skipNext
  finish := finish
  scale := scale
  layout := recordLayout
  numberText x := (x.render recordLayout).getD nullText

end StripeBrush.Json
