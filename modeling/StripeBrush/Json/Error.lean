/-
**What is wrong with a JSON text.**

A text that is read for a purpose fails in one of three ways: it ends too early, it is not JSON, or
it is JSON with a value of the wrong type, or a field twice.  Failures come in the order of the
text.

Main definitions:

* `Json.Place`, `Json.Malformed`, `Json.Found` — where a text ended, how it is malformed, and which
  value was found in place of the expected one;
* `Json.ReadError`, with its category and its message;
* `Json.Reader` — a function that takes something off the front of a text.
-/

import StripeBrush.Json.Library
import StripeBrush.Text.Quoted

set_option relaxedAutoImplicit false
set_option autoImplicit false

namespace StripeBrush.Json

/-- What a text can end within. -/
inductive Place where
  | value
  | object
  | list
  | text
deriving DecidableEq

/-- The word for a place in messages. -/
def Place.word : Place → String
  | value => "a value"
  | object => "an object"
  | list => "a list"
  | text => "a string"

/-- How a text fails to be JSON. -/
inductive Malformed where
  | expectedValue
  | expectedIdent
  | expectedColon
  | expectedCommaOrBrace
  | expectedCommaOrBracket
  | trailingComma
  | trailingCharacters
  | keyNotText
  | invalidNumber
  | numberOutOfRange
  | invalidEscape
  /-- Half of a surrogate pair is not followed by an escape. -/
  | unfinishedPair
  /-- Half of a surrogate pair is not followed by the other half. -/
  | loneSurrogate
  | controlCharacter
deriving DecidableEq

/-- The message for a malformed text. -/
def Malformed.message : Malformed → String
  | expectedValue => "expected value"
  | expectedIdent => "expected ident"
  | expectedColon => "expected `:`"
  | expectedCommaOrBrace => "expected `,` or `\x7d`"
  | expectedCommaOrBracket => "expected `,` or `]`"
  | trailingComma => "trailing comma"
  | trailingCharacters => "trailing characters"
  | keyNotText => "key must be a string"
  | invalidNumber => "invalid number"
  | numberOutOfRange => "number out of range"
  | invalidEscape => "invalid escape"
  | unfinishedPair => "unexpected end of hex escape"
  | loneSurrogate => "lone leading surrogate in hex escape"
  | controlCharacter => "control character (\\u0000-\\u001F) found while parsing a string"

/-- A value that was found where one of another type was expected. -/
inductive Found where
  | null
  | flag (b : Bool)
  | integer (z : Int)
  | real (x : Binary64)
  | text (cs : List Char)
  | list
  | object
deriving DecidableEq

/-- How numbers with a fraction or an exponent are laid out in messages. -/
def messageLayout : DecimalLayout := ⟨-5, 15⟩

/-- The word for a value that was found. -/
def Found.word : Found → String
  | null => "null"
  | flag b => "boolean `" ++ (if b then "true" else "false") ++ "`"
  | integer z => "integer `" ++ toString z ++ "`"
  | real x => "floating point `" ++ String.ofList ((x.render messageLayout).getD []) ++ "`"
  | text cs => "string " ++ String.ofList (Text.quoted cs)
  | list => "sequence"
  | object => "map"

/-- Why a text cannot be read. -/
inductive ReadError where
  /-- The text ended too early. -/
  | ended (inside : Place)
  /-- The text is not JSON. -/
  | malformed (how : Malformed)
  /-- A value has the wrong type. -/
  | wrongType (found : Found) (expected : String)
  /-- A field that is known occurs twice. -/
  | duplicateField (name : String)
deriving DecidableEq

namespace ReadError

/-- The category of an error. -/
def category : ReadError → Category
  | ended _ => .eof
  | malformed _ => .syntactic
  | wrongType _ _ => .data
  | duplicateField _ => .data

/-- The message of an error. -/
def message : ReadError → String
  | ended inside => "EOF while parsing " ++ inside.word
  | malformed how => how.message
  | wrongType found expected => "invalid type: " ++ found.word ++ ", expected " ++ expected
  | duplicateField name => "duplicate field `" ++ name ++ "`"

end ReadError

/-- A function that takes a value off the front of a text, and gives back the rest. -/
abbrev Reader (α : Type) := List Char → Except ReadError (α × List Char)

section Steps

variable {α β : Type} {r : Except ReadError α} {b : β}

theorem exists_of_bind_eq_ok {f : α → Except ReadError β} (h : (r >>= f) = .ok b) :
    ∃ a, r = .ok a ∧ f a = .ok b := by
  cases r with
  | error => cases h
  | ok a => exact ⟨a, rfl, h⟩

theorem exists_of_map_eq_ok {f : α → β} (h : r.map f = .ok b) : ∃ a, r = .ok a ∧ f a = b := by
  cases r with
  | error => cases h
  | ok a => exact ⟨a, rfl, Except.ok.inj h⟩

end Steps

/-! ### Blanks and words -/

/-- A text without the blanks at its front. -/
def skipBlanks (cs : List Char) : List Char := cs.dropWhile isBlank

theorem skipBlanks_cons_of_blank {c : Char} (hc : isBlank c = true) (cs : List Char) :
    skipBlanks (c :: cs) = skipBlanks cs :=
  List.dropWhile_cons_of_pos hc

theorem skipBlanks_cons {c : Char} (hc : isBlank c = false) (cs : List Char) :
    skipBlanks (c :: cs) = c :: cs :=
  List.dropWhile_cons_of_neg (Bool.not_eq_true _ ▸ hc)

theorem length_skipBlanks_le (cs : List Char) : (skipBlanks cs).length ≤ cs.length :=
  (List.dropWhile_suffix isBlank).length_le

/-- The rest of a text after the remaining letters of a fixed word. -/
def readWord : List Char → List Char → Except ReadError (List Char)
  | [], cs => .ok cs
  | _ :: _, [] => .error (.ended .value)
  | letter :: letters, c :: cs =>
    if c = letter then readWord letters cs else .error (.malformed .expectedIdent)

theorem readWord_append (letters cs : List Char) : readWord letters (letters ++ cs) = .ok cs := by
  induction letters with
  | nil => rfl
  | cons c letters ih => simp [readWord, ih]

theorem length_le_of_readWord {letters cs rest : List Char} (h : readWord letters cs = .ok rest) :
    rest.length ≤ cs.length := by
  induction letters generalizing cs with
  | nil =>
      obtain rfl := Except.ok.inj h
      exact Nat.le_refl _
  | cons c letters ih =>
      cases cs with
      | nil => cases h
      | cons d cs =>
          rw [readWord] at h
          split at h
          · exact Nat.le_succ_of_le (ih h)
          · cases h

end StripeBrush.Json
