/-
**What the characters of a JSON text mean.**

A text consists of words, numbers, strings and brackets, with blanks between them.  A string may
have its characters escaped, by a letter or by the unit of sixteen bits that they are.  The digits of
a number are gathered into a *significand* below `2 ^ 64`, which is exact; a number with a point, an
exponent or more digits than that is its significand in double precision, times a power of ten.

Main definitions:

* `Json.isBlank`, `Json.wordAfter`, `Json.Bracket` — blanks, words and brackets;
* `Json.isPlain`, `Json.letterEscape`, `Json.hexValue`, `Json.pairChar` — the characters of a string;
* `Json.Number`, with `Json.Number.toBinary32` — a number of a text;
* `Json.absorb` — the significand of some digits;
* `Json.timesTenTo` — a number times a power of ten, in double precision.
-/

import StripeBrush.Binary.Arith

set_option relaxedAutoImplicit false
set_option autoImplicit false

namespace StripeBrush.Json

attribute [local instance (high)] instPowNat

/-! ### Blanks, words and brackets -/

/-- Blanks between the parts of a text. -/
def isBlank (c : Char) : Bool := c == ' ' || c == '\n' || c == '\t' || c == '\r'

theorem isBlank_of_isDigit {c : Char} (h : c.isDigit = true) : isBlank c = false := by
  simp only [isBlank, Bool.or_eq_false_iff, beq_eq_false_iff_ne]
  refine ⟨⟨⟨?_, ?_⟩, ?_⟩, ?_⟩ <;> rintro rfl <;> cases h

/-- The remaining letters of the words for `null`, `true` and `false`, after the first one. -/
def wordAfter : Char → Option (List Char)
  | 'n' => some ['u', 'l', 'l']
  | 't' => some ['r', 'u', 'e']
  | 'f' => some ['a', 'l', 's', 'e']
  | _ => none

/-- The word for nothing. -/
def nullText : List Char := ['n', 'u', 'l', 'l']

/-- The word for a flag. -/
def flagText (b : Bool) : List Char := if b then ['t', 'r', 'u', 'e'] else ['f', 'a', 'l', 's', 'e']

/-- What can be open around a value. -/
inductive Bracket where
  | list
  | object
deriving DecidableEq

namespace Bracket

/-- The character that opens a bracket. -/
def opening : Bracket → Char
  | list => '['
  | object => '{'

/-- The character that closes a bracket. -/
def close : Bracket → Char
  | list => ']'
  | object => '}'

end Bracket

/-! ### Strings -/

/-- A character that stands for itself in a string. -/
def isPlain (c : Char) : Bool := c != '"' && c != '\\' && 0x20 ≤ c.toNat

/-- The character of an escape by a single letter. -/
def letterEscape : Char → Option Char
  | '"' => some '"'
  | '\\' => some '\\'
  | '/' => some '/'
  | 'b' => some '\x08'
  | 'f' => some '\x0c'
  | 'n' => some '\n'
  | 'r' => some '\r'
  | 't' => some '\t'
  | _ => none

/-- The value of a hexadecimal digit. -/
def hexValue (c : Char) : Option Nat :=
  if c.isDigit then some (c.toNat - '0'.toNat)
  else if 'a' ≤ c ∧ c ≤ 'f' then some (c.toNat - 'a'.toNat + 10)
  else if 'A' ≤ c ∧ c ≤ 'F' then some (c.toNat - 'A'.toNat + 10)
  else none

/-- The unit is the first half of a surrogate pair. -/
def isLeading (unit : Nat) : Bool := 0xD800 ≤ unit && unit ≤ 0xDBFF

/-- The unit is the second half of a surrogate pair. -/
def isTrailing (unit : Nat) : Bool := 0xDC00 ≤ unit && unit ≤ 0xDFFF

/-- The character of a surrogate pair. -/
def pairChar (leading trailing : Nat) : Char :=
  Char.ofNat (0x10000 + (leading - 0xD800) * 0x400 + (trailing - 0xDC00))

/-! ### Numbers -/

/-- A number as it was read. -/
inductive Number where
  /-- A whole number below `2 ^ 64`, or a negative one down to `-2 ^ 63`. -/
  | integer (z : Int)
  /-- Any other number. -/
  | real (x : Binary64)
deriving DecidableEq

/-- A number in single precision: a whole number is rounded once. -/
def Number.toBinary32 : Number → Binary32
  | integer z => Binary.ofInt Format.binary32 z
  | real x => x.convert Format.binary32

/-- A number with a sign. -/
def withSign (neg : Bool) (x : Binary64) : Binary64 := if neg then -x else x

/-- The value of a digit. -/
def digitValue (c : Char) : Nat := c.toNat - '0'.toNat

/-- Significands stay below this bound. -/
def significandBound : Nat := 2 ^ (64 : Nat)

/-- Adds digits to a significand as long as it stays below its bound: the significand, and the
digits that are left over. -/
def absorb (significand : Nat) : List Char → Nat × List Char
  | [] => (significand, [])
  | c :: cs =>
    let next := significand * 10 + digitValue c
    if next < significandBound then absorb next cs else (significand, c :: cs)

/-- A whole number that fits its significand.  Negative zero is no whole number, nor is a number
below `-2 ^ 63`. -/
def wholeNumber (neg : Bool) (significand : Nat) : Number :=
  if neg = false then .integer significand
  else if significand = 0 ∨ 2 ^ (63 : Nat) < significand then
    .real (-(Binary.ofNat Format.binary64 significand))
  else .integer (-(significand : Int))

/-- The greatest exponent that is taken at its value. -/
def maxExponent : Nat := 2 ^ (31 : Nat) - 1

/-- A power of ten in double precision. -/
def tenTo (k : Nat) : Binary64 := Binary.ofDecimal Format.binary64 false 1 k

/-- The largest power of ten that is finite in double precision. -/
def maxTen : Nat := 308

/-- A number times a power of ten, or divided by one, in double precision. -/
def timesTenTo (x : Binary64) (exponent : Int) : Binary64 :=
  if exponent < 0 then x / tenTo exponent.natAbs else x * tenTo exponent.natAbs

end StripeBrush.Json
