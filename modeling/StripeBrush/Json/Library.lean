/-
**A JSON library.**

Records are read from texts, and written to them, through a library.  Reading takes a text apart from
its front: the brace that opens an object, a key, the value after it, and so on up to the end.  A
number is scaled by a power of ten step by step.  What a library does is taken as it is given here;
what it has to do is stated with the results that rest on it.

Main definitions:

* `Json.Category` — the categories of failures;
* `Json.Library` — **what a library gives to those who read and write records**.
-/

import StripeBrush.Decimal
import StripeBrush.Json.Notation

set_option relaxedAutoImplicit false
set_option autoImplicit false

namespace StripeBrush.Json

/-- The three categories of failures. -/
inductive Category where
  | eof
  | syntactic
  | data
deriving DecidableEq

/-- What a library gives to those who read and write records, with failures of type `ε`.  A function
that reads takes something off the front of a text, and gives back the rest. -/
structure Library (ε : Type) where
  /-- The category of a failure. -/
  category : ε → Category
  /-- A number is too large. -/
  outOfRange : ε
  /-- A field of a record occurs again. -/
  duplicateField : String → ε
  /-- The brace that opens an object. -/
  openObject : List Char → Except ε (List Char)
  /-- The next key of an object, or its end.  Before a key that is not the first one there is a
  comma. -/
  nextKey : Bool → List Char → Except ε (Option (List Char) × List Char)
  /-- The value after a key, where a number is expected. -/
  nextNumber : List Char → Except ε (Binary32 × List Char)
  /-- The value after a key, where a flag is expected. -/
  nextFlag : List Char → Except ε (Bool × List Char)
  /-- The value after a key, which nobody wants. -/
  skipNext : List Char → Except ε (List Char)
  /-- The end of a text. -/
  finish : List Char → Except ε Unit
  /-- A number in double precision times a power of ten. -/
  scale : Binary64 → Int → Except ε Binary64
  /-- How printed digits are laid out. -/
  layout : DecimalLayout
  /-- The text of a number. -/
  numberText : Binary32 → List Char

end StripeBrush.Json
