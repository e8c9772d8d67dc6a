/-
**What a JSON library does.**

Results about records rest on a library only by what is stated here.  It finds the parts of a text
however they are written, and reads numbers, flags and other values as they follow a key.  A number
is read as its digits and its exponent say, by a power of ten at a time; every number is printed with
the shortest digits that read back to it, plainly while it is of moderate size, and what is not a
number as a word that is none.

Main definitions:

* `Json.NumberForm.converted` — the number that is read, unless it is out of range;
* `Json.Library.ReadsObjects`, `Json.Library.ReadsValues` — the parts of an object;
* `Json.Library.Scales` — powers of ten;
* `Json.Library.Prints` — numbers as text;
* `Json.Library.Lawful` — **all of these together**.
-/

import StripeBrush.Json.Library
import StripeBrush.Proofs.Decimal.Shortest
import StripeBrush.Proofs.Json.Forms

set_option relaxedAutoImplicit false
set_option autoImplicit false

namespace StripeBrush.Json

open Format

variable {ε : Type}

/-! ### Numbers that are read -/

namespace NumberForm

variable (n : NumberForm) (lib : Library ε)

/-- The significand times the power of ten that is left and the one that the exponent calls for.  An
exponent that is too large to be taken at its value makes a number zero, or puts it out of range. -/
def scaled : Except ε Number :=
  if maxExponent < n.exponentValue.natAbs then
    if n.significand ≠ 0 ∧ 0 < n.exponentValue then .error lib.outOfRange
    else .ok (.real (withSign n.negative (Binary.zero _ false)))
  else
    (lib.scale (Binary.ofNat binary64 n.significand) (n.power + n.exponentValue)).map fun x =>
      .real (withSign n.negative x)

/-- The number is whole, and all its digits fit the significand. -/
def Fits : Prop := n.fraction = [] ∧ n.exponent = none ∧ (absorb 0 n.whole).2 = []

instance : Decidable n.Fits :=
  decidable_of_iff (n.fraction = [] ∧ n.exponent.isNone ∧ (absorb 0 n.whole).2 = []) (by
    rw [Fits, Option.isNone_iff_eq_none])

/-- The number that is read. -/
def converted : Except ε Number :=
  if n.Fits then .ok (wholeNumber n.negative n.significand) else n.scaled lib

end NumberForm

/-! ### Texts -/

/-- A text with a sign in front of it. -/
def signedText (neg : Bool) (cs : List Char) : List Char := if neg then '-' :: cs else cs

/-- A key as it is written, between quotation marks. -/
def keyText (key : List Spelling) : List Char := '"' :: (letters (spelledParts key) ++ ['"'])

/-- The text of a value after its key. -/
def colonText (before after : Blanks) (value : List Char) : List Char :=
  before.1 ++ ':' :: (after.1 ++ value)

namespace Library

/-! ### Reading -/

/-- The keys of an object are found, however they are written, and so is its end. -/
structure ReadsObjects (lib : Library ε) : Prop where
  openObject_brace : ∀ (b : Blanks) (rest : List Char),
    lib.openObject (b.1 ++ '{' :: rest) = .ok rest
  nextKey_first : ∀ (b : Blanks) (key : List Spelling) (rest : List Char),
    lib.nextKey true (b.1 ++ (keyText key ++ rest)) = .ok (some (spelledText key), rest)
  nextKey_later : ∀ (b b' : Blanks) (key : List Spelling) (rest : List Char),
    lib.nextKey false (b.1 ++ ',' :: (b'.1 ++ (keyText key ++ rest))) =
      .ok (some (spelledText key), rest)
  nextKey_close : ∀ (isFirst : Bool) (b : Blanks) (rest : List Char),
    lib.nextKey isFirst (b.1 ++ '}' :: rest) = .ok (none, rest)
  finish_blanks : ∀ b : Blanks, lib.finish b.1 = .ok ()
  category_duplicateField : ∀ name, lib.category (lib.duplicateField name) = .data

/-- The value after a key is read up to its end: as a number, as a flag, or as anything at all.  The
word for nothing is no number. -/
structure ReadsValues (lib : Library ε) : Prop where
  nextNumber_number : ∀ (b b' : Blanks) (n : NumberForm) (rest : List Char), EndsNumber rest →
    lib.nextNumber (colonText b b' (n.letters ++ rest)) =
      (n.converted lib).map fun z => (z.toBinary32, rest)
  nextNumber_null : ∀ (b b' : Blanks) (rest : List Char), EndsNumber rest →
    ∃ e, lib.nextNumber (colonText b b' (nullText ++ rest)) = .error e ∧ lib.category e = .data
  nextFlag_flag : ∀ (b b' : Blanks) (flag : Bool) (rest : List Char), EndsNumber rest →
    lib.nextFlag (colonText b b' (flagText flag ++ rest)) = .ok (flag, rest)
  skipNext_value : ∀ (b b' : Blanks) (cs rest : List Char), Derives .value cs → EndsNumber rest →
    lib.skipNext (colonText b b' (cs ++ rest)) = .ok rest

/-- A number is scaled by one power of ten that is finite in double precision, and reduced step by
step while the power is too small for that. -/
structure Scales (lib : Library ε) : Prop where
  scale_within : ∀ (x : Binary64) (e : ℤ), e.natAbs ≤ maxTen →
    (0 ≤ e → (timesTenTo x e).isInf = false) → lib.scale x e = .ok (timesTenTo x e)
  scale_infinite : ∀ (x : Binary64) (e : ℤ), e.natAbs ≤ maxTen → 0 ≤ e →
    (timesTenTo x e).isInf = true → lib.scale x e = .error lib.outOfRange
  scale_zero : ∀ (x : Binary64) (e : ℤ), maxTen < e.natAbs → x.numEq 0 = true →
    lib.scale x e = .ok x
  scale_above : ∀ (x : Binary64) (e : ℤ), maxTen < e → x.numEq 0 = false →
    lib.scale x e = .error lib.outOfRange
  scale_below : ∀ (x : Binary64) (e : ℤ), e < -maxTen → x.numEq 0 = false →
    lib.scale x e = lib.scale (x / tenTo maxTen) (e + maxTen)

/-! ### Writing -/

/-- A finite number is printed with the shortest digits that read back to it, plainly at most while it
has fourteen digits before its point, and zero with one digit on either side of its point; any other
one is the word for nothing. -/
structure Prints (lib : Library ε) : Prop where
  plainTo_le : lib.layout.plainTo ≤ 13
  numberText_pos : ∀ (neg : Bool) (i : Fin binary32.infIndex), 0 < i.1 →
    ∃ s, binary32.IsShortest s i ∧ lib.numberText (.finite neg i) = signedText neg (lib.layout.apply s)
  numberText_zero : ∀ (neg : Bool) (i : Fin binary32.infIndex), i.1 = 0 →
    lib.numberText (.finite neg i) = signedText neg ['0', '.', '0']
  numberText_of_not_isFinite : ∀ x : Binary32, x.isFinite = false → lib.numberText x = nullText

/-- **What a library does.** -/
structure Lawful (lib : Library ε) : Prop extends
  lib.ReadsObjects, lib.ReadsValues, lib.Scales, lib.Prints

end Library

end StripeBrush.Json
