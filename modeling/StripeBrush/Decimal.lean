/-
**Numbers written in decimal.**

A number is written with the fewest significant digits that read back to it.  With a given number of
digits only the two neighbours of the exact value on the decimal grid come into question: if any
point of the grid rounds to the number, so does one of them.  The nearer one is tried first, the
even one where both are equally near.

A number can also be written with a fixed number of decimals, which may not be enough to read back
to it.

Main definitions:

* `Scientific` — digits `d.ddd` and a power of ten;
* `Format.shortest` — **the shortest digits that read back**;
* `DecimalLayout` — between which powers of ten the plain notation is used;
* `Binary.render` — the text of a number;
* `Binary.atPlaces` — what a number reads as that is written with a fixed number of decimals.

Main results:

* `Format.candidate_readsBack` — a digit string that is chosen reads back to the number.
-/

import StripeBrush.Binary.Round

set_option relaxedAutoImplicit false
set_option autoImplicit false

namespace StripeBrush

attribute [local instance (high)] instPowNat

/-! ### Shortest digits -/

/-- The decimal number `d.ddd * 10 ^ exponent` with these digits. -/
structure Scientific where
  digits : List Char
  exponent : Int
deriving DecidableEq

/-- The decimal digits of a natural number. -/
def decimalDigits (n : Nat) : List Char := Nat.toDigits 10 n

/-- `digits * 10 ^ exponent` in scientific notation, without zeros at the end. -/
def Scientific.ofGrid (digits : Nat) (exponent : Int) : Scientific :=
  let cs := decimalDigits digits
  ⟨(cs.reverse.dropWhile (· == '0')).reverse, exponent + cs.length - 1⟩

namespace Format

/-- The power of ten at the first digit of a positive magnitude. -/
def leadingExponent (F : Format) (magnitude : Nat) : Int :=
  let scaled := magnitude * 10 ^ F.scale / 2 ^ F.scale
  ((decimalDigits scaled).length : Int) - 1 - F.scale

/-- The point of the decimal grid with spacing `10 ^ exponent` that stands for the number at
`index`, if there is one: of the two neighbours of the number, the nearer one that reads back. -/
def candidate? (F : Format) (index : Nat) (exponent : Int) : Option Nat :=
  let magnitude := F.magnitude index
  let (num, den) :=
    if 0 ≤ exponent then (magnitude, 2 ^ F.scale * 10 ^ exponent.toNat)
    else (magnitude * 10 ^ (-exponent).toNat, 2 ^ F.scale)
  let below := num / den
  let nearest := roundDivEven num den
  let other := if nearest = below then below + 1 else below
  [nearest, other].find? fun digits => F.decimalIndex digits exponent == index

/-- A digit string that is chosen reads back to the number. -/
theorem candidate_readsBack {F : Format} {index : Nat} {exponent : Int} {digits : Nat}
    (h : F.candidate? index exponent = some digits) : F.decimalIndex digits exponent = index := by
  have := List.find?_some h
  simpa using this

/-- The shortest digits that read back to the positive number at `index`.  As many digits as the
significand has bits are always enough. -/
def shortest (F : Format) (index : Nat) : Scientific :=
  let leading := F.leadingExponent (F.magnitude index)
  ((List.range (F.fracBits + 2)).findSome? fun (more : Nat) =>
    (F.candidate? index (leading - more)).map fun digits =>
      Scientific.ofGrid digits (leading - more)).getD ⟨['0'], 0⟩

end Format

/-! ### Layout -/

/-- How numbers are laid out: plainly while the power of ten at the first digit is between
`plainFrom` and `plainTo`, else in scientific notation. -/
structure DecimalLayout where
  plainFrom : Int
  plainTo : Int

/-- Plain notation, always with a point and a digit after it. -/
def Scientific.plain (s : Scientific) : List Char :=
  if s.exponent < 0 then
    '0' :: '.' :: (List.replicate (-s.exponent - 1).toNat '0' ++ s.digits)
  else
    let before := s.exponent.toNat + 1
    let whole := s.digits.take before ++ List.replicate (before - s.digits.length) '0'
    let fraction := s.digits.drop before
    whole ++ '.' :: if fraction = [] then ['0'] else fraction

/-- Scientific notation: a point only before further digits, and an exponent with its sign. -/
def Scientific.spread (s : Scientific) : List Char :=
  let more := s.digits.drop 1
  s.digits.take 1 ++ (if more = [] then [] else '.' :: more) ++
    'e' :: (if s.exponent < 0 then '-' else '+') :: decimalDigits s.exponent.natAbs

/-- A decimal number in the notation of a layout. -/
def DecimalLayout.apply (layout : DecimalLayout) (s : Scientific) : List Char :=
  if layout.plainFrom ≤ s.exponent ∧ s.exponent ≤ layout.plainTo then s.plain else s.spread

/-- The text of the magnitude at an index. -/
def DecimalLayout.magnitudeText (layout : DecimalLayout) (F : Format) (index : Nat) : List Char :=
  if index = 0 then ['0', '.', '0'] else layout.apply (F.shortest index)

/-- The text of a finite number; infinities and `NaN` have none. -/
def Binary.render {F : Format} (layout : DecimalLayout) : Binary F → Option (List Char)
  | .finite neg index =>
    let text := layout.magnitudeText F index
    some (if neg then '-' :: text else text)
  | _ => none

/-! ### A fixed number of decimals -/

/-- What a number reads as in format `G` that is written with `places` decimals: the nearest
multiple of `10 ^ -places`, a half going to the even one. -/
def Binary.atPlaces {F : Format} (G : Format) (places : Nat) : Binary F → Binary G
  | .nan neg => .nan neg
  | .inf neg => .inf neg
  | .finite neg index =>
    .ofDecimal G neg (roundDivEven (F.magnitude index * 10 ^ places) (2 ^ F.scale)) (-places)

end StripeBrush
