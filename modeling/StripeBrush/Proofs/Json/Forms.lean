/-
**How a JSON text is written.**

A text may have blanks between its parts.  A string is written part by part: a character that stands
for itself, an escape by a letter, or an escape by number, whose four digits are a unit of sixteen
bits.  Where the string matters, they must be the parts of characters: a unit that is a character by
itself, or the two halves of a surrogate pair.  A number is written with a sign, a whole part, digits
after its point and an exponent, of which all but the whole part may be missing.  The grammar derives
the text of a value from those of its parts, to any depth.

Main definitions:

* `Json.Blanks` — blanks between the parts of a text;
* `Json.TextPart`, `Json.Spelling` — a part of a string, and a way to write a character;
* `Json.letters`, `Json.spelledParts`, `Json.spelledText` — the text of some parts, the parts of some
  characters, and the string that they are;
* `Json.NumberForm`, with `Json.NumberForm.significand` and `Json.NumberForm.power` — a number as it
  is written, the digits that are gathered from it, and the power of ten that is left;
* `Json.NumberForm.magnitude` — the number that is written, without its sign;
* `Json.Derives` — **the grammar**, in which values, members of lists and objects and the rests of
  lists and objects are derived together.
-/

import Mathlib.Algebra.Order.Field.Power
import Mathlib.Data.Nat.Digits.Lemmas
import Mathlib.Data.Rat.Cast.Order
import StripeBrush.Json.Notation

set_option relaxedAutoImplicit false
set_option autoImplicit false

namespace StripeBrush.Json

/-! ### Blanks -/

/-- Blanks between the parts of a text. -/
abbrev Blanks := {cs : List Char // ∀ c ∈ cs, isBlank c = true}

/-- No blanks. -/
def noBlanks : Blanks := ⟨[], nofun⟩

/-- Blanks after blanks. -/
def Blanks.append (b b' : Blanks) : Blanks :=
  ⟨b.1 ++ b'.1, fun c hc => (List.mem_append.1 hc).elim (b.2 c) (b'.2 c)⟩

/-! ### Strings -/

/-- A hexadecimal digit. -/
abbrev HexDigit := {c : Char // (hexValue c).isSome = true}

/-- The value of a hexadecimal digit. -/
def HexDigit.value (c : HexDigit) : ℕ := (hexValue c.1).get c.2

/-- The four digits of an escape by number. -/
structure HexUnit where
  first : HexDigit
  second : HexDigit
  third : HexDigit
  fourth : HexDigit

namespace HexUnit

/-- The digits. -/
def letters (u : HexUnit) : List Char := [u.first, u.second, u.third, u.fourth]

/-- The unit of sixteen bits. -/
def value (u : HexUnit) : ℕ :=
  ((u.first.value * 16 + u.second.value) * 16 + u.third.value) * 16 + u.fourth.value

end HexUnit

/-- A part of a string as it is written. -/
inductive TextPart where
  /-- A character that stands for itself. -/
  | plain (c : {c : Char // isPlain c = true})
  /-- An escape by a letter. -/
  | letter (c : {c : Char // (letterEscape c).isSome = true})
  /-- An escape by number. -/
  | unit (u : HexUnit)

/-- The text of a part. -/
def TextPart.letters : TextPart → List Char
  | plain c => [c.1]
  | letter c => ['\\', c.1]
  | unit u => '\\' :: 'u' :: u.letters

/-- The text of some parts. -/
def letters (parts : List TextPart) : List Char := parts.flatMap TextPart.letters

theorem letters_append (parts parts' : List TextPart) :
    letters (parts ++ parts') = letters parts ++ letters parts' :=
  List.flatMap_append

/-- A way to write a character. -/
inductive Spelling where
  /-- The character itself. -/
  | plain (c : {c : Char // isPlain c = true})
  /-- An escape by a letter. -/
  | letter (c : {c : Char // (letterEscape c).isSome = true})
  /-- An escape by number, which is not half of a surrogate pair. -/
  | unit (u : HexUnit) (leading : isLeading u.value = false) (trailing : isTrailing u.value = false)
  /-- The two halves of a surrogate pair. -/
  | pair (u v : HexUnit) (leading : isLeading u.value = true) (trailing : isTrailing v.value = true)

namespace Spelling

/-- The character that is written. -/
def char : Spelling → Char
  | plain c => c.1
  | letter c => (letterEscape c.1).get c.2
  | unit u _ _ => Char.ofNat u.value
  | pair u v _ _ => pairChar u.value v.value

/-- The parts that it is written with. -/
def parts : Spelling → List TextPart
  | plain c => [.plain c]
  | letter c => [.letter c]
  | unit u _ _ => [.unit u]
  | pair u v _ _ => [.unit u, .unit v]

end Spelling

/-- The parts of some characters. -/
def spelledParts (cs : List Spelling) : List TextPart := cs.flatMap Spelling.parts

/-- The string that some characters are. -/
def spelledText (cs : List Spelling) : List Char := cs.map Spelling.char

/-! ### Numbers -/

/-- How the sign of an exponent is written. -/
inductive ExponentSign where
  | none
  | plus
  | minus

/-- The text of a sign. -/
def ExponentSign.letters : ExponentSign → List Char
  | none => []
  | plus => ['+']
  | minus => ['-']

/-- An exponent as it is written. -/
structure ExponentForm where
  /-- The letter before it is a capital one. -/
  isCapital : Bool
  sign : ExponentSign
  digits : List Char
  ne_nil : digits ≠ []
  isDigit : ∀ c ∈ digits, c.isDigit = true

namespace ExponentForm

/-- The text of an exponent, after its letter. -/
def signed (x : ExponentForm) : List Char := x.sign.letters ++ x.digits

/-- The text of an exponent. -/
def letters (x : ExponentForm) : List Char := (if x.isCapital then 'E' else 'e') :: x.signed

/-- The exponent. -/
def value (x : ExponentForm) : ℤ :=
  match x.sign with
  | .minus => -(Nat.ofDigitChars 10 x.digits 0 : ℤ)
  | _ => Nat.ofDigitChars 10 x.digits 0

end ExponentForm

/-- Digits that may stand before the point: a zero alone, or digits that start with another one. -/
def IsWhole (cs : List Char) : Prop :=
  cs = ['0'] ∨ (∃ c ds, cs = c :: ds ∧ c ≠ '0') ∧ ∀ c ∈ cs, c.isDigit = true

/-- A number as it is written. -/
structure NumberForm where
  negative : Bool
  whole : List Char
  isWhole : IsWhole whole
  /-- The digits after the point; where there are none, there is no point. -/
  fraction : List Char
  isDigit : ∀ c ∈ fraction, c.isDigit = true
  exponent : Option ExponentForm

namespace NumberForm

variable (n : NumberForm)

/-- The text of the exponent, if there is one. -/
def exponentText : List Char := (n.exponent.map ExponentForm.letters).getD []

/-- The text of a number from its point on. -/
def fractionText : List Char :=
  if n.fraction = [] then n.exponentText else '.' :: (n.fraction ++ n.exponentText)

/-- The text of a number after its sign. -/
def unsigned : List Char := n.whole ++ n.fractionText

/-- The text of a number. -/
def letters : List Char := if n.negative then '-' :: n.unsigned else n.unsigned

/-- The digits that are gathered. -/
def significand : ℕ := (absorb (absorb 0 n.whole).1 n.fraction).1

/-- The power of ten that the digits leave: one for each digit before the point that does not fit,
and one less for each digit after the point that does. -/
def power : ℤ :=
  (absorb 0 n.whole).2.length -
    (n.fraction.length - (absorb (absorb 0 n.whole).1 n.fraction).2.length : ℕ)

/-- All digits of a number, as one. -/
def digitsValue : ℕ := Nat.ofDigitChars 10 (n.whole ++ n.fraction) 0

/-- The exponent of a number, or zero. -/
def exponentValue : ℤ := (n.exponent.map ExponentForm.value).getD 0

/-- The number that is written, without its sign. -/
def magnitude : ℚ := n.digitsValue * (10 : ℚ) ^ (n.exponentValue - n.fraction.length)

end NumberForm

theorem NumberForm.exists_cons (n : NumberForm) :
    ∃ c cs, n.unsigned = c :: cs ∧ c.isDigit = true := by
  rcases n.isWhole with h | ⟨⟨c, cs, h, -⟩, hdigits⟩
  · exact ⟨'0', n.fractionText, by rw [unsigned, h]; rfl, rfl⟩
  · have hc : c.isDigit = true := hdigits c (by rw [h]; exact List.mem_cons_self)
    exact ⟨c, cs ++ n.fractionText, by rw [unsigned, h]; rfl, hc⟩

/-! ### What follows a number -/

/-- The rest of a text does not go on with a digit. -/
def EndsDigits (rest : List Char) : Prop := ∀ c ∈ rest.head?, c.isDigit = false

/-- The rest of a text does not go on with anything that belongs to a number. -/
def EndsNumber (rest : List Char) : Prop :=
  ∀ c ∈ rest.head?, c.isDigit = false ∧ c ≠ '.' ∧ c ≠ 'e' ∧ c ≠ 'E'

theorem EndsNumber.endsDigits {rest : List Char} (h : EndsNumber rest) : EndsDigits rest :=
  fun c hc => (h c hc).1

theorem endsDigits_cons {c : Char} (rest : List Char) (h : c.isDigit = false) :
    EndsDigits (c :: rest) := by
  intro d hd
  obtain rfl : c = d := by simpa using hd
  exact h

theorem endsNumber_cons {c : Char} (hc : c.isDigit = false ∧ c ≠ '.' ∧ c ≠ 'e' ∧ c ≠ 'E')
    (rest : List Char) : EndsNumber (c :: rest) := by
  intro d hd
  obtain rfl : c = d := by simpa using hd
  exact hc

theorem endsNumber_cons_of_blank {c : Char} (hc : isBlank c = true) (cs : List Char) :
    EndsNumber (c :: cs) := by
  simp only [isBlank, Bool.or_eq_true, beq_iff_eq] at hc
  rcases hc with ((rfl | rfl) | rfl) | rfl <;> exact endsNumber_cons (by decide) cs

theorem endsNumber_append (b : Blanks) {cs : List Char} (hcs : EndsNumber cs) :
    EndsNumber (b.1 ++ cs) := by
  obtain ⟨b, hb⟩ := b
  cases b with
  | nil => exact hcs
  | cons c b => exact endsNumber_cons_of_blank (hb c List.mem_cons_self) _

/-! ### The grammar -/

/-- The sorts of phrases. -/
inductive Phrase where
  | value
  /-- An item of a list, or a member of an object. -/
  | item (b : Bracket)
  /-- A list or an object after its opening bracket. -/
  | entries (b : Bracket)
  /-- A list or an object after one of its items or members. -/
  | more (b : Bracket)

/-- The texts of each sort of phrase. -/
inductive Derives : Phrase → List Char → Prop where
  | blank {p : Phrase} {c : Char} {cs : List Char} :
      isBlank c = true → Derives p cs → Derives p (c :: cs)
  | word {c : Char} {cs : List Char} : wordAfter c = some cs → Derives .value (c :: cs)
  | number (n : NumberForm) : Derives .value n.letters
  | text (parts : List TextPart) : Derives .value ('"' :: (letters parts ++ ['"']))
  | group {b : Bracket} {cs : List Char} : Derives (.entries b) cs → Derives .value (b.opening :: cs)
  | item {cs : List Char} : Derives .value cs → Derives (.item .list) cs
  | member (parts : List TextPart) (b : Blanks) {cs : List Char} : Derives .value cs →
      Derives (.item .object) ('"' :: (letters parts ++ '"' :: (b.1 ++ ':' :: cs)))
  | empty (b : Bracket) : Derives (.entries b) [b.close]
  | first {b : Bracket} {cs ds : List Char} : Derives (.item b) cs → Derives (.more b) ds →
      Derives (.entries b) (cs ++ ds)
  | close (b : Bracket) : Derives (.more b) [b.close]
  | next {b : Bracket} {cs ds : List Char} : Derives (.item b) cs → Derives (.more b) ds →
      Derives (.more b) (',' :: (cs ++ ds))

theorem Derives.blanks {p : Phrase} {cs : List Char} (b : Blanks) (h : Derives p cs) :
    Derives p (b.1 ++ cs) := by
  obtain ⟨b, hb⟩ := b
  induction b with
  | nil => exact h
  | cons c b ih =>
      exact .blank (hb c List.mem_cons_self) (ih fun d hd => hb d (List.mem_cons_of_mem c hd))

theorem Derives.endsNumber {b : Bracket} {cs : List Char} (h : Derives (.more b) cs)
    (rest : List Char) : EndsNumber (cs ++ rest) := by
  cases h with
  | blank hc => exact endsNumber_cons_of_blank hc _
  | close => cases b <;> exact endsNumber_cons (by decide) _
  | next => exact endsNumber_cons (by decide) _

end StripeBrush.Json
