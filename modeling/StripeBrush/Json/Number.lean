/-
**Reading the numbers of a JSON text.**

A number is read in two steps.  Its digits are gathered into a significand: a digit that would not
fit is only counted, before the point, or dropped, after it.  A whole number whose digits all fit is
exact.  Any other number is the significand in double precision, multiplied or divided by the power
of ten that its point and its exponent call for; each of these steps is rounded, so that the result
may miss the nearest double by a little.

Main definitions:

* `Json.scale` — a number in double precision times a power of ten;
* `Json.readNumber` — **the number at the front of a text**, after its sign;
* `Json.skipNumber` — the same, checked for its form only.
-/

import StripeBrush.Json.Error

set_option relaxedAutoImplicit false
set_option autoImplicit false

namespace StripeBrush.Json

attribute [local instance (high)] instPowNat

/-- A number as a value that was found. -/
def Number.found : Number → Found
  | integer z => .integer z
  | real x => .real x

/-! ### Digits -/

/-- The digits at the front of a text, and the rest. -/
def spanDigits (cs : List Char) : List Char × List Char :=
  (cs.takeWhile Char.isDigit, cs.dropWhile Char.isDigit)

theorem length_spanDigits_le (cs : List Char) : (spanDigits cs).2.length ≤ cs.length :=
  (List.dropWhile_suffix Char.isDigit).length_le

/-- The whole part of a number: a zero alone, or digits that start with another one. -/
def readWhole (onEnd : ReadError) : Reader (List Char)
  | [] => .error onEnd
  | '0' :: cs =>
    match cs with
    | c :: _ => if c.isDigit then .error (.malformed .invalidNumber) else .ok (['0'], cs)
    | [] => .ok (['0'], cs)
  | c :: cs =>
    if c.isDigit then .ok (spanDigits (c :: cs)) else .error (.malformed .invalidNumber)

theorem length_le_of_readWhole {onEnd : ReadError} {cs whole rest : List Char}
    (h : readWhole onEnd cs = .ok (whole, rest)) : rest.length ≤ cs.length := by
  unfold readWhole at h
  split at h
  · cases h
  · split at h
    · split at h <;> cases h
      exact Nat.le_succ _
    · cases h
      exact Nat.le_succ _
  · next c cs _ =>
      split at h
      · cases h
        exact length_spanDigits_le (c :: cs)
      · cases h

/-! ### Scaling -/

/-- A number divided by the largest power of ten as many times as there are steps, and then by
`10 ^ k`.  As soon as it is zero it stays as it is. -/
def scaleDown : Nat → Nat → Binary64 → Binary64
  | 0, k, x => x / tenTo k
  | steps + 1, k, x => if x.numEq 0 then x else scaleDown steps k (x / tenTo maxTen)

/-- A number times a power of ten.  A power that is too small to be finite is divided out step by
step.  A result that is too large is out of range. -/
def scale (x : Binary64) (exponent : Int) : Except ReadError Binary64 :=
  let k := exponent.natAbs
  if k ≤ maxTen then
    let y := timesTenTo x exponent
    if 0 ≤ exponent ∧ y.isInf = true then .error (.malformed .numberOutOfRange) else .ok y
  else if x.numEq 0 then .ok x
  else if 0 ≤ exponent then .error (.malformed .numberOutOfRange)
  else .ok (scaleDown ((k - 1) / maxTen) ((k - 1) % maxTen + 1) x)

/-- A significand times a power of ten, with its sign and the rest of the text. -/
def scaled (neg : Bool) (significand : Nat) (exponent : Int) (rest : List Char) :
    Except ReadError (Number × List Char) :=
  (scale (Binary.ofNat _ significand) exponent).map fun x => (.real (withSign neg x), rest)

theorem eq_of_scaled {neg : Bool} {n : Nat} {e : Int} {cs rest : List Char} {z : Number}
    (h : scaled neg n e cs = .ok (z, rest)) : rest = cs := by
  obtain ⟨x, -, hx⟩ := exists_of_map_eq_ok h
  cases hx
  rfl

/-! ### Exponents -/

/-- Whether a text starts with a minus sign, and the text without its sign. -/
def splitSign : List Char → Bool × List Char
  | '+' :: rest => (false, rest)
  | '-' :: rest => (true, rest)
  | cs => (false, cs)

theorem length_splitSign_le (cs : List Char) : (splitSign cs).2.length ≤ cs.length := by
  unfold splitSign
  split
  · exact Nat.le_succ _
  · exact Nat.le_succ _
  · exact Nat.le_refl _

/-- The number that some digits make, of which there is at least one. -/
def readDigits (onEnd : ReadError) : Reader Nat
  | [] => .error onEnd
  | c :: cs =>
    if c.isDigit then
      .ok ((spanDigits (c :: cs)).1.foldl (fun n d => n * 10 + digitValue d) 0,
        (spanDigits (c :: cs)).2)
    else .error (.malformed .invalidNumber)

theorem length_le_of_readDigits {onEnd : ReadError} {cs rest : List Char} {n : Nat}
    (h : readDigits onEnd cs = .ok (n, rest)) : rest.length ≤ cs.length := by
  cases cs with
  | nil => cases h
  | cons c cs =>
      rw [readDigits] at h
      split at h
      · cases h
        exact length_spanDigits_le (c :: cs)
      · cases h

/-- The exponent of a number, after its letter. -/
def readExponent (onEnd : ReadError) : Reader Int := fun cs =>
  (readDigits onEnd (splitSign cs).2).map fun r =>
    (if (splitSign cs).1 then -(r.1 : Int) else r.1, r.2)

theorem length_le_of_readExponent {onEnd : ReadError} {cs rest : List Char} {e : Int}
    (h : readExponent onEnd cs = .ok (e, rest)) : rest.length ≤ cs.length := by
  obtain ⟨⟨n, rest'⟩, hdigits, hrest⟩ := exists_of_map_eq_ok h
  cases hrest
  exact Nat.le_trans (length_le_of_readDigits hdigits) (length_splitSign_le cs)

/-- A significand with an exponent. -/
def readPower (neg : Bool) (significand : Nat) (exponent : Int) : Reader Number := fun cs => do
  let (e, rest) ← readExponent (.ended .value) cs
  if maxExponent < e.natAbs then
    if significand ≠ 0 ∧ 0 < e then .error (.malformed .numberOutOfRange)
    else .ok (.real (withSign neg (Binary.zero _ false)), rest)
  else scaled neg significand (exponent + e) rest

theorem length_le_of_readPower {neg : Bool} {n : Nat} {e : Int} {cs rest : List Char} {z : Number}
    (h : readPower neg n e cs = .ok (z, rest)) : rest.length ≤ cs.length := by
  obtain ⟨⟨e', rest'⟩, hexponent, hrest⟩ := exists_of_bind_eq_ok h
  have hle := length_le_of_readExponent hexponent
  dsimp only at hrest
  split at hrest
  · split at hrest
    · cases hrest
    · cases hrest
      exact hle
  · rw [eq_of_scaled hrest]
    exact hle

/-- The rest of a number, from where an exponent may follow. -/
def readScaled (neg : Bool) (significand : Nat) (exponent : Int) : Reader Number
  | 'e' :: cs => readPower neg significand exponent cs
  | 'E' :: cs => readPower neg significand exponent cs
  | cs => scaled neg significand exponent cs

theorem length_le_of_readScaled {neg : Bool} {n : Nat} {e : Int} {cs rest : List Char} {z : Number}
    (h : readScaled neg n e cs = .ok (z, rest)) : rest.length ≤ cs.length := by
  unfold readScaled at h
  split at h
  · exact Nat.le_succ_of_le (length_le_of_readPower h)
  · exact Nat.le_succ_of_le (length_le_of_readPower h)
  · exact Nat.le_of_eq (congrArg List.length (eq_of_scaled h))

/-! ### Numbers -/

/-- The number at the front of a text, after its sign. -/
def readNumber (neg : Bool) : Reader Number := fun cs => do
  let (whole, cs) ← readWhole (.ended .value) cs
  let (significand, left) := absorb 0 whole
  let exponent : Int := left.length
  match cs with
  | '.' :: cs =>
    let (fraction, rest) := spanDigits cs
    if fraction = [] then
      .error (if rest = [] then .ended .value else .malformed .invalidNumber)
    else
      let (significand, left) := absorb significand fraction
      readScaled neg significand (exponent - (fraction.length - left.length : Nat)) rest
  | 'e' :: _ => readScaled neg significand exponent cs
  | 'E' :: _ => readScaled neg significand exponent cs
  | _ =>
    if left = [] then .ok (wholeNumber neg significand, cs)
    else readScaled neg significand exponent cs

theorem length_le_of_readNumber {neg : Bool} {cs rest : List Char} {z : Number}
    (h : readNumber neg cs = .ok (z, rest)) : rest.length ≤ cs.length := by
  obtain ⟨⟨whole, cs'⟩, hwhole, hrest⟩ := exists_of_bind_eq_ok h
  refine Nat.le_trans ?_ (length_le_of_readWhole hwhole)
  dsimp only at hrest
  split at hrest
  · split at hrest
    · cases hrest
    · exact Nat.le_succ_of_le (Nat.le_trans (length_le_of_readScaled hrest) (length_spanDigits_le _))
  · exact length_le_of_readScaled hrest
  · exact length_le_of_readScaled hrest
  · split at hrest
    · cases hrest
      exact Nat.le_refl _
    · exact length_le_of_readScaled hrest

/-- The rest of a text after the digits behind a point, if there is one. -/
def skipFraction : List Char → Except ReadError (List Char)
  | '.' :: cs =>
    if (spanDigits cs).1 = [] then .error (.malformed .invalidNumber) else .ok (spanDigits cs).2
  | cs => .ok cs

theorem length_le_of_skipFraction {cs rest : List Char} (h : skipFraction cs = .ok rest) :
    rest.length ≤ cs.length := by
  unfold skipFraction at h
  split at h
  · split at h
    · cases h
    · cases h
      exact Nat.le_succ_of_le (length_spanDigits_le _)
  · cases h
    exact Nat.le_refl _

/-- The rest of a text after an exponent, if there is one. -/
def skipExponent : List Char → Except ReadError (List Char)
  | 'e' :: cs => (readExponent (.malformed .invalidNumber) cs).map Prod.snd
  | 'E' :: cs => (readExponent (.malformed .invalidNumber) cs).map Prod.snd
  | cs => .ok cs

theorem length_le_of_skipExponent {cs rest : List Char} (h : skipExponent cs = .ok rest) :
    rest.length ≤ cs.length := by
  unfold skipExponent at h
  split at h
  · obtain ⟨_, hexponent, rfl⟩ := exists_of_map_eq_ok h
    exact Nat.le_succ_of_le (length_le_of_readExponent hexponent)
  · obtain ⟨_, hexponent, rfl⟩ := exists_of_map_eq_ok h
    exact Nat.le_succ_of_le (length_le_of_readExponent hexponent)
  · cases h
    exact Nat.le_refl _

/-- The rest of a text after a number, whose value does not matter.  A number that breaks off is
invalid. -/
def skipNumber (cs : List Char) : Except ReadError (List Char) := do
  let (_, cs) ← readWhole (.malformed .invalidNumber) cs
  let cs ← skipFraction cs
  skipExponent cs

theorem length_le_of_skipNumber {cs rest : List Char} (h : skipNumber cs = .ok rest) :
    rest.length ≤ cs.length := by
  obtain ⟨_, hwhole, hrest⟩ := exists_of_bind_eq_ok h
  obtain ⟨_, hfraction, hrest⟩ := exists_of_bind_eq_ok hrest
  exact Nat.le_trans (length_le_of_skipExponent hrest)
    (Nat.le_trans (length_le_of_skipFraction hfraction) (length_le_of_readWhole hwhole))

end StripeBrush.Json
