/-
**Strings of a JSON text.**

A string runs to the next quotation mark.  A backslash starts an escape: a letter, or four
hexadecimal digits that stand for a unit of sixteen bits.  Units that are the two halves of a
surrogate pair stand for one character together.  A string whose characters are wanted must have its
halves in pairs; one that is only passed over need not.

The reader goes through the string character by character.  Between two characters it is in one of a
few states, which say what part of an escape is behind it.

Main definitions:

* `Json.TextState` — the states;
* `Json.TextState.step` — **one character**: the next state, and the character that is complete;
* `Json.readText` — the string at the front of a text, after its quotation mark.

Main results:

* `Json.length_lt_of_readText` — a string takes something off the text.
-/

import StripeBrush.Json.Error

set_option relaxedAutoImplicit false
set_option autoImplicit false

namespace StripeBrush.Json

-- A sum of naturals starts from the core library's zero.
attribute [local instance (high)] Zero.ofOfNat0

/-! ### Escapes by number -/

/-- The text has room for four hexadecimal digits: at least four more bytes. -/
def hasFourBytes (cs : List Char) : Bool := 4 ≤ ((cs.take 4).map Char.utf8Size).sum

/-! ### States -/

/-- What is behind the reader of a string. -/
inductive TextState where
  /-- No part of an escape. -/
  | plain
  /-- A backslash. -/
  | escape
  /-- Hexadecimal digits worth `value`, with `left` more to come, perhaps after the first half of a
  surrogate pair. -/
  | hex (first : Option Nat) (left value : Nat)
  /-- The first half of a surrogate pair. -/
  | half (first : Nat)
  /-- The first half of a surrogate pair and a backslash. -/
  | halfEscape (first : Nat)
deriving DecidableEq

namespace TextState

/-- A unit that is complete.  Where `paired` is not asked for, a half of a surrogate pair is let
through by itself. -/
def takeUnit (paired : Bool) (first : Option Nat) (unit : Nat) :
    Except ReadError (TextState × Option Char) :=
  match first with
  | some leading =>
    if isTrailing unit then .ok (plain, some (pairChar leading unit))
    else .error (.malformed .loneSurrogate)
  | none =>
    if paired = false then .ok (plain, some (Char.ofNat unit))
    else if isTrailing unit then .error (.malformed .loneSurrogate)
    else if isLeading unit then .ok (half unit, none)
    else .ok (plain, some (Char.ofNat unit))

/-- The digits of an escape by number begin, with `rest` for the text from there on. -/
def beginHex (first : Option Nat) (rest : List Char) :
    Except ReadError (TextState × Option Char) :=
  if hasFourBytes rest then .ok (hex first 4 0, none) else .error (.ended .text)

/-- One character of a string, with `rest` for the text after it: the next state, and the character
of the string that is complete, if any. -/
def step (paired : Bool) (state : TextState) (c : Char) (rest : List Char) :
    Except ReadError (TextState × Option Char) :=
  match state with
  | plain =>
    if c = '\\' then .ok (escape, none)
    else if c.toNat < 0x20 then .error (.malformed .controlCharacter)
    else .ok (plain, some c)
  | escape =>
    if c = 'u' then beginHex none rest
    else
      match letterEscape c with
      | some d => .ok (plain, some d)
      | none => .error (.malformed .invalidEscape)
  | hex first left value =>
    match hexValue c with
    | none => .error (.malformed .invalidEscape)
    | some d =>
      if left ≤ 1 then takeUnit paired first (value * 16 + d)
      else .ok (hex first (left - 1) (value * 16 + d), none)
  | half first =>
    if c = '\\' then .ok (halfEscape first, none) else .error (.malformed .unfinishedPair)
  | halfEscape first =>
    if c = 'u' then beginHex (some first) rest else .error (.malformed .unfinishedPair)

end TextState

/-! ### Strings -/

/-- The string from a state on.  The characters that are complete are gathered in reverse. -/
def readTextFrom (paired : Bool) (state : TextState) (done : List Char) : Reader (List Char)
  | [] => .error (.ended .text)
  | c :: cs =>
    if state = .plain ∧ c = '"' then .ok (done.reverse, cs)
    else
      match state.step paired c cs with
      | .error e => .error e
      | .ok (next, complete) => readTextFrom paired next (complete.toList ++ done) cs

/-- The string at the front of a text, after its opening quotation mark. -/
def readText (paired : Bool) : Reader (List Char) := readTextFrom paired .plain []

theorem length_lt_of_readTextFrom {paired : Bool} {state : TextState} {done cs text rest : List Char}
    (h : readTextFrom paired state done cs = .ok (text, rest)) : rest.length < cs.length := by
  induction cs generalizing state done with
  | nil => cases h
  | cons c cs ih =>
      rw [readTextFrom] at h
      split at h
      · obtain ⟨-, rfl⟩ := Prod.mk.inj (Except.ok.inj h)
        exact Nat.lt_succ_self _
      · split at h
        · cases h
        · exact Nat.lt_succ_of_lt (ih h)

theorem length_lt_of_readText {paired : Bool} {cs text rest : List Char}
    (h : readText paired cs = .ok (text, rest)) : rest.length < cs.length :=
  length_lt_of_readTextFrom h

end StripeBrush.Json
