/-
**Passing over a JSON value.**

A value that nobody wants is only checked for its form.  Lists and objects that are open are kept on
a stack, so that values may be nested to any depth.

Main definitions:

* `Json.skipScalar` — a value that is neither;
* `Json.skipValue` — **the rest of a text after a value**.
-/

import StripeBrush.Json.Number
import StripeBrush.Json.Text

set_option relaxedAutoImplicit false
set_option autoImplicit false

namespace StripeBrush.Json

namespace Bracket

/-- A text that ends within a bracket. -/
def place : Bracket → Place
  | list => .list
  | object => .object

/-- A bracket with something other than a comma or its end after one of its values. -/
def expectedComma : Bracket → Malformed
  | list => .expectedCommaOrBracket
  | object => .expectedCommaOrBrace

end Bracket

/-- The rest of a text after a colon. -/
def readColon (cs : List Char) : Except ReadError (List Char) :=
  match skipBlanks cs with
  | [] => .error (.ended .object)
  | ':' :: rest => .ok rest
  | _ => .error (.malformed .expectedColon)

theorem length_le_of_readColon {cs rest : List Char} (h : readColon cs = .ok rest) :
    rest.length ≤ cs.length := by
  have hle := length_skipBlanks_le cs
  unfold readColon at h
  split at h
  · cases h
  · next heq =>
      cases h
      rw [heq] at hle
      exact Nat.le_of_succ_le hle
  · cases h

/-- The rest of a text after a value that starts with `c` and is neither a list nor an object. -/
def skipScalar (c : Char) (cs : List Char) : Except ReadError (List Char) :=
  match wordAfter c with
  | some letters => readWord letters cs
  | none =>
    if c = '-' then skipNumber cs
    else if c.isDigit then skipNumber (c :: cs)
    else if c = '"' then (readText false cs).map Prod.snd
    else .error (.malformed .expectedValue)

theorem length_le_of_skipScalar {c : Char} {cs rest : List Char} (h : skipScalar c cs = .ok rest) :
    rest.length ≤ (c :: cs).length := by
  unfold skipScalar at h
  split at h
  · exact Nat.le_succ_of_le (length_le_of_readWord h)
  · split at h
    · exact Nat.le_succ_of_le (length_le_of_skipNumber h)
    · split at h
      · exact length_le_of_skipNumber h
      · split at h
        · obtain ⟨_, htext, rfl⟩ := exists_of_map_eq_ok h
          exact Nat.le_succ_of_le (Nat.le_of_lt (length_lt_of_readText htext))
        · cases h

/-- The rest of a text after the key of a member and its colon. -/
def skipKey (cs : List Char) : Except ReadError (List Char) :=
  match skipBlanks cs with
  | [] => .error (.ended .object)
  | '"' :: rest => do
    let (_, rest) ← readText false rest
    readColon rest
  | _ => .error (.malformed .keyNotText)

/-- The rest of a text after what stands before a value in a bracket. -/
def skipLabel : Bracket → List Char → Except ReadError (List Char)
  | .list, cs => .ok cs
  | .object, cs => skipKey cs

theorem length_le_of_skipLabel {b : Bracket} {cs rest : List Char} (h : skipLabel b cs = .ok rest) :
    rest.length ≤ cs.length := by
  cases b with
  | list =>
      cases h
      exact Nat.le_refl _
  | object =>
      have hle := length_skipBlanks_le cs
      rw [skipLabel, skipKey] at h
      split at h
      · cases h
      · next heq =>
          obtain ⟨_, htext, hcolon⟩ := exists_of_bind_eq_ok h
          rw [heq] at hle
          exact Nat.le_trans (length_le_of_readColon hcolon)
            (Nat.le_trans (Nat.le_of_lt (length_lt_of_readText htext)) (Nat.le_of_succ_le hle))
      · cases h

/-- What comes next in a value that is passed over. -/
inductive Expect where
  /-- A value. -/
  | value
  /-- The first value or member of the innermost bracket, or its end. -/
  | first
  /-- A comma and another value or member of the innermost bracket, or its end; where none is open,
  the value is over. -/
  | next
deriving DecidableEq

/-- The rest of a text after the value that the brackets on the stack, and what is expected, call
for, with at most `fuel` steps. -/
def skipAux : Nat → Expect → List Bracket → List Char → Except ReadError (List Char)
  | 0, _, _, _ => .error (.ended .value)
  | fuel + 1, .value, stack, cs =>
    match skipBlanks cs with
    | [] => .error (.ended .value)
    | '[' :: rest => skipAux fuel .first (.list :: stack) rest
    | '{' :: rest => skipAux fuel .first (.object :: stack) rest
    | c :: rest => do
      let rest ← skipScalar c rest
      skipAux fuel .next stack rest
  | _ + 1, _, [], cs => .ok cs
  | fuel + 1, expect, bracket :: stack, cs =>
    match skipBlanks cs with
    | [] => .error (.ended bracket.place)
    | c :: rest =>
      if c = bracket.close then skipAux fuel .next stack rest
      else if expect = .first then
        skipLabel bracket (c :: rest) >>= skipAux fuel .value (bracket :: stack)
      else if c = ',' then skipLabel bracket rest >>= skipAux fuel .value (bracket :: stack)
      else .error (.malformed bracket.expectedComma)

/-- A step within a bracket. -/
theorem skipAux_bracket {expect : Expect} (hexpect : expect ≠ .value) (fuel : Nat) (b : Bracket)
    (stack : List Bracket) (cs : List Char) :
    skipAux (fuel + 1) expect (b :: stack) cs =
      match skipBlanks cs with
      | [] => .error (.ended b.place)
      | c :: rest =>
        if c = b.close then skipAux fuel .next stack rest
        else if expect = .first then skipLabel b (c :: rest) >>= skipAux fuel .value (b :: stack)
        else if c = ',' then skipLabel b rest >>= skipAux fuel .value (b :: stack)
        else .error (.malformed b.expectedComma) := by
  cases expect with
  | value => exact absurd rfl hexpect
  | first => rfl
  | next => rfl

theorem length_le_of_skipAux {fuel : Nat} {expect : Expect} {stack : List Bracket}
    {cs rest : List Char} (h : skipAux fuel expect stack cs = .ok rest) :
    rest.length ≤ cs.length := by
  -- by induction on the steps, each of which takes something off the text or leaves it as it is
  induction fuel generalizing expect stack cs with
  | zero => cases h
  | succ fuel ih =>
      have hle := length_skipBlanks_le cs
      have hitem : ∀ {b : Bracket} {stack : List Bracket} {ds : List Char}, ds.length ≤ cs.length →
          (skipLabel b ds >>= skipAux fuel .value (b :: stack)) = .ok rest →
            rest.length ≤ cs.length := by
        intro b stack ds hds h
        obtain ⟨_, hlabel, h⟩ := exists_of_bind_eq_ok h
        exact Nat.le_trans (ih h) (Nat.le_trans (length_le_of_skipLabel hlabel) hds)
      have hbracket : ∀ {b : Bracket} {stack : List Bracket}, expect ≠ .value →
          skipAux (fuel + 1) expect (b :: stack) cs = .ok rest → rest.length ≤ cs.length := by
        intro b stack hexpect h
        rw [skipAux_bracket hexpect] at h
        split at h
        · cases h
        · next heq =>
            rw [heq] at hle
            split at h
            · exact Nat.le_trans (ih h) (Nat.le_of_succ_le hle)
            · split at h
              · exact hitem hle h
              · split at h
                · exact hitem (Nat.le_of_succ_le hle) h
                · cases h
      cases expect with
      | value =>
          rw [skipAux] at h
          split at h
          · cases h
          · next heq =>
              rw [heq] at hle
              exact Nat.le_trans (ih h) (Nat.le_of_succ_le hle)
          · next heq =>
              rw [heq] at hle
              exact Nat.le_trans (ih h) (Nat.le_of_succ_le hle)
          · next heq =>
              obtain ⟨_, hscalar, h⟩ := exists_of_bind_eq_ok h
              rw [heq] at hle
              exact Nat.le_trans (ih h) (Nat.le_trans (length_le_of_skipScalar hscalar) hle)
      | first | next =>
          cases stack with
          | nil =>
              obtain rfl := Except.ok.inj h
              exact Nat.le_refl _
          | cons b stack => exact hbracket (by simp) h

/-- Steps that are enough to pass over any value of a text of this length: of any two steps one
takes a character off the text. -/
def skipFuel (length : Nat) : Nat := 2 * length + 2

/-- The rest of a text after the value at its front. -/
def skipValue (cs : List Char) : Except ReadError (List Char) :=
  skipAux (skipFuel cs.length) .value [] cs

theorem length_le_of_skipValue {cs rest : List Char} (h : skipValue cs = .ok rest) :
    rest.length ≤ cs.length :=
  length_le_of_skipAux h

end StripeBrush.Json
