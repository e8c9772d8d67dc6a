/-
**Strings are read as their characters.**

Where a string does not matter, any parts will do.  Where it does, every character can be written in
several ways, and whichever is taken, the reader finds the character.

Main results:

* `Json.readText_spelled` — **a string is read as its characters, whichever way they are written**;
* `Json.exists_readText_letters` — where the string does not matter, any parts are passed over.
-/

import Mathlib.Data.List.Basic
import StripeBrush.Json.Text
import StripeBrush.Proofs.Json.Forms

set_option relaxedAutoImplicit false
set_option autoImplicit false

namespace StripeBrush.Json

/-! ### Reading a part -/

section Parts

variable (paired : Bool) (done rest : List Char)

theorem readTextFrom_plain_part (c : {c : Char // isPlain c = true}) :
    readTextFrom paired .plain done ((TextPart.plain c).letters ++ rest) =
      readTextFrom paired .plain (c.1 :: done) rest := by
  obtain ⟨c, hc⟩ := c
  simp only [isPlain, Bool.and_eq_true, bne_iff_ne, decide_eq_true_eq] at hc
  obtain ⟨⟨hquote, hslash⟩, hlow⟩ := hc
  simp [TextPart.letters, readTextFrom, TextState.step, hquote, hslash, Nat.not_lt.2 hlow]

theorem readTextFrom_letter_part (c : {c : Char // (letterEscape c).isSome = true}) :
    readTextFrom paired .plain done ((TextPart.letter c).letters ++ rest) =
      readTextFrom paired .plain ((letterEscape c.1).get c.2 :: done) rest := by
  obtain ⟨c, hc⟩ := c
  obtain ⟨d, hd⟩ := Option.isSome_iff_exists.1 hc
  have hu : c ≠ 'u' := by
    rintro rfl
    cases hd
  simp [TextPart.letters, readTextFrom, TextState.step, hu, hd]

theorem hasFourBytes_letters (u : HexUnit) : hasFourBytes (u.letters ++ rest) = true := by
  have h1 := u.first.1.utf8Size_pos
  have h2 := u.second.1.utf8Size_pos
  have h3 := u.third.1.utf8Size_pos
  have h4 := u.fourth.1.utf8Size_pos
  simp only [hasFourBytes, HexUnit.letters, List.cons_append, List.nil_append, List.take_succ_cons,
    List.take_zero, List.map_cons, List.map_nil, List.sum_cons, List.sum_nil, decide_eq_true_eq]
  omega

/-- The reader of a string after a unit that is complete. -/
def readAfterUnit (paired : Bool) (first : Option ℕ) (unit : ℕ) (done : List Char) :
    Reader (List Char) := fun cs =>
  match TextState.takeUnit paired first unit with
  | .error e => .error e
  | .ok (next, complete) => readTextFrom paired next (complete.toList ++ done) cs

/-- A digit before the last one. -/
theorem readTextFrom_digit (first : Option ℕ) {left : ℕ} (value : ℕ) (d : HexDigit)
    (hleft : 1 < left) :
    readTextFrom paired (.hex first left value) done (d.1 :: rest) =
      readTextFrom paired (.hex first (left - 1) (value * 16 + d.value)) done rest := by
  obtain ⟨c, hc⟩ := d
  obtain ⟨n, hn⟩ := Option.isSome_iff_exists.1 hc
  simp [readTextFrom, TextState.step, HexDigit.value, hn, Nat.not_le.2 hleft]

theorem readTextFrom_last_digit (first : Option ℕ) (value : ℕ) (d : HexDigit) :
    readTextFrom paired (.hex first 1 value) done (d.1 :: rest) =
      readAfterUnit paired first (value * 16 + d.value) done rest := by
  obtain ⟨c, hc⟩ := d
  obtain ⟨n, hn⟩ := Option.isSome_iff_exists.1 hc
  simp only [readTextFrom, TextState.step, HexDigit.value, hn, Option.get_some, reduceCtorEq,
    false_and, if_false, Nat.le_refl, if_true]
  rfl

theorem readTextFrom_digits (first : Option ℕ) (u : HexUnit) :
    readTextFrom paired (.hex first 4 0) done (u.letters ++ rest) =
      readAfterUnit paired first u.value done rest := by
  rw [HexUnit.letters, List.cons_append, readTextFrom_digit _ _ _ _ _ _ (by decide),
    List.cons_append, readTextFrom_digit _ _ _ _ _ _ (by decide), List.cons_append,
    readTextFrom_digit _ _ _ _ _ _ (by decide), List.cons_append, readTextFrom_last_digit]
  simp [HexUnit.value]

theorem readTextFrom_unit_part (u : HexUnit) :
    readTextFrom paired .plain done ((TextPart.unit u).letters ++ rest) =
      readAfterUnit paired none u.value done rest := by
  rw [← readTextFrom_digits]
  simp [TextPart.letters, readTextFrom, TextState.step, TextState.beginHex, hasFourBytes_letters]

theorem readTextFrom_half (first : ℕ) (u : HexUnit) :
    readTextFrom paired (.half first) done ((TextPart.unit u).letters ++ rest) =
      readAfterUnit paired (some first) u.value done rest := by
  rw [← readTextFrom_digits]
  simp [TextPart.letters, readTextFrom, TextState.step, TextState.beginHex, hasFourBytes_letters]

/-! ### Reading a string -/

/-- Where halves of surrogate pairs need not be in pairs, every part is some character. -/
theorem exists_readTextFrom_part (p : TextPart) :
    ∃ c, readTextFrom false .plain done (p.letters ++ rest) =
      readTextFrom false .plain (c :: done) rest := by
  cases p with
  | plain c => exact ⟨_, readTextFrom_plain_part false done rest c⟩
  | letter c => exact ⟨_, readTextFrom_letter_part false done rest c⟩
  | unit u => exact ⟨_, readTextFrom_unit_part false done rest u⟩

/-- Where they must be, a character is found whichever way it is written. -/
theorem readTextFrom_spelling (s : Spelling) :
    readTextFrom true .plain done (letters s.parts ++ rest) =
      readTextFrom true .plain (s.char :: done) rest := by
  cases s with
  | plain c =>
      simpa [letters, Spelling.parts, Spelling.char] using readTextFrom_plain_part true done rest c
  | letter c =>
      simpa [letters, Spelling.parts, Spelling.char] using readTextFrom_letter_part true done rest c
  | unit u hleading htrailing =>
      have h := readTextFrom_unit_part true done rest u
      simpa [letters, Spelling.parts, Spelling.char, readAfterUnit, TextState.takeUnit, hleading,
        htrailing] using h
  | pair u v hleading htrailing =>
      have hnot : isTrailing u.value = false := by
        simp only [isLeading, isTrailing, Bool.and_eq_true, decide_eq_true_eq] at hleading ⊢
        simp only [Bool.and_eq_false_iff, decide_eq_false_iff_not]
        omega
      have hfirst := readTextFrom_unit_part true done ((TextPart.unit v).letters ++ rest) u
      have hsecond := readTextFrom_half true done rest u.value v
      simp only [readAfterUnit, TextState.takeUnit, hleading, hnot, htrailing] at hfirst hsecond
      simpa [letters, Spelling.parts, Spelling.char, hsecond] using hfirst

end Parts

/-- Where the string does not matter, any parts are passed over. -/
theorem exists_readText_letters (parts : List TextPart) (rest : List Char) :
    ∃ cs, readText false (letters parts ++ '"' :: rest) = .ok (cs, rest) := by
  suffices h : ∀ done, ∃ cs,
      readTextFrom false .plain done (letters parts ++ '"' :: rest) = .ok (cs, rest) from h []
  induction parts with
  | nil => exact fun done => ⟨done.reverse, by simp [letters, readTextFrom]⟩
  | cons p parts ih =>
      intro done
      obtain ⟨c, hc⟩ := exists_readTextFrom_part done (letters parts ++ '"' :: rest) p
      obtain ⟨cs, hcs⟩ := ih (c :: done)
      refine ⟨cs, ?_⟩
      rw [letters, List.flatMap_cons, List.append_assoc]
      exact hc.trans hcs

/-- **A string is read as its characters, whichever way they are written.** -/
theorem readText_spelled (cs : List Spelling) (rest : List Char) :
    readText true (letters (spelledParts cs) ++ '"' :: rest) = .ok (spelledText cs, rest) := by
  suffices h : ∀ done, readTextFrom true .plain done (letters (spelledParts cs) ++ '"' :: rest) =
      .ok (done.reverse ++ spelledText cs, rest) from h []
  induction cs with
  | nil => simp [spelledParts, spelledText, letters, readTextFrom]
  | cons s cs ih =>
      intro done
      rw [spelledParts, List.flatMap_cons, letters_append, List.append_assoc,
        readTextFrom_spelling, ← spelledParts, ih]
      simp [spelledText]

end StripeBrush.Json
