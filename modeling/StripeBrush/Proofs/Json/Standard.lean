/-
**The standard library does what a library has to.**

Main results:

* `Json.standard_readsObjects` — it finds the keys of an object and its end;
* `Json.standard_readsValues` — it reads numbers and flags, and passes over any value;
* `Json.standard_lawful` — **it is a library as records rest on it**.
-/

import StripeBrush.Proofs.Json.Skip

set_option relaxedAutoImplicit false
set_option autoImplicit false

namespace StripeBrush.Json

/-! ### Objects -/

theorem openObject_brace (expected : String) (b : Blanks) (rest : List Char) :
    openObject expected (b.1 ++ '\x7b' :: rest) = .ok rest := by
  rw [openObject, skipBlanks_append, skipBlanks_cons rfl]
  rfl

theorem nextQuote_first (b : Blanks) (rest : List Char) :
    nextQuote true (b.1 ++ '"' :: rest) = .ok (true, rest) := by
  rw [nextQuote, skipBlanks_append, skipBlanks_cons rfl]
  rfl

theorem nextQuote_later (b b' : Blanks) (rest : List Char) :
    nextQuote false (b.1 ++ ',' :: (b'.1 ++ '"' :: rest)) = .ok (true, rest) := by
  have hquote : skipBlanks (b'.1 ++ '"' :: rest) = '"' :: rest := by
    rw [skipBlanks_append, skipBlanks_cons rfl]
  rw [nextQuote, skipBlanks_append, skipBlanks_cons rfl]
  simp [hquote]

theorem nextQuote_close (isFirst : Bool) (b : Blanks) (rest : List Char) :
    nextQuote isFirst (b.1 ++ '\x7d' :: rest) = .ok (false, rest) := by
  rw [nextQuote, skipBlanks_append, skipBlanks_cons rfl]
  rfl

/-- After its quotation mark, a key is read however it is written. -/
theorem nextKey_of_nextQuote {isFirst : Bool} {cs : List Char} {key : List Spelling}
    {rest : List Char}
    (h : nextQuote isFirst cs = .ok (true, letters (spelledParts key) ++ '"' :: rest)) :
    nextKey isFirst cs = .ok (some (spelledText key), rest) := by
  rw [nextKey, h]
  simp only [bind, Except.bind, if_true, readText_spelled]
  rfl

theorem keyText_append (key : List Spelling) (rest : List Char) :
    keyText key ++ rest = '"' :: (letters (spelledParts key) ++ '"' :: rest) := by
  simp [keyText]

theorem standard_readsObjects : standard.ReadsObjects where
  openObject_brace := openObject_brace "struct ToolState"
  nextKey_first b key rest := by
    rw [keyText_append]
    exact nextKey_of_nextQuote (nextQuote_first b _)
  nextKey_later b b' key rest := by
    rw [keyText_append]
    exact nextKey_of_nextQuote (nextQuote_later b b' _)
  nextKey_close isFirst b rest := by
    change nextKey isFirst _ = _
    rw [nextKey, nextQuote_close]
    rfl
  finish_blanks b := by
    have hblanks := skipBlanks_append b []
    rw [List.append_nil] at hblanks
    exact if_pos hblanks
  category_duplicateField _ := rfl

/-! ### Values -/

theorem afterColon_colonText {α : Type} (value : Reader α) (b b' : Blanks) (cs : List Char) :
    afterColon value (colonText b b' cs) = value (b'.1 ++ cs) := by
  rw [afterColon, colonText, readColon_append]
  rfl

theorem readNumberValue_letters (n : NumberForm) (b : Blanks) {rest : List Char}
    (hrest : EndsNumber rest) :
    readNumberValue (b.1 ++ (n.letters ++ rest)) =
      (n.converted standard).map fun z => (z.toBinary32, rest) := by
  have hread := readNumber_unsigned n hrest
  have hmap : ((n.converted standard).map fun z => (z, rest)).map
      (fun r => (r.1.toBinary32, r.2)) = (n.converted standard).map fun z => (z.toBinary32, rest) := by
    cases n.converted standard <;> rfl
  rw [readNumberValue, skipBlanks_append, NumberForm.letters, ← hmap, ← hread]
  cases n.negative with
  | true =>
      rw [if_pos rfl, List.cons_append, skipBlanks_cons rfl]
      rfl
  | false =>
      obtain ⟨c, cs, htext, hc⟩ := n.exists_cons
      have hminus : c ≠ '-' := by
        rintro rfl
        cases hc
      rw [if_neg Bool.false_ne_true, htext, List.cons_append, skipBlanks_cons (isBlank_of_isDigit hc)]
      simp only [hminus, hc, if_true, if_false]

theorem readFlagValue_letters (flag : Bool) (b : Blanks) (rest : List Char) :
    readFlagValue (b.1 ++ (flagText flag ++ rest)) = .ok (flag, rest) := by
  rw [readFlagValue, skipBlanks_append]
  cases flag <;> rfl

theorem readNumberValue_null (b : Blanks) (rest : List Char) :
    readNumberValue (b.1 ++ (nullText ++ rest)) = .error (.wrongType .null "f32") := by
  rw [readNumberValue, skipBlanks_append]
  rfl

theorem standard_readsValues : standard.ReadsValues where
  nextNumber_number b b' n rest hrest :=
    (afterColon_colonText readNumberValue b b' _).trans (readNumberValue_letters n b' hrest)
  nextNumber_null b b' rest _ :=
    ⟨_, (afterColon_colonText readNumberValue b b' _).trans (readNumberValue_null b' rest), rfl⟩
  nextFlag_flag b b' flag rest _ :=
    (afterColon_colonText readFlagValue b b' _).trans (readFlagValue_letters flag b' rest)
  skipNext_value b b' cs rest hcs hrest := by
    have hskip := (hcs.blanks b').skipValue_eq hrest
    rw [List.append_assoc] at hskip
    change skipNext _ = _
    rw [skipNext, colonText, readColon_append]
    exact hskip

/-! ### The library -/

theorem standard_numberText_finite (neg : Bool) (i : Fin Format.binary32.infIndex) :
    standard.numberText (.finite neg i) =
      signedText neg (standard.layout.magnitudeText Format.binary32 i) :=
  rfl

theorem standard_prints : standard.Prints where
  plainTo_le := by decide
  numberText_pos neg i hi := by
    refine ⟨_, Format.isShortest_shortest hi, ?_⟩
    rw [standard_numberText_finite, DecimalLayout.magnitudeText, if_neg (by omega)]
  numberText_zero neg i hi := by
    rw [standard_numberText_finite, DecimalLayout.magnitudeText, if_pos hi]
  numberText_of_not_isFinite x hx := by
    cases x with
    | nan _ => rfl
    | inf _ => rfl
    | finite _ _ => cases hx

/-- **The standard library** does what a library has to. -/
theorem standard_lawful : standard.Lawful :=
  { standard_readsObjects, standard_readsValues, standard_scales, standard_prints with }

end StripeBrush.Json
