/-
**Numbers are read as their parts say.**

Whatever a number is made of, the reader finds the same parts again: it gathers the digits before and
after the point into one significand, counts what does not fit, and scales the significand by the
power of ten that comes out.  The standard library scales as every library does.

Main results:

* `Json.standard_scales` — scaling by powers of ten;
* `Json.readNumber_unsigned` — **every number is read as its conversion**;
* `Json.skipNumber_unsigned` — where its value does not matter, it is passed over.
-/

import StripeBrush.Json.Standard
import StripeBrush.Proofs.Json.Laws

set_option relaxedAutoImplicit false
set_option autoImplicit false

namespace StripeBrush.Json

/-! ### Digits -/

theorem spanDigits_append {ds rest : List Char} (hds : ∀ c ∈ ds, c.isDigit = true)
    (hrest : EndsDigits rest) : spanDigits (ds ++ rest) = (ds, rest) := by
  have hstop : rest.takeWhile Char.isDigit = [] ∧ rest.dropWhile Char.isDigit = rest := by
    cases rest with
    | nil => exact ⟨rfl, rfl⟩
    | cons c rest => simp [hrest c rfl]
  rw [spanDigits, List.takeWhile_append_of_pos hds, List.dropWhile_append_of_pos hds, hstop.1,
    hstop.2, List.append_nil]

theorem readWhole_append (onEnd : ReadError) {cs rest : List Char} (hcs : IsWhole cs)
    (hrest : EndsDigits rest) : readWhole onEnd (cs ++ rest) = .ok (cs, rest) := by
  rcases hcs with rfl | ⟨⟨c, ds, rfl, hc⟩, hdigits⟩
  · cases rest with
    | nil => rfl
    | cons c rest => simp [readWhole, hrest c rfl]
  · have hspan := spanDigits_append hdigits hrest
    rw [List.cons_append] at hspan ⊢
    rw [readWhole, if_pos (hdigits c (List.mem_cons_self)), hspan]
    intro h
    exact absurd h hc

theorem foldl_digits (cs : List Char) :
    cs.foldl (fun n d => n * 10 + digitValue d) 0 = Nat.ofDigitChars 10 cs 0 := by
  simp only [Nat.ofDigitChars_eq_foldl, Nat.mul_comm 10]
  rfl

/-! ### Exponents -/

theorem readDigits_append (onEnd : ReadError) {ds rest : List Char} (hne : ds ≠ [])
    (hds : ∀ c ∈ ds, c.isDigit = true) (hrest : EndsDigits rest) :
    readDigits onEnd (ds ++ rest) = .ok (Nat.ofDigitChars 10 ds 0, rest) := by
  obtain ⟨c, cs, rfl⟩ := List.exists_cons_of_ne_nil hne
  have hspan := spanDigits_append hds hrest
  rw [List.cons_append] at hspan ⊢
  rw [readDigits, if_pos (hds c List.mem_cons_self), hspan, foldl_digits]

theorem splitSign_signed (x : ExponentForm) (rest : List Char) :
    splitSign (x.signed ++ rest) =
      (match x.sign with
        | .minus => true
        | _ => false, x.digits ++ rest) := by
  obtain ⟨_, sign, digits, hne, hdigits⟩ := x
  obtain ⟨c, cs, rfl⟩ := List.exists_cons_of_ne_nil hne
  have hc : c.isDigit = true := hdigits c List.mem_cons_self
  cases sign with
  | plus | minus => rfl
  | none =>
      change splitSign (c :: (cs ++ rest)) = _
      unfold splitSign
      split
      · next heq =>
          obtain ⟨rfl, -⟩ := List.cons.inj heq
          cases hc
      · next heq =>
          obtain ⟨rfl, -⟩ := List.cons.inj heq
          cases hc
      · rfl

theorem readExponent_signed (onEnd : ReadError) (x : ExponentForm) {rest : List Char}
    (hrest : EndsDigits rest) : readExponent onEnd (x.signed ++ rest) = .ok (x.value, rest) := by
  have hdigits := readDigits_append onEnd x.ne_nil x.isDigit hrest
  rw [readExponent, splitSign_signed, hdigits, ExponentForm.value]
  cases x.sign <;> rfl

/-! ### Scaling -/

theorem scale_of_le (x : Binary64) {e : ℤ} (he : e.natAbs ≤ maxTen) :
    scale x e = if 0 ≤ e ∧ (timesTenTo x e).isInf = true then .error (.malformed .numberOutOfRange)
      else .ok (timesTenTo x e) := by
  rw [scale, if_pos he]

theorem scale_of_zero {x : Binary64} {e : ℤ} (he : maxTen < e.natAbs) (hx : x.numEq 0 = true) :
    scale x e = .ok x := by
  rw [scale, if_neg (Nat.not_le.2 he), if_pos hx]

theorem scale_of_large {x : Binary64} {e : ℤ} (he : maxTen < e) (hx : x.numEq 0 = false) :
    scale x e = .error (.malformed .numberOutOfRange) := by
  have hnot : ¬ e.natAbs ≤ maxTen := by omega
  have hnonneg : 0 ≤ e := by omega
  rw [scale, if_neg hnot, hx, if_neg Bool.false_ne_true, if_pos hnonneg]

theorem scale_of_small {x : Binary64} {e : ℤ} (he : e < -maxTen) (hx : x.numEq 0 = false) :
    scale x e =
      .ok (scaleDown ((e.natAbs - 1) / maxTen) ((e.natAbs - 1) % maxTen + 1) x) := by
  have hnot : ¬ e.natAbs ≤ maxTen := by omega
  have hneg : ¬ 0 ≤ e := by omega
  rw [scale, if_neg hnot, hx, if_neg Bool.false_ne_true, if_neg hneg]

/-- One division of those that `scaleDown` makes. -/
theorem scaleDown_step {x : Binary64} {k : ℕ} (hk : maxTen < k) (hx : x.numEq 0 = false) :
    scaleDown ((k - 1) / maxTen) ((k - 1) % maxTen + 1) x =
      scaleDown ((k - maxTen - 1) / maxTen) ((k - maxTen - 1) % maxTen + 1) (x / tenTo maxTen) := by
  have hle : maxTen ≤ k - 1 := Nat.le_sub_one_of_lt hk
  have hsub : k - 1 - maxTen = k - maxTen - 1 := Nat.sub_right_comm k 1 maxTen
  rw [Nat.div_eq_sub_div (by decide) hle, Nat.mod_eq_sub_mod hle, hsub, scaleDown, hx,
    if_neg Bool.false_ne_true]

theorem scale_below {x : Binary64} {e : ℤ} (he : e < -maxTen) (hx : x.numEq 0 = false) :
    scale x e = scale (x / tenTo maxTen) (e + maxTen) := by
  have hlt : maxTen < e.natAbs := by omega
  have hneg : e + maxTen < 0 := by omega
  have habs : (e + maxTen).natAbs = e.natAbs - maxTen := by omega
  rw [scale_of_small he hx, scaleDown_step hlt hx]
  generalize x / tenTo maxTen = y
  rcases Nat.lt_or_ge maxTen (e.natAbs - maxTen) with hmore | hlast
  · -- there are further steps, unless zero has been reached
    have he' : e + maxTen < -maxTen := by omega
    cases hy : y.numEq 0 with
    | true =>
        have hle : maxTen ≤ e.natAbs - maxTen - 1 := Nat.le_sub_one_of_lt hmore
        rw [scale_of_zero (by rwa [habs]) hy, Nat.div_eq_sub_div (by decide) hle, scaleDown, if_pos hy]
    | false => rw [scale_of_small he' hy, habs]
  · have hsmall : e.natAbs - maxTen - 1 < maxTen := by omega
    have hpred : e.natAbs - maxTen - 1 + 1 = e.natAbs - maxTen := by omega
    have hnot : ¬ (0 ≤ e + maxTen ∧ (timesTenTo y (e + maxTen)).isInf = true) :=
      fun h => Int.not_le.2 hneg h.1
    rw [scale_of_le y (habs.trans_le hlast), if_neg hnot, Nat.div_eq_of_lt hsmall,
      Nat.mod_eq_of_lt hsmall, hpred, scaleDown, timesTenTo, if_pos hneg, habs]

/-- The standard library scales as every library does. -/
theorem standard_scales : standard.Scales where
  scale_within x e he hfinite := by
    refine (scale_of_le x he).trans (if_neg ?_)
    rintro ⟨hnonneg, hinf⟩
    rw [hfinite hnonneg] at hinf
    cases hinf
  scale_infinite x e he hnonneg hinf := (scale_of_le x he).trans (if_pos ⟨hnonneg, hinf⟩)
  scale_zero x e he hx := scale_of_zero he hx
  scale_above x e he hx := scale_of_large he hx
  scale_below x e he hx := scale_below he hx

/-! ### Reading a number -/

variable (n : NumberForm) {rest : List Char}

theorem head_exponentText (hrest : EndsNumber rest) :
    ∀ c ∈ (n.exponentText ++ rest).head?, c.isDigit = false ∧ c ≠ '.' := by
  intro c hc
  cases hx : n.exponent with
  | none =>
      rw [NumberForm.exponentText, hx] at hc
      exact ⟨(hrest c hc).1, (hrest c hc).2.1⟩
  | some x =>
      obtain rfl : (if x.isCapital then 'E' else 'e') = c := by
        simpa [NumberForm.exponentText, hx, ExponentForm.letters] using hc
      cases x.isCapital <;> decide

theorem endsDigits_fractionText (hrest : EndsNumber rest) :
    EndsDigits (n.fractionText ++ rest) := by
  rw [NumberForm.fractionText]
  split
  · exact fun c hc => (head_exponentText n hrest c hc).1
  · exact endsDigits_cons _ rfl

/-- A rest that is not an exponent leaves the power of ten as it is. -/
theorem readScaled_end (neg : Bool) (m : ℕ) (e : ℤ) (hrest : EndsNumber rest) :
    readScaled neg m e rest = scaled neg m e rest := by
  cases rest with
  | nil => rfl
  | cons c rest =>
      obtain ⟨-, -, he, hE⟩ := hrest c rfl
      unfold readScaled
      split
      · simp_all
      · simp_all
      · rfl

/-- From where an exponent may follow. -/
theorem readScaled_exponentText (hrest : EndsNumber rest) :
    readScaled n.negative n.significand n.power (n.exponentText ++ rest) =
      (n.scaled standard).map fun z => (z, rest) := by
  have hstandard : standard.scale = scale := rfl
  rw [NumberForm.exponentText, NumberForm.scaled, NumberForm.exponentValue, hstandard]
  cases n.exponent with
  | none =>
      have hexponent : ¬ maxExponent < Int.natAbs 0 := by decide
      simp only [Option.map_none, Option.getD_none, List.nil_append, hexponent, if_false, add_zero]
      rw [readScaled_end _ _ _ hrest, scaled]
      cases scale (Binary.ofNat _ n.significand) n.power <;> rfl
  | some x =>
      have hread := readExponent_signed (.ended .value) x hrest.endsDigits
      obtain ⟨c, hc, htext⟩ : ∃ c, (c = 'e' ∨ c = 'E') ∧ x.letters = c :: x.signed :=
        ⟨_, by cases x.isCapital <;> simp, rfl⟩
      have hpower : readScaled n.negative n.significand n.power (c :: (x.signed ++ rest)) =
          readPower n.negative n.significand n.power (x.signed ++ rest) := by
        rcases hc with rfl | rfl <;> rfl
      simp only [Option.map_some, Option.getD_some, htext, List.cons_append]
      rw [hpower, readPower, hread]
      simp only [bind, Except.bind]
      split
      · split <;> rfl
      · rw [scaled]
        cases scale (Binary.ofNat _ n.significand) (n.power + x.value) <;> rfl

/-- A number that is over after its whole part. -/
theorem readNumber_whole (neg : Bool) {whole : List Char} (hwhole : IsWhole whole)
    (hrest : EndsNumber rest) :
    readNumber neg (whole ++ rest) =
      if (absorb 0 whole).2 = [] then .ok (wholeNumber neg (absorb 0 whole).1, rest)
      else readScaled neg (absorb 0 whole).1 (absorb 0 whole).2.length rest := by
  rw [readNumber, readWhole_append _ hwhole hrest.endsDigits]
  simp only [bind, Except.bind]
  cases rest with
  | nil => rfl
  | cons c rest =>
      obtain ⟨-, hpoint, he, hE⟩ := hrest c rfl
      split <;> simp_all

/-- A number that goes on with an exponent after its whole part. -/
theorem readNumber_exponent (neg : Bool) {whole : List Char} (hwhole : IsWhole whole) {c : Char}
    (hc : c = 'e' ∨ c = 'E') :
    readNumber neg (whole ++ c :: rest) =
      readScaled neg (absorb 0 whole).1 (absorb 0 whole).2.length (c :: rest) := by
  have hends : EndsDigits (c :: rest) :=
    endsDigits_cons _ (by rcases hc with rfl | rfl <;> rfl)
  rw [readNumber, readWhole_append _ hwhole hends]
  rcases hc with rfl | rfl <;> rfl

/-- A number that goes on with a point. -/
theorem readNumber_fraction (hrest : EndsNumber rest) (hfraction : n.fraction ≠ []) :
    readNumber n.negative (n.unsigned ++ rest) =
      readScaled n.negative n.significand n.power (n.exponentText ++ rest) := by
  have hwhole := readWhole_append (.ended .value) n.isWhole (endsDigits_fractionText n hrest)
  have hspan := spanDigits_append n.isDigit fun c hc => (head_exponentText n hrest c hc).1
  rw [NumberForm.unsigned, List.append_assoc, readNumber, hwhole]
  simp only [NumberForm.fractionText, List.cons_append, List.append_assoc, hspan, bind,
    Except.bind, hfraction, if_false]
  rfl

/-- **Every number is read as its conversion.** -/
theorem readNumber_unsigned (hrest : EndsNumber rest) :
    readNumber n.negative (n.unsigned ++ rest) = (n.converted standard).map fun z => (z, rest) := by
  have hscaled := readScaled_exponentText n hrest
  rw [NumberForm.converted]
  by_cases hfraction : n.fraction = []
  · have hpower : n.power = (absorb 0 n.whole).2.length := by
      simp [NumberForm.power, hfraction, absorb]
    have hsignificand : n.significand = (absorb 0 n.whole).1 := by
      rw [NumberForm.significand, hfraction]
      rfl
    have htext : n.unsigned ++ rest = n.whole ++ (n.exponentText ++ rest) := by
      rw [NumberForm.unsigned, NumberForm.fractionText, if_pos hfraction, List.append_assoc]
    rw [hpower, hsignificand] at hscaled
    rw [htext, hsignificand]
    cases hexponent : n.exponent with
    | none =>
        have hnil : n.exponentText ++ rest = rest := by
          rw [NumberForm.exponentText, hexponent]
          rfl
        have hfits : n.Fits ↔ (absorb 0 n.whole).2 = [] := by
          rw [NumberForm.Fits, hfraction, hexponent]
          simp
        rw [hnil] at hscaled ⊢
        rw [readNumber_whole _ n.isWhole hrest]
        simp only [hfits]
        split
        · rfl
        · exact hscaled
    | some x =>
        obtain ⟨c, hc, hcons⟩ : ∃ c, (c = 'e' ∨ c = 'E') ∧
            n.exponentText ++ rest = c :: (x.signed ++ rest) := by
          rw [NumberForm.exponentText, hexponent]
          exact ⟨_, by cases x.isCapital <;> simp, rfl⟩
        have hfits : ¬ n.Fits := fun h => Option.some_ne_none x (hexponent.symm.trans h.2.1)
        rw [hcons] at hscaled ⊢
        rw [readNumber_exponent _ n.isWhole hc, hscaled, if_neg hfits]
  · have hfits : ¬ n.Fits := fun h => hfraction h.1
    rw [readNumber_fraction n hrest hfraction, hscaled, if_neg hfits]

/-! ### Passing over a number -/

theorem skipFraction_fractionText (hrest : EndsNumber rest) :
    skipFraction (n.fractionText ++ rest) = .ok (n.exponentText ++ rest) := by
  have hhead := head_exponentText n hrest
  rw [NumberForm.fractionText]
  split
  · generalize n.exponentText ++ rest = cs at hhead
    cases cs with
    | nil => rfl
    | cons c cs =>
        have hpoint := (hhead c rfl).2
        unfold skipFraction
        split
        · simp_all
        · rfl
  · next hfraction =>
      have hspan := spanDigits_append n.isDigit fun c hc => (hhead c hc).1
      rw [List.cons_append, List.append_assoc, skipFraction, hspan, if_neg hfraction]

theorem skipExponent_exponentText (hrest : EndsNumber rest) :
    skipExponent (n.exponentText ++ rest) = .ok rest := by
  rw [NumberForm.exponentText]
  cases n.exponent with
  | none =>
      rw [Option.map_none, Option.getD_none, List.nil_append]
      cases rest with
      | nil => rfl
      | cons c rest =>
          obtain ⟨-, -, he, hE⟩ := hrest c rfl
          unfold skipExponent
          split <;> simp_all
  | some x =>
      have hread := readExponent_signed (.malformed .invalidNumber) x hrest.endsDigits
      simp only [Option.map_some, Option.getD_some, ExponentForm.letters, List.cons_append]
      cases x.isCapital with
      | false => exact congrArg (Except.map Prod.snd) hread
      | true => exact congrArg (Except.map Prod.snd) hread

/-- Where its value does not matter, a number is passed over. -/
theorem skipNumber_unsigned (hrest : EndsNumber rest) :
    skipNumber (n.unsigned ++ rest) = .ok rest := by
  have hwhole := readWhole_append (.malformed .invalidNumber) n.isWhole
    (endsDigits_fractionText n hrest)
  rw [NumberForm.unsigned, List.append_assoc, skipNumber, hwhole]
  simp only [bind, Except.bind, skipFraction_fractionText n hrest, skipExponent_exponentText n hrest]

end StripeBrush.Json
