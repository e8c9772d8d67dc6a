/-
**Printed numbers are read back.**

The text of printed digits is a number like any other.  In plain notation its digits are those before
and after its point together, with a negative power of ten for those after it; in scientific notation
they have the power of ten that the exponent leaves.  Either way the printed digits are what is read.
Only a whole number gets a further zero, the one after its point.  Read in double precision and
narrowed, they give the number that was printed.

Main definitions:

* `Json.NumberForm.HasDigits` — a number with these digits and this power of ten;
* `Json.NumberForm.ofPoint` — digits before and after a point.

Main results:

* `Json.NumberForm.exists_of_plain`, `Json.NumberForm.exists_of_spread` — the two notations, as a
  number that is written;
* `Json.exists_printed` — **the text of a finite number is a number that is read as this one**.
-/

import StripeBrush.Proofs.Binary.Values
import StripeBrush.Proofs.Decimal.Narrowing
import StripeBrush.Proofs.Json.Laws
import StripeBrush.Proofs.Json.Significand

set_option relaxedAutoImplicit false
set_option autoImplicit false

namespace StripeBrush.Json

open Format

variable {ε : Type} {lib : Library ε}

/-! ### Narrowing -/

theorem isInf_of_narrowsTo {x : Binary64} {i : Fin binary32.infIndex}
    (h : narrowsTo i x = true) : x.isInf = false := by
  rw [narrowsTo_eq_true_iff, Binary.ofIndex, dif_pos i.isLt] at h
  cases x with
  | inf => cases h
  | nan | finite => rfl

theorem toBinary32_withSign {x : Binary64} {i : Fin binary32.infIndex} (neg : Bool)
    (h : narrowsTo i x = true) : (Number.real (withSign neg x)).toBinary32 = .finite neg i := by
  rw [narrowsTo_eq_true_iff, Binary.ofIndex, dif_pos i.isLt] at h
  cases neg with
  | false => exact h
  | true =>
      change (-x).convert binary32 = _
      rw [Binary.convert_neg, h]
      rfl

namespace NumberForm

/-! ### Digits and powers of ten -/

/-- The number has a point or an exponent; these are its digits, as one, and the power of ten that
they are taken at. -/
structure HasDigits (n : NumberForm) (digits : ℕ) (power : ℤ) : Prop where
  digitsValue : n.digitsValue = digits
  power : n.exponentValue - n.fraction.length = power
  exponent : n.fraction = [] → n.exponent ≠ none
  exponent_le : n.exponentValue.natAbs ≤ maxExponent

/-- Such a number is read as its digits, scaled. -/
theorem HasDigits.converted_eq {n : NumberForm} {digits : ℕ} {power : ℤ}
    (h : n.HasDigits digits power) (hdigits : digits < significandBound) :
    n.converted lib = (lib.scale (Binary.ofNat binary64 digits) power).map fun x =>
      .real (withSign n.negative x) := by
  have hvalue := h.digitsValue
  rw [NumberForm.digitsValue, Nat.ofDigitChars_append] at hvalue
  have hbound : Nat.ofDigitChars 10 n.fraction (Nat.ofDigitChars 10 n.whole 0) < significandBound :=
    hvalue.trans_lt hdigits
  have hwhole := absorb_eq n.whole ((le_ofDigitChars n.fraction _).trans_lt hbound)
  have hfraction := absorb_eq n.fraction hbound
  have hsignificand : n.significand = digits := by
    rw [significand, hwhole, hfraction, hvalue]
  have hpower : n.power + n.exponentValue = power := by
    rw [NumberForm.power, hwhole, hfraction, ← h.power, List.length_nil, Nat.sub_zero]
    push_cast
    ring
  rw [converted, if_neg fun hfits => h.exponent hfits.1 hfits.2.1, scaled,
    if_neg (Nat.not_lt.2 h.exponent_le), hsignificand, hpower]

/-- If they narrow to some number in single precision, then that is what is read. -/
theorem HasDigits.exists_converted {n : NumberForm} {digits : ℕ} {power : ℤ}
    (h : n.HasDigits digits power) (hlib : lib.Scales) (hdigits : digits < significandBound)
    (hpower : power.natAbs ≤ maxTen) {i : Fin binary32.infIndex}
    (hnarrow : narrowsTo i (timesTenTo (Binary.ofNat binary64 digits) power) = true) :
    ∃ z, n.converted lib = .ok z ∧ z.toBinary32 = .finite n.negative i := by
  have hscale := hlib.scale_within (Binary.ofNat binary64 digits) power hpower
    fun _ => isInf_of_narrowsTo hnarrow
  rw [h.converted_eq hdigits, hscale]
  exact ⟨_, rfl, toBinary32_withSign n.negative hnarrow⟩

/-! ### The two notations -/

/-- Digits before and after a point. -/
def ofPoint (neg : Bool) {whole fraction : List Char} (hwhole : IsWhole whole)
    (hfraction : ∀ c ∈ fraction, c.isDigit = true) : NumberForm :=
  ⟨neg, whole, hwhole, fraction, hfraction, none⟩

theorem unsigned_ofPoint (neg : Bool) {whole fraction : List Char} (hwhole : IsWhole whole)
    (hfraction : ∀ c ∈ fraction, c.isDigit = true) (hne : fraction ≠ []) :
    (ofPoint neg hwhole hfraction).unsigned = whole ++ '.' :: fraction := by
  simp [unsigned, fractionText, exponentText, ofPoint, hne]

theorem hasDigits_ofPoint (neg : Bool) {whole fraction : List Char} (hwhole : IsWhole whole)
    (hfraction : ∀ c ∈ fraction, c.isDigit = true) (hne : fraction ≠ []) {digits : ℕ} {power : ℤ}
    (hdigits : Nat.ofDigitChars 10 (whole ++ fraction) 0 = digits)
    (hpower : -(fraction.length : ℤ) = power) :
    (ofPoint neg hwhole hfraction).HasDigits digits power where
  digitsValue := hdigits
  power := by
    rw [← hpower]
    exact zero_sub _
  exponent h := absurd h hne
  exponent_le := Nat.zero_le _

theorem isWhole_zero : IsWhole ['0'] := Or.inl rfl

section Notations

variable {s : Scientific} (hs : s.Printed) (neg : Bool)

include hs

/-- Plain notation below one: a zero, and further ones after the point. -/
theorem exists_of_plain_below (hexp : s.exponent < 0) :
    ∃ n : NumberForm, n.negative = neg ∧ n.unsigned = s.plain ∧ n.HasDigits s.significand s.power := by
  obtain ⟨c, cs, hcs, -⟩ := hs.first
  set zeros := List.replicate (-s.exponent - 1).toNat '0' with hzeros
  have hdigits : ∀ d ∈ zeros ++ s.digits, d.isDigit = true := by
    intro d hd
    rcases List.mem_append.1 hd with hd | hd
    · rw [List.eq_of_mem_replicate hd]
      rfl
    · exact hs.isDigit d hd
  have hne : zeros ++ s.digits ≠ [] := by simp [hcs]
  refine ⟨ofPoint neg isWhole_zero hdigits, rfl, ?_,
    hasDigits_ofPoint neg _ hdigits hne ?_ ?_⟩
  · rw [unsigned_ofPoint _ _ _ hne, Scientific.plain, if_pos hexp]
    rfl
  · rw [Nat.ofDigitChars_append, Nat.ofDigitChars_append, hzeros, Nat.ofDigitChars_replicate_zero]
    rfl
  · rw [Scientific.power, List.length_append, hzeros, List.length_replicate]
    push_cast
    omega

/-- Plain notation with digits on both sides of the point. -/
theorem exists_of_plain_within (hexp : 0 ≤ s.exponent)
    (hlen : s.exponent.toNat + 1 < s.digits.length) :
    ∃ n : NumberForm, n.negative = neg ∧ n.unsigned = s.plain ∧ n.HasDigits s.significand s.power := by
  obtain ⟨c, cs, hcs, hc⟩ := hs.first
  set before := s.exponent.toNat + 1 with hbefore
  have hne : s.digits.drop before ≠ [] := by
    rw [Ne, List.drop_eq_nil_iff]
    omega
  have hwhole : IsWhole (s.digits.take before) := by
    refine Or.inr ⟨⟨c, cs.take s.exponent.toNat, ?_, hc⟩, fun d hd =>
      hs.isDigit d (List.mem_of_mem_take hd)⟩
    rw [hcs, hbefore, List.take_succ_cons]
  have hdigits : ∀ d ∈ s.digits.drop before, d.isDigit = true := fun d hd =>
    hs.isDigit d (List.mem_of_mem_drop hd)
  refine ⟨ofPoint neg hwhole hdigits, rfl, ?_, hasDigits_ofPoint neg hwhole hdigits hne ?_ ?_⟩
  · have hzero : before - s.digits.length = 0 := by omega
    rw [unsigned_ofPoint _ _ _ hne]
    simp [Scientific.plain, Int.not_lt.2 hexp, ← hbefore, hzero, hne]
  · rw [List.take_append_drop]
    rfl
  · rw [Scientific.power, List.length_drop]
    omega

/-- A whole number in plain notation, with the zero after its point. -/
theorem exists_of_plain_whole (hexp : 0 ≤ s.exponent) (hpower : 0 ≤ s.power) :
    ∃ n : NumberForm, n.negative = neg ∧ n.unsigned = s.plain ∧
      n.HasDigits (s.significand * 10 ^ (s.power.toNat + 1)) (-1) := by
  obtain ⟨c, cs, hcs, hc⟩ := hs.first
  have hlen : s.power.toNat = s.exponent.toNat + 1 - s.digits.length := by
    rw [Scientific.power]
    omega
  have hlong : s.digits.length ≤ s.exponent.toNat + 1 := by
    rw [Scientific.power] at hpower
    omega
  set zeros := List.replicate s.power.toNat '0' with hzeros
  have hwhole : IsWhole (s.digits ++ zeros) := by
    refine Or.inr ⟨⟨c, cs ++ zeros, by rw [hcs]; rfl, hc⟩, fun d hd => ?_⟩
    rcases List.mem_append.1 hd with hd | hd
    · exact hs.isDigit d hd
    · rw [List.eq_of_mem_replicate hd]
      rfl
  have hdigit : ∀ d ∈ ['0'], d.isDigit = true := by simp
  have hne : ['0'] ≠ [] := List.cons_ne_nil _ _
  refine ⟨ofPoint neg hwhole hdigit, rfl, ?_, hasDigits_ofPoint neg hwhole hdigit hne ?_ rfl⟩
  · rw [unsigned_ofPoint _ _ _ hne]
    simp [Scientific.plain, Int.not_lt.2 hexp, hzeros, hlen, List.take_of_length_le hlong,
      List.drop_of_length_le hlong]
  · rw [Nat.ofDigitChars_append, Nat.ofDigitChars_append, hzeros, Nat.ofDigitChars_replicate_zero,
      Nat.ofDigitChars_cons, Nat.ofDigitChars_nil, ← Scientific.significand, Nat.sub_self,
      Nat.pow_succ]
    ring

/-- Plain notation: the printed digits, or with a further zero. -/
theorem exists_of_plain :
    ∃ (n : NumberForm) (digits : ℕ) (power : ℤ), n.negative = neg ∧ n.unsigned = s.plain ∧
      n.HasDigits digits power ∧ (digits = s.significand ∧ power = s.power ∨
        0 ≤ s.power ∧ digits = s.significand * 10 ^ (s.power.toNat + 1) ∧ power = -1) := by
  rcases lt_or_ge s.exponent 0 with hneg | hnonneg
  · obtain ⟨n, hn, htext, h⟩ := exists_of_plain_below hs neg hneg
    exact ⟨n, _, _, hn, htext, h, Or.inl ⟨rfl, rfl⟩⟩
  · rcases lt_or_ge (s.exponent.toNat + 1) s.digits.length with hlen | hlen
    · obtain ⟨n, hn, htext, h⟩ := exists_of_plain_within hs neg hnonneg hlen
      exact ⟨n, _, _, hn, htext, h, Or.inl ⟨rfl, rfl⟩⟩
    · have hpower : 0 ≤ s.power := by
        rw [Scientific.power]
        omega
      obtain ⟨n, hn, htext, h⟩ := exists_of_plain_whole hs neg hnonneg hpower
      exact ⟨n, _, _, hn, htext, h, Or.inr ⟨hpower, rfl, rfl⟩⟩

/-- Scientific notation. -/
theorem exists_of_spread (hexp : s.exponent.natAbs ≤ maxExponent) :
    ∃ n : NumberForm, n.negative = neg ∧ n.unsigned = s.spread ∧
      n.HasDigits s.significand s.power := by
  obtain ⟨c, cs, hcs, hc⟩ := hs.first
  have hwhole : IsWhole [c] := by
    refine Or.inr ⟨⟨c, [], rfl, hc⟩, fun d hd => ?_⟩
    obtain rfl := List.mem_singleton.1 hd
    exact hs.isDigit d (by rw [hcs]; exact List.mem_cons_self)
  have hfraction : ∀ d ∈ cs, d.isDigit = true := fun d hd =>
    hs.isDigit d (by rw [hcs]; exact List.mem_cons_of_mem c hd)
  set exponent : ExponentForm :=
    { isCapital := false
      sign := if s.exponent < 0 then .minus else .plus
      digits := decimalDigits s.exponent.natAbs
      ne_nil := Nat.toDigits_ne_nil
      isDigit := fun _ hd => Nat.isDigit_of_mem_toDigits (by decide) (Nat.le_refl 10) hd }
    with hexponent
  have hvalue : exponent.value = s.exponent := by
    have hdigits : Nat.ofDigitChars 10 exponent.digits 0 = s.exponent.natAbs :=
      Nat.ofDigitChars_ten_toDigits
    rw [ExponentForm.value, hdigits]
    rcases lt_or_ge s.exponent 0 with hneg | hnonneg
    · simp [hexponent, hneg, abs_of_neg hneg]
    · simp [hexponent, Int.not_lt.2 hnonneg, abs_of_nonneg hnonneg]
  have hsigned : exponent.signed =
      (if s.exponent < 0 then '-' else '+') :: decimalDigits s.exponent.natAbs := by
    rw [ExponentForm.signed, hexponent]
    split <;> rfl
  have hletters : exponent.letters = 'e' :: exponent.signed := rfl
  refine ⟨⟨neg, [c], hwhole, cs, hfraction, some exponent⟩, rfl, ?_, ?_, ?_, nofun, ?_⟩
  · cases cs <;> simp [unsigned, fractionText, exponentText, hletters, hsigned, Scientific.spread, hcs]
  · rw [digitsValue, Scientific.significand, hcs]
    rfl
  · change exponent.value - _ = _
    rw [hvalue, Scientific.power, hcs, List.length_cons]
    push_cast
    ring
  · change exponent.value.natAbs ≤ _
    rwa [hvalue]

end Notations

theorem exists_of_zero (neg : Bool) :
    ∃ n : NumberForm, n.negative = neg ∧ n.unsigned = ['0', '.', '0'] ∧ n.HasDigits 0 (-1) := by
  have hdigit : ∀ d ∈ ['0'], d.isDigit = true := by simp
  exact ⟨ofPoint neg isWhole_zero hdigit, rfl, rfl,
    hasDigits_ofPoint neg _ hdigit (List.cons_ne_nil _ _) rfl rfl⟩

end NumberForm

/-! ### Printed numbers -/

/-- A whole number in plain notation is short enough to be read without an error. -/
theorem whole_short {s : Scientific} (hs : s.Printed) (hexp : s.exponent ≤ 13)
    (hpower : 0 ≤ s.power) : s.significand * 10 ^ (s.power.toNat + 1) < 10 ^ 15 := by
  have hlen : s.digits.length + (s.power.toNat + 1) ≤ 15 := by
    rw [Scientific.power] at hpower ⊢
    omega
  calc s.significand * 10 ^ (s.power.toNat + 1)
      < 10 ^ s.digits.length * 10 ^ (s.power.toNat + 1) :=
        Nat.mul_lt_mul_of_pos_right hs.significand_lt (Nat.pow_pos (by omega))
    _ = 10 ^ (s.digits.length + (s.power.toNat + 1)) := (Nat.pow_add _ _ _).symm
    _ ≤ 10 ^ 15 := Nat.pow_le_pow_right (by omega) hlen

section Printed

variable (hlib : lib.Lawful) (neg : Bool) (i : Fin binary32.infIndex)

include hlib

/-- The printed digits of a positive number, in a layout that is plain for moderate ones only. -/
theorem exists_printed_of_pos (hi : 0 < i.1) {s : Scientific} (hs : binary32.IsShortest s i) :
    ∃ n : NumberForm, n.negative = neg ∧ n.unsigned = lib.layout.apply s ∧
      ∃ z, n.converted lib = .ok z ∧ z.toBinary32 = .finite neg i := by
  have hreads := hs.narrowsTo_readDouble hi i.isLt
  have hexp := hs.exponent_le hi i.isLt
  have hpower : s.power.natAbs ≤ maxTen := by
    have := hs.power_bounds hi i.isLt
    rw [maxTen]
    omega
  have hdigits : s.significand < significandBound := (hs.significand_le hi).trans_lt (by decide)
  rw [Scientific.readDouble] at hreads
  rw [DecimalLayout.apply]
  split
  · next hlayout =>
      have hmoderate : s.exponent ≤ 13 := hlayout.2.trans hlib.plainTo_le
      obtain ⟨n, digits, power, rfl, htext, h, ⟨rfl, rfl⟩ | ⟨hwhole, rfl, rfl⟩⟩ :=
        NumberForm.exists_of_plain hs.printed neg
      · exact ⟨n, rfl, htext, h.exists_converted hlib.toScales hdigits hpower hreads⟩
      · -- no digit after the point: a zero is written there
        have hshort := whole_short hs.printed hmoderate hwhole
        exact ⟨n, rfl, htext, h.exists_converted hlib.toScales (hshort.trans (by decide))
          (by decide) (hs.narrowsTo_whole hwhole (hshort.le.trans (by decide)))⟩
  · obtain ⟨n, rfl, htext, h⟩ := NumberForm.exists_of_spread hs.printed neg (hexp.trans (by decide))
    exact ⟨n, rfl, htext, h.exists_converted hlib.toScales hdigits hpower hreads⟩

theorem exists_printed_of_zero (hi : i.1 = 0) :
    ∃ n : NumberForm, n.negative = neg ∧ n.unsigned = ['0', '.', '0'] ∧
      ∃ z, n.converted lib = .ok z ∧ z.toBinary32 = .finite neg i := by
  obtain ⟨n, rfl, htext, h⟩ := NumberForm.exists_of_zero neg
  have hnarrow : narrowsTo i (timesTenTo (Binary.ofNat binary64 0) (-1)) = true := by
    rw [hi]
    decide +kernel
  exact ⟨n, rfl, htext, h.exists_converted hlib.toScales (by decide) (by decide) hnarrow⟩

/-- **The text of a finite number is a number that is read as this one**, bit for bit. -/
theorem exists_printed {x : Binary32} (hx : x.isFinite = true) :
    ∃ n : NumberForm, n.letters = lib.numberText x ∧
      ∃ z, n.converted lib = .ok z ∧ z.toBinary32 = x := by
  obtain ⟨neg, i, rfl⟩ := Binary.exists_of_isFinite hx
  rcases Nat.eq_zero_or_pos i.1 with hi | hi
  · obtain ⟨n, rfl, htext, hread⟩ := exists_printed_of_zero hlib neg i hi
    exact ⟨n, by rw [hlib.numberText_zero _ i hi, NumberForm.letters, htext, signedText], hread⟩
  · obtain ⟨s, hs, hprinted⟩ := hlib.numberText_pos neg i hi
    obtain ⟨n, rfl, htext, hread⟩ := exists_printed_of_pos hlib neg i hi hs
    exact ⟨n, by rw [hprinted, NumberForm.letters, htext, signedText], hread⟩

end Printed

end StripeBrush.Json
