/-
**Rounding a ratio to the nearest number of a format.**

Every operation on numbers is computed exactly first, as a ratio `num / den` of natural numbers
counted in quanta of the format, and rounded once.  The spacing of the format at that ratio is a
power of two, `2 ^ e`, fixed by the binary logarithm of the ratio; the ratio is divided by the
spacing and the quotient rounded to the nearest integer, a half going to the even neighbour.
Rounding up to the end of a binade needs no special care: the index of the next binade's first
number is the index that the carry produces.

Main definitions:

* `roundDivEven` — the integer nearest to a quotient;
* `Format.roundIndex` — **the index of the magnitude nearest to a ratio**, and
  `Format.decimalIndex`, that nearest to a decimal number;
* `Binary.ofQuanta` — the number nearest to a ratio of quanta, with a sign; too large a ratio gives
  infinity;
* `Binary.ofDecimal` — the number nearest to `digits * 10 ^ exponent`.

Main results:

* `roundDivEven_self_mul` — an exact quotient is kept;
* `Format.roundIndex_magnitude` — **a magnitude of the format rounds to its own index**.
-/

import StripeBrush.Binary.Basic

set_option relaxedAutoImplicit false
set_option autoImplicit false

namespace StripeBrush

attribute [local instance (high)] instPowNat

/-! ### Nearest integer to a quotient -/

/-- The integer nearest to `num / den`; a half goes to the even neighbour. -/
def roundDivEven (num den : Nat) : Nat :=
  let q := num / den
  let r := 2 * (num % den)
  if r < den then q else if den < r then q + 1 else q + q % 2

theorem roundDivEven_self_mul (q : Nat) {den : Nat} (h : 0 < den) :
    roundDivEven (q * den) den = q := by
  simp [roundDivEven, Nat.mul_div_cancel _ h, h]

theorem roundDivEven_bounds (num den : Nat) :
    num / den ≤ roundDivEven num den ∧ roundDivEven num den ≤ num / den + 1 := by
  simp only [roundDivEven]
  split
  · omega
  · split <;> omega

/-! ### Nearest magnitude -/

/-- The index of the magnitude nearest to `num / den` quanta, a half going to the even index.
The result is at least `F.infIndex` where the ratio is too large for the format. -/
def Format.roundIndex (F : Format) (num den : Nat) : Nat :=
  let e := (num / den).log2 - F.fracBits
  e * 2 ^ F.fracBits + roundDivEven num (den * 2 ^ e)

/-- The index of the magnitude nearest to `digits * 10 ^ exponent`. -/
def Format.decimalIndex (F : Format) (digits : Nat) (exponent : Int) : Nat :=
  if 0 ≤ exponent then F.roundIndex (digits * 10 ^ exponent.toNat * 2 ^ F.scale) 1
  else F.roundIndex (digits * 2 ^ F.scale) (10 ^ (-exponent).toNat)

/-- **A magnitude of the format rounds to its own index.** -/
theorem Format.roundIndex_magnitude (F : Format) (i : Nat) {den : Nat} (hd : 0 < den) :
    F.roundIndex (F.magnitude i * den) den = i := by
  have hp : 0 < 2 ^ F.fracBits := Nat.two_pow_pos _
  by_cases h : i < 2 ^ (F.fracBits + 1)
  · have he : i.log2 - F.fracBits = 0 := by
      by_cases hi : i = 0
      · simp [hi]
      · have := (Nat.log2_lt hi).2 h
        omega
    simp [roundIndex, F.magnitude_of_lt h, Nat.mul_div_cancel _ hd, he,
      roundDivEven_self_mul i hd]
  · -- a later binade: write the index as `e * 2 ^ f + m` with a full significand `m`
    have hq : 2 ≤ i / 2 ^ F.fracBits := by
      rw [Nat.le_div_iff_mul_le hp, Nat.mul_comm, ← Nat.pow_succ]
      omega
    have hdm := Nat.div_add_mod i (2 ^ F.fracBits)
    have hmod := Nat.mod_lt i hp
    obtain ⟨e, he⟩ : ∃ e, i / 2 ^ F.fracBits = e + 1 := ⟨i / 2 ^ F.fracBits - 1, by omega⟩
    obtain ⟨m, hm⟩ : ∃ m, m = 2 ^ F.fracBits + i % 2 ^ F.fracBits := ⟨_, rfl⟩
    have hi : i = e * 2 ^ F.fracBits + m := by
      rw [he, Nat.mul_add, Nat.mul_one, Nat.mul_comm] at hdm
      omega
    have hlo : 2 ^ F.fracBits ≤ m := by omega
    have hhi : m < 2 ^ (F.fracBits + 1) := by rw [Nat.pow_succ]; omega
    have hm0 : m ≠ 0 := by omega
    have hlog : (m * 2 ^ e).log2 = F.fracBits + e := by
      have hne : m * 2 ^ e ≠ 0 := Nat.mul_ne_zero hm0 (Nat.ne_of_gt (Nat.two_pow_pos e))
      apply (Nat.log2_eq_iff hne).2
      constructor
      · rw [Nat.pow_add]
        exact Nat.mul_le_mul_right _ hlo
      · rw [show F.fracBits + e + 1 = F.fracBits + 1 + e by omega, Nat.pow_add]
        exact Nat.mul_lt_mul_of_pos_right hhi (Nat.two_pow_pos e)
    have hmul : m * 2 ^ e * den = m * (den * 2 ^ e) := by
      rw [Nat.mul_assoc, Nat.mul_comm (2 ^ e)]
    have hround := roundDivEven_self_mul m (Nat.mul_pos hd (Nat.two_pow_pos e))
    have hdiv : m * (den * 2 ^ e) / den = m * 2 ^ e := by
      rw [← hmul, Nat.mul_div_cancel _ hd]
    rw [hi, F.magnitude_normal hlo hhi]
    simp only [roundIndex, hmul, hdiv, hlog, Nat.add_sub_cancel_left, hround]

namespace Binary

variable {F : Format}

/-- The number whose magnitude stands at an index, with sign `neg`; infinity beyond the last one. -/
def ofIndex (F : Format) (neg : Bool) (i : Nat) : Binary F :=
  if h : i < F.infIndex then finite neg ⟨i, h⟩ else inf neg

/-- The number nearest to `num / den` quanta, with sign `neg`; infinity where that is too large. -/
def ofQuanta (F : Format) (neg : Bool) (num den : Nat) : Binary F :=
  ofIndex F neg (F.roundIndex num den)

/-- Zero with a sign. -/
def zero (F : Format) (neg : Bool) : Binary F := ofQuanta F neg 0 1

/-- The largest finite magnitude, as a positive number. -/
def maxFinite (F : Format) : Binary F :=
  if h : F.infIndex - 1 < F.infIndex then finite false ⟨F.infIndex - 1, h⟩ else nan false

theorem ofQuanta_magnitude (neg : Bool) (i : Fin F.infIndex) {den : Nat} (hd : 0 < den) :
    ofQuanta F neg (F.magnitude i * den) den = finite neg i := by
  simp [ofQuanta, ofIndex, F.roundIndex_magnitude i.val hd]

theorem neg_ofQuanta (neg : Bool) (num den : Nat) :
    -(ofQuanta F neg num den) = ofQuanta F (!neg) num den := by
  change Binary.neg _ = _
  unfold ofQuanta ofIndex
  split <;> rfl

/-- The number nearest to `digits * 10 ^ exponent`, with sign `neg`. -/
def ofDecimal (F : Format) (neg : Bool) (digits : Nat) (exponent : Int) : Binary F :=
  ofIndex F neg (F.decimalIndex digits exponent)

/-- The number nearest to a natural number. -/
def ofNat (F : Format) (n : Nat) : Binary F := ofQuanta F false (n * 2 ^ F.scale) 1

/-- The number nearest to an integer. -/
def ofInt (F : Format) (z : Int) : Binary F := ofQuanta F (z < 0) (z.natAbs * 2 ^ F.scale) 1

instance (n : Nat) : OfNat (Binary F) n := ⟨ofNat F n⟩

instance : OfScientific (Binary F) :=
  ⟨fun digits negative places =>
    ofDecimal F false digits (if negative then -(places : Int) else places)⟩

end Binary

end StripeBrush
