/-
**Binary floating-point numbers.**

A *format* fixes how many bits of the significand are stored, how many exponents are finite, and
how small the smallest number is.  The numbers of a format are `NaN`, two infinities and the finite
numbers; a finite number is a sign and an *index*, the position of its magnitude in the list of all
magnitudes `0, q, 2q, …` of the format, where the quantum `q` is its least positive number.  The
index is also the bit pattern of the number without its sign, so that magnitudes are ordered as
their indices are, and the next larger magnitude is the next index.

A `NaN` has a sign and nothing else.  The sign only shows in the order that tells everything apart;
an operation that has no result gives the positive `NaN`.

Main definitions:

* `Format`, with `Format.binary32` and `Format.binary64`;
* `Format.magnitude` — the magnitude at an index, counted in quanta;
* `Binary` — the numbers of a format, and `Binary32`, `Binary64`;
* `Binary.key?` — the place of a number in the order of the format; `<`, `≤` and `Binary.numEq`
  compare places, and hold of no `NaN`.  Equality `=` of `Binary` tells the two zeros apart, and
  `Binary.numEq` does not;
* `Binary.totalKey` — the place in an order that tells everything apart;
* `Binary.toBits`, `Binary.ofBits` — the bit pattern.

Main results:

* `Format.magnitude_of_lt` — below the second binade an index is its own magnitude;
* `Format.magnitude_normal` — beyond it, index `e * 2 ^ f + m` stands for `m * 2 ^ e`;
* `Binary.ofBits_toBits` — **the bit pattern determines the number**.
-/

set_option relaxedAutoImplicit false
set_option autoImplicit false

namespace StripeBrush

-- A power of naturals is the core library's, also beside an algebra library with its own.
attribute [local instance (high)] instPowNat

/-! ### Formats -/

/-- A binary format: `fracBits` bits of the significand are stored, there are `binades` exponent
fields that stand for finite numbers, and the least positive number is `2 ^ -scale`. -/
structure Format where
  fracBits : Nat
  binades : Nat
  scale : Nat
deriving DecidableEq

namespace Format

/-- Single precision. -/
def binary32 : Format := ⟨23, 255, 149⟩

/-- Double precision. -/
def binary64 : Format := ⟨52, 2047, 1074⟩

/-- The number of finite magnitudes, and the index at which infinity stands. -/
def infIndex (F : Format) : Nat := F.binades * 2 ^ F.fracBits

/-- The magnitude at index `i`, in quanta.  The first two binades have spacing one; every later
binade doubles it. -/
def magnitude (F : Format) (i : Nat) : Nat :=
  let e := i / 2 ^ F.fracBits - 1
  (i - e * 2 ^ F.fracBits) * 2 ^ e

theorem magnitude_of_lt (F : Format) {i : Nat} (h : i < 2 ^ (F.fracBits + 1)) :
    F.magnitude i = i := by
  have hlt : i / 2 ^ F.fracBits < 2 := by
    rw [Nat.div_lt_iff_lt_mul (Nat.two_pow_pos _)]
    rw [Nat.pow_succ] at h
    omega
  have he : i / 2 ^ F.fracBits - 1 = 0 := by omega
  simp [magnitude, he]

/-- Index `e * 2 ^ f + m`, for a significand `m` of exactly `f + 1` bits, stands for
`m * 2 ^ e`. -/
theorem magnitude_normal (F : Format) {e m : Nat} (hlo : 2 ^ F.fracBits ≤ m)
    (hhi : m < 2 ^ (F.fracBits + 1)) :
    F.magnitude (e * 2 ^ F.fracBits + m) = m * 2 ^ e := by
  have hpos : 0 < 2 ^ F.fracBits := Nat.two_pow_pos _
  have hdiv : (e * 2 ^ F.fracBits + m) / 2 ^ F.fracBits = e + 1 := by
    rw [Nat.mul_comm, Nat.mul_add_div hpos]
    have hq : m / 2 ^ F.fracBits = 1 := by
      rw [Nat.div_eq_iff hpos]
      rw [Nat.pow_succ] at hhi
      omega
    rw [hq]
  simp [magnitude, hdiv]

end Format

/-! ### Numbers -/

/-- A number of format `F`. -/
inductive Binary (F : Format) where
  /-- Not a number. -/
  | nan (neg : Bool)
  /-- Infinity; `neg` says that it is negative. -/
  | inf (neg : Bool)
  /-- The finite number whose magnitude stands at `index`. -/
  | finite (neg : Bool) (index : Fin F.infIndex)
deriving DecidableEq

/-- Single precision numbers. -/
abbrev Binary32 := Binary Format.binary32

/-- Double precision numbers. -/
abbrev Binary64 := Binary Format.binary64

namespace Binary

variable {F : Format}

/-- The magnitude of a finite number with its sign, in quanta. -/
def signed (F : Format) (neg : Bool) (i : Nat) : Int :=
  if neg then -(F.magnitude i : Int) else F.magnitude i

/-- Neither infinite nor `NaN`. -/
def isFinite : Binary F → Bool
  | finite _ _ => true
  | _ => false

/-- Whether the number is `NaN`. -/
def isNaN : Binary F → Bool
  | nan _ => true
  | _ => false

/-- Whether the number is an infinity of either sign. -/
def isInf : Binary F → Bool
  | inf _ => true
  | _ => false

/-- The number with the other sign. -/
protected def neg : Binary F → Binary F
  | nan s => nan !s
  | inf s => inf !s
  | finite s i => finite (!s) i

instance : Neg (Binary F) := ⟨Binary.neg⟩

/-- The number without its sign. -/
def abs : Binary F → Binary F
  | nan _ => nan false
  | inf _ => inf false
  | finite _ i => finite false i

/-! ### Order -/

/-- The place of a number in the order of its format: its index with its sign, infinity standing
after the last finite index.  Both zeros have place `0`, and `NaN` has none. -/
def key? : Binary F → Option Int
  | nan _ => none
  | inf s => some (if s then -(F.infIndex : Int) else F.infIndex)
  | finite s i => some (if s then -(i.val : Int) else i.val)

/-- Less than, decided; `NaN` is not less than anything, nor anything less than it. -/
def blt (a b : Binary F) : Bool :=
  match a.key?, b.key? with
  | some x, some y => x < y
  | _, _ => false

/-- At most, decided; `NaN` takes no part. -/
def ble (a b : Binary F) : Bool :=
  match a.key?, b.key? with
  | some x, some y => x ≤ y
  | _, _ => false

/-- Numerical equality: the two zeros are equal, and `NaN` is equal to nothing. -/
def numEq (a b : Binary F) : Bool :=
  match a.key?, b.key? with
  | some x, some y => x = y
  | _, _ => false

instance : LT (Binary F) := ⟨fun a b => a.blt b = true⟩
instance : LE (Binary F) := ⟨fun a b => a.ble b = true⟩

instance (a b : Binary F) : Decidable (a < b) := inferInstanceAs (Decidable (a.blt b = true))
instance (a b : Binary F) : Decidable (a ≤ b) := inferInstanceAs (Decidable (a.ble b = true))

/-- The place of a number in the order that tells everything apart: negative zero stands before
zero, and a `NaN` beyond the infinity of its sign. -/
def totalKey : Binary F → Int
  | nan s => if s then -(F.infIndex : Int) - 2 else F.infIndex + 1
  | inf s => if s then -(F.infIndex : Int) - 1 else F.infIndex
  | finite s i => if s then -(i.val : Int) - 1 else i.val

/-- The larger of two numbers; where one of them is `NaN`, the other. -/
protected def max (a b : Binary F) : Binary F :=
  if a.isNaN then b else if b.isNaN then a else if a < b then b else a

instance : Max (Binary F) := ⟨Binary.max⟩

/-- `x` moved into the range from `lo` to `hi`, or `none` where these two bound no range: `lo` is
above `hi`, or one of them is `NaN`.  A number already in the range is kept as it is. -/
def clamp? (lo hi x : Binary F) : Option (Binary F) :=
  if lo ≤ hi then some (if x < lo then lo else if hi < x then hi else x) else none

/-! ### Bit patterns -/

/-- The weight of the sign bit. -/
def signWeight (F : Format) : Nat := (F.binades + 1) * 2 ^ F.fracBits

/-- The bit pattern as a number.  `NaN` is written with the highest bit of its fraction set. -/
def toBits : Binary F → Nat
  | nan s => (if s then signWeight F else 0) + (F.infIndex + 2 ^ (F.fracBits - 1))
  | inf s => (if s then signWeight F else 0) + F.infIndex
  | finite s i => (if s then signWeight F else 0) + i.val

/-- The number of a bit pattern. -/
def ofBits (F : Format) (n : Nat) : Binary F :=
  let s : Bool := n / signWeight F % 2 = 1
  let i := n % signWeight F
  if h : i < F.infIndex then finite s ⟨i, h⟩ else if i = F.infIndex then inf s else nan s

theorem infIndex_lt_signWeight (F : Format) : F.infIndex < signWeight F := by
  have := Nat.two_pow_pos F.fracBits
  unfold Format.infIndex signWeight
  rw [Nat.add_mul]
  omega

theorem ofBits_sign_add (F : Format) (s : Bool) {i : Nat} (h : i < signWeight F) :
    ofBits F ((if s then signWeight F else 0) + i) =
      if h : i < F.infIndex then finite s ⟨i, h⟩ else if i = F.infIndex then inf s else nan s := by
  have hpos : 0 < signWeight F := by omega
  cases s <;> simp [ofBits, Nat.mod_eq_of_lt h, Nat.div_eq_of_lt h, Nat.add_div_left _ hpos]

/-- **The bit pattern determines the number**, in every format that stores some significand
bits. -/
theorem ofBits_toBits (hF : 0 < F.fracBits) (x : Binary F) : ofBits F x.toBits = x := by
  have hw := infIndex_lt_signWeight F
  cases x with
  | nan s =>
      have h1 : 0 < 2 ^ (F.fracBits - 1) := Nat.two_pow_pos _
      have h2 : 2 ^ (F.fracBits - 1) < 2 ^ F.fracBits := Nat.pow_lt_pow_right (by omega) (by omega)
      have h3 : F.infIndex + 2 ^ (F.fracBits - 1) < signWeight F := by
        unfold Format.infIndex signWeight
        rw [Nat.add_mul]
        omega
      have h := ofBits_sign_add F s h3
      have hlt : ¬ F.infIndex + 2 ^ (F.fracBits - 1) < F.infIndex := by omega
      have hne : ¬ F.infIndex + 2 ^ (F.fracBits - 1) = F.infIndex := by omega
      simpa [toBits, hlt, hne] using h
  | inf s => simpa [toBits] using ofBits_sign_add F s hw
  | finite s i =>
      have := i.isLt
      simpa [toBits] using ofBits_sign_add F s (show i.val < signWeight F by omega)

end Binary

end StripeBrush
