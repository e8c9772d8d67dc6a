/-
**Arithmetic of binary floating-point numbers.**

Sum, difference, product, quotient and square root: each is the number of the format that is
nearest to the exact result, with infinities and signed zeros after the usual rules.  Nothing is
fused: a formula is rounded after each of its operations.

Main definitions:

* `Binary.add`, `Binary.sub`, `Binary.mul`, `Binary.div` — behind `+`, `-`, `*`, `/`;
* `floorSqrt` — the integer square root, and `Binary.sqrt` — the square root;
* `Binary.convert` — the nearest number of another format;
* `Binary.ceilUpTo` — the least natural number that is not below a number, cut off at a limit.

Main results:

* `floorSqrt_mul_self_le`, `lt_succ_floorSqrt_mul_self` — the two bounds that characterise
  `floorSqrt`;
* `Binary.add_comm`, `Binary.mul_comm` — sum and product do not depend on the order;
* `Binary.neg_mul_neg` — the square of a number does not depend on its sign.
-/

import StripeBrush.Binary.Round

set_option relaxedAutoImplicit false
set_option autoImplicit false

namespace StripeBrush

attribute [local instance (high)] instPowNat

/-! ### Integer square root -/

/-- The integer square root of `n`, found one digit to base four at a time; `n` has at most `fuel`
of them. -/
def floorSqrtAux : Nat → Nat → Nat
  | 0, _ => 0
  | fuel + 1, n =>
    let r := 2 * floorSqrtAux fuel (n / 4)
    if (r + 1) * (r + 1) ≤ n then r + 1 else r

/-- The largest natural number whose square is at most `n`. -/
def floorSqrt (n : Nat) : Nat := floorSqrtAux (n.log2 / 2 + 1) n

theorem floorSqrtAux_bounds (fuel n : Nat) (h : n < 4 ^ fuel) :
    floorSqrtAux fuel n * floorSqrtAux fuel n ≤ n ∧
      n < (floorSqrtAux fuel n + 1) * (floorSqrtAux fuel n + 1) := by
  induction fuel generalizing n with
  | zero => simp at h; simp [floorSqrtAux, h]
  | succ fuel ih =>
      have hq : n / 4 < 4 ^ fuel := by
        rw [Nat.pow_succ] at h
        omega
      obtain ⟨hlo, hhi⟩ := ih (n / 4) hq
      simp only [floorSqrtAux]
      generalize floorSqrtAux fuel (n / 4) = r at hlo hhi
      have hdouble : 2 * r * (2 * r) = 4 * (r * r) := by grind
      have hnext : (2 * r + 1 + 1) * (2 * r + 1 + 1) = 4 * ((r + 1) * (r + 1)) := by grind
      split
      · omega
      · omega

theorem floorSqrt_bounds (n : Nat) :
    floorSqrt n * floorSqrt n ≤ n ∧ n < (floorSqrt n + 1) * (floorSqrt n + 1) := by
  apply floorSqrtAux_bounds
  have h := Nat.lt_log2_self (n := n)
  have h4 : (4 : Nat) ^ (n.log2 / 2 + 1) = 2 ^ (2 * (n.log2 / 2 + 1)) := by
    rw [Nat.pow_mul]
  rw [h4]
  exact Nat.lt_of_lt_of_le h (Nat.pow_le_pow_right (by omega) (by omega))

theorem floorSqrt_mul_self_le (n : Nat) : floorSqrt n * floorSqrt n ≤ n := (floorSqrt_bounds n).1

theorem lt_succ_floorSqrt_mul_self (n : Nat) : n < (floorSqrt n + 1) * (floorSqrt n + 1) :=
  (floorSqrt_bounds n).2

/-- The root of a square. -/
theorem floorSqrt_mul_self (r : Nat) : floorSqrt (r * r) = r := by
  obtain ⟨hlo, hhi⟩ := floorSqrt_bounds (r * r)
  have h1 : floorSqrt (r * r) ≤ r := Nat.mul_self_le_mul_self_iff.1 hlo
  have h2 : r < floorSqrt (r * r) + 1 := Nat.mul_self_lt_mul_self_iff.1 hhi
  omega

namespace Binary

variable {F G : Format}

/-! ### Sum and difference -/

/-- The sum.  Finite numbers are added exactly and rounded; a sum of zero is negative only when
both summands are. -/
protected def add : Binary F → Binary F → Binary F
  | nan _, _ => nan false
  | _, nan _ => nan false
  | inf s, inf t => if s = t then inf s else nan false
  | inf s, finite _ _ => inf s
  | finite _ _, inf t => inf t
  | finite s i, finite t j =>
    let z := signed F s i + signed F t j
    if z = 0 then zero F (s && t) else ofQuanta F (z < 0) z.natAbs 1

instance : Add (Binary F) := ⟨Binary.add⟩

/-- The difference. -/
protected def sub (a b : Binary F) : Binary F := a + -b

instance : Sub (Binary F) := ⟨Binary.sub⟩

theorem add_comm (a b : Binary F) : a + b = b + a := by
  change Binary.add a b = Binary.add b a
  cases a with
  | nan s => cases b <;> rfl
  | inf s =>
      cases b with
      | nan t => rfl
      | inf t => by_cases h : s = t <;> simp [Binary.add, h, eq_comm]
      | finite t j => rfl
  | finite s i =>
      cases b with
      | nan t => rfl
      | inf t => rfl
      | finite t j => simp only [Binary.add, Int.add_comm, Bool.and_comm]

/-! ### Product and quotient -/

/-- The product.  Zero times infinity is `NaN`. -/
protected def mul : Binary F → Binary F → Binary F
  | nan _, _ => nan false
  | _, nan _ => nan false
  | inf s, inf t => inf (s != t)
  | inf s, finite t j => if j.val = 0 then nan false else inf (s != t)
  | finite s i, inf t => if i.val = 0 then nan false else inf (s != t)
  | finite s i, finite t j =>
    ofQuanta F (s != t) (F.magnitude i * F.magnitude j) (2 ^ F.scale)

instance : Mul (Binary F) := ⟨Binary.mul⟩

/-- The quotient.  A non-zero number divided by zero is infinite; zero by zero is `NaN`. -/
protected def div : Binary F → Binary F → Binary F
  | nan _, _ => nan false
  | _, nan _ => nan false
  | inf _, inf _ => nan false
  | inf s, finite t _ => inf (s != t)
  | finite s _, inf t => zero F (s != t)
  | finite s i, finite t j =>
    if j.val = 0 then if i.val = 0 then nan false else inf (s != t)
    else ofQuanta F (s != t) (F.magnitude i * 2 ^ F.scale) (F.magnitude j)

instance : Div (Binary F) := ⟨Binary.div⟩

theorem mul_comm (a b : Binary F) : a * b = b * a := by
  change Binary.mul a b = Binary.mul b a
  cases a with
  | nan s => cases b <;> rfl
  | inf s => cases b <;> simp [Binary.mul, bne_comm]
  | finite s i => cases b <;> simp [Binary.mul, bne_comm, Nat.mul_comm]

/-- Two changes of sign cancel in a product. -/
theorem neg_mul_neg (a b : Binary F) : -a * -b = a * b := by
  have hflip : ∀ s t : Bool, ((!s) != (!t)) = (s != t) := by decide
  change Binary.mul (Binary.neg a) (Binary.neg b) = Binary.mul a b
  cases a with
  | nan s => cases b <;> rfl
  | inf s => cases b <;> simp only [Binary.neg, Binary.mul, hflip]
  | finite s i => cases b <;> simp only [Binary.neg, Binary.mul, hflip]

/-! ### Square root -/

/-- The square root.  The root of `m` quanta is the root of `m * 2 ^ scale`, counted in quanta
again.  It is bracketed between two neighbouring halves of a quantum; where it is neither of them,
the point midway stands for it, which rounds as it does, because numbers of the format and the
points midway between them are all halves of a quantum. -/
def sqrt : Binary F → Binary F
  | nan _ => nan false
  | inf s => if s then nan false else inf false
  | finite s i =>
    if i.val = 0 then finite s i
    else if s then nan false
    else
      let n := 4 * (F.magnitude i * 2 ^ F.scale)
      let r := floorSqrt n
      if r * r = n then ofQuanta F false r 2 else ofQuanta F false (2 * r + 1) 4

/-! ### Conversions -/

/-- The nearest number of format `G`. -/
def convert (G : Format) : Binary F → Binary G
  | nan s => nan s
  | inf s => inf s
  | finite s i => ofQuanta G s (F.magnitude i * 2 ^ G.scale) (2 ^ F.scale)

theorem convert_neg (a : Binary F) : (-a).convert G = -a.convert G := by
  cases a with
  | nan s => rfl
  | inf s => rfl
  | finite s i =>
      change ofQuanta G (!s) _ _ = -(ofQuanta G s _ _)
      rw [neg_ofQuanta]

/-- The least natural number that is not below the number, or `limit` where that is smaller.
`NaN` counts as zero. -/
def ceilUpTo (limit : Nat) : Binary F → Nat
  | nan _ => 0
  | inf s => if s then 0 else limit
  | finite s i =>
    if s then 0 else min limit ((F.magnitude i + (2 ^ F.scale - 1)) / 2 ^ F.scale)

end Binary

end StripeBrush
