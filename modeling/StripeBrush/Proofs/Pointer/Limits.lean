/-
**How long the samples of a split jump are.**

The number of samples is counted from a rounded quotient, and the movement of a sample is rounded
once more.  Where the quotient was rounded down to a whole number, each part of the way is a little
longer than the limit, and it may be rounded up beyond it: the limit is not kept to the last place.
What it is exceeded by is no more than the roundings together: a part in `2 ^ 21`.

Main results:

* `Vec.exactLength_div_le` — a movement divided by a whole number;
* `Sampler.Sound.length_part_le` — one part of a split jump;
* `Sampler.Sound.length_of_far`, `Sampler.Sound.length_of_near` — the samples of a jump beyond the
  limit, and of one that is not;
* `Sampler.length_after_run` — **no sample is longer than the limit by more than a part in
  `2 ^ 21`**, and none that is not split is longer at all;
* `Sampler.sample_beyond_limit` — a jump whose five samples are all longer than the limit.
-/

import StripeBrush.Proofs.Geometry.Length
import StripeBrush.Proofs.Pointer.Counting

set_option relaxedAutoImplicit false
set_option autoImplicit false

namespace StripeBrush

namespace Vec

variable {v w : Vec}

/-- A movement whose coordinates are hardly larger than a part of those of another one. -/
theorem exactLength_le_of_abs_le {c ε : ℝ} (hc : 0 ≤ c) (hε : 0 ≤ ε)
    (hx : |(w.x.toRat : ℝ)| ≤ |(v.x.toRat : ℝ)| * c + ε)
    (hy : |(w.y.toRat : ℝ)| ≤ |(v.y.toRat : ℝ)| * c + ε) :
    w.exactLength ≤ v.exactLength * c + 2 * ε := by
  obtain ⟨hvx, hvy⟩ := abs_le_exactLength v
  have hH := exactLength_nonneg v
  have hsq : v.exactLength ^ 2 = (v.x.toRat : ℝ) ^ 2 + (v.y.toRat : ℝ) ^ 2 :=
    Real.sq_sqrt (by positivity)
  have hwx : (w.x.toRat : ℝ) ^ 2 ≤ (|(v.x.toRat : ℝ)| * c + ε) ^ 2 := by
    rw [← sq_abs (w.x.toRat : ℝ)]
    gcongr
  have hwy : (w.y.toRat : ℝ) ^ 2 ≤ (|(v.y.toRat : ℝ)| * c + ε) ^ 2 := by
    rw [← sq_abs (w.y.toRat : ℝ)]
    gcongr
  rw [exactLength, Real.sqrt_le_left (by positivity)]
  rw [← sq_abs (v.x.toRat : ℝ), ← sq_abs (v.y.toRat : ℝ)] at hsq
  have hcross : c * ε * (|(v.x.toRat : ℝ)| + |(v.y.toRat : ℝ)|) ≤ c * ε * (2 * v.exactLength) := by
    gcongr
    linarith
  calc (w.x.toRat : ℝ) ^ 2 + (w.y.toRat : ℝ) ^ 2
      ≤ (|(v.x.toRat : ℝ)| * c + ε) ^ 2 + (|(v.y.toRat : ℝ)| * c + ε) ^ 2 := add_le_add hwx hwy
    _ = v.exactLength ^ 2 * c ^ 2 + 2 * (c * ε * (|(v.x.toRat : ℝ)| + |(v.y.toRat : ℝ)|)) +
          2 * ε ^ 2 := by
        rw [hsq]
        ring
    _ ≤ (v.exactLength * c + 2 * ε) ^ 2 := by nlinarith [sq_nonneg ε]

/-- A movement divided by a whole number is hardly longer than that part of it. -/
theorem exactLength_div_le (hv : v.isFinite = true) {n : ℕ} (hpos : 0 < n) (hn : n ≤ 2 ^ 24) :
    (v / Binary.ofNat Format.binary32 n).isFinite = true ∧
      (v / Binary.ofNat Format.binary32 n).exactLength ≤
        v.exactLength / n * (1 + 1 / 2 ^ 24) + 2 / 2 ^ 150 := by
  obtain ⟨hx, hy⟩ := Bool.and_eq_true_iff.1 hv
  obtain ⟨hfx, hex⟩ := Binary.div_ofNat_error hx hpos hn
  obtain ⟨hfy, hey⟩ := Binary.div_ofNat_error hy hpos hn
  have hn0 : (0 : ℝ) < n := by exact_mod_cast hpos
  -- the error of one coordinate, as a bound for its size
  have hpart : ∀ {x q : ℚ}, |q - x / n| ≤ |x| / n / 2 ^ 24 + 1 / 2 ^ 150 →
      |(q : ℝ)| ≤ |(x : ℝ)| * ((1 + 1 / 2 ^ 24) / n) + 1 / 2 ^ 150 := by
    intro x q h
    have hcast := (Rat.cast_le (K := ℝ)).2 h
    push_cast at hcast
    have habs : |(x : ℝ) / n| = |(x : ℝ)| / n := by rw [abs_div, abs_of_pos hn0]
    calc |(q : ℝ)| = |((q : ℝ) - x / n) + x / n| := by rw [sub_add_cancel]
      _ ≤ |(q : ℝ) - x / n| + |(x : ℝ) / n| := abs_add_le _ _
      _ ≤ |(x : ℝ)| / n / 2 ^ 24 + 1 / 2 ^ 150 + |(x : ℝ)| / n := by
          rw [habs]
          gcongr
      _ = |(x : ℝ)| * ((1 + 1 / 2 ^ 24) / n) + 1 / 2 ^ 150 := by ring
  refine ⟨Bool.and_eq_true_iff.2 ⟨hfx, hfy⟩, ?_⟩
  have hlength := exactLength_le_of_abs_le (v := v) (w := v / Binary.ofNat Format.binary32 n)
    (by positivity) (by positivity) (hpart hex) (hpart hey)
  refine hlength.trans_eq ?_
  ring

end Vec

namespace Sampler

variable {s : Sampler} {a point : Vec} {m : Binary32}

namespace Sound

/-- A finite distance is not much longer than the limit as often as it was counted. -/
theorem distance_le {distance : Binary32} {n : ℕ} (h : s.Sound) (hm : s.maxDistance = some m)
    (hdistance : distance.isFinite = true) (hlt : m < distance)
    (hn : ⌈(distance / m).toRat⌉₊ ≤ n) :
    1 ≤ distance.toRat ∧ distance.toRat / n ≤ m.toRat * (1 + 5 / 2 ^ 26) := by
  have hone := h.one_le_toRat_limit hm
  have hfar := (Binary.lt_iff_toRat_lt (h.limit_finite m hm) hdistance).1 hlt
  have hround := h.rounds_quotient hm hdistance
  have herror := hround.error_le (h.isFinite_quotient hm hdistance)
  have hcount := (Nat.le_ceil _).trans (Nat.cast_le (α := ℚ).2 hn)
  have hratio : distance.toRat = distance.toRat / m.toRat * m.toRat :=
    (div_mul_cancel₀ _ (by linarith)).symm
  have hmore : 1 < distance.toRat / m.toRat := (one_lt_div (by linarith)).2 hfar
  have habs : |distance.toRat / m.toRat| = distance.toRat / m.toRat := abs_of_pos (by linarith)
  rw [habs, Format.slack32] at herror
  generalize distance.toRat / m.toRat = z at hratio hmore herror
  obtain ⟨hlo, -⟩ := abs_le.1 herror
  have hz : z ≤ n * (1 + 5 / 2 ^ 26) := by linarith
  have hn0 : (0 : ℚ) < n := by linarith
  refine ⟨by linarith, ?_⟩
  rw [div_le_iff₀ hn0, hratio]
  calc z * m.toRat ≤ n * (1 + 5 / 2 ^ 26) * m.toRat := by gcongr
    _ = m.toRat * (1 + 5 / 2 ^ 26) * n := by ring

/-- **One part of a split jump is hardly longer than the limit.** -/
theorem length_part_le {n : ℕ} (h : s.Sound) (ha : s.anchor = some a) (hm : s.maxDistance = some m)
    (hpoint : point.isFinite = true) (hdistance : (point - a).length.isFinite = true)
    (hlt : m < (point - a).length) (hn : ⌈((point - a).length / m).toRat⌉₊ ≤ n) (htwo : 2 ≤ n)
    (hmost : n ≤ 1024) :
    ((point - a) / Binary.ofNat Format.binary32 n).length.isFinite = true ∧
      ((point - a) / Binary.ofNat Format.binary32 n).length.toRat ≤
        m.toRat * (1 + 1 / 2 ^ 21) := by
  obtain ⟨hpx, hpy⟩ := Bool.and_eq_true_iff.1 hpoint
  obtain ⟨hax, hay⟩ := Bool.and_eq_true_iff.1 (h.anchor_finite a ha)
  have hdelta : (point - a).isFinite = true :=
    Vec.isFinite_of_length (Binary.isNaN_sub hpx hax) (Binary.isNaN_sub hpy hay) hdistance
  obtain ⟨hpart, hlength⟩ := Vec.exactLength_div_le hdelta (by omega : 0 < n) (by omega)
  obtain ⟨hD, hcounted⟩ := h.distance_le hm hdistance hlt hn
  have hone := h.one_le_toRat_limit hm
  have hmax := Binary.abs_toRat_le_max32 hdistance
  rw [abs_of_nonneg (by linarith)] at hmax
  have herror := Vec.length_error hdelta hdistance
  generalize (point - a) / Binary.ofNat Format.binary32 n = part at hpart hlength ⊢
  generalize (point - a).length.toRat = D at hD hcounted hmax herror
  generalize (point - a).exactLength = H at hlength herror
  have hn2 : (2 : ℝ) ≤ n := by exact_mod_cast htwo
  have hD : (1 : ℝ) ≤ D := by exact_mod_cast hD
  have hone : (1 : ℝ) ≤ m.toRat := by exact_mod_cast hone
  have hmax : (D : ℝ) ≤ 2 ^ 128 - 2 ^ 104 := by exact_mod_cast hmax
  have hcounted : (D : ℝ) / n ≤ m.toRat * (1 + 5 / 2 ^ 26) := by
    have hcast := (Rat.cast_le (K := ℝ)).2 hcounted
    push_cast at hcast
    exact hcast
  -- the exact distance, and a part of it
  obtain ⟨hlo, -⟩ := abs_le.1 herror
  have hH : H ≤ D * (1 + 6 / 2 ^ 26) := by linarith
  have hHn : H / n ≤ D / n * (1 + 6 / 2 ^ 26) := by
    calc H / n ≤ D * (1 + 6 / 2 ^ 26) / n := by gcongr
      _ = D / n * (1 + 6 / 2 ^ 26) := by ring
  have hhalf : (D : ℝ) / n ≤ D / 2 := by gcongr
  have hfinite : part.length.isFinite = true := Vec.isFinite_length hpart (by linarith)
  refine ⟨hfinite, ?_⟩
  obtain ⟨-, hhi⟩ := abs_le.1 (Vec.length_error hpart hfinite)
  have hreal : (part.length.toRat : ℝ) ≤ m.toRat * (1 + 1 / 2 ^ 21) := by linarith
  have hcast : ((part.length.toRat : ℚ) : ℝ) ≤ ((m.toRat * (1 + 1 / 2 ^ 21) : ℚ) : ℝ) := by
    push_cast
    exact hreal
  exact (Rat.cast_le (K := ℝ)).1 hcast

/-- The samples of a jump beyond the limit whose number is not cut off. -/
theorem length_of_far (h : s.Sound) (ha : s.anchor = some a) (hm : s.maxDistance = some m)
    (hlt : m < (point - a).length) (hquotient : ((point - a).length / m).isFinite = true)
    (hcount : ⌈((point - a).length / m).toRat⌉₊ ≤ 1024) {sample : Sample}
    (hsample : sample ∈ (s.sample point).1) :
    sample.delta.length.isFinite = true ∧
      sample.delta.length.toRat ≤ m.toRat * (1 + 1 / 2 ^ 21) := by
  have haccepted : (s.sample point).1 ≠ [] := List.ne_nil_of_mem hsample
  obtain ⟨-, -, hpoint, -, -⟩ := (h.sample_ne_nil_iff point).1 haccepted
  have hdistance : (point - a).length.isFinite = true := by
    by_contra hnot
    rw [div_of_overflow (h.limit_finite m hm) (h.limit_pos hm) hlt
      (Bool.not_eq_true _ ▸ hnot)] at hquotient
    simp [Binary.isFinite] at hquotient
  have htwo := h.two_le_ceilUpTo hm hlt
  have hcounted : ((point - a).length / m).ceilUpTo maxSplit =
      ⌈((point - a).length / m).toRat⌉₊ := by
    rw [Binary.ceilUpTo_eq hquotient]
    exact Nat.min_eq_right hcount
  rw [sample_of_far ha hm haccepted hlt] at hsample
  rw [hcounted] at hsample htwo
  rw [delta_of_mem_splitJump hsample]
  exact h.length_part_le ha hm hpoint hdistance hlt le_rfl htwo hcount

/-- The sample of a jump that is not beyond the limit is not longer than it. -/
theorem length_of_near (h : s.Sound) (ha : s.anchor = some a) (hm : s.maxDistance = some m)
    (hnear : ¬ m < (point - a).length) {sample : Sample}
    (hsample : sample ∈ (s.sample point).1) :
    sample.delta.length.isFinite = true ∧ sample.delta.length ≤ m := by
  have hlimit := h.limit_finite m hm
  have haccepted : (s.sample point).1 ≠ [] := List.ne_nil_of_mem hsample
  obtain ⟨-, -, hpoint, -, -⟩ := (h.sample_ne_nil_iff point).1 haccepted
  have hzero : 0 ≤ (point - a).length := Vec.nonneg_length_sub hpoint (h.anchor_finite a ha)
  have hle : (point - a).length ≤ m :=
    Binary.le_of_not_lt (Binary.isNaN_of_isFinite hlimit) (Binary.isNaN_of_le hzero).2 hnear
  have hsamples : (s.sample point).1 = [⟨point, point - a⟩] := by
    refine sample_of_near ha haccepted ?_
    intro m' hm'
    obtain rfl := Option.some.inj (hm.symm.trans hm')
    exact hnear
  rw [hsamples] at hsample
  obtain rfl := List.mem_singleton.1 hsample
  exact ⟨Binary.isFinite_of_le_of_le (by decide +kernel) hlimit hzero hle, hle⟩

end Sound

/-! ### New samplers -/

/-- **No sample is longer than the limit by more than a part in `2 ^ 21`**, for any least travel and
any limit that a sampler is made with and after any operations on it, unless the jump is so long that
the number of samples is cut off; and the sample of a jump that is not split is not longer than the
limit at all. -/
theorem length_after_run (least : Binary32) (limit : Option Binary32) (ops : List Op)
    {a point : Vec} {m : Binary32} :
    let s := (((ofMinDistance least).withMaxDistance limit).run ops).2
    let distance := (point - a).length
    s.anchor = some a → s.maxDistance = some m →
      (distance / m).isFinite = true → ⌈(distance / m).toRat⌉₊ ≤ 1024 →
      ∀ sample ∈ (s.sample point).1,
        sample.delta.length.isFinite = true ∧
        sample.delta.length.toRat ≤ m.toRat * (1 + 1 / 2 ^ 21) ∧
        (distance ≤ m → sample.delta.length ≤ m) := by
  intro s distance ha hm hquotient hcount sample hsample
  have hs : s.Sound := (sound_withMaxDistance least limit).run ops
  by_cases hlt : m < distance
  · obtain ⟨hfinite, hlength⟩ := hs.length_of_far ha hm hlt hquotient hcount hsample
    exact ⟨hfinite, hlength, fun hle => absurd hlt (Binary.not_lt_of_le hle)⟩
  · obtain ⟨hfinite, hle⟩ := hs.length_of_near ha hm hlt hsample
    have hone := hs.one_le_toRat_limit hm
    have hvalue := (Binary.le_iff_toRat_le hfinite (hs.limit_finite m hm)).1 hle
    exact ⟨hfinite, by linarith, fun _ => hle⟩

/-- A jump of two parts, each as long as the limit. -/
theorem length_after_run_of_two_parts :
    let s := (((ofMinDistance 1).withMaxDistance (some 5)).run [.begin ⟨0, 0⟩]).2
    let sample : Sample := ⟨⟨5, 0⟩, ⟨5, 0⟩⟩
    s.anchor = some ⟨0, 0⟩ ∧ s.maxDistance = some 5 ∧
      (((⟨10, 0⟩ : Vec) - ⟨0, 0⟩).length / 5).isFinite = true ∧
      ⌈(((⟨10, 0⟩ : Vec) - ⟨0, 0⟩).length / 5).toRat⌉₊ ≤ 1024 ∧
      sample ∈ (s.sample ⟨10, 0⟩).1 ∧
      sample.delta.length.toRat ≤ (5 : Binary32).toRat * (1 + 1 / 2 ^ 21) := by
  intro s sample
  have ha : s.anchor = some ⟨0, 0⟩ := by decide +kernel
  have hm : s.maxDistance = some 5 := by decide +kernel
  have hquotient : ((⟨10, 0⟩ : Vec) - ⟨0, 0⟩).length / 5 = Binary.ofNat Format.binary32 2 := by
    decide +kernel
  obtain ⟨hfinite, hvalue⟩ := Binary.toRat_ofNat (n := 2) (by decide)
  have hcount : ⌈(((⟨10, 0⟩ : Vec) - ⟨0, 0⟩).length / 5).toRat⌉₊ ≤ 1024 := by
    rw [hquotient, hvalue, Nat.ceil_natCast]
    decide
  have hsample : sample ∈ (s.sample ⟨10, 0⟩).1 := by decide +kernel
  obtain ⟨-, hlength, -⟩ := length_after_run 1 (some 5) [.begin ⟨0, 0⟩] ha hm
    (hquotient ▸ hfinite) hcount sample hsample
  exact ⟨ha, hm, hquotient ▸ hfinite, hcount, hsample, hlength⟩

/-- **The limit is not kept to the last place**: a jump along an axis, not beyond the largest number
of samples, whose five samples are all longer than the limit. -/
theorem sample_beyond_limit :
    let limit := Binary.ofBits Format.binary32 0x3fc00001
    let point : Vec := ⟨Binary.ofBits Format.binary32 0x40f00002, 0⟩
    let s := (((ofMinDistance 1).withMaxDistance (some limit)).run [.begin ⟨0, 0⟩]).2
    s.anchor = some ⟨0, 0⟩ ∧ s.maxDistance = some limit ∧
      ((point - ⟨0, 0⟩).length / limit).isFinite = true ∧
      ⌈((point - ⟨0, 0⟩).length / limit).toRat⌉₊ ≤ 1024 ∧
      (s.sample point).1.length = 5 ∧
      ∀ sample ∈ (s.sample point).1, limit < sample.delta.length := by
  intro limit point s
  have hquotient : (point - ⟨0, 0⟩).length / limit = Binary.ofNat Format.binary32 5 := by
    decide +kernel
  obtain ⟨hfinite, hvalue⟩ := Binary.toRat_ofNat (n := 5) (by decide)
  rw [hquotient, hvalue, Nat.ceil_natCast]
  refine ⟨by decide +kernel, by decide +kernel, hfinite, by decide, by decide +kernel, ?_⟩
  decide +kernel

end Sampler

end StripeBrush
