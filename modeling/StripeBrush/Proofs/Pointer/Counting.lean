/-
**Into how many samples a jump is split.**

A jump that is longer than the limit is split into as many samples as the limit fits into its
distance, a part counting as a whole, but into no more than `Sampler.maxSplit`.  There are two at
least: a quotient just above one is not rounded down to it.  A distance that is too large for single
precision gives the largest number.  The number of samples is a number of single precision itself, so
that the movement is divided by just that many.

Main results:

* `Sampler.Sound.isFinite_quotient`, `Sampler.div_of_overflow` — a quotient is finite where the
  distance is, and infinite where it is not;
* `Sampler.Sound.two_le_ceilUpTo` — **a jump beyond the limit is split into two samples at least**;
* `Sampler.sample_of_far`, `Sampler.sample_of_near` — the samples of a jump beyond the limit, and of
  one that is not;
* `Sampler.split_after_run` — **what such a jump is split into**, after any operations on a new
  sampler.
-/

import StripeBrush.Proofs.Binary.Values
import StripeBrush.Proofs.Pointer.Gating

set_option relaxedAutoImplicit false
set_option autoImplicit false

namespace StripeBrush.Sampler

variable {s : Sampler} {a point : Vec} {m distance : Binary32}

/-! ### Counts -/

theorem one_le_toRat (hm : m.isFinite = true) (h : 1 ≤ m) : 1 ≤ m.toRat := by
  obtain ⟨hone, hvalue⟩ := Binary.toRat_ofNat (n := 1) (by decide)
  have hle := (Binary.le_iff_toRat_le hone hm).1 h
  rwa [hvalue, Nat.cast_one] at hle

/-- What is beyond a positive number and not finite is infinity, and so is a quotient of it. -/
theorem div_of_overflow (hm : m.isFinite = true) (hpos : 0 < m) (hlt : m < distance)
    (hdistance : distance.isFinite = false) : distance / m = .inf false := by
  have hF : 0 < Format.binary32.infIndex := by decide
  obtain rfl | ⟨i, -, rfl⟩ := Binary.pos_cases hF (Binary.lt_of_lt_of_le hpos (Binary.le_of_lt hlt))
  · obtain rfl | ⟨j, -, rfl⟩ := Binary.pos_cases hF hpos
    · simp [Binary.isFinite] at hm
    · rfl
  · simp [Binary.isFinite] at hdistance

/-- An infinite distance is counted up to the limit of the count. -/
theorem ceilUpTo_of_overflow (hm : m.isFinite = true) (hpos : 0 < m) (hlt : m < distance)
    (hdistance : distance.isFinite = false) : (distance / m).ceilUpTo maxSplit = maxSplit := by
  rw [div_of_overflow hm hpos hlt hdistance]
  rfl

namespace Sound

theorem limit_pos (h : s.Sound) (hm : s.maxDistance = some m) : 0 < m :=
  Binary.lt_of_lt_of_le (Binary.zero_lt_one (by decide)) (h.one_le_limit m hm)

theorem one_le_toRat_limit (h : s.Sound) (hm : s.maxDistance = some m) : 1 ≤ m.toRat :=
  one_le_toRat (h.limit_finite m hm) (h.one_le_limit m hm)

/-- The quotient of a finite distance by the limit is their exact quotient, rounded. -/
theorem rounds_quotient (h : s.Sound) (hm : s.maxDistance = some m)
    (hdistance : distance.isFinite = true) :
    (distance / m).Rounds (distance.toRat / m.toRat) := by
  have hone := h.one_le_toRat_limit hm
  exact Binary.rounds_div (by decide) hdistance (h.limit_finite m hm) (by linarith)

/-- A finite distance divided by the limit is finite. -/
theorem isFinite_quotient (h : s.Sound) (hm : s.maxDistance = some m)
    (hdistance : distance.isFinite = true) : (distance / m).isFinite = true := by
  have hone := h.one_le_toRat_limit hm
  have hpos : 0 < m.toRat := by linarith
  have hmax := Binary.abs_toRat_le_max32 hdistance
  refine (h.rounds_quotient hm hdistance).isFinite_of_lt ?_
  calc |distance.toRat / m.toRat| = |distance.toRat| / m.toRat := by rw [abs_div, abs_of_pos hpos]
    _ ≤ |distance.toRat| := div_le_self (abs_nonneg _) hone
    _ ≤ 2 ^ 128 - 2 ^ 104 := hmax
    _ < Format.binary32.overflow := by
        rw [Format.overflow32]
        norm_num

/-- **A jump beyond the limit is split into two samples at least.** -/
theorem two_le_ceilUpTo (h : s.Sound) (hm : s.maxDistance = some m) (hlt : m < distance) :
    2 ≤ (distance / m).ceilUpTo maxSplit := by
  have hpos := h.limit_pos hm
  cases hdistance : distance.isFinite with
  | false =>
      rw [ceilUpTo_of_overflow (h.limit_finite m hm) hpos hlt hdistance]
      decide
  | true =>
      obtain ⟨hone, hvalue⟩ := Binary.toRat_ofNat (n := 1) (by decide)
      have hquotient := h.isFinite_quotient hm hdistance
      have hfar : 1 < distance / m := Binary.one_lt_div hone (by decide) hpos hdistance hlt
      have hvalue' : ((1 : ℕ) : ℚ) < (distance / m).toRat :=
        hvalue ▸ (Binary.lt_iff_toRat_lt hone hquotient).1 hfar
      rw [Binary.ceilUpTo_eq hquotient]
      exact le_min (by decide) (Nat.lt_ceil.2 hvalue')

end Sound

/-! ### The samples one by one -/

@[simp] theorem length_splitJump (anchor point : Vec) (count : ℕ) :
    (splitJump anchor point count).length = count := by
  simp [splitJump]

theorem delta_of_mem_splitJump {anchor point : Vec} {count : ℕ} {sample : Sample}
    (h : sample ∈ splitJump anchor point count) :
    sample.delta = (point - anchor) / Binary.ofNat Format.binary32 count := by
  obtain ⟨i, -, rfl⟩ := List.mem_map.1 h
  rfl

/-- The samples before the last one are counted off from the anchor. -/
theorem getElem?_splitJump (anchor point : Vec) {count i : ℕ} (h : i + 1 < count) :
    (splitJump anchor point count)[i]? =
      some ⟨anchor + (point - anchor) / Binary.ofNat Format.binary32 count *
          Binary.ofNat Format.binary32 (i + 1),
        (point - anchor) / Binary.ofNat Format.binary32 count⟩ := by
  have hi : i < count := by omega
  have hne : ¬ i + 1 = count := by omega
  simp [splitJump, hi, hne]

/-- The samples of an accepted jump beyond the limit. -/
theorem sample_of_far (ha : s.anchor = some a) (hm : s.maxDistance = some m)
    (haccepted : (s.sample point).1 ≠ []) (hlt : m < (point - a).length) :
    (s.sample point).1 =
      splitJump a point (((point - a).length / m).ceilUpTo maxSplit) := by
  unfold sample at haccepted ⊢
  simp only [ha] at haccepted ⊢
  split
  case isTrue => simp only [jump, hm, if_pos hlt]
  case isFalse hrejected => simp [hrejected] at haccepted

/-- The one sample of an accepted jump that is not beyond a limit. -/
theorem sample_of_near (ha : s.anchor = some a) (haccepted : (s.sample point).1 ≠ [])
    (hnear : ∀ m, s.maxDistance = some m → ¬ m < (point - a).length) :
    (s.sample point).1 = [⟨point, point - a⟩] := by
  unfold sample at haccepted ⊢
  simp only [ha] at haccepted ⊢
  split
  case isTrue =>
    unfold jump
    cases hm : s.maxDistance with
    | none => rfl
    | some m => simp only [if_neg (hnear m hm)]
  case isFalse hrejected => simp [hrejected] at haccepted

/-! ### New samplers -/

/-- **What a jump beyond the limit is split into**, for any least travel and any limit that a sampler
is made with and after any operations on it.  The limit `m` in force is finite and at least one, and
the distance is a number.  There are as many samples as the distance counts limits, a part counting
as a whole, but at most `1024`, which is also their number where the distance is infinite, and at
least two; and single precision holds that number, so that nothing is divided by zero.  Each sample
moves by the same part of the way; all points but the last are counted off from the anchor, and the
last one is the position that was fed. -/
theorem split_after_run (least : Binary32) (limit : Option Binary32) (ops : List Op)
    {a point : Vec} {m : Binary32} :
    let s := (((ofMinDistance least).withMaxDistance limit).run ops).2
    let distance := (point - a).length
    let samples := (s.sample point).1
    let count := samples.length
    let divisor := Binary.ofNat Format.binary32 count
    let step := (point - a) / divisor
    s.anchor = some a → s.maxDistance = some m → samples ≠ [] → m < distance →
      (m.isFinite = true ∧ 1 ≤ m ∧ distance.isNaN = false) ∧
      (distance.isFinite = true →
        (distance / m).isFinite = true ∧ count = min 1024 ⌈(distance / m).toRat⌉₊) ∧
      (distance.isFinite = false → count = 1024) ∧
      (2 ≤ count ∧ count ≤ 1024 ∧ divisor.isFinite = true ∧ divisor.toRat = count) ∧
      (∀ sample ∈ samples, sample.delta = step) ∧
      (∀ i, 1 ≤ i → i < count → samples[i - 1]?.map Sample.point =
        some (a + step * Binary.ofNat Format.binary32 i)) ∧
      samples.getLast?.map Sample.point = some point := by
  intro s distance samples count divisor step ha hm haccepted hlt
  have hs : s.Sound := (sound_withMaxDistance least limit).run ops
  have hlimit := hs.limit_finite m hm
  have hsamples : samples = splitJump a point ((distance / m).ceilUpTo maxSplit) :=
    sample_of_far ha hm haccepted hlt
  have hcount : count = (distance / m).ceilUpTo maxSplit := by
    simp only [count, hsamples, length_splitJump]
  have htwo : 2 ≤ count := hcount ▸ hs.two_le_ceilUpTo hm hlt
  rw [← hcount] at hsamples
  obtain ⟨b, hb, hpoint, -, -⟩ := (hs.sample_ne_nil_iff point).1 haccepted
  have hnumber : distance.isNaN = false :=
    (Binary.isNaN_of_le (Vec.nonneg_length_sub hpoint (hs.anchor_finite a ha))).2
  have hmost : count ≤ 1024 := hcount ▸ Binary.ceilUpTo_le _ _
  have hdivisor := Binary.toRat_ofNat (hmost.trans (by decide))
  refine ⟨⟨hlimit, hs.one_le_limit m hm, hnumber⟩, ?_, ?_, ⟨htwo, hmost, hdivisor⟩, ?_, ?_, ?_⟩
  · intro hdistance
    have hquotient := hs.isFinite_quotient hm hdistance
    exact ⟨hquotient, hcount.trans (Binary.ceilUpTo_eq hquotient maxSplit)⟩
  · intro hdistance
    exact hcount.trans (ceilUpTo_of_overflow hlimit (hs.limit_pos hm) hlt hdistance)
  · intro sample hsample
    exact delta_of_mem_splitJump (hsamples ▸ hsample)
  · intro i hone hi
    obtain ⟨k, rfl⟩ : ∃ k, i = k + 1 := ⟨i - 1, by omega⟩
    rw [hsamples, Nat.add_sub_cancel, getElem?_splitJump a point hi]
    rfl
  · rw [hsamples, getLast?_splitJump a point (by omega)]
    rfl

/-- Two neighbours: a jump by two under the limit just below it is split. -/
theorem split_after_run_of_neighbours :
    let limit := Binary.ofBits Format.binary32 0x3fffffff
    let s := (((ofMinDistance 1).withMaxDistance (some limit)).run [.begin ⟨0, 0⟩]).2
    s.anchor = some ⟨0, 0⟩ ∧ s.maxDistance = some limit ∧ (s.sample ⟨2, 0⟩).1 ≠ [] ∧
      limit < ((⟨2, 0⟩ : Vec) - ⟨0, 0⟩).length ∧ 2 ≤ (s.sample ⟨2, 0⟩).1.length := by
  intro limit s
  have ha : s.anchor = some ⟨0, 0⟩ := by decide +kernel
  have hm : s.maxDistance = some limit := by decide +kernel
  have haccepted : (s.sample ⟨2, 0⟩).1 ≠ [] := by decide +kernel
  have hlt : limit < ((⟨2, 0⟩ : Vec) - ⟨0, 0⟩).length := by decide +kernel
  obtain ⟨-, -, -, ⟨htwo, -⟩, -⟩ :=
    split_after_run 1 (some limit) [.begin ⟨0, 0⟩] ha hm haccepted hlt
  exact ⟨ha, hm, haccepted, hlt, htwo⟩

end StripeBrush.Sampler
