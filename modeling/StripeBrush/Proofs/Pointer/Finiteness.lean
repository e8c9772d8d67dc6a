/-
**Which samples are finite.**

The positions that a sampler takes are finite, but what is computed from them need not be: two finite
points can be too far apart for single precision, and then the movement between them is infinite.
That is the only way: where the movement is finite, all samples of the jump are, however many it is
split into.  For the points that are counted off lie between the anchor and the position that was
fed, a whole part before it, so that no rounding can carry them out of the format.  A sample that is
not finite is left to what comes after the sampler, and no stripe is drawn for it.

Main results:

* `Binary.isFinite_counted` — a coordinate that is counted off from the anchor is finite;
* `Sampler.Sound.finiteAsWay_of_mem_sample` — the samples of one position;
* `Sampler.finite_after_run` — **which samples are finite**, after any operations on a new sampler;
* `Sampler.sample_of_overflow` — two finite positions between which no movement is finite.
-/

import StripeBrush.Proofs.Pointer.Counting

set_option relaxedAutoImplicit false
set_option autoImplicit false

namespace StripeBrush

namespace Binary

variable {a b : Binary32} {n i : ℕ}

/-! ### Counting off -/

/-- A share of the way that is neither nothing nor all of it. -/
theorem share_bounds (hi : 1 ≤ i) (hin : i < n) (hn : n ≤ 1024) :
    (1 : ℚ) / 1024 ≤ i / n ∧ (i : ℚ) / n ≤ 1 - 1 / 1024 := by
  have hn0 : (0 : ℚ) < n := by exact_mod_cast Nat.lt_of_le_of_lt (Nat.zero_le i) hin
  have hi : (1 : ℚ) ≤ i := by exact_mod_cast hi
  have hin : (i : ℚ) + 1 ≤ n := by exact_mod_cast hin
  have hn : (n : ℚ) ≤ 1024 := by exact_mod_cast hn
  constructor
  · rw [div_le_div_iff₀ (by norm_num) hn0]
    linarith
  · rw [div_le_iff₀ hn0]
    linarith

/-- A point between two others is in the same bounds as they are, and by some share of their distance
farther inside. -/
theorem abs_between_le {x y t δ M : ℚ} (hx : |x| ≤ M) (hy : |y| ≤ M) (ht : δ ≤ t)
    (ht' : t ≤ 1 - δ) : |x + t * (y - x)| ≤ M - δ * |y - x| := by
  obtain ⟨hxlo, hxhi⟩ := abs_le.1 hx
  obtain ⟨hylo, hyhi⟩ := abs_le.1 hy
  rcases le_total 0 (y - x) with hle | hle
  · have hlow : δ * (y - x) ≤ t * (y - x) := mul_le_mul_of_nonneg_right ht hle
    have hhigh : t * (y - x) ≤ (1 - δ) * (y - x) := mul_le_mul_of_nonneg_right ht' hle
    rw [abs_of_nonneg hle, abs_le]
    constructor <;> linarith
  · have hlow : t * (y - x) ≤ δ * (y - x) := mul_le_mul_of_nonpos_right ht hle
    have hhigh : (1 - δ) * (y - x) ≤ t * (y - x) := mul_le_mul_of_nonpos_right ht' hle
    rw [abs_of_nonpos hle, abs_le]
    constructor <;> linarith

/-- Counting off some of `n` parts of a movement `d`: before the product is rounded, it is off by
hardly more than the rounding of one part. -/
theorem share_error {d part : ℚ} (hpart : |part - d / n| ≤ |d| / n / 2 ^ 24 + 1 / 2 ^ 150)
    (hi : 1 ≤ i) (hin : i < n) (hn : n ≤ 1024) :
    |part * i - i / n * d| ≤ |d| / 2 ^ 24 + 1024 / 2 ^ 150 := by
  obtain ⟨-, hhigh⟩ := share_bounds hi hin hn
  have hi0 : (0 : ℚ) ≤ i := Nat.cast_nonneg i
  have hi1024 : (i : ℚ) ≤ 1024 := by exact_mod_cast (by omega : i ≤ 1024)
  have hsplit : part * i - i / n * d = (part - d / n) * i := by ring
  calc |part * i - i / n * d| = |part - d / n| * i := by rw [hsplit, abs_mul, abs_of_nonneg hi0]
    _ ≤ (|d| / n / 2 ^ 24 + 1 / 2 ^ 150) * i := by gcongr
    _ = |d| / 2 ^ 24 * (i / n) + i / 2 ^ 150 := by ring
    _ ≤ |d| / 2 ^ 24 * 1 + 1024 / 2 ^ 150 := by gcongr; linarith
    _ = |d| / 2 ^ 24 + 1024 / 2 ^ 150 := by ring

theorem abs_share_mul_le (hi : 1 ≤ i) (hin : i < n) (hn : n ≤ 1024) (z : ℚ) :
    |(i : ℚ) / n * z| ≤ (1 - 1 / 1024) * |z| := by
  obtain ⟨hlow, hhigh⟩ := share_bounds hi hin hn
  rw [abs_mul, abs_of_nonneg (by linarith)]
  gcongr

/-- Some of `n` parts of a movement, counted off in single precision. -/
theorem parts_error {d : Binary32} (hd : d.isFinite = true) (hi : 1 ≤ i) (hin : i < n)
    (hn : n ≤ 1024) :
    (d / ofNat Format.binary32 n * ofNat Format.binary32 i).isFinite = true ∧
      |(d / ofNat Format.binary32 n * ofNat Format.binary32 i).toRat - i / n * d.toRat| ≤
        |d.toRat| / 2 ^ 23 + 1 / 2 ^ 20 := by
  obtain ⟨hpart, hparterror⟩ := div_ofNat_error hd (by omega : 0 < n) (by omega)
  obtain ⟨hcount, hcountvalue⟩ := toRat_ofNat (n := i) (by omega)
  have hproduct := rounds_mul (by decide) hpart hcount
  have hmax := abs_toRat_le_max32 hd
  have hcounted := share_error hparterror hi hin hn
  have hshare := abs_share_mul_le hi hin hn d.toRat
  rw [hcountvalue] at hproduct
  generalize (d / ofNat Format.binary32 n).toRat * (i : ℚ) = parts at hproduct hcounted
  generalize d.toRat = d at hmax hcounted hshare ⊢
  generalize (i : ℚ) / n * d = share at hcounted hshare ⊢
  have hpos := abs_nonneg d
  have hpartial : |parts| ≤ |d| + 1 := by
    calc |parts| = |(parts - share) + share| := by rw [sub_add_cancel]
      _ ≤ |parts - share| + |share| := abs_add_le _ _
      _ ≤ |d| / 2 ^ 24 + 1024 / 2 ^ 150 + (1 - 1 / 1024) * |d| := add_le_add hcounted hshare
      _ ≤ |d| + 1 := by linarith
  obtain ⟨hfinite, hrounded⟩ := hproduct.of_abs_le hpartial (by
    rw [Format.overflow32]
    linarith)
  refine ⟨hfinite, ?_⟩
  rw [Format.slack32] at hrounded
  obtain ⟨hlow, hhigh⟩ := abs_le.1 hrounded
  obtain ⟨hlow', hhigh'⟩ := abs_le.1 hcounted
  refine abs_le.2 ⟨?_, ?_⟩ <;> linarith

/-- What is counted off from the anchor is finite, and what its roundings add up to is less than the
share of the way that is still to go. -/
theorem counted_error (ha : a.isFinite = true) (hb : b.isFinite = true)
    (hdelta : (b - a).isFinite = true) (hi : 1 ≤ i) (hin : i < n) (hn : n ≤ 1024) :
    ((b - a) / ofNat Format.binary32 n * ofNat Format.binary32 i).isFinite = true ∧
      |((b - a) / ofNat Format.binary32 n * ofNat Format.binary32 i).toRat -
          i / n * (b.toRat - a.toRat)| ≤ 1 / 1024 * |b.toRat - a.toRat| + 1 := by
  obtain ⟨hfinite, hcounted⟩ := parts_error hdelta hi hin hn
  have hdifference := (rounds_sub (by decide) hb ha).error_le hdelta
  rw [Format.slack32] at hdifference
  refine ⟨hfinite, ?_⟩
  have hshare := abs_share_mul_le hi hin hn ((b - a).toRat - (b.toRat - a.toRat))
  rw [mul_sub] at hshare
  generalize (b - a).toRat = d at hcounted hdifference hshare
  generalize b.toRat - a.toRat = way at hdifference hshare ⊢
  have hsize : |d| ≤ |way| + |d - way| := by
    calc |d| = |way + (d - way)| := by rw [add_sub_cancel]
      _ ≤ |way| + |d - way| := abs_add_le _ _
  -- the error of the movement, and what counting it off adds
  have hpos := abs_nonneg way
  have hpos' := abs_nonneg (d - way)
  obtain ⟨hlow, hhigh⟩ := abs_le.1 hcounted
  obtain ⟨hlow', hhigh'⟩ := abs_le.1 hshare
  refine abs_le.2 ⟨?_, ?_⟩ <;> linarith

/-- **A coordinate that is counted off from the anchor is finite**, where the movement is. -/
theorem isFinite_counted (ha : a.isFinite = true) (hb : b.isFinite = true)
    (hdelta : (b - a).isFinite = true) (hi : 1 ≤ i) (hin : i < n) (hn : n ≤ 1024) :
    (a + (b - a) / ofNat Format.binary32 n * ofNat Format.binary32 i).isFinite = true := by
  obtain ⟨hfinite, hclose⟩ := counted_error ha hb hdelta hi hin hn
  obtain ⟨hlow, hhigh⟩ := share_bounds hi hin hn
  have hbetween := abs_between_le (abs_toRat_le_max32 ha) (abs_toRat_le_max32 hb) hlow hhigh
  refine (rounds_add (by decide) ha hfinite).isFinite_of_lt ?_
  generalize ((b - a) / ofNat Format.binary32 n * ofNat Format.binary32 i).toRat = moved at hclose ⊢
  generalize b.toRat - a.toRat = way at hclose hbetween
  generalize (i : ℚ) / n = share at hclose hbetween
  rw [Format.overflow32]
  calc |a.toRat + moved| = |(a.toRat + share * way) + (moved - share * way)| := by
        congr 1
        ring
    _ ≤ |a.toRat + share * way| + |moved - share * way| := abs_add_le _ _
    _ ≤ (2 ^ 128 - 2 ^ 104 - 1 / 1024 * |way|) + (1 / 1024 * |way| + 1) := add_le_add hbetween hclose
    _ < 2 ^ 128 - 2 ^ 103 := by linarith

end Binary

/-! ### Points and movements -/

namespace Vec

variable {v w : Vec} {k : Binary32} {n i : ℕ}

/-- A point that is counted off from a finite one is finite exactly where the movement is. -/
theorem isFinite_counted (hv : v.isFinite = true) (hw : w.isFinite = true) (hi : 1 ≤ i)
    (hin : i < n) (hn : n ≤ 1024) :
    (v + (w - v) / Binary.ofNat Format.binary32 n * Binary.ofNat Format.binary32 i).isFinite = true ↔
      (w - v).isFinite = true := by
  obtain ⟨hvx, hvy⟩ := Bool.and_eq_true_iff.1 hv
  obtain ⟨hwx, hwy⟩ := Bool.and_eq_true_iff.1 hw
  constructor
  · intro h
    obtain ⟨hx, hy⟩ := Bool.and_eq_true_iff.1 h
    have hdifference : ∀ {a d k l : Binary32}, (a + d / k * l).isFinite = true → d.isFinite = true :=
      fun h => Binary.isFinite_of_div (Binary.isFinite_of_mul (Binary.isFinite_of_add h).2).1
    exact Bool.and_eq_true_iff.2 ⟨hdifference hx, hdifference hy⟩
  · intro h
    obtain ⟨hx, hy⟩ := Bool.and_eq_true_iff.1 h
    exact Bool.and_eq_true_iff.2 ⟨Binary.isFinite_counted hvx hwx hx hi hin hn,
      Binary.isFinite_counted hvy hwy hy hi hin hn⟩

/-- A movement divided by a whole number is finite exactly where the movement is. -/
theorem isFinite_div_ofNat (hpos : 0 < n) (hn : n ≤ 2 ^ 24) :
    (v / Binary.ofNat Format.binary32 n).isFinite = true ↔ v.isFinite = true := by
  constructor
  · intro h
    obtain ⟨hx, hy⟩ := Bool.and_eq_true_iff.1 h
    exact Bool.and_eq_true_iff.2 ⟨Binary.isFinite_of_div hx, Binary.isFinite_of_div hy⟩
  · intro h
    obtain ⟨hx, hy⟩ := Bool.and_eq_true_iff.1 h
    exact Bool.and_eq_true_iff.2 ⟨(Binary.div_ofNat_error hx hpos hn).1,
      (Binary.div_ofNat_error hy hpos hn).1⟩

end Vec

theorem Settings.stripe_eq_none_of_not_finite (s : Settings) {sample : Sample}
    (h : ¬ (sample.point.isFinite = true ∧ sample.delta.isFinite = true)) :
    s.stripe sample = none := by
  unfold stripe
  split
  · rename_i hpoint
    have hdelta : sample.delta.isFinite = false := by simpa [hpoint] using h
    simp [step, hdelta]
  · rfl

namespace Sampler

variable {s : Sampler} {a point : Vec} {sample : Sample}

/-- What is finite of a sample that a jump from `anchor` to `point` completes: its movement exactly
where the way between the two is, and its point where the way is or where it is `point` itself. -/
structure FiniteAsWay (anchor point : Vec) (sample : Sample) : Prop where
  delta_iff : sample.delta.isFinite = true ↔ (point - anchor).isFinite = true
  point_iff : sample.point.isFinite = true ↔
    (point - anchor).isFinite = true ∨ sample.point = point

theorem finiteAsWay_splitJump {anchor : Vec} {count : ℕ} (ha : anchor.isFinite = true)
    (hpoint : point.isFinite = true) (htwo : 2 ≤ count) (hmost : count ≤ 1024)
    (h : sample ∈ splitJump anchor point count) : FiniteAsWay anchor point sample := by
  have hdelta := Vec.isFinite_div_ofNat (v := point - anchor) (by omega : 0 < count)
    (hmost.trans (by decide))
  obtain ⟨i, hi, rfl⟩ := List.mem_map.1 h
  have hi := List.mem_range.1 hi
  refine ⟨hdelta, ?_⟩
  by_cases hlast : i + 1 = count
  · simp [hlast, hpoint]
  · have hcounted := Vec.isFinite_counted ha hpoint (by omega : 1 ≤ i + 1)
      (by omega : i + 1 < count) hmost
    simp only [if_neg hlast]
    rw [hcounted]
    refine ⟨Or.inl, ?_⟩
    rintro (hway | heq)
    · exact hway
    · rwa [← hcounted, heq]

/-- The one sample of a jump that is not split. -/
theorem finiteAsWay_single (anchor : Vec) (hpoint : point.isFinite = true) :
    FiniteAsWay anchor point ⟨point, point - anchor⟩ :=
  ⟨Iff.rfl, by simp [hpoint]⟩

/-- **The samples of one position** are finite as the way to it is. -/
theorem Sound.finiteAsWay_of_mem_sample (h : s.Sound) (hsample : sample ∈ (s.sample point).1) :
    ∃ a, s.anchor = some a ∧ a.isFinite = true ∧ point.isFinite = true ∧
      FiniteAsWay a point sample := by
  have haccepted : (s.sample point).1 ≠ [] := List.ne_nil_of_mem hsample
  obtain ⟨a, ha, hpoint, -, -⟩ := (h.sample_ne_nil_iff point).1 haccepted
  have hanchor := h.anchor_finite a ha
  refine ⟨a, ha, hanchor, hpoint, ?_⟩
  by_cases hfar : ∃ m, s.maxDistance = some m ∧ m < (point - a).length
  · obtain ⟨m, hm, hlt⟩ := hfar
    rw [sample_of_far ha hm haccepted hlt] at hsample
    exact finiteAsWay_splitJump hanchor hpoint (h.two_le_ceilUpTo hm hlt)
      (Binary.ceilUpTo_le _ _) hsample
  · rw [sample_of_near ha haccepted fun m hm hlt => hfar ⟨m, hm, hlt⟩] at hsample
    obtain rfl := List.mem_singleton.1 hsample
    exact finiteAsWay_single a hpoint

/-! ### New samplers -/

/-- **Which samples are finite**, for any least travel and any limit that a sampler is made with and
after any operations on it, with any positions.  A sample is only ever completed by a position in a
drag, and then that position and the anchor are finite.  The movement of the sample is finite exactly
where the difference of the two is; and its point is exactly where that difference is or where the
point is the position itself.  A sample that is not finite is of no consequence: no settings draw a
stripe for it. -/
theorem finite_after_run (least : Binary32) (limit : Option Binary32) (ops : List Op) (op : Op) :
    let s := (((ofMinDistance least).withMaxDistance limit).run ops).2
    ∀ sample ∈ (s.apply op).1, ∃ a point : Vec,
      op = .sample point ∧ s.anchor = some a ∧ a.isFinite = true ∧ point.isFinite = true ∧
      (sample.delta.isFinite = true ↔ (point - a).isFinite = true) ∧
      (sample.point.isFinite = true ↔ (point - a).isFinite = true ∨ sample.point = point) ∧
      (¬ (sample.point.isFinite = true ∧ sample.delta.isFinite = true) →
        ∀ settings : Settings, settings.stripe sample = none) := by
  intro s sample hsample
  have hs : s.Sound := (sound_withMaxDistance least limit).run ops
  cases op with
  | sample point =>
      obtain ⟨a, ha, hanchor, hpoint, hfinite⟩ := hs.finiteAsWay_of_mem_sample hsample
      exact ⟨a, point, rfl, ha, hanchor, hpoint, hfinite.delta_iff, hfinite.point_iff,
        fun hnot settings => settings.stripe_eq_none_of_not_finite hnot⟩
  | begin point => simp [apply] at hsample
  | finish => simp [apply] at hsample
  | setMinDistance m => simp [apply] at hsample

/-- A jump over three quarters of the format that is split in two: its first sample is finite. -/
theorem finite_after_run_of_wide_jump :
    let x := Binary.ofBits Format.binary32 0x7ec00000
    let s := (((ofMinDistance 1).withMaxDistance
      (some (Binary.ofBits Format.binary32 0x7f000000))).run [.begin ⟨-x, 0⟩]).2
    let sample : Sample := ⟨⟨0, 0⟩, ⟨x, 0⟩⟩
    sample ∈ (s.apply (.sample ⟨x, 0⟩)).1 ∧ s.anchor = some ⟨-x, 0⟩ ∧
      ((⟨x, 0⟩ : Vec) - ⟨-x, 0⟩).isFinite = true ∧ sample.delta.isFinite = true ∧
      sample.point.isFinite = true := by
  intro x s sample
  have hsample : sample ∈ (s.apply (.sample ⟨x, 0⟩)).1 := by decide +kernel
  have hway : ((⟨x, 0⟩ : Vec) - ⟨-x, 0⟩).isFinite = true := by decide +kernel
  obtain ⟨a, point, hop, ha, -, -, hdelta, hpoint, -⟩ := finite_after_run 1
    (some (Binary.ofBits Format.binary32 0x7f000000)) [.begin ⟨-x, 0⟩] (.sample ⟨x, 0⟩)
    sample hsample
  have hanchor : s.anchor = some ⟨-x, 0⟩ := by decide +kernel
  obtain rfl := Op.sample.inj hop
  obtain rfl := Option.some.inj (hanchor.symm.trans ha)
  exact ⟨hsample, hanchor, hway, hdelta.2 hway, hpoint.2 (.inl hway)⟩

/-- **Samples are not always finite**: from one end of the format to the other there is no finite
movement.  Where the jump is split, only the last sample has a finite point. -/
theorem sample_of_overflow :
    let most := Binary.ofBits Format.binary32 0x7f7fffff
    let plain := ((ofMinDistance 1).run [.begin ⟨-most, 0⟩]).2
    let split := (((ofMinDistance 1).withMaxDistance (some 10)).run [.begin ⟨-most, 0⟩]).2
    (plain.sample ⟨most, 0⟩).1 = [⟨⟨most, 0⟩, ⟨.inf false, 0⟩⟩] ∧
      (split.sample ⟨most, 0⟩).1.length = 1024 ∧
      (split.sample ⟨most, 0⟩).1.head? = some ⟨⟨.inf false, 0⟩, ⟨.inf false, 0⟩⟩ ∧
      (⟨.inf false, 0⟩ : Vec).isFinite = false := by
  decide +kernel

end Sampler

end StripeBrush
