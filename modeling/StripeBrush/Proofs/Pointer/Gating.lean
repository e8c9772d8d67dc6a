/-
**Which positions complete samples.**

A sampler in use has a finite anchor, and its limit for jumps is finite and at least one.  So the
distance of a finite position from the anchor is a number, if only an infinite one, and a jump that
is split gives at least one sample.  A position therefore completes samples exactly when a drag is
on and the position is finite, is not at the anchor, and is not nearer to it than the least travel
that was asked for last; and the anchor can be told from the answers alone: it is the place where
the drag started, or the last position since then that completed samples.

A position that completes none leaves the sampler as it is, so that it might as well not have been
fed to it.

Main definitions:

* `Sampler.Sound` — what holds of every sampler in use;
* `Sampler.travel` — the least travel, where a negative one and `NaN` count as zero;
* `Sampler.journal` — the operations of a run with the samples that each of them completes;
* `Sampler.placeAfter`, `Sampler.leastAfter` — the anchor and the least travel as a journal has
  them;
* `Sampler.isIdle` — an entry of a position that completed no sample.

Main results:

* `Sampler.Sound.getLast?_jump` — the samples of a jump end at the position that was fed;
* `Sampler.Sound.sample_ne_nil_iff` — **which positions complete samples**;
* `Sampler.Sound.anchor_run` — the anchor after a run is the one that its journal tells;
* `Sampler.Sound.run_kept` — **idle positions might as well not have been fed**;
* `Sampler.sample_after_run` — what this says of a new sampler.
-/

import StripeBrush.Proofs.Binary.Nonneg
import StripeBrush.Proofs.Binary.Quotients
import StripeBrush.Sampler

set_option relaxedAutoImplicit false
set_option autoImplicit false

namespace StripeBrush.Sampler

variable {s : Sampler} {a : Vec} {m : Binary32}

/-! ### Samplers in use -/

/-- What holds of every sampler in use: the anchor is finite, and the limit for the length of a jump
is finite and at least one. -/
structure Sound (s : Sampler) : Prop where
  anchor_finite : ∀ a, s.anchor = some a → a.isFinite = true
  limit_finite : ∀ m, s.maxDistance = some m → m.isFinite = true
  one_le_limit : ∀ m, s.maxDistance = some m → 1 ≤ m

/-- A number is raised to one at least. -/
theorem one_le_max_one (h : m.isFinite = true) : (max m 1).isFinite = true ∧ 1 ≤ max m 1 := by
  have hone : (1 : Binary32).isFinite = true := by decide +kernel
  have hone' : (1 : Binary32).isNaN = false := Binary.isNaN_of_isFinite hone
  have hm : m.isNaN = false := Binary.isNaN_of_isFinite h
  change (Binary.max m 1).isFinite = true ∧ 1 ≤ Binary.max m 1
  simp only [Binary.max, hm, hone', Bool.false_eq_true, if_false]
  split
  · exact ⟨hone, Binary.le_refl hone'⟩
  · rename_i hlt
    exact ⟨h, Binary.le_of_not_lt hm hone' hlt⟩

theorem sound_withMaxDistance (m : Binary32) (limit : Option Binary32) :
    ((ofMinDistance m).withMaxDistance limit).Sound := by
  have hlimit : ∀ x, ((ofMinDistance m).withMaxDistance limit).maxDistance = some x →
      x.isFinite = true ∧ 1 ≤ x := by
    intro x hx
    simp only [withMaxDistance, Option.map_eq_some_iff, Option.filter_eq_some_iff,
      Bool.and_eq_true] at hx
    obtain ⟨y, ⟨-, hfinite, -⟩, rfl⟩ := hx
    exact one_le_max_one hfinite
  exact ⟨by simp [withMaxDistance, ofMinDistance], fun x hx => (hlimit x hx).1,
    fun x hx => (hlimit x hx).2⟩

namespace Sound

/-- A sampler stays sound where its limit is kept and its anchor is moved to a finite point. -/
theorem moved {t : Sampler} (h : s.Sound) (hlimit : t.maxDistance = s.maxDistance)
    (hanchor : ∀ a, t.anchor = some a → s.anchor = some a ∨ a.isFinite = true) : t.Sound where
  anchor_finite a ha := (hanchor a ha).elim (h.anchor_finite a) id
  limit_finite m hm := h.limit_finite m (hlimit ▸ hm)
  one_le_limit m hm := h.one_le_limit m (hlimit ▸ hm)

theorem apply (h : s.Sound) (op : Op) : (s.apply op).2.Sound := by
  cases op with
  | begin point =>
      refine h.moved rfl ?_
      intro a ha
      simp only [Sampler.apply, begin, Option.ite_none_right_eq_some, Option.some.injEq] at ha
      obtain ⟨hfinite, rfl⟩ := ha
      exact .inr hfinite
  | sample point =>
      simp only [Sampler.apply, sample_anchor]
      split
      · rename_i haccepted
        obtain ⟨b, -, hb⟩ := (Option.any_eq_true ..).1 haccepted
        simp only [accepts, Bool.and_eq_true] at hb
        refine h.moved rfl ?_
        intro a ha
        obtain rfl := Option.some.inj ha
        exact .inr hb.1.1
      · exact h
  | finish => exact h.moved rfl (fun a ha => by simp [Sampler.apply, finish] at ha)
  | setMinDistance m => exact h.moved rfl (fun a ha => .inl ha)

/-- **A sampler stays sound in use.** -/
theorem run (h : s.Sound) (ops : List Op) : (s.run ops).2.Sound := by
  induction ops generalizing s with
  | nil => exact h
  | cons op ops ih => exact ih (h.apply op)

end Sound

/-! ### Jumps -/

theorem getLast?_splitJump (anchor point : Vec) {count : Nat} (h : 0 < count) :
    (splitJump anchor point count).getLast? =
      some ⟨point, (point - anchor) / Binary.ofNat Format.binary32 count⟩ := by
  have hlast : count - 1 < count := by omega
  have hcount : count - 1 + 1 = count := by omega
  simp [splitJump, List.getLast?_eq_getElem?, hlast, hcount]

namespace Sound

/-- A jump beyond the limit is split into one sample at least. -/
theorem ceilUpTo_pos {distance : Binary32} (h : s.Sound) (hm : s.maxDistance = some m)
    (hlt : m < distance) : 0 < (distance / m).ceilUpTo maxSplit := by
  have hF : 0 < Format.binary32.infIndex := by decide
  have hpos : 0 < m := Binary.lt_of_lt_of_le (Binary.zero_lt_one hF) (h.one_le_limit m hm)
  have hquotient : 1 ≤ distance / m :=
    Binary.one_le_div hF hpos (h.limit_finite m hm) (Binary.le_of_lt hlt)
  exact Binary.ceilUpTo_pos hF (by decide)
    (Binary.lt_of_lt_of_le (Binary.zero_lt_one hF) hquotient)

/-- **The samples of a jump end at the position that was fed**, split or not. -/
theorem getLast?_jump (h : s.Sound) (anchor point : Vec) :
    (s.jump anchor point).getLast?.map Sample.point = some point := by
  unfold jump
  cases hm : s.maxDistance with
  | none => rfl
  | some m =>
      simp only
      split
      · rename_i hlt
        rw [getLast?_splitJump anchor point (h.ceilUpTo_pos hm hlt)]
        rfl
      · rfl

theorem jump_ne_nil (h : s.Sound) (anchor point : Vec) : s.jump anchor point ≠ [] := by
  intro hnil
  have hlast := h.getLast?_jump anchor point
  simp [hnil] at hlast

end Sound

/-! ### The gate -/

/-- The travel that a sample takes at least.  A negative one counts as zero, and so does `NaN`. -/
def travel (least : Binary32) : Binary32 := if 0 < least then least else 0

/-- A distance is compared with the larger of the least travel and zero as it is with `travel`: a
zero of either sign is below the same numbers. -/
theorem lt_max_zero_iff (distance least : Binary32) :
    distance < max least 0 ↔ distance < travel least := by
  have hzero : (0 : Binary32).isNaN = false := by decide +kernel
  change distance < Binary.max least 0 ↔ _
  unfold Binary.max travel
  cases hnan : least.isNaN with
  | true =>
      have hpos : ¬ 0 < least := by
        intro hpos
        have hnumber := (Binary.isNaN_of_le (Binary.le_of_lt hpos)).2
        simp [hnan] at hnumber
      simp [hpos]
  | false =>
      simp only [hzero, Bool.false_eq_true, if_false]
      by_cases hpos : 0 < least
      · simp [hpos, Binary.not_lt_of_le (Binary.le_of_lt hpos)]
      · by_cases hneg : least < 0
        · simp [hpos, hneg]
        · -- neither above nor below zero: then it is one of the two zeros
          have hplace : least.key? = (0 : Binary32).key? :=
            Binary.key?_eq_of_le_of_le (Binary.le_of_not_lt hzero hnan hpos)
              (Binary.le_of_not_lt hnan hzero hneg)
          simp only [hpos, hneg, if_false, Binary.lt_iff_key, hplace]

namespace Sound

/-- What the gate of a sound sampler checks. -/
theorem accepts_iff (h : s.Sound) (ha : s.anchor = some a) (point : Vec) :
    s.accepts a point = true ↔ point.isFinite = true ∧ 0 < (point - a).length ∧
      ¬ (point - a).length < travel s.minDistance := by
  simp only [accepts, Bool.and_eq_true, Bool.not_eq_true', decide_eq_false_iff_not,
    lt_max_zero_iff, and_assoc]
  refine and_congr_right fun hfinite => and_congr_left fun _ => ?_
  -- the distance between finite points is a number, so it is positive as soon as it is not zero
  have hdistance := Vec.nonneg_length_sub hfinite (h.anchor_finite a ha)
  obtain ⟨hzero, hnumber⟩ := Binary.isNaN_of_le hdistance
  exact Binary.not_le_iff_lt hnumber hzero

/-- **A position completes samples exactly when** a drag is on and the position is finite, is not at
the anchor, and is not nearer to it than the least travel. -/
theorem sample_ne_nil_iff (h : s.Sound) (point : Vec) :
    (s.sample point).1 ≠ [] ↔ ∃ a, s.anchor = some a ∧ point.isFinite = true ∧
      0 < (point - a).length ∧ ¬ (point - a).length < travel s.minDistance := by
  unfold sample
  cases ha : s.anchor with
  | none => simp
  | some a =>
      simp only [Option.some.injEq, exists_eq_left', ← h.accepts_iff ha]
      split
      · rename_i haccepted
        simp [haccepted, h.jump_ne_nil]
      · rename_i hrejected
        simp [hrejected]

/-- A position that completes samples becomes the anchor, and any other leaves the sampler as it
is. -/
theorem sample_snd (h : s.Sound) (point : Vec) :
    (s.sample point).2 =
      if (s.sample point).1 = [] then s else { s with anchor := some point } := by
  unfold sample
  cases s.anchor with
  | none => rfl
  | some a =>
      simp only
      split
      · rw [if_neg (h.jump_ne_nil a point)]
      · rfl

end Sound

/-! ### Journals -/

/-- The operations of a run, each with the samples that it completes. -/
def journal (s : Sampler) (ops : List Op) : List (Op × List Sample) := ops.zip (s.run ops).1

/-- The anchor after an operation, told from the anchor before it and from the samples that the
operation completed. -/
def placeAfter (place : Option Vec) : Op × List Sample → Option Vec
  | (.begin point, _) => if point.isFinite then some point else none
  | (.sample _, []) => place
  | (.sample point, _ :: _) => some point
  | (.finish, _) => none
  | (.setMinDistance _, _) => place

/-- The least travel that is asked for after an operation. -/
def leastAfter (least : Binary32) : Op → Binary32
  | .setMinDistance m => m
  | _ => least

/-- A position was fed and completed no sample. -/
def isIdle : Op × List Sample → Bool
  | (.sample _, []) => true
  | _ => false

theorem run_cons (s : Sampler) (op : Op) (ops : List Op) :
    s.run (op :: ops) =
      ((s.apply op).1 :: ((s.apply op).2.run ops).1, ((s.apply op).2.run ops).2) :=
  rfl

theorem journal_cons (s : Sampler) (op : Op) (ops : List Op) :
    s.journal (op :: ops) = (op, (s.apply op).1) :: (s.apply op).2.journal ops :=
  rfl

theorem minDistance_apply (s : Sampler) (op : Op) :
    (s.apply op).2.minDistance = leastAfter s.minDistance op := by
  cases op with
  | sample point =>
      simp only [apply, sample_anchor]
      split <;> rfl
  | _ => rfl

/-- The least travel after a run is the one that was asked for last. -/
theorem minDistance_run (s : Sampler) (ops : List Op) :
    (s.run ops).2.minDistance = ops.foldl leastAfter s.minDistance := by
  induction ops generalizing s with
  | nil => rfl
  | cons op ops ih =>
      rw [run_cons, List.foldl_cons, ← minDistance_apply]
      exact ih _

namespace Sound

theorem anchor_apply (h : s.Sound) (op : Op) :
    (s.apply op).2.anchor = placeAfter s.anchor (op, (s.apply op).1) := by
  cases op with
  | sample point =>
      simp only [Sampler.apply, h.sample_snd point]
      cases (s.sample point).1 <;> rfl
  | _ => rfl

/-- **The anchor after a run is the one that its journal tells.** -/
theorem anchor_run (h : s.Sound) (ops : List Op) :
    (s.run ops).2.anchor = (s.journal ops).foldl placeAfter s.anchor := by
  induction ops generalizing s with
  | nil => rfl
  | cons op ops ih =>
      rw [run_cons, journal_cons, List.foldl_cons, ← h.anchor_apply op]
      exact ih (h.apply op)

theorem apply_of_isIdle (h : s.Sound) {op : Op} (hidle : isIdle (op, (s.apply op).1) = true) :
    (s.apply op).2 = s := by
  cases op with
  | sample point =>
      simp only [Sampler.apply] at hidle ⊢
      rw [h.sample_snd point]
      cases hsamples : (s.sample point).1 with
      | nil => rfl
      | cons sample rest => simp [isIdle, hsamples] at hidle
  | _ => simp [isIdle] at hidle

/-- **Idle positions might as well not have been fed**: without them, the other operations complete
the same samples, and the sampler is the same in the end. -/
theorem run_kept (h : s.Sound) (ops : List Op) :
    s.run (((s.journal ops).filter (!isIdle ·)).map Prod.fst) =
      (((s.journal ops).filter (!isIdle ·)).map Prod.snd, (s.run ops).2) := by
  induction ops generalizing s with
  | nil => rfl
  | cons op ops ih =>
      have ih' := ih (h.apply op)
      rw [run_cons, journal_cons]
      cases hidle : isIdle (op, (s.apply op).1) with
      | true =>
          rw [h.apply_of_isIdle hidle] at ih' ⊢
          simpa [List.filter_cons, hidle] using ih'
      | false =>
          simp only [List.filter_cons, hidle, Bool.not_false, if_true, List.map_cons, run_cons, ih']

end Sound

/-! ### New samplers -/

/-- **Which positions complete samples**, and what becomes of the sampler: for any least travel that
it is made with, any limit for jumps, and after any operations.  The anchor and the least travel are
those that the journal of the operations tells, whatever is in between; and the positions that have
completed no sample so far might as well not have been fed. -/
theorem sample_after_run (m : Binary32) (limit : Option Binary32) (ops : List Op) (point : Vec) :
    let start := (ofMinDistance m).withMaxDistance limit
    let last := (start.run ops).2
    let place := (start.journal ops).foldl placeAfter none
    let least := ops.foldl leastAfter m
    let kept := (start.journal ops).filter (!isIdle ·)
    (last.anchor = place ∧ last.isActive = place.isSome) ∧
    ((last.sample point).1 ≠ [] ↔ ∃ a, place = some a ∧ point.isFinite = true ∧
      0 < (point - a).length ∧ ¬ (point - a).length < travel least) ∧
    ((last.sample point).1 ≠ [] → (last.sample point).2 = { last with anchor := some point }) ∧
    ((last.sample point).1 = [] → (last.sample point).2 = last) ∧
    start.run (kept.map Prod.fst) = (kept.map Prod.snd, last) := by
  intro start last place least kept
  have hstart : start.Sound := sound_withMaxDistance m limit
  have hlast : last.Sound := hstart.run ops
  have hplace : last.anchor = place := hstart.anchor_run ops
  have hleast : last.minDistance = least := minDistance_run start ops
  refine ⟨⟨hplace, ?_⟩, ?_, ?_, ?_, hstart.run_kept ops⟩
  · rw [isActive, hplace]
  · rw [hlast.sample_ne_nil_iff point, hplace, hleast]
  · intro hsome
    rw [hlast.sample_snd point, if_neg hsome]
  · intro hnone
    rw [hlast.sample_snd point, if_pos hnone]

end StripeBrush.Sampler
