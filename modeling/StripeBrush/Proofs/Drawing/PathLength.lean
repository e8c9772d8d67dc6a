/-
**The length of a path, point by point.**

The length is a sum of distances that are not below zero, each sum rounded, and it starts from
negative zero.  So it never comes below zero and never is `NaN`, even where points are so far apart
that a distance is infinite.  One more point at the end adds one more distance to the sum, and since
rounding keeps the order, the length does not become smaller.  A point that is passed twice adds a
distance of zero somewhere in the middle, which can change the sign of a zero, and nothing that comes
after it.

Main results:

* `Path.segmentLengths_append_cons` — the distances before and after a point;
* `Path.nonneg_sum`, `Path.sameValue_sum` — what a sum of distances keeps;
* `Path.length_addPoint` — **one more point adds its distance**;
* `Path.sameValue_length_of_repeat` — **passing a point twice keeps the length**;
* `Path.length_point_by_point` — the length of any path with finite points.
-/

import StripeBrush.Drawing
import StripeBrush.Proofs.Binary.Monotone
import StripeBrush.Proofs.Binary.SameValue

set_option relaxedAutoImplicit false
set_option autoImplicit false

namespace StripeBrush

/-! ### Distances -/

namespace Binary

/-- No summand that is not below zero makes a sum smaller: the sum is at least as large, or `NaN`. -/
theorem not_sum_lt {F : Format} (hF : 0 < F.infIndex) {x y : Binary F} (hx : 0 ≤ x)
    (hy : ¬ y < 0) : ¬ x + y < x := by
  cases hnumber : y.isNaN with
  | false =>
      have hzero : (0 : Binary F).isNaN = false := by rw [zero_eq hF]; rfl
      exact not_lt_of_le (le_sum hF hx (le_of_not_lt hnumber hzero hy))
  | true =>
      cases y with
      | nan s =>
          rw [add_nan, lt_iff_key]
          rintro ⟨j, k, hj, -, -⟩
          simp [key?] at hj
      | _ => simp [isNaN] at hnumber

end Binary

theorem Vec.sameValue_distance_self {v : Vec} (hv : v.isFinite = true) :
    (v.distance v).SameValue 0 := by
  have hle := Vec.length_sub_self_le hv
  have hge := Vec.nonneg_length_sub hv hv
  have hzero : (0 : Binary32).isFinite = true := by decide
  exact .of_numEq (Binary.isFinite_of_le_of_le hzero hzero hge hle) hzero
    (Binary.numEq_of_le_of_le hle hge)

namespace Path

variable {points : List Vec} {distances : List Binary32} {x y : Binary32}

/-- The distances of a path that goes through a point: those up to the point, and then those from
it on. -/
theorem segmentLengths_append_cons (before : List Vec) (p : Vec) (after : List Vec) :
    segmentLengths (before ++ p :: after) =
      segmentLengths (before ++ [p]) ++ segmentLengths (p :: after) := by
  induction before with
  | nil => rfl
  | cons a before ih =>
      cases before with
      | nil => rfl
      | cons b before => exact congrArg (a.distance b :: ·) ih

theorem nonneg_of_mem_segmentLengths (h : ∀ p ∈ points, p.isFinite = true) :
    ∀ d ∈ segmentLengths points, 0 ≤ d := by
  fun_induction segmentLengths points with
  | case1 a b rest ih =>
      obtain ⟨ha, hrest⟩ := List.forall_mem_cons.1 h
      refine List.forall_mem_cons.2 ⟨?_, ih hrest⟩
      exact Vec.nonneg_length_sub ha (hrest b (List.mem_cons_self ..))
  | case2 => simp

/-! ### Sums of distances -/

/-- A sum of numbers that are not below zero is not below zero. -/
theorem nonneg_sum (hx : 0 ≤ x) (h : ∀ d ∈ distances, 0 ≤ d) :
    0 ≤ distances.foldl (· + ·) x := by
  induction distances generalizing x with
  | nil => exact hx
  | cons d distances ih =>
      obtain ⟨hd, hrest⟩ := List.forall_mem_cons.1 h
      exact ih (Binary.nonneg_add (by decide) hx hd) hrest

/-- Sums that start from the same value come to the same value. -/
theorem sameValue_sum (h : x.SameValue y) (distances : List Binary32) :
    (distances.foldl (· + ·) x).SameValue (distances.foldl (· + ·) y) := by
  induction distances generalizing x y with
  | nil => exact h
  | cons d distances ih => exact ih (h.add_right d)

/-! ### The length -/

variable {path : Path} {last : Vec}

/-- **The length of a path with finite points is not below zero.** -/
theorem nonneg_length (h : ∀ p ∈ path.points, p.isFinite = true) : 0 ≤ path.length := by
  have hstart : 0 ≤ Binary.zero Format.binary32 true := by decide +kernel
  exact nonneg_sum hstart (nonneg_of_mem_segmentLengths h)

theorem length_of_length_lt (h : path.points.length < 2) :
    path.length = Binary.zero Format.binary32 true := by
  cases hpoints : path.points with
  | nil => simp [length, hpoints, segmentLengths]
  | cons first rest =>
      rw [hpoints, List.length_cons] at h
      have hrest : rest = [] := List.length_eq_zero_iff.1 (by omega)
      simp [length, hpoints, hrest, segmentLengths]

/-- **One more point adds its distance from the last one.** -/
theorem length_addPoint (h : path.points.getLast? = some last) (q : Vec) :
    (path.addPoint q).length = path.length + last.distance q := by
  obtain ⟨before, hbefore⟩ := List.getLast?_eq_some_iff.1 h
  have hpoints : (path.addPoint q).points = before ++ last :: [q] := by
    simp [addPoint, hbefore]
  rw [length, length, hpoints, hbefore, segmentLengths_append_cons, List.foldl_append]
  rfl

/-- **Passing a point twice keeps the length**, but for the sign of a zero. -/
theorem sameValue_length_of_repeat {before after : List Vec} {p : Vec}
    (h : path.points = before ++ p :: after) (hp : p.isFinite = true) :
    (Path.mk (before ++ p :: p :: after) path.style).length.SameValue path.length := by
  have honce := segmentLengths_append_cons before p after
  have htwice : segmentLengths (before ++ p :: p :: after) =
      segmentLengths (before ++ [p]) ++ (p.distance p :: segmentLengths (p :: after)) :=
    segmentLengths_append_cons before p (p :: after)
  rw [length, length, h, htwice, honce, List.foldl_append, List.foldl_append, List.foldl_cons]
  -- the sum up to the point, with a zero added to it
  refine sameValue_sum ?_ _
  refine ((Binary.SameValue.same _).add (Vec.sameValue_distance_self hp)).trans ?_
  exact Binary.sameValue_add_zero (by decide) _

/-- **The length of a path with finite points.**  It is a number and not below zero, and zero for
fewer than two points.  One more point after the last one makes it the sum of the length before and
the distance between the two points, and never smaller, not even where that point is not finite; and
passing a point twice, wherever it is on the path, leaves a length that is equal. -/
theorem length_point_by_point (path : Path) (h : ∀ p ∈ path.points, p.isFinite = true) :
    path.length.isNaN = false ∧ 0 ≤ path.length ∧
    (path.points.length < 2 → path.length.numEq 0 = true) ∧
    (∀ last q, path.points.getLast? = some last →
      (path.addPoint q).length = path.length + last.distance q ∧
      ¬ (path.addPoint q).length < path.length ∧
      (q.isFinite = true → path.length ≤ (path.addPoint q).length)) ∧
    ∀ before p after, path.points = before ++ p :: after →
      (Path.mk (before ++ p :: p :: after) path.style).length.numEq path.length = true := by
  have hF : 0 < Format.binary32.infIndex := by decide
  have hpos := nonneg_length h
  have hnumber := (Binary.isNaN_of_le hpos).2
  refine ⟨hnumber, hpos, fun hshort => ?_, fun last q hlast => ?_,
    fun before p after hpoints => ?_⟩
  · rw [length_of_length_lt hshort]
    decide +kernel
  · have hfinite := h last (List.mem_of_getLast? hlast)
    rw [length_addPoint hlast q]
    refine ⟨rfl, Binary.not_sum_lt hF hpos (Vec.not_length_lt_zero _), fun hq => ?_⟩
    exact Binary.le_sum hF hpos (Vec.nonneg_length_sub hfinite hq)
  · have hp : p.isFinite = true := h p (by simp [hpoints])
    have hsame := sameValue_length_of_repeat hpoints hp
    exact hsame.numEq_eq_true (hsame.isNaN_eq.trans hnumber)

/-- So it is for two points that are as far apart as points can be: the length is infinite, and it
stays so whatever comes after them. -/
theorem length_point_by_point_of_far_points :
    let most := Binary.maxFinite Format.binary32
    let path : Path := ⟨[⟨-most, 0⟩, ⟨most, 0⟩], {}⟩
    (∀ p ∈ path.points, p.isFinite = true) ∧ path.length = .inf false ∧
      path.length.isNaN = false ∧ path.length ≤ (path.addPoint ⟨0, 3⟩).length ∧
      ¬ (path.addPoint ⟨.nan false, 0⟩).length < path.length ∧
      (Path.mk [⟨-most, 0⟩, ⟨-most, 0⟩, ⟨most, 0⟩] path.style).length.numEq path.length = true := by
  intro most path
  have hpoints : ∀ p ∈ path.points, p.isFinite = true := by decide +kernel
  have hfar : path.length = .inf false := by decide +kernel
  obtain ⟨hnumber, -, -, hgrows, htwice⟩ := length_point_by_point path hpoints
  obtain ⟨-, -, hle⟩ := hgrows ⟨most, 0⟩ ⟨0, 3⟩ rfl
  obtain ⟨-, hnan, -⟩ := hgrows ⟨most, 0⟩ ⟨.nan false, 0⟩ rfl
  exact ⟨hpoints, hfar, hnumber, hle (by decide), hnan, htwice [] ⟨-most, 0⟩ [⟨most, 0⟩] rfl⟩

end Path

end StripeBrush
