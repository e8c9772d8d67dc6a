/-
**Which points a cap moves, and where to.**

A square cap pushes the two ends of a line away from their neighbours, and every other point stays
where it is; other caps move nothing.  Both ends are seen from the points of the path as it was given,
also where a path has only two points and each end is the other's neighbour.  So it makes no
difference from which end the path is read.

An end that falls together with its neighbour has no direction to go to, and so it stays; one that is
too far from its neighbour has none either, since their difference is not finite, and its length is
infinite.  Anywhere else the direction is a vector of numbers, and the end comes to a point with
coordinates that are numbers, if only infinite ones.

Main definitions:

* `EndBeside` — a place in a list is one of its ends, with another place next to it.

Main results:

* `getElem?_cappedPoints_end`, `getElem?_cappedPoints_inner` — **the points of a capped line, one by
  one**;
* `cappedPoints_reverse` — a line has the same caps in both directions;
* `sameValue_pushOut_of_numEq`, `pushOut_of_not_isFinite` — the ends that stay;
* `isNaN_pushOut` — an end does not become `NaN`;
* `cappedPoints_moves_only_ends` — **all of this for the points of any line**.
-/

import StripeBrush.Canvas
import StripeBrush.Proofs.Binary.Nonneg
import StripeBrush.Proofs.Binary.Values
import StripeBrush.Proofs.Geometry.Symmetry

set_option relaxedAutoImplicit false
set_option autoImplicit false

namespace StripeBrush

/-! ### Places -/

/-- Of a list of `n` points, `i` is the first place and `j` the one after it, or `i` is the last place
and `j` the one before it. -/
def EndBeside (n i j : ℕ) : Prop := i = 0 ∧ j = 1 ∨ i + 1 = n ∧ j + 1 = i

section Places

variable {n i j : ℕ}

theorem EndBeside.reflect (h : EndBeside n i j) (hi : i < n) (hj : j < n) :
    EndBeside n (n - 1 - i) (n - 1 - j) := by
  unfold EndBeside at h ⊢
  omega

/-- There are two places at least, an end and the one next to it. -/
theorem EndBeside.two_le (h : EndBeside n i j) (hj : j < n) : 2 ≤ n := by
  unfold EndBeside at h
  omega

theorem inner_or_endBeside (hn : 2 ≤ n) (hi : i < n) :
    0 < i ∧ i + 1 < n ∨ ∃ j < n, EndBeside n i j := by
  rcases Nat.eq_zero_or_pos i with rfl | hpos
  · exact .inr ⟨1, by omega, .inl ⟨rfl, rfl⟩⟩
  · rcases Nat.lt_or_ge (i + 1) n with hlt | hge
    · exact .inl ⟨hpos, hlt⟩
    · exact .inr ⟨i - 1, by omega, .inr ⟨by omega, by omega⟩⟩

end Places

/-! ### Capped points, one by one -/

section Points

variable {style : Style} {points : List Vec} {i j : ℕ}
  {tip neighbour previous : Vec}

/-- The points after `previous`, one by one: the last one is pushed away from the point before it. -/
theorem getElem?_pushOutLast (reach : Binary32) (htip : points[i]? = some tip)
    (hneighbour : (previous :: points)[i]? = some neighbour) :
    (pushOutLast reach previous points)[i]? =
      some (if i + 1 = points.length then pushOut reach tip neighbour else tip) := by
  fun_induction pushOutLast reach previous points generalizing i with
  | case1 => simp at htip
  | case2 previous last =>
      cases i with
      | zero =>
          obtain rfl := Option.some.inj htip
          obtain rfl := Option.some.inj hneighbour
          simp
      | succ i => simp at htip
  | case3 previous point next rest ih =>
      cases i with
      | zero =>
          obtain rfl := Option.some.inj htip
          simp
      | succ i =>
          have hrest := ih htip hneighbour
          simpa using hrest

theorem exists_cons_cons_of_two_le (h : 2 ≤ points.length) :
    ∃ first second rest, points = first :: second :: rest := by
  cases points with
  | nil => simp at h
  | cons first tail =>
      cases tail with
      | nil => simp at h
      | cons second rest => exact ⟨first, second, rest, rfl⟩

/-- **A square cap pushes each end away from the point next to it.** -/
theorem getElem?_cappedPoints_end (hcap : style.cap = .square) (h : EndBeside points.length i j)
    (htip : points[i]? = some tip) (hneighbour : points[j]? = some neighbour) :
    (cappedPoints style points)[i]? = some (pushOut (style.width / 2) tip neighbour) := by
  obtain ⟨hj, -⟩ := List.getElem?_eq_some_iff.1 hneighbour
  obtain ⟨first, second, rest, rfl⟩ := exists_cons_cons_of_two_le (h.two_le hj)
  rcases h with ⟨rfl, rfl⟩ | ⟨hlast, hbefore⟩
  · obtain rfl := Option.some.inj htip
    obtain rfl := Option.some.inj hneighbour
    simp [cappedPoints, hcap]
  · obtain rfl := hbefore.symm
    have hend : j + 1 = (second :: rest).length := by simpa using hlast
    have htip : (second :: rest)[j]? = some tip := htip
    have hpushed := getElem?_pushOutLast (style.width / 2) htip hneighbour
    rw [if_pos hend] at hpushed
    simpa [cappedPoints, hcap] using hpushed

example : cappedPoints { width := 10, cap := .square } [⟨0, 0⟩, ⟨20, 0⟩] = [⟨-5, 0⟩, ⟨25, 0⟩] := by
  decide +kernel

/-- **No cap moves a point that is not an end.** -/
theorem getElem?_cappedPoints_inner (hlo : 0 < i) (hhi : i + 1 < points.length) :
    (cappedPoints style points)[i]? = points[i]? := by
  unfold cappedPoints
  split
  case h_2 => rfl
  case h_1 first second rest hcap =>
    obtain ⟨k, rfl⟩ : ∃ k, i = k + 1 := ⟨i - 1, by omega⟩
    have hk : k < (second :: rest).length := by
      simp only [List.length_cons] at hhi ⊢
      omega
    have hk' : k < (first :: second :: rest).length := by
      simp only [List.length_cons] at hk ⊢
      omega
    have hkept := getElem?_pushOutLast (style.width / 2)
      (List.getElem?_eq_getElem hk) (List.getElem?_eq_getElem hk')
    rw [if_neg (by simp only [List.length_cons] at hhi ⊢; omega)] at hkept
    rw [List.getElem?_cons_succ, List.getElem?_cons_succ, hkept, List.getElem?_eq_getElem hk]

theorem cappedPoints_of_length_lt (h : points.length < 2) : cappedPoints style points = points := by
  unfold cappedPoints
  split
  · simp only [List.length_cons] at h
    omega
  · rfl

/-- **A line has the same caps in both directions.** -/
theorem cappedPoints_reverse (style : Style) (points : List Vec) :
    cappedPoints style points.reverse = (cappedPoints style points).reverse := by
  by_cases hcap : style.cap = .square
  case neg => rw [cappedPoints_of_ne_square hcap, cappedPoints_of_ne_square hcap]
  by_cases hlength : points.length < 2
  case pos =>
    rw [cappedPoints_of_length_lt hlength, cappedPoints_of_length_lt (by simpa using hlength)]
  have hn : 2 ≤ points.length := Nat.le_of_not_lt hlength
  have hreverse : ∀ k < points.length, points.reverse[k]? = points[points.length - 1 - k]? :=
    fun k hk => List.getElem?_reverse hk
  refine List.ext_getElem? fun i => ?_
  rcases Nat.lt_or_ge i points.length with hi | hi
  case inr =>
    rw [List.getElem?_eq_none (by simpa using hi), List.getElem?_eq_none (by simpa using hi)]
  rw [List.getElem?_reverse (by simpa using hi), length_cappedPoints]
  rcases inner_or_endBeside hn hi with ⟨hlo, hhi⟩ | ⟨j, hj, hend⟩
  · rw [getElem?_cappedPoints_inner hlo (by simpa using hhi), hreverse i hi,
      getElem?_cappedPoints_inner (by omega) (by omega)]
  · -- the end and its neighbour, as they stand in the list that is read forwards
    have htip := List.getElem?_eq_getElem (l := points) (i := points.length - 1 - i) (by omega)
    have hneighbour := List.getElem?_eq_getElem (l := points) (i := points.length - 1 - j) (by omega)
    rw [getElem?_cappedPoints_end hcap (hend.reflect hi hj) htip hneighbour]
    refine getElem?_cappedPoints_end hcap (by simpa using hend) ?_ ?_
    · rw [hreverse i hi, htip]
    · rw [hreverse j hj, hneighbour]

end Points

/-! ### Ends that stay -/

namespace Vec

variable {v : Vec}

theorem isFinite_normalized_of_not (hx : v.x.isNaN = false) (hy : v.y.isNaN = false)
    (h : v.isFinite = false) : v.normalized.isFinite = false := by
  have hinfinite : v.x.isInf = true ∨ v.y.isInf = true := by
    by_contra hnone
    rw [not_or, Bool.not_eq_true, Bool.not_eq_true] at hnone
    have hfinite : v.isFinite = true := Bool.and_eq_true_iff.2
      ⟨Binary.isFinite_of_isInf hx hnone.1, Binary.isFinite_of_isInf hy hnone.2⟩
    rw [h] at hfinite
    exact Bool.false_ne_true hfinite
  have hlength : v.length = .inf false := by
    unfold length
    rw [if_pos (by rcases hinfinite with h | h <;> simp [h])]
  have hquotient : ∀ {a : Binary32}, a.isInf = true → (a / .inf false).isFinite = false := by
    intro a ha
    cases a with
    | inf s => rfl
    | _ => simp [Binary.isInf] at ha
  have hnot : ¬ (Binary.inf false : Binary32) ≤ 0 := by decide
  rw [normalized, hlength, if_neg hnot]
  change ((v.x / .inf false).isFinite && (v.y / .inf false).isFinite) = false
  rcases hinfinite with hx | hy
  · rw [hquotient hx, Bool.false_and]
  · rw [hquotient hy, Bool.and_false]

end Vec

section Ends

variable {reach : Binary32} {tip neighbour : Vec}

/-- **An end that falls together with its neighbour stays where it is**, but for the sign of a
zero. -/
theorem sameValue_pushOut_of_numEq (hreach : reach.isFinite = true) (htip : tip.isFinite = true)
    (hneighbour : neighbour.isFinite = true) (h : tip.numEq neighbour = true) :
    (pushOut reach tip neighbour).SameValue tip := by
  have hF : 0 < Format.binary32.infIndex := by decide
  have hzero := (Vec.SameValue.of_numEq htip hneighbour h).sub_eq_zero htip
  have hlength : (tip - neighbour).length ≤ 0 := by
    rw [hzero.length_eq]
    decide +kernel
  have hstay : ∀ {a d : Binary32}, d.SameValue 0 → (a + d * reach).SameValue a := by
    intro a d hd
    have hproduct := (hd.mul_right reach).trans (Binary.sameValue_zero_mul hF hreach)
    exact ((Binary.SameValue.same a).add hproduct).trans (Binary.sameValue_add_zero hF a)
  simp only [pushOut, Vec.normalized, if_pos hlength, hzero.isFinite_eq]
  exact ⟨hstay hzero.x, hstay hzero.y⟩

/-- **An end that is too far from its neighbour stays where it is.** -/
theorem pushOut_of_not_isFinite (htip : tip.isFinite = true) (hneighbour : neighbour.isFinite = true)
    (h : (tip - neighbour).isFinite = false) : pushOut reach tip neighbour = tip := by
  obtain ⟨htx, hty⟩ := Bool.and_eq_true_iff.1 htip
  obtain ⟨hnx, hny⟩ := Bool.and_eq_true_iff.1 hneighbour
  have hdirection := Vec.isFinite_normalized_of_not (Binary.isNaN_sub htx hnx)
    (Binary.isNaN_sub hty hny) h
  simp only [pushOut, hdirection, Bool.false_eq_true, if_false]

/-- **An end does not become `NaN`**, wherever its neighbour is. -/
theorem isNaN_pushOut (hreach : reach.isFinite = true) (htip : tip.isFinite = true)
    (neighbour : Vec) :
    (pushOut reach tip neighbour).x.isNaN = false ∧ (pushOut reach tip neighbour).y.isNaN = false := by
  obtain ⟨hx, hy⟩ := Bool.and_eq_true_iff.1 htip
  simp only [pushOut]
  split
  · rename_i hdirection
    obtain ⟨hdx, hdy⟩ := Bool.and_eq_true_iff.1 hdirection
    exact ⟨Binary.isNaN_add hx (Binary.isNaN_mul hdx hreach),
      Binary.isNaN_add hy (Binary.isNaN_mul hdy hreach)⟩
  · exact ⟨Binary.isNaN_of_isFinite hx, Binary.isNaN_of_isFinite hy⟩

/-- Half of a finite width is finite. -/
theorem isFinite_half {width : Binary32} (h : width.isFinite = true) :
    (width / 2).isFinite = true :=
  (Binary.div_ofNat_error h (by decide : 0 < 2) (by decide)).1

end Ends

/-! ### The points of a line -/

/-- **What a cap does to the points of a line.**  There are as many of them as before, and none moves
but the two ends, which a square cap pushes out, each away from the point next to it; they do not move
where the cap is not square or there are fewer than two points.  Reading the points from the other
side gives the same points, read from the other side.  With finite points and a finite width, an end
stays where it is if it falls together with its neighbour or their difference is not finite, and no
coordinate becomes `NaN`. -/
theorem cappedPoints_moves_only_ends (style : Style) (points : List Vec) :
    (cappedPoints style points).length = points.length ∧
    (∀ i, 0 < i → i + 1 < points.length → (cappedPoints style points)[i]? = points[i]?) ∧
    (∀ i j tip neighbour, style.cap = .square → EndBeside points.length i j →
      points[i]? = some tip → points[j]? = some neighbour →
      (cappedPoints style points)[i]? = some (pushOut (style.width / 2) tip neighbour)) ∧
    (style.cap ≠ .square ∨ points.length < 2 → cappedPoints style points = points) ∧
    cappedPoints style points.reverse = (cappedPoints style points).reverse ∧
    (style.width.isFinite = true → (∀ p ∈ points, p.isFinite = true) →
      (∀ i j tip neighbour, EndBeside points.length i j → points[i]? = some tip →
        points[j]? = some neighbour →
        tip.numEq neighbour = true ∨ (tip - neighbour).isFinite = false →
        ∃ p, (cappedPoints style points)[i]? = some p ∧ p.numEq tip = true) ∧
      ∀ p ∈ cappedPoints style points, p.x.isNaN = false ∧ p.y.isNaN = false) := by
  refine ⟨length_cappedPoints style points, fun i => getElem?_cappedPoints_inner,
    fun i j tip neighbour => getElem?_cappedPoints_end, ?_, cappedPoints_reverse style points,
    fun hwidth hpoints => ⟨?_, ?_⟩⟩
  · rintro (hcap | hlength)
    · exact cappedPoints_of_ne_square hcap points
    · exact cappedPoints_of_length_lt hlength
  · intro i j tip neighbour hend htip hneighbour hstays
    have hfinite := hpoints tip (List.mem_of_getElem? htip)
    have hfinite' := hpoints neighbour (List.mem_of_getElem? hneighbour)
    have hself : tip.numEq tip = true := (Vec.SameValue.refl tip).numEq_eq_true hfinite
    by_cases hcap : style.cap = .square
    case neg => exact ⟨tip, by rw [cappedPoints_of_ne_square hcap, htip], hself⟩
    refine ⟨_, getElem?_cappedPoints_end hcap hend htip hneighbour, ?_⟩
    rcases hstays with hequal | hfar
    · have hsame := sameValue_pushOut_of_numEq (isFinite_half hwidth) hfinite hfinite' hequal
      exact hsame.numEq_eq_true (hsame.isFinite_eq.trans hfinite)
    · rwa [pushOut_of_not_isFinite hfinite hfinite' hfar]
  · intro p hp
    have hnumber : ∀ q ∈ points, q.x.isNaN = false ∧ q.y.isNaN = false := by
      intro q hq
      obtain ⟨hx, hy⟩ := Bool.and_eq_true_iff.1 (hpoints q hq)
      exact ⟨Binary.isNaN_of_isFinite hx, Binary.isNaN_of_isFinite hy⟩
    by_cases hcap : style.cap = .square
    case neg => exact hnumber p (by rwa [cappedPoints_of_ne_square hcap] at hp)
    by_cases hlength : points.length < 2
    case pos => exact hnumber p (by rwa [cappedPoints_of_length_lt hlength] at hp)
    obtain ⟨i, hi⟩ := List.getElem?_of_mem hp
    have hlt : i < points.length := by
      obtain ⟨hlt, -⟩ := List.getElem?_eq_some_iff.1 hi
      rwa [length_cappedPoints] at hlt
    rcases inner_or_endBeside (Nat.le_of_not_lt hlength) hlt with ⟨hlo, hhi⟩ | ⟨j, hj, hend⟩
    · rw [getElem?_cappedPoints_inner hlo hhi] at hi
      exact hnumber p (List.mem_of_getElem? hi)
    · have htip := List.getElem?_eq_getElem hlt
      rw [getElem?_cappedPoints_end hcap hend htip (List.getElem?_eq_getElem hj)] at hi
      obtain rfl := Option.some.inj hi
      exact isNaN_pushOut (isFinite_half hwidth) (hpoints _ (List.mem_of_getElem? htip)) _

/-- So it is for a line that starts with two zeros of different signs and ends with the longest of all
movements: both ends stay where they are. -/
theorem cappedPoints_moves_only_ends_of_far_points :
    let style : Style := { width := 10, cap := .square }
    let most := Binary.maxFinite Format.binary32
    let points : List Vec := [⟨0, 0⟩, ⟨-0, 0⟩, ⟨most, 0⟩, ⟨-most, 0⟩]
    style.width.isFinite = true ∧ (∀ p ∈ points, p.isFinite = true) ∧
      (∃ p, (cappedPoints style points)[0]? = some p ∧ p.numEq ⟨0, 0⟩ = true) ∧
      (∃ p, (cappedPoints style points)[3]? = some p ∧ p.numEq ⟨-most, 0⟩ = true) ∧
      ∀ p ∈ cappedPoints style points, p.x.isNaN = false ∧ p.y.isNaN = false := by
  intro style most points
  have hwidth : style.width.isFinite = true := by decide +kernel
  have hpoints : ∀ p ∈ points, p.isFinite = true := by decide +kernel
  obtain ⟨-, -, -, -, -, hfinite⟩ := cappedPoints_moves_only_ends style points
  obtain ⟨hstays, hnumbers⟩ := hfinite hwidth hpoints
  have hfirst := hstays 0 1 _ _ (.inl ⟨rfl, rfl⟩) rfl rfl (.inl (by decide +kernel))
  have hlast := hstays 3 2 _ _ (.inr ⟨rfl, rfl⟩) rfl rfl (.inr (by decide +kernel))
  exact ⟨hwidth, hpoints, hfirst, hlast, hnumbers⟩

end StripeBrush
