/-
**The spacing of stripes along a straight drag.**

A drag starts at the origin and goes along the first axis by steps of one, with a whole number `d`
for the distance.  The anchor then stays at the last multiple of `d` that the pointer has come to:
the way from there is at most `d`, and the gate opens exactly where it is `d`, since whole numbers of
single precision are not rounded.  A sample that is taken is a whole movement, and such a movement
always gives a stripe.  So there is one stripe for every multiple of `d`, and no other.

Main definitions:

* `Session.Spaced` — in a straight drag that has come to `x = i`;
* `Workspace.AddsStripes` — stripes were added at the end of a drawing.

Main results:

* `Sampler.sample_unit` — what the sampler makes of the next position;
* `Session.Spaced.move` — and what the session draws for it;
* `Workspace.run_unit_moves` — a straight drag goes on;
* `Workspace.run_straight_drag` — **one stripe for every multiple of the distance**.
-/

import StripeBrush.Proofs.Geometry.Straight
import StripeBrush.Proofs.Pointer.Gating
import StripeBrush.Proofs.Session.Activation
import StripeBrush.Proofs.Session.Bounds
import StripeBrush.Proofs.Workspace.Growth

set_option relaxedAutoImplicit false
set_option autoImplicit false

namespace StripeBrush

variable {d i n : ℕ}

/-! ### The sampler -/

/-- The way from the last multiple of `d` to the next whole number. -/
theorem Vec.unit_sub (hi : i + 1 ≤ 2 ^ 24) :
    (⟨.ofNat _ (i + 1), 0⟩ : Vec) - ⟨.ofNat _ (d * (i / d)), 0⟩ = ⟨.ofNat _ (i % d + 1), 0⟩ := by
  have hparts := Nat.div_add_mod i d
  have hzero : Format.binary32.Whole 0 := Format.whole32 (Nat.zero_le _)
  have hway := Binary.ofNat_sub_ofNat (Format.whole32 hi)
    (Format.whole32 (by omega : d * (i / d) ≤ 2 ^ 24)) (by omega)
  have hrest : i + 1 - d * (i / d) = i % d + 1 := by omega
  rw [hrest] at hway
  change (⟨Binary.ofNat _ (i + 1) - Binary.ofNat _ (d * (i / d)),
    Binary.ofNat _ 0 - Binary.ofNat _ 0⟩ : Vec) = _
  rw [hway, Binary.ofNat_sub_ofNat hzero hzero (Nat.le_refl 0)]
  rfl

theorem dvd_succ_iff_mod (hd : 1 ≤ d) : d ∣ i + 1 ↔ d ≤ i % d + 1 := by
  have hlt := Nat.mod_lt i hd
  have hparts := Nat.div_add_mod i d
  constructor
  · rintro ⟨k, hk⟩
    by_contra hsmall
    have hone : d * k = d * (i / d) + (i % d + 1) := by omega
    have hmod := congrArg (· % d) hone
    simp only [Nat.mul_mod_right, Nat.mul_add_mod, Nat.mod_eq_of_lt (Nat.lt_of_not_le hsmall)] at hmod
    omega
  · intro hle
    refine ⟨i / d + 1, ?_⟩
    rw [Nat.mul_add, Nat.mul_one]
    omega

/-- The last multiple of `d`, one step further. -/
theorem mul_succ_div : d * ((i + 1) / d) = if d ∣ i + 1 then i + 1 else d * (i / d) := by
  split
  · rename_i hdvd
    exact Nat.mul_div_cancel' hdvd
  · rename_i hndvd
    rw [Nat.succ_div_of_not_dvd hndvd]

/-- **What the sampler makes of the next position**: a sample of length `d` at a multiple of `d`, and
none anywhere else; the anchor is at the last multiple again. -/
theorem Sampler.sample_unit {s : Sampler} (hd : 1 ≤ d) (hdle : d ≤ 2 ^ 24) (hi : i + 1 ≤ 2 ^ 24)
    (hleast : s.minDistance = .ofNat _ d) (hlimit : s.maxDistance = none)
    (ha : s.anchor = some ⟨.ofNat _ (d * (i / d)), 0⟩) :
    s.sample ⟨.ofNat _ (i + 1), 0⟩ =
      (if d ∣ i + 1 then [⟨⟨.ofNat _ (i + 1), 0⟩, ⟨.ofNat _ d, 0⟩⟩] else [],
        { s with anchor := some ⟨.ofNat _ (d * ((i + 1) / d)), 0⟩ }) := by
  have hparts := Nat.div_add_mod i d
  have hlt := Nat.mod_lt i hd
  have hfinite : ∀ k ≤ 2 ^ 24, (⟨.ofNat _ k, 0⟩ : Vec).isFinite = true := fun k hk =>
    Bool.and_eq_true_iff.2 ⟨(Binary.toRat_ofNat hk).1, Binary.within_zero.isFinite⟩
  have hsound : s.Sound := by
    refine ⟨?_, by simp [hlimit], by simp [hlimit]⟩
    intro a hanchor
    obtain rfl := Option.some.inj (ha.symm.trans hanchor)
    exact hfinite _ (by omega)
  have hpos : ∀ {k : ℕ}, k ≤ 2 ^ 24 → ((0 : Binary32) < .ofNat _ k ↔ 0 < k) := fun hk =>
    Binary.ofNat_lt_ofNat_iff (Nat.zero_le _) hk
  have hgate : s.accepts ⟨.ofNat _ (d * (i / d)), 0⟩ ⟨.ofNat _ (i + 1), 0⟩ = true ↔ d ∣ i + 1 := by
    rw [hsound.accepts_iff ha, Vec.unit_sub hi, Vec.length_ofNat (by omega), hleast, travel,
      if_pos ((hpos hdle).2 hd), hpos (by omega), Binary.ofNat_lt_ofNat_iff (by omega) hdle,
      dvd_succ_iff_mod hd]
    refine ⟨fun h => Nat.le_of_not_lt h.2.2, fun h => ⟨hfinite _ hi, Nat.succ_pos _, ?_⟩⟩
    exact Nat.not_lt_of_le h
  rw [sample, ha, mul_succ_div]
  simp only [hgate]
  split
  · rename_i hdvd
    have hway : i % d + 1 = d := Nat.le_antisymm hlt ((dvd_succ_iff_mod hd).1 hdvd)
    rw [jump, hlimit, Vec.unit_sub hi, hway]
  · rw [← ha]

/-! ### The session -/

namespace Session

variable {s : Session}

/-- In a straight drag that has come to `x = i`, with the offset fixed to ten and the distance `d`:
the anchor is at the last multiple of `d`. -/
structure Spaced (s : Session) (d i : ℕ) : Prop where
  dragging : s.phase = .dragging
  offset_eq : s.settings.offset = 10
  fixed : s.settings.mouseOffset = false
  least_eq : s.sampler.minDistance = .ofNat _ d
  limit_eq : s.sampler.maxDistance = none
  anchor_eq : s.sampler.anchor = some ⟨.ofNat _ (d * (i / d)), 0⟩

/-- A press at the origin starts a straight drag. -/
theorem Reachable.spaced_down (h : s.Reachable) (hdistance : s.settings.distance = .ofNat _ d)
    (hoffset : s.settings.offset = 10) (hfixed : s.settings.mouseOffset = false) :
    (s.down ⟨0, 0⟩).Spaced d 0 where
  dragging := rfl
  offset_eq := hoffset
  fixed := hfixed
  least_eq := h.coherent.minDistance_eq.trans hdistance
  limit_eq := h.coherent.maxDistance_eq
  anchor_eq := by
    have horigin : (⟨0, 0⟩ : Vec).isFinite = true := by decide +kernel
    rw [Nat.zero_div, Nat.mul_zero]
    change (if (⟨0, 0⟩ : Vec).isFinite then some (⟨0, 0⟩ : Vec) else none) = _
    rw [if_pos horigin]
    rfl

/-- **One step of a straight drag** draws one stripe at a multiple of `d`, and none anywhere else. -/
theorem Spaced.move (h : s.Spaced d i) (hd : 1 ≤ d) (hdle : d ≤ 2 ^ 24) (hi : i + 1 ≤ 2 ^ 24) :
    (s.move ⟨.ofNat _ (i + 1), 0⟩).1.length = (if d ∣ i + 1 then 1 else 0) ∧
      (s.move ⟨.ofNat _ (i + 1), 0⟩).2.Spaced d (i + 1) := by
  have hsample := Sampler.sample_unit hd hdle hi h.least_eq h.limit_eq h.anchor_eq
  simp only [Session.move, hsample]
  refine ⟨?_, h.dragging, h.offset_eq, h.fixed, h.least_eq, h.limit_eq, rfl⟩
  split
  · obtain ⟨segment, hstripe⟩ :=
      Settings.exists_stripe_of_whole h.offset_eq h.fixed hd hdle hi
    have hdrag : s.drag ⟨⟨.ofNat _ (i + 1), 0⟩, ⟨.ofNat _ d, 0⟩⟩ = some segment := by
      rw [drag, h.dragging]
      exact hstripe
    simp [hdrag]
  · rfl

end Session

/-! ### The drawing -/

namespace Workspace

variable {w : Workspace}

/-- The drawing of `w'` is that of `w` with `count` more paths at its end, all of them stripes. -/
def AddsStripes (w w' : Workspace) (count : ℕ) : Prop :=
  ∃ added, w'.drawing.paths = w.drawing.paths ++ added ∧ added.length = count ∧
    ∀ path ∈ added, IsStripe w.drawing.defaultStyle path

theorem addsStripes_perform (w : Workspace) (op : Session.Op) :
    w.AddsStripes (w.perform op).2 (w.session.apply op).drawn.length := by
  refine ⟨_, w.drawing_perform op, List.length_map _, fun path hpath => ?_⟩
  obtain ⟨segment, hsegment, rfl⟩ := List.mem_map.1 hpath
  exact isStripe_line (Session.ends_of_mem_drawn hsegment) w.drawing.defaultStyle

/-- Stripes that are added one after the other. -/
theorem AddsStripes.trans {w' w'' : Workspace} {k l : ℕ} (h : w.AddsStripes w' k)
    (hstyle : w'.drawing.defaultStyle = w.drawing.defaultStyle) (h' : w'.AddsStripes w'' l) :
    w.AddsStripes w'' (k + l) := by
  obtain ⟨added, hpaths, hlength, hstripes⟩ := h
  obtain ⟨added', hpaths', hlength', hstripes'⟩ := h'
  refine ⟨added ++ added', ?_, ?_, ?_⟩
  · rw [hpaths', hpaths, List.append_assoc]
  · rw [List.length_append, hlength, hlength']
  · intro path hpath
    rcases List.mem_append.1 hpath with hfirst | hsecond
    · exact hstripes path hfirst
    · exact hstyle ▸ hstripes' path hsecond

/-- **A straight drag goes on** from `x = i` by `n` steps. -/
theorem run_unit_moves (h : w.session.Spaced d i) (hd : 1 ≤ d) (hdle : d ≤ 2 ^ 24)
    (hn : i + n ≤ 2 ^ 24) :
    let moves : List Op := (List.range' (i + 1) n).map fun x => .session (.move ⟨.ofNat _ x, 0⟩)
    (w.run moves).1 = (List.range' (i + 1) n).map (fun x => .count (if d ∣ x then 1 else 0)) ∧
      w.AddsStripes (w.run moves).2 ((i + n) / d - i / d) := by
  induction n generalizing w i with
  | zero =>
      refine ⟨rfl, [], ?_, ?_, by simp⟩
      · exact (List.append_nil _).symm
      · simp
  | succ n ih =>
      obtain ⟨hlength, hspaced⟩ := h.move hd hdle (by omega : i + 1 ≤ 2 ^ 24)
      have hadds := w.addsStripes_perform (.move ⟨.ofNat _ (i + 1), 0⟩)
      have hstyle := w.defaultStyle_apply (.session (.move ⟨.ofNat _ (i + 1), 0⟩))
      obtain ⟨hreplies, hrest⟩ := ih (w := (w.perform (.move ⟨.ofNat _ (i + 1), 0⟩)).2)
        hspaced (by omega)
      change w.AddsStripes _ (w.session.move ⟨.ofNat _ (i + 1), 0⟩).1.length at hadds
      rw [hlength] at hadds
      have hall := hadds.trans hstyle hrest
      have hcount : (if d ∣ i + 1 then 1 else 0) + ((i + 1 + n) / d - (i + 1) / d) =
          (i + (n + 1)) / d - i / d := by
        have hsucc : (i + 1) / d = i / d + if d ∣ i + 1 then 1 else 0 := Nat.succ_div
        have hmono : (i + 1) / d ≤ (i + 1 + n) / d := Nat.div_le_div_right (by omega)
        have hsame : i + 1 + n = i + (n + 1) := by omega
        rw [hsame] at hmono ⊢
        omega
      rw [hcount] at hall
      refine ⟨?_, hall⟩
      rw [List.range'_succ, List.map_cons, List.map_cons, ← hreplies, ← hlength]
      rfl

/-- **One stripe for every multiple of the distance.**  In a session that can be reached, with a whole
number `d` up to `2 ^ 24` for the distance, the default offset, and the offset fixed, let a drag start
at the origin and go on to `(1, 0)`, `(2, 0)` and so on up to `(n, 0)`.  The moves to multiples of `d`
draw one stripe each, and the others draw none, so that `n / d` stripes are added to the drawing. -/
theorem run_straight_drag (hs : w.session.Reachable) (hd : 1 ≤ d) (hdle : d ≤ 2 ^ 24)
    (hn : n ≤ 2 ^ 24) (hdistance : w.session.settings.distance = .ofNat _ d)
    (hoffset : w.session.settings.offset = Settings.default.offset)
    (hfixed : w.session.settings.mouseOffset = false) :
    let ops : List Op := .session (.down ⟨0, 0⟩) ::
      (List.range' 1 n).map fun x => .session (.move ⟨.ofNat _ x, 0⟩)
    (w.run ops).1 =
        .done :: (List.range' 1 n).map (fun x => .count (if d ∣ x then 1 else 0)) ∧
      ∃ added, (w.run ops).2.drawing.paths = w.drawing.paths ++ added ∧ added.length = n / d ∧
        ∀ path ∈ added, IsStripe w.drawing.defaultStyle path := by
  intro ops
  have hspaced := hs.spaced_down hdistance hoffset hfixed
  obtain ⟨hreplies, hadds⟩ := run_unit_moves (w := (w.perform (.down ⟨0, 0⟩)).2) hspaced hd hdle
    (by omega : 0 + n ≤ 2 ^ 24)
  simp only [Nat.zero_add, Nat.zero_div, Nat.sub_zero] at hreplies hadds
  exact ⟨congrArg (Session.Reply.done :: ·) hreplies, hadds⟩

/-- With the distance three, a drag by seven draws two stripes. -/
theorem run_straight_drag_of_three :
    let w : Workspace := ⟨brushSession { distance := 3 }, {}⟩
    let ops : List Op := .session (.down ⟨0, 0⟩) ::
      (List.range' 1 7).map fun x => .session (.move ⟨.ofNat _ x, 0⟩)
    w.session.Reachable ∧ 1 ≤ 3 ∧ 3 ≤ 2 ^ 24 ∧ 7 ≤ 2 ^ 24 ∧
      w.session.settings.distance = .ofNat _ 3 ∧
      w.session.settings.offset = Settings.default.offset ∧
      w.session.settings.mouseOffset = false ∧
      (w.run ops).1 =
        [.done, .count 0, .count 0, .count 1, .count 0, .count 0, .count 1, .count 0] ∧
      (w.run ops).2.drawing.paths.length = 2 := by
  intro w ops
  have hstart : Session.start { distance := 3 } = .ok w.session := rfl
  have hreachable := Session.reachable_of_start hstart
  obtain ⟨hreplies, added, hpaths, hlength, -⟩ :=
    run_straight_drag (w := w) (d := 3) (n := 7) hreachable (by decide) (by decide) (by decide)
      rfl rfl rfl
  refine ⟨hreachable, by decide, by decide, by decide, rfl, rfl, rfl, hreplies, ?_⟩
  rw [hpaths]
  exact hlength

end Workspace

end StripeBrush
