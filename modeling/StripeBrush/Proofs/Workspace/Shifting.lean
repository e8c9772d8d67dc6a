/-
**The place of the canvas in the window.**

The host reports the pointer and the corner of the canvas in coordinates of the window, and a session
only sees the difference of the two.  Where both are integers that are small enough, nothing of this
difference is lost in rounding, and it is the same wherever the canvas sits: moving the canvas and the
pointer by the same integers changes no event of any frame.  So frame by frame the same stripes are
drawn, the same numbers of them are answered, and session and drawing go on alike.

Main definitions:

* `Vec.IntegerWithin` — the coordinates of a point are integers of bounded magnitude;
* `CanvasInput.OnGrid` — so are the pointer and the corner of the canvas in a frame;
* `Vec.shift`, `CanvasInput.shift` — a point, or what a frame reports, moved by integers.

Main results:

* `Vec.shift_sub_shift` — a common shift leaves a difference as it is;
* `CanvasInput.events_shift` — **and so it leaves the events of a frame as they are**;
* `Workspace.run_eq_of_apply_eq` — runs of operations that do the same;
* `Workspace.run_shift` — **a drawing does not depend on where the canvas sits**.
-/

import StripeBrush.Proofs.Binary.Integers
import StripeBrush.Proofs.Workspace.Frames

set_option relaxedAutoImplicit false
set_option autoImplicit false

namespace StripeBrush

variable {t : ℤ × ℤ} {bound : ℕ}

/-! ### Points -/

namespace Vec

variable {v w : Vec}

/-- Both coordinates are integers of magnitude at most `bound`, and neither is negative zero. -/
structure IntegerWithin (bound : ℕ) (v : Vec) : Prop where
  x : v.x.IntegerWithin bound
  y : v.y.IntegerWithin bound

/-- The point with these integers for coordinates. -/
def ofInts (x y : ℤ) : Vec := ⟨.ofInt _ x, .ofInt _ y⟩

theorem x_ofInts (x y : ℤ) : (ofInts x y).x = .ofInt _ x := by
  rw [ofInts]

theorem y_ofInts (x y : ℤ) : (ofInts x y).y = .ofInt _ y := by
  rw [ofInts]

theorem integerWithin_ofInts {x y : ℤ} (hx : x.natAbs ≤ bound) (hy : y.natAbs ≤ bound)
    (hbound : bound ≤ 2 ^ 24) : (ofInts x y).IntegerWithin bound where
  x := by
    rw [x_ofInts]
    exact Binary.integerWithin_ofInt (Format.whole32 (hx.trans hbound)) hx
  y := by
    rw [y_ofInts]
    exact Binary.integerWithin_ofInt (Format.whole32 (hy.trans hbound)) hy

/-- The point moved by integers. -/
def shift (t : ℤ × ℤ) (v : Vec) : Vec := v + ofInts t.1 t.2

theorem add_sub_add (v w z : Vec) :
    v + z - (w + z) = ⟨v.x + z.x - (w.x + z.x), v.y + z.y - (w.y + z.y)⟩ := rfl

/-- A common shift leaves the difference of two points as it is. -/
theorem shift_sub_shift (hv : v.IntegerWithin bound) (hw : w.IntegerWithin bound)
    (hx : t.1.natAbs ≤ bound) (hy : t.2.natAbs ≤ bound) (hbound : 2 * bound ≤ 2 ^ 24) :
    v.shift t - w.shift t = v - w := by
  have hwhole : ∀ n ≤ 2 * bound, Format.binary32.Whole n := fun n hn =>
    Format.whole32 (hn.trans hbound)
  rw [shift, shift, add_sub_add, x_ofInts, y_ofInts,
    Binary.add_ofInt_sub_add_ofInt hv.x hw.x hx hwhole,
    Binary.add_ofInt_sub_add_ofInt hv.y hw.y hy hwhole]
  rfl

end Vec

/-! ### Frames -/

namespace CanvasInput

variable {input : CanvasInput}

/-- The position of the pointer, if it is known, and the corner of the canvas have integers of
magnitude at most `2 ^ 22` for coordinates, none of them negative zero. -/
structure OnGrid (input : CanvasInput) : Prop where
  pos : ∀ pos ∈ input.pos, pos.IntegerWithin (2 ^ 22)
  corner : input.corner.IntegerWithin (2 ^ 22)

/-- The same frame on a canvas that sits elsewhere: pointer and corner are moved alike. -/
def shift (t : ℤ × ℤ) (input : CanvasInput) : CanvasInput :=
  { input with pos := input.pos.map (Vec.shift t), corner := input.corner.shift t }

section Shift

variable (h : input.OnGrid) (hx : t.1.natAbs ≤ 2 ^ 22) (hy : t.2.natAbs ≤ 2 ^ 22)
include h hx hy

theorem localPos_shift : (input.shift t).localPos = input.localPos := by
  simp only [localPos, shift, Option.map_map]
  refine Option.map_congr fun pos hpos => ?_
  exact Vec.shift_sub_shift (h.pos pos hpos) h.corner hx hy (by decide)

/-- **A frame has the same events wherever the canvas sits.** -/
theorem events_shift : (input.shift t).events = input.events := by
  simp only [events, localPos_shift h hx hy]
  rfl

end Shift

end CanvasInput

/-! ### Runs of frames -/

namespace Workspace

/-- A frame acts by its events alone. -/
theorem perform_frame_of_events_eq (w : Workspace) {input input' : CanvasInput}
    (h : input.events = input'.events) : w.perform (.frame input) = w.perform (.frame input') := by
  simp only [perform, Session.apply, h]

/-- Runs of operations that do the same, one by one, in every workspace. -/
theorem run_eq_of_apply_eq {α : Type} {f g : α → Op} {items : List α}
    (h : ∀ a ∈ items, ∀ w : Workspace, w.apply (f a) = w.apply (g a)) (w : Workspace) :
    w.run (items.map f) = w.run (items.map g) := by
  induction items generalizing w with
  | nil => rfl
  | cons a items ih =>
      have hfirst := h a (List.mem_cons_self ..) w
      have hrest := ih fun b hb => h b (List.mem_cons_of_mem a hb)
      simp only [List.map_cons, run, hfirst, hrest]

/-- So does the canvas beside the side panel. -/
theorem frame_of_events_eq {Ui : Type} (kit : Toolkit Ui) (w : Workspace) (ui : Ui)
    {input input' : CanvasInput} (h : input.events = input'.events) :
    w.frame kit ui input = w.frame kit ui input' := by
  simp only [frame, perform_frame_of_events_eq _ h]

/-- Side panel and canvas go on alike on canvases that report the same events. -/
theorem afterFrames_eq_of_events_eq {Ui : Type} (kit : Toolkit Ui) {g : CanvasInput → CanvasInput}
    {frames : List (Ui × CanvasInput)} (h : ∀ f ∈ frames, (g f.2).events = f.2.events)
    (w : Workspace) :
    w.afterFrames kit (frames.map fun f => (f.1, g f.2)) = w.afterFrames kit frames := by
  induction frames generalizing w with
  | nil => rfl
  | cons f frames ih =>
      have hfirst := w.frame_of_events_eq kit f.1 (h f (List.mem_cons_self ..))
      have hrest := ih (fun e he => h e (List.mem_cons_of_mem f he)) (w.frame kit f.1 f.2).2
      simp only [afterFrames, List.map_cons, List.foldl_cons, hfirst] at hrest ⊢
      exact hrest

/-- **A drawing does not depend on where the canvas sits.**  In every frame the pointer and the
corner of the canvas have integer coordinates of magnitude at most `2 ^ 22`; they are moved by the
same two integers of that magnitude in all frames.  Then every frame has the events that it had, and
after any number of frames every event was answered by the same number of stripes, and session and
drawing are the same.  It is so, too, where a side panel of any toolkit is operated in the same
frames. -/
theorem run_shift (w : Workspace) {frames : List CanvasInput} (h : ∀ input ∈ frames, input.OnGrid)
    (hx : t.1.natAbs ≤ 2 ^ 22) (hy : t.2.natAbs ≤ 2 ^ 22) :
    let shifted := frames.map (CanvasInput.shift t)
    shifted.map CanvasInput.events = frames.map CanvasInput.events ∧
    (∀ n, w.run ((shifted.take n).map fun input => .session (.frame input)) =
      w.run ((frames.take n).map fun input => .session (.frame input))) ∧
    ∀ (Ui : Type) (kit : Toolkit Ui) (uis : List Ui) (n : ℕ),
      w.afterFrames kit (uis.zip (shifted.take n)) =
        w.afterFrames kit (uis.zip (frames.take n)) := by
  intro shifted
  have hevents : ∀ input ∈ frames, (input.shift t).events = input.events := fun input hinput =>
    CanvasInput.events_shift (h input hinput) hx hy
  refine ⟨?_, fun n => ?_, fun Ui kit uis n => ?_⟩
  · rw [List.map_map]
    exact List.map_congr_left hevents
  · rw [← List.map_take, List.map_map]
    refine run_eq_of_apply_eq (fun input hinput w => ?_) w
    exact w.perform_frame_of_events_eq (hevents input (List.mem_of_mem_take hinput))
  · have hzip : uis.zip (shifted.take n) =
        (uis.zip (frames.take n)).map fun f => (f.1, f.2.shift t) := by
      rw [← List.map_take, List.zip_map_right]
      rfl
    rw [hzip]
    refine afterFrames_eq_of_events_eq kit (fun f hf => ?_) w
    exact hevents f.2 (List.mem_of_mem_take (List.of_mem_zip hf).2)

/-- So it is for a canvas at the far right of the range that is moved to its left end: a drag by
twelve to the right draws its stripe on both. -/
theorem run_shift_of_far_canvas :
    let w : Workspace := ⟨brushSession .default, {}⟩
    let corner : Vec := .ofInts 4194290 (-7)
    let frames : List CanvasInput := [
      ⟨true, true, false, some (.ofInts 4194292 0), corner⟩,
      ⟨false, true, true, some (.ofInts 4194304 0), corner⟩]
    let t : ℤ × ℤ := (-4194304, 4194304)
    (∀ input ∈ frames, input.OnGrid) ∧ t.1.natAbs ≤ 2 ^ 22 ∧ t.2.natAbs ≤ 2 ^ 22 ∧
      (w.run (((frames.map (CanvasInput.shift t)).take 2).map fun input =>
        .session (.frame input))).2.drawing.paths.length = 1 := by
  intro w corner frames t
  have hcorner : corner.IntegerWithin (2 ^ 22) :=
    Vec.integerWithin_ofInts (by decide) (by decide) (by decide)
  have hgrid : ∀ input ∈ frames, input.OnGrid := by
    have hframe : ∀ (started stopped : Bool) (x : ℤ), x.natAbs ≤ 2 ^ 22 →
        (⟨started, true, stopped, some (.ofInts x 0), corner⟩ : CanvasInput).OnGrid := by
      intro started stopped x hx
      refine ⟨fun pos hpos => ?_, hcorner⟩
      obtain rfl := Option.some.inj hpos
      exact Vec.integerWithin_ofInts hx (by decide) (by decide)
    simp only [frames, List.forall_mem_cons, List.not_mem_nil, false_imp_iff, implies_true, and_true]
    exact ⟨hframe _ _ _ (by decide), hframe _ _ _ (by decide)⟩
  have hx : t.1.natAbs ≤ 2 ^ 22 := by decide
  have hy : t.2.natAbs ≤ 2 ^ 22 := by decide
  refine ⟨hgrid, hx, hy, ?_⟩
  rw [(run_shift w hgrid hx hy).2.1 2]
  decide +kernel

end Workspace

end StripeBrush
