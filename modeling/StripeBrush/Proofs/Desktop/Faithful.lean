/-
**The controls of a desktop can be relied on.**

On the way through a control of the desktop a number is widened, moved into the range and narrowed
again, several times over in a slider.  None of that changes a number that is in the range to begin
with, but for the sign of a zero.  And what a field stores, when its text is read again, differs from
what it shows only where that is a change.

Main results:

* `WideRange.sameValue_moveInto` — a number that is in a range is moved nowhere;
* `NumberField.showsNumber_entry`, `Slider.showsSlider_entry` — what is shown of a number;
* `desktop_faithful` — **the toolkit of the desktop is faithful**.
-/

import StripeBrush.Desktop.Controls
import StripeBrush.Proofs.Binary.Conversion
import StripeBrush.Proofs.Binary.Nonneg
import StripeBrush.Proofs.Controls.Shown

set_option relaxedAutoImplicit false
set_option autoImplicit false

namespace StripeBrush

/-! ### Numbers of the same value -/

namespace Binary.SameValue

variable {F : Format} {x y : Binary F}

theorem of_numEq_of_pos (hF : 0 < F.infIndex) (h : x.numEq y = true) : SameValue x y := by
  cases x with
  | nan s => simp [numEq, key?] at h
  | inf s =>
      cases y with
      | nan t => simp [numEq, key?] at h
      | inf t =>
          obtain rfl : s = t := by
            cases s <;> cases t <;> simp [numEq, key?] at h ⊢ <;> omega
          exact .same _
      | finite t j =>
          have hj := j.isLt
          cases s <;> cases t <;> simp [numEq, key?] at h <;> omega
  | finite s i =>
      have hi := i.isLt
      cases y with
      | nan t => simp [numEq, key?] at h
      | inf t => cases s <;> cases t <;> simp [numEq, key?] at h <;> omega
      | finite t j => exact .of_numEq rfl rfl h

/-- Numbers in both orders have the same value. -/
theorem of_le_of_le (hF : 0 < F.infIndex) (h : x ≤ y) (h' : y ≤ x) : SameValue x y :=
  .of_numEq_of_pos hF (numEq_of_le_of_le h h')

/-- A change of format does not tell zeros apart. -/
theorem convert (h : SameValue x y) {G : Format} (hG : 0 < G.infIndex) :
    SameValue (x.convert G) (y.convert G) := by
  cases h with
  | same => exact .same _
  | nan s t => exact .nan s t
  | zero s t i hi =>
      change SameValue (ofQuanta G s (F.magnitude i * 2 ^ G.scale) (2 ^ F.scale))
        (ofQuanta G t (F.magnitude i * 2 ^ G.scale) (2 ^ F.scale))
      rw [hi, Format.magnitude_zero, Nat.zero_mul]
      exact ofQuanta_zero (i := ⟨0, hG⟩) s t (Nat.two_pow_pos _)

/-- Numbers of the same value are in either order. -/
theorem le (h : SameValue x y) (hx : x.isNaN = false) : x ≤ y := by
  cases h with
  | same => exact le_refl hx
  | nan s t => simp [isNaN] at hx
  | zero s t i hi =>
      refine le_iff_key.2 ⟨0, 0, ?_, ?_, Int.le_refl 0⟩
      · cases s <;> simp [key?, hi]
      · cases t <;> simp [key?, hi]

/-- A number that is at most another one is placed before it, or has the same value. -/
theorem totalKey_le_or (hF : 0 < F.infIndex) (h : x ≤ y) :
    x.totalKey ≤ y.totalKey ∨ SameValue x y := by
  obtain ⟨hx, hy⟩ := isNaN_of_le h
  by_cases hlt : x < y
  · exact .inl (totalKey_lt_of_lt hlt).le
  · exact .inr (.of_le_of_le hF h (le_of_not_lt hx hy hlt))

/-- A number that is at most another one, and not placed before it, has the same value. -/
theorem of_totalKey_le (hF : 0 < F.infIndex) (h : x ≤ y) (hkey : y.totalKey ≤ x.totalKey) :
    SameValue x y := by
  obtain ⟨hx, hy⟩ := isNaN_of_le h
  refine .of_le_of_le hF h (le_of_not_lt hx hy fun hlt => ?_)
  exact absurd (totalKey_lt_of_lt hlt) (Int.not_lt.2 hkey)

end Binary.SameValue

theorem Format.infIndex_pos32 : 0 < binary32.infIndex := by decide

theorem Format.infIndex_pos64 : 0 < binary64.infIndex := by decide

theorem Binary.widen_le_widen {x y : Binary32} (h : x ≤ y) :
    x.convert Format.binary64 ≤ y.convert Format.binary64 := by
  obtain ⟨hx, hy⟩ := isNaN_of_le h
  have hx' := (isNaN_convert Format.binary64 x).trans hx
  have hy' := (isNaN_convert Format.binary64 y).trans hy
  refine le_of_not_lt hy' hx' fun hlt => ?_
  rcases SameValue.totalKey_le_or Format.infIndex_pos32 h with hkey | hsame
  · exact absurd (totalKey_lt_of_lt hlt) (Int.not_lt.2 (totalKey_convert_le Format.binary64 hkey))
  · exact not_lt_of_le (hsame.convert Format.infIndex_pos64 |>.le hx') hlt

/-! ### Ranges -/

namespace WideRange

/-- A number that is in a range is moved nowhere. -/
theorem sameValue_moveInto {r : WideRange} {x : Binary64} (hlo : r.lo ≤ x) (hhi : x ≤ r.hi) :
    (r.moveInto x).SameValue x := by
  have hpos := Format.infIndex_pos64
  -- the ends are in order, but for two zeros
  by_cases hswap : r.hi.totalKey < r.lo.totalKey
  · have hends : r.lo.SameValue r.hi :=
      .of_totalKey_le hpos (Binary.le_trans hlo hhi) hswap.le
    have hends' : r.hi ≤ r.lo := hends.symm.le (Binary.isNaN_of_le hhi).2
    simp only [moveInto, ordered, if_pos hswap]
    split
    · exact .of_le_of_le hpos (Binary.le_trans hends' hlo) hhi
    · split
      · exact .of_le_of_le hpos hlo (Binary.le_trans hhi hends')
      · exact .same x
  · simp only [moveInto, ordered, if_neg hswap]
    split
    · rename_i hkey
      exact .of_totalKey_le hpos hlo hkey
    · split
      · rename_i hkey
        exact (Binary.SameValue.of_totalKey_le hpos hhi hkey).symm
      · exact .same x

end WideRange

/-! ### Controls -/

variable {frame : ControlFrame} {now : Option Focus} {x : Binary32}

namespace NumberField

variable {field : NumberField}

/-- What a field stores is what it shows, but for a text that is read again; and that is not read
unless the number was shown as it is. -/
theorem stored_respond (field : NumberField) (frame : ControlFrame) (now : Option Focus)
    (old : Binary64) :
    (field.respond frame now old).stored = (field.respond frame now old).shown ∨
      old.numEq (field.respond frame now old).shown = true := by
  simp only [respond, draft?]
  split
  · split
    · rename_i h
      exact .inr (by simp at h; exact h.2)
    · exact .inl rfl
  · exact .inl rfl

/-- A number field that reports no change shows the number that it was shown for, whatever the range
and the focus are. -/
theorem showsNumber_entry (field : NumberField) (frame : ControlFrame) (now : Option Focus)
    (x : Binary32) : (field.entry frame now x).1.ShowsNumber field.enabled x := by
  refine ⟨_, rfl, fun hnone => ?_⟩
  have hstored : ((field.respond frame now (x.convert Format.binary64)).stored.convert
      Format.binary32).SameValue x := by
    refine .of_numEq_of_pos Format.infIndex_pos32 ?_
    simpa [entry] using hnone
  rcases field.stored_respond frame now (x.convert Format.binary64) with heq | hsame
  · rwa [heq] at hstored
  · have hwide := (Binary.SameValue.of_numEq_of_pos Format.infIndex_pos64 hsame).symm
    have hnarrow := hwide.convert Format.infIndex_pos32
    rwa [Binary.narrow_widen] at hnarrow

end NumberField

namespace Slider

/-- A slider that reports no change shows the number that it was shown for, and so does its number
field, if the number is in the range. -/
theorem showsSlider_entry {slider : Slider} {r : Range} (hrange : slider.range = r.widen)
    (hx : r.Contains x) (frame : ControlFrame) (now : Option Focus) :
    (slider.entry frame now x).1.ShowsSlider slider.enabled x := by
  have hpos := Format.infIndex_pos64
  have hinitial : (slider.range.moveInto (x.convert Format.binary64)).SameValue
      (x.convert Format.binary64) := by
    rw [hrange]
    exact WideRange.sameValue_moveInto (Binary.widen_le_widen hx.1) (Binary.widen_le_widen hx.2)
  have hnarrow : ∀ {y : Binary64}, y.SameValue (x.convert Format.binary64) →
      (y.convert Format.binary32).SameValue x := by
    intro y hy
    have hconvert := hy.convert Format.infIndex_pos32
    rwa [Binary.narrow_widen] at hconvert
  refine ⟨_, _, rfl, fun hnone => ?_⟩
  obtain ⟨hstood, hkept⟩ : _ ∧ _ := by simpa [entry] using hnone
  have hslider := (Binary.SameValue.of_numEq_of_pos hpos hstood).trans hinitial
  refine ⟨hnarrow hslider, hnarrow ?_⟩
  refine .trans ?_ hslider
  rcases (slider.field _).stored_respond frame now _ with heq | hsame
  · exact heq ▸ .of_numEq_of_pos hpos hkept
  · exact (Binary.SameValue.of_numEq_of_pos hpos hsame).symm

end Slider

/-- **The toolkit of the desktop is faithful.** -/
theorem desktop_faithful : desktop.Faithful where
  label enabled text ui := rfl
  button text ui := rfl
  checkbox enabled checked ui := by
    refine ⟨_, rfl, fun hnone => ?_⟩
    simpa [desktop, DesktopUi.checkbox] using hnone
  slider enabled range x ui hx := Slider.showsSlider_entry rfl hx ui.frame ui.focus
  number enabled speed range x ui _ := NumberField.showsNumber_entry _ ui.frame ui.focus x

end StripeBrush
