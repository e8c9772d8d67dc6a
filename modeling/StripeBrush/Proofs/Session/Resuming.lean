/-
**Taking a session up again.**

The settings that a session hands back are a preset like any other one, and a preset is passed
through the widgets when a session is started with it.  But nothing is left to be moved: whatever a
session was started with, and whatever was done in it, its numbers are finite and in the ranges of
their widgets, and the widgets keep such values as they are, a negative zero included.  So the
session that is taken up again has the same settings bit for bit.

Nothing else of the session before survives.  Flags that were set by hand and a drag that was not
finished are gone: what is left is the session that these settings give rise to.

Main results:

* `Session.Coherent.takes_get` — the widgets take every value that a session holds;
* `Session.Coherent.presetValue_get` — and keep it as it is;
* `Session.Coherent.start_finish` — **a session is taken up again with its own settings**;
* `Session.start_finish_after` — whatever went on before.
-/

import StripeBrush.Proofs.Panel.Fallback
import StripeBrush.Proofs.Session.Activation
import StripeBrush.Proofs.Session.Bounds

set_option relaxedAutoImplicit false
set_option autoImplicit false

namespace StripeBrush.Session

variable {s : Session}

theorem bounds_range_brushSpec (p : Param) : ∀ r ∈ (brushSpec p).range, r.Bounds := by
  cases p <;> decide

/-- The widgets take every value that a coherent session holds. -/
theorem Coherent.takes_get (h : s.Coherent) (p : Param) :
    (brushSpec p).Takes (s.settings.get p) := by
  have hbounds := bounds_range_brushSpec p
  cases p with
  | offset => exact ⟨by decide, h.inBounds.offset_finite, hbounds⟩
  | distance => exact ⟨by decide, h.inBounds.distance_finite, hbounds⟩
  | mouseOffset => rfl
  | speedScale => exact ⟨by decide, h.inBounds.speedScale_finite, hbounds⟩

/-- A value that a coherent session holds is kept as it is in a preset. -/
theorem Coherent.presetValue_get (h : s.Coherent) (p : Param) :
    (brushSpec p).presetValue p (s.settings.get p) = s.settings.get p := by
  rw [WidgetSpec.presetValue_of_takes (h.takes_get p)]
  refine WidgetSpec.stored_of_contains ?_
  intro x hx r hr
  exact h.contains hx hr

/-- **A session is taken up again with its own settings**, and with nothing else. -/
theorem Coherent.start_finish (h : s.Coherent) : start s.finish = .ok (brushSession s.finish) := by
  obtain ⟨t, hget, hstart⟩ := start_eq_brushSession s.finish
  have ht : t = s.finish := by
    refine Settings.ext_get ?_
    intro p
    rw [hget]
    exact h.presetValue_get p
  rw [hstart, ht]

/-- **What a session hands back starts it again**, whatever preset it was started with and whatever
operations followed.  The session that is taken up has the settings that were handed back, bit for
bit, and its sampler goes by their distance; the size takes input where it is fixed, and all other
widgets do, whatever flags were set by hand; and no drag is on. -/
theorem start_finish_after (preset : Settings) (ops : List Op) :
    ∃ s, start preset = .ok s ∧ ∃ resumed, start (s.after ops).finish = .ok resumed ∧
      resumed.settings = (s.after ops).finish ∧
      resumed.sampler.minDistance = resumed.settings.distance ∧
      resumed.form.panel.enabled? .offset = some (!resumed.settings.mouseOffset) ∧
      (∀ p, p ≠ .offset → resumed.form.panel.enabled? p = some true) ∧
      resumed.phase = .idle ∧ resumed.sampler.isActive = false := by
  obtain ⟨t, -, hstart⟩ := start_eq_brushSession preset
  have hcoherent : ((brushSession t).after ops).Coherent :=
    ((reachable_of_start hstart).after ops).coherent
  refine ⟨_, hstart, _, hcoherent.start_finish, rfl, rfl, ?_, ?_, rfl, rfl⟩
  · rw [enabled?_brushSession]
    rfl
  · intro p hp
    rw [enabled?_brushSession]
    simp [hp]

/-- So it is after a preset with a negative zero, a flag that was set by hand and a drag that was not
finished. -/
example :
    let s := brushSession ⟨.zero _ true, 10, true, 1.5⟩
    let t := s.after [.setEnabled .speedScale false, .down ⟨3, 4⟩]
    t.sampler.isActive = true ∧ start t.finish = .ok s :=
  ⟨by decide +kernel, rfl⟩

end StripeBrush.Session
