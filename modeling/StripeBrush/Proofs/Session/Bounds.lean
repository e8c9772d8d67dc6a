/-
**The numbers of a session stay in their bounds.**

Whatever preset a session is started with, and whatever is done in it, the offset, the distance and
the speed scale are finite and lie in the ranges of their widgets, and the sampler goes by the
distance.  The distance is kept twice, in the settings and in the sampler; both copies are written
when the session starts and whenever the distance is edited, and neither is written otherwise.

Main definitions:

* `Session.InBounds` — the bounds, and that both copies of the distance are the same;
* `Session.Coherent` — what every operation keeps.

Main results:

* `Session.coherent_start`, `Session.Coherent.apply` — it holds at the start, and is kept;
* `Session.inBounds_after` — **the numbers of a session stay in their bounds**.
-/

import StripeBrush.Proofs.Session.Runs

set_option relaxedAutoImplicit false
set_option autoImplicit false

namespace StripeBrush

theorem contains_default {p : Param} {x : Binary32} (hx : Settings.default.get p = .number x)
    {r : Range} (hr : r ∈ (brushSpec p).range) : r.Contains x := by
  cases p with
  | mouseOffset => simp [Settings.get] at hx
  | offset =>
      obtain rfl := Value.number.inj hx
      obtain rfl := Option.some.inj hr
      decide
  | distance =>
      obtain rfl := Value.number.inj hx
      obtain rfl := Option.some.inj hr
      decide
  | speedScale =>
      obtain rfl := Value.number.inj hx
      obtain rfl := Option.some.inj hr
      decide

namespace Session

variable {s : Session}

/-- The numbers of the settings are finite and within their bounds, and the sampler goes by the
distance and does not split jumps. -/
structure InBounds (s : Session) : Prop where
  offset_finite : s.settings.offset.isFinite = true
  offset_bounds : 0 ≤ s.settings.offset ∧ s.settings.offset ≤ 500
  distance_finite : s.settings.distance.isFinite = true
  distance_bounds : 0 ≤ s.settings.distance ∧ s.settings.distance ≤ Binary.maxFinite _
  speedScale_finite : s.settings.speedScale.isFinite = true
  speedScale_bounds : 0 ≤ s.settings.speedScale ∧ s.settings.speedScale ≤ 10
  minDistance_eq : s.sampler.minDistance = s.settings.distance
  maxDistance_eq : s.sampler.maxDistance = none

/-- What every operation of a session keeps: the panel has the widgets of the brush, the numbers are
in their ranges, and the sampler goes by the distance. -/
structure Coherent (s : Session) : Prop where
  specs_eq : s.form.panel.specs = brushWidgets
  within : s.form.WithinRanges
  minDistance_eq : s.sampler.minDistance = s.settings.distance
  maxDistance_eq : s.sampler.maxDistance = none

theorem coherent_start {preset : Settings} (h : start preset = .ok s) : s.Coherent := by
  obtain ⟨settings, hget, hstart⟩ := start_eq_ok preset
  obtain rfl := Except.ok.inj (hstart.symm.trans h)
  have hspecs : ((freshBrushPanel.syncEnabled preset).syncEnabled settings).specs =
      brushWidgets := by
    rw [Panel.specs_syncEnabled, Panel.specs_syncEnabled, specs_freshBrushPanel]
  refine ⟨hspecs, ?_, rfl, rfl⟩
  intro p w x hw hx r hr
  obtain ⟨w', hw', hspec⟩ := Panel.widget?_of_specs_eq hspecs p
  obtain rfl := Option.some.inj (hw.symm.trans hw')
  rw [hspec] at hr
  have hx : (brushSpec p).presetValue p (preset.get p) = .number x := (hget p).symm.trans hx
  unfold WidgetSpec.presetValue at hx
  split at hx
  · rename_i htakes
    exact WidgetSpec.contains_stored htakes hx hr
  · exact contains_default hx hr

/-- Only the widget of the distance forwards its value to the sampler. -/
theorem effect_brushSpec_iff (p : Param) :
    (brushSpec p).effect = .forwardMinDistance ↔ p = .distance := by
  cases p <;> decide

theorem Coherent.edit (h : s.Coherent) {param : Param} {value : Value} {outcome : EditOutcome}
    {form' : Form} (hedit : s.form.edit param value = (.ok outcome, form')) :
    Coherent { s with
      form := form'
      sampler := (outcome.minDistance.map s.sampler.setMinDistance).getD s.sampler } := by
  have hwired := (Panel.built_of_specs_eq h.specs_eq).wired
  obtain ⟨w, hw, htakes, hkind, hedited⟩ := Form.edited_of_edit hwired hedit
  obtain ⟨w', hw', hspec⟩ := Panel.widget?_of_specs_eq h.specs_eq param
  obtain rfl := Option.some.inj (hw.symm.trans hw')
  have hdistance := hedited.get_eq .distance
  refine ⟨hedited.specs_eq.trans h.specs_eq, h.within.edit hwired hedit, ?_, ?_⟩
  · by_cases hp : param = .distance
    · -- the new distance is stored and forwarded
      subst hp
      rw [if_pos rfl] at hdistance
      have hforward : outcome.minDistance = some form'.settings.distance :=
        (hedited.minDistance_iff _).2
          ⟨by rw [hspec, effect_brushSpec_iff], hdistance.symm⟩
      rw [hforward]
      rfl
    · -- neither copy is written
      rw [if_neg (Ne.symm hp)] at hdistance
      have hnone : outcome.minDistance = none := by
        refine hedited.minDistance_eq_none ?_
        rwa [hspec, Ne, effect_brushSpec_iff]
      rw [hnone]
      exact h.minDistance_eq.trans (Value.number.inj hdistance).symm
  · cases outcome.minDistance <;> exact h.maxDistance_eq

theorem Coherent.setFlag (h : s.Coherent) (param : Param) (enabled : Bool) :
    Coherent { s with form := { s.form with panel := s.form.panel.setFlag param enabled } } :=
  ⟨(Panel.specs_setFlag _ _ _).trans h.specs_eq,
    h.within.of_specs_eq (Panel.specs_setFlag _ _ _) rfl, h.minDistance_eq, h.maxDistance_eq⟩

/-- Every operation keeps a session coherent. -/
theorem Coherent.apply (h : s.Coherent) (op : Op) : (s.apply op).session.Coherent := by
  rcases s.apply_cases op with ⟨param, value, outcome, form', -, hedit, hs⟩ |
    ⟨param, enabled, -, -, hs⟩ | hsame
  · rw [hs]
    exact h.edit hedit
  · rw [hs]
    exact h.setFlag param enabled
  · exact ⟨hsame.form_eq ▸ h.specs_eq, hsame.form_eq ▸ h.within,
      by rw [hsame.minDistance_eq, h.minDistance_eq, settings, settings, hsame.form_eq],
      hsame.maxDistance_eq.trans h.maxDistance_eq⟩

/-- Every reachable session is coherent. -/
theorem Reachable.coherent (h : s.Reachable) : s.Coherent :=
  h.induction (fun _ _ hstart => coherent_start hstart) fun _ op h => h.apply op

/-- In a coherent session a number lies in the range of its widget. -/
theorem Coherent.contains (h : s.Coherent) {p : Param} {x : Binary32}
    (hx : s.settings.get p = .number x) {r : Range} (hr : (brushSpec p).range = some r) :
    r.Contains x := by
  obtain ⟨w, hw, hspec⟩ := Panel.widget?_of_specs_eq h.specs_eq p
  exact h.within p w x hw hx r (by rw [hspec, hr]; rfl)

theorem Coherent.inBounds (h : s.Coherent) : s.InBounds := by
  have hoffset := h.contains (p := .offset) rfl rfl
  have hdistance := h.contains (p := .distance) rfl rfl
  have hspeed := h.contains (p := .speedScale) rfl rfl
  have hzero : (0 : Binary32).isFinite = true := by decide
  exact
    { offset_finite := Binary.isFinite_of_le_of_le hzero (by decide) hoffset.1 hoffset.2
      offset_bounds := hoffset
      distance_finite := Binary.isFinite_of_le_of_le hzero (by decide) hdistance.1 hdistance.2
      distance_bounds := hdistance
      speedScale_finite := Binary.isFinite_of_le_of_le hzero (by decide) hspeed.1 hspeed.2
      speedScale_bounds := hspeed
      minDistance_eq := h.minDistance_eq
      maxDistance_eq := h.maxDistance_eq }

/-- **The numbers of a session stay in their bounds**, whatever preset it is started with and
whatever operations follow, carried out or refused. -/
theorem inBounds_after (preset : Settings) (ops : List Op) :
    ∃ s, start preset = .ok s ∧ (s.after ops).InBounds := by
  obtain ⟨settings, -, hstart⟩ := start_eq_ok preset
  exact ⟨_, hstart, (after_induction (fun s op h => h.apply op) (coherent_start hstart) ops).inBounds⟩

end Session

end StripeBrush
