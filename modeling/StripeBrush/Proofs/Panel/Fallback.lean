/-
**Settings that are passed through a panel more than once.**

No widget takes an infinite number or `NaN`.  In settings that are passed through a panel such a
value becomes the default of its parameter, and this default is not moved into the range of the
widget.  So afterwards every number that has a widget for numbers is finite, but it *strays* from the
range where the range leaves out the default.  Passing the settings through the panel once more moves
it into the range, and then nothing changes any more.

Main definitions:

* `Range.Proper` — the range lies between two finite numbers;
* `WidgetSpec.Strays` — a value becomes a default that is not in the range.

Main results:

* `WidgetSpec.presetValue_presetValue_eq_iff` — a value is settled at once unless it strays;
* `WidgetSpec.presetValue_settles` — **every value is settled the second time**;
* `Panel.clampedSettings_settles` — the same for all values of the settings;
* `Panel.clampedSettings_offset_strays` — a panel whose range leaves out the default.
-/

import StripeBrush.Proofs.Panel.Clamping

set_option relaxedAutoImplicit false
set_option autoImplicit false

namespace StripeBrush

namespace Range

variable {r : Range} {x : Binary32}

/-- A range between two finite numbers. -/
structure Proper (r : Range) : Prop where
  lo_finite : r.lo.isFinite = true
  hi_finite : r.hi.isFinite = true
  bounds : r.Bounds

instance (r : Range) : Decidable r.Proper :=
  decidable_of_iff (r.lo.isFinite = true ∧ r.hi.isFinite = true ∧ r.Bounds)
    ⟨fun ⟨hlo, hhi, hbounds⟩ => ⟨hlo, hhi, hbounds⟩, fun h => ⟨h.lo_finite, h.hi_finite, h.bounds⟩⟩

theorem Contains.isFinite (h : r.Contains x) (hr : r.Proper) : x.isFinite = true :=
  Binary.isFinite_of_le_of_le hr.lo_finite hr.hi_finite h.1 h.2

theorem nearest_of_contains (h : r.Contains x) : r.nearest x = x := by
  rw [nearest, if_neg (Binary.not_lt_of_le h.1), if_neg (Binary.not_lt_of_le h.2)]

end Range

theorem isFinite_default {p : Param} {x : Binary32} (h : Settings.default.get p = .number x) :
    x.isFinite = true := by
  cases p with
  | mouseOffset => simp [Settings.get] at h
  | _ =>
      obtain rfl := Value.number.inj h
      decide

/-! ### One value -/

namespace WidgetSpec

variable {spec : WidgetSpec} {param : Param} {value : Value} {x : Binary32} {r : Range}

/-- The value is a number, and the range of a widget for numbers leaves it out. -/
def LeavesOut (spec : WidgetSpec) (value : Value) : Prop :=
  spec.control ≠ .checkbox ∧ ∃ x, value = .number x ∧ ∃ r ∈ spec.range, ¬ r.Contains x

/-- The value is infinite or `NaN`, so that it becomes the default, and a widget for numbers leaves
this out. -/
def Strays (spec : WidgetSpec) (param : Param) (value : Value) : Prop :=
  (∃ x, value = .number x ∧ x.isFinite = false) ∧ spec.LeavesOut (Settings.default.get param)

theorem presetValue_of_takes (h : spec.Takes value) :
    spec.presetValue param value = spec.stored value := if_pos h

theorem presetValue_of_not_takes (h : ¬ spec.Takes value) :
    spec.presetValue param value = Settings.default.get param := if_neg h

theorem Strays.not_takes (h : spec.Strays param value) : ¬ spec.Takes value := by
  obtain ⟨⟨x, rfl, hx⟩, -⟩ := h
  rintro ⟨-, hfinite, -⟩
  rw [hx] at hfinite
  exact absurd hfinite (by decide)

theorem kind_of_default (hkind : value.kind = param.kind)
    (hx : Settings.default.get param = .number x) : value.kind = .number := by
  rw [hkind, ← Settings.kind_get Settings.default, hx]
  rfl

/-- A widget for numbers gives up no value but an infinite number or `NaN`. -/
theorem exists_not_finite (hproper : ∀ r ∈ spec.range, r.Proper) (hcontrol : spec.control ≠ .checkbox)
    (hkind : value.kind = .number) (h : ¬ spec.Takes value) :
    ∃ x, value = .number x ∧ x.isFinite = false := by
  cases value with
  | flag b => simp [Value.kind] at hkind
  | number x =>
      refine ⟨x, rfl, ?_⟩
      cases hx : x.isFinite with
      | false => rfl
      | true => exact absurd ⟨hcontrol, hx, fun r hr => (hproper r hr).bounds⟩ h

theorem Takes.stored (h : spec.Takes value) (hproper : ∀ r ∈ spec.range, r.Proper) :
    spec.Takes (spec.stored value) := by
  cases value with
  | flag b => exact h
  | number x =>
      refine ⟨h.1, ?_, h.2.2⟩
      cases hr : spec.range with
      | none => exact h.2.1
      | some r =>
          have hmem : r ∈ spec.range := hr
          exact (Range.contains_nearest (hproper r hmem).bounds h.2.1).isFinite (hproper r hmem)

/-- A number of the range is stored as it is. -/
theorem stored_of_contains (h : ∀ x, value = .number x → ∀ r ∈ spec.range, r.Contains x) :
    spec.stored value = value :=
  stored_eq_self_of_nearest fun x hx r hr => Range.nearest_of_contains (h x hx r hr)

theorem presetValue_stored (h : spec.Takes value) (hproper : ∀ r ∈ spec.range, r.Proper) :
    spec.presetValue param (spec.stored value) = spec.stored value := by
  rw [presetValue_of_takes (h.stored hproper)]
  exact stored_of_contains fun x hx r hr => contains_stored h hx hr

/-- The default is kept unless the widget leaves it out. -/
theorem presetValue_default_eq_iff (hproper : ∀ r ∈ spec.range, r.Proper) :
    spec.presetValue param (Settings.default.get param) = Settings.default.get param ↔
      ¬ spec.LeavesOut (Settings.default.get param) := by
  by_cases h : spec.Takes (Settings.default.get param)
  · rw [presetValue_of_takes h]
    constructor
    · rintro hkept ⟨-, d, hd, r, hr, hout⟩
      exact hout (contains_stored h (hkept.trans hd) hr)
    · intro hin
      refine stored_of_contains fun d hd r hr => ?_
      rw [hd] at h
      exact Decidable.byContradiction fun hout => hin ⟨h.1, d, hd, r, hr, hout⟩
  · rw [presetValue_of_not_takes h]
    refine ⟨?_, fun _ => rfl⟩
    rintro - ⟨hcontrol, d, hd, -⟩
    rw [hd] at h
    exact h ⟨hcontrol, isFinite_default hd, fun r hr => (hproper r hr).bounds⟩

/-- A value is settled at once unless it strays. -/
theorem presetValue_presetValue_eq_iff (hproper : ∀ r ∈ spec.range, r.Proper)
    (hkind : value.kind = param.kind) :
    spec.presetValue param (spec.presetValue param value) = spec.presetValue param value ↔
      ¬ spec.Strays param value := by
  by_cases h : spec.Takes value
  · rw [presetValue_of_takes h, presetValue_stored h hproper]
    exact ⟨fun _ hstrays => hstrays.not_takes h, fun _ => rfl⟩
  · rw [presetValue_of_not_takes h, presetValue_default_eq_iff hproper]
    refine not_congr ⟨fun hout => ⟨?_, hout⟩, fun hstrays => hstrays.2⟩
    obtain ⟨hcontrol, d, hd, -⟩ := hout
    exact exists_not_finite hproper hcontrol (kind_of_default hkind hd) h

/-- **Every value is settled the second time.** -/
theorem presetValue_settles (hproper : ∀ r ∈ spec.range, r.Proper) (param : Param) (value : Value) :
    let settled := spec.presetValue param (spec.presetValue param value)
    spec.presetValue param settled = settled := by
  intro settled
  by_cases h : spec.Takes (spec.presetValue param value)
  · have hsettled : settled = spec.stored (spec.presetValue param value) := presetValue_of_takes h
    rw [hsettled, presetValue_stored h hproper]
  · have hsettled : settled = Settings.default.get param := presetValue_of_not_takes h
    by_cases htakes : spec.Takes value
    · rw [presetValue_of_takes htakes] at h
      exact absurd (htakes.stored hproper) h
    · rw [presetValue_of_not_takes htakes] at h
      rw [hsettled, presetValue_of_not_takes h]

theorem isFinite_of_presetValue (hproper : ∀ r ∈ spec.range, r.Proper)
    (hx : spec.presetValue param value = .number x) : x.isFinite = true := by
  by_cases h : spec.Takes value
  · rw [presetValue_of_takes h] at hx
    have htakes := h.stored hproper
    rw [hx] at htakes
    exact htakes.2.1
  · rw [presetValue_of_not_takes h] at hx
    exact isFinite_default hx

/-- It is in the range unless it strays. -/
theorem contains_of_presetValue (hproper : ∀ r ∈ spec.range, r.Proper)
    (hcontrol : spec.control ≠ .checkbox) (hkind : value.kind = param.kind)
    (hx : spec.presetValue param value = .number x) (hstrays : ¬ spec.Strays param value)
    (hr : r ∈ spec.range) : r.Contains x := by
  by_cases h : spec.Takes value
  · rw [presetValue_of_takes h] at hx
    exact contains_stored h hx hr
  · rw [presetValue_of_not_takes h] at hx
    refine Decidable.byContradiction fun hout => hstrays ⟨?_, hcontrol, x, hx, r, hr, hout⟩
    exact exists_not_finite hproper hcontrol (kind_of_default hkind hx) h

end WidgetSpec

/-! ### All values -/

namespace Panel

variable {panel : Panel} {p : Param} {spec : WidgetSpec}

theorem exists_widget?_of_mem_specs (hnodup : (panel.widgets.map Prod.fst).Nodup)
    (h : (p, spec) ∈ panel.specs) : ∃ w, panel.widget? p = some w ∧ w.spec = spec := by
  obtain ⟨⟨q, w⟩, hmem, heq⟩ := List.mem_map.1 h
  obtain ⟨rfl, rfl⟩ := Prod.mk.inj heq
  exact ⟨w, lookup_eq_some_of_mem hnodup hmem, rfl⟩

/-- Passing settings through a panel is passing each value through its widget, as far as it has
one. -/
theorem exists_clampedSettings (h : panel.Built)
    (hranges : ∀ r ∈ panel.specs, ∀ range ∈ r.2.range, range.Bounds) (s : Settings) :
    ∃ t, panel.clampedSettings s = .ok t ∧
      (∀ r ∈ panel.specs, t.get r.1 = r.2.presetValue r.1 (s.get r.1)) ∧
      ∀ p, p ∉ panel.specs.map Prod.fst → t.get p = s.get p := by
  have hnodup := h.wired.nodup
  have hbounds : ∀ e ∈ panel.widgets, ∀ r ∈ e.2.spec.range, r.Bounds :=
    fun e he => hranges (e.1, e.2.spec) (List.mem_map_of_mem he)
  obtain ⟨t, ht, hget⟩ := clampedSettings_eq_ok hnodup hbounds s
  refine ⟨t, ht, ?_, ?_⟩
  · rintro ⟨p, spec⟩ hr
    obtain ⟨w, hw, rfl⟩ := exists_widget?_of_mem_specs hnodup hr
    rw [hget, hw]
    rfl
  · intro p hp
    have hnone : panel.widget? p = none := by
      rw [← Option.not_isSome_iff_eq_none, isSome_widget?_iff]
      exact hp
    rw [hget, hnone]
    rfl

/-- Settings that differ in no value with a widget, and in none without, are equal. -/
theorem eq_of_get_specs {t u : Settings} (hget : ∀ r ∈ panel.specs, u.get r.1 = t.get r.1)
    (hkeep : ∀ p, p ∉ panel.specs.map Prod.fst → u.get p = t.get p) : u = t := by
  refine Settings.ext_get fun p => ?_
  by_cases hp : p ∈ panel.specs.map Prod.fst
  · obtain ⟨r, hr, rfl⟩ := List.mem_map.1 hp
    exact hget r hr
  · exact hkeep p hp

/-- **Settings are settled when they pass through a panel for the second time.**  In a panel that is
built, whatever its flags are, and whose ranges lie between finite numbers, settings can always be
passed through.  Then a number that has a widget for numbers is finite, and it is in the range of
the widget unless it strays, which makes it the default; values without a widget are kept.  A second
time changes nothing exactly if no value strayed, and a third time never does. -/
theorem clampedSettings_settles (panel : Panel) (h : panel.Built)
    (hranges : ∀ r ∈ panel.specs, ∀ range ∈ r.2.range, range.Proper) (s : Settings) :
    ∃ t u, panel.clampedSettings s = .ok t ∧
      (∀ r ∈ panel.specs, r.2.control ≠ .checkbox → ∀ x, t.get r.1 = .number x →
        x.isFinite = true ∧
        (¬ r.2.Strays r.1 (s.get r.1) → ∀ range ∈ r.2.range, range.Contains x) ∧
        (r.2.Strays r.1 (s.get r.1) → t.get r.1 = Settings.default.get r.1)) ∧
      (∀ p, p ∉ panel.specs.map Prod.fst → t.get p = s.get p) ∧
      panel.clampedSettings t = .ok u ∧
      (u = t ↔ ∀ r ∈ panel.specs, ¬ r.2.Strays r.1 (s.get r.1)) ∧
      panel.clampedSettings u = .ok u := by
  have hbounds : ∀ r ∈ panel.specs, ∀ range ∈ r.2.range, range.Bounds :=
    fun r hr range hrange => (hranges r hr range hrange).bounds
  obtain ⟨t, ht, hgett, hkeept⟩ := exists_clampedSettings h hbounds s
  obtain ⟨u, hu, hgetu, hkeepu⟩ := exists_clampedSettings h hbounds t
  obtain ⟨v, hv, hgetv, hkeepv⟩ := exists_clampedSettings h hbounds u
  refine ⟨t, u, ht, ?_, hkeept, hu, ?_, ?_⟩
  · intro r hr hcontrol x hx
    rw [hgett r hr] at hx
    refine ⟨WidgetSpec.isFinite_of_presetValue (hranges r hr) hx, ?_, ?_⟩
    · intro hstrays range hrange
      exact WidgetSpec.contains_of_presetValue (hranges r hr) hcontrol (Settings.kind_get s r.1) hx
        hstrays hrange
    · intro hstrays
      rw [hgett r hr, WidgetSpec.presetValue_of_not_takes hstrays.not_takes]
  · have hone : ∀ r ∈ panel.specs, u.get r.1 = t.get r.1 ↔ ¬ r.2.Strays r.1 (s.get r.1) := by
      intro r hr
      rw [hgetu r hr, hgett r hr]
      exact WidgetSpec.presetValue_presetValue_eq_iff (hranges r hr) (Settings.kind_get s r.1)
    constructor
    · rintro rfl r hr
      exact (hone r hr).1 rfl
    · intro hnone
      exact eq_of_get_specs (fun r hr => (hone r hr).2 (hnone r hr)) hkeepu
  · have htwo : ∀ r ∈ panel.specs, v.get r.1 = u.get r.1 := by
      intro r hr
      rw [hgetv r hr, hgetu r hr, hgett r hr]
      exact WidgetSpec.presetValue_settles (hranges r hr) r.1 (s.get r.1)
    rw [hv, eq_of_get_specs htwo hkeepv]

/-- So it is for a panel of two widgets and settings none of whose numbers is finite: the offset
strays to its default and is moved into the range the second time, the speed scale becomes a default
that is in its range, and the distance, which has no widget, stays infinite. -/
theorem clampedSettings_settles_of_two_widgets :
    let panel : Panel := ⟨"Two", [
      (.offset, { spec := ⟨"Size", .number, some ⟨0, 5⟩, .store⟩ }),
      (.speedScale, { spec := ⟨"Speed scale", .slider, some ⟨0, 10⟩, .store⟩ })]⟩
    let s : Settings := { offset := .nan false, distance := .inf true, speedScale := .inf false }
    panel.Built ∧ (∀ r ∈ panel.specs, ∀ range ∈ r.2.range, range.Proper) ∧
      ∃ t u, panel.clampedSettings s = .ok t ∧ panel.clampedSettings t = .ok u ∧
        t.offset = 10 ∧ t.distance = .inf true ∧ t.speedScale = 1.5 ∧
        u ≠ t ∧ u.offset = 5 ∧ panel.clampedSettings u = .ok u := by
  intro panel s
  have hbuilt : panel.Built := by
    rw [built_iff]
    decide
  have hranges : ∀ r ∈ panel.specs, ∀ range ∈ r.2.range, range.Proper := by decide
  obtain ⟨t, u, ht, -, -, hu, hsame, hlast⟩ := clampedSettings_settles panel hbuilt hranges s
  have hstrays : ¬ ∀ r ∈ panel.specs, ¬ r.2.Strays r.1 (s.get r.1) := by
    intro hnone
    exact hnone (.offset, ⟨"Size", .number, some ⟨0, 5⟩, .store⟩) (List.mem_cons_self ..)
      ⟨⟨.nan false, rfl, rfl⟩, by decide, 10, rfl, ⟨0, 5⟩, rfl, by decide⟩
  have hfirst : t = { offset := 10, distance := .inf true, speedScale := 1.5 } :=
    Except.ok.inj (ht.symm.trans rfl)
  subst hfirst
  have hsecond : u = { offset := 5, distance := .inf true, speedScale := 1.5 } :=
    Except.ok.inj (hu.symm.trans rfl)
  exact ⟨hbuilt, hranges, _, u, ht, hu, rfl, rfl, rfl, fun heq => hstrays (hsame.1 heq),
    congrArg Settings.offset hsecond, hlast⟩

/-- A number that has a widget need not be in its range after one pass, and a second pass may change
the settings: where the range of the size ends at five, an offset of `NaN` becomes ten. -/
theorem clampedSettings_offset_strays :
    let registrations : List Registration := [
      (.offset, { label := "Size", control := .number, range := some ⟨0, 5⟩ })]
    let s : Settings := { offset := .nan false }
    (∀ r ∈ registrations, ∀ range ∈ r.2.range, range.Proper) ∧
      ∃ panel t, build "T" registrations = .ok panel ∧ panel.clampedSettings s = .ok t ∧
        t.get .offset = .number 10 ∧ ¬ (⟨0, 5⟩ : Range).Contains 10 ∧
        panel.clampedSettings t ≠ .ok t := by
  intro registrations s
  refine ⟨by decide, _, _, rfl, rfl, rfl, by decide, ?_⟩
  intro hkept
  have hmoved : (5 : Binary32) = 10 := congrArg Settings.offset (Except.ok.inj hkept)
  exact absurd hmoved (by decide)

end Panel

end StripeBrush
