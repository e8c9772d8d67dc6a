/-
**Presets as edits.**

A session that is started with a preset is the session that is started with the default settings and
in which the values of the preset are then entered one by one; those that are refused are left out.
The two go different ways: the preset is passed through the widgets all at once, with default values
in place of those that are refused, and the flags are brought in line afterwards; the edits are
carried out one after the other, with their effects.  They meet in any order of the edits in which
the offset comes before the flag that disables it.

Main definitions:

* `brushSession` — the session that some settings give rise to.

Main results:

* `Session.start_eq_brushSession` — what a preset leads to;
* `Session.apply_edit_brushSession` — what an edit leads to;
* `Session.start_eq_activate_edits` — **a preset amounts to editing its values**.
-/

import StripeBrush.Proofs.Session.Runs

set_option relaxedAutoImplicit false
set_option autoImplicit false

namespace StripeBrush

/-- The session that some settings give rise to: no drag is on, the size takes input where it is
fixed, all other widgets do, and the sampler goes by the distance. -/
def brushSession (t : Settings) : Session where
  form := ⟨freshBrushPanel.setFlag .offset (!t.mouseOffset), t⟩
  phase := .idle
  sampler := .ofMinDistance t.distance

namespace Session

variable {preset t : Settings} {p : Param} {value : Value}

/-! ### What a preset leads to -/

/-- Of the brush's widgets, the flag of the size is the only one that depends on the settings. -/
theorem syncEnabled_setFlag (b : Bool) (t : Settings) :
    (freshBrushPanel.setFlag .offset b).syncEnabled t =
      freshBrushPanel.setFlag .offset (!t.mouseOffset) := by
  change (freshBrushPanel.setFlag .offset b).setFlag .offset (!t.mouseOffset) = _
  rw [Panel.setFlag_setFlag]

/-- A preset leads to the session of its values as the widgets store them. -/
theorem start_eq_brushSession (preset : Settings) :
    ∃ t : Settings, (∀ p, t.get p = (brushSpec p).presetValue p (preset.get p)) ∧
      start preset = .ok (brushSession t) := by
  obtain ⟨t, hget, hstart⟩ := start_eq_ok preset
  refine ⟨t, hget, ?_⟩
  have hpanel : (freshBrushPanel.syncEnabled preset).syncEnabled t =
      freshBrushPanel.setFlag .offset (!t.mouseOffset) := by
    change (freshBrushPanel.setFlag .offset (!preset.mouseOffset)).syncEnabled t = _
    rw [syncEnabled_setFlag]
  rw [hstart, hpanel]
  rfl

/-! ### What an edit leads to -/

theorem specs_brushSession (t : Settings) : (brushSession t).form.panel.specs = brushWidgets := by
  simp only [brushSession, Panel.specs_setFlag, specs_freshBrushPanel]

/-- All widgets take input but for the size, which does while it is fixed. -/
theorem enabled?_brushSession (t : Settings) (p : Param) :
    (brushSession t).form.panel.enabled? p = some (p ≠ .offset || !t.mouseOffset) := by
  simp only [brushSession, Panel.enabled?_setFlag]
  cases p <;> rfl

/-- The panel after an edit that was carried out goes with the settings after it. -/
theorem toggle_brushSession {t' : Settings} {stored : Value}
    (h : t.set p stored = .ok t') :
    Form.toggle (brushSession t).form.panel (Form.report p stored (brushSpec p).effect) =
      (brushSession t').form.panel := by
  by_cases hp : p = .mouseOffset
  · subst hp
    cases stored with
    | number x => simp [Settings.set] at h
    | flag b =>
        obtain rfl : t'.mouseOffset = b := Value.flag.inj (Settings.get_set_self h)
        change (freshBrushPanel.setFlag .offset (!t.mouseOffset)).setFlag .offset
          (!t'.mouseOffset) = _
        rw [Panel.setFlag_setFlag]
        rfl
  · have hkept : t'.mouseOffset = t.mouseOffset :=
      Value.flag.inj (Settings.get_set_of_ne h (Ne.symm hp))
    have hnone : (Form.report p stored (brushSpec p).effect).toggled = none := by
      cases p with
      | mouseOffset => exact absurd rfl hp
      | _ => rfl
    simp only [Form.toggle, hnone, brushSession, hkept]

/-- The sampler goes by the distance after an edit, too. -/
theorem forward_brushSession {t' : Settings} {stored : Value} (h : t.set p stored = .ok t') :
    (((Form.report p stored (brushSpec p).effect).minDistance.map
      (brushSession t).sampler.setMinDistance).getD (brushSession t).sampler) =
      (brushSession t').sampler := by
  by_cases hp : p = .distance
  · subst hp
    cases stored with
    | flag b => simp [Settings.set] at h
    | number x =>
        obtain rfl : t'.distance = x := Value.number.inj (Settings.get_set_self h)
        rfl
  · have hkept : t'.distance = t.distance :=
      Value.number.inj (Settings.get_set_of_ne h (Ne.symm hp))
    have hnone : (Form.report p stored (brushSpec p).effect).minDistance = none := by
      cases p with
      | distance => exact absurd rfl hp
      | _ => rfl
    simp only [hnone, Option.map_none, Option.getD_none, brushSession, hkept]

/-- An edit of a widget that takes input stores the value if the widget takes it, and leaves the
session as it is otherwise. -/
theorem apply_edit_brushSession (hkind : value.kind = p.kind)
    (henabled : p = .offset → t.mouseOffset = false) :
    ∃ t' : Settings, ((brushSession t).apply (.edit p value)).session = brushSession t' ∧
      ∀ q, t'.get q = if q = p ∧ (brushSpec p).Takes value then (brushSpec p).stored value
        else t.get q := by
  obtain ⟨w, hw, hspec⟩ := Panel.widget?_of_specs_eq (specs_brushSession t) p
  by_cases htakes : (brushSpec p).Takes value
  · have hflag : w.enabled = true := by
      have h := enabled?_brushSession t p
      simp only [Panel.enabled?, hw, Option.map_some, Option.some.injEq] at h
      rw [h]
      by_cases hp : p = .offset
      · simp [henabled hp]
      · simp [hp]
    obtain ⟨t', hset, hedit⟩ := Form.edit_of_accepts
      (Panel.built_of_specs_eq (specs_brushSession t)).wired hw hflag (hspec ▸ htakes) hkind
    rw [hspec] at hset hedit
    change t.set p ((brushSpec p).stored value) = .ok t' at hset
    refine ⟨t', ?_, fun q => ?_⟩
    · rw [apply_edit_of_ok hedit, forward_brushSession hset, toggle_brushSession hset]
      rfl
    · by_cases hq : q = p
      · subst hq
        rw [if_pos ⟨rfl, htakes⟩]
        exact Settings.get_set_self hset
      · rw [if_neg fun h => hq h.1]
        exact Settings.get_set_of_ne hset hq
  · refine ⟨t, ?_, fun q => by rw [if_neg fun h => htakes h.2]⟩
    obtain ⟨outcome, form', hedit⟩ | ⟨fault, hedit⟩ := (brushSession t).form.edit_cases p value
    · obtain ⟨w', hw', -, htakes', -⟩ := Form.accepts_of_edit hedit
      obtain rfl := Option.some.inj (hw.symm.trans hw')
      exact absurd (hspec ▸ htakes') htakes
    · rw [apply_edit_of_error hedit]

/-! ### Editing all values -/

/-- Entering the values of a preset for some parameters, each of which still has its default value.
The offset is entered only while it takes input: where it is still to come, so is the flag that
disables it. -/
theorem after_edits (preset : Settings) (order : List Param) (hnodup : order.Nodup)
    (hbefore : .offset ∈ order → [.offset, .mouseOffset].Sublist order) (t : Settings)
    (hdefault : ∀ p ∈ order, t.get p = Settings.default.get p) :
    ∃ t' : Settings,
      (brushSession t).after (order.map fun p => .edit p (preset.get p)) = brushSession t' ∧
      ∀ q, t'.get q = if q ∈ order then (brushSpec q).presetValue q (preset.get q)
        else t.get q := by
  induction order generalizing t with
  | nil => exact ⟨t, rfl, fun q => by simp⟩
  | cons p order ih =>
      rw [List.nodup_cons] at hnodup
      have henabled : p = .offset → t.mouseOffset = false := by
        rintro rfl
        have hmem : Param.mouseOffset ∈ .offset :: order :=
          (hbefore (by simp)).subset (by simp)
        exact Value.flag.inj (hdefault _ hmem)
      obtain ⟨u, hu, hget⟩ := apply_edit_brushSession (t := t)
        (Settings.kind_get preset p) henabled
      have hrest : .offset ∈ order → [.offset, .mouseOffset].Sublist order := by
        intro hmem
        have hne : Param.offset ≠ p := fun h => hnodup.1 (h ▸ hmem)
        cases hbefore (List.mem_cons_of_mem _ hmem) with
        | cons _ h => exact h
        | cons_cons _ h => exact absurd rfl hne
      obtain ⟨t', ht', hget'⟩ := ih hnodup.2 hrest u fun q hq => by
        have hne : q ≠ p := fun h => hnodup.1 (h ▸ hq)
        rw [hget, if_neg fun h => hne h.1]
        exact hdefault q (List.mem_cons_of_mem _ hq)
      refine ⟨t', ?_, fun q => ?_⟩
      · rw [List.map_cons, after_cons, hu]
        exact ht'
      · rw [hget']
        by_cases hq : q = p
        · subst hq
          rw [if_neg hnodup.1, if_pos (List.mem_cons_self ..), hget]
          unfold WidgetSpec.presetValue
          by_cases htakes : (brushSpec q).Takes (preset.get q)
          · rw [if_pos ⟨rfl, htakes⟩, if_pos htakes]
          · rw [if_neg fun h => htakes h.2, if_neg htakes]
            exact hdefault q (List.mem_cons_self ..)
        · have hkept : u.get q = t.get q := by rw [hget, if_neg fun h => hq h.1]
          simp [hkept, hq]

theorem start_default : start .default = .ok (brushSession .default) := by
  obtain ⟨t, hget, hstart⟩ := start_eq_brushSession .default
  have hstored : ∀ p, (brushSpec p).presetValue p (Settings.default.get p) =
      Settings.default.get p := by
    intro p
    cases p <;> decide
  have heq : t = .default := Settings.ext_get fun p => (hget p).trans (hstored p)
  rw [hstart, heq]

/-- **A preset amounts to editing its values.**  Starting with the preset gives the same session as
starting with the default settings and entering the values of the preset, refused ones being left
out, in any order in which the offset comes before the flag that disables it. -/
theorem start_eq_activate_edits (preset : Settings) (order : List Param)
    (hall : order.Perm Param.all) (hbefore : [.offset, .mouseOffset].Sublist order) :
    ∃ s₀ s, start .default = .ok s₀ ∧ start preset = .ok s ∧
      s₀.after (order.map fun p => .edit p (preset.get p)) = s := by
  have hmem : ∀ p, p ∈ order := fun p => hall.mem_iff.2 (by cases p <;> decide)
  have hnodup : order.Nodup := hall.nodup_iff.2 (by decide)
  obtain ⟨t, hget, hstart⟩ := start_eq_brushSession preset
  obtain ⟨t', ht', hget'⟩ := after_edits preset order hnodup (fun _ => hbefore) .default
    fun p _ => rfl
  have heq : t' = t := Settings.ext_get fun p => by rw [hget', if_pos (hmem p), hget]
  exact ⟨_, _, start_default, hstart, heq ▸ ht'⟩

/-- So it is for a preset with `NaN`, negative zero, an infinity and the flag set, whose values are
entered beginning with the one that no widget takes. -/
theorem start_eq_activate_edits_of_nan :
    [Param.speedScale, .offset, .distance, .mouseOffset].Perm Param.all ∧
    [Param.offset, .mouseOffset].Sublist [.speedScale, .offset, .distance, .mouseOffset] ∧
    ∃ s₀ s, start .default = .ok s₀ ∧ start ⟨.nan false, .zero _ true, true, .inf true⟩ = .ok s ∧
      s₀.after ([.speedScale, .offset, .distance, .mouseOffset].map fun p => .edit p
        ((⟨.nan false, .zero _ true, true, .inf true⟩ : Settings).get p)) = s :=
  ⟨by decide, by decide, start_eq_activate_edits ⟨.nan false, .zero _ true, true, .inf true⟩
    [.speedScale, .offset, .distance, .mouseOffset] (by decide) (by decide)⟩

end Session

end StripeBrush
