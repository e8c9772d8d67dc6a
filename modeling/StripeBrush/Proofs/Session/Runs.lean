/-
**Runs of a session.**

An operation of a session either edits the form, and forwards what the edit reports to the sampler,
or sets a flag by hand, or is about the pointer; and one that is refused changes nothing.  Pointer
operations touch neither the form nor the limits of the sampler, but only its anchor and the phase
of the drag.

Main definitions:

* `brushSpec` — the description of a parameter's widget in the panel of the brush;
* `Session.SameForm` — two sessions differ at most in the phase and in the anchor.

Main results:

* `Session.start_eq_ok` — **a session can be started with any preset**;
* `Session.apply_cases` — everything that an operation can do;
* `Session.after_induction`, `Session.Reachable.induction` — what every operation keeps, every run
  keeps, and what holds at the start, too, holds of every reachable session.
-/

import StripeBrush.Proofs.Panel.Clamping
import StripeBrush.Session

set_option relaxedAutoImplicit false
set_option autoImplicit false

namespace StripeBrush

/-! ### The panel of the brush -/

theorem freshBrushPanel_built : freshBrushPanel.Built := by
  rw [Panel.built_iff]
  decide

theorem specs_freshBrushPanel : freshBrushPanel.specs = brushWidgets := rfl

theorem bounds_of_mem_brushWidgets : ∀ r ∈ brushWidgets, ∀ range ∈ r.2.range, range.Bounds := by
  decide

namespace Panel

@[simp] theorem specs_foldl_setFlag (flags : List (Param × Bool)) (panel : Panel) :
    (flags.foldl (fun q e => q.setFlag e.1 e.2) panel).specs = panel.specs := by
  induction flags generalizing panel with
  | nil => rfl
  | cons e flags ih => rw [List.foldl_cons, ih, specs_setFlag]

/-- Bringing flags in line with settings changes no description. -/
@[simp] theorem specs_syncEnabled (panel : Panel) (s : Settings) :
    (panel.syncEnabled s).specs = panel.specs :=
  specs_foldl_setFlag _ _

end Panel

/-- Every parameter has a widget in the panel of the brush. -/
theorem isSome_lookup_brushWidgets (p : Param) : (brushWidgets.lookup p).isSome := by
  cases p <;> rfl

/-- The description of the widget of a parameter in the panel of the brush. -/
def brushSpec (p : Param) : WidgetSpec :=
  (brushWidgets.lookup p).get (isSome_lookup_brushWidgets p)

/-- In a panel with the widgets of the brush, whatever its flags are, every parameter has its
widget. -/
theorem Panel.widget?_of_specs_eq {panel : Panel} (h : panel.specs = brushWidgets) (p : Param) :
    ∃ w, panel.widget? p = some w ∧ w.spec = brushSpec p := by
  have hlookup := panel.lookup_specs p
  have hspec : brushWidgets.lookup p = some (brushSpec p) := (Option.some_get _).symm
  rw [h, hspec] at hlookup
  obtain ⟨w, hw, hs⟩ := Option.map_eq_some_iff.1 hlookup.symm
  exact ⟨w, hw, hs⟩

theorem Panel.built_of_specs_eq {panel : Panel} (h : panel.specs = brushWidgets) : panel.Built :=
  freshBrushPanel_built.of_specs_eq (h.trans specs_freshBrushPanel.symm)

theorem Panel.clampedSettings_of_specs_eq {panel : Panel} (h : panel.specs = brushWidgets)
    (s : Settings) :
    ∃ t, panel.clampedSettings s = .ok t ∧
      ∀ p, t.get p = (brushSpec p).presetValue p (s.get p) := by
  have hbounds : ∀ e ∈ panel.widgets, ∀ r ∈ e.2.spec.range, r.Bounds := by
    intro e he
    have hmem : (e.1, e.2.spec) ∈ panel.specs := List.mem_map_of_mem he
    exact bounds_of_mem_brushWidgets _ (h ▸ hmem)
  obtain ⟨t, ht, hget⟩ :=
    Panel.clampedSettings_eq_ok (Panel.built_of_specs_eq h).wired.nodup hbounds s
  refine ⟨t, ht, fun p => ?_⟩
  obtain ⟨w, hw, hs⟩ := Panel.widget?_of_specs_eq h p
  rw [hget, hw, ← hs]
  rfl

/-! ### Starting a session -/

namespace Session

/-- **A session can be started with any preset.**  It holds the values of the preset as the widgets
store them; the flags are in line with them, no drag is on, and the sampler goes by the distance. -/
theorem start_eq_ok (preset : Settings) :
    ∃ settings : Settings,
      (∀ p, settings.get p = (brushSpec p).presetValue p (preset.get p)) ∧
      start preset = .ok {
        form := ⟨(freshBrushPanel.syncEnabled preset).syncEnabled settings, settings⟩
        phase := .idle
        sampler := .ofMinDistance settings.distance } := by
  obtain ⟨t, ht, hget⟩ := Panel.clampedSettings_of_specs_eq
    ((Panel.specs_syncEnabled freshBrushPanel preset).trans specs_freshBrushPanel) preset
  refine ⟨t, hget, ?_⟩
  simp only [start, brushPanel_isOk, ht]
  rfl

/-! ### Operations -/

/-- Two sessions differ at most in the phase of the drag and in the anchor of the sampler. -/
structure SameForm (s s' : Session) : Prop where
  form_eq : s'.form = s.form
  minDistance_eq : s'.sampler.minDistance = s.sampler.minDistance
  maxDistance_eq : s'.sampler.maxDistance = s.sampler.maxDistance

theorem SameForm.refl (s : Session) : s.SameForm s := ⟨rfl, rfl, rfl⟩

theorem SameForm.trans {s s' s'' : Session} (h : s.SameForm s') (h' : s'.SameForm s'') :
    s.SameForm s'' where
  form_eq := h'.form_eq.trans h.form_eq
  minDistance_eq := h'.minDistance_eq.trans h.minDistance_eq
  maxDistance_eq := h'.maxDistance_eq.trans h.maxDistance_eq

theorem sameForm_move (s : Session) (pos : Vec) : s.SameForm (s.move pos).2 := by
  have hsampler : (s.move pos).2.sampler = (s.sampler.sample pos).2 := rfl
  refine ⟨rfl, ?_, ?_⟩ <;> rw [hsampler, Sampler.sample_anchor] <;> split <;> rfl

theorem sameForm_route (s : Session) (event : PointerEvent) : s.SameForm (s.route event).2 := by
  cases event with
  | down pos => exact ⟨rfl, rfl, rfl⟩
  | move pos => exact sameForm_move s pos
  | up => exact ⟨rfl, rfl, rfl⟩

theorem sameForm_routeAll (s : Session) (events : List PointerEvent) :
    s.SameForm (s.routeAll events).2 := by
  induction events generalizing s with
  | nil => exact .refl s
  | cons event events ih => exact (sameForm_route s event).trans (ih _)

/-- An edit that is carried out, and what it forwards to the sampler. -/
theorem apply_edit_of_ok {s : Session} {param : Param} {value : Value} {outcome : EditOutcome}
    {form' : Form} (h : s.form.edit param value = (.ok outcome, form')) :
    s.apply (.edit param value) = {
      reply := .edited outcome
      session := { s with
        form := form'
        sampler := (outcome.minDistance.map s.sampler.setMinDistance).getD s.sampler } } := by
  simp [apply, edit, h, Reply.ofEdit]

theorem apply_edit_of_error {s : Session} {param : Param} {value : Value} {fault : Fault}
    {form' : Form} (h : s.form.edit param value = (.error fault, form')) :
    s.apply (.edit param value) = { reply := .failed fault, session := s } := by
  obtain rfl := Form.eq_of_edit_error h
  simp [apply, edit, h, Reply.ofEdit]

theorem apply_setEnabled (s : Session) (param : Param) (enabled : Bool) :
    s.apply (.setEnabled param enabled) =
      if (s.form.panel.widget? param).isSome then {
        reply := .done
        session := { s with
          form := { s.form with panel := s.form.panel.setFlag param enabled } } }
      else { reply := .failed (.refused (.unknownWidget param)), session := s } := by
  simp only [apply, setEnabled, Form.setEnabled_eq]
  split <;> rfl

/-- Everything that an operation can do: an edit is carried out and forwarded to the sampler, or a
flag is set by hand, or neither the form nor the limits of the sampler change. -/
theorem apply_cases (s : Session) (op : Op) :
    (∃ param value outcome form', op = .edit param value ∧
      s.form.edit param value = (.ok outcome, form') ∧
      (s.apply op).session = { s with
        form := form'
        sampler := (outcome.minDistance.map s.sampler.setMinDistance).getD s.sampler }) ∨
    (∃ param enabled, op = .setEnabled param enabled ∧ (s.form.panel.widget? param).isSome ∧
      (s.apply op).session = { s with
        form := { s.form with panel := s.form.panel.setFlag param enabled } }) ∨
    s.SameForm (s.apply op).session := by
  cases op with
  | edit param value =>
      obtain ⟨outcome, form', hedit⟩ | ⟨fault, hedit⟩ := s.form.edit_cases param value
      · left
        refine ⟨param, value, outcome, form', rfl, hedit, ?_⟩
        rw [apply_edit_of_ok hedit]
      · right; right
        rw [apply_edit_of_error hedit]
        exact .refl s
  | setEnabled param enabled =>
      rw [apply_setEnabled]
      split
      · rename_i hsome
        exact .inr (.inl ⟨param, enabled, rfl, hsome, rfl⟩)
      · exact .inr (.inr (.refl s))
  | down pos => exact .inr (.inr ⟨rfl, rfl, rfl⟩)
  | move pos => exact .inr (.inr (sameForm_move s pos))
  | drag sample => exact .inr (.inr (.refl s))
  | up => exact .inr (.inr ⟨rfl, rfl, rfl⟩)
  | route event => exact .inr (.inr (sameForm_route s event))
  | frame input => exact .inr (.inr (sameForm_routeAll s input.events))

@[simp] theorem after_nil (s : Session) : s.after [] = s := rfl

theorem after_cons (s : Session) (op : Op) (ops : List Op) :
    s.after (op :: ops) = (s.apply op).session.after ops := rfl

/-- What every operation keeps, every run keeps. -/
theorem after_induction {P : Session → Prop} (hstep : ∀ s op, P s → P (s.apply op).session)
    {s : Session} (h : P s) (ops : List Op) : P (s.after ops) := by
  induction ops generalizing s with
  | nil => exact h
  | cons op ops ih => exact ih (hstep s op h)

theorem after_append (s : Session) (ops ops' : List Op) :
    s.after (ops ++ ops') = (s.after ops).after ops' := List.foldl_append ..

/-- What holds at the start and is kept by every operation holds of every reachable session. -/
theorem Reachable.induction {P : Session → Prop} {s : Session} (h : s.Reachable)
    (hstart : ∀ preset s, start preset = .ok s → P s)
    (hstep : ∀ s op, P s → P (s.apply op).session) : P s := by
  obtain ⟨preset, s₀, ops, hs₀, rfl⟩ := h
  exact after_induction hstep (hstart preset s₀ hs₀) ops

theorem reachable_of_start {preset : Settings} {s : Session} (h : start preset = .ok s) :
    s.Reachable := ⟨preset, s, [], h, rfl⟩

theorem Reachable.after {s : Session} (h : s.Reachable) (ops : List Op) :
    (s.after ops).Reachable := by
  obtain ⟨preset, s₀, before, hs₀, rfl⟩ := h
  exact ⟨preset, s₀, before ++ ops, hs₀, (after_append s₀ before ops).symm⟩

end Session

end StripeBrush
