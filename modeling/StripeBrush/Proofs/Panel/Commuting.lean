/-
**Edits that do not get in each other's way.**

What an edit does to a form is told by its outcome: the value that it stored, and the flag that it
set.  And what its outcome is depends on no value of the settings and on no flag but that of its own
widget.  So two edits of different parameters, of which neither disables the widget of the other one,
may be carried out in either order: each of them answers what it would answer alone, whether it is
carried out, refused, or comes to a range that bounds nothing, and in the end the form is the same.
The two may well drive the flag of the same third widget.  But they never both set it, because there
is only one parameter that takes flags, and an edit that sets a flag has stored one.

Main definitions:

* `Form.answer` — what an edit answers;
* `Form.withOutcome`, `Form.settle` — what an outcome, or an answer, does to a form.

Main results:

* `Form.edit_eq` — an edit is its answer and what that does;
* `Form.answer_settle` — **an edit does not change what another one answers**;
* `Form.settle_settle_comm` — what two edits answer can be settled in either order;
* `Form.edits_commute` — **edits that do not disable each other's widgets commute**.
-/

import StripeBrush.Proofs.Panel.Syncing

set_option relaxedAutoImplicit false
set_option autoImplicit false

namespace StripeBrush

namespace Settings

/-- The settings with one value replaced, or as they were where it is of another kind. -/
def put (s : Settings) (p : Param) (v : Value) : Settings := (s.set p v).toOption.getD s

theorem get_put (s : Settings) (p : Param) (v : Value) (q : Param) :
    (s.put p v).get q = if q = p ∧ v.kind = p.kind then v else s.get q := by
  unfold put
  by_cases hkind : v.kind = p.kind
  · obtain ⟨t, ht⟩ := (s.set_eq_ok_iff p v).2 hkind
    have hvalue : ((s.set p v).toOption.getD s).get q = t.get q := by rw [ht]; rfl
    rw [hvalue]
    by_cases hq : q = p
    · rw [if_pos ⟨hq, hkind⟩, hq, get_set_self ht]
    · rw [if_neg fun h => hq h.1, get_set_of_ne ht hq]
  · rw [s.set_of_kind_ne hkind, if_neg fun h => hkind h.2]
    rfl

/-- Values of different parameters can be replaced in either order. -/
theorem put_put_comm (s : Settings) {p q : Param} (h : p ≠ q) (u v : Value) :
    (s.put p u).put q v = (s.put q v).put p u := by
  refine ext_get fun r => ?_
  simp only [get_put]
  by_cases hp : r = p
  · subst hp
    simp [h]
  · simp [hp]

end Settings

namespace Form

variable {form : Form} {outcome outcome' : EditOutcome} {p q : Param} {u v : Value}

/-! ### An edit and its outcome -/

/-- What an edit answers: its outcome, or why it is not carried out. -/
def answer (form : Form) (p : Param) (v : Value) : Except Fault EditOutcome := (form.edit p v).1

/-- The form after an edit with this outcome. -/
def withOutcome (form : Form) (outcome : EditOutcome) : Form :=
  ⟨toggle form.panel outcome, form.settings.put outcome.param outcome.value⟩

/-- The form after an edit with this answer: a failed edit leaves it as it is. -/
def settle (form : Form) : Except Fault EditOutcome → Form
  | .ok outcome => form.withOutcome outcome
  | .error _ => form

theorem answer_eq_ok_iff :
    form.answer p v = .ok outcome ↔ ∃ form', form.edit p v = (.ok outcome, form') :=
  ⟨fun h => ⟨_, Prod.ext h rfl⟩, fun ⟨_, h⟩ => congrArg Prod.fst h⟩

/-- **An edit is its answer and what that does.** -/
theorem edit_eq (hwired : form.panel.Wired) (p : Param) (v : Value) :
    form.edit p v = (form.answer p v, form.settle (form.answer p v)) := by
  unfold answer
  obtain ⟨outcome, form', hedit⟩ | ⟨fault, hedit⟩ := form.edit_cases p v
  · obtain ⟨w, hw, henabled, htakes, hkind⟩ := accepts_of_edit hedit
    obtain ⟨settings, hset, hresult⟩ := edit_of_accepts hwired hw henabled htakes hkind
    rw [hresult]
    simp [settle, withOutcome, Settings.put, report, hset, Except.toOption]
  · rw [hedit]
    rfl

theorem apply_edit (hwired : form.panel.Wired) (p : Param) (v : Value) :
    form.apply (.edit p v) = (.ofEdit (form.answer p v), form.settle (form.answer p v)) := by
  simp only [apply, edit_eq hwired]

@[simp] theorem specs_settle (form : Form) (answer : Except Fault EditOutcome) :
    (form.settle answer).panel.specs = form.panel.specs := by
  cases answer with
  | ok outcome => exact specs_toggle _ _
  | error fault => rfl

/-! ### What outcomes do to each other -/

/-- Outcomes of different parameters can be exchanged, if at most one of them sets a flag. -/
theorem withOutcome_comm (form : Form) (hparam : outcome.param ≠ outcome'.param)
    (h : outcome.toggled = none ∨ outcome'.toggled = none) :
    (form.withOutcome outcome).withOutcome outcome' = (form.withOutcome outcome').withOutcome outcome := by
  have hpanel : toggle (toggle form.panel outcome) outcome' =
      toggle (toggle form.panel outcome') outcome := by
    rcases h with h | h
    · simp [toggle, h]
    · simp [toggle, h]
  simp only [withOutcome, hpanel, Settings.put_put_comm form.settings hparam]

theorem param_eq_of_answer (hwired : form.panel.Wired) (h : form.answer p v = .ok outcome) :
    outcome.param = p := by
  obtain ⟨form', hedit⟩ := answer_eq_ok_iff.1 h
  obtain ⟨w, -, -, -, hedited⟩ := edited_of_edit hwired hedit
  exact hedited.param_eq

theorem eq_mouseOffset_of_toggled (hwired : form.panel.Wired)
    (h : form.answer p v = .ok outcome) (htoggled : outcome.toggled ≠ none) : p = .mouseOffset := by
  obtain ⟨form', hedit⟩ := answer_eq_ok_iff.1 h
  obtain ⟨w, hw, htakes, hkind, hedited⟩ := edited_of_edit hwired hedit
  by_contra hparam
  exact htoggled (toggled_eq_none_of_number hwired hw htakes hkind hparam hedited)

/-- An edit leaves a widget that it does not disable as it is. -/
theorem widget?_withOutcome (hwired : form.panel.Wired) (h : form.answer p u = .ok outcome)
    (hq : ∀ w, form.panel.widget? p = some w → w.spec.effect ≠ .disableWhenChecked q) :
    (form.withOutcome outcome).panel.widget? q = form.panel.widget? q := by
  obtain ⟨form', hedit⟩ := answer_eq_ok_iff.1 h
  obtain ⟨w, hw, -, -, hedited⟩ := edited_of_edit hwired hedit
  change (toggle form.panel outcome).widget? q = _
  unfold toggle
  cases htoggled : outcome.toggled with
  | none => rfl
  | some t =>
      obtain ⟨target, b⟩ := t
      have htarget : q ≠ target := by
        rintro rfl
        exact hq w hw ((hedited.toggled_iff _ _).1 htoggled).1
      simp [Panel.widget?_setFlag, htarget]

/-- **An edit does not change what another one answers**, unless it disables its widget. -/
theorem answer_settle (hwired : form.panel.Wired)
    (hq : ∀ w, form.panel.widget? p = some w → w.spec.effect ≠ .disableWhenChecked q)
    (u v : Value) : (form.settle (form.answer p u)).answer q v = form.answer q v := by
  have hspecs := form.specs_settle (form.answer p u)
  have hwidget : (form.settle (form.answer p u)).panel.widget? q = form.panel.widget? q := by
    cases hanswer : form.answer p u with
    | error fault => rfl
    | ok outcome => exact widget?_withOutcome hwired hanswer hq
  refine edit_congr hwidget (fun r => ?_) v
  rw [Bool.eq_iff_iff, Panel.isSome_widget?_iff, Panel.isSome_widget?_iff, hspecs]

/-- What two edits of different parameters answer can be settled in either order. -/
theorem settle_settle_comm (hwired : form.panel.Wired) (hne : p ≠ q) (u v : Value) :
    (form.settle (form.answer p u)).settle (form.answer q v) =
      (form.settle (form.answer q v)).settle (form.answer p u) := by
  cases hanswer : form.answer p u with
  | error fault => rfl
  | ok outcome =>
      cases hanswer' : form.answer q v with
      | error fault' => rfl
      | ok outcome' =>
          have hparam : outcome.param ≠ outcome'.param := by
            rwa [param_eq_of_answer hwired hanswer, param_eq_of_answer hwired hanswer']
          -- both set a flag only if both are of the parameter that takes flags
          have htoggled : outcome.toggled = none ∨ outcome'.toggled = none := by
            by_contra hboth
            obtain ⟨hset, hset'⟩ := not_or.1 hboth
            exact hne ((eq_mouseOffset_of_toggled hwired hanswer hset).trans
              (eq_mouseOffset_of_toggled hwired hanswer' hset').symm)
          exact form.withOutcome_comm hparam htoggled

/-! ### Two edits -/

/-- Two edits in a row, of which the first one does not disable the widget of the second one. -/
theorem run_edit_edit (h : form.panel.Built)
    (hq : ∀ w, form.panel.widget? p = some w → w.spec.effect ≠ .disableWhenChecked q)
    (u v : Value) :
    form.run [.edit p u, .edit q v] =
      ([(form.apply (.edit p u)).1, (form.apply (.edit q v)).1],
        (form.settle (form.answer p u)).settle (form.answer q v)) := by
  have hafter : (form.settle (form.answer p u)).panel.Wired :=
    (h.of_specs_eq (form.specs_settle _)).wired
  simp only [run, apply_edit h.wired, apply_edit hafter, answer_settle h.wired hq]

/-- **Edits that do not disable each other's widgets commute.**  In a panel that is built, whatever its
flags are, two edits of different parameters each answer what they answer alone, in either order, and
in the end the panel and the settings are the same. -/
theorem edits_commute (form : Form) (h : form.panel.Built) {p q : Param} (hne : p ≠ q) (u v : Value)
    (hp : ∀ w, form.panel.widget? p = some w → w.spec.effect ≠ .disableWhenChecked q)
    (hq : ∀ w, form.panel.widget? q = some w → w.spec.effect ≠ .disableWhenChecked p) :
    ∃ last,
      form.run [.edit p u, .edit q v] =
        ([(form.apply (.edit p u)).1, (form.apply (.edit q v)).1], last) ∧
      form.run [.edit q v, .edit p u] =
        ([(form.apply (.edit q v)).1, (form.apply (.edit p u)).1], last) := by
  refine ⟨_, run_edit_edit h hp u v, ?_⟩
  rw [run_edit_edit h hq v u, settle_settle_comm h.wired hne]

/-- Two checkboxes that disable the same widget, of which one is registered for a number: its edit
fails after the other one and before it. -/
theorem edits_commute_of_two_checkboxes :
    let checkbox : Widget :=
      { spec := { label := "Follow", control := .checkbox, effect := .disableWhenChecked .offset } }
    let form : Form := ⟨⟨"Size", [(.mouseOffset, checkbox), (.distance, checkbox),
      (.offset, { spec := { label := "Size", control := .number } })]⟩, .default⟩
    form.panel.Built ∧ Param.mouseOffset ≠ .distance ∧
      ∃ last,
        form.run [.edit .mouseOffset (.flag true), .edit .distance (.flag true)] =
          ([.edited ⟨.mouseOffset, .flag true, none, some (.offset, false)⟩,
            .failed (.refused (.typeMismatch ⟨.distance, .number⟩))], last) ∧
        form.run [.edit .distance (.flag true), .edit .mouseOffset (.flag true)] =
          ([.failed (.refused (.typeMismatch ⟨.distance, .number⟩)),
            .edited ⟨.mouseOffset, .flag true, none, some (.offset, false)⟩], last) := by
  intro checkbox form
  have hbuilt : form.panel.Built := by
    rw [Panel.built_iff]
    decide
  have hne : Param.mouseOffset ≠ .distance := by decide
  have hfirst : ∀ w, form.panel.widget? .mouseOffset = some w →
      w.spec.effect ≠ .disableWhenChecked .distance := by
    intro w hw
    obtain rfl : checkbox = w := Option.some.inj hw
    decide
  have hsecond : ∀ w, form.panel.widget? .distance = some w →
      w.spec.effect ≠ .disableWhenChecked .mouseOffset := by
    intro w hw
    obtain rfl : checkbox = w := Option.some.inj hw
    decide
  exact ⟨hbuilt, hne, edits_commute form hbuilt hne (.flag true) (.flag true) hfirst hsecond⟩

end Form

end StripeBrush
