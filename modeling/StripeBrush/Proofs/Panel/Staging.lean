/-
**Edits that fail leave the form as it was.**

The tests of an edit read the form and write nothing, and what comes after the last test cannot fail.
So wherever an edit stops, at a widget that is not there or takes no input, at the value, at the kind
of the parameter, or at the widget that its effect would disable, the form is the one that it started
with.  Nothing in the type of an action says so: a failure gives the form back as it then is, with
all that was written on the way.

Main definitions:

* `Form.Reads` — an action that writes nothing;
* `Form.Restores` — an action that gives the form back as it was, if it fails.

Main results:

* `Form.restores_bind` — reading before a step adds no way of failing half-way;
* `Form.restores_editing` — **an edit that fails leaves the form as it was**;
* `Form.steps_of_edit` — what an edit that is carried out has gone through.
-/

import StripeBrush.Panel.Form

set_option relaxedAutoImplicit false
set_option autoImplicit false

namespace StripeBrush

namespace Form

variable {α β : Type} {x : Action α} {k : α → Action β} {form form' : Form} {param : Param}
  {value : Value} {stored : Value} {outcome : EditOutcome}

/-! ### Actions -/

@[simp] theorem exec_pure (form : Form) (a : α) : form.exec (pure a : Action α) = (.ok a, form) :=
  rfl

@[simp] theorem exec_throw (form : Form) (fault : Fault) :
    form.exec (throw fault : Action α) = (.error fault, form) := rfl

theorem exec_get_bind (form : Form) (k : Form → Action β) :
    form.exec (get >>= k) = form.exec (k form) := rfl

/-- Of two actions the second one starts at the form that the first one gives back, and only if that
one has not failed. -/
theorem exec_bind (form : Form) (x : Action α) (k : α → Action β) :
    form.exec (x >>= k) = match form.exec x with
      | (.ok a, form₁) => form₁.exec (k a)
      | (.error fault, form₁) => (.error fault, form₁) := by
  simp only [exec, ExceptT.run_bind, StateT.run_bind]
  obtain ⟨result, form₁⟩ := x.run.run form
  cases result <;> rfl

/-- The action writes nothing, whether it fails or not. -/
def Reads (x : Action α) : Prop := ∀ form : Form, (form.exec x).2 = form

/-- The action gives the form back as it was, if it fails. -/
def Restores (x : Action α) : Prop :=
  ∀ (form : Form) (fault : Fault) (form' : Form), form.exec x = (.error fault, form') →
    form' = form

theorem Reads.exec_eq (h : Reads x) (form : Form) : form.exec x = ((form.exec x).1, form) :=
  Prod.ext rfl (h form)

/-- Reading before a step adds no way of failing half-way. -/
theorem restores_bind (hx : Reads x) (hk : ∀ a, Restores (k a)) : Restores (x >>= k) := by
  intro form fault form' hrun
  rw [exec_bind, hx.exec_eq] at hrun
  cases hresult : (form.exec x).1 with
  | error fault' =>
      rw [hresult] at hrun
      exact (Prod.mk.inj hrun).2.symm
  | ok a =>
      rw [hresult] at hrun
      exact hk a form fault form' hrun

/-- An action that cannot fail has nothing to give back. -/
theorem restores_of_ok (h : ∀ form : Form, ∃ a form', form.exec x = (.ok a, form')) : Restores x := by
  intro form fault form' hrun
  obtain ⟨a, form'', hok⟩ := h form
  simp [hok] at hrun

theorem bind_eq_ok_iff (hx : Reads x) {b : β} :
    form.exec (x >>= k) = (.ok b, form') ↔
      ∃ a, (form.exec x).1 = .ok a ∧ form.exec (k a) = (.ok b, form') := by
  rw [exec_bind, hx.exec_eq]
  cases (form.exec x).1 <;> simp

/-- Two actions in a row fail where the first one does, and where the second one does. -/
theorem answer_bind_eq_error_iff (hx : Reads x) {fault : Fault} :
    (form.exec (x >>= k)).1 = .error fault ↔
      (form.exec x).1 = .error fault ∨
        ∃ a, (form.exec x).1 = .ok a ∧ (form.exec (k a)).1 = .error fault := by
  rw [exec_bind, hx.exec_eq]
  cases (form.exec x).1 <;> simp

/-- Two forms get the same answer, if they do in reading and in whatever comes after it. -/
theorem answer_bind_congr (hx : Reads x) (hanswer : (form.exec x).1 = (form'.exec x).1)
    (hk : ∀ a, (form.exec (k a)).1 = (form'.exec (k a)).1) :
    (form.exec (x >>= k)).1 = (form'.exec (x >>= k)).1 := by
  rw [exec_bind, exec_bind, hx.exec_eq form, hx.exec_eq form', ← hanswer]
  cases (form.exec x).1 with
  | error fault => rfl
  | ok a => exact hk a

/-! ### The tests of an edit -/

theorem exec_widgetFor (param : Param) (form : Form) :
    form.exec (widgetFor param) = (match form.panel.widget? param with
      | none => .error (.refused (.unknownWidget param))
      | some widget =>
        if widget.enabled then .ok widget else .error (.refused (.widgetDisabled param)),
      form) := by
  unfold widgetFor
  rw [exec_get_bind]
  cases form.panel.widget? param with
  | none => rfl
  | some w => cases henabled : w.enabled <;> simp [henabled]

theorem reads_widgetFor (param : Param) : Reads (widgetFor param) := fun form => by
  rw [exec_widgetFor]

theorem widgetFor_eq_ok_iff {w : Widget} :
    (form.exec (widgetFor param)).1 = .ok w ↔
      form.panel.widget? param = some w ∧ w.enabled = true := by
  rw [exec_widgetFor]
  cases form.panel.widget? param with
  | none => simp
  | some widget =>
      simp only [Option.some.injEq]
      constructor
      · intro h
        split at h
        · rename_i henabled
          obtain rfl := Except.ok.inj h
          exact ⟨rfl, henabled⟩
        · simp at h
      · rintro ⟨rfl, henabled⟩
        rw [if_pos henabled]

theorem exec_accept (w : Widget) (param : Param) (value : Value) (form : Form) :
    form.exec (accept w param value) = (w.spec.validate param value, form) := by
  unfold accept
  cases w.spec.validate param value <;> rfl

theorem reads_accept (w : Widget) (param : Param) (value : Value) : Reads (accept w param value) :=
  fun form => by rw [exec_accept]

theorem exec_stage (param : Param) (stored : Value) (form : Form) :
    form.exec (stage param stored) =
      ((form.settings.set param stored).mapError fun mismatch => .refused (.typeMismatch mismatch),
        form) := by
  unfold stage
  rw [exec_get_bind]
  cases form.settings.set param stored <;> rfl

theorem reads_stage (param : Param) (stored : Value) : Reads (stage param stored) := fun form => by
  rw [exec_stage]

theorem reads_checkedBy (param : Param) (stored : Value) : Reads (checkedBy param stored) := by
  intro form
  unfold checkedBy
  cases stored.flag? <;> rfl

theorem exec_findTarget (target : Param) (form : Form) :
    form.exec (findTarget target) =
      (if (form.panel.widget? target).isSome then .ok ()
        else .error (.refused (.unknownWidget target)), form) := by
  unfold findTarget
  rw [exec_get_bind]
  split <;> rfl

theorem reads_findTarget (target : Param) : Reads (findTarget target) := fun form => by
  rw [exec_findTarget]

/-! ### What is written -/

theorem restores_runEffect (param : Param) (stored : Value) (staged : Settings) (effect : Effect) :
    Restores (runEffect param stored staged effect) := by
  cases effect with
  | store => exact restores_of_ok fun _ => ⟨_, _, rfl⟩
  | forwardMinDistance => exact restores_of_ok fun _ => ⟨_, _, rfl⟩
  | disableWhenChecked target =>
      refine restores_bind (reads_checkedBy param stored) fun checked => ?_
      refine restores_bind (reads_findTarget target) fun _ => ?_
      exact restores_of_ok fun _ => ⟨_, _, rfl⟩

/-- **An edit that fails leaves the form as it was**: every test comes before anything is
written. -/
theorem restores_editing (param : Param) (value : Value) : Restores (editing param value) := by
  refine restores_bind (reads_widgetFor param) fun w => ?_
  refine restores_bind (reads_accept w param value) fun stored => ?_
  refine restores_bind (reads_stage param stored) fun staged => ?_
  exact restores_runEffect param stored staged w.spec.effect

theorem eq_of_edit_error {fault : Fault} (h : form.edit param value = (.error fault, form')) :
    form' = form :=
  restores_editing param value form fault form' h

theorem edit_cases (form : Form) (param : Param) (value : Value) :
    (∃ outcome form', form.edit param value = (.ok outcome, form')) ∨
      ∃ fault, form.edit param value = (.error fault, form) := by
  rcases hedit : form.edit param value with ⟨fault | outcome, form'⟩
  · obtain rfl := eq_of_edit_error hedit
    exact .inr ⟨fault, rfl⟩
  · exact .inl ⟨outcome, form', rfl⟩

/-- What an edit that is carried out has gone through before its effect. -/
theorem steps_of_edit : form.edit param value = (.ok outcome, form') ↔
    ∃ w, (form.panel.widget? param = some w ∧ w.enabled = true) ∧
      ∃ stored, w.spec.validate param value = .ok stored ∧
        ∃ staged, form.settings.set param stored = .ok staged ∧
          form.exec (runEffect param stored staged w.spec.effect) = (.ok outcome, form') := by
  have hset : ∀ stored staged, (form.exec (stage param stored)).1 = .ok staged ↔
      form.settings.set param stored = .ok staged := by
    intro stored staged
    rw [exec_stage]
    cases form.settings.set param stored with
    | error => exact ⟨nofun, nofun⟩
    | ok =>
        exact ⟨fun h => congrArg Except.ok (Except.ok.inj h), fun h =>
          congrArg Except.ok (Except.ok.inj h)⟩
  unfold edit editing
  simp only [bind_eq_ok_iff (reads_widgetFor param), widgetFor_eq_ok_iff,
    bind_eq_ok_iff (reads_accept _ param value), exec_accept, bind_eq_ok_iff (reads_stage param _),
    hset]

end Form

end StripeBrush
