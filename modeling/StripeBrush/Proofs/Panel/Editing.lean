/-
**What an edit does.**

An edit is carried out exactly when the parameter has a widget that is enabled, the widget takes the
value, and the value has the kind of the parameter.  Then the value is moved into the range of the
widget and stored, in its parameter and nowhere else, and at most one flag is set: that of the
widget that a checkbox disables.  An edit that fails gives the form back as it was.

Main definitions:

* `Range.nearest`, `WidgetSpec.stored` — a number moved into a range, and a value as a widget stores
  it;
* `WidgetSpec.Takes`, `Form.Accepts` — which values a widget takes, and which edits are carried out;
* `Form.Edited` — what an edit that was carried out has changed.

Main results:

* `WidgetSpec.validate_eq_ok_iff` — validation passes the values that the widget takes;
* `Form.edited_of_edit` — what an edit that was carried out has gone through, and has changed;
* `Form.edit_congr` — what an edit answers depends on its widget and on which widgets there are;
* `Form.edit_all_or_nothing` — **an edit is carried out as a whole or not at all**.
-/

import StripeBrush.Proofs.Panel.Staging
import StripeBrush.Proofs.Panel.Wiring

set_option relaxedAutoImplicit false
set_option autoImplicit false

namespace StripeBrush

/-! ### Validation -/

/-- The number of the range that a number is moved to. -/
def Range.nearest (r : Range) (x : Binary32) : Binary32 :=
  if x < r.lo then r.lo else if r.hi < x then r.hi else x

theorem Range.clamp?_of_bounds {r : Range} (h : r.Bounds) (x : Binary32) :
    Binary.clamp? r.lo r.hi x = some (r.nearest x) := if_pos h

theorem Range.clamp?_of_not_bounds {r : Range} (h : ¬ r.Bounds) (x : Binary32) :
    Binary.clamp? r.lo r.hi x = none := if_neg h

namespace WidgetSpec

/-- The values that a widget takes: a checkbox takes flags, and any other control finite numbers,
where its range, if it has one, bounds something. -/
def Takes (spec : WidgetSpec) : Value → Prop
  | .flag _ => spec.control = .checkbox
  | .number x => spec.control ≠ .checkbox ∧ x.isFinite = true ∧ ∀ r ∈ spec.range, r.Bounds

instance (spec : WidgetSpec) : (value : Value) → Decidable (spec.Takes value)
  | .flag _ => inferInstanceAs (Decidable (spec.control = .checkbox))
  | .number x => inferInstanceAs (Decidable
      (spec.control ≠ .checkbox ∧ x.isFinite = true ∧ ∀ r ∈ spec.range, r.Bounds))

/-- A value as the widget stores it: a number is moved into the range, if there is one. -/
def stored (spec : WidgetSpec) : Value → Value
  | .flag b => .flag b
  | .number x => .number ((spec.range.map fun r => r.nearest x).getD x)

variable {spec : WidgetSpec} {param : Param} {value : Value}

@[simp] theorem kind_stored (spec : WidgetSpec) (value : Value) :
    (spec.stored value).kind = value.kind := by
  cases value <;> rfl

theorem stored_eq_self_of_nearest
    (h : ∀ x, value = .number x → ∀ r ∈ spec.range, r.nearest x = x) :
    spec.stored value = value := by
  cases value with
  | flag b => rfl
  | number x =>
      unfold stored
      cases hr : spec.range with
      | none => rfl
      | some r => exact congrArg Value.number (h x rfl r hr)

theorem kind_eq_flag_iff : spec.kind = .flag ↔ spec.control = .checkbox := by
  unfold kind
  cases spec.control <;> simp

theorem kind_eq_number_iff : spec.kind = .number ↔ spec.control ≠ .checkbox := by
  unfold kind
  cases spec.control <;> simp

theorem Takes.kind_eq (h : spec.Takes value) : value.kind = spec.kind := by
  cases value with
  | flag b => exact (kind_eq_flag_iff.2 h).symm
  | number x => exact (kind_eq_number_iff.2 h.1).symm

theorem clamp_eq_ok_iff {x y : Binary32} :
    spec.clamp x = .ok y ↔
      (∀ r ∈ spec.range, r.Bounds) ∧ y = (spec.range.map fun r => r.nearest x).getD x := by
  unfold clamp
  cases hr : spec.range with
  | none => simp [eq_comm]
  | some r =>
      by_cases hb : r.Bounds
      · simp [Range.clamp?_of_bounds hb, hb, eq_comm]
      · simp [Range.clamp?_of_not_bounds hb, hb]

/-- **Validation passes the values that the widget takes, moved into its range.** -/
theorem validate_eq_ok_iff {result : Value} :
    spec.validate param value = .ok result ↔ spec.Takes value ∧ result = spec.stored value := by
  cases value with
  | flag b => rw [validate_flag_iff, kind_eq_flag_iff]; rfl
  | number x =>
      rw [validate_number_iff, kind_eq_number_iff]
      constructor
      · rintro ⟨hkind, hx, y, hy, rfl⟩
        obtain ⟨hbounds, rfl⟩ := clamp_eq_ok_iff.1 hy
        exact ⟨⟨hkind, hx, hbounds⟩, rfl⟩
      · rintro ⟨⟨hkind, hx, hbounds⟩, rfl⟩
        exact ⟨hkind, hx, _, clamp_eq_ok_iff.2 ⟨hbounds, rfl⟩, rfl⟩

end WidgetSpec

namespace Form

variable {form form' : Form} {panel panel' : Panel} {param : Param} {value : Value}
  {effect : Effect} {outcome : EditOutcome} {w : Widget}

/-! ### Effects -/

/-- What an effect reports once a value was stored. -/
def report (param : Param) (value : Value) (effect : Effect) : EditOutcome where
  param := param
  value := value
  minDistance := if effect = .forwardMinDistance then value.number? else none
  toggled := effect.target?.bind fun target => value.flag?.map fun b => (target, !b)

/-- The panel after an effect: the one flag that is reported is set. -/
def toggle (panel : Panel) (outcome : EditOutcome) : Panel :=
  match outcome.toggled with
  | none => panel
  | some (target, enabled) => panel.setFlag target enabled

@[simp] theorem specs_toggle (panel : Panel) (outcome : EditOutcome) :
    (toggle panel outcome).specs = panel.specs := by
  unfold toggle
  split <;> simp

@[simp] theorem title_toggle (panel : Panel) (outcome : EditOutcome) :
    (toggle panel outcome).title = panel.title := by
  unfold toggle
  split <;> rfl

/-- An effect takes place unless it would have to disable a widget that is not there, or for the
sake of a value that is no flag. -/
theorem exec_runEffect (param : Param) (staged : Settings) (h : ∀ target,
      effect.target? = some target → value.kind = .flag ∧ (form.panel.widget? target).isSome) :
    form.exec (runEffect param value staged effect) =
      (.ok (report param value effect),
        ⟨toggle form.panel (report param value effect), staged⟩) := by
  cases effect with
  | store => rfl
  | forwardMinDistance => rfl
  | disableWhenChecked target =>
      obtain ⟨hkind, htarget⟩ := h target rfl
      cases value with
      | number x => simp [Value.kind] at hkind
      | flag b =>
          have hfind : form.exec (findTarget target) = (.ok (), form) := by
            rw [exec_findTarget, if_pos htarget]
          have hchecked : form.exec (checkedBy param (.flag b)) = (.ok b, form) := rfl
          unfold runEffect
          rw [exec_bind, hchecked]
          simp only [exec_bind, hfind]
          rfl

/-! ### Edits -/

/-- The edits that are carried out: the parameter has a widget that is enabled, the widget takes the
value, and the value has the kind of the parameter. -/
def Accepts (form : Form) (param : Param) (value : Value) : Prop :=
  ∃ w, form.panel.widget? param = some w ∧ w.enabled = true ∧ w.spec.Takes value ∧
    value.kind = param.kind

/-- What an edit through the widget `w` has changed. -/
structure Edited (form : Form) (w : Widget) (param : Param) (value : Value) (outcome : EditOutcome)
    (form' : Form) : Prop where
  /-- The outcome is about the parameter, and reports the value moved into the range. -/
  param_eq : outcome.param = param
  value_eq : outcome.value = w.spec.stored value
  /-- That value is stored in the parameter, and no other parameter changes. -/
  get_eq : ∀ q, form'.settings.get q = if q = param then outcome.value else form.settings.get q
  /-- The least travel is reported where the effect forwards it. -/
  minDistance_iff : ∀ x, outcome.minDistance = some x ↔
    w.spec.effect = .forwardMinDistance ∧ outcome.value = .number x
  /-- A flag is reported where the effect sets one, to the negation of the value. -/
  toggled_iff : ∀ target b, outcome.toggled = some (target, b) ↔
    w.spec.effect = .disableWhenChecked target ∧ outcome.value = .flag (!b)
  /-- The effect that sets a flag always has a flag to set it by. -/
  toggled_isSome : ∀ target, w.spec.effect = .disableWhenChecked target → outcome.toggled.isSome
  /-- The flag that is reported is set, and no other flag changes. -/
  enabled_eq : ∀ q, form'.panel.enabled? q =
    match outcome.toggled with
    | some (target, b) => if q = target then some b else form.panel.enabled? q
    | none => form.panel.enabled? q
  /-- The widget itself is still enabled. -/
  still_enabled : form'.panel.enabled? param = some true
  /-- No widget comes or goes, and none is described otherwise. -/
  specs_eq : form'.panel.specs = form.panel.specs
  title_eq : form'.panel.title = form.panel.title

/-- An edit that is accepted in a wired panel is carried out. -/
theorem edit_of_accepts (hwired : form.panel.Wired) (hw : form.panel.widget? param = some w)
    (henabled : w.enabled = true) (htakes : w.spec.Takes value) (hkind : value.kind = param.kind) :
    ∃ settings, form.settings.set param (w.spec.stored value) = .ok settings ∧
      form.edit param value = (.ok (report param (w.spec.stored value) w.spec.effect),
        ⟨toggle form.panel (report param (w.spec.stored value) w.spec.effect), settings⟩) := by
  have hset : (w.spec.stored value).kind = param.kind := by simpa using hkind
  obtain ⟨settings, hsettings⟩ := (Settings.set_eq_ok_iff form.settings _ _).2 hset
  refine ⟨settings, hsettings, ?_⟩
  have hvalid : w.spec.validate param value = .ok (w.spec.stored value) :=
    WidgetSpec.validate_eq_ok_iff.2 ⟨htakes, rfl⟩
  have htarget : ∀ target, w.spec.effect.target? = some target →
      (w.spec.stored value).kind = .flag ∧ (form.panel.widget? target).isSome := by
    intro target ht
    rw [WidgetSpec.kind_stored, htakes.kind_eq, hwired.checkbox hw ht]
    exact ⟨rfl, hwired.registered hw ht⟩
  exact steps_of_edit.2 ⟨w, ⟨hw, henabled⟩, _, hvalid, settings, hsettings,
    exec_runEffect param settings htarget⟩

theorem accepts_of_edit (h : form.edit param value = (.ok outcome, form')) :
    form.Accepts param value := by
  obtain ⟨w, ⟨hw, henabled⟩, stored, hvalid, staged, hset, -⟩ := steps_of_edit.1 h
  obtain ⟨htakes, rfl⟩ := WidgetSpec.validate_eq_ok_iff.1 hvalid
  have hkind := (Settings.set_eq_ok_iff form.settings _ _).1 ⟨staged, hset⟩
  exact ⟨w, hw, henabled, htakes, by simpa using hkind⟩

theorem minDistance_report_iff {x : Binary32} :
    (report param value effect).minDistance = some x ↔
      effect = .forwardMinDistance ∧ value = .number x := by
  cases effect <;> cases value <;> simp [report, Value.number?]

theorem toggled_report_iff {target : Param} {b : Bool} :
    (report param value effect).toggled = some (target, b) ↔
      effect = .disableWhenChecked target ∧ value = .flag (!b) := by
  cases effect with
  | store => simp [report, Effect.target?]
  | forwardMinDistance => simp [report, Effect.target?]
  | disableWhenChecked t =>
      cases value with
      | number x => simp [report, Effect.target?, Value.flag?]
      | flag c =>
          simp only [report, Effect.target?, Value.flag?, Option.bind_some, Option.map_some,
            Option.some.injEq, Prod.mk.injEq, Effect.disableWhenChecked.injEq, Value.flag.injEq]
          cases b <;> cases c <;> simp

/-- The flags after an effect, where the flag that it reports is one of the panel. -/
theorem enabled?_toggle
    (h : ∀ target b, outcome.toggled = some (target, b) → (panel.widget? target).isSome)
    (q : Param) :
    (toggle panel outcome).enabled? q =
      match outcome.toggled with
      | some (target, b) => if q = target then some b else panel.enabled? q
      | none => panel.enabled? q := by
  unfold toggle
  cases ht : outcome.toggled with
  | none => rfl
  | some t =>
      obtain ⟨target, b⟩ := t
      obtain ⟨w, hw⟩ := Option.isSome_iff_exists.1 (h target b ht)
      have hflag : panel.enabled? target = some w.enabled := by simp [Panel.enabled?, hw]
      simp only [Panel.enabled?_setFlag, hflag, Option.map_some]

/-- What a wired panel makes of an accepted edit. -/
theorem edited_of_accepts (hwired : form.panel.Wired) (hw : form.panel.widget? param = some w)
    (henabled : w.enabled = true) (htakes : w.spec.Takes value) {settings : Settings}
    (hset : form.settings.set param (w.spec.stored value) = .ok settings) :
    form.Edited w param value (report param (w.spec.stored value) w.spec.effect)
      ⟨toggle form.panel (report param (w.spec.stored value) w.spec.effect), settings⟩ := by
  have htarget : ∀ target b, (report param (w.spec.stored value) w.spec.effect).toggled =
      some (target, b) → w.spec.effect.target? = some target := by
    intro target b h
    simp [(toggled_report_iff.1 h).1, Effect.target?]
  have hregistered : ∀ target b, (report param (w.spec.stored value) w.spec.effect).toggled =
      some (target, b) → (form.panel.widget? target).isSome :=
    fun target b h => hwired.registered hw (htarget target b h)
  have hflags := enabled?_toggle hregistered
  refine
    { param_eq := rfl
      value_eq := rfl
      get_eq := fun q => ?_
      minDistance_iff := fun x => minDistance_report_iff
      toggled_iff := fun target b => toggled_report_iff
      toggled_isSome := fun target h => ?_
      enabled_eq := hflags
      still_enabled := ?_
      specs_eq := specs_toggle _ _
      title_eq := title_toggle _ _ }
  · split
    · rename_i hq
      subst hq
      exact Settings.get_set_self hset
    · rename_i hq
      exact Settings.get_set_of_ne hset hq
  · have hkind : value.kind = .flag := by
      rw [htakes.kind_eq, hwired.checkbox hw (by rw [h]; rfl)]
    cases value with
    | number x => simp [Value.kind] at hkind
    | flag b => simp [report, h, Effect.target?, WidgetSpec.stored, Value.flag?]
  · have hself : form.panel.enabled? param = some true := by simp [Panel.enabled?, hw, henabled]
    rw [hflags]
    split
    · rename_i target b ht
      have hne : param ≠ target := (hwired.ne_self hw (htarget target b ht)).symm
      rw [if_neg hne, hself]
    · exact hself

/-- What an edit that was carried out in a wired panel has gone through, and what it has changed. -/
theorem edited_of_edit (hwired : form.panel.Wired)
    (h : form.edit param value = (.ok outcome, form')) :
    ∃ w, form.panel.widget? param = some w ∧ w.spec.Takes value ∧ value.kind = param.kind ∧
      form.Edited w param value outcome form' := by
  obtain ⟨w, hw, henabled, htakes, hkind⟩ := accepts_of_edit h
  obtain ⟨settings, hset, hresult⟩ := edit_of_accepts hwired hw henabled htakes hkind
  obtain ⟨houtcome, rfl⟩ := Prod.mk.inj (h.symm.trans hresult)
  obtain rfl := Except.ok.inj houtcome
  exact ⟨w, hw, htakes, hkind, edited_of_accepts hwired hw henabled htakes hset⟩

/-- An edit reports no least travel unless its effect forwards it. -/
theorem Edited.minDistance_eq_none (h : form.Edited w param value outcome form')
    (heffect : w.spec.effect ≠ .forwardMinDistance) : outcome.minDistance = none := by
  rw [Option.eq_none_iff_forall_ne_some]
  intro x hx
  exact heffect ((h.minDistance_iff x).1 hx).1

/-- An edit sets no flag unless that is its effect. -/
theorem Edited.toggled_eq_none (h : form.Edited w param value outcome form')
    (heffect : ∀ target, w.spec.effect ≠ .disableWhenChecked target) : outcome.toggled = none := by
  rw [Option.eq_none_iff_forall_ne_some]
  rintro ⟨target, b⟩ ht
  exact heffect target ((h.toggled_iff target b).1 ht).1

theorem setEnabled_eq (form : Form) (param : Param) (b : Bool) :
    form.setEnabled param b =
      if (form.panel.widget? param).isSome then
        (.ok (), { form with panel := form.panel.setFlag param b })
      else (.error (.refused (.unknownWidget param)), form) := by
  unfold setEnabled enabling
  rw [exec_bind, exec_findTarget]
  cases (form.panel.widget? param).isSome <;> rfl

/-! ### What an edit depends on -/

theorem answer_runEffect_congr
    (h : ∀ q, (form.panel.widget? q).isSome = (form'.panel.widget? q).isSome) (param : Param)
    (value : Value) (staged staged' : Settings) (effect : Effect) :
    (form.exec (runEffect param value staged effect)).1 =
      (form'.exec (runEffect param value staged' effect)).1 := by
  cases effect with
  | store => rfl
  | forwardMinDistance => rfl
  | disableWhenChecked target =>
      cases value with
      | number x => rfl
      | flag b =>
          have hchecked : ∀ f : Form, f.exec (checkedBy param (.flag b)) = (.ok b, f) :=
            fun _ => rfl
          unfold runEffect
          simp only [exec_bind, hchecked, exec_findTarget, h target]
          cases (form'.panel.widget? target).isSome <;> rfl

/-- Where the settings can be staged for one form, they can be staged for any other. -/
theorem answer_stage_congr
    (h : ∀ q, (form.panel.widget? q).isSome = (form'.panel.widget? q).isSome) (param : Param)
    (value : Value) (effect : Effect) :
    (form.exec (stage param value >>= fun staged => runEffect param value staged effect)).1 =
      (form'.exec (stage param value >>= fun staged => runEffect param value staged effect)).1 := by
  rw [exec_bind, exec_bind, exec_stage, exec_stage]
  by_cases hkind : value.kind = param.kind
  · obtain ⟨settings, hset⟩ := (Settings.set_eq_ok_iff form.settings param value).2 hkind
    obtain ⟨settings', hset'⟩ := (Settings.set_eq_ok_iff form'.settings param value).2 hkind
    rw [hset, hset']
    exact answer_runEffect_congr h param value settings settings' effect
  · rw [Settings.set_of_kind_ne _ hkind, Settings.set_of_kind_ne _ hkind]
    rfl

/-- What an edit answers depends on the widget that it goes through, and on which widgets there are,
but on no value of the settings. -/
theorem edit_congr (hwidget : form.panel.widget? param = form'.panel.widget? param)
    (h : ∀ q, (form.panel.widget? q).isSome = (form'.panel.widget? q).isSome) (value : Value) :
    (form.edit param value).1 = (form'.edit param value).1 := by
  refine answer_bind_congr (reads_widgetFor param) ?_ fun w => ?_
  · rw [exec_widgetFor, exec_widgetFor, hwidget]
  refine answer_bind_congr (reads_accept w param value) ?_ fun stored => ?_
  · rw [exec_accept, exec_accept]
  · exact answer_stage_congr h param stored w.spec.effect

/-! ### All or nothing -/

/-- **An edit is carried out as a whole or not at all.**  In a panel that is built, whatever its
flags are, the edits that are carried out are those that are accepted; an edit that is carried out
has changed what `Edited` says, and the form that one gives back which fails, wherever it stopped,
has the settings and every flag that it had before. -/
theorem edit_all_or_nothing (form : Form) (h : form.panel.Built) (param : Param) (value : Value) :
    ((∃ outcome form', form.edit param value = (.ok outcome, form')) ↔
      form.Accepts param value) ∧
    (∀ outcome form', form.edit param value = (.ok outcome, form') →
      form.apply (.edit param value) = (.edited outcome, form') ∧
      ∃ w, form.panel.widget? param = some w ∧ form.Edited w param value outcome form') ∧
    (∀ fault form', form.edit param value = (.error fault, form') →
      form.apply (.edit param value) = (.failed fault, form') ∧
      form'.settings = form.settings ∧ form'.panel = form.panel) := by
  refine ⟨⟨?_, ?_⟩, ?_, ?_⟩
  · rintro ⟨outcome, form', hedit⟩
    exact accepts_of_edit hedit
  · rintro ⟨w, hw, henabled, htakes, hkind⟩
    obtain ⟨settings, -, hedit⟩ := edit_of_accepts h.wired hw henabled htakes hkind
    exact ⟨_, _, hedit⟩
  · intro outcome form' hedit
    obtain ⟨w, hw, -, -, hedited⟩ := edited_of_edit h.wired hedit
    exact ⟨by simp [apply, hedit, Reply.ofEdit], w, hw, hedited⟩
  · intro fault form' hedit
    obtain rfl := eq_of_edit_error hedit
    exact ⟨by simp [apply, hedit, Reply.ofEdit], rfl, rfl⟩

/-- In the panel of the brush, checking the dynamic size is an edit of this kind: it is accepted, and
it leaves the widget of the size disabled. -/
theorem edit_mouseOffset_disables_offset :
    freshBrushPanel.Built ∧
    (⟨freshBrushPanel, .default⟩ : Form).Accepts .mouseOffset (.flag true) ∧
    ∃ outcome form', (⟨freshBrushPanel, .default⟩ : Form).edit .mouseOffset (.flag true) =
      (.ok outcome, form') ∧ form'.panel.enabled? .offset = some false := by
  have hbuilt : freshBrushPanel.Built := by
    rw [Panel.built_iff]
    decide
  have haccepts : (⟨freshBrushPanel, .default⟩ : Form).Accepts .mouseOffset (.flag true) :=
    ⟨_, rfl, rfl, rfl, rfl⟩
  obtain ⟨hiff, hok, -⟩ := edit_all_or_nothing ⟨freshBrushPanel, .default⟩ hbuilt .mouseOffset
    (.flag true)
  obtain ⟨outcome, form', hedit⟩ := hiff.2 haccepts
  obtain ⟨-, w, hw, hedited⟩ := hok outcome form' hedit
  have htoggled : outcome.toggled = some (.offset, false) := by
    obtain rfl := Option.some.inj hw
    exact (hedited.toggled_iff _ _).2 ⟨rfl, hedited.value_eq⟩
  refine ⟨hbuilt, haccepts, outcome, form', hedit, ?_⟩
  rw [hedited.enabled_eq, htoggled]
  rfl

end Form

end StripeBrush
