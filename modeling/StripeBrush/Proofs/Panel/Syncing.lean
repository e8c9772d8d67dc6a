/-
**Flags that stay in line with the settings.**

Bringing the flags of a panel in line with the settings goes by every widget that disables another
one.  But only one parameter is a flag, so that only its widget has anything to say: checkboxes for
numbers can be registered, and may even disable something, but no value that they take can be
stored.  So at most one flag of a panel depends on the settings, and it is written together with the
value that it depends on.  Once it is in line it stays in line, unless it is set by hand.

Main definitions:

* `Panel.driven?` — the parameter whose flag depends on the settings;
* `Form.InLine` — every flag that depends on the settings is in line with them;
* `Form.Op.Spares` — operations that set no such flag by hand.

Main results:

* `Panel.syncEnabled_eq` — at most one flag is brought in line;
* `Form.sync_of_inLine` — where all is in line, nothing is changed;
* `Form.InLine.apply`, `Form.InLine.run` — what spares the flag keeps it in line;
* `Form.sync_after_run` — **after any run of such operations there is nothing to be brought in
  line**.
-/

import StripeBrush.Proofs.Panel.Chains
import StripeBrush.Proofs.Panel.Editing

set_option relaxedAutoImplicit false
set_option autoImplicit false

namespace StripeBrush

/-! ### Lists of entries -/

/-- Where only the entry of one parameter gives something, that entry decides. -/
theorem filterMap_eq_toList_lookup {α β : Type} (f : Param → α → Option β) {k : Param}
    (hother : ∀ p a, p ≠ k → f p a = none) {l : List (Param × α)}
    (hnodup : (l.map Prod.fst).Nodup) :
    l.filterMap (fun e => f e.1 e.2) = ((l.lookup k).bind (f k)).toList := by
  induction l with
  | nil => rfl
  | cons e l ih =>
      obtain ⟨p, a⟩ := e
      rw [List.map_cons, List.nodup_cons] at hnodup
      have hrest := ih hnodup.2
      by_cases hp : p = k
      · subst hp
        -- the parameter has no other entry, so the rest gives nothing
        rw [lookup_eq_none_of_notMem hnodup.1] at hrest
        rw [List.filterMap_cons, hrest, List.lookup_cons_self]
        cases hf : f p a <;> simp [hf]
      · have hne : (k == p) = false := by simpa using Ne.symm hp
        rw [List.filterMap_cons, hother p a hp, List.lookup_cons, hne]
        exact hrest

namespace Panel

variable {panel panel' : Panel} {p target : Param} {b : Bool}

theorem setFlag_eq_self (hnodup : (panel.widgets.map Prod.fst).Nodup)
    (h : panel.enabled? p = some b) : panel.setFlag p b = panel := by
  obtain ⟨w, hw, rfl⟩ := Option.map_eq_some_iff.1 h
  have hwidgets : (panel.setFlag p w.enabled).widgets = panel.widgets := by
    rw [widgets_setFlag]
    refine (List.map_congr_left ?_).trans (List.map_id panel.widgets)
    intro e he
    by_cases hp : e.1 = p
    · have hlookup : panel.widget? e.1 = some e.2 := lookup_eq_some_of_mem hnodup he
      rw [hp, hw] at hlookup
      obtain rfl := Option.some.inj hlookup
      rw [if_pos hp]
      rfl
    · rw [if_neg hp]
      rfl
  exact congrArg (Panel.mk panel.title) hwidgets

/-! ### The flag that depends on the settings -/

/-- The parameter whose flag depends on the settings, if there is one: the one that is disabled by
the widget of the parameter that is a flag. -/
def driven? (panel : Panel) : Option Param :=
  (panel.widget? .mouseOffset).bind fun w => w.spec.effect.target?

theorem driven?_eq_some_iff : panel.driven? = some target ↔
    ∃ w, panel.widget? .mouseOffset = some w ∧ w.spec.effect = .disableWhenChecked target := by
  simp only [driven?, Option.bind_eq_some_iff, Effect.target?_eq_some_iff]

theorem driven?_of_specs_eq (h : panel'.specs = panel.specs) : panel'.driven? = panel.driven? := by
  have hspec := congrArg (fun specs => specs.lookup Param.mouseOffset) h
  simp only [lookup_specs] at hspec
  have heq : ∀ q : Panel, q.driven? =
      ((q.widget? .mouseOffset).map Widget.spec).bind fun spec => spec.effect.target? := by
    intro q
    unfold driven?
    cases q.widget? .mouseOffset <;> rfl
  rw [heq, heq, hspec]

/-- What one widget says about the flags: the one that it disables, and whether that is enabled, if
its own parameter is a flag. -/
def dependentFlag (s : Settings) (p : Param) (w : Widget) : Option (Param × Bool) :=
  match w.spec.effect.target?, (s.get p).flag? with
  | some target, some checked => some (target, !checked)
  | _, _ => none

theorem dependentFlag_of_ne (s : Settings) (w : Widget) (hp : p ≠ .mouseOffset) :
    dependentFlag s p w = none := by
  unfold dependentFlag
  cases w.spec.effect.target? with
  | none => rfl
  | some target =>
      cases p with
      | mouseOffset => exact absurd rfl hp
      | _ => rfl

theorem dependentFlag_mouseOffset (s : Settings) (w : Widget) :
    dependentFlag s .mouseOffset w =
      w.spec.effect.target?.map fun target => (target, !s.mouseOffset) := by
  unfold dependentFlag
  cases w.spec.effect.target? <;> rfl

/-- The settings decide on at most one flag. -/
theorem dependentFlags_eq (hnodup : (panel.widgets.map Prod.fst).Nodup) (s : Settings) :
    panel.dependentFlags s = (panel.driven?.map fun target => (target, !s.mouseOffset)).toList := by
  have hone : panel.dependentFlags s =
      ((panel.widget? .mouseOffset).bind (dependentFlag s .mouseOffset)).toList :=
    filterMap_eq_toList_lookup (dependentFlag s) (fun p w hp => dependentFlag_of_ne s w hp) hnodup
  rw [hone]
  unfold driven?
  cases panel.widget? .mouseOffset with
  | none => rfl
  | some w =>
      simp only [Option.bind_some, dependentFlag_mouseOffset]

/-- At most one flag is brought in line with the settings. -/
theorem syncEnabled_eq (hnodup : (panel.widgets.map Prod.fst).Nodup) (s : Settings) :
    panel.syncEnabled s = match panel.driven? with
      | none => panel
      | some target => panel.setFlag target (!s.mouseOffset) := by
  unfold syncEnabled
  rw [dependentFlags_eq hnodup]
  cases panel.driven? <;> rfl

theorem Wired.isSome_driven (h : panel.Wired) (ht : panel.driven? = some target) :
    (panel.widget? target).isSome := by
  obtain ⟨w, hw, heffect⟩ := driven?_eq_some_iff.1 ht
  exact h.registered hw (Effect.target?_eq_some_iff.2 heffect)

end Panel

namespace Form

variable {form form' : Form} {param p target : Param} {value : Value} {outcome : EditOutcome}

/-! ### In line -/

/-- Every flag that depends on the settings is in line with them. -/
def InLine (form : Form) : Prop :=
  ∀ target, form.panel.driven? = some target →
    form.panel.enabled? target = some (!form.settings.mouseOffset)

/-- Where all is in line, nothing is changed. -/
theorem sync_of_inLine (hwired : form.panel.Wired) (h : form.InLine) : form.sync = form := by
  have hpanel : form.panel.syncEnabled form.settings = form.panel := by
    rw [Panel.syncEnabled_eq hwired.nodup]
    cases ht : form.panel.driven? with
    | none => rfl
    | some target => exact Panel.setFlag_eq_self hwired.nodup (h target ht)
  exact congrArg (Form.mk · form.settings) hpanel

theorem specs_sync (form : Form) (hwired : form.panel.Wired) :
    form.sync.panel.specs = form.panel.specs := by
  change (form.panel.syncEnabled form.settings).specs = _
  rw [Panel.syncEnabled_eq hwired.nodup]
  cases form.panel.driven? with
  | none => rfl
  | some target => exact Panel.specs_setFlag ..

theorem inLine_sync (hwired : form.panel.Wired) : form.sync.InLine := by
  intro target ht
  rw [Panel.driven?_of_specs_eq (specs_sync form hwired)] at ht
  obtain ⟨w, hw⟩ := Option.isSome_iff_exists.1 (hwired.isSome_driven ht)
  change (form.panel.syncEnabled form.settings).enabled? target = _
  rw [Panel.syncEnabled_eq hwired.nodup, ht, Panel.enabled?_setFlag, if_pos rfl]
  simp only [Panel.enabled?, hw, Option.map_some]
  rfl

/-- What is in line with the settings is in line with every flag among them. -/
theorem InLine.enabled_eq (h : form.InLine) {w : Widget} {b : Bool}
    (hw : form.panel.widget? p = some w) (heffect : w.spec.effect = .disableWhenChecked target)
    (hvalue : form.settings.get p = .flag b) : form.panel.enabled? target = some (!b) := by
  cases p with
  | mouseOffset =>
      obtain rfl := Value.flag.inj hvalue
      exact h target (Panel.driven?_eq_some_iff.2 ⟨w, hw, heffect⟩)
  | _ => simp [Settings.get] at hvalue

/-! ### What keeps the flags in line -/

/-- An edit of a number sets no flag, whatever its widget is. -/
theorem toggled_eq_none_of_number (hwired : form.panel.Wired) {w : Widget}
    (hw : form.panel.widget? param = some w) (htakes : w.spec.Takes value)
    (hkind : value.kind = param.kind) (hparam : param ≠ .mouseOffset)
    (hedited : form.Edited w param value outcome form') : outcome.toggled = none := by
  refine hedited.toggled_eq_none ?_
  intro target heffect
  -- the widget would be a checkbox, and its parameter is a number
  have hcheckbox := hwired.checkbox hw (Effect.target?_eq_some_iff.2 heffect)
  rw [htakes.kind_eq, hcheckbox] at hkind
  cases param with
  | mouseOffset => exact hparam rfl
  | _ => simp [Param.kind] at hkind

theorem InLine.edit (h : form.InLine) (hwired : form.panel.Wired)
    (hedit : form.edit param value = (.ok outcome, form')) : form'.InLine := by
  obtain ⟨w, hw, htakes, hkind, hedited⟩ := edited_of_edit hwired hedit
  intro target ht
  rw [Panel.driven?_of_specs_eq hedited.specs_eq] at ht
  have hget := hedited.get_eq .mouseOffset
  rw [hedited.enabled_eq]
  by_cases hparam : param = .mouseOffset
  · subst hparam
    rw [if_pos rfl] at hget
    obtain ⟨w', hw', heffect⟩ := Panel.driven?_eq_some_iff.1 ht
    obtain rfl := Option.some.inj (hw.symm.trans hw')
    have htoggled : outcome.toggled = some (target, !form'.settings.mouseOffset) := by
      refine (hedited.toggled_iff _ _).2 ⟨heffect, ?_⟩
      rw [← hget, Bool.not_not]
      rfl
    simp only [htoggled, if_true]
  · rw [if_neg (Ne.symm hparam)] at hget
    simp only [toggled_eq_none_of_number hwired hw htakes hkind hparam hedited]
    rw [h target ht, Value.flag.inj hget]

theorem InLine.setFlag (h : form.InLine) {b : Bool} (hp : form.panel.driven? ≠ some p) :
    InLine { form with panel := form.panel.setFlag p b } := by
  intro target ht
  rw [Panel.driven?_of_specs_eq (Panel.specs_setFlag ..)] at ht
  have hne : target ≠ p := by
    rintro rfl
    exact hp ht
  rw [Panel.enabled?_setFlag, if_neg hne]
  exact h target ht

/-- Operations that set no flag by hand which depends on the settings, and do not replace the
settings behind its back. -/
def Op.Spares (panel : Panel) : Op → Prop
  | .setEnabled p _ => panel.driven? ≠ some p
  | .load _ => False
  | _ => True

instance (panel : Panel) : (op : Op) → Decidable (op.Spares panel)
  | .setEnabled p _ => inferInstanceAs (Decidable (panel.driven? ≠ some p))
  | .load _ => inferInstanceAs (Decidable False)
  | .edit _ _ => inferInstanceAs (Decidable True)
  | .sync => inferInstanceAs (Decidable True)
  | .clamped => inferInstanceAs (Decidable True)

theorem Op.Spares.of_specs_eq {panel panel' : Panel} {op : Op} (h : op.Spares panel)
    (hspecs : panel'.specs = panel.specs) : op.Spares panel' := by
  cases op with
  | setEnabled p b =>
      unfold Spares at h ⊢
      rwa [Panel.driven?_of_specs_eq hspecs]
  | _ => exact h

theorem specs_apply (form : Form) (hwired : form.panel.Wired) (op : Op) :
    (form.apply op).2.panel.specs = form.panel.specs := by
  cases op with
  | edit param value =>
      obtain ⟨outcome, form', hedit⟩ | ⟨fault, hedit⟩ := form.edit_cases param value
      · obtain ⟨w, -, -, -, hedited⟩ := edited_of_edit hwired hedit
        simp only [apply, hedit, hedited.specs_eq]
      · simp only [apply, hedit]
  | setEnabled p b =>
      simp only [apply, setEnabled_eq]
      split
      · exact Panel.specs_setFlag ..
      · rfl
  | sync => exact specs_sync form hwired
  | clamped =>
      cases hclamped : form.panel.clampedSettings form.settings <;> simp only [apply, hclamped]
  | load settings => rfl

/-- What spares the flag keeps it in line. -/
theorem InLine.apply (h : form.InLine) (hwired : form.panel.Wired) {op : Op}
    (hop : op.Spares form.panel) : (form.apply op).2.InLine := by
  cases op with
  | edit param value =>
      obtain ⟨outcome, form', hedit⟩ | ⟨fault, hedit⟩ := form.edit_cases param value
      · simp only [Form.apply, hedit]
        exact h.edit hwired hedit
      · simp only [Form.apply, hedit]
        exact h
  | setEnabled p b =>
      simp only [Form.apply, setEnabled_eq]
      split
      · exact h.setFlag hop
      · exact h
  | sync => exact inLine_sync hwired
  | clamped =>
      cases hclamped : form.panel.clampedSettings form.settings <;>
        simp only [Form.apply, hclamped] <;> exact h
  | load settings => exact absurd hop id

/-- So does a run of operations of this kind. -/
theorem InLine.run (h : form.InLine) (hbuilt : form.panel.Built) {ops : List Op}
    (hops : ∀ op ∈ ops, op.Spares form.panel) :
    (form.run ops).2.InLine ∧ (form.run ops).2.panel.specs = form.panel.specs := by
  induction ops generalizing form with
  | nil => exact ⟨h, rfl⟩
  | cons op ops ih =>
      have hspecs := form.specs_apply hbuilt.wired op
      have hrest : ∀ later ∈ ops, later.Spares (form.apply op).2.panel := by
        intro later hlater
        exact (hops later (List.mem_cons_of_mem _ hlater)).of_specs_eq hspecs
      obtain ⟨hlast, hlastSpecs⟩ := ih (h.apply hbuilt.wired (hops op (List.mem_cons_self ..)))
        (hbuilt.of_specs_eq hspecs) hrest
      exact ⟨hlast, hlastSpecs.trans hspecs⟩

/-- **After any run of operations that spare it there is no flag to be brought in line.**  In a
panel that is built, once the flags were brought in line, edits of any kind, carried out or refused,
and flags that are set by hand but for the one that depends on the settings, leave every flag in
line; so doing it twice is doing it once, and a widget that is disabled while a flag of the settings
is set is enabled exactly while it is not. -/
theorem sync_after_run (form : Form) (h : form.panel.Built) (ops : List Op)
    (hops : ∀ op ∈ ops, op.Spares form.panel) :
    let last := (form.sync.run ops).2
    last.sync = last ∧ form.sync.sync = form.sync ∧
      ∀ p w target b, last.panel.widget? p = some w →
        w.spec.effect = .disableWhenChecked target → last.settings.get p = .flag b →
        last.panel.enabled? target = some (!b) := by
  intro last
  have hspecs := specs_sync form h.wired
  have hbuilt : form.sync.panel.Built := h.of_specs_eq hspecs
  have hstart : form.sync.InLine := inLine_sync h.wired
  obtain ⟨hlast, hlastSpecs⟩ : last.InLine ∧ last.panel.specs = form.sync.panel.specs := by
    refine hstart.run hbuilt ?_
    intro op hop
    exact (hops op hop).of_specs_eq hspecs
  refine ⟨?_, ?_, ?_⟩
  · exact sync_of_inLine (hbuilt.of_specs_eq hlastSpecs).wired hlast
  · exact sync_of_inLine hbuilt.wired hstart
  · intro p w target b hw heffect hvalue
    exact hlast.enabled_eq hw heffect hvalue

/-- So it is where two checkboxes disable the size, one of them for a number: the flag that is
checked there is refused, another flag is set by hand, and the size takes input in the end because
the dynamic size was unchecked. -/
theorem sync_after_run_of_two_checkboxes :
    let panel : Panel := ⟨"Two", [
      (.distance, { spec := ⟨"Spacing", .checkbox, none, .disableWhenChecked .offset⟩ }),
      (.mouseOffset, { spec := ⟨"Dynamic size", .checkbox, none, .disableWhenChecked .offset⟩ }),
      (.offset, { spec := ⟨"Size", .number, none, .store⟩ })]⟩
    let form : Form := ⟨panel, { mouseOffset := true }⟩
    let ops : List Op := [.edit .offset (.number 5), .edit .mouseOffset (.flag false),
      .edit .distance (.flag true), .setEnabled .distance false]
    let last := (form.sync.run ops).2
    form.panel.Built ∧ (∀ op ∈ ops, op.Spares form.panel) ∧ last.sync = last ∧
      form.sync.panel.enabled? .offset = some false ∧ last.panel.enabled? .offset = some true := by
  intro panel form ops last
  have hbuilt : form.panel.Built := by
    rw [Panel.built_iff]
    decide
  have hops : ∀ op ∈ ops, op.Spares form.panel := by decide
  obtain ⟨hlast, -, hflags⟩ := sync_after_run form hbuilt ops hops
  refine ⟨hbuilt, hops, hlast, by decide, ?_⟩
  exact hflags .mouseOffset _ .offset false rfl rfl rfl

end Form

end StripeBrush
