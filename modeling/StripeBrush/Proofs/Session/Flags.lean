/-
**Who wrote the flags of the widgets.**

The widgets of a session stay what they are, but for their flags.  A flag is written when the
session starts, and from then on in two ways: by hand, for any widget, and, for the size alone,
whenever the dynamic size is checked or unchecked.  So each flag is what its last writer left.

Where nobody sets the flag of the size by hand, it goes with the settings: the size takes input
exactly while it is fixed.  While it is dynamic every edit of it is refused, and the stored size
stays as it is.

Main definitions:

* `Session.Op.written` — what an operation writes to the flag of a widget, going by its answer;
* `Session.writes` — what a run writes to it, in order;
* `flagAtStart` — what the start of a session leaves.

Main results:

* `Session.enabled?_apply`, `Session.enabled?_after` — **a flag is what its last writer left**;
* `Session.sizeFlag_apply` — the flag of the size goes with the settings, unless it is set by hand;
* `Session.offset_apply` — the size is kept while it is disabled;
* `Session.flags_after` — all of this for whole runs.
-/

import Mathlib.Data.List.Infix
import StripeBrush.Proofs.Session.Activation
import StripeBrush.Proofs.Session.Bounds

set_option relaxedAutoImplicit false
set_option autoImplicit false

namespace StripeBrush

/-- What the start of a session leaves in the flag of a widget: the size takes input where the
preset has it fixed, and all other widgets do. -/
def flagAtStart (preset : Settings) (p : Param) : Bool := p ≠ .offset || !preset.mouseOffset

theorem effect_brushSpec_eq_disable_iff (p target : Param) :
    (brushSpec p).effect = .disableWhenChecked target ↔ p = .mouseOffset ∧ target = .offset := by
  cases p <;> cases target <;> decide

namespace Session

variable {s : Session} {op : Op} {ops : List Op} {p param : Param} {value : Value}
  {outcome : EditOutcome} {form' : Form} {b : Bool}

/-! ### Writers -/

/-- What an operation writes to the flag of the widget of `p`, going by what it answered: an edit of
the dynamic size that was carried out writes the flag of the size, and a flag that was set by hand
is written. -/
def Op.written (p : Param) : Op → Reply → Option Bool
  | .edit .mouseOffset (.flag checked), .edited _ => if p = .offset then some !checked else none
  | .setEnabled q enabled, .done => if p = q then some enabled else none
  | _, _ => none

/-- What a run writes to the flag of the widget of `p`, in order. -/
def writes (s : Session) (p : Param) (ops : List Op) : List Bool :=
  (ops.zip (s.run ops)).filterMap fun e => e.1.written p e.2.reply

theorem writes_cons (s : Session) (p : Param) (op : Op) (ops : List Op) :
    s.writes p (op :: ops) =
      (op.written p (s.apply op).reply).toList ++ (s.apply op).session.writes p ops := by
  simp only [writes, run, List.zip_cons_cons, List.filterMap_cons]
  cases op.written p (s.apply op).reply <;> rfl

theorem Op.written_edit_of_ne (h : param ≠ .mouseOffset) (p : Param) (reply : Reply) :
    Op.written p (.edit param value) reply = none := by
  cases param with
  | mouseOffset => exact absurd rfl h
  | _ => rfl

/-! ### One operation -/

/-- What an edit of the brush's form that was carried out has changed. -/
theorem Coherent.edited (h : s.Coherent)
    (hedit : s.form.edit param value = (.ok outcome, form')) :
    ∃ w, s.form.panel.widget? param = some w ∧ w.spec = brushSpec param ∧
      value.kind = param.kind ∧ s.form.Edited w param value outcome form' := by
  obtain ⟨w, hw, -, hkind, hedited⟩ :=
    Form.edited_of_edit (Panel.built_of_specs_eq h.specs_eq).wired hedit
  obtain ⟨w', hw', hspec⟩ := Panel.widget?_of_specs_eq h.specs_eq param
  obtain rfl := Option.some.inj (hw.symm.trans hw')
  exact ⟨w, hw, hspec, hkind, hedited⟩

/-- An edit writes the flag of the size if it is one of the dynamic size, and no other flag. -/
theorem Coherent.enabled?_edit (h : s.Coherent)
    (hedit : s.form.edit param value = (.ok outcome, form')) (p : Param) :
    form'.panel.enabled? p =
      (Op.written p (.edit param value) (.edited outcome)).or (s.form.panel.enabled? p) := by
  obtain ⟨w, -, hspec, hkind, hedited⟩ := h.edited hedit
  rw [hedited.enabled_eq]
  by_cases hparam : param = .mouseOffset
  · subst hparam
    cases value with
    | number x => simp [Value.kind, Param.kind] at hkind
    | flag checked =>
        have htoggled : outcome.toggled = some (.offset, !checked) := by
          refine (hedited.toggled_iff _ _).2 ⟨?_, ?_⟩
          · rw [hspec, effect_brushSpec_eq_disable_iff]
            exact ⟨rfl, rfl⟩
          · rw [hedited.value_eq, Bool.not_not]
            rfl
        by_cases hp : p = .offset <;> simp [htoggled, Op.written, hp]
  · have htoggled : outcome.toggled = none := by
      refine hedited.toggled_eq_none ?_
      intro target heffect
      rw [hspec, effect_brushSpec_eq_disable_iff] at heffect
      exact hparam heffect.1
    rw [htoggled, Op.written_edit_of_ne hparam]
    rfl

theorem Coherent.enabled?_setFlag (h : s.Coherent) (q : Param) (b : Bool) (p : Param) :
    (s.form.panel.setFlag q b).enabled? p =
      (Op.written p (.setEnabled q b) .done).or (s.form.panel.enabled? p) := by
  obtain ⟨w, hw, -⟩ := Panel.widget?_of_specs_eq h.specs_eq q
  have hflag : s.form.panel.enabled? q = some w.enabled := by simp [Panel.enabled?, hw]
  rw [Panel.enabled?_setFlag, hflag]
  by_cases hp : p = q <;> simp [Op.written, hp]

/-- **After an operation a flag is what the operation has written**, and else what it was. -/
theorem Coherent.enabled?_apply (h : s.Coherent) (op : Op) (p : Param) :
    (s.apply op).session.form.panel.enabled? p =
      (op.written p (s.apply op).reply).or (s.form.panel.enabled? p) := by
  cases op with
  | edit param value =>
      obtain ⟨outcome, form', hedit⟩ | ⟨fault, hedit⟩ := s.form.edit_cases param value
      · rw [apply_edit_of_ok hedit]
        exact h.enabled?_edit hedit p
      · have hwritten : Op.written p (.edit param value) (.failed fault) = none := by
          cases param <;> cases value <;> rfl
        rw [apply_edit_of_error hedit, hwritten, Option.none_or]
  | setEnabled q enabled =>
      rw [apply_setEnabled]
      split
      · exact h.enabled?_setFlag q enabled p
      · rfl
  | down pos => rfl
  | move pos => rfl
  | drag sample => rfl
  | up => rfl
  | route event =>
      simp only [Session.apply, form_route]
      rfl
  | frame input =>
      simp only [Session.apply, (sameForm_routeAll s input.events).form_eq]
      rfl

/-! ### Runs -/

/-- **A flag is what its last writer left.** -/
theorem Coherent.enabled?_after (h : s.Coherent) (ops : List Op)
    (hb : s.form.panel.enabled? p = some b) :
    (s.after ops).form.panel.enabled? p = some ((s.writes p ops).getLast?.getD b) := by
  induction ops generalizing s b with
  | nil => exact hb
  | cons op ops ih =>
      have hstep := h.enabled?_apply op p
      rw [after_cons, writes_cons]
      cases hwritten : op.written p (s.apply op).reply with
      | none =>
          rw [hwritten, Option.none_or, hb] at hstep
          exact ih (h.apply op) hstep
      | some c =>
          rw [hwritten, Option.some_or] at hstep
          rw [ih (h.apply op) hstep, Option.toList_some, List.singleton_append,
            List.getLast?_cons, Option.getD_some]

/-! ### The flag of the size -/

/-- The size takes input exactly while it is fixed. -/
def SizeFlag (s : Session) : Prop :=
  s.form.panel.enabled? .offset = some (!s.settings.mouseOffset)

/-- The flag of the size goes with the settings, unless it is set by hand. -/
theorem Coherent.sizeFlag_apply (h : s.Coherent) (hflag : s.SizeFlag)
    (hop : ∀ enabled, op ≠ .setEnabled .offset enabled) : (s.apply op).session.SizeFlag := by
  have hstep := h.enabled?_apply op .offset
  rcases s.apply_cases op with ⟨param, value, outcome, form', rfl, hedit, hs⟩ |
    ⟨q, enabled, rfl, -, hs⟩ | hsame
  · -- the edit writes both or neither
    obtain ⟨w, -, -, hkind, hedited⟩ := h.edited hedit
    have hget := hedited.get_eq .mouseOffset
    unfold SizeFlag
    rw [hs]
    change form'.panel.enabled? .offset = some (!form'.settings.mouseOffset)
    rw [h.enabled?_edit hedit]
    by_cases hparam : param = .mouseOffset
    · subst hparam
      cases value with
      | number x => simp [Value.kind, Param.kind] at hkind
      | flag checked =>
          rw [if_pos rfl, hedited.value_eq] at hget
          rw [Value.flag.inj hget]
          rfl
    · rw [if_neg (Ne.symm hparam)] at hget
      rw [Op.written_edit_of_ne hparam, Option.none_or, Value.flag.inj hget]
      exact hflag
  · -- the flag of another widget is set
    have hq : Param.offset ≠ q := by
      rintro rfl
      exact hop enabled rfl
    unfold SizeFlag
    rw [hs]
    change (s.form.panel.setFlag q enabled).enabled? .offset = some (!s.settings.mouseOffset)
    have hnone : Op.written .offset (.setEnabled q enabled) .done = none := if_neg hq
    rw [h.enabled?_setFlag, hnone]
    exact hflag
  · unfold SizeFlag Session.settings
    rw [hsame.form_eq]
    exact hflag

/-- The size is kept while it is disabled, whatever is done. -/
theorem Coherent.offset_apply (h : s.Coherent)
    (hdisabled : s.form.panel.enabled? .offset = some false) (op : Op) :
    (s.apply op).session.settings.offset = s.settings.offset := by
  rcases s.apply_cases op with ⟨param, value, outcome, form', -, hedit, hs⟩ |
    ⟨q, enabled, -, -, hs⟩ | hsame
  · obtain ⟨w, hw, henabled, -⟩ := Form.accepts_of_edit hedit
    obtain ⟨w', -, -, -, hedited⟩ := h.edited hedit
    have hparam : Param.offset ≠ param := by
      rintro rfl
      simp [Panel.enabled?, hw, henabled] at hdisabled
    have hget := hedited.get_eq .offset
    rw [if_neg hparam] at hget
    rw [hs]
    exact Value.number.inj hget
  · rw [hs]
    rfl
  · unfold Session.settings
    rw [hsame.form_eq]

/-- While the size is dynamic, and its flag is not set by hand, it is kept. -/
theorem Coherent.offset_after (h : s.Coherent) (hflag : s.SizeFlag) (stretch : List Op)
    (hops : ∀ enabled, .setEnabled .offset enabled ∉ stretch)
    (hdynamic : ∀ part, part <+: stretch → (s.after part).settings.mouseOffset = true) :
    (s.after stretch).settings.offset = s.settings.offset := by
  induction stretch generalizing s with
  | nil => rfl
  | cons op stretch ih =>
      have hdisabled : s.form.panel.enabled? .offset = some false := by
        have hnow : s.settings.mouseOffset = true := hdynamic [] List.nil_prefix
        rw [hflag, hnow]
        rfl
      have hop : ∀ enabled, op ≠ .setEnabled .offset enabled := by
        rintro enabled rfl
        exact hops enabled (List.mem_cons_self ..)
      have hrest := ih (h.apply op) (h.sizeFlag_apply hflag hop)
        (fun enabled hmem => hops enabled (List.mem_cons_of_mem _ hmem))
        (fun part hpart => hdynamic (op :: part) ((List.prefix_cons_inj op).2 hpart))
      rw [after_cons, hrest]
      exact h.offset_apply hdisabled op

theorem Coherent.sizeFlag_after (h : s.Coherent) (hflag : s.SizeFlag) (ops : List Op)
    (hops : ∀ enabled, .setEnabled .offset enabled ∉ ops) : (s.after ops).SizeFlag := by
  induction ops generalizing s with
  | nil => exact hflag
  | cons op ops ih =>
      have hop : ∀ enabled, op ≠ .setEnabled .offset enabled := by
        rintro enabled rfl
        exact hops enabled (List.mem_cons_self ..)
      exact ih (h.apply op) (h.sizeFlag_apply hflag hop)
        fun enabled hmem => hops enabled (List.mem_cons_of_mem _ hmem)

/-! ### From the start on -/

theorem enabled?_start {preset : Settings} (h : start preset = .ok s) (p : Param) :
    s.form.panel.enabled? p = some (flagAtStart preset p) := by
  obtain ⟨t, hget, hstart⟩ := start_eq_brushSession preset
  obtain rfl := Except.ok.inj (h.symm.trans hstart)
  have hkept : t.mouseOffset = preset.mouseOffset := Value.flag.inj (hget .mouseOffset)
  rw [enabled?_brushSession, hkept]
  rfl

/-- **The widgets stay what they are, and a flag is what its last writer left.**  In a run that does
not set the flag of the size by hand, the size takes input exactly while it is fixed, and over any
stretch in which it is dynamic throughout, the stored size is kept. -/
theorem flags_after (preset : Settings) (ops : List Op) :
    ∃ s, start preset = .ok s ∧
      (s.after ops).form.panel.specs = brushWidgets ∧
      (∀ p, (s.after ops).form.panel.enabled? p =
        some ((s.writes p ops).getLast?.getD (flagAtStart preset p))) ∧
      ((∀ enabled, .setEnabled .offset enabled ∉ ops) →
        (s.after ops).form.panel.enabled? .offset =
          some (!(s.after ops).settings.mouseOffset) ∧
        ∀ before stretch rest, ops = before ++ stretch ++ rest →
          (∀ part, part <+: stretch → (s.after (before ++ part)).settings.mouseOffset = true) →
          (s.after (before ++ stretch)).settings.offset = (s.after before).settings.offset) := by
  obtain ⟨t, -, hstart⟩ := start_eq_brushSession preset
  have hcoherent := coherent_start hstart
  have hflag : (brushSession t).SizeFlag := by
    unfold SizeFlag
    rw [enabled?_brushSession]
    rfl
  refine ⟨brushSession t, hstart, ?_, fun p => ?_, fun hops => ⟨?_, ?_⟩⟩
  · exact (after_induction (fun s op h => h.apply op) hcoherent ops).specs_eq
  · exact hcoherent.enabled?_after ops (enabled?_start hstart p)
  · exact hcoherent.sizeFlag_after hflag ops hops
  · rintro before stretch rest rfl hdynamic
    have hbefore : ∀ enabled, .setEnabled .offset enabled ∉ before :=
      fun enabled hmem => hops enabled (by simp [hmem])
    have hstretch : ∀ enabled, .setEnabled .offset enabled ∉ stretch :=
      fun enabled hmem => hops enabled (by simp [hmem])
    rw [after_append]
    refine Coherent.offset_after (after_induction (fun s op h => h.apply op) hcoherent before)
      (hcoherent.sizeFlag_after hflag before hbefore) stretch hstretch fun part hpart => ?_
    rw [← after_append]
    exact hdynamic part hpart

/-- So it is where the dynamic size is checked, an edit of the size is refused and another flag is
set by hand meanwhile, and the dynamic size is unchecked again. -/
theorem flags_after_of_dynamic :
    let before : List Op := [.edit .mouseOffset (.flag true)]
    let stretch : List Op := [.edit .offset (.number 25), .setEnabled .speedScale false]
    let rest : List Op := [.edit .mouseOffset (.flag false), .edit .offset (.number 40)]
    ∃ s, start .default = .ok s ∧
      (∀ enabled, .setEnabled .offset enabled ∉ before ++ stretch ++ rest) ∧
      (∀ part, part <+: stretch → (s.after (before ++ part)).settings.mouseOffset = true) ∧
      (s.after (before ++ stretch)).settings.offset = (s.after before).settings.offset ∧
      s.writes .offset (before ++ stretch ++ rest) = [false, true] ∧
      (s.after (before ++ stretch ++ rest)).form.panel.enabled? .offset = some true := by
  intro before stretch rest
  obtain ⟨s, hstart, -, hlast, hsize⟩ := flags_after .default (before ++ stretch ++ rest)
  obtain rfl := Except.ok.inj (start_default.symm.trans hstart)
  have hops : ∀ enabled, .setEnabled .offset enabled ∉ before ++ stretch ++ rest := by decide
  have hdynamic : ∀ part ∈ stretch.inits,
      ((brushSession .default).after (before ++ part)).settings.mouseOffset = true := by
    decide +kernel
  have hstretch : ∀ part, part <+: stretch →
      ((brushSession .default).after (before ++ part)).settings.mouseOffset = true :=
    fun part hpart => hdynamic part ((List.mem_inits part stretch).2 hpart)
  have hwrites : (brushSession .default).writes .offset (before ++ stretch ++ rest) =
      [false, true] := by decide +kernel
  refine ⟨_, hstart, hops, hstretch, (hsize hops).2 before stretch rest rfl hstretch, hwrites, ?_⟩
  rw [hlast, hwrites]
  rfl

end Session

end StripeBrush
