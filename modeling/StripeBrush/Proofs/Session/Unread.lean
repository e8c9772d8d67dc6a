/-
**Parameters that nothing reads.**

No stripe depends on the speed scale, and none depends on the size while it is dynamic.  Neither of
the two is forwarded to the sampler, and their widgets set no flags.  So whatever values these
parameters are given, and whenever, and whatever becomes of the flags of their widgets, nothing else
shows it: two sessions that differ in such a parameter alone draw the same stripes and answer the
same to everything that is not about it.

The two runs need not even be of the same length.  They go on side by side where they do the same,
and each by itself where it does something about the parameter.

Main definitions:

* `Unread` — the parameters that no stripe depends on;
* `Session.Op.isAbout`, `Session.besides` — the operations about a parameter, and a run without
  them;
* `Session.Alongside` — how two runs that do the same besides go along with each other;
* `Session.seenBesides`, `Session.drawnIn` — what is seen of a run besides, and all that it draws;
* `Session.SameBesides` — two sessions differ at most in a parameter and the flag of its widget;
* `Session.Step.fixesSize` — an operation has made the size fixed.

Main results:

* `Settings.stripe_eq_of_unread` — stripes do not depend on such a parameter;
* `Session.sameBesides_apply`, `Session.SameBesides.apply` — an operation about the parameter on one
  side, and any other one on both;
* `Session.SameBesides.run` — **two runs that do the same besides**;
* `Session.unread_from_start` — what this says of the speed scale and of the dynamic size.
-/

import StripeBrush.Proofs.Session.Alike
import StripeBrush.Proofs.Session.Flags

set_option relaxedAutoImplicit false
set_option autoImplicit false

namespace StripeBrush

/-! ### What stripes depend on -/

/-- No stripe depends on the parameter: it is the speed scale, or the size while that is dynamic. -/
def Unread (p : Param) (s : Settings) : Prop :=
  p = .speedScale ∨ p = .offset ∧ s.mouseOffset = true

namespace Settings

variable {s t : Settings} {p : Param}

/-- The stripe of a sample depends on whether the size is dynamic, and on the size where it is
fixed. -/
theorem stripe_congr (hdynamic : s.mouseOffset = t.mouseOffset)
    (hoffset : s.mouseOffset = false → s.offset = t.offset) (sample : Sample) :
    s.stripe sample = t.stripe sample := by
  have hstep : s.step sample.delta = t.step sample.delta := by
    unfold step
    rw [← hdynamic]
    cases hb : s.mouseOffset with
    | true => rfl
    | false => rw [hoffset hb]
  unfold stripe
  rw [hstep]

/-- Stripes do not depend on a parameter that is not read. -/
theorem stripe_eq_of_unread (h : ∀ q, q ≠ p → s.get q = t.get q) (hp : Unread p s)
    (sample : Sample) : s.stripe sample = t.stripe sample := by
  rcases hp with rfl | ⟨rfl, hdynamic⟩
  · refine stripe_congr (Value.flag.inj (h .mouseOffset (by decide))) ?_ sample
    intro _
    exact Value.number.inj (h .offset (by decide))
  · refine stripe_congr (Value.flag.inj (h .mouseOffset (by decide))) ?_ sample
    intro hfixed
    simp [hdynamic] at hfixed

end Settings

/-- A parameter that is not read has a widget without an effect. -/
theorem Unread.effect_eq {p : Param} {s : Settings} (h : Unread p s) :
    (brushSpec p).effect = .store := by
  rcases h with rfl | ⟨rfl, -⟩ <;> rfl

/-! ### Edits in two forms -/

namespace Form

variable {form form' form₁ form₁' : Form} {param : Param} {value : Value} {w w' : Widget}
  {outcome : EditOutcome}

/-- Edits of two forms that have the same outcome leave equal values equal. -/
theorem Edited.get_eq_of_eq (h : form.Edited w param value outcome form₁)
    (h' : form'.Edited w' param value outcome form₁') {q : Param}
    (hq : form.settings.get q = form'.settings.get q) :
    form₁.settings.get q = form₁'.settings.get q := by
  rw [h.get_eq, h'.get_eq, hq]

/-- They leave equal flags equal. -/
theorem Edited.enabled_eq_of_eq (h : form.Edited w param value outcome form₁)
    (h' : form'.Edited w' param value outcome form₁') {q : Param}
    (hq : form.panel.enabled? q = form'.panel.enabled? q) :
    form₁.panel.enabled? q = form₁'.panel.enabled? q := by
  rw [h.enabled_eq, h'.enabled_eq, hq]

end Form

namespace Session

variable {s t u : Session} {p : Param} {op : Op} {ops ops' : List Op}

/-! ### Runs beside a parameter -/

/-- The operations about a parameter: edits of it, and settings of the flag of its widget. -/
def Op.isAbout (p : Param) : Op → Bool
  | .edit q _ => q = p
  | .setEnabled q _ => q = p
  | _ => false

/-- A run without the operations about a parameter. -/
def besides (p : Param) (ops : List Op) : List Op := ops.filter fun op => !op.isAbout p

/-- What is seen of a run, the operations about a parameter left out. -/
def seenBesides (s : Session) (p : Param) (ops : List Op) : List (Reply × List Segment) :=
  ((ops.zip (s.run ops)).filter fun e => !e.1.isAbout p).map fun e => e.2.seen

/-- All that a run draws, in order. -/
def drawnIn (s : Session) (ops : List Op) : List Segment := (s.run ops).flatMap Step.drawn

theorem seenBesides_cons (s : Session) (p : Param) (op : Op) (ops : List Op) :
    s.seenBesides p (op :: ops) =
      (if op.isAbout p then [] else [(s.apply op).seen]) ++
        (s.apply op).session.seenBesides p ops := by
  simp only [seenBesides, run, List.zip_cons_cons, List.filter_cons]
  cases op.isAbout p <;> rfl

theorem drawnIn_cons (s : Session) (op : Op) (ops : List Op) :
    s.drawnIn (op :: ops) = (s.apply op).drawn ++ (s.apply op).session.drawnIn ops := rfl

/-- How two runs go along with each other: both do the same, or one of them does something about
the parameter. -/
inductive Alongside (p : Param) : List Op → List Op → Prop where
  | nil : Alongside p [] []
  | left {op : Op} {ops ops' : List Op} (hop : op.isAbout p = true)
      (rest : Alongside p ops ops') : Alongside p (op :: ops) ops'
  | right {op : Op} {ops ops' : List Op} (hop : op.isAbout p = true)
      (rest : Alongside p ops ops') : Alongside p ops (op :: ops')
  | both {op : Op} {ops ops' : List Op} (hop : op.isAbout p = false)
      (rest : Alongside p ops ops') : Alongside p (op :: ops) (op :: ops')

theorem alongside_of_besides_eq (h : besides p ops = besides p ops') : Alongside p ops ops' := by
  induction ops generalizing ops' with
  | nil =>
      induction ops' with
      | nil => exact .nil
      | cons op ops' ih =>
          cases hop : op.isAbout p with
          | true => exact .right hop (ih (by simpa [besides, hop] using h))
          | false => simp [besides, hop] at h
  | cons op ops ih =>
      cases hop : op.isAbout p with
      | true => exact .left hop (ih (by simpa [besides, hop] using h))
      | false =>
          induction ops' with
          | nil => simp [besides, hop] at h
          | cons op' ops' ih' =>
              cases hop' : op'.isAbout p with
              | true => exact .right hop' (ih' (by simpa [besides, hop, hop'] using h))
              | false =>
                  have hcons : op :: besides p ops = op' :: besides p ops' := by
                    simpa [besides, hop, hop'] using h
                  obtain ⟨rfl, hrest⟩ := List.cons.inj hcons
                  exact .both hop (ih hrest)

/-! ### Sessions that are the same besides a parameter -/

/-- Two sessions differ at most in a parameter and in the flag of its widget. -/
structure SameBesides (s : Session) (p : Param) (t : Session) : Prop where
  get_eq : ∀ q, q ≠ p → s.settings.get q = t.settings.get q
  enabled_eq : ∀ q, q ≠ p → s.form.panel.enabled? q = t.form.panel.enabled? q
  phase_eq : s.phase = t.phase
  sampler_eq : s.sampler = t.sampler

namespace SameBesides

theorem refl (s : Session) (p : Param) : s.SameBesides p s :=
  ⟨fun _ _ => rfl, fun _ _ => rfl, rfl, rfl⟩

theorem symm (h : s.SameBesides p t) : t.SameBesides p s :=
  ⟨fun q hq => (h.get_eq q hq).symm, fun q hq => (h.enabled_eq q hq).symm, h.phase_eq.symm,
    h.sampler_eq.symm⟩

theorem trans (h : s.SameBesides p t) (h' : t.SameBesides p u) : s.SameBesides p u :=
  ⟨fun q hq => (h.get_eq q hq).trans (h'.get_eq q hq),
    fun q hq => (h.enabled_eq q hq).trans (h'.enabled_eq q hq), h.phase_eq.trans h'.phase_eq,
    h.sampler_eq.trans h'.sampler_eq⟩

theorem widget?_eq (h : s.SameBesides p t) (hs : s.Coherent) (ht : t.Coherent) {q : Param}
    (hq : q ≠ p) : s.form.panel.widget? q = t.form.panel.widget? q := by
  obtain ⟨w, hw, hspec⟩ := Panel.widget?_of_specs_eq hs.specs_eq q
  obtain ⟨w', hw', hspec'⟩ := Panel.widget?_of_specs_eq ht.specs_eq q
  have henabled := h.enabled_eq q hq
  simp only [Panel.enabled?, hw, hw', Option.map_some, Option.some.injEq] at henabled
  rw [hw, hw']
  cases w
  cases w'
  simp_all

/-- Where the parameter is not read, the sessions draw alike. -/
theorem drawsAlike (h : s.SameBesides p t) (hp : Unread p s.settings) : s.DrawsAlike t :=
  ⟨Settings.stripe_eq_of_unread h.get_eq hp, h.phase_eq, h.sampler_eq⟩

end SameBesides

/-! ### One operation -/

/-- Setting a flag by hand is never refused. -/
theorem Coherent.apply_setEnabled (h : s.Coherent) (q : Param) (b : Bool) :
    s.apply (.setEnabled q b) = {
      reply := .done
      session := { s with form := { s.form with panel := s.form.panel.setFlag q b } } } := by
  obtain ⟨w, hw, -⟩ := Panel.widget?_of_specs_eq h.specs_eq q
  rw [Session.apply_setEnabled, if_pos (by simp [hw])]

/-- An operation about a parameter whose widget has no effect changes nothing besides, and draws
nothing. -/
theorem sameBesides_apply (hs : s.Coherent) (hstore : (brushSpec p).effect = .store)
    (hop : op.isAbout p = true) :
    s.SameBesides p (s.apply op).session ∧ (s.apply op).drawn = [] := by
  cases op with
  | edit q value =>
      obtain rfl : q = p := by simpa [Op.isAbout] using hop
      obtain ⟨outcome, form', hedit⟩ | ⟨fault, hedit⟩ := s.form.edit_cases q value
      · obtain ⟨w, -, hspec, -, hedited⟩ := hs.edited hedit
        have hmin : outcome.minDistance = none := by
          refine hedited.minDistance_eq_none ?_
          rw [hspec, hstore]
          decide
        have htoggled : outcome.toggled = none := by
          refine hedited.toggled_eq_none ?_
          intro target
          rw [hspec, hstore]
          simp
        rw [apply_edit_of_ok hedit, hmin]
        refine ⟨⟨?_, ?_, rfl, rfl⟩, rfl⟩
        · intro r hr
          exact ((hedited.get_eq r).trans (if_neg hr)).symm
        · intro r _
          have hflag := hedited.enabled_eq r
          rw [htoggled] at hflag
          exact hflag.symm
      · rw [apply_edit_of_error hedit]
        exact ⟨.refl s q, rfl⟩
  | setEnabled q b =>
      obtain rfl : q = p := by simpa [Op.isAbout] using hop
      rw [hs.apply_setEnabled]
      refine ⟨⟨fun _ _ => rfl, ?_, rfl, rfl⟩, rfl⟩
      intro r hr
      rw [Panel.enabled?_setFlag, if_neg hr]
  | _ => simp [Op.isAbout] at hop

/-- An edit of another parameter is answered in the same way by both sessions. -/
theorem SameBesides.apply_edit (h : s.SameBesides p t) (hs : s.Coherent) (ht : t.Coherent)
    {q : Param} (hq : q ≠ p) (value : Value) :
    (s.apply (.edit q value)).seen = (t.apply (.edit q value)).seen ∧
      (s.apply (.edit q value)).session.SameBesides p (t.apply (.edit q value)).session := by
  have hregistered : ∀ r, (s.form.panel.widget? r).isSome = (t.form.panel.widget? r).isSome := by
    intro r
    obtain ⟨w, hw, -⟩ := Panel.widget?_of_specs_eq hs.specs_eq r
    obtain ⟨w', hw', -⟩ := Panel.widget?_of_specs_eq ht.specs_eq r
    rw [hw, hw']
    rfl
  have hanswer := Form.edit_congr (h.widget?_eq hs ht hq) hregistered value
  obtain ⟨outcome, form', hedit⟩ | ⟨fault, hedit⟩ := s.form.edit_cases q value
  · rcases hedit' : t.form.edit q value with ⟨fault | outcome', form''⟩
    · simp [hedit, hedit'] at hanswer
    obtain rfl : outcome = outcome' := by simpa [hedit, hedit'] using hanswer
    obtain ⟨w, -, -, -, hedited⟩ := hs.edited hedit
    obtain ⟨w', -, -, -, hedited'⟩ := ht.edited hedit'
    rw [apply_edit_of_ok hedit, apply_edit_of_ok hedit']
    refine ⟨rfl, ⟨?_, ?_, h.phase_eq, ?_⟩⟩
    · intro r hr
      exact hedited.get_eq_of_eq hedited' (h.get_eq r hr)
    · intro r hr
      exact hedited.enabled_eq_of_eq hedited' (h.enabled_eq r hr)
    · simp only [h.sampler_eq]
  · rcases hedit' : t.form.edit q value with ⟨fault' | outcome, form''⟩
    · obtain rfl : fault = fault' := by simpa [hedit, hedit'] using hanswer
      rw [apply_edit_of_error hedit, apply_edit_of_error hedit']
      exact ⟨rfl, h⟩
    · simp [hedit, hedit'] at hanswer

/-- Setting the flag of another widget does the same to both sessions. -/
theorem SameBesides.apply_setEnabled (h : s.SameBesides p t) (hs : s.Coherent) (ht : t.Coherent)
    (q : Param) (b : Bool) :
    (s.apply (.setEnabled q b)).seen = (t.apply (.setEnabled q b)).seen ∧
      (s.apply (.setEnabled q b)).session.SameBesides p
        (t.apply (.setEnabled q b)).session := by
  rw [hs.apply_setEnabled, ht.apply_setEnabled]
  refine ⟨rfl, ⟨h.get_eq, ?_, h.phase_eq, h.sampler_eq⟩⟩
  intro r hr
  have hflag := h.enabled_eq r hr
  rw [Panel.enabled?_setFlag, Panel.enabled?_setFlag]
  split
  · rename_i hrq
    rw [← hrq, hflag]
  · exact hflag

/-- A pointer operation draws the same stripes in both sessions, as long as the parameter is not
read. -/
theorem SameBesides.apply_pointer (h : s.SameBesides p t) (hp : Unread p s.settings)
    (hop : op.isPointer = true) :
    (s.apply op).seen = (t.apply op).seen ∧
      (s.apply op).session.SameBesides p (t.apply op).session := by
  obtain ⟨hseen, hnext⟩ := (h.drawsAlike hp).apply hop
  have hform := (sameForm_apply s hop).form_eq
  have hform' := (sameForm_apply t hop).form_eq
  refine ⟨hseen, ⟨?_, ?_, hnext.phase_eq, hnext.sampler_eq⟩⟩
  · rw [settings, settings, hform, hform']
    exact h.get_eq
  · rw [hform, hform']
    exact h.enabled_eq

/-- Any operation that is not about the parameter keeps two sessions the same besides, and the same
is seen of it in both. -/
theorem SameBesides.apply (h : s.SameBesides p t) (hs : s.Coherent) (ht : t.Coherent)
    (hp : Unread p s.settings) (hop : op.isAbout p = false) :
    (s.apply op).seen = (t.apply op).seen ∧
      (s.apply op).session.SameBesides p (t.apply op).session := by
  cases op with
  | edit q value => exact h.apply_edit hs ht (by simpa [Op.isAbout] using hop) value
  | setEnabled q b => exact h.apply_setEnabled hs ht q b
  | _ => exact h.apply_pointer hp rfl

/-! ### Runs -/

/-- **Two runs that do the same besides.**  If two sessions differ at most in a parameter and the
flag of its widget, and so do two runs, and no stripe depends on the parameter in the course of the
first, then the same is seen of both runs besides, both draw the same stripes in the same order, and
the sessions still differ at most in the parameter and the flag. -/
theorem SameBesides.run (h : s.SameBesides p t) (hs : s.Coherent) (ht : t.Coherent)
    (hunread : ∀ part, part <+: ops → Unread p (s.after part).settings)
    (hops : Alongside p ops ops') :
    s.seenBesides p ops = t.seenBesides p ops' ∧ s.drawnIn ops = t.drawnIn ops' ∧
      (s.after ops).SameBesides p (t.after ops') := by
  have hstore : (brushSpec p).effect = .store := (hunread [] List.nil_prefix).effect_eq
  induction hops generalizing s t with
  | nil => exact ⟨rfl, rfl, h⟩
  | left hop rest ih =>
      -- the first session goes on by itself, and is still the same besides as the second one
      rename_i op ops ops'
      obtain ⟨hsame, hdrawn⟩ := sameBesides_apply hs hstore hop
      have hrest : ∀ part, part <+: ops → Unread p ((s.apply op).session.after part).settings := by
        intro part hpart
        exact hunread (op :: part) ((List.prefix_cons_inj op).2 hpart)
      obtain ⟨hseen, hdrew, hlast⟩ := ih (hsame.symm.trans h) (hs.apply op) ht hrest
      rw [seenBesides_cons, drawnIn_cons, if_pos hop, hdrawn]
      exact ⟨hseen, hdrew, hlast⟩
  | right hop rest ih =>
      rename_i op ops ops'
      obtain ⟨hsame, hdrawn⟩ := sameBesides_apply ht hstore hop
      obtain ⟨hseen, hdrew, hlast⟩ := ih (h.trans hsame) hs (ht.apply op) hunread
      rw [seenBesides_cons t, drawnIn_cons t, if_pos hop, hdrawn]
      exact ⟨hseen, hdrew, hlast⟩
  | both hop rest ih =>
      -- only here does it matter that no stripe depends on the parameter
      rename_i op ops ops'
      obtain ⟨hstep, hnext⟩ := h.apply hs ht (hunread [] List.nil_prefix) hop
      have hrest : ∀ part, part <+: ops → Unread p ((s.apply op).session.after part).settings := by
        intro part hpart
        exact hunread (op :: part) ((List.prefix_cons_inj op).2 hpart)
      obtain ⟨hseen, hdrew, hlast⟩ := ih hnext (hs.apply op) (ht.apply op) hrest
      have hdrawn : (s.apply op).drawn = (t.apply op).drawn := congrArg Prod.snd hstep
      refine ⟨?_, ?_, hlast⟩
      · rw [seenBesides_cons, seenBesides_cons, hstep, hseen]
      · rw [drawnIn_cons, drawnIn_cons, hdrawn, hdrew]

/-! ### From the start on -/

/-- Presets that differ at most in a parameter whose widget has no effect start sessions that do. -/
theorem sameBesides_start {preset preset' : Settings} (hstore : (brushSpec p).effect = .store)
    (h : ∀ q, q ≠ p → preset.get q = preset'.get q) (hs : start preset = .ok s)
    (ht : start preset' = .ok t) : s.SameBesides p t := by
  obtain ⟨settings, hget, hstart⟩ := start_eq_brushSession preset
  obtain ⟨settings', hget', hstart'⟩ := start_eq_brushSession preset'
  obtain rfl := Except.ok.inj (hs.symm.trans hstart)
  obtain rfl := Except.ok.inj (ht.symm.trans hstart')
  have hsettings : ∀ q, q ≠ p → settings.get q = settings'.get q := by
    intro q hq
    rw [hget, hget', h q hq]
  have hdynamic : settings.mouseOffset = settings'.mouseOffset := by
    refine Value.flag.inj (hsettings .mouseOffset ?_)
    rintro rfl
    cases hstore
  have hdistance : settings.distance = settings'.distance := by
    refine Value.number.inj (hsettings .distance ?_)
    rintro rfl
    cases hstore
  refine ⟨hsettings, ?_, rfl, ?_⟩
  · intro q _
    rw [enabled?_brushSession, enabled?_brushSession, hdynamic]
  · exact congrArg Sampler.ofMinDistance hdistance

/-- The operation has made the size fixed: it is an edit of the dynamic size that was carried out
and left it unchecked. -/
def Step.fixesSize (step : Step) : Bool :=
  match step.reply with
  | .edited outcome => outcome.param = .mouseOffset && outcome.value = .flag false
  | _ => false

theorem Coherent.mouseOffset_apply (hs : s.Coherent) (hdynamic : s.settings.mouseOffset = true)
    (hop : (s.apply op).fixesSize = false) : (s.apply op).session.settings.mouseOffset = true := by
  rcases s.apply_cases op with ⟨param, value, outcome, form', rfl, hedit, happly⟩ |
    ⟨q, b, -, -, happly⟩ | hsame
  · obtain ⟨w, -, -, -, hedited⟩ := hs.edited hedit
    have hget := hedited.get_eq .mouseOffset
    have hreply : (s.apply (.edit param value)).reply = .edited outcome := by
      rw [apply_edit_of_ok hedit]
    rw [happly]
    change form'.settings.mouseOffset = true
    by_cases hparam : Param.mouseOffset = param
    · -- the new value is the one that is reported
      rw [if_pos hparam] at hget
      cases hb : form'.settings.mouseOffset with
      | true => rfl
      | false =>
          have hvalue : outcome.value = .flag false := by rw [← hget, Settings.get, hb]
          simp [Step.fixesSize, hreply, hedited.param_eq, hparam, hvalue] at hop
    · rw [if_neg hparam] at hget
      exact (Value.flag.inj hget).trans hdynamic
  · rw [happly]
    exact hdynamic
  · rw [settings, hsame.form_eq]
    exact hdynamic

/-- The size stays dynamic in a run in which nothing makes it fixed. -/
theorem Coherent.mouseOffset_after (hs : s.Coherent) (hdynamic : s.settings.mouseOffset = true)
    (hsteps : ∀ step ∈ s.run ops, step.fixesSize = false) {part : List Op} (hpart : part <+: ops) :
    (s.after part).settings.mouseOffset = true := by
  induction part generalizing s ops with
  | nil => exact hdynamic
  | cons op part ih =>
      obtain ⟨rest, rfl⟩ := hpart
      have hnow := hs.mouseOffset_apply hdynamic (hsteps _ (List.mem_cons_self ..))
      refine ih (hs.apply op) hnow ?_ (List.prefix_append part rest)
      intro step hstep
      exact hsteps step (List.mem_cons_of_mem _ hstep)

/-- **What nothing reads makes no difference.**  Two presets that differ at most in the speed scale
and two runs that are the same but for edits of the speed scale and settings of its flag; and two
presets that differ at most in the size, and have it dynamic, and two runs that are the same but for
edits of the size and settings of its flag, with the size dynamic throughout: in either case both
runs draw the same stripes in the same order, every other operation is answered the same, and the
sessions are left in the same phase, with the same sampler, and with the same values and flags of
the other three parameters. -/
theorem unread_from_start (preset preset' : Settings) (ops ops' : List Op) :
    ((∀ q, q ≠ .speedScale → preset.get q = preset'.get q) →
      besides .speedScale ops = besides .speedScale ops' →
      ∃ s t, start preset = .ok s ∧ start preset' = .ok t ∧
        s.seenBesides .speedScale ops = t.seenBesides .speedScale ops' ∧
        s.drawnIn ops = t.drawnIn ops' ∧
        (s.after ops).SameBesides .speedScale (t.after ops')) ∧
    ((∀ q, q ≠ .offset → preset.get q = preset'.get q) → preset.mouseOffset = true →
      besides .offset ops = besides .offset ops' →
      ∃ s t, start preset = .ok s ∧ start preset' = .ok t ∧
        ((∀ step ∈ s.run ops, step.fixesSize = false) →
          s.seenBesides .offset ops = t.seenBesides .offset ops' ∧
          s.drawnIn ops = t.drawnIn ops' ∧
          (s.after ops).SameBesides .offset (t.after ops'))) := by
  obtain ⟨settings, hget, hs⟩ := start_eq_brushSession preset
  obtain ⟨settings', -, ht⟩ := start_eq_brushSession preset'
  have hcoherent := coherent_start hs
  have hcoherent' := coherent_start ht
  constructor
  · intro hpresets hops
    have hstart := sameBesides_start rfl hpresets hs ht
    exact ⟨_, _, hs, ht, hstart.run hcoherent hcoherent' (fun _ _ => .inl rfl)
      (alongside_of_besides_eq hops)⟩
  · intro hpresets hdynamic hops
    have hstart := sameBesides_start rfl hpresets hs ht
    refine ⟨_, _, hs, ht, ?_⟩
    intro hsteps
    have hnow : settings.mouseOffset = true := (Value.flag.inj (hget .mouseOffset)).trans hdynamic
    refine hstart.run hcoherent hcoherent' ?_ (alongside_of_besides_eq hops)
    intro part hpart
    exact .inr ⟨rfl, hcoherent.mouseOffset_after hnow hsteps hpart⟩

/-- So it is where edits of the speed scale are put in, changed and left out, and where the size is
entered by hand while it is dynamic. -/
theorem unread_from_start_of_drags :
    (let preset : Settings := { speedScale := 2 }
    let preset' : Settings := { speedScale := 3 }
    let ops : List Op := [.edit .speedScale (.number 4), .down ⟨0, 0⟩, .move ⟨30, 0⟩,
      .edit .distance (.number 5), .setEnabled .speedScale false, .move ⟨40, 0⟩, .up]
    let ops' : List Op := [.down ⟨0, 0⟩, .move ⟨30, 0⟩, .edit .speedScale (.number 7),
      .edit .distance (.number 5), .move ⟨40, 0⟩, .up]
    (∀ q, q ≠ .speedScale → preset.get q = preset'.get q) ∧
      besides .speedScale ops = besides .speedScale ops' ∧
      ∃ s t, start preset = .ok s ∧ start preset' = .ok t ∧ s.drawnIn ops = t.drawnIn ops') ∧
    (let preset : Settings := { offset := 3, mouseOffset := true }
    let preset' : Settings := { offset := 7, mouseOffset := true }
    let ops : List Op := [.setEnabled .offset true, .edit .offset (.number 25), .down ⟨0, 0⟩,
      .move ⟨30, 0⟩]
    let ops' : List Op := [.setEnabled .offset true, .edit .offset (.number 40), .down ⟨0, 0⟩,
      .move ⟨30, 0⟩]
    (∀ q, q ≠ .offset → preset.get q = preset'.get q) ∧ preset.mouseOffset = true ∧
      besides .offset ops = besides .offset ops' ∧
      ∃ s t, start preset = .ok s ∧ start preset' = .ok t ∧
        (∀ step ∈ s.run ops, step.fixesSize = false) ∧ s.drawnIn ops = t.drawnIn ops') := by
  constructor
  · intro preset preset' ops ops'
    have hpresets : ∀ q, q ≠ .speedScale → preset.get q = preset'.get q := by
      intro q hq
      cases q <;> first | rfl | exact absurd rfl hq
    have hops : besides .speedScale ops = besides .speedScale ops' := by decide +kernel
    obtain ⟨s, t, hs, ht, -, hdrawn, -⟩ := (unread_from_start preset preset' ops ops').1 hpresets
      hops
    exact ⟨hpresets, hops, s, t, hs, ht, hdrawn⟩
  · intro preset preset' ops ops'
    have hpresets : ∀ q, q ≠ .offset → preset.get q = preset'.get q := by
      intro q hq
      cases q <;> first | rfl | exact absurd rfl hq
    have hops : besides .offset ops = besides .offset ops' := by decide +kernel
    obtain ⟨s, t, hs, ht, hboth⟩ := (unread_from_start preset preset' ops ops').2 hpresets rfl hops
    have hstart : start preset = .ok (brushSession preset) := by decide +kernel
    obtain rfl := Except.ok.inj (hstart.symm.trans hs)
    have hsteps : ∀ step ∈ (brushSession preset).run ops, step.fixesSize = false := by
      decide +kernel
    exact ⟨hpresets, rfl, hops, _, t, hs, ht, hsteps, (hboth hsteps).2.1⟩

end Session

end StripeBrush
