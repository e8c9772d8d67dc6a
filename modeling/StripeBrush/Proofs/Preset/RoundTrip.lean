/-
**Settings come back from their preset.**

The text of settings is an object with one member for each parameter, in their order.  The member of
a finite number, or of a flag, is a member that can be read, and its value is the one that was
written.  A number that is not finite is written as a word that is none: there reading ends.

Main definitions:

* `Value.isFinite` — the value has a text that is read back;
* `Preset.ValueForm.null` — the word for nothing, as a value;
* `Preset.writtenMember` — the member of a parameter as it is written.

Main results:

* `Preset.exists_valueForm` — the text of a finite value is a value that is read as this one;
* `Preset.visit_writtenText` — members are read in their order, up to the first one that is refused;
* `Settings.ofPreset_toPreset` — **finite settings come back bit for bit, and others are refused**.
-/

import StripeBrush.Proofs.Json.Printed
import StripeBrush.Proofs.Preset.Members
import StripeBrush.Proofs.Preset.Standard

set_option relaxedAutoImplicit false
set_option autoImplicit false

namespace StripeBrush

/-- A value whose text is read back: a flag, or a finite number. -/
def Value.isFinite : Value → Bool
  | number x => x.isFinite
  | flag _ => true

namespace Param

theorem ofLetters?_letters (p : Param) : ofLetters? p.letters = some p := by
  cases p <;> decide

theorem isPlain_of_mem_letters (p : Param) : ∀ c ∈ p.letters, Json.isPlain c = true := by
  have hall : p.letters.all Json.isPlain = true := by
    cases p <;> rfl
  exact List.all_eq_true.1 hall

/-- The key of a parameter, written letter by letter. -/
def spelling (p : Param) : List Json.Spelling :=
  p.letters.attach.map fun c => .plain ⟨c.1, p.isPlain_of_mem_letters c.1 c.2⟩

theorem spelledText_spelling (p : Param) : Json.spelledText p.spelling = p.letters := by
  cases p <;> rfl

theorem keyText_spelling (p : Param) : Json.keyText p.spelling = '"' :: (p.letters ++ ['"']) := by
  cases p <;> rfl

end Param

namespace Preset

open Json

variable {ε : Type} {codec : Codec ε}

/-! ### Values -/

/-- The word for nothing, as a value. -/
def ValueForm.null : ValueForm := .other ⟨nullText, .word rfl⟩

/-- The text of a finite value is a value that is read as this one. -/
theorem exists_valueForm (hcodec : codec.Lawful) {v : Value} (hv : v.isFinite = true) :
    ∃ form : ValueForm, form.letters = codec.valueText v ∧ form.value? codec v.kind = some v := by
  cases v with
  | flag b => exact ⟨.flag b, rfl, rfl⟩
  | number x =>
      obtain ⟨n, htext, z, hz, rfl⟩ := exists_printed hcodec.toLawful hv
      exact ⟨.number n, htext, ValueForm.value?_number hz⟩

/-- A number that is not finite is written as nothing, and that is no number. -/
theorem nextValue_of_not_isFinite (hcodec : codec.Lawful) {p : Param} {v : Value}
    (hkind : v.kind = p.kind) (hv : ¬ v.isFinite = true) :
    codec.valueText v = nullText ∧ ∀ (b b' : Blanks) (rest : List Char), EndsNumber rest →
      ∃ e, codec.nextValue p (colonText b b' (nullText ++ rest)) = .error e ∧
        codec.category e = .data := by
  cases v with
  | flag b => exact absurd rfl hv
  | number x =>
      refine ⟨hcodec.numberText_of_not_isFinite x (Bool.eq_false_iff.2 hv), ?_⟩
      intro b b' rest hrest
      obtain ⟨e, he, hcategory⟩ := hcodec.nextNumber_null b b' rest hrest
      refine ⟨e, ?_, hcategory⟩
      rw [Codec.nextValue, ← hkind, Value.kind, he]
      rfl

/-! ### Members -/

/-- The member of a parameter as it is written. -/
def writtenMember (inner gap : Blanks) (p : Param) (form : ValueForm) : Member :=
  ⟨noBlanks, inner, p.spelling, noBlanks, gap, form⟩

theorem param?_writtenMember (inner gap : Blanks) (p : Param) (form : ValueForm) :
    (writtenMember inner gap p form).param? = some p := by
  rw [Member.param?, writtenMember, Param.spelledText_spelling, Param.ofLetters?_letters]

section Written

variable (codec) (inner gap closing : Blanks) (s : Settings)

/-- The text of the members of some parameters, and of the end of the object after them. -/
def writtenText : Bool → List Param → List Char
  | _, [] => closing.1 ++ ['\x7d']
  | isFirst, p :: ps =>
    (if isFirst then [] else [',']) ++ (inner.1 ++ ('"' :: (p.letters ++ '"' :: ':' ::
      (gap.1 ++ codec.valueText (s.get p))))) ++ writtenText false ps

theorem recordText_eq :
    codec.recordText inner gap closing s =
      '\x7b' :: writtenText codec inner gap closing s true Param.all := by
  simp [Codec.recordText, writtenText, Param.all, List.intercalate, List.intersperse]

variable {codec s}

theorem writtenText_cons (isFirst : Bool) (p : Param) {form : ValueForm}
    (hform : form.letters = codec.valueText (s.get p)) (ps : List Param) :
    writtenText codec inner gap closing s isFirst (p :: ps) =
      (writtenMember inner gap p form).letters isFirst ++
        writtenText codec inner gap closing s false ps := by
  simp [writtenText, writtenMember, Member.letters, Member.keyLetters, Member.valueLetters,
    colonText, Param.keyText_spelling, hform, noBlanks]

theorem endsNumber_writtenText (ps : List Param) :
    EndsNumber (writtenText codec inner gap closing s false ps) := by
  cases ps with
  | nil => exact endsNumber_append closing (endsNumber_cons (by decide) [])
  | cons p ps => exact endsNumber_cons (by decide) _

variable (hcodec : codec.Lawful) (isFirst : Bool) {fields : Fields} {p : Param} (ps : List Param)
  (hnew : p ∉ fields.map Prod.fst)

include hcodec hnew

/-- A finite value is read back. -/
theorem visit_writtenText_cons (hp : (s.get p).isFinite = true) :
    codec.visit isFirst fields (writtenText codec inner gap closing s isFirst (p :: ps)) =
      codec.visit false (fields ++ [(p, s.get p)]) (writtenText codec inner gap closing s false ps) := by
  obtain ⟨form, hform, hvalue⟩ := exists_valueForm hcodec hp
  rw [Settings.kind_get] at hvalue
  rw [writtenText_cons inner gap closing isFirst p hform]
  exact visit_member_of_some hcodec isFirst fields (param?_writtenMember inner gap p form) hvalue hnew
    (endsNumber_writtenText inner gap closing ps)

theorem visit_writtenText_of_not_isFinite (hp : ¬ (s.get p).isFinite = true) :
    ∃ e, codec.visit isFirst fields (writtenText codec inner gap closing s isFirst (p :: ps)) =
      .error e ∧ codec.category e = .data := by
  obtain ⟨hnull, herror⟩ := nextValue_of_not_isFinite hcodec (s.kind_get p) hp
  obtain ⟨e, he, hcategory⟩ := herror noBlanks gap _ (endsNumber_writtenText inner gap closing ps)
  refine ⟨e, ?_, hcategory⟩
  have hform : ValueForm.null.letters = codec.valueText (s.get p) := hnull.symm
  rw [writtenText_cons inner gap closing isFirst p hform]
  refine visit_member_of_error hcodec isFirst fields (param?_writtenMember inner gap p .null) hnew ?_
  rw [Member.valueLetters, colonText_append]
  exact he

end Written

/-- Members are read in their order, up to the first one that is refused. -/
theorem visit_writtenText {codec : Codec ε} (hcodec : codec.Lawful) (inner gap closing : Blanks)
    {s : Settings} (isFirst : Bool) {fields : Fields} {ps : List Param} (hnodup : ps.Nodup)
    (hnew : ∀ p ∈ ps, p ∉ fields.map Prod.fst) :
    ((∀ p ∈ ps, (s.get p).isFinite = true) →
      codec.visit isFirst fields (writtenText codec inner gap closing s isFirst ps) =
        .ok (fields ++ ps.map fun p => (p, s.get p), [])) ∧
    ((∃ p ∈ ps, ¬ (s.get p).isFinite = true) →
      ∃ e, codec.visit isFirst fields (writtenText codec inner gap closing s isFirst ps) = .error e ∧
        codec.category e = .data) := by
  -- by induction on the members that are left; the fields that were read grow from call to call
  induction ps generalizing isFirst fields with
  | nil =>
      have hclose := hcodec.nextKey_close isFirst closing []
      refine ⟨fun _ => ?_, fun ⟨p, hp, _⟩ => absurd hp List.not_mem_nil⟩
      rw [writtenText, hcodec.visit_close hclose, List.map_nil, List.append_nil]
  | cons p ps ih =>
      obtain ⟨hp, hnodup⟩ := List.nodup_cons.1 hnodup
      have hfresh := hnew p List.mem_cons_self
      by_cases hfin : (s.get p).isFinite = true
      · have hnew' : ∀ q ∈ ps, q ∉ (fields ++ [(p, s.get p)]).map Prod.fst := by
          intro q hq hmem
          rw [List.map_append, List.mem_append] at hmem
          rcases hmem with hold | hthis
          · exact hnew q (List.mem_cons_of_mem p hq) hold
          · obtain rfl : q = p := List.mem_singleton.1 hthis
            exact hp hq
        obtain ⟨hok, herror⟩ := ih false hnodup hnew'
        rw [visit_writtenText_cons inner gap closing hcodec isFirst ps hfresh hfin]
        refine ⟨fun hall => ?_, fun ⟨q, hq, hnot⟩ => herror ?_⟩
        · rw [hok fun q hq => hall q (List.mem_cons_of_mem p hq), List.append_assoc]
          rfl
        · rcases List.mem_cons.1 hq with rfl | hq
          · exact absurd hfin hnot
          · exact ⟨q, hq, hnot⟩
      · exact ⟨fun hall => absurd (hall p List.mem_cons_self) hfin, fun _ =>
          visit_writtenText_of_not_isFinite inner gap closing hcodec isFirst ps hfresh hfin⟩

theorem settingsOf_get (s : Settings) : settingsOf (Param.all.map fun p => (p, s.get p)) = s := rfl

theorem isFinite_get_iff (s : Settings) :
    (∀ p ∈ Param.all, (s.get p).isFinite = true) ↔
      s.offset.isFinite = true ∧ s.distance.isFinite = true ∧ s.speedScale.isFinite = true := by
  simp [Param.all, Settings.get, Value.isFinite]

end Preset

open Preset

/-- **Finite settings come back bit for bit, and others are refused.** -/
theorem Settings.ofPreset_toPreset {ε : Type} {codec : Codec ε} (hcodec : codec.Lawful)
    (s : Settings) :
    ∃ text, s.toPreset codec = .ok text ∧
      (s.offset.isFinite = true ∧ s.distance.isFinite = true ∧ s.speedScale.isFinite = true →
        Settings.ofPreset codec text = .ok s) ∧
      (¬ (s.offset.isFinite = true ∧ s.distance.isFinite = true ∧ s.speedScale.isFinite = true) →
        ∃ e, Settings.ofPreset codec text = .error e ∧ codec.category e = .data) := by
  obtain ⟨inner, gap, closing, hwrite⟩ := hcodec.write_eq
  set text := codec.recordText inner gap closing s with htext
  have hopen := hcodec.openObject_brace Json.noBlanks
    (writtenText codec inner gap closing s true Param.all)
  have hread := hcodec.read_object hopen
  have hnodup : Param.all.Nodup := by decide
  have hnew : ∀ p ∈ Param.all, p ∉ ([] : Fields).map Prod.fst := fun _ _ => List.not_mem_nil
  obtain ⟨hok, herror⟩ := visit_writtenText (s := s) hcodec inner gap closing true hnodup hnew
  have hletters : Json.noBlanks.1 ++ '\x7b' :: writtenText codec inner gap closing s true Param.all =
      (String.ofList text).toList := by
    rw [String.toList_ofList, htext, recordText_eq]
    rfl
  rw [hletters] at hread
  refine ⟨String.ofList text, by rw [toPreset, hwrite]; rfl, fun hfin => ?_, fun hfin => ?_⟩
  · have hfinish := hcodec.finish_blanks Json.noBlanks
    rw [ofPreset, hread, hok ((isFinite_get_iff s).2 hfin), Except.bind]
    change ((codec.finish Json.noBlanks.1).map _).map _ = _
    rw [hfinish]
    exact congrArg Except.ok (settingsOf_get s)
  · rw [← isFinite_get_iff] at hfin
    push Not at hfin
    obtain ⟨e, he, hcategory⟩ := herror hfin
    refine ⟨e, ?_, hcategory⟩
    rw [ofPreset, hread, he]
    rfl

namespace Preset

/-- Settings with negative zero, the smallest number above zero and the largest one. -/
def extremeSettings : Settings where
  offset := -0
  distance := .ofIndex _ false 1
  mouseOffset := true
  speedScale := .ofIndex _ false (Format.binary32.infIndex - 1)

end Preset

theorem Settings.ofPreset_toPreset_of_extremes :
    Preset.standard.Lawful ∧ extremeSettings.offset = .zero _ true ∧
      ∃ text, extremeSettings.toPreset Preset.standard = .ok text ∧
        Settings.ofPreset Preset.standard text = .ok extremeSettings := by
  obtain ⟨text, htext, hread, -⟩ :=
    Settings.ofPreset_toPreset Preset.standard_lawful extremeSettings
  exact ⟨Preset.standard_lawful, by decide +kernel, text, htext, hread (by decide +kernel)⟩

end StripeBrush
