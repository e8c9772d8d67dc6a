/-
**Presets in any form that an object can have.**

A preset may list its members in any order, write them in any way and have others among them.  What
counts is which parameters have which values: these are the settings, with defaults for parameters
that are not there.  A parameter that occurs again is refused as soon as its key is read, whatever
the text goes on with.

Main definitions:

* `Preset.ObjectForm` — an object as it is written, with its text.

Main results:

* `Preset.get_settingsOf`, `Preset.get_settingsOf_of_notMem` — the values that were read are those
  of the settings, and the others are defaults;
* `Settings.ofPreset_object` — **a readable object is read as the values of its members**, in any
  order and with any others among them, and refused with a parameter again.
-/

import StripeBrush.Proofs.Json.Range
import StripeBrush.Proofs.Preset.Members
import StripeBrush.Proofs.Preset.Standard

set_option relaxedAutoImplicit false
set_option autoImplicit false

namespace StripeBrush

namespace Preset

open Json

variable {ε : Type} {codec : Codec ε}

/-! ### Settings from values -/

/-- The settings with the value of one field, if it has the right kind. -/
def setField (s : Settings) (field : Param × Value) : Settings :=
  (s.set field.1 field.2).toOption.getD s

theorem get_setField {s : Settings} {field : Param × Value} (h : field.2.kind = field.1.kind) :
    (setField s field).get field.1 = field.2 := by
  obtain ⟨t, ht⟩ := (s.set_eq_ok_iff field.1 field.2).2 h
  rw [setField, ht]
  exact Settings.get_set_self ht

theorem get_setField_of_ne {s : Settings} {field : Param × Value} {p : Param} (h : p ≠ field.1) :
    (setField s field).get p = s.get p := by
  rw [setField]
  cases hset : s.set field.1 field.2 with
  | error => rfl
  | ok t => exact Settings.get_set_of_ne hset h

theorem get_foldl_of_notMem {fields : Fields} {p : Param} (h : p ∉ fields.map Prod.fst)
    (s : Settings) : (fields.foldl setField s).get p = s.get p := by
  induction fields generalizing s with
  | nil => rfl
  | cons field fields ih =>
      rw [List.map_cons, List.mem_cons, not_or] at h
      rw [List.foldl_cons, ih h.2, get_setField_of_ne h.1]

/-- A parameter without a value has its default. -/
theorem get_settingsOf_of_notMem {fields : Fields} {p : Param} (h : p ∉ fields.map Prod.fst) :
    (settingsOf fields).get p = Settings.default.get p :=
  get_foldl_of_notMem h Settings.default

/-- **The values that were read are those of the settings.** -/
theorem get_settingsOf {fields : Fields} (hkind : ∀ field ∈ fields, field.2.kind = field.1.kind)
    (hnodup : (fields.map Prod.fst).Nodup) {field : Param × Value} (hmem : field ∈ fields) :
    (settingsOf fields).get field.1 = field.2 := by
  suffices h : ∀ s, (fields.foldl setField s).get field.1 = field.2 from h Settings.default
  induction fields with
  | nil => cases hmem
  | cons first fields ih =>
      intro s
      obtain ⟨hfirst, hnodup⟩ := List.nodup_cons.1 hnodup
      rw [List.foldl_cons]
      rcases List.mem_cons.1 hmem with rfl | hmem
      · rw [get_foldl_of_notMem hfirst]
        exact get_setField (hkind _ List.mem_cons_self)
      · exact ih (fun f hf => hkind f (List.mem_cons_of_mem first hf)) hnodup hmem _

/-- The order of values does not matter. -/
theorem settingsOf_perm {fields fields' : Fields}
    (hkind : ∀ field ∈ fields, field.2.kind = field.1.kind) (hnodup : (fields.map Prod.fst).Nodup)
    (hperm : fields'.Perm fields) : settingsOf fields' = settingsOf fields := by
  have hkind' : ∀ field ∈ fields', field.2.kind = field.1.kind :=
    fun field hfield => hkind field (hperm.mem_iff.1 hfield)
  have hnodup' : (fields'.map Prod.fst).Nodup := (hperm.map Prod.fst).nodup_iff.2 hnodup
  refine Settings.ext_get fun p => ?_
  by_cases hp : p ∈ fields.map Prod.fst
  · obtain ⟨field, hfield, rfl⟩ := List.mem_map.1 hp
    rw [get_settingsOf hkind hnodup hfield, get_settingsOf hkind' hnodup' (hperm.mem_iff.2 hfield)]
  · have hp' : p ∉ fields'.map Prod.fst := fun h => hp ((hperm.map Prod.fst).mem_iff.1 h)
    rw [get_settingsOf_of_notMem hp, get_settingsOf_of_notMem hp']

/-! ### The values of readable members -/

theorem map_fst_fieldsOf {ms : List Member} (h : Readable codec ms) :
    (fieldsOf codec ms).map Prod.fst = paramsOf ms := by
  induction ms with
  | nil => rfl
  | cons m ms ih =>
      rw [fieldsOf_cons, paramsOf_cons, List.map_append, ih h.tail]
      cases hp : m.param? with
      | none => simp [Member.field?_eq_none hp]
      | some p =>
          obtain ⟨v, hv⟩ := Option.isSome_iff_exists.1 (h.1 m List.mem_cons_self p hp)
          rw [Member.field?_eq hp hv]
          rfl

theorem kind_of_mem_fieldsOf {ms : List Member} {field : Param × Value}
    (h : field ∈ fieldsOf codec ms) : field.2.kind = field.1.kind := by
  obtain ⟨m, -, hm⟩ := List.mem_filterMap.1 h
  obtain ⟨p, -, hfield⟩ := Option.bind_eq_some_iff.1 hm
  obtain ⟨v, hv, rfl⟩ := Option.map_eq_some_iff.1 hfield
  exact ValueForm.kind_of_value? hv

theorem Readable.nodup_fieldsOf {ms : List Member} (h : Readable codec ms) :
    ((fieldsOf codec ms).map Prod.fst).Nodup := by
  rw [map_fst_fieldsOf h]
  exact h.2

/-- **A parameter that occurs has the value that is written.** -/
theorem Readable.value?_eq {ms : List Member} (h : Readable codec ms) {m : Member} (hm : m ∈ ms)
    {p : Param} (hp : m.param? = some p) :
    m.value.value? codec p.kind = some ((settingsOf (fieldsOf codec ms)).get p) := by
  obtain ⟨v, hv⟩ := Option.isSome_iff_exists.1 (h.1 m hm p hp)
  have hmem : (p, v) ∈ fieldsOf codec ms := List.mem_filterMap.2 ⟨m, hm, Member.field?_eq hp hv⟩
  rw [hv, get_settingsOf (fun _ => kind_of_mem_fieldsOf) h.nodup_fieldsOf hmem]

theorem Readable.get_eq_default {ms : List Member} (h : Readable codec ms) {p : Param}
    (hp : ∀ m ∈ ms, m.param? ≠ some p) :
    (settingsOf (fieldsOf codec ms)).get p = Settings.default.get p := by
  refine get_settingsOf_of_notMem ?_
  rw [map_fst_fieldsOf h, paramsOf, List.mem_filterMap]
  rintro ⟨m, hm, hparam⟩
  exact hp m hm hparam

/-! ### Objects -/

/-- An object as it is written. -/
structure ObjectForm where
  before : Blanks
  members : List Member
  inside : Blanks
  after : Blanks

namespace ObjectForm

/-- The text of an object from its brace up to the end of its last member. -/
def opening (o : ObjectForm) : List Char := '\x7b' :: membersLetters true o.members

/-- The text of an object. -/
def text (o : ObjectForm) : String :=
  String.ofList (o.before.1 ++ (o.opening ++ (o.inside.1 ++ '\x7d' :: o.after.1)))

/-- The text of an object that has the key of another member after its members, and then any
text. -/
def textWith (o : ObjectForm) (m : Member) (rest : List Char) : String :=
  String.ofList (o.before.1 ++ (o.opening ++ (m.keyLetters false ++ rest)))

variable (hcodec : codec.Lawful)

include hcodec

/-- Up to the end of its last member, an object is read as the values of its members. -/
theorem read_opening {o : ObjectForm} (h : Readable codec o.members) {tail : List Char}
    (htail : EndsNumber tail) :
    codec.read (o.before.1 ++ (o.opening ++ tail)) =
      (codec.visit o.members.isEmpty (fieldsOf codec o.members) tail).bind fun r =>
        (codec.finish r.2).map fun _ => r.1 := by
  have hopen := hcodec.openObject_brace o.before (membersLetters true o.members ++ tail)
  have hvisit := visit_members hcodec true [] h (fun _ _ => List.not_mem_nil) htail
  rw [opening, List.cons_append, hcodec.read_object hopen, hvisit]
  rfl

theorem ofPreset_text {o : ObjectForm} (h : Readable codec o.members) :
    Settings.ofPreset codec o.text = .ok (settingsOf (fieldsOf codec o.members)) := by
  have hread := read_opening hcodec h
    (endsNumber_append o.inside (endsNumber_cons (c := '\x7d') (by decide) o.after.1))
  have hclose := hcodec.nextKey_close o.members.isEmpty o.inside o.after.1
  rw [Settings.ofPreset, text, String.toList_ofList, hread, hcodec.visit_close hclose, Except.bind,
    hcodec.finish_blanks]
  rfl

/-- A parameter that occurs again is refused. -/
theorem ofPreset_textWith {o : ObjectForm} (h : Readable codec o.members) {m : Member} {p : Param}
    (hp : p ∈ paramsOf o.members) (hm : m.param? = some p) (rest : List Char) :
    Settings.ofPreset codec (o.textWith m rest) = .error (codec.duplicateField p.name) := by
  have hfirst : o.members.isEmpty = false := by
    cases hmembers : o.members with
    | nil => simp [hmembers, paramsOf] at hp
    | cons => rfl
  have hknown : p ∈ (fieldsOf codec o.members).map Prod.fst := by
    rwa [map_fst_fieldsOf h]
  have hread := read_opening hcodec h (endsNumber_keyLetters m rest)
  rw [hfirst, hcodec.visit_again (nextKey_keyLetters hcodec false m rest) hm hknown] at hread
  rw [Settings.ofPreset, textWith, String.toList_ofList, hread]
  rfl

end ObjectForm

end Preset

open Preset

/-- **A readable object is read as the values of its members.**

Every parameter that occurs has the value that is written, and every other one its default.  Neither
the order of the members nor those that are for no parameter matter.  A parameter that occurs again
is an error of the data, whatever follows.  A number is a value wherever it is below the bound on
safe numbers and its exponent can be taken at its value. -/
theorem Settings.ofPreset_object {ε : Type} (codec : Codec ε) (hcodec : codec.Lawful)
    (o : ObjectForm) (h : Readable codec o.members) :
    (∃ s, Settings.ofPreset codec o.text = .ok s ∧
      (∀ m ∈ o.members, ∀ p, m.param? = some p →
        m.value.value? codec p.kind = some (s.get p)) ∧
      ∀ p, (∀ m ∈ o.members, m.param? ≠ some p) → s.get p = Settings.default.get p) ∧
    (∀ o' : ObjectForm, Readable codec o'.members →
      (fieldsOf codec o'.members).Perm (fieldsOf codec o.members) →
      Settings.ofPreset codec o'.text = Settings.ofPreset codec o.text) ∧
    (∀ m ∈ o.members, ∀ m' : Member, ∀ p, m.param? = some p → m'.param? = some p → ∀ rest,
      ∃ e, Settings.ofPreset codec (o.textWith m' rest) = .error e ∧
        e = codec.duplicateField p.name ∧ codec.category e = .data) ∧
    ∀ n : Json.NumberForm, n.exponentValue ≤ Json.maxExponent → n.magnitude < Json.safeBound →
      ((ValueForm.number n).value? codec .number).isSome = true := by
  refine ⟨⟨_, ObjectForm.ofPreset_text hcodec h, fun m hm p hp => h.value?_eq hm hp,
    fun p hp => h.get_eq_default hp⟩, ?_, ?_, ?_⟩
  · intro o' h' hperm
    rw [ObjectForm.ofPreset_text hcodec h, ObjectForm.ofPreset_text hcodec h',
      settingsOf_perm (fun _ => kind_of_mem_fieldsOf) h.nodup_fieldsOf hperm]
  · intro m hm m' p hp hp' rest
    have hmem : p ∈ paramsOf o.members := List.mem_filterMap.2 ⟨m, hm, hp⟩
    exact ⟨_, ObjectForm.ofPreset_textWith hcodec h hmem hp' rest, rfl,
      hcodec.category_duplicateField p.name⟩
  · intro n hexponent hmagnitude
    obtain ⟨z, hz⟩ := n.exists_converted hcodec.toScales hexponent hmagnitude
    rw [ValueForm.value?_number hz]
    rfl

namespace Preset

open Json

/-! ### Particular objects -/

theorem derives_list_of_null : Derives .value ['[', 'n', 'u', 'l', 'l', ']'] := by
  have hnull : Derives .value nullText := .word rfl
  exact .group (.first (.item hnull) (.close .list))

/-- A member that is for no parameter. -/
def listMember : Member where
  beforeComma := noBlanks
  afterComma := noBlanks
  key := [.plain ⟨'n', rfl⟩]
  beforeColon := noBlanks
  afterColon := noBlanks
  value := .other ⟨_, derives_list_of_null⟩

/-- A member for a parameter, with the first letter of its key escaped. -/
def offsetMember (n : NumberForm) : Member where
  beforeComma := noBlanks
  afterComma := ⟨['\n'], List.all_eq_true.1 rfl⟩
  key := [.unit ⟨⟨'0', rfl⟩, ⟨'0', rfl⟩, ⟨'6', rfl⟩, ⟨'f', rfl⟩⟩ rfl rfl, .plain ⟨'f', rfl⟩,
    .plain ⟨'f', rfl⟩, .plain ⟨'s', rfl⟩, .plain ⟨'e', rfl⟩, .plain ⟨'t', rfl⟩]
  beforeColon := noBlanks
  afterColon := noBlanks
  value := .number n

/-- The number `2`. -/
def numberTwo : NumberForm where
  negative := false
  whole := ['2']
  isWhole := .inr ⟨⟨'2', [], rfl, by decide⟩, List.all_eq_true.1 rfl⟩
  fraction := []
  isDigit := List.all_eq_true.1 rfl
  exponent := none

/-- An object of both members. -/
def twoMembers : ObjectForm where
  before := noBlanks
  members := [listMember, offsetMember numberTwo]
  inside := noBlanks
  after := noBlanks

end Preset

theorem Settings.ofPreset_object_of_two_members :
    Preset.standard.Lawful ∧ Readable Preset.standard twoMembers.members ∧
      twoMembers.text = "\x7b\"n\":[null],\n\"\\u006fffset\":2\x7d" ∧
      ∃ s, Settings.ofPreset Preset.standard twoMembers.text = .ok s ∧ s.get .offset = .number 2 ∧
        s.get .speedScale = Settings.default.get .speedScale := by
  have hreadable : Readable Preset.standard twoMembers.members := by decide
  obtain ⟨⟨s, hs, hvalue, hdefault⟩, -⟩ :=
    Settings.ofPreset_object Preset.standard Preset.standard_lawful twoMembers hreadable
  refine ⟨Preset.standard_lawful, hreadable, by decide +kernel, s, hs, ?_,
    hdefault .speedScale (by decide)⟩
  have hoffset := hvalue (offsetMember numberTwo) (by simp [twoMembers]) .offset rfl
  exact (Option.some.inj hoffset).symm

namespace Preset

open Json

/-- The exponent of the number `17976931348623157081e289`. -/
def largeExponent : ExponentForm where
  isCapital := false
  sign := .none
  digits := ['2', '8', '9']
  ne_nil := by decide
  isDigit := List.all_eq_true.1 rfl

/-- The number `17976931348623157081e289`. -/
def largeNumber : NumberForm where
  negative := false
  whole := ['1', '7', '9', '7', '6', '9', '3', '1', '3', '4', '8', '6', '2', '3', '1', '5', '7', '0',
    '8', '1']
  isWhole := .inr ⟨⟨'1', _, rfl, by decide⟩, List.all_eq_true.1 rfl⟩
  fraction := []
  isDigit := List.all_eq_true.1 rfl
  exponent := some largeExponent

/-- Its significand and its power of ten are both rounded up. -/
theorem converted_largeNumber {ε : Type} {lib : Library ε} (hlib : lib.Scales) :
    largeNumber.converted lib = .error lib.outOfRange := by
  have hfits : ¬ largeNumber.Fits := by decide
  have hexponent : ¬ maxExponent < largeNumber.exponentValue.natAbs := by decide
  have hsignificand : largeNumber.significand = 17976931348623157081 := by decide +kernel
  have hpower : largeNumber.power + largeNumber.exponentValue = 289 := by decide +kernel
  have hinf : (timesTenTo (Binary.ofNat Format.binary64 17976931348623157081) 289).isInf = true := by
    decide +kernel
  have hscale := hlib.scale_infinite _ 289 (by decide) (by decide) hinf
  rw [NumberForm.converted, if_neg hfits, NumberForm.scaled, if_neg hexponent, hsignificand, hpower,
    hscale]
  rfl

theorem magnitude_largeNumber_lt :
    largeNumber.magnitude < Format.binary64.value (Format.binary64.infIndex - 1) := by
  have hdigits : largeNumber.digitsValue = 17976931348623157081 := rfl
  have hpower : largeNumber.exponentValue - largeNumber.fraction.length = (289 : ℕ) := rfl
  have hlt : 17976931348623157081 * 10 ^ 289 < (2 ^ 53 - 1) * 2 ^ 971 := by decide +kernel
  have hlt : ((17976931348623157081 * 10 ^ 289 : ℕ) : ℚ) < ((2 ^ 53 - 1) * 2 ^ 971 : ℕ) :=
    Nat.cast_lt.2 hlt
  rw [Nat.cast_mul, Nat.cast_mul, Nat.cast_pow, Nat.cast_pow] at hlt
  rw [NumberForm.magnitude, hdigits, hpower, zpow_natCast, Format.value_max64]
  refine hlt.trans_eq ?_
  norm_num

/-- A member for a parameter. -/
def largeMember : Member where
  beforeComma := noBlanks
  afterComma := noBlanks
  key := [.plain ⟨'o', rfl⟩, .plain ⟨'f', rfl⟩, .plain ⟨'f', rfl⟩, .plain ⟨'s', rfl⟩,
    .plain ⟨'e', rfl⟩, .plain ⟨'t', rfl⟩]
  beforeColon := noBlanks
  afterColon := noBlanks
  value := .number largeNumber

/-- An object of this member. -/
def largeObject : ObjectForm where
  before := noBlanks
  members := [largeMember]
  inside := noBlanks
  after := noBlanks

theorem ofPreset_largeObject {ε : Type} {codec : Codec ε} (hcodec : codec.Lawful) :
    Settings.ofPreset codec largeObject.text = .error codec.outOfRange := by
  have hopen := hcodec.openObject_brace noBlanks (largeMember.letters true ++ ['\x7d'])
  have hends : EndsNumber ['\x7d'] := endsNumber_cons (by decide) []
  have hvalue : codec.nextValue .offset (largeMember.valueLetters ++ ['\x7d']) =
      .error codec.outOfRange := by
    rw [Member.valueLetters, colonText_append]
    exact nextValue_of_error hcodec rfl (converted_largeNumber hcodec.toScales) noBlanks noBlanks hends
  have hvisit := visit_member_of_error hcodec true [] (m := largeMember) rfl List.not_mem_nil hvalue
  have hletters : largeObject.text.toList =
      noBlanks.1 ++ '\x7b' :: (largeMember.letters true ++ ['\x7d']) := by
    rw [ObjectForm.text, String.toList_ofList]
    rfl
  rw [Settings.ofPreset, hletters, hcodec.read_object hopen, hvisit]
  rfl

end Preset

/-- A number that is less than the largest finite one, but is out of range. -/
theorem Settings.ofPreset_of_largeNumber :
    Preset.standard.Lawful ∧
      largeObject.text = "\x7b\"offset\":17976931348623157081e289\x7d" ∧
      largeMember.param? = some .offset ∧ largeMember.value = .number largeNumber ∧
      largeNumber.magnitude < Format.binary64.value (Format.binary64.infIndex - 1) ∧
      ∀ {ε : Type} (codec : Codec ε), codec.Lawful →
        Settings.ofPreset codec "\x7b\"offset\":17976931348623157081e289\x7d" =
          .error codec.outOfRange := by
  have htext : largeObject.text = "\x7b\"offset\":17976931348623157081e289\x7d" := by decide +kernel
  refine ⟨Preset.standard_lawful, htext, rfl, rfl, magnitude_largeNumber_lt, ?_⟩
  intro ε codec hcodec
  rw [← htext]
  exact ofPreset_largeObject hcodec

end StripeBrush
