/-
**Members of a preset, however they are written.**

The code for a record goes through the members of an object one by one.  A key that is the name of a
parameter is followed by its value, which is of the kind of the parameter; a member with another key
is passed over.  A member is written with a key, which may have any character escaped, and a value,
with blanks around its comma and its colon.  Its parameter takes the value that is written, where it
has the right kind and is in range.  What comes after some members is read as if it stood there alone,
with their values already known.

Main definitions:

* `Preset.Codec.Lawful` — **what the code for the record does**;
* `Preset.ValueForm`, `Preset.Member` — a value and a member as they are written;
* `Preset.ValueForm.value?` — the value that a parameter of some kind takes;
* `Preset.Member.param?`, `Preset.fieldsOf` — the parameter that a member is for, and the values that
  some members give;
* `Preset.Readable` — **each parameter occurs at most once, with a value of its kind**.

Main results:

* `Preset.visit_member` — one member is read, or passed over;
* `Preset.visit_members` — **members are read up to their end**.
-/

import Mathlib.Data.List.Nodup
import StripeBrush.Preset.Codec
import StripeBrush.Proofs.Json.Laws

set_option relaxedAutoImplicit false
set_option autoImplicit false

namespace StripeBrush.Preset

open Json

variable {ε : Type}

/-! ### The code for the record -/

namespace Codec

/-- An object with one member for each parameter, with blanks before each key, after each colon and
before the end. -/
def recordText (codec : Codec ε) (inner gap closing : Blanks) (s : Settings) : List Char :=
  '\x7b' :: ([','].intercalate (Param.all.map fun p =>
    inner.1 ++ '"' :: (p.letters ++ '"' :: ':' :: (gap.1 ++ codec.valueText (s.get p)))) ++
      (closing.1 ++ ['\x7d']))

/-- **What the code does**, with a library that does what it has to.  An object is visited key by
key: the value after a key is read as the parameter asks for it, unless the parameter has a value
already; and it is skipped where the key is no parameter's. -/
structure Lawful (codec : Codec ε) : Prop extends codec.toLibrary.Lawful where
  read_object : ∀ {cs rest}, codec.openObject cs = .ok rest →
    codec.read cs = (codec.visit true [] rest).bind fun r => (codec.finish r.2).map fun _ => r.1
  visit_close : ∀ {isFirst fields cs rest}, codec.nextKey isFirst cs = .ok (none, rest) →
    codec.visit isFirst fields cs = .ok (fields, rest)
  visit_other : ∀ {isFirst fields cs key rest}, codec.nextKey isFirst cs = .ok (some key, rest) →
    Param.ofLetters? key = none →
    codec.visit isFirst fields cs = (codec.skipNext rest).bind (codec.visit false fields)
  visit_again : ∀ {isFirst fields cs key rest p}, codec.nextKey isFirst cs = .ok (some key, rest) →
    Param.ofLetters? key = some p → p ∈ fields.map Prod.fst →
    codec.visit isFirst fields cs = .error (codec.duplicateField p.name)
  visit_new : ∀ {isFirst fields cs key rest p}, codec.nextKey isFirst cs = .ok (some key, rest) →
    Param.ofLetters? key = some p → p ∉ fields.map Prod.fst →
    codec.visit isFirst fields cs =
      (codec.nextValue p rest).bind fun r => codec.visit false (fields ++ [(p, r.1)]) r.2
  write_eq : ∃ inner gap closing, ∀ s, codec.write s = .ok (codec.recordText inner gap closing s)

end Codec

variable (codec : Codec ε)

/-! ### Values -/

/-- A value as it is written. -/
inductive ValueForm where
  | number (n : NumberForm)
  | flag (b : Bool)
  /-- Any value at all, perhaps with blanks in front. -/
  | other (cs : {cs : List Char // Derives .value cs})

namespace ValueForm

/-- The text of a value. -/
def letters : ValueForm → List Char
  | number n => n.letters
  | flag b => flagText b
  | other cs => cs.1

/-- The value that a parameter of some kind takes. -/
def value? : Kind → ValueForm → Option Value
  | .number, number n => (n.converted codec.toLibrary).toOption.map fun z => .number z.toBinary32
  | .flag, flag b => some (.flag b)
  | _, _ => none

theorem derives (v : ValueForm) : Derives .value v.letters := by
  cases v with
  | number n => exact .number n
  | flag b => cases b <;> exact .word rfl
  | other cs => exact cs.2

variable {codec}

theorem kind_of_value? {k : Kind} {v : ValueForm} {x : Value} (h : v.value? codec k = some x) :
    x.kind = k := by
  cases k <;> cases v <;>
    simp only [value?, Option.map_eq_some_iff, Option.some.injEq, reduceCtorEq] at h
  · obtain ⟨z, -, rfl⟩ := h
    rfl
  · subst h
    rfl

theorem value?_number {n : NumberForm} {z : Number} (h : n.converted codec.toLibrary = .ok z) :
    (number n).value? codec .number = some (.number z.toBinary32) := by
  rw [value?, h]
  rfl

theorem exists_of_value?_number {n : NumberForm} {x : Value}
    (h : (number n).value? codec .number = some x) :
    ∃ z, n.converted codec.toLibrary = .ok z ∧ x = .number z.toBinary32 := by
  obtain ⟨z, hz, rfl⟩ := Option.map_eq_some_iff.1 h
  cases hconverted : n.converted codec.toLibrary with
  | error e =>
      rw [hconverted] at hz
      cases hz
  | ok z' =>
      rw [hconverted] at hz
      cases hz
      exact ⟨z, rfl, rfl⟩

end ValueForm

theorem colonText_append (before after : Blanks) (value rest : List Char) :
    colonText before after value ++ rest = colonText before after (value ++ rest) := by
  simp [colonText]

variable {codec} (hcodec : codec.Lawful)

include hcodec in
/-- **A parameter takes the value that is written.** -/
theorem nextValue_letters {p : Param} {v : ValueForm} {x : Value}
    (h : v.value? codec p.kind = some x) (b b' : Blanks) {rest : List Char}
    (hrest : EndsNumber rest) :
    codec.nextValue p (colonText b b' (v.letters ++ rest)) = .ok (x, rest) := by
  rw [Codec.nextValue]
  cases hkind : p.kind with
  | number =>
      rw [hkind] at h
      cases v with
      | number n =>
          obtain ⟨z, hz, rfl⟩ := ValueForm.exists_of_value?_number h
          simp [ValueForm.letters, hcodec.nextNumber_number b b' n rest hrest, hz, Except.map]
      | flag | other => cases h
  | flag =>
      rw [hkind] at h
      cases v with
      | flag flag =>
          obtain rfl := Option.some.inj h
          simp [ValueForm.letters, hcodec.nextFlag_flag b b' flag rest hrest, Except.map]
      | number | other => cases h

include hcodec in
/-- A number that is out of range is no value. -/
theorem nextValue_of_error {p : Param} (hkind : p.kind = .number) {n : NumberForm} {e : ε}
    (h : n.converted codec.toLibrary = .error e) (b b' : Blanks) {rest : List Char}
    (hrest : EndsNumber rest) :
    codec.nextValue p (colonText b b' (n.letters ++ rest)) = .error e := by
  rw [Codec.nextValue, hkind]
  simp only [hcodec.nextNumber_number b b' n rest hrest, h]
  rfl

/-! ### Members -/

/-- A member as it is written.  The first member has no comma, and both blanks in front. -/
structure Member where
  beforeComma : Blanks
  afterComma : Blanks
  key : List Spelling
  beforeColon : Blanks
  afterColon : Blanks
  value : ValueForm

namespace Member

/-- The text of a member up to its colon. -/
def keyLetters (m : Member) (isFirst : Bool) : List Char :=
  m.beforeComma.1 ++ ((if isFirst then [] else [',']) ++ (m.afterComma.1 ++ keyText m.key))

/-- The text of a member from its colon on. -/
def valueLetters (m : Member) : List Char := colonText m.beforeColon m.afterColon m.value.letters

/-- The text of a member. -/
def letters (m : Member) (isFirst : Bool) : List Char := m.keyLetters isFirst ++ m.valueLetters

/-- The parameter that a member is for, if any. -/
def param? (m : Member) : Option Param := Param.ofLetters? (spelledText m.key)

variable (codec)

/-- The parameter that a member is for, with its value. -/
def field? (m : Member) : Option (Param × Value) :=
  m.param?.bind fun p => (m.value.value? codec p.kind).map fun v => (p, v)

variable {codec}

theorem field?_eq {m : Member} {p : Param} {v : Value} (hp : m.param? = some p)
    (hv : m.value.value? codec p.kind = some v) : m.field? codec = some (p, v) := by
  rw [field?, hp, Option.bind_some, hv, Option.map_some]

theorem field?_eq_none {m : Member} (hp : m.param? = none) : m.field? codec = none := by
  rw [field?, hp, Option.bind_none]

theorem fst_mem_param? {m : Member} {field : Param × Value} (h : field ∈ m.field? codec) :
    field.1 ∈ m.param? := by
  obtain ⟨p, hp, hfield⟩ := Option.bind_eq_some_iff.1 h
  obtain ⟨v, -, rfl⟩ := Option.map_eq_some_iff.1 hfield
  exact hp

end Member

/-- The text of some members. -/
def membersLetters : Bool → List Member → List Char
  | _, [] => []
  | isFirst, m :: ms => m.letters isFirst ++ membersLetters false ms

/-- The parameters that some members are for. -/
def paramsOf (ms : List Member) : List Param := ms.filterMap Member.param?

variable (codec)

/-- The values that some members give. -/
def fieldsOf (ms : List Member) : Fields := ms.filterMap (Member.field? codec)

/-- **Each parameter occurs at most once, with a value of its kind.** -/
def Readable (ms : List Member) : Prop :=
  (∀ m ∈ ms, ∀ p ∈ m.param?, (m.value.value? codec p.kind).isSome = true) ∧ (paramsOf ms).Nodup

instance (ms : List Member) : Decidable (Readable codec ms) := inferInstanceAs (Decidable (_ ∧ _))

variable {codec}

theorem paramsOf_cons (m : Member) (ms : List Member) :
    paramsOf (m :: ms) = m.param?.toList ++ paramsOf ms := by
  rw [paramsOf, List.filterMap_cons]
  cases m.param? <;> rfl

theorem fieldsOf_cons (m : Member) (ms : List Member) :
    fieldsOf codec (m :: ms) = (m.field? codec).toList ++ fieldsOf codec ms := by
  rw [fieldsOf, List.filterMap_cons]
  cases m.field? codec <;> rfl

theorem Readable.tail {m : Member} {ms : List Member} (h : Readable codec (m :: ms)) :
    Readable codec ms := by
  refine ⟨fun m' hm' => h.1 m' (List.mem_cons_of_mem m hm'), ?_⟩
  have hnodup := h.2
  rw [paramsOf_cons] at hnodup
  exact (List.nodup_append.1 hnodup).2.1

theorem Readable.ne {m : Member} {ms : List Member} (h : Readable codec (m :: ms)) {p q : Param}
    (hp : p ∈ m.param?) (hq : q ∈ paramsOf ms) : p ≠ q := by
  have hnodup := h.2
  rw [paramsOf_cons] at hnodup
  exact (List.nodup_append.1 hnodup).2.2 p (Option.mem_toList.2 hp) q hq

theorem endsNumber_keyLetters (m : Member) (rest : List Char) :
    EndsNumber (m.keyLetters false ++ rest) := by
  rw [Member.keyLetters, List.append_assoc]
  exact endsNumber_append _ (endsNumber_cons (by decide) _)

theorem endsNumber_membersLetters (ms : List Member) {tail : List Char} (htail : EndsNumber tail) :
    EndsNumber (membersLetters false ms ++ tail) := by
  cases ms with
  | nil => exact htail
  | cons m ms =>
      rw [membersLetters, Member.letters, List.append_assoc, List.append_assoc]
      exact endsNumber_keyLetters m _

/-! ### Reading members -/

section Visits

include hcodec

variable (isFirst : Bool) (fields : Fields)

theorem nextKey_keyLetters (m : Member) (rest : List Char) :
    codec.nextKey isFirst (m.keyLetters isFirst ++ rest) = .ok (some (spelledText m.key), rest) := by
  rw [Member.keyLetters]
  cases isFirst with
  | true =>
      have hkey := hcodec.nextKey_first (m.beforeComma.append m.afterComma) m.key rest
      simpa [Blanks.append] using hkey
  | false =>
      have hkey := hcodec.nextKey_later m.beforeComma m.afterComma m.key rest
      simpa using hkey

theorem visit_member_of_none {m : Member} (hm : m.param? = none) {rest : List Char}
    (hrest : EndsNumber rest) :
    codec.visit isFirst fields (m.letters isFirst ++ rest) = codec.visit false fields rest := by
  have hskip := hcodec.skipNext_value m.beforeColon m.afterColon m.value.letters rest
    m.value.derives hrest
  rw [Member.letters, List.append_assoc,
    hcodec.visit_other (nextKey_keyLetters hcodec isFirst m _) hm, Member.valueLetters,
    colonText_append, hskip]
  rfl

/-- A parameter without a value takes the one of its member. -/
theorem visit_member_of_some {m : Member} {p : Param} {v : Value} (hm : m.param? = some p)
    (hv : m.value.value? codec p.kind = some v) (hnew : p ∉ fields.map Prod.fst)
    {rest : List Char} (hrest : EndsNumber rest) :
    codec.visit isFirst fields (m.letters isFirst ++ rest) =
      codec.visit false (fields ++ [(p, v)]) rest := by
  have hvalue := nextValue_letters hcodec hv m.beforeColon m.afterColon hrest
  rw [Member.letters, List.append_assoc,
    hcodec.visit_new (nextKey_keyLetters hcodec isFirst m _) hm hnew, Member.valueLetters,
    colonText_append, hvalue]
  rfl

/-- A member whose value cannot be read is the end of reading. -/
theorem visit_member_of_error {m : Member} {p : Param} {e : ε} (hm : m.param? = some p)
    (hnew : p ∉ fields.map Prod.fst) {rest : List Char}
    (hvalue : codec.nextValue p (m.valueLetters ++ rest) = .error e) :
    codec.visit isFirst fields (m.letters isFirst ++ rest) = .error e := by
  rw [Member.letters, List.append_assoc,
    hcodec.visit_new (nextKey_keyLetters hcodec isFirst m _) hm hnew, hvalue]
  rfl

/-- **One member is read, or passed over.** -/
theorem visit_member {m : Member} {rest : List Char} (hrest : EndsNumber rest)
    (hvalue : ∀ p ∈ m.param?, (m.value.value? codec p.kind).isSome = true)
    (hnew : ∀ p ∈ m.param?, p ∉ fields.map Prod.fst) :
    codec.visit isFirst fields (m.letters isFirst ++ rest) =
      codec.visit false (fields ++ (m.field? codec).toList) rest := by
  cases hm : m.param? with
  | none =>
      rw [visit_member_of_none hcodec isFirst fields hm hrest, Member.field?_eq_none hm,
        Option.toList_none, List.append_nil]
  | some p =>
      obtain ⟨v, hv⟩ := Option.isSome_iff_exists.1 (hvalue p hm)
      rw [visit_member_of_some hcodec isFirst fields hm hv (hnew p hm) hrest,
        Member.field?_eq hm hv, Option.toList_some]

/-- **Members are read up to their end.** -/
theorem visit_members {ms : List Member} (h : Readable codec ms)
    (hnew : ∀ p ∈ paramsOf ms, p ∉ fields.map Prod.fst) {tail : List Char}
    (htail : EndsNumber tail) :
    codec.visit isFirst fields (membersLetters isFirst ms ++ tail) =
      codec.visit (isFirst && ms.isEmpty) (fields ++ fieldsOf codec ms) tail := by
  -- by induction on the members that are left; the fields that were read grow from call to call
  induction ms generalizing isFirst fields with
  | nil => simp [membersLetters, fieldsOf]
  | cons m ms ih =>
      have hparam : ∀ p ∈ m.param?, p ∉ fields.map Prod.fst := by
        intro p hp
        refine hnew p ?_
        rw [paramsOf_cons]
        exact List.mem_append_left _ (Option.mem_toList.2 hp)
      have hnew' : ∀ q ∈ paramsOf ms, q ∉ (fields ++ (m.field? codec).toList).map Prod.fst := by
        intro q hq hmem
        rw [List.map_append, List.mem_append] at hmem
        rcases hmem with hold | hthis
        · exact hnew q (by rw [paramsOf_cons]; exact List.mem_append_right _ hq) hold
        · obtain ⟨field, hfield, rfl⟩ := List.mem_map.1 hthis
          exact h.ne (Member.fst_mem_param? (Option.mem_toList.1 hfield)) hq rfl
      have hmember := visit_member hcodec isFirst fields (endsNumber_membersLetters ms htail)
        (h.1 m List.mem_cons_self) hparam
      rw [membersLetters, List.append_assoc, hmember, ih false _ h.tail hnew', fieldsOf_cons,
        List.append_assoc]
      cases isFirst <;> rfl

end Visits

end StripeBrush.Preset
