/-
**The standard code for presets does what such code has to.**

Main results:

* `Preset.readMembers_of_key` — a member is read before those after it;
* `Preset.standard_lawful` — **presets are read and written as records are**.
-/

import StripeBrush.Preset.Standard
import StripeBrush.Proofs.Json.Standard
import StripeBrush.Proofs.Preset.Members

set_option relaxedAutoImplicit false
set_option autoImplicit false

namespace StripeBrush.Preset

open Json

variable {isFirst : Bool} {fields : Fields} {cs key rest : List Char} {p : Param}

/-! ### Reading -/

theorem afterColon_map {α β : Type} (value : Reader α) (f : α × List Char → β × List Char)
    (cs : List Char) :
    afterColon (fun cs => (value cs).map f) cs = (afterColon value cs).map f := by
  rw [afterColon, afterColon]
  cases readColon cs <;> rfl

theorem nextValue_standard (p : Param) (cs : List Char) :
    standard.nextValue p cs = afterColon (readValue p) cs := by
  rw [Codec.nextValue]
  cases hkind : p.kind with
  | number =>
      have hvalue : readValue p = fun cs => (readNumberValue cs).map fun r => (.number r.1, r.2) := by
        funext cs
        rw [readValue, hkind]
      rw [hvalue, afterColon_map]
      rfl
  | flag =>
      have hvalue : readValue p = fun cs => (readFlagValue cs).map fun r => (.flag r.1, r.2) := by
        funext cs
        rw [readValue, hkind]
      rw [hvalue, afterColon_map]
      rfl

theorem readMembers_close (h : nextKey isFirst cs = .ok (none, rest)) :
    readMembers isFirst fields cs = .ok (fields, rest) := by
  rw [readMembers]
  split
  · next heq => simp [h] at heq
  · next heq =>
      obtain ⟨-, rfl⟩ := Prod.mk.inj (Except.ok.inj (h.symm.trans heq))
      rfl
  · next heq => simp [h] at heq

/-- A member is read before those after it. -/
theorem readMembers_of_key (h : nextKey isFirst cs = .ok (some key, rest)) :
    readMembers isFirst fields cs =
      (readMember fields key rest).bind fun r => readMembers false r.1 r.2 := by
  rw [readMembers]
  split
  · next heq => simp [h] at heq
  · next heq => simp [h] at heq
  · next heq =>
      obtain ⟨hkey, rfl⟩ := Prod.mk.inj (Except.ok.inj (h.symm.trans heq))
      obtain rfl := Option.some.inj hkey
      split
      · next hmember => rw [hmember, Except.bind]
      · next hmember => rw [hmember, Except.bind]

theorem any_eq_decide_mem (fields : Fields) (p : Param) :
    (fields.any fun field => field.1 = p) = decide (p ∈ fields.map Prod.fst) := by
  rw [Bool.eq_iff_iff]
  simp

theorem readFields_of_openObject (h : Json.standard.openObject cs = .ok rest) :
    readFields cs = readMembers true [] rest := by
  rw [readFields]
  split
  · next heq =>
      change openObject "struct ToolState" cs = _ at h
      rw [openObject, heq] at h
      exact (wrongValue_ne_ok h).elim
  · rw [h]
    rfl

/-! ### Writing -/

theorem memberText_eq (s : Settings) (p : Param) :
    memberText s p =
      [' ', ' '] ++ '"' :: (p.letters ++ '"' :: ':' :: ' ' :: standard.valueText (s.get p)) := by
  rw [memberText]
  cases s.get p <;> rfl

theorem settingsText_eq (s : Settings) :
    settingsText s = standard.recordText ⟨['\n', ' ', ' '], List.all_eq_true.1 rfl⟩
      ⟨[' '], List.all_eq_true.1 rfl⟩ ⟨['\n'], List.all_eq_true.1 rfl⟩ s := by
  simp [settingsText, Codec.recordText, memberText_eq, Param.all, List.intercalate,
    List.intersperse]

/-! ### The code -/

/-- **Presets are read and written as records are.** -/
theorem standard_lawful : standard.Lawful where
  toLawful := Json.standard_lawful
  read_object {cs rest} h := by
    have hfields : readFields cs = readMembers true [] rest := readFields_of_openObject h
    change Preset.read cs = (readMembers true [] rest).bind fun r => (finish r.2).map fun _ => r.1
    rw [Preset.read, hfields]
    cases readMembers true [] rest with
    | error => rfl
    | ok r =>
        simp only [bind, Except.bind]
        cases finish r.2 <;> rfl
  visit_close := readMembers_close
  visit_other {isFirst fields cs key rest} hkey hparam := by
    refine (readMembers_of_key hkey).trans ?_
    have hskip : standard.skipNext = skipNext := rfl
    rw [readMember, hparam, hskip]
    cases skipNext rest <;> rfl
  visit_again {isFirst fields cs key rest p} hkey hparam hmem := by
    refine (readMembers_of_key hkey).trans ?_
    simp only [readMember, hparam, any_eq_decide_mem, hmem, decide_true, if_true]
    rfl
  visit_new {isFirst fields cs key rest p} hkey hparam hmem := by
    refine (readMembers_of_key hkey).trans ?_
    rw [nextValue_standard]
    simp only [readMember, hparam, any_eq_decide_mem, hmem, decide_false, Bool.false_eq_true, if_false]
    cases afterColon (readValue p) rest <;> rfl
  write_eq := ⟨_, _, _, fun s => congrArg Except.ok (settingsText_eq s)⟩

end StripeBrush.Preset
