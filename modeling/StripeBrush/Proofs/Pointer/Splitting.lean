/-
**Splitting jumps does not move the gate.**

Whether a position completes samples is decided by its distance from the anchor, before a jump is
split, and the anchor moves to the position itself and not to a sample that was counted off on the
way.  So two samplers that differ in the limit for their jumps alone go on in step: they take the
same positions, with one sample or with many, and the last sample of both is at the position that
was fed.

Main definitions:

* `Sampler.InStep` — two samplers differ at most in the limit for their jumps;
* `Sampler.TakesSame` — they answer an operation with samples both or neither, which end at the
  position that was fed.

Main results:

* `Sampler.InStep.apply`, `Sampler.InStep.run` — two samplers in step stay so, and take the same
  positions;
* `Sampler.split_takes_same` — **a limit for jumps does not change which positions are taken**.
-/

import StripeBrush.Proofs.Pointer.Gating

set_option relaxedAutoImplicit false
set_option autoImplicit false

namespace StripeBrush.Sampler

variable {s t : Sampler}

/-- Two samplers differ at most in the limit for their jumps. -/
structure InStep (s t : Sampler) : Prop where
  anchor_eq : s.anchor = t.anchor
  minDistance_eq : s.minDistance = t.minDistance

/-- Two answers to one operation: no samples at all, or, where a position was fed, samples the last
of which is at that position. -/
inductive TakesSame : Op × List Sample → Op × List Sample → Prop
  | nothing (op : Op) : TakesSame (op, []) (op, [])
  | taken (point : Vec) (samples samples' : List Sample)
      (hlast : samples.getLast?.map Sample.point = some point)
      (hlast' : samples'.getLast?.map Sample.point = some point) :
      TakesSame (.sample point, samples) (.sample point, samples')

namespace InStep

/-- The gate does not look at the limit. -/
theorem accepts_eq (h : InStep s t) (anchor point : Vec) :
    s.accepts anchor point = t.accepts anchor point := by
  simp only [accepts, h.minDistance_eq]

/-- One position that is fed to both. -/
theorem sample (h : InStep s t) (hs : s.Sound) (ht : t.Sound) (point : Vec) :
    TakesSame (.sample point, (s.sample point).1) (.sample point, (t.sample point).1) ∧
      InStep (s.sample point).2 (t.sample point).2 := by
  unfold Sampler.sample
  rw [← h.anchor_eq]
  cases hanchor : s.anchor with
  | none => exact ⟨.nothing _, h⟩
  | some anchor =>
      simp only [← h.accepts_eq anchor point]
      cases s.accepts anchor point with
      | true =>
          have hlast := hs.getLast?_jump anchor point
          have hlast' := ht.getLast?_jump anchor point
          exact ⟨.taken point _ _ hlast hlast', ⟨rfl, h.minDistance_eq⟩⟩
      | false => exact ⟨.nothing _, h⟩

/-- One operation on both. -/
theorem apply (h : InStep s t) (hs : s.Sound) (ht : t.Sound) (op : Op) :
    TakesSame (op, (s.apply op).1) (op, (t.apply op).1) ∧
      InStep (s.apply op).2 (t.apply op).2 := by
  cases op with
  | begin point => exact ⟨.nothing _, ⟨rfl, h.minDistance_eq⟩⟩
  | sample point => exact h.sample hs ht point
  | finish => exact ⟨.nothing _, ⟨rfl, h.minDistance_eq⟩⟩
  | setMinDistance m => exact ⟨.nothing _, ⟨h.anchor_eq, rfl⟩⟩

/-- **Two samplers in step take the same positions**, however long they are used, and stay in
step. -/
theorem run (h : InStep s t) (hs : s.Sound) (ht : t.Sound) (ops : List Op) :
    List.Forall₂ TakesSame (s.journal ops) (t.journal ops) ∧
      InStep (s.run ops).2 (t.run ops).2 := by
  induction ops generalizing s t with
  | nil => exact ⟨.nil, h⟩
  | cons op ops ih =>
      obtain ⟨hsame, hstep⟩ := h.apply hs ht op
      obtain ⟨hrest, hlast⟩ := ih hstep (hs.apply op) (ht.apply op)
      rw [journal_cons, journal_cons, run_cons, run_cons]
      exact ⟨.cons hsame hrest, hlast⟩

end InStep

/-- **A limit for jumps does not change which positions are taken**: at each operation of any run,
the sampler without a limit and the one with it complete samples both or neither, and the last
sample of both is at the position that was fed; and after it they have the same anchor and the same
least travel, and a drag is on in both or in neither. -/
theorem split_takes_same (m : Binary32) (limit : Option Binary32) (ops : List Op) :
    let plain := ofMinDistance m
    let split := plain.withMaxDistance limit
    List.Forall₂ TakesSame (plain.journal ops) (split.journal ops) ∧
      (plain.run ops).2.anchor = (split.run ops).2.anchor ∧
      (plain.run ops).2.isActive = (split.run ops).2.isActive ∧
      (plain.run ops).2.minDistance = (split.run ops).2.minDistance := by
  intro plain split
  have hplain : plain.Sound := sound_withMaxDistance m none
  have hsplit : split.Sound := sound_withMaxDistance m limit
  have hstart : InStep plain split := ⟨rfl, rfl⟩
  obtain ⟨hsame, hlast⟩ := hstart.run hplain hsplit ops
  refine ⟨hsame, hlast.anchor_eq, ?_, hlast.minDistance_eq⟩
  simp only [isActive, hlast.anchor_eq]

end StripeBrush.Sampler
