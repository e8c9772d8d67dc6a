/-
**Stripes and the symmetries of the square.**

A mirror along an axis of the canvas changes the sign of one coordinate, a mirror along the diagonal
exchanges the two, and a turn by quarters is two mirrors in a row.  A stripe is made in the same way
whichever of them is applied to the drag before: seen in a mirror, its ends are exchanged, since they
lie on the left and on the right of the movement; turned, they are not.  There is no tolerance in
this: the coordinates are equal as numbers, each with all its roundings.  For no operation looks at
the sign of its operands other than to find that of the result; and the two angles that a stripe is
turned by are exact opposites, whatever sine and cosine they have.

Main definitions:

* `Mirror` and `Turn`, the symmetries, with `Vec.mirror` and `Vec.turn`;
* `Vec.SameValue`, `Segment.SameValue` — the coordinates have the same values;
* `Vec.numEq`, `Segment.numEq` — the coordinates are equal as numbers.

Main results:

* `Vec.rotate_mirror` — **a mirror turns the other way round**;
* `Settings.step_mirror` — the mirrored movement gives the mirrored step;
* `Settings.stripe_mirror`, `Settings.stripe_turn` — the stripe of a sample that was mirrored or
  turned;
* `Settings.stripe_symmetric` — **stripes under all symmetries**.
-/

import StripeBrush.Proofs.Binary.SameValue
import StripeBrush.Stripe

set_option relaxedAutoImplicit false
set_option autoImplicit false

namespace StripeBrush

/-! ### Symmetries -/

/-- The mirrors that change the sign of one coordinate or exchange the two. -/
inductive Mirror where
  | leftRight
  | upDown
  | diagonal
deriving DecidableEq

/-- A quarter turn to the left or to the right, or half a turn. -/
inductive Turn where
  | left
  | right
  | half
deriving DecidableEq

namespace Vec

/-- A point or a movement seen in a mirror. -/
def mirror (m : Mirror) (v : Vec) : Vec :=
  match m with
  | .leftRight => ⟨-v.x, v.y⟩
  | .upDown => ⟨v.x, -v.y⟩
  | .diagonal => ⟨v.y, v.x⟩

/-- A point or a movement turned around the origin, as seen on the canvas. -/
def turn (t : Turn) (v : Vec) : Vec :=
  match t with
  | .left => ⟨v.y, -v.x⟩
  | .right => ⟨-v.y, v.x⟩
  | .half => ⟨-v.x, -v.y⟩

end Vec

/-- The two mirrors that a turn is made of. -/
def Turn.mirrors : Turn → Mirror × Mirror
  | .left => (.diagonal, .upDown)
  | .right => (.diagonal, .leftRight)
  | .half => (.leftRight, .upDown)

theorem Vec.turn_eq_mirror (t : Turn) (v : Vec) :
    v.turn t = (v.mirror t.mirrors.1).mirror t.mirrors.2 := by
  cases t <;> rfl

/-- A sample with another map for its point and its movement. -/
def Sample.map (f : Vec → Vec) (sample : Sample) : Sample := ⟨f sample.point, f sample.delta⟩

namespace Segment

def map (f : Vec → Vec) (segment : Segment) : Segment := ⟨f segment.start, f segment.stop⟩

/-- The segment with its ends exchanged. -/
def reversed (segment : Segment) : Segment := ⟨segment.stop, segment.start⟩

end Segment

/-! ### Coordinates of the same value -/

/-- The coordinates of two points have the same values. -/
structure Vec.SameValue (v w : Vec) : Prop where
  x : v.x.SameValue w.x
  y : v.y.SameValue w.y

namespace Vec

/-- The coordinates of two points are equal as numbers. -/
def numEq (v w : Vec) : Bool := v.x.numEq w.x && v.y.numEq w.y

variable {u v w z : Vec}

namespace SameValue

theorem refl (v : Vec) : SameValue v v := ⟨.same _, .same _⟩

theorem trans (h : SameValue u v) (h' : SameValue v w) : SameValue u w :=
  ⟨h.x.trans h'.x, h.y.trans h'.y⟩

theorem add (h : SameValue u v) (h' : SameValue w z) : SameValue (u + w) (v + z) :=
  ⟨h.x.add h'.x, h.y.add h'.y⟩

theorem sub (h : SameValue u v) (h' : SameValue w z) : SameValue (u - w) (v - z) :=
  ⟨h.x.sub h'.x, h.y.sub h'.y⟩

theorem mirror (h : SameValue v w) (m : Mirror) : SameValue (v.mirror m) (w.mirror m) := by
  cases m with
  | leftRight => exact ⟨h.x.neg, h.y⟩
  | upDown => exact ⟨h.x, h.y.neg⟩
  | diagonal => exact ⟨h.y, h.x⟩

theorem rotate (h : SameValue v w) (angle : Binary32) :
    SameValue (v.rotate angle) (w.rotate angle) :=
  ⟨(h.x.mul_right _).add (h.y.mul_right _), (h.x.neg.mul_right _).add (h.y.mul_right _)⟩

theorem isFinite_eq (h : SameValue v w) : v.isFinite = w.isFinite := by
  simp only [isFinite, h.x.isFinite_eq, h.y.isFinite_eq]

theorem numEq_eq_true (h : SameValue v w) (hv : v.isFinite = true) : v.numEq w = true := by
  obtain ⟨hx, hy⟩ := Bool.and_eq_true_iff.1 hv
  exact Bool.and_eq_true_iff.2 ⟨h.x.numEq_eq_true (Binary.isNaN_of_isFinite hx),
    h.y.numEq_eq_true (Binary.isNaN_of_isFinite hy)⟩

theorem of_numEq (hv : v.isFinite = true) (hw : w.isFinite = true) (h : v.numEq w = true) :
    SameValue v w := by
  obtain ⟨hvx, hvy⟩ := Bool.and_eq_true_iff.1 hv
  obtain ⟨hwx, hwy⟩ := Bool.and_eq_true_iff.1 hw
  obtain ⟨hx, hy⟩ := Bool.and_eq_true_iff.1 h
  exact ⟨.of_numEq hvx hwx hx, .of_numEq hvy hwy hy⟩

theorem sub_eq_zero (h : SameValue v w) (hv : v.isFinite = true) :
    (v - w).SameValue ⟨0, 0⟩ := by
  have hsub := (refl v).sub h
  rw [Vec.sub_self_of_isFinite hv] at hsub
  exact ⟨hsub.x.symm, hsub.y.symm⟩

theorem length_eq (h : SameValue v w) : v.length = w.length := by
  obtain ⟨vx, vy⟩ := v
  obtain ⟨hx, hy⟩ := h
  obtain rfl | rfl := hx.eq_or_eq_neg
  · obtain rfl | rfl := hy.eq_or_eq_neg
    · rfl
    · exact length_neg_y w
  · obtain rfl | rfl := hy.eq_or_eq_neg
    · exact length_neg_x w
    · exact (length_neg_x ⟨w.x, -w.y⟩).trans (length_neg_y w)

end SameValue

/-! ### Vectors in a mirror -/

@[simp] theorem isFinite_mirror (m : Mirror) (v : Vec) : (v.mirror m).isFinite = v.isFinite := by
  cases m with
  | leftRight => simp [mirror, isFinite]
  | upDown => simp [mirror, isFinite]
  | diagonal => simp [mirror, isFinite, Bool.and_comm]

@[simp] theorem length_mirror (m : Mirror) (v : Vec) : (v.mirror m).length = v.length := by
  cases m with
  | leftRight => exact length_neg_x v
  | upDown => exact length_neg_y v
  | diagonal => exact length_swap v

theorem add_mirror (m : Mirror) (v w : Vec) :
    SameValue (v.mirror m + w.mirror m) ((v + w).mirror m) := by
  cases m with
  | leftRight => exact ⟨Binary.neg_add_neg _ _, .same _⟩
  | upDown => exact ⟨.same _, Binary.neg_add_neg _ _⟩
  | diagonal => exact .refl _

theorem sub_mirror (m : Mirror) (v w : Vec) :
    SameValue (v.mirror m - w.mirror m) ((v - w).mirror m) := by
  cases m with
  | leftRight => exact ⟨Binary.neg_add_neg _ _, .same _⟩
  | upDown => exact ⟨.same _, Binary.neg_add_neg _ _⟩
  | diagonal => exact .refl _

theorem mul_mirror (m : Mirror) (v : Vec) (k : Binary32) :
    SameValue (v.mirror m * k) ((v * k).mirror m) := by
  cases m with
  | leftRight => exact ⟨Binary.neg_mul_left _ _, .same _⟩
  | upDown => exact ⟨.same _, Binary.neg_mul_left _ _⟩
  | diagonal => exact .refl _

theorem div_mirror (m : Mirror) (v : Vec) (k : Binary32) :
    SameValue (v.mirror m / k) ((v / k).mirror m) := by
  cases m with
  | leftRight => exact ⟨Binary.neg_div_left _ _, .same _⟩
  | upDown => exact ⟨.same _, Binary.neg_div_left _ _⟩
  | diagonal => exact .refl _

/-- **A mirror turns the other way round.** -/
theorem rotate_mirror (m : Mirror) (v : Vec) (angle : Binary32) :
    SameValue ((v.mirror m).rotate (-angle)) ((v.rotate angle).mirror m) := by
  simp only [rotate, Binary.sin_neg, Binary.cos_neg]
  generalize angle.sin = sin
  generalize angle.cos = cos
  cases m with
  | leftRight =>
      have hx : (-v.x * cos + v.y * -sin).SameValue (-(v.x * cos + v.y * sin)) :=
        ((Binary.neg_mul_left v.x cos).add (Binary.neg_mul_right v.y sin)).trans
          (Binary.neg_add_neg _ _)
      have hy : (- -v.x * -sin + v.y * cos).SameValue (-v.x * sin + v.y * cos) :=
        .of_eq (by rw [Binary.neg_mul_neg])
      exact ⟨hx, hy⟩
  | upDown =>
      have hx : (v.x * cos + -v.y * -sin).SameValue (v.x * cos + v.y * sin) :=
        .of_eq (by rw [Binary.neg_mul_neg])
      have hy : (-v.x * -sin + -v.y * cos).SameValue (-(-v.x * sin + v.y * cos)) :=
        ((Binary.neg_mul_right (-v.x) sin).add (Binary.neg_mul_left v.y cos)).trans
          (Binary.neg_add_neg _ _)
      exact ⟨hx, hy⟩
  | diagonal =>
      have hx : (v.y * cos + v.x * -sin).SameValue (-v.x * sin + v.y * cos) := by
        rw [Binary.add_comm (-v.x * sin)]
        exact (Binary.SameValue.same _).add
          ((Binary.neg_mul_right v.x sin).trans (Binary.neg_mul_left v.x sin).symm)
      have hy : (-v.y * -sin + v.x * cos).SameValue (v.x * cos + v.y * sin) :=
        .of_eq (by rw [Binary.neg_mul_neg, Binary.add_comm])
      exact ⟨hx, hy⟩

/-- The point halfway back along a mirrored movement. -/
theorem midpointBehind_mirror (m : Mirror) (point delta : Vec) :
    SameValue ((point.mirror m).midpointBehind (delta.mirror m))
      ((point.midpointBehind delta).mirror m) :=
  ((SameValue.refl _).sub (div_mirror m delta 2)).trans (sub_mirror m point _)

/-- A mirrored movement is rescaled to a length like the movement itself. -/
theorem withLength_mirror (m : Mirror) (v : Vec) (length : Binary32) :
    Option.Rel SameValue ((v.mirror m).withLength length) ((v.withLength length).map (mirror m)) := by
  simp only [withLength, length_mirror]
  split
  · exact .none
  · exact .some (mul_mirror m v _)

end Vec

/-! ### Segments -/

namespace Segment

/-- The ends of two segments are equal as numbers, end by end. -/
def numEq (s t : Segment) : Bool :=
  s.start.x.numEq t.start.x && s.start.y.numEq t.start.y && s.stop.x.numEq t.stop.x &&
    s.stop.y.numEq t.stop.y

/-- The ends of two segments have coordinates of the same values. -/
structure SameValue (s t : Segment) : Prop where
  start : s.start.SameValue t.start
  stop : s.stop.SameValue t.stop

/-- A segment can be drawn: its ends are finite and do not fall together. -/
def Proper (s : Segment) : Prop := s.start.isFinite ∧ s.stop.isFinite ∧ 0 < s.length

instance (s : Segment) : Decidable s.Proper := inferInstanceAs (Decidable (_ ∧ _ ∧ _))

variable {r s t : Segment}

namespace SameValue

theorem trans (h : SameValue r s) (h' : SameValue s t) : SameValue r t :=
  ⟨h.start.trans h'.start, h.stop.trans h'.stop⟩

theorem reversed (h : SameValue s t) : SameValue s.reversed t.reversed := ⟨h.stop, h.start⟩

theorem mirror (h : SameValue s t) (m : Mirror) :
    SameValue (s.map (Vec.mirror m)) (t.map (Vec.mirror m)) :=
  ⟨h.start.mirror m, h.stop.mirror m⟩

theorem proper_iff (h : SameValue s t) : s.Proper ↔ t.Proper := by
  simp only [Proper, length, Vec.distance, h.start.isFinite_eq, h.stop.isFinite_eq,
    (h.start.sub h.stop).length_eq]

theorem numEq_eq_true (h : SameValue s t) (hstart : s.start.isFinite = true)
    (hstop : s.stop.isFinite = true) : s.numEq t = true := by
  obtain ⟨hax, hay⟩ := Bool.and_eq_true_iff.1 hstart
  obtain ⟨hbx, hby⟩ := Bool.and_eq_true_iff.1 hstop
  simp only [numEq, h.start.x.numEq_eq_true (Binary.isNaN_of_isFinite hax),
    h.start.y.numEq_eq_true (Binary.isNaN_of_isFinite hay),
    h.stop.x.numEq_eq_true (Binary.isNaN_of_isFinite hbx),
    h.stop.y.numEq_eq_true (Binary.isNaN_of_isFinite hby), Bool.and_self]

end SameValue

theorem length_reversed (s : Segment) : s.reversed.length = s.length := by
  have hswap : (s.stop - s.start).SameValue ((s.start - s.stop).turn .half) :=
    ⟨Binary.neg_sub_swap _ _, Binary.neg_sub_swap _ _⟩
  change (s.stop - s.start).length = (s.start - s.stop).length
  rw [hswap.length_eq, Vec.turn_eq_mirror, Vec.length_mirror, Vec.length_mirror]

theorem proper_reversed (s : Segment) : s.reversed.Proper ↔ s.Proper := by
  unfold Proper
  rw [length_reversed]
  exact and_left_comm

theorem proper_mirror (m : Mirror) (s : Segment) : (s.map (Vec.mirror m)).Proper ↔ s.Proper := by
  have hlength : (s.map (Vec.mirror m)).length = s.length := by
    change (s.start.mirror m - s.stop.mirror m).length = (s.start - s.stop).length
    rw [(Vec.sub_mirror m s.start s.stop).length_eq, Vec.length_mirror]
  simp only [Proper, hlength]
  simp only [map, Vec.isFinite_mirror]

/-- A segment seen in a mirror, with its ends exchanged. -/
def inMirror (m : Mirror) (s : Segment) : Segment := (s.map (Vec.mirror m)).reversed

theorem SameValue.inMirror (h : SameValue s t) (m : Mirror) :
    SameValue (s.inMirror m) (t.inMirror m) :=
  (h.mirror m).reversed

/-- The segment, if it can be drawn. -/
def proper? (s : Segment) : Option Segment := if s.Proper then some s else none

theorem SameValue.proper?_rel (h : SameValue s t) : Option.Rel SameValue s.proper? t.proper? := by
  simp only [proper?, h.proper_iff]
  split
  · exact .some h
  · exact .none

theorem proper?_inMirror (m : Mirror) (s : Segment) :
    (s.inMirror m).proper? = s.proper?.map (inMirror m) := by
  have hproper : (s.inMirror m).Proper ↔ s.Proper :=
    (proper_reversed _).trans (proper_mirror m s)
  simp only [proper?, hproper]
  split <;> rfl

end Segment

/-! ### Stripes -/

namespace Settings

/-- The bar across a movement. -/
def bar (point delta step : Vec) : Segment :=
  let middle := point.midpointBehind delta
  ⟨middle + step.rotateDegrees (-90), middle + step.rotateDegrees 90⟩

/-- A stripe is the bar that its step gives, if that is proper. -/
theorem stripe_eq (s : Settings) (sample : Sample) :
    s.stripe sample = if sample.point.isFinite then
      (s.step sample.delta).bind fun step => (bar sample.point sample.delta step).proper?
    else none := by
  unfold stripe
  split
  · cases s.step sample.delta with
    | none => rfl
    | some step => rfl
  · rfl

/-- A stripe is the bar of a step. -/
theorem exists_step_of_stripe {s : Settings} {sample : Sample} {segment : Segment}
    (h : s.stripe sample = some segment) :
    ∃ step, s.step sample.delta = some step ∧ segment = bar sample.point sample.delta step := by
  rw [stripe_eq] at h
  split at h
  · obtain ⟨step, hstep, hbar⟩ := Option.bind_eq_some_iff.1 h
    unfold Segment.proper? at hbar
    split at hbar
    · exact ⟨step, hstep, (Option.some.inj hbar).symm⟩
    · simp at hbar
  · simp at h

/-- The mirrored movement gives the mirrored step. -/
theorem step_mirror (s : Settings) (m : Mirror) (delta : Vec) :
    Option.Rel Vec.SameValue (s.step (delta.mirror m)) ((s.step delta).map (Vec.mirror m)) := by
  simp only [step, Vec.isFinite_mirror, Vec.length_mirror]
  split
  · exact .none
  · split
    · exact .some (.refl _)
    · exact delta.withLength_mirror m s.offset

theorem toRadians_neg_ninety : Binary.toRadians (-90) = -Binary.toRadians 90 := by
  decide +kernel

/-- The bar across a mirrored movement, around a mirrored point: its ends are exchanged. -/
theorem bar_mirror (m : Mirror) (point delta : Vec) {step step' : Vec}
    (h : step'.SameValue (step.mirror m)) :
    (bar (point.mirror m) (delta.mirror m) step').SameValue
      ((bar point delta step).inMirror m) := by
  have hmiddle := Vec.midpointBehind_mirror m point delta
  have hstart : (step'.rotateDegrees (-90)).SameValue ((step.rotateDegrees 90).mirror m) := by
    unfold Vec.rotateDegrees
    rw [toRadians_neg_ninety]
    exact (h.rotate _).trans (Vec.rotate_mirror m step _)
  have hstop : (step'.rotateDegrees 90).SameValue ((step.rotateDegrees (-90)).mirror m) := by
    have hturned := Vec.rotate_mirror m step (-Binary.toRadians 90)
    rw [Binary.neg_twice] at hturned
    unfold Vec.rotateDegrees
    rw [toRadians_neg_ninety]
    exact (h.rotate _).trans hturned
  exact ⟨(hmiddle.add hstart).trans (Vec.add_mirror m _ _),
    (hmiddle.add hstop).trans (Vec.add_mirror m _ _)⟩

/-- **The stripe of a mirrored sample** is the mirrored stripe, with its ends exchanged. -/
theorem stripe_mirror (s : Settings) (m : Mirror) (sample : Sample) :
    Option.Rel Segment.SameValue (s.stripe (sample.map (Vec.mirror m)))
      ((s.stripe sample).map (Segment.inMirror m)) := by
  have hstep := s.step_mirror m sample.delta
  rw [stripe_eq, stripe_eq]
  simp only [Sample.map, Vec.isFinite_mirror]
  split
  · generalize s.step (sample.delta.mirror m) = mirrored at hstep ⊢
    cases hdelta : s.step sample.delta with
    | none =>
        rw [hdelta] at hstep
        cases hstep
        exact .none
    | some step =>
        rw [hdelta] at hstep
        cases hstep with
        | some h =>
            have hbar := bar_mirror m sample.point sample.delta h
            simp only [Option.bind_some, ← Segment.proper?_inMirror]
            exact hbar.proper?_rel
  · exact .none

/-- The stripe of a turned sample is the turned stripe. -/
theorem stripe_turn (s : Settings) (t : Turn) (sample : Sample) :
    Option.Rel Segment.SameValue (s.stripe (sample.map (Vec.turn t)))
      ((s.stripe sample).map (Segment.map (Vec.turn t))) := by
  have hturn : ∀ v : Vec, v.turn t = (v.mirror t.mirrors.1).mirror t.mirrors.2 :=
    Vec.turn_eq_mirror t
  have hsample : sample.map (Vec.turn t) =
      (sample.map (Vec.mirror t.mirrors.1)).map (Vec.mirror t.mirrors.2) := by
    simp only [Sample.map, hturn]
  have hsegment : ∀ segment : Segment, segment.map (Vec.turn t) =
      (segment.inMirror t.mirrors.1).inMirror t.mirrors.2 := by
    intro segment
    simp only [Segment.inMirror, Segment.map, Segment.reversed, hturn]
  have hfirst := s.stripe_mirror t.mirrors.1 sample
  have hsecond := s.stripe_mirror t.mirrors.2 (sample.map (Vec.mirror t.mirrors.1))
  rw [hsample]
  generalize s.stripe ((sample.map _).map (Vec.mirror t.mirrors.2)) = twice at hsecond ⊢
  generalize s.stripe (sample.map _) = once at hfirst hsecond
  generalize s.stripe sample = stripe at hfirst ⊢
  cases stripe with
  | none =>
      cases hfirst
      cases hsecond
      exact .none
  | some segment =>
      cases hfirst with
      | some h =>
          cases hsecond with
          | some h' =>
              rw [Option.map_some, hsegment]
              exact .some (h'.trans (h.inMirror _))

/-- The ends of a stripe are finite, so that those of the same values are equal as numbers. -/
theorem stripe_rel_numEq {s : Settings} {sample : Sample} {other : Option Segment}
    (h : Option.Rel Segment.SameValue (s.stripe sample) other) :
    Option.Rel (fun a b => Segment.numEq a b = true) (s.stripe sample) other := by
  cases hstripe : s.stripe sample with
  | none =>
      rw [hstripe] at h
      cases h
      exact .none
  | some segment =>
      obtain ⟨hstart, hstop⟩ := stripe_isFinite hstripe
      rw [hstripe] at h
      cases h with
      | some h => exact .some (h.numEq_eq_true hstart hstop)

/-- **Stripes under all symmetries**, for any settings and any sample, whatever its numbers are.  A
sample seen in a mirror gives a stripe where the sample itself does, and that is equal, as numbers
are, to the stripe of the sample seen in the mirror, with its ends exchanged.  A turned sample gives
the turned stripe, end by end. -/
theorem stripe_symmetric (s : Settings) (sample : Sample) :
    (∀ m : Mirror, Option.Rel (fun a b => Segment.numEq a b = true)
      (s.stripe (sample.map (Vec.mirror m)))
      ((s.stripe sample).map fun segment => (segment.map (Vec.mirror m)).reversed)) ∧
    (∀ t : Turn, Option.Rel (fun a b => Segment.numEq a b = true)
      (s.stripe (sample.map (Vec.turn t)))
      ((s.stripe sample).map fun segment => segment.map (Vec.turn t))) := by
  constructor
  · intro m
    exact stripe_rel_numEq (s.stripe_mirror m sample)
  · intro t
    exact stripe_rel_numEq (s.stripe_turn t sample)

end Settings

end StripeBrush
