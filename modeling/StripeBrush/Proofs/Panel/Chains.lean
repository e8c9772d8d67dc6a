/-
**Following the dependencies of a panel.**

Every widget disables at most one other, so that the dependencies which start at a widget form a
single chain.  It either comes to an end or comes back to a parameter that it has passed.  Which of
the two happens shows within as many steps as there are registrations, because the parameters passed
are all different and all registered.

Main definitions:

* `Disables` — the widget of one parameter disables that of another;
* `Follows` — **following a chain to where it ends or closes**, in as many steps as that takes;
* `IsCircle` — a chain of dependencies that closes and passes nothing else twice.

Main results:

* `follows_cycleFrom?` — following a chain comes to an end, and the limit on the number of steps is
  never met;
* `Follows.isCircle` — what is reported is a circle;
* `Follows.nodup_walk` — where nothing is reported, no walk from there passes anything twice;
* `cycle?_eq_none_iff` — **no circle is found exactly when no walk passes anything twice**.
-/

import Mathlib.Data.List.Chain
import Mathlib.Data.List.Nodup
import Mathlib.Data.List.Perm.Subperm
import StripeBrush.Proofs.Panel.Wiring

set_option relaxedAutoImplicit false
set_option autoImplicit false

namespace StripeBrush

variable {registrations : List Registration} {p q current : Param}
  {chain circle walk : List Param}

/-! ### Dependencies -/

/-- The widget of `p` disables the widget of `q` while it is checked. -/
def Disables (registrations : List Registration) (p q : Param) : Prop :=
  ∃ spec, (p, spec) ∈ registrations ∧ spec.effect = .disableWhenChecked q

theorem Effect.target?_eq_some_iff {effect : Effect} :
    effect.target? = some q ↔ effect = .disableWhenChecked q := by
  cases effect <;> simp [Effect.target?]

theorem Disables.mem (h : Disables registrations p q) : p ∈ registrations.map Prod.fst := by
  obtain ⟨spec, hmem, -⟩ := h
  exact List.mem_map.2 ⟨(p, spec), hmem, rfl⟩

theorem disables_of_targetOf (h : targetOf registrations p = some q) :
    Disables registrations p q := by
  obtain ⟨spec, hlookup, htarget⟩ := Option.bind_eq_some_iff.1 h
  obtain ⟨before, after, hsplit, -⟩ := List.lookup_eq_some_iff.1 hlookup
  refine ⟨spec, ?_, Effect.target?_eq_some_iff.1 htarget⟩
  rw [hsplit]
  simp

/-- Where no parameter is registered twice, the one found first is the only one. -/
theorem targetOf_of_disables (hnames : (registrations.map Prod.fst).Nodup)
    (h : Disables registrations p q) : targetOf registrations p = some q := by
  obtain ⟨spec, hmem, heffect⟩ := h
  have hlookup := lookup_eq_some_of_mem hnames hmem
  simp [targetOf, hlookup, heffect, Effect.target?]

/-! ### Following a chain -/

/-- Following the dependencies from `current`, which ends the chain of parameters passed so far:
either they end there, or they come back to one of the chain, and what is reported is the circle
from its first passing to its second, or they go on. -/
inductive Follows (registrations : List Registration) :
    List Param → Param → Option (List Param) → Prop
  | ends {chain : List Param} {current : Param} (h : targetOf registrations current = none) :
      Follows registrations chain current none
  | closes {before after : List Param} {current next : Param}
      (h : targetOf registrations current = some next) (hfirst : next ∉ before) :
      Follows registrations (before ++ next :: after) current (some (next :: after ++ [next]))
  | goesOn {chain : List Param} {current next : Param} {result : Option (List Param)}
      (h : targetOf registrations current = some next) (hnew : next ∉ chain)
      (hrest : Follows registrations (chain ++ [next]) next result) :
      Follows registrations chain current result

theorem nodup_append_singleton (h : chain.Nodup) (hnew : p ∉ chain) : (chain ++ [p]).Nodup := by
  rw [← List.concat_eq_append]
  exact h.concat hnew

theorem concat_subset_of_targetOf (h : chain ⊆ registrations.map Prod.fst)
    (ht : targetOf registrations p = some q) : chain ++ [p] ⊆ registrations.map Prod.fst :=
  List.append_subset.2 ⟨h, by simpa using (disables_of_targetOf ht).mem⟩

theorem isChain_concat (h : chain.IsChain (Disables registrations))
    (hlast : chain.getLast? = some p) (ht : targetOf registrations p = some q) :
    (chain ++ [q]).IsChain (Disables registrations) := by
  rw [List.isChain_append]
  refine ⟨h, List.isChain_singleton q, ?_⟩
  intro a ha b hb
  obtain rfl := Option.some.inj (hlast.symm.trans ha)
  obtain rfl : q = b := by simpa using hb
  exact disables_of_targetOf ht

theorem dropWhile_eq_of_mem (h : p ∈ chain) : ∃ before after,
    chain = before ++ p :: after ∧ p ∉ before ∧
      chain.dropWhile (fun q => !decide (q = p)) = p :: after := by
  obtain ⟨before, after, rfl, hfirst⟩ := List.eq_append_cons_of_mem h
  refine ⟨before, after, rfl, hfirst, ?_⟩
  have hpass : ∀ q ∈ before, (!decide (q = p)) = true := by
    intro q hq
    have hne : q ≠ p := fun heq => hfirst (heq ▸ hq)
    simpa using hne
  rw [List.dropWhile_append_of_pos hpass]
  simp

/-- **Following a chain comes to an end**, and the limit on the number of steps is not met: the
parameters passed are different, and all of them but the last are known to be registered. -/
theorem follows_chain (registrations : List Registration) (fuel : Nat) (passed : List Param)
    (current : Param) (hnodup : (passed ++ [current]).Nodup)
    (hpassed : passed ⊆ registrations.map Prod.fst)
    (hfuel : registrations.length < passed.length + 1 + fuel) :
    Follows registrations (passed ++ [current]) current
      (cycleFrom? registrations fuel (passed ++ [current]) current) := by
  induction fuel generalizing passed current with
  | zero =>
      -- a last parameter with a target would be registered, too, and there are too many of them
      refine .ends ?_
      by_contra hsome
      obtain ⟨next, hnext⟩ := Option.ne_none_iff_exists'.1 hsome
      have hsub := concat_subset_of_targetOf hpassed hnext
      have hle := (hnodup.subperm hsub).length_le
      simp only [List.length_append, List.length_map, List.length_singleton] at hle
      omega
  | succ fuel ih =>
      unfold cycleFrom?
      cases hnext : targetOf registrations current with
      | none => exact .ends hnext
      | some next =>
          by_cases hmem : next ∈ passed ++ [current]
          · obtain ⟨before, after, hsplit, hfirst, hdrop⟩ := dropWhile_eq_of_mem hmem
            simp only [hmem, if_true, hdrop]
            rw [hsplit]
            exact .closes hnext hfirst
          · simp only [hmem, if_false]
            have hlonger := nodup_append_singleton hnodup hmem
            have hregistered := concat_subset_of_targetOf hpassed hnext
            refine .goesOn hnext hmem (ih (passed ++ [current]) next hlonger hregistered ?_)
            simp only [List.length_append, List.length_singleton]
            omega

/-- Following the dependencies from any parameter comes to an end within as many steps as there are
registrations. -/
theorem follows_cycleFrom? (registrations : List Registration) (p : Param) :
    Follows registrations [p] p (cycleFrom? registrations registrations.length [p] p) :=
  follows_chain registrations registrations.length [] p (by simp) (by simp) (by simp)

/-! ### What is reported -/

/-- A circle of dependencies: at least two entries, of which the first and the last are the same and
no other is repeated, and each of which disables the next. -/
structure IsCircle (registrations : List Registration) (circle : List Param) : Prop where
  two_le_length : 2 ≤ circle.length
  closed : circle.head? = circle.getLast?
  nodup : circle.dropLast.Nodup
  isChain : circle.IsChain (Disables registrations)

/-- A circle passes its first entry twice. -/
theorem IsCircle.not_nodup (h : IsCircle registrations circle) : ¬ circle.Nodup := by
  intro hnodup
  match circle, h.two_le_length, h.closed with
  | first :: second :: rest, _, hclosed =>
      have hlast : first ∈ second :: rest := by
        rw [List.head?_cons, List.getLast?_cons_cons] at hclosed
        exact List.mem_of_getLast? hclosed.symm
      exact (List.nodup_cons.1 hnodup).1 hlast

/-- What is reported is a circle. -/
theorem Follows.isCircle (h : Follows registrations chain current (some circle))
    (hnodup : chain.Nodup) (hchain : chain.IsChain (Disables registrations))
    (hlast : chain.getLast? = some current) : IsCircle registrations circle := by
  generalize hresult : some circle = result at h
  induction h with
  | ends => simp at hresult
  | @closes before after current next hnext hfirst =>
      obtain rfl := Option.some.inj hresult
      have hsuffix : next :: after <:+ before ++ next :: after := List.suffix_append _ _
      refine
        { two_le_length := by simp
          closed := by rw [List.getLast?_concat]; rfl
          nodup := by
            rw [List.dropLast_concat]
            exact hnodup.sublist hsuffix.sublist
          isChain := isChain_concat (hchain.suffix hsuffix) ?_ hnext }
      rwa [List.getLast?_append_of_ne_nil _ (List.cons_ne_nil _ _)] at hlast
  | @goesOn chain current next result hnext hnew hrest ih =>
      have hlonger := isChain_concat hchain hlast hnext
      exact ih (nodup_append_singleton hnodup hnew) hlonger (by simp) hresult

/-- Where nothing is reported, no walk along the dependencies that goes on from the chain passes
anything twice. -/
theorem Follows.nodup_walk (h : Follows registrations chain current none)
    (hnames : (registrations.map Prod.fst).Nodup) (hnodup : chain.Nodup)
    (hwalk : (current :: walk).IsChain (Disables registrations)) : (chain ++ walk).Nodup := by
  generalize hresult : none = result at h
  induction h generalizing walk with
  | @ends chain current hnext =>
      cases walk with
      | nil => simpa using hnodup
      | cons q walk =>
          have htarget := targetOf_of_disables hnames (List.isChain_cons_cons.1 hwalk).1
          simp [hnext] at htarget
  | closes => simp at hresult
  | @goesOn chain current next result hnext hnew hrest ih =>
      cases walk with
      | nil => simpa using hnodup
      | cons q walk =>
          obtain ⟨hstep, hwalk⟩ := List.isChain_cons_cons.1 hwalk
          obtain rfl : next = q :=
            Option.some.inj (hnext.symm.trans (targetOf_of_disables hnames hstep))
          have hlonger := ih (nodup_append_singleton hnodup hnew) hwalk hresult
          simpa using hlonger

theorem isCircle_of_cycle?_eq_some (h : cycle? registrations = some circle) :
    IsCircle registrations circle := by
  obtain ⟨r, -, hr⟩ := List.exists_of_findSome?_eq_some h
  have hfollows := follows_cycleFrom? registrations r.1
  rw [hr] at hfollows
  exact hfollows.isCircle (by simp) (List.isChain_singleton _) rfl

/-- **No circle is found exactly when no walk along the dependencies passes anything twice.** -/
theorem cycle?_eq_none_iff (hnames : (registrations.map Prod.fst).Nodup) :
    cycle? registrations = none ↔
      ∀ walk : List Param, walk.IsChain (Disables registrations) → walk.Nodup := by
  constructor
  · intro hnone walk hwalk
    match walk, hwalk with
    | [], _ => exact List.nodup_nil
    | [p], _ => exact List.nodup_singleton p
    | p :: q :: rest, hwalk =>
        -- a walk of at least one step starts at a registered parameter
        obtain ⟨spec, hmem, -⟩ := (List.isChain_cons_cons.1 hwalk).1
        have hfollows := follows_cycleFrom? registrations p
        rw [List.findSome?_eq_none_iff.1 hnone _ hmem] at hfollows
        exact hfollows.nodup_walk hnames (List.nodup_singleton p) hwalk
  · intro hwalks
    cases hcycle : cycle? registrations with
    | none => rfl
    | some circle =>
        have hcircle := isCircle_of_cycle?_eq_some hcycle
        exact absurd (hwalks circle hcircle.isChain) hcircle.not_nodup

end StripeBrush
