import Mathlib

/-!
# Tallies of holders in two states

A holder is *committed* or *reserved*, and a `Tally` counts the two apart.

What a bookkeeper has to do when one holder comes, settles or goes follows from
the references of that holder's name alone (`charge_reserve`, `charge_commit`,
`charge_release`). Moves are stated with `add` on both sides, so that no
subtraction is ever written down.
-/

namespace Peryx

open Option Finset

/-- An amount in two states. -/
@[ext] structure Tally where
  committed : Nat := 0
  reserved : Nat := 0
deriving DecidableEq, Repr, Inhabited

namespace Tally

def sum (t : Tally) : Nat :=
  t.committed + t.reserved

def add (t : Tally) (settled : Bool) (n : Nat) : Tally :=
  if settled then { t with committed := t.committed + n }
  else { t with reserved := t.reserved + n }

@[simp] theorem add_zero (t : Tally) (settled : Bool) : t.add settled 0 = t := by
  cases settled <;> rfl

@[simp] theorem sum_add (t : Tally) (settled : Bool) (n : Nat) :
    (t.add settled n).sum = t.sum + n := by
  cases settled
  · exact (Nat.add_assoc ..).symm
  · exact Nat.add_right_comm ..

theorem sum_eq_zero_iff {t : Tally} : t.sum = 0 ↔ t.committed = 0 ∧ t.reserved = 0 :=
  Nat.add_eq_zero_iff

end Tally

namespace Holders

universe u v

variable {ι : Type u} {κ : Type v} (settled : ι → Bool)

/-! ## Weighing holders -/

variable (f : ι → Nat)

/-- What the elements come to, by state. -/
def tally (s : Finset ι) : Tally where
  committed := ∑ i ∈ s with settled i = true, f i
  reserved := ∑ i ∈ s with settled i = false, f i

theorem sum_tally (s : Finset ι) : (tally settled f s).sum = ∑ i ∈ s, f i := by
  have other : (s.filter fun i => settled i = false) = s.filter fun i => ¬ settled i = true := by
    simp
  rw [Tally.sum, tally, other, sum_filter_add_sum_filter_not]

theorem sum_tally_mono {s t : Finset ι} (le : s ⊆ t) :
    (tally settled f s).sum ≤ (tally settled f t).sum := by
  rw [sum_tally, sum_tally]
  exact sum_le_sum_of_subset le

theorem tally_congr {f g : ι → Nat} {s : Finset ι} (same : ∀ i ∈ s, f i = g i) :
    tally settled f s = tally settled g s := by
  refine Tally.ext ?_ ?_
  all_goals exact sum_congr rfl fun i hi => same i (mem_filter.mp hi).1

theorem tally_eq_empty {f : ι → Nat} {s : Finset ι} (none : ∀ i ∈ s, f i = 0) :
    tally settled f s = {} := by
  refine Tally.ext ?_ ?_
  all_goals exact sum_eq_zero fun i hi => none i (mem_filter.mp hi).1

/-! ## Names and who holds them -/

variable [DecidableEq κ] (key : ι → Option κ)

/-- The names the holders in `s` have. -/
def held (s : Finset ι) : Finset κ :=
  s.biUnion fun i => (key i).toFinset

variable {key} in
theorem mem_held {s : Finset ι} {k : κ} : k ∈ held key s ↔ ∃ i ∈ s, key i = some k := by
  simp [held]

/-- How many holders in `s` have the name `k`. -/
def references (s : Finset ι) (k : κ) : Tally :=
  tally settled (fun i => if key i = some k then 1 else 0) s

def names (state : Bool) (s : Finset ι) : Finset κ :=
  held key (s.filter fun i => settled i = state)

variable {settled key}

variable {state : Bool}

theorem mem_names {s : Finset ι} {k : κ} :
    k ∈ names settled key state s ↔ ∃ i ∈ s, settled i = state ∧ key i = some k := by
  simp [names, mem_held, and_assoc]

variable (settled key) in
theorem held_eq_names (s : Finset ι) :
    held key s = names settled key true s ∪ names settled key false s := by
  ext k
  rw [mem_union, mem_held, mem_names, mem_names]
  constructor
  · rintro ⟨i, hi, named⟩
    cases state : settled i with
    | true => exact .inl ⟨i, hi, state, named⟩
    | false => exact .inr ⟨i, hi, state, named⟩
  · rintro (⟨i, hi, -, named⟩ | ⟨i, hi, -, named⟩) <;> exact ⟨i, hi, named⟩

theorem sum_filter_eq_zero_iff {s : Finset ι} {k : κ} :
    (∑ i ∈ s with settled i = state, if key i = some k then 1 else 0) = 0 ↔
      k ∉ names settled key state s := by
  rw [Finset.sum_eq_zero_iff, mem_names]
  simp only [mem_filter, not_exists]
  refine forall_congr' fun i => ?_
  by_cases named : key i = some k <;> simp [named]

theorem references_committed_eq_zero {s : Finset ι} {k : κ} :
    (references settled key s k).committed = 0 ↔ k ∉ names settled key true s :=
  sum_filter_eq_zero_iff

theorem references_reserved_eq_zero {s : Finset ι} {k : κ} :
    (references settled key s k).reserved = 0 ↔ k ∉ names settled key false s :=
  sum_filter_eq_zero_iff

theorem references_eq_zero_iff {s : Finset ι} {k : κ} :
    (references settled key s k).sum = 0 ↔ k ∉ held key s := by
  rw [Tally.sum_eq_zero_iff, references_committed_eq_zero, references_reserved_eq_zero,
    held_eq_names settled, mem_union, not_or]

/-! ## Charging every name once -/

variable (settled key) (weight : κ → Nat)

/-- Each key is charged once, as committed if any of its elements is. -/
def charge (s : Finset ι) : Tally where
  committed := ∑ k ∈ names settled key true s, weight k
  reserved := ∑ k ∈ names settled key false s \ names settled key true s, weight k

theorem charge_eq_empty {s : Finset ι} (none : ∀ i ∈ s, key i = none) :
    charge settled key weight s = {} := by
  have empty : ∀ state, names settled key state s = ∅ := by
    intro state
    refine eq_empty_iff_forall_notMem.mpr fun k mem => ?_
    obtain ⟨i, hi, -, named⟩ := mem_names.mp mem
    rw [none i hi] at named
    cases named
  simp [charge, empty]

theorem sum_charge (s : Finset ι) :
    (charge settled key weight s).sum = ∑ k ∈ held key s, weight k := by
  rw [Tally.sum, charge, held_eq_names, ← union_sdiff_self_eq_union, sum_union disjoint_sdiff]

theorem sum_charge_mono {s t : Finset ι} (le : s ⊆ t) :
    (charge settled key weight s).sum ≤ (charge settled key weight t).sum := by
  rw [sum_charge, sum_charge]
  exact sum_le_sum_of_subset (biUnion_subset_biUnion_of_subset_left _ le)

/-! ## One holder more -/

variable {settled key weight} [DecidableEq ι] {i j : ι} {s : Finset ι} {k : κ}

theorem tally_insert (new : i ∉ s) :
    tally settled f (insert i s) = (tally settled f s).add (settled i) (f i) := by
  have out : ∀ {p : ι → Prop} [DecidablePred p], i ∉ s.filter p :=
    fun mem => new (mem_filter.mp mem).1
  cases hi : settled i with
  | true => simp [tally, filter_insert, hi, sum_insert out, Tally.add, Nat.add_comm]
  | false => simp [tally, filter_insert, hi, sum_insert out, Tally.add, Nat.add_comm]

theorem held_insert :
    held key (insert i s) = (key i).toFinset ∪ held key s :=
  biUnion_insert

theorem names_insert :
    names settled key state (insert i s) =
      if settled i = state then (key i).toFinset ∪ names settled key state s
      else names settled key state s := by
  unfold names
  rw [filter_insert]
  by_cases same : settled i = state
  · rw [if_pos same, if_pos same, held_insert]
  · rw [if_neg same, if_neg same]

theorem references_insert (new : i ∉ s) (k : κ) :
    references settled key (insert i s) k =
      (references settled key s k).add (settled i) (if key i = some k then 1 else 0) :=
  tally_insert _ new

theorem sum_tally_replace {f : ι → Nat} (same : f i = f j) (new : i ∉ s) (new' : j ∉ s) :
    (tally settled f (insert i s)).sum = (tally settled f (insert j s)).sum := by
  rw [tally_insert _ new, tally_insert _ new', Tally.sum_add, Tally.sum_add, same]

theorem sum_charge_replace (same : key i = key j) :
    (charge settled key weight (insert i s)).sum =
      (charge settled key weight (insert j s)).sum := by
  rw [sum_charge, sum_charge, held_insert, held_insert, same]

theorem charge_insert_of_none (unnamed : key i = none) :
    charge settled key weight (insert i s) = charge settled key weight s := by
  have same : ∀ state, names settled key state (insert i s) = names settled key state s := by
    intro state
    simp [names_insert, unnamed]
  simp only [charge, same]

theorem charge_insert_of_free (named : key i = some k) (free : k ∉ held key s) :
    charge settled key weight (insert i s) =
      (charge settled key weight s).add (settled i) (weight k) := by
  rw [held_eq_names settled, mem_union, not_or] at free
  cases state : settled i with
  | true =>
    simp [charge, names_insert, state, named, Tally.add, sum_insert free.1, Nat.add_comm,
      sdiff_insert_of_notMem free.2]
  | false =>
    have apart : k ∉ names settled key false s \ names settled key true s :=
      fun mem => free.2 (mem_sdiff.mp mem).1
    simp [charge, names_insert, state, named, Tally.add, Nat.add_comm,
      insert_sdiff_of_notMem _ free.1, sum_insert apart]

theorem charge_insert_of_held (reserved : settled i = false) (named : key i = some k)
    (taken : k ∈ held key s) :
    charge settled key weight (insert i s) = charge settled key weight s := by
  have committed : names settled key true (insert i s) = names settled key true s := by
    simp [names_insert, reserved]
  have rest : names settled key false (insert i s) \ names settled key true s =
      names settled key false s \ names settled key true s := by
    rw [names_insert, if_pos reserved, named]
    ext k'
    rw [held_eq_names settled, mem_union] at taken
    simp only [mem_sdiff, mem_union, mem_toFinset, mem_some_iff]
    constructor
    · rintro ⟨rfl | mem, out⟩
      · exact ⟨taken.resolve_left out, out⟩
      · exact ⟨mem, out⟩
    · exact fun ⟨mem, out⟩ => ⟨.inr mem, out⟩
  simp only [charge, committed, rest]

theorem charge_insert_of_committed (named : key i = some k) (taken : k ∈ names settled key true s) :
    charge settled key weight (insert i s) = charge settled key weight s := by
  cases state : settled i with
  | true =>
    have committed : names settled key true (insert i s) = names settled key true s := by
      rw [names_insert, if_pos state, named, toFinset_some, ← insert_eq, insert_eq_of_mem taken]
    have reserved : names settled key false (insert i s) = names settled key false s := by
      simp [names_insert, state]
    simp only [charge, committed, reserved]
  | false =>
    exact charge_insert_of_held state named (held_eq_names settled key s ▸ mem_union_left _ taken)

theorem charge_insert_of_reserved (committed : settled i = true) (named : key i = some k)
    (free : k ∉ names settled key true s) (taken : k ∈ names settled key false s) :
    ∃ t : Tally, charge settled key weight s = t.add false (weight k) ∧
      charge settled key weight (insert i s) = t.add true (weight k) := by
  refine ⟨⟨∑ k ∈ names settled key true s, weight k,
    ∑ k ∈ names settled key false s \ insert k (names settled key true s), weight k⟩, ?_, ?_⟩
  · have split := sum_erase_add (names settled key false s \ names settled key true s)
      weight (mem_sdiff.mpr ⟨taken, free⟩)
    rw [← sdiff_insert] at split
    exact Tally.ext rfl split.symm
  · simp [charge, names_insert, committed, named, Tally.add, sum_insert free, Nat.add_comm]

/-! ### What the references of its name say about a holder's charge -/

variable (weight) in
/-- **Step.** A reserved element comes in. -/
theorem charge_reserve (reserved : settled i = false) (named : key i = some k) :
    charge settled key weight (insert i s) =
      if (references settled key s k).sum = 0 then
        (charge settled key weight s).add false (weight k)
      else charge settled key weight s := by
  by_cases free : (references settled key s k).sum = 0
  · rw [if_pos free, charge_insert_of_free named (references_eq_zero_iff.mp free), reserved]
  · have taken := not_not.mp (mt references_eq_zero_iff.mpr free)
    rw [if_neg free, charge_insert_of_held reserved named taken]

variable (weight) in
/-- **Step.** An element is committed. -/
theorem charge_commit (reserved : settled i = false) (committed : settled j = true)
    (named : key i = some k) (named' : key j = some k) (new : i ∉ s) :
    if (references settled key (insert i s) k).committed = 0 then
      ∃ t : Tally, charge settled key weight (insert i s) = t.add false (weight k) ∧
        charge settled key weight (insert j s) = t.add true (weight k)
    else charge settled key weight (insert j s) = charge settled key weight (insert i s) := by
  have same : (references settled key (insert i s) k).committed =
      (references settled key s k).committed := by
    rw [references_insert new, reserved]
    rfl
  rw [same]
  by_cases free : (references settled key s k).committed = 0
  · rw [if_pos free]
    rw [references_committed_eq_zero] at free
    by_cases taken : k ∈ names settled key false s
    · have held : k ∈ held key s := held_eq_names settled key s ▸ mem_union_right _ taken
      rw [charge_insert_of_held reserved named held]
      exact charge_insert_of_reserved committed named' free taken
    · have unheld : k ∉ held key s := by
        rw [held_eq_names settled, mem_union, not_or]
        exact ⟨free, taken⟩
      refine ⟨charge settled key weight s, ?_, ?_⟩
      · rw [charge_insert_of_free named unheld, reserved]
      · rw [charge_insert_of_free named' unheld, committed]
  · rw [if_neg free]
    have taken := not_not.mp (mt references_committed_eq_zero.mpr free)
    rw [charge_insert_of_committed named' taken, charge_insert_of_committed named taken]

variable (settled weight s) in
/-- A holder that goes gives up its charge if it was the last to have its name,
and hands it to the reserved ones if it was the last committed one. -/
theorem charge_release (named : key i = some k) :
    if (references settled key s k).sum = 0 then
      charge settled key weight (insert i s) =
        (charge settled key weight s).add (settled i) (weight k)
    else if settled i = true ∧ (references settled key s k).committed = 0 then
      ∃ t : Tally, charge settled key weight (insert i s) = t.add true (weight k) ∧
        charge settled key weight s = t.add false (weight k)
    else charge settled key weight (insert i s) = charge settled key weight s := by
  by_cases free : (references settled key s k).sum = 0
  · rw [if_pos free]
    exact charge_insert_of_free named (references_eq_zero_iff.mp free)
  rw [if_neg free]
  have taken := not_not.mp (mt references_eq_zero_iff.mpr free)
  by_cases last : settled i = true ∧ (references settled key s k).committed = 0
  · rw [if_pos last]
    have uncommitted := references_committed_eq_zero.mp last.2
    rw [held_eq_names settled, mem_union] at taken
    obtain ⟨t, before, after⟩ :=
      charge_insert_of_reserved last.1 named uncommitted (taken.resolve_left uncommitted)
    exact ⟨t, after, before⟩
  · rw [if_neg last]
    cases state : settled i with
    | true =>
      have committed := mt references_committed_eq_zero.mpr (not_and.mp last state)
      exact charge_insert_of_committed named (not_not.mp committed)
    | false => exact charge_insert_of_held state named taken

end Holders

end Peryx
