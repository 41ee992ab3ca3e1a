import Peryx.Storage.Quota

/-!
# What reservation records imply of the quota counters

The records of `meta/quota.rs` as a set, and every counter as a tally or a
charge over it.
-/

namespace Peryx

open Holders Tally Peryx.Except

/-! ## What records imply -/

namespace QuotaReservationRecord

def settled (r : QuotaReservationRecord) : Bool :=
  r.state == .committed

def commit (r : QuotaReservationRecord) : QuotaReservationRecord :=
  { r with state := .committed }

def bytesIn (repository : String) (r : QuotaReservationRecord) : Nat :=
  if r.repository = repository then r.bytes else 0

def digestIn (repository : String) (r : QuotaReservationRecord) : Option (String × Nat) :=
  if r.repository = repository then some (r.digest, r.bytes) else none

def blobIn (repository digest : String) (r : QuotaReservationRecord) : Nat :=
  if r.repository = repository ∧ r.digest = digest then 1 else 0

def resourceIn (repository : String) (r : QuotaReservationRecord) : Option String :=
  if r.repository = repository then r.resource else none

/-- The bytes a record takes of a resource's limit, if it was given one. -/
def limitedIn (repository resource : String) (r : QuotaReservationRecord) : Nat :=
  if r.resourceIn repository = some resource ∧ r.resourceArtifactBytes = true then r.bytes else 0

def groupIn (repository resource : String) (r : QuotaReservationRecord) : Option String :=
  if r.resourceIn repository = some resource then r.group else none

theorem resourceIn_eq_some {r : QuotaReservationRecord} {repository resource : String} :
    r.resourceIn repository = some resource ↔
      r.repository = repository ∧ r.resource = some resource := by
  unfold resourceIn
  split <;> simp_all

theorem groupIn_eq_some {r : QuotaReservationRecord} {repository resource group : String} :
    r.groupIn repository resource = some group ↔
      r.resourceIn repository = some resource ∧ r.group = some group := by
  unfold groupIn
  split <;> simp_all

end QuotaReservationRecord

open QuotaReservationRecord (settled)

abbrev Ledger := Finset QuotaReservationRecord

namespace Ledger

variable (rs : Ledger)

/-- A repository's usage, counted from the reservations. -/
def usage (repository : String) : QuotaUsage where
  artifactBytes := tally settled (·.bytesIn repository) rs
  accountedBytes := charge settled (·.digestIn repository) (·.2) rs
  resources := charge settled (·.resourceIn repository) (fun _ => 1) rs

def blobReferences (repository digest : String) : References :=
  tally settled (·.blobIn repository digest) rs

def resourceUsage (repository resource : String) : ResourceUsage where
  references := references settled (·.resourceIn repository) rs resource
  artifactBytes := tally settled (·.limitedIn repository resource) rs
  groups := charge settled (·.groupIn repository resource) (fun _ => 1) rs

def groupReferences (repository resource group : String) : References :=
  references settled (·.groupIn repository resource) rs group

/-- Within a repository a digest has one size. -/
def OneSize : Prop :=
  ∀ r ∈ rs, ∀ r' ∈ rs, r.repository = r'.repository → r.digest = r'.digest → r.bytes = r'.bytes

end Ledger

/-! ## Operations on counters -/

/-- A computation that ends with `P`, or with an error, and never with a
subtraction below zero. -/
def Yields {α : Type} (P : α → Prop) : Except QuotaStop α → Prop
  | .ok a => P a
  | .error (.error _) => True
  | .error .underflow => False

namespace Yields

variable {α β : Type} {P : α → Prop} {Q : β → Prop}

variable {x : Except QuotaStop α}

theorem of_ok {a : α} (h : x = .ok a) (ha : P a) : Yields P x :=
  h ▸ ha

theorem and_eq (hx : Yields P x) : Yields (fun a => x = .ok a ∧ P a) x := by
  match x, hx with
  | .ok a, ha => exact ⟨rfl, ha⟩
  | .error (.error _), _ => exact trivial

theorem bind {f : α → Except QuotaStop β} (hx : Yields P x)
    (hf : ∀ a, P a → Yields Q (f a)) : Yields Q (x >>= f) := by
  match x, hx with
  | .ok a, ha => exact hf a ha
  | .error (.error _), _ => exact trivial

theorem bind_ok {f : α → Except QuotaStop β} {a : α} (h : x = .ok a) (hf : Yields Q (f a)) :
    Yields Q (x >>= f) :=
  h ▸ hf

theorem map {f : α → β} (hx : Yields P x) (hf : ∀ a, P a → Q (f a)) :
    Yields Q (x.map f) := by
  match x, hx with
  | .ok a, ha => exact hf a ha
  | .error (.error _), _ => exact trivial

theorem mono {P' : α → Prop} (hx : Yields P x) (weaker : ∀ a, P a → P' a) : Yields P' x := by
  match x, hx with
  | .ok a, ha => exact weaker a ha
  | .error (.error _), _ => exact trivial

/-- **Run.** What every element of a list keeps, folding over it keeps. -/
theorem foldlM {f : α → β → Except QuotaStop α} (hf : ∀ a b, P a → Yields P (f a b)) :
    ∀ (bs : List β) (a : α), P a → Yields P (bs.foldlM f a)
  | [], _, ha => ha
  | b :: bs, a, ha => (hf a b ha).bind (foldlM hf bs)

end Yields

theorem checkedAdd_of_le {value amount : Nat} (fits : value + amount ≤ Nat.u64Max) :
    checkedAdd value amount = .ok (value + amount) := by
  rw [checkedAdd, Nat.u64CheckedAdd, if_pos fits]

theorem yields_checkedAdd (value amount : Nat) :
    Yields (fun sum => sum = value + amount ∧ sum ≤ Nat.u64Max) (checkedAdd value amount) := by
  by_cases fits : value + amount ≤ Nat.u64Max
  · exact .of_ok (checkedAdd_of_le fits) ⟨rfl, fits⟩
  · rw [checkedAdd, Nat.u64CheckedAdd, if_neg fits]
    exact trivial

theorem subtract_add (value amount : Nat) : subtract (value + amount) amount = .ok value := by
  rw [subtract, if_pos (Nat.le_add_left ..), Nat.add_sub_cancel]

variable {t : Tally} {r : QuotaReservationRecord}

theorem Tally.total_eq_zero : t.total = 0 ↔ t.sum = 0 := by
  have room : Nat.u64Max ≠ 0 := by decide
  rw [total, sum, Nat.u64SaturatingAdd, Nat.min_eq_zero_iff, or_iff_left room]

theorem Tally.eq_empty (free : t.total = 0) : t = {} := by
  obtain ⟨committed, reserved⟩ := sum_eq_zero_iff.mp (total_eq_zero.mp free)
  exact Tally.ext committed reserved

theorem Tally.total_eq_sum (fits : t.sum ≤ Nat.u64Max) : t.total = t.sum :=
  Nat.min_eq_left fits

theorem moveValue_add {n : Nat} (fits : (t.add false n).sum ≤ Nat.u64Max) :
    moveValue (t.add false n) n = .ok (t.add true n) := by
  rw [sum_add, Tally.sum] at fits
  have room : t.committed + n ≤ Nat.u64Max := by omega
  refine bind_eq_ok.mpr ⟨t.reserved, subtract_add .., ?_⟩
  exact bind_eq_ok.mpr ⟨t.committed + n, checkedAdd_of_le room, rfl⟩

theorem yields_moveReference (t : References) :
    Yields (· = t.add true 1) (moveReference (t.add false 1)) := by
  refine .bind_ok (subtract_add ..) ?_
  refine (yields_checkedAdd _ _).bind ?_
  rintro _ ⟨rfl, -⟩
  exact rfl

theorem subtractValue_add (t : Tally) (r : QuotaReservationRecord) (n : Nat) :
    subtractValue (t.add r.settled n) r.state n = .ok t := by
  unfold subtractValue
  cases state : r.state with
  | reserved =>
    have uncommitted : r.settled = false := by rw [settled, state]; rfl
    rw [if_neg nofun, uncommitted]
    exact bind_eq_ok.mpr ⟨t.reserved, subtract_add .., rfl⟩
  | committed =>
    have committed : r.settled = true := by rw [settled, state]; rfl
    rw [if_pos rfl, committed]
    exact bind_eq_ok.mpr ⟨t.committed, subtract_add .., rfl⟩

section Charge

variable {κ : Type} [DecidableEq κ] {key : QuotaReservationRecord → Option κ}
  (weight : κ → Nat) {s : Ledger} {k : κ}

theorem rebalanceOrRemove_charge (named : key r = some k)
    (fits : (charge settled key weight (insert r s)).sum ≤ Nat.u64Max) :
    rebalanceOrRemove (charge settled key weight (insert r s)) (references settled key s k)
      r.state (weight k) = .ok (charge settled key weight s) := by
  have released := charge_release settled weight s named
  unfold rebalanceOrRemove
  by_cases last : (references settled key s k).sum = 0
  · rw [if_pos last] at released
    rw [if_pos (total_eq_zero.mpr last), released]
    exact subtractValue_add ..
  rw [if_neg last] at released
  rw [if_neg (mt total_eq_zero.mp last)]
  have state : r.settled = true ↔ r.state = .committed := beq_iff_eq
  by_cases uncommitted : r.state = .committed ∧ (references settled key s k).committed = 0
  · rw [if_pos ⟨state.mpr uncommitted.1, uncommitted.2⟩] at released
    obtain ⟨t, before, after⟩ := released
    rw [before, sum_add, Tally.sum] at fits
    rw [if_pos uncommitted, before, after]
    refine bind_eq_ok.mpr ⟨t.committed, subtract_add .., ?_⟩
    have room : t.reserved + weight k ≤ Nat.u64Max := by omega
    exact bind_eq_ok.mpr ⟨t.reserved + weight k, checkedAdd_of_le room, rfl⟩
  · rw [if_neg fun h => uncommitted ⟨state.mp h.1, h.2⟩] at released
    rw [if_neg uncommitted, released]
    rfl

theorem moveFirst_charge (reserved : r.state = .reserved) (new : r ∉ s) (named : key r = some k)
    (named' : key r.commit = some k)
    (fits : (charge settled key weight (insert r s)).sum ≤ Nat.u64Max) :
    moveFirst (charge settled key weight (insert r s)) (references settled key (insert r s) k)
      (weight k) = .ok (charge settled key weight (insert r.commit s)) := by
  have before : r.settled = false := by rw [settled, reserved]; rfl
  have moved := charge_commit weight before (rfl : r.commit.settled = true) named named' new
  unfold moveFirst onlyIf
  by_cases first : (references settled key (insert r s) k).committed = 0
  · rw [if_pos first] at moved
    obtain ⟨t, was, is⟩ := moved
    rw [was] at fits
    rw [if_pos (decide_eq_true first), was, is]
    exact moveValue_add fits
  · rw [if_neg first] at moved
    rw [if_neg (mt of_decide_eq_true first), moved]

end Charge

/-! ## One record, there or not -/

namespace Ledger

/-- `rs` is `s`, or `s` with the record `r` in one of its two states. -/
inductive Around (r : QuotaReservationRecord) (s : Ledger) : Ledger → Prop
  | absent : Around r s s
  | present {x : QuotaReservationRecord} (same : x.commit = r.commit) (new : x ∉ s) :
      Around r s (insert x s)

namespace Around

variable {s rs : Ledger}

theorem subset (around : Around r s rs) : s ⊆ rs := by
  cases around with
  | absent => exact subset_rfl
  | present same new => exact Finset.subset_insert _ _

theorem mem (around : Around r s rs) {x : QuotaReservationRecord} (hx : x ∈ rs) :
    x ∈ s ∨ x.commit = r.commit := by
  cases around with
  | absent => exact .inl hx
  | present same new =>
    rcases Finset.mem_insert.mp hx with rfl | hx
    · exact .inr same
    · exact .inl hx

variable {repository : String}

section

variable (around : Around r s rs)

include around

theorem usage_of_ne
    (other : r.repository ≠ repository) : rs.usage repository = s.usage repository := by
  cases around with
  | absent => rfl
  | @present x same new =>
    have elsewhere : x.repository ≠ repository :=
      fun h => other ((congrArg (·.repository) same).symm.trans h)
    have bytes : x.bytesIn repository = 0 := if_neg elsewhere
    have digest : x.digestIn repository = none := if_neg elsewhere
    have resource : x.resourceIn repository = none := if_neg elsewhere
    unfold usage
    rw [tally_insert _ new, bytes, add_zero, charge_insert_of_none digest,
      charge_insert_of_none resource]

theorem blobReferences_of_ne {digest : String}
    (other : ¬ (r.repository = repository ∧ r.digest = digest)) :
    rs.blobReferences repository digest = s.blobReferences repository digest := by
  cases around with
  | absent => rfl
  | @present x same new =>
    have blob : x.blobIn repository digest = 0 :=
      (congrArg (·.blobIn repository digest) same).trans (if_neg other)
    rw [blobReferences, tally_insert _ new, blob, add_zero, blobReferences]

theorem resourceUsage_of_ne {resource : String} (other : r.resourceIn repository ≠ some resource) :
    rs.resourceUsage repository resource = s.resourceUsage repository resource := by
  cases around with
  | absent => rfl
  | @present x same new =>
    have elsewhere : x.resourceIn repository ≠ some resource :=
      fun h => other ((congrArg (·.resourceIn repository) same).symm.trans h)
    have limited : x.limitedIn repository resource = 0 := if_neg fun h => elsewhere h.1
    have group : x.groupIn repository resource = none := if_neg elsewhere
    unfold resourceUsage
    rw [references_insert new, if_neg elsewhere, add_zero, tally_insert _ new, limited,
      add_zero, charge_insert_of_none group]

theorem groupReferences_of_ne {resource group : String}
    (other : r.groupIn repository resource ≠ some group) :
    rs.groupReferences repository resource group =
      s.groupReferences repository resource group := by
  cases around with
  | absent => rfl
  | @present x same new =>
    have elsewhere : x.groupIn repository resource ≠ some group :=
      fun h => other ((congrArg (·.groupIn repository resource) same).symm.trans h)
    rw [groupReferences, references_insert new, if_neg elsewhere, add_zero, groupReferences]

theorem resources_of_none (unnamed : r.resource = none)
    (repository : String) : (rs.usage repository).resources = (s.usage repository).resources := by
  cases around with
  | absent => rfl
  | @present x same new =>
    have resource : x.resourceIn repository = none := by
      refine (congrArg (·.resourceIn repository) same).trans ?_
      show (if _ then r.resource else none) = none
      rw [unnamed, ite_self]
    exact charge_insert_of_none resource

end

end Around

variable {rs : Ledger}

theorem resourceUsage_of_unreferenced {repository resource : String}
    (free : (rs.resourceUsage repository resource).references.sum = 0) :
    rs.resourceUsage repository resource = {} := by
  have elsewhere : ∀ x ∈ rs, x.resourceIn repository ≠ some resource :=
    fun x hx named => references_eq_zero_iff.mp free (mem_held.mpr ⟨x, hx, named⟩)
  refine ResourceUsage.ext ?_ ?_ ?_
  · exact eq_empty (total_eq_zero.mpr free)
  · exact tally_eq_empty _ fun x hx => if_neg fun h => elsewhere x hx h.1
  · exact charge_eq_empty _ _ _ fun x hx => if_neg (elsewhere x hx)

theorem blobReferences_ne_zero {x : QuotaReservationRecord} (hx : x ∈ rs) :
    (rs.blobReferences x.repository x.digest).sum ≠ 0 := by
  rw [blobReferences, sum_tally]
  intro zero
  have one := (Finset.sum_eq_zero_iff.mp zero) x hx
  rw [QuotaReservationRecord.blobIn, if_pos ⟨rfl, rfl⟩] at one
  cases one

theorem blobReferences_eq {repository digest : String} {bytes : Nat}
    (one : ∀ x ∈ rs, x.repository = repository → x.digest = digest → x.bytes = bytes) :
    rs.blobReferences repository digest =
      references settled (·.digestIn repository) rs (digest, bytes) := by
  refine tally_congr _ fun x hx => ?_
  unfold QuotaReservationRecord.blobIn QuotaReservationRecord.digestIn
  by_cases here : x.repository = repository
  · by_cases named : x.digest = digest
    · simp [here, named, one x hx here named]
    · simp [here, named]
  · simp [here]

end Ledger

end Peryx
