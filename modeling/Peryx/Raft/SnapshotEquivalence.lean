import Peryx.Raft.StateMachine
import Peryx.Ownership.Decisions

/-!
# Restoring a snapshot changes nothing

Restoring does more than decode: it refuses a homed authority at epoch zero
and re-binds every pending audit to the snapshot's voter roster. On the states
a log can reach neither does anything.

- `snapshot_equivalence`: restored or not, a machine goes on alike.
-/

namespace Peryx

open OwnershipState Machine Finset

/-! ## Control records under a roster -/

/-- A pending audit is copied into its receipt, is owed by someone in the
roster, and only pending audits are owed. -/
structure ControlRecord.Sealed (roster : Finset String) (record : ControlRecord) :
    Prop where
  copied : ∀ audit, record.audit = some audit →
    ∃ receipt, record.receipt = some receipt ∧ receipt.transferAudit = some audit
  idle : record.audit = none → record.auditProjectors = ∅
  rostered : roster ≠ ∅ → record.auditProjectors ⊆ roster
  owed : roster ≠ ∅ → record.audit.isSome = true → record.auditProjectors ≠ ∅

namespace ControlRecord.Sealed

variable {roster : Finset String} {record : ControlRecord}

theorem of_unsealed (unsealed : record.audit = none) (unowed : record.auditProjectors = ∅) :
    record.Sealed roster where
  copied audit h := by rw [unsealed] at h; cases h
  idle _ := unowed
  rostered _ := by rw [unowed]; exact empty_subset roster
  owed _ h := by rw [unsealed] at h; cases h

section

variable (h : record.Sealed roster)

include h

theorem copyAudit_eq : copyAudit record = record := by
  unfold copyAudit
  split
  case h_2 => rfl
  case h_1 audit receipt sealed settled =>
    obtain ⟨receipt', settled', copied⟩ := h.copied audit sealed
    rw [settled] at settled'
    cases settled'
    simp [copied]

theorem restrict {roster' : Finset String}
    {left : Finset String} (inside : left ⊆ record.auditProjectors)
    (within : roster' ≠ ∅ → left ⊆ roster') :
    ControlRecord.Sealed roster'
      { record with
        auditProjectors := left
        audit := if left = ∅ then none else record.audit } where
  copied audit sealed := by
    split at sealed
    · cases sealed
    · exact h.copied audit sealed
  idle unsealed := by
    split at unsealed
    case isTrue hl => exact hl
    · exact subset_empty.mp (h.idle unsealed ▸ inside)
  rostered := within
  owed _ sealed := by
    split at sealed
    · cases sealed
    case isFalse hl => exact hl

theorem complete (projector : String) :
    (completeRecord record projector).Sealed roster :=
  h.restrict (erase_subset _ _) fun hr => (erase_subset _ _).trans (h.rostered hr)

theorem reproject (projectors : Finset String) :
    (reproject projectors record).Sealed projectors := by
  unfold OwnershipState.reproject
  rw [h.copyAudit_eq]
  dsimp only
  split
  case isTrue none =>
    exact ⟨h.copied, h.idle, fun hp => absurd none hp, fun hp => absurd none hp⟩
  case isFalse some =>
    split
    case isTrue unbound =>
      refine ⟨h.copied, fun unsealed => ?_, fun _ => Finset.Subset.rfl, fun hp _ => hp⟩
      dsimp only at unsealed
      rw [unsealed] at unbound
      cases unbound.1
    · exact h.restrict inter_subset_left fun _ => inter_subset_right

theorem reproject_self :
    OwnershipState.reproject roster record = record := by
  unfold OwnershipState.reproject
  rw [h.copyAudit_eq]
  dsimp only
  split
  · rfl
  case isFalse some =>
    rw [if_neg fun unbound => h.owed some unbound.1 unbound.2, inter_eq_left.mpr (h.rostered some)]
    have audit : (if record.auditProjectors = ∅ then none else record.audit) =
        record.audit := by
      split
      case isFalse => rfl
      case isTrue unowed =>
        cases sealed : record.audit with
        | none => rfl
        | some a => exact absurd unowed (h.owed some (by rw [sealed]; rfl))
    rw [audit]

theorem reproject_answer (projectors : Finset String) :
    (OwnershipState.reproject projectors record).command = record.command ∧
      (OwnershipState.reproject projectors record).claimedAtUnix = record.claimedAtUnix ∧
      (OwnershipState.reproject projectors record).receipt = record.receipt := by
  unfold OwnershipState.reproject
  rw [h.copyAudit_eq]
  dsimp only
  split
  · exact ⟨rfl, rfl, rfl⟩
  · split <;> exact ⟨rfl, rfl, rfl⟩

theorem audit_of_reproject {projectors : Finset String}
    {audit : TransferAudit}
    (pending : (OwnershipState.reproject projectors record).audit = some audit) :
    record.audit = some audit := by
  unfold OwnershipState.reproject at pending
  rw [h.copyAudit_eq] at pending
  dsimp only at pending
  split at pending
  · exact pending
  · split at pending
    · exact pending
    · split at pending
      · cases pending
      · exact pending

end

end ControlRecord.Sealed

theorem OwnershipState.ControlStep.sealed {key : String} {s : OwnershipState}
    {command : OwnershipCommand} {applied : AppliedMeta} {r r' : Option ControlRecord}
    (step : ControlStep key s command applied r r')
    (h : ∀ record, r = some record → record.Sealed s.auditProjectors) :
    ∀ record, r' = some record → record.Sealed s.auditProjectors := by
  intro record' after
  cases step with
  | untouched => exact h record' after
  | pruned => exact h record' (Option.filter_eq_some_iff.mp after).1
  | claimed =>
    cases after
    exact .of_unsealed rfl rfl
  | decided _ bound t p' effect outcome =>
    cases after
    cases sealed : p'.sealTransferAudit bound applied with
    | none => exact .of_unsealed rfl rfl
    | some audit =>
      exact ⟨fun a ha => ⟨_, rfl, ha⟩, nofun, fun _ => Finset.Subset.rfl, fun hr _ => hr⟩
  | settledNew =>
    cases after
    exact .of_unsealed rfl rfl
  | settledBound record bound receipt t asked retained =>
    cases after
    obtain ⟨copied, idle, rostered, owed⟩ := h record rfl
    refine ⟨fun audit sealed => ?_, idle, rostered, owed⟩
    obtain ⟨standing, settled, copy⟩ := copied audit sealed
    exact ⟨standing, by rw [settled]; rfl, copy⟩
  | released => cases after
  | completed record projector =>
    cases after
    exact (h record rfl).complete projector

/-! ## Consistent replicas -/

theorem OwnershipState.AuthorityStep.assigned_epoch {authority : AuthorityKey}
    {command : OwnershipCommand} {r r' : Option AuthorityRecord}
    (step : AuthorityStep authority command r r')
    (h : ∀ record, r = some record → record.epoch ≠ unassigned) :
    ∀ record, r' = some record → record.epoch ≠ unassigned := by
  intro record' after
  cases step with
  | same => exact h record' after
  | assigned record first =>
    cases after
    rw [first]
    exact Nat.one_ne_zero
  | expired record | leased record | finished record =>
    cases after
    exact h record rfl
  | moved record =>
    cases after
    exact Nat.succ_ne_zero _
  | forgotten => cases after

structure Inner.Consistent {Bytes : Type} (inner : Inner Bytes) : Prop where
  epochs : ∀ (authority : AuthorityKey) (record : AuthorityRecord),
    inner.state.authorities[authority]? = some record → record.epoch ≠ unassigned
  roster : inner.state.auditProjectors = auditProjectors inner.lastMembership
  controls : ∀ (key : String) (record : ControlRecord),
    inner.state.controls[key]? = some record → record.Sealed inner.state.auditProjectors

namespace Inner

variable {Bytes : Type} {inner : Inner Bytes}

theorem consistent_empty : Consistent ({} : Inner Bytes) where
  epochs authority record h := by simp [new] at h
  roster := rfl
  controls key record h := by simp [new] at h

/-- **Step.** Every entry keeps a replica consistent. -/
theorem Consistent.apply (h : inner.Consistent) (entry : Entry) :
    (inner.apply entry).1.Consistent := by
  obtain ⟨logId, payload⟩ := entry
  cases payload with
  | blank => exact ⟨h.epochs, h.roster, h.controls⟩
  | normal command =>
    refine ⟨fun authority => ?_, ?_, fun key => ?_⟩
    · exact ((apply_takes inner.state command logId.applied).authority authority).assigned_epoch
        (h.epochs authority)
    · exact (apply_takes ..).auditProjectors.trans h.roster
    · show ∀ record, (inner.state.apply command logId.applied).1.controls[key]? = some record →
        record.Sealed (inner.state.apply command logId.applied).1.auditProjectors
      rw [(apply_takes ..).auditProjectors]
      exact ((apply_takes inner.state command logId.applied).control key).sealed (h.controls key)
  | membership membership =>
    refine ⟨h.epochs, rfl, fun key record' after => ?_⟩
    change (inner.state.controls.map _)[key]? = some record' at after
    rw [BTreeMap.get_map, Option.map_eq_some_iff] at after
    obtain ⟨record, present, rfl⟩ := after
    exact (h.controls key record present).reproject _

theorem Consistent.restore (h : inner.Consistent) (codec : Codec OwnershipState Bytes)
    (snapshotId : String) :
    restoreSnapshot codec (inner.takeSnapshot codec snapshotId) = .ok inner.state := by
  have homed : ∀ p, (∀ row, p row = (row.2.epoch == unassigned)) →
      inner.state.authorities.toList.find? p = none :=
    fun p same => BTreeMap.find_eq_none fun authority record present => by
      simpa [same] using h.epochs authority record present
  have bound : inner.state.setAuditProjectors (auditProjectors inner.lastMembership) =
      inner.state := by
    rw [← h.roster, setAuditProjectors,
      BTreeMap.map_eq_self fun key record present => (h.controls key record present).reproject_self]
  rw [restoreSnapshot, takeSnapshot, OwnershipState.restore, OwnershipState.snapshot]
  rw [codec.decode_encode]
  dsimp only
  rw [homed _ fun _ => rfl]
  exact congrArg Except.ok bound

theorem Consistent.load (h : inner.Consistent) (codec : Codec OwnershipState Bytes)
    (snapshotId : String) (generation : Nat) :
    ∃ loaded, Inner.load codec ⟨some (inner.takeSnapshot codec snapshotId), generation⟩ =
        .ok loaded ∧
      loaded.state = inner.state ∧ loaded.lastApplied = inner.lastApplied ∧
      loaded.lastMembership = inner.lastMembership := by
  unfold Inner.load
  dsimp only
  rw [h.restore codec snapshotId]
  exact ⟨_, rfl, rfl, rfl, rfl⟩

/-- An install of a consistent replica's snapshot carries over everything the
log decides, whatever the installing replica held. -/
theorem Consistent.install (h : inner.Consistent) (codec : Codec OwnershipState Bytes)
    (snapshotId : String) (target : Inner Bytes) :
    ∃ installed, Inner.install codec target (inner.takeSnapshot codec snapshotId) =
        .ok installed ∧
      installed.state = inner.state ∧ installed.lastApplied = inner.lastApplied ∧
      installed.lastMembership = inner.lastMembership := by
  unfold Inner.install
  rw [h.restore codec snapshotId]
  exact ⟨_, rfl, rfl, rfl, rfl⟩

theorem consistent_log (log : List Entry) :
    (exec Inner.apply ({} : Inner Bytes) log).Consistent :=
  exec_invariant_always Inner.apply (fun _ entry h => h.apply entry) {} log consistent_empty

/-! ## What a log decides -/

structure Agree (a b : Inner Bytes) : Prop where
  state : a.state = b.state
  lastApplied : a.lastApplied = b.lastApplied
  lastMembership : a.lastMembership = b.lastMembership

/-- **Step.** Agreeing replicas answer an entry alike and still agree. -/
theorem Agree.apply {a b : Inner Bytes} (h : Agree a b) (entry : Entry) :
    Agree (a.apply entry).1 (b.apply entry).1 ∧ (a.apply entry).2 = (b.apply entry).2 := by
  obtain ⟨logId, payload⟩ := entry
  cases payload with
  | blank => exact ⟨⟨h.state, rfl, h.lastMembership⟩, rfl⟩
  | normal command =>
    refine ⟨⟨?_, rfl, h.lastMembership⟩, ?_⟩
    · exact congrArg (fun s => (OwnershipState.apply s command logId.applied).1) h.state
    · exact congrArg (fun s => OwnershipResponse.applied
        (OwnershipState.apply s command logId.applied).2) h.state
  | membership membership =>
    refine ⟨⟨?_, rfl, rfl⟩, rfl⟩
    exact congrArg (OwnershipState.setAuditProjectors · _) h.state

/-- **Run.** Agreeing replicas answer a whole log alike and still agree. -/
theorem Agree.exec : ∀ (log : List Entry) {a b : Inner Bytes}, Agree a b →
    Agree (exec Inner.apply a log) (exec Inner.apply b log) ∧
      Machine.answers Inner.apply a log = Machine.answers Inner.apply b log
  | [], _, _, h => ⟨h, rfl⟩
  | entry :: log, a, b, h => by
    obtain ⟨agree, answer⟩ := h.apply entry
    obtain ⟨rest, answers⟩ := Agree.exec log agree
    refine ⟨rest, ?_⟩
    exact congrArg₂ List.cons answer answers

end Inner

/-- **Snapshot equivalence.** A log split anywhere: the replica a process loads
from the snapshot taken at the split, and any replica that installs that
snapshot, end up with the state the whole log gives and answer the rest of the
log as the whole log does. -/
theorem snapshot_equivalence {Bytes : Type} (codec : Codec OwnershipState Bytes)
    (front back : List Entry) (snapshotId : String) (generation : Nat)
    (target : Inner Bytes) :
    let whole := Machine.exec Inner.apply ({} : Inner Bytes) (front ++ back)
    let split := Machine.exec Inner.apply ({} : Inner Bytes) front
    let snapshot := split.takeSnapshot codec snapshotId
    (∃ loaded, Inner.load codec ⟨some snapshot, generation⟩ = .ok loaded ∧
      (Machine.exec Inner.apply loaded back).state = whole.state ∧
      Machine.answers Inner.apply ({} : Inner Bytes) (front ++ back) =
        Machine.answers Inner.apply ({} : Inner Bytes) front ++
          Machine.answers Inner.apply loaded back) ∧
    (∃ installed, Inner.install codec target snapshot = .ok installed ∧
      (Machine.exec Inner.apply installed back).state = whole.state ∧
      Machine.answers Inner.apply ({} : Inner Bytes) (front ++ back) =
        Machine.answers Inner.apply ({} : Inner Bytes) front ++
          Machine.answers Inner.apply installed back) := by
  intro whole split snapshot
  have consistent : split.Consistent := Inner.consistent_log front
  have ends : (exec Inner.apply split back).state = whole.state :=
    congrArg Inner.state (exec_append Inner.apply {} front back).symm
  obtain ⟨loaded, load, hs, ha, hm⟩ := consistent.load codec snapshotId generation
  obtain ⟨installed, install, hs', ha', hm'⟩ := consistent.install codec snapshotId target
  rw [answers_append]
  refine ⟨⟨loaded, load, ?_⟩, installed, install, ?_⟩
  · obtain ⟨agree, answers⟩ := Inner.Agree.exec back ⟨hs, ha, hm⟩
    exact ⟨agree.state.trans ends, congrArg _ answers.symm⟩
  · obtain ⟨agree, answers⟩ := Inner.Agree.exec back ⟨hs', ha', hm'⟩
    exact ⟨agree.state.trans ends, congrArg _ answers.symm⟩

end Peryx
