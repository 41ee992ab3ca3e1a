import Peryx.Ownership.Command
import Peryx.Lib.Codec
import Peryx.Lib.Machine

/-!
# The replicated ownership state

The state machine of ownership.rs:215–862, one function per source function. A
`get_mut` that edits a record in place puts the edited record back, also on the
branches that then reject: expired leases are dropped whether or not the command
succeeds.
-/

namespace Peryx

/-! ## Records -/

structure WriteLeaseRecord where
  epoch : AuthorityEpoch
  expiresAtUnix : Int64
deriving DecidableEq

structure AuthorityRecord where
  home : DatacenterId
  epoch : AuthorityEpoch
  assignment : Assignment
  writes : BTreeMap String WriteLeaseRecord
deriving DecidableEq

structure SingletonHold where
  holder : String
  term : Nat
  expiresAtUnix : Int64
deriving DecidableEq

/-- Kept after a release so a later grant of the same job never repeats a
generation. -/
structure SingletonRecord where
  generation : Nat := 0
  held : Option SingletonHold := none
deriving DecidableEq

/-- One idempotency key's binding; without a receipt it is a claim whose
membership change is still running. -/
structure ControlRecord where
  command : ControlCommand
  claimedAtUnix : Int64
  receipt : Option CommandReceipt
  audit : Option TransferAudit
  auditProjectors : Finset String
deriving DecidableEq

/-- Missing authorities are unassigned; missing singletons are unheld. -/
structure OwnershipState where
  authorities : BTreeMap String AuthorityRecord := ∅
  singletons : BTreeMap String SingletonRecord := ∅
  controls : BTreeMap String ControlRecord := ∅
  auditProjectors : Finset String := ∅
deriving DecidableEq

/-- `OwnershipState::new`: nothing homed, held or bound. -/
def OwnershipState.new : OwnershipState := {}

/-! ## Leases -/

/-- A grant stays exclusive a clock-skew margin past its deadline. -/
def SingletonHold.lapsed (hold : SingletonHold) (nowUnix : Int64) : Bool :=
  nowUnix ≥ hold.expiresAtUnix.saturatingAdd authorityClockSkewSecs

def SingletonHold.ownedBy (hold : SingletonHold) (holder : String) (term : Nat) : Bool :=
  hold.term == term && hold.holder == holder

/-- A grant must end after it starts and may not outlive the policy. -/
def boundedSingletonLease (nowUnix expiresAtUnix : Int64) : Bool :=
  expiresAtUnix > nowUnix && expiresAtUnix.saturatingSub nowUnix ≤ singletonLeaseSecs

/-- Whether a write lease still blocks its authority at `nowUnix`. -/
def WriteLeaseRecord.standing (lease : WriteLeaseRecord) (nowUnix : Int64) : Bool :=
  lease.expiresAtUnix.saturatingAdd authorityClockSkewSecs > nowUnix

/-- `expire_writes`: drops the leases whose deadline and skew have passed. -/
def AuthorityRecord.expireWrites (record : AuthorityRecord) (nowUnix : Int64) :
    AuthorityRecord :=
  { record with writes := record.writes.filter fun _ lease => lease.standing nowUnix }

/-- Whether a control record outlives a prune at `nowUnix`: an unprojected
audit keeps it past the window. -/
def ControlRecord.retained (record : ControlRecord) (nowUnix : Int64) : Bool :=
  record.audit.isSome
    || nowUnix.saturatingSub record.claimedAtUnix < controlIdempotencySecs

/-- The outcome an authority-command effect commits: moving to the current
home and forgetting what was never held are no-ops, not failures. -/
def controlOutcome : OwnershipEffect → Except ControlRejection CommandOutcome
  | .rejected .sameHome => .ok .noChange
  | .alreadyForgotten => .ok .noChange
  | .rejected .notAssigned => .error .notAssigned
  | .rejected .writesInFlight => .error .writesInFlight
  | _ => .ok .committed

namespace OwnershipState

/-! ## Authorities -/

/-- Epoch zero when `authority` is unassigned. -/
def epoch (s : OwnershipState) (authority : AuthorityKey) : AuthorityEpoch :=
  (s.authorities[authority]?.map (·.epoch)).getD unassigned

def home (s : OwnershipState) (authority : AuthorityKey) : Option DatacenterId :=
  s.authorities[authority]?.map (·.home)

variable (s : OwnershipState)

/-- Writes an edited record back under its key. -/
@[simp] def putAuthority (authority : AuthorityKey) (record : AuthorityRecord) : OwnershipState :=
  { s with authorities := s.authorities.insert authority record }

def assignHome (authority : AuthorityKey) (home : DatacenterId)
    (cause : AssignmentCause) (applied : AppliedMeta) : OwnershipState × OwnershipEffect :=
  match s.authorities[authority]? with
  | some record => (s, .alreadyAssigned record.home record.epoch)
  | none =>
    let epoch := 1
    (s.putAuthority authority
      { home, epoch, writes := ∅,
        assignment := { cause, term := applied.term, index := applied.index, epoch } },
      .assigned home epoch)

def advanceEpoch (authority : AuthorityKey) (nowUnix : Int64) :
    OwnershipState × OwnershipEffect :=
  match s.authorities[authority]? with
  | none => (s, .rejected .notAssigned)
  | some record =>
    let record := record.expireWrites nowUnix
    if !record.writes.isEmpty then
      (s.putAuthority authority record, .rejected .writesInFlight)
    else
      let epoch := record.epoch + 1
      (s.putAuthority authority { record with epoch }, .epochAdvanced epoch)

def beginWrite (authority : AuthorityKey) (epoch : AuthorityEpoch)
    (id : String) (issuedAtUnix expiresAtUnix : Int64) :
    OwnershipState × OwnershipEffect :=
  match s.authorities[authority]? with
  | none => (s, .rejected .notAssigned)
  | some record =>
    -- a refused write has still dropped the leases that lapsed before it
    let record := record.expireWrites issuedAtUnix
    if record.epoch ≠ epoch then
      (s.putAuthority authority record, .rejected .epochMismatch)
    else if expiresAtUnix ≤ issuedAtUnix
        ∨ expiresAtUnix.saturatingSub issuedAtUnix > authorityWriteLeaseSecs then
      (s.putAuthority authority record, .rejected .invalidLease)
    else
      (s.putAuthority authority
        { record with writes := record.writes.insert id { epoch, expiresAtUnix } },
        .writeLeased epoch id expiresAtUnix)

def finishWrite (authority : AuthorityKey) (epoch : AuthorityEpoch)
    (id : String) : OwnershipState × OwnershipEffect :=
  match s.authorities[authority]? with
  | none => (s, .rejected .notAssigned)
  | some record =>
    -- an id that is not there is finished all the same
    if record.writes[id]?.any (·.epoch != epoch) then
      (s, .rejected .epochMismatch)
    else
      (s.putAuthority authority { record with writes := record.writes.erase id }, .writeFinished)

/-- The same-home check comes before the expiry, so it drops no lease. -/
def transfer (s : OwnershipState) (authority : AuthorityKey) (newHome : DatacenterId)
    (nowUnix : Int64) : OwnershipState × OwnershipEffect :=
  match s.authorities[authority]? with
  | none => (s, .rejected .notAssigned)
  | some record =>
    if record.home = newHome then (s, .rejected .sameHome)
    else
      let record := record.expireWrites nowUnix
      if !record.writes.isEmpty then
        (s.putAuthority authority record, .rejected .writesInFlight)
      else
        let epoch := record.epoch + 1
        (s.putAuthority authority { record with home := newHome, epoch },
          .transferred record.home newHome epoch)

def forget (authority : AuthorityKey) (nowUnix : Int64) :
    OwnershipState × OwnershipEffect :=
  match s.authorities[authority]? with
  | none => (s, .alreadyForgotten)
  | some record =>
    let record := record.expireWrites nowUnix
    if !record.writes.isEmpty then
      (s.putAuthority authority record, .rejected .writesInFlight)
    else
      ({ s with authorities := s.authorities.erase authority }, .forgotten record.epoch)

/-! ## Singletons -/

@[simp] def putSingleton (job : String) (record : SingletonRecord) :
    OwnershipState :=
  { s with singletons := s.singletons.insert job record }

/-- The record for `job` when the presented identity still owns an unlapsed
grant of it. -/
def ownedSingleton (job holder : String) (term generation : Nat)
    (nowUnix : Int64) : Option SingletonRecord :=
  s.singletons[job]?.filter fun record =>
    record.generation == generation
      && record.held.any fun held => held.ownedBy holder term && !held.lapsed nowUnix

def acquireSingleton (job holder : String)
    (nowUnix expiresAtUnix : Int64) (applied : AppliedMeta) :
    OwnershipState × OwnershipEffect :=
  if !boundedSingletonLease nowUnix expiresAtUnix then (s, .rejected .invalidLease)
  else
    -- `entry(..).or_default()`: a refused acquire still leaves a record behind
    let record := s.singletons[job]?.getD {}
    match record.held.filter fun held => !held.lapsed nowUnix with
    | some held => (s.putSingleton job record, .singletonHeld held.holder)
    | none =>
      let generation := record.generation + 1
      (s.putSingleton job
        { generation, held := some { holder, term := applied.term, expiresAtUnix } },
        .singletonAcquired holder applied.term generation expiresAtUnix)

def renewSingleton (job holder : String) (term generation : Nat)
    (nowUnix expiresAtUnix : Int64) : OwnershipState × OwnershipEffect :=
  if !boundedSingletonLease nowUnix expiresAtUnix then (s, .rejected .invalidLease)
  else
    match s.ownedSingleton job holder term generation nowUnix with
    | none => (s, .rejected .singletonLost)
    | some record =>
      (s.putSingleton job { record with held := some { holder, term, expiresAtUnix } },
        .singletonRenewed expiresAtUnix)

def releaseSingleton (job holder : String) (term generation : Nat)
    (nowUnix : Int64) : OwnershipState × OwnershipEffect :=
  match s.ownedSingleton job holder term generation nowUnix with
  | none => (s, .rejected .singletonLost)
  | some record => (s.putSingleton job { record with held := none }, .singletonReleased)

/-! ## The idempotency window -/

@[simp] def putControl (key : String) (record : ControlRecord) :
    OwnershipState :=
  { s with controls := s.controls.insert key record }

/-- Every replica prunes from the `nowUnix` of the same committed entry. -/
def pruneControls (nowUnix : Int64) : OwnershipState :=
  { s with controls := s.controls.filter fun _ record => record.retained nowUnix }

def bindControl (key : String) (command : ControlCommand)
    (nowUnix : Int64) (receipt : Option CommandReceipt) (audit : Option TransferAudit)
    (auditProjectors : Finset String) : OwnershipState :=
  s.putControl key { command, claimedAtUnix := nowUnix, receipt, audit, auditProjectors }

/-- The ownership mutation `command` performs, or `none` when a consensus
membership change carries it instead. -/
def applyControl (command : ControlCommand) (nowUnix : Int64) :
    Option (OwnershipState × OwnershipEffect) :=
  match command with
  | .transferAuthority authority newHome _ => some (s.transfer authority newHome nowUnix)
  | .advanceEpoch authority => some (s.advanceEpoch authority nowUnix)
  | .forgetAuthority authority => some (s.forget authority nowUnix)
  | .addLearner .. | .promoteVoter .. | .removeVoter .. | .replaceVoter .. => none

/-- Seals the post-mutation epoch and the deciding log position. -/
def sealTransferAudit (command : ControlCommand)
    (applied : AppliedMeta) : Option TransferAudit :=
  match command with
  | .transferAuthority authority newHome (some intent) =>
    some
      { authority, source := intent.source, target := newHome, actor := intent.actor,
        reason := intent.reason, barrier := intent.barrier, epoch := s.epoch authority,
        commitTerm := applied.term, commitIndex := applied.index }
  | _ => none

def decisionReceipt (applied : AppliedMeta) (outcome : CommandOutcome)
    (audit : Option TransferAudit) : CommandReceipt :=
  { term := applied.term, index := applied.index, outcome, oldVoters := [],
    newVoters := [], transferAudit := audit }

/-- Resolves `key` against the window and, for the commands ownership itself
carries, applies the mutation and records its receipt in the same decision. -/
def attemptControl (key : String) (command : ControlCommand)
    (nowUnix : Int64) (applied : AppliedMeta) : OwnershipState × ControlResolution :=
  let s := s.pruneControls nowUnix
  match s.controls[key]? with
  | some record =>
    if record.command ≠ command then (s, .keyReuse)
    else
      match record.receipt with
      | none => (s, .claimed)
      | some receipt => (s, .replayed receipt)
  | none =>
    match s.applyControl command nowUnix with
    -- the leader runs the membership change and settles the claim afterwards
    | none => (s.bindControl key command nowUnix none none ∅, .claimed)
    | some (s, effect) =>
      match controlOutcome effect with
      -- a rejection binds nothing, so the key may be tried again
      | .error rejection => (s, .rejected rejection)
      | .ok outcome =>
        let audit := s.sealTransferAudit command applied
        let auditProjectors := if audit.isSome then s.auditProjectors else ∅
        let receipt := decisionReceipt applied outcome audit
        (s.bindControl key command nowUnix (some receipt) audit auditProjectors, .committed receipt)

/-- Keeps the receipt of the first attempt under `key`. -/
def settleControl (key : String) (command : ControlCommand)
    (receipt : CommandReceipt) (nowUnix : Int64) : OwnershipState × CommandReceipt :=
  let s := s.pruneControls nowUnix
  -- a record found under the key keeps its own command, whatever `command` is
  let record := s.controls[key]?.getD
    { command, claimedAtUnix := nowUnix, receipt := none, audit := none,
      auditProjectors := ∅ }
  let standing := record.receipt.getD receipt
  (s.putControl key { record with receipt := some standing }, standing)

/-- Drops the claim `command` failed to complete. -/
def releaseControl (key : String) (command : ControlCommand)
    (nowUnix : Int64) : OwnershipState :=
  let s := s.pruneControls nowUnix
  if s.controls[key]?.any fun record => record.receipt.isNone && record.command == command
  then { s with controls := s.controls.erase key }
  else s

/-- `projector` has stored the audit kept in this record. -/
def completeRecord (record : ControlRecord) (projector : String) : ControlRecord :=
  let auditProjectors := record.auditProjectors.erase projector
  { record with
    auditProjectors
    audit := if auditProjectors = ∅ then none else record.audit }

def completeTransferAudit (key projector : String) : OwnershipState :=
  match s.controls[key]? with
  | none => s
  | some record => s.putControl key (completeRecord record projector)

/-- Audits sealed by a committed transfer that `projector` has not reported
storing, in key order. -/
def pendingTransferAudits (projector : String) :
    List PendingTransferAudit :=
  s.controls.toList.filterMap fun (key, record) =>
    record.audit.bind fun audit =>
      if projector ∈ record.auditProjectors then some { id := key, audit } else none

/-- Copies an audit into a receipt that lacks it, as older snapshots do. -/
def copyAudit (record : ControlRecord) : ControlRecord :=
  match record.audit, record.receipt with
  | some audit, some receipt =>
    if receipt.transferAudit.isNone then
      { record with receipt := some { receipt with transferAudit := some audit } }
    else record
  | _, _ => record

/-- One record under a new voter roster: a roster-less audit is bound to it,
any other keeps the projectors that are still voters. -/
def reproject (projectors : Finset String) (record : ControlRecord) : ControlRecord :=
  let record := copyAudit record
  -- a membership without voters says nothing about who still owes a report
  if projectors = ∅ then record
  else if record.audit.isSome ∧ record.auditProjectors = ∅ then
    { record with auditProjectors := projectors }
  else
    let auditProjectors := record.auditProjectors ∩ projectors
    { record with
      auditProjectors
      audit := if auditProjectors = ∅ then none else record.audit }

def setAuditProjectors (projectors : Finset String) :
    OwnershipState :=
  { s with
    controls := s.controls.map fun _ record => reproject projectors record
    auditProjectors := projectors }

/-! ## One committed command -/

def apply (command : OwnershipCommand) (applied : AppliedMeta) :
    OwnershipState × OwnershipEffect :=
  match command with
  | .assignHome authority home cause => s.assignHome authority home cause applied
  | .advanceAuthorityEpoch authority nowUnix => s.advanceEpoch authority nowUnix
  | .beginEpochWrite authority epoch id issuedAtUnix expiresAtUnix =>
    s.beginWrite authority epoch id issuedAtUnix expiresAtUnix
  | .finishEpochWrite authority epoch id => s.finishWrite authority epoch id
  | .recordTransfer authority newHome nowUnix => s.transfer authority newHome nowUnix
  | .forgetAuthority authority nowUnix => s.forget authority nowUnix
  | .acquireSingletonLease job holder nowUnix expiresAtUnix =>
    s.acquireSingleton job holder nowUnix expiresAtUnix applied
  | .renewSingletonLease job holder term generation nowUnix expiresAtUnix =>
    s.renewSingleton job holder term generation nowUnix expiresAtUnix
  | .releaseSingletonLease job holder term generation nowUnix =>
    s.releaseSingleton job holder term generation nowUnix
  | .attemptControl key command nowUnix =>
    let (s, resolution) := s.attemptControl key command nowUnix applied
    (s, .control resolution)
  | .settleControl key command receipt nowUnix =>
    let (s, standing) := s.settleControl key command receipt nowUnix
    (s, .controlSettled standing)
  | .releaseControl key command nowUnix =>
    (s.releaseControl key command nowUnix, .controlReleased)
  | .completeTransferAudit key projector =>
    (s.completeTransferAudit key projector, .transferAuditCompleted)

/-! ## Snapshots -/

/-- `OwnershipState::snapshot`: the serialized state. -/
def snapshot {Bytes : Type} (codec : Codec OwnershipState Bytes) (s : OwnershipState) :
    Bytes :=
  codec.encode s

/-- `OwnershipState::restore`: rejects bytes that do not decode, and a decoded
state that homes an authority at the reserved zero epoch. -/
def restore {Bytes : Type} (codec : Codec OwnershipState Bytes) (bytes : Bytes) :
    Except OwnershipError OwnershipState :=
  match codec.decode bytes with
  | none => .error .malformed
  | some state =>
    match state.authorities.toList.find? fun (_, record) => record.epoch == unassigned with
    | some (authority, _) => .error (.zeroEpoch authority)
    | none => .ok state

/-! ## The state as a machine -/

abbrev Decision := OwnershipCommand × AppliedMeta

def step (decision : Decision) : OwnershipState × OwnershipEffect :=
  s.apply decision.1 decision.2

def run (log : List Decision) : OwnershipState :=
  Machine.exec step new log

/-- What `decision` is answered after `log`. -/
def effectAfter (log : List Decision) (decision : Decision) : OwnershipEffect :=
  Machine.answer step (run log) decision

end OwnershipState

end Peryx
