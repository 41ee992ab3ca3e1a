import Peryx.Lib.BTreeMap
import Peryx.Lib.Saturating

/-!
# Ownership commands and their effects

The vocabulary of the replicated ownership state (ownership.rs:16–213) and of
the control plane that drives it (peryx-ha lib.rs:500–600, store.rs:130–143).

Times are `i64` seconds and saturate, so they are `Int64`; epochs, generations,
terms and indices only grow by one per decision, so they are `Nat`.
-/

namespace Peryx

/-- The authority a record is kept under (`AuthorityKey`). -/
abbrev AuthorityKey := String

/-- The datacenter an authority is homed at (`DatacenterId`). -/
abbrev DatacenterId := String

/-- An authority's fencing epoch (`AuthorityEpoch`). -/
abbrev AuthorityEpoch := Nat

/-- The unassigned epoch, which a fence rejects. -/
def unassigned : AuthorityEpoch := 0

/-- Clock skew every lease stays exclusive past its deadline. -/
def authorityClockSkewSecs : Int64 := 5

/-- Longest write lease an authority grants. -/
def authorityWriteLeaseSecs : Int64 := 30

/-- Longest singleton grant. -/
def singletonLeaseSecs : Int64 := 30

/-- How long an idempotency key answers for its command. -/
def controlIdempotencySecs : Int64 := 900

/-! ## The control plane -/

structure TransferIntent where
  source : String
  actor : String
  reason : String
  barrier : Nat
deriving DecidableEq

inductive ControlCommand where
  | addLearner (datacenter address : String)
  | promoteVoter (datacenter : String)
  | removeVoter (datacenter : String)
  | replaceVoter (remove datacenter address : String)
  | transferAuthority (authority newHome : String) (intent : Option TransferIntent)
  | advanceEpoch (authority : String)
  | forgetAuthority (authority : String)
deriving DecidableEq

structure TransferAudit where
  authority : String
  source : String
  target : String
  actor : String
  reason : String
  barrier : Nat
  epoch : Nat
  commitTerm : Nat
  commitIndex : Nat
deriving DecidableEq

structure PendingTransferAudit where
  id : String
  audit : TransferAudit
deriving DecidableEq

inductive CommandOutcome where
  | committed
  | noChange
deriving DecidableEq

structure CommandReceipt where
  term : Nat
  index : Nat
  outcome : CommandOutcome
  oldVoters : List String
  newVoters : List String
  transferAudit : Option TransferAudit
deriving DecidableEq

inductive ControlRejection where
  | notAssigned
  | writesInFlight
deriving DecidableEq

inductive ControlResolution where
  | committed (receipt : CommandReceipt)
  | replayed (receipt : CommandReceipt)
  | claimed
  | rejected (rejection : ControlRejection)
  | keyReuse
deriving DecidableEq

/-! ## The ownership log -/

structure AppliedMeta where
  term : Nat
  index : Nat
deriving DecidableEq

inductive AssignmentCause where
  | firstPublish
deriving DecidableEq

structure Assignment where
  cause : AssignmentCause
  term : Nat
  index : Nat
  epoch : AuthorityEpoch
deriving DecidableEq

inductive OwnershipCommand where
  | assignHome (authority : AuthorityKey) (home : DatacenterId) (cause : AssignmentCause)
  | advanceAuthorityEpoch (authority : AuthorityKey) (nowUnix : Int64)
  | beginEpochWrite (authority : AuthorityKey) (epoch : AuthorityEpoch) (id : String)
      (issuedAtUnix expiresAtUnix : Int64)
  | finishEpochWrite (authority : AuthorityKey) (epoch : AuthorityEpoch) (id : String)
  | recordTransfer (authority : AuthorityKey) (newHome : DatacenterId) (nowUnix : Int64)
  | forgetAuthority (authority : AuthorityKey) (nowUnix : Int64)
  | acquireSingletonLease (job holder : String) (nowUnix expiresAtUnix : Int64)
  | renewSingletonLease (job holder : String) (term generation : Nat)
      (nowUnix expiresAtUnix : Int64)
  | releaseSingletonLease (job holder : String) (term generation : Nat) (nowUnix : Int64)
  | attemptControl (key : String) (command : ControlCommand) (nowUnix : Int64)
  | settleControl (key : String) (command : ControlCommand) (receipt : CommandReceipt)
      (nowUnix : Int64)
  | releaseControl (key : String) (command : ControlCommand) (nowUnix : Int64)
  | completeTransferAudit (key projector : String)
deriving DecidableEq

inductive Rejection where
  | notAssigned
  | sameHome
  | epochMismatch
  | invalidLease
  | writesInFlight
  | singletonLost
deriving DecidableEq

inductive OwnershipEffect where
  | assigned (home : DatacenterId) (epoch : AuthorityEpoch)
  | alreadyAssigned (home : DatacenterId) (epoch : AuthorityEpoch)
  | epochAdvanced (epoch : AuthorityEpoch)
  | writeLeased (epoch : AuthorityEpoch) (id : String) (expiresAtUnix : Int64)
  | writeFinished
  | transferred (source target : DatacenterId) (epoch : AuthorityEpoch)
  | forgotten (epoch : AuthorityEpoch)
  | alreadyForgotten
  | singletonAcquired (holder : String) (term generation : Nat) (expiresAtUnix : Int64)
  | singletonHeld (holder : String)
  | singletonRenewed (expiresAtUnix : Int64)
  | singletonReleased
  | control (resolution : ControlResolution)
  | controlSettled (receipt : CommandReceipt)
  | controlReleased
  | transferAuditCompleted
  | rejected (rejection : Rejection)
deriving DecidableEq

inductive OwnershipError where
  | malformed
  | zeroEpoch (authority : AuthorityKey)
deriving DecidableEq

end Peryx
