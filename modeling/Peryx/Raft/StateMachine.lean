import Peryx.Ownership.State

/-!
# The raft state machine

`OwnershipStateMachine` (raft/state_machine.rs) applies committed entries to the
ownership state. It is rebuilt from a snapshot after a restart (`Inner.load`)
and when a leader ships one (`Inner.install`); both restore the bytes and then
bind the restored audits to the snapshot's own membership.

The bytes are those of a codec the model takes as a parameter: `serde_json`
round-trips the state.
-/

namespace Peryx

/-! ## Log entries -/

structure LogId where
  term : Nat
  nodeId : Nat
  index : Nat
deriving DecidableEq

def LogId.applied (logId : LogId) : AppliedMeta :=
  { term := logId.term, index := logId.index }

structure PeryxNode where
  datacenter : DatacenterId
  endpoint : String
deriving DecidableEq

/-- A raft membership: the voter sets of a (possibly joint) configuration and
every known node. -/
structure Membership where
  configs : List (Finset Nat) := []
  nodes : BTreeMap Nat PeryxNode := ∅
deriving DecidableEq

def Membership.voterIds (membership : Membership) : Finset Nat :=
  membership.configs.foldr (· ∪ ·) ∅

structure StoredMembership where
  logId : Option LogId := none
  membership : Membership := {}
deriving DecidableEq

/-- The datacenters of the voters, which every audit is sealed for. -/
def auditProjectors (stored : StoredMembership) : Finset String :=
  ((stored.membership.nodes.toList.filter fun (id, _) =>
      id ∈ stored.membership.voterIds).map fun (_, node) => node.datacenter).toFinset

inductive EntryPayload where
  | blank
  | normal (command : OwnershipCommand)
  | membership (membership : Membership)
deriving DecidableEq

structure Entry where
  logId : LogId
  payload : EntryPayload
deriving DecidableEq

inductive OwnershipResponse where
  | applied (effect : OwnershipEffect)
  | nonMutating
deriving DecidableEq

/-! ## Snapshots -/

structure SnapshotMeta where
  lastLogId : Option LogId
  lastMembership : StoredMembership
  snapshotId : String
deriving DecidableEq

structure StoredSnapshot (Bytes : Type) where
  snapshotMeta : SnapshotMeta
  data : Bytes
deriving DecidableEq

/-- Orders snapshot candidates: the log position decides, the publication
number breaks a tie. -/
structure SnapshotRank where
  lastLogId : Option LogId
  publication : Nat
deriving DecidableEq

/-- What the durable store holds of snapshots: the last one saved and the
generation saved with it. -/
structure SnapshotStore (Bytes : Type) where
  snapshot : Option (StoredSnapshot Bytes) := none
  generation : Nat := 0
deriving DecidableEq

structure Inner (Bytes : Type) where
  state : OwnershipState := OwnershipState.new
  lastApplied : Option LogId := none
  lastMembership : StoredMembership := {}
  snapshotGeneration : Nat := 0
  publications : Nat := 0
  published : Option SnapshotRank := none
  currentSnapshot : Option (StoredSnapshot Bytes) := none
deriving DecidableEq

namespace Inner

variable {Bytes : Type}

def apply (inner : Inner Bytes) (entry : Entry) : Inner Bytes × OwnershipResponse :=
  -- every kind of entry advances the applied position, blank ones too
  let inner := { inner with lastApplied := some entry.logId }
  match entry.payload with
  | .blank => (inner, .nonMutating)
  | .normal command =>
    let (state, effect) := inner.state.apply command entry.logId.applied
    ({ inner with state }, .applied effect)
  | .membership membership =>
    let lastMembership := { logId := some entry.logId, membership }
    ({ inner with
        lastMembership
        state := inner.state.setAuditProjectors (auditProjectors lastMembership) },
      .nonMutating)

variable (codec : Codec OwnershipState Bytes)

/-- The snapshot a builder takes of the applied state, under `snapshotId`. -/
def takeSnapshot (inner : Inner Bytes)
    (snapshotId : String) : StoredSnapshot Bytes :=
  { snapshotMeta :=
      { lastLogId := inner.lastApplied, lastMembership := inner.lastMembership, snapshotId }
    data := inner.state.snapshot codec }

/-- The state a snapshot stands for, bound to the membership stored with it. -/
def restoreSnapshot
    (snapshot : StoredSnapshot Bytes) : Except OwnershipError OwnershipState :=
  (OwnershipState.restore codec snapshot.data).map fun state =>
    state.setAuditProjectors (auditProjectors snapshot.snapshotMeta.lastMembership)

/-- `Inner::load`: the state machine a process starts with. -/
def load (store : SnapshotStore Bytes) :
    Except OwnershipError (Inner Bytes) :=
  match store.snapshot with
  | none => .ok { snapshotGeneration := store.generation }
  | some stored =>
    (restoreSnapshot codec stored).map fun state =>
      { state
        lastApplied := stored.snapshotMeta.lastLogId
        lastMembership := stored.snapshotMeta.lastMembership
        snapshotGeneration := store.generation
        -- publications are numbered from one, so any candidate of this process
        -- at the same position ranks above what it loaded
        published :=
          some { lastLogId := stored.snapshotMeta.lastLogId, publication := 0 }
        currentSnapshot := some stored }

/-- The last critical section of `install_snapshot`: the restored state, log
position and membership replace the applied ones together. -/
def adopt (inner : Inner Bytes) (state : OwnershipState) (snapshotMeta : SnapshotMeta) :
    Inner Bytes :=
  { inner with
    state
    lastApplied := snapshotMeta.lastLogId
    lastMembership := snapshotMeta.lastMembership }

/-- What `install_snapshot` makes of the applied state. -/
def install (inner : Inner Bytes)
    (snapshot : StoredSnapshot Bytes) : Except OwnershipError (Inner Bytes) :=
  (restoreSnapshot codec snapshot).map (inner.adopt · snapshot.snapshotMeta)

end Inner

/-! ## Runs with restarts -/

/-- What happens to one replica: an entry commits, or the process is replaced
by one that starts from a snapshot of the applied state. -/
inductive ReplicaEvent where
  | entry (entry : Entry)
  | restart
deriving DecidableEq

/-- One event. An entry is answered; a restart is not. A snapshot that does
not load starts no process, so it changes nothing. -/
def Inner.event {Bytes : Type} (codec : Codec OwnershipState Bytes) (inner : Inner Bytes) :
    ReplicaEvent → Inner Bytes × Option OwnershipResponse
  | .entry entry => ((inner.apply entry).1, some (inner.apply entry).2)
  | .restart =>
    match load codec
      { snapshot := some (inner.takeSnapshot codec "restart"),
        generation := inner.snapshotGeneration } with
    | .ok loaded => (loaded, none)
    | .error _ => (inner, none)

def Inner.history {Bytes : Type} (codec : Codec OwnershipState Bytes)
    (events : List ReplicaEvent) : Inner Bytes :=
  Machine.exec (Inner.event codec) {} events

@[simp] theorem Inner.history_concat {Bytes : Type} (codec : Codec OwnershipState Bytes)
    (events : List ReplicaEvent) (event : ReplicaEvent) :
    Inner.history codec (events ++ [event]) = ((Inner.history codec events).event codec event).1 :=
  Machine.exec_append (Inner.event codec) {} events [event]

end Peryx
