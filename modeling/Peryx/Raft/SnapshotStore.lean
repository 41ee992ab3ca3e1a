import Peryx.Raft.StateMachine

/-!
# Snapshot builds, installs and restarts

`build_snapshot` and `install_snapshot` (raft/state_machine.rs:190–373) each
take a rank under the state lock, commit under the durable lock, and publish
under the state lock, with other calls in between. A `SnapshotNode` is one
replica with the calls it has in flight, and a `SnapshotEvent` is one critical
section, an applied entry, or the replacement of the process.
-/

namespace Peryx

/-! ## Ranks -/

/-- Log ids are ordered by leader term, leader node, and then index. -/
instance : LinearOrder LogId :=
  LinearOrder.lift' (fun id => toLex (id.term, toLex (id.nodeId, id.index))) <| by
    rintro ⟨t, n, i⟩ ⟨t', n', i'⟩ h
    simp only [toLex_inj] at h
    obtain ⟨rfl, rfl, rfl⟩ := h
    rfl

/-- Ranks are ordered by log position, nothing applied being the least, and
then by publication. -/
instance : LinearOrder SnapshotRank :=
  LinearOrder.lift' (β := WithBot LogId ×ₗ Nat)
    (fun rank => toLex (rank.lastLogId, rank.publication)) <| by
    rintro ⟨l, p⟩ ⟨l', p'⟩ h
    simp only [toLex_inj] at h
    obtain ⟨rfl, rfl⟩ := h
    rfl

/-- The index a snapshot at this position is named after; an empty machine's
is named after index zero. -/
def lastIndex (lastLogId : Option LogId) : Nat :=
  lastLogId.elim 0 (·.index)

/-- The identifier of the build numbered `generation` at this position. -/
def snapshotName (lastLogId : Option LogId) (generation : Nat) : String :=
  toString (lastIndex lastLogId) ++ "-" ++ toString generation

/-! ## Critical sections -/

/-- How far a call has come: it has its rank, or it has committed, an install
with the state it restored. -/
inductive CallStage where
  | building
  | installing
  | built
  | restored (state : OwnershipState)
deriving DecidableEq

def CallStage.committed : CallStage → Bool
  | .building | .installing => false
  | .built | .restored _ => true

def CallStage.ofBuild : CallStage → Bool
  | .building | .built => true
  | .installing | .restored _ => false

structure SnapshotCall (Bytes : Type) where
  stage : CallStage
  rank : SnapshotRank
  generation : Nat
  snapshot : StoredSnapshot Bytes
deriving DecidableEq

/-- One replica: the applied state, the highest rank this process wrote, the
durable store, and the calls in flight by publication number. -/
structure SnapshotNode (Bytes : Type) where
  inner : Inner Bytes := {}
  durable : Option SnapshotRank := none
  store : SnapshotStore Bytes := {}
  calls : BTreeMap Nat (SnapshotCall Bytes) := ∅
deriving DecidableEq

def Inner.nextRank {Bytes : Type} (inner : Inner Bytes) (lastLogId : Option LogId) :
    Inner Bytes × SnapshotRank :=
  let publications := inner.publications + 1
  ({ inner with publications }, { lastLogId, publication := publications })

def Inner.publish {Bytes : Type} (inner : Inner Bytes) (rank : SnapshotRank)
    (snapshot : StoredSnapshot Bytes) : Inner Bytes :=
  if inner.published.any (rank ≤ ·) then inner
  else { inner with published := some rank, currentSnapshot := some snapshot }

namespace SnapshotNode

variable {Bytes : Type}

variable (node : SnapshotNode Bytes)

def putCall (call : SnapshotCall Bytes) : SnapshotNode Bytes :=
  { node with calls := node.calls.insert call.rank.publication call }

/-- `snapshot_candidate`: clones one consistent state and names it. -/
def build (codec : Codec OwnershipState Bytes) (node : SnapshotNode Bytes) :
    SnapshotNode Bytes :=
  let generation := node.inner.snapshotGeneration + 1
  let lastApplied := node.inner.lastApplied
  let (inner, rank) := node.inner.nextRank lastApplied
  { node with inner := { inner with snapshotGeneration := generation } }.putCall
    { stage := .building, rank, generation,
      snapshot := node.inner.takeSnapshot codec (snapshotName lastApplied generation) }

/-- The first critical section of `install_snapshot`. -/
def install (node : SnapshotNode Bytes) (snapshot : StoredSnapshot Bytes) :
    SnapshotNode Bytes :=
  let (inner, rank) := node.inner.nextRank snapshot.snapshotMeta.lastLogId
  { node with inner }.putCall
    { stage := .installing, rank, generation := node.inner.snapshotGeneration, snapshot }

/-- `commit_snapshot` of a call whose work leaves it at `stage`: the store is
written, and the durable rank moves, only when no higher rank was written by
this process. -/
def commitCall (call : SnapshotCall Bytes) (stage : CallStage) :
    SnapshotNode Bytes :=
  let committed := node.putCall { call with stage }
  -- a superseded call goes on without having written anything
  if node.durable.any (call.rank ≤ ·) then committed
  else
    { committed with
      durable := some call.rank
      store := { snapshot := some call.snapshot, generation := call.generation } }

def endCall (publication : Nat) : SnapshotNode Bytes :=
  { node with calls := node.calls.erase publication }

/-- The commit of the call numbered `publication`. When the disk fails, or an
install's bytes do not restore, the call ends with an error instead. -/
def commit (codec : Codec OwnershipState Bytes) (node : SnapshotNode Bytes)
    (publication : Nat) (written : Bool) : SnapshotNode Bytes :=
  match node.calls[publication]? with
  | none => node
  | some call =>
    match call.stage with
    | .building =>
      if written then node.commitCall call .built else node.endCall publication
    | .installing =>
      -- the bytes are restored before the disk is touched
      match Inner.restoreSnapshot codec call.snapshot with
      | .ok state =>
        if written then node.commitCall call (.restored state) else node.endCall publication
      | .error _ => node.endCall publication
    | .built | .restored _ => node

/-- The last critical section. A build hands its snapshot to the caller; an
install replaces the applied state first. -/
def publish (node : SnapshotNode Bytes) (publication : Nat) :
    SnapshotNode Bytes × Option SnapshotMeta :=
  match node.calls[publication]? with
  | none => (node, none)
  | some call =>
    match call.stage with
    | .building | .installing => (node, none)
    | .built =>
      ({ node.endCall publication with
          inner := node.inner.publish call.rank call.snapshot },
        some call.snapshot.snapshotMeta)
    | .restored state =>
      ({ node.endCall publication with
          inner := (node.inner.adopt state call.snapshot.snapshotMeta).publish call.rank
            call.snapshot }, none)

def restart (codec : Codec OwnershipState Bytes) (node : SnapshotNode Bytes) :
    SnapshotNode Bytes :=
  match Inner.load codec node.store with
  -- the calls in flight and the durable rank die with the old process
  | .ok inner => { inner, store := node.store }
  | .error _ => node

/-- The rank of the stored snapshot: the one this process wrote it under, or
the one a process gives the snapshot it loads. -/
def storedRank : Option SnapshotRank :=
  node.durable.or (node.store.snapshot.map fun stored => ⟨stored.snapshotMeta.lastLogId, 0⟩)

end SnapshotNode

/-! ## The node as a machine -/

inductive SnapshotEvent (Bytes : Type) where
  | apply (entry : Entry)
  | build
  | install (snapshot : StoredSnapshot Bytes)
  | commit (publication : Nat) (written : Bool)
  | publish (publication : Nat)
  | restart
deriving DecidableEq

def SnapshotNode.step {Bytes : Type} (codec : Codec OwnershipState Bytes)
    (node : SnapshotNode Bytes) :
    SnapshotEvent Bytes → SnapshotNode Bytes × Option SnapshotMeta
  | .apply entry => ({ node with inner := (node.inner.apply entry).1 }, none)
  | .build => (node.build codec, none)
  | .install snapshot => (node.install snapshot, none)
  | .commit publication written => (node.commit codec publication written, none)
  | .publish publication => node.publish publication
  | .restart => (node.restart codec, none)

def SnapshotNode.after {Bytes : Type} (codec : Codec OwnershipState Bytes)
    (events : List (SnapshotEvent Bytes)) : SnapshotNode Bytes :=
  Machine.exec (SnapshotNode.step codec) {} events

def SnapshotNode.handed {Bytes : Type} (codec : Codec OwnershipState Bytes)
    (events : List (SnapshotEvent Bytes)) : List String :=
  (Machine.answers (SnapshotNode.step codec) {} events).filterMap
    fun answer => answer.map (·.snapshotId)

end Peryx
