import Peryx.Replica.Convergence
import Peryx.Replica.PeerSet

/-!
# A replica's cycles

`replica_runtime.rs` and the checkpoint half of `replica.rs`: a cycle pulls from
the due peers, applies what they sent, and installs a checkpoint from every peer
that is retired or quarantined for having refused the replica's cursor.

The install compares nothing: an older checkpoint replaces what the replica
holds (`recovery_replaces_newer_state`).

- `replica_never_moves_backward`: the cursor, along every run of cycles.
-/

namespace Peryx

open Machine

variable {Bytes : Type}

/-! ## Installing a checkpoint -/

/-- `SCHEMA_VERSION` of the replication envelope. -/
def schemaVersion : Nat := 1

structure CheckpointWindow where
  bytes : List UInt8
  next : String

/-- What a replica is built with. The JSON and SHA-256 behind it and the
jitter's hash are parameters. -/
structure ReplicaConfig (Bytes : Type) where
  json : SerdeJson Bytes
  cursor : Codec ReplicaState Bytes
  canonical : CanonicalBytes Bytes
  pageSize : Nat
  hash : String → Nat → Nat

namespace Replica

variable (config : ReplicaConfig Bytes)

/-- Installs what is staged for `manifest`. -/
def finishInstall (store : MetaStore Bytes) (manifest : CheckpointManifest) :
    MetaStore Bytes × Except SyncError Nat :=
  match MetaStore.installStagedCheckpoint config.canonical store replicaStateKey
      (config.cursor.encode ⟨manifest.identity.source, manifest.serial⟩) with
  | .ok (store, installed) => (store, .ok installed.serial)
  | .error error => (store, .error (.checkpoint error))

/-- Pulls the windows after `offset` and installs once the transfer is whole.
A transport whose answers run out is a connection that dropped. -/
def stageAndInstall (manifest : CheckpointManifest) :
    List (Except TransportError CheckpointWindow) → MetaStore Bytes → Nat → String →
      MetaStore Bytes × Except SyncError Nat
  | windows, store, offset, cursor =>
    if offset < manifest.bytes ∧
        cursor ≠ CheckpointCursor.done.generationToken manifest.generation then
      match windows with
      | [] => (store, .error (.primary .disconnected))
      | .error error :: _ => (store, .error (.primary error))
      | .ok window :: windows =>
        match store.stageCheckpointChunk manifest offset window.bytes window.next with
        | .ok (store, staged) => stageAndInstall manifest windows store staged.received window.next
        | .error refused => (store.discardStagedCheckpoint, .error (.checkpointChunk refused))
    else
      finishInstall config store manifest

/-- Fetches, verifies and installs the checkpoint a peer publishes, and reports
the serial this replica now stands at. -/
def installCheckpoint (store : MetaStore Bytes)
    (answer : Except TransportError CheckpointManifest)
    (windows : List (Except TransportError CheckpointWindow)) :
    MetaStore Bytes × Except SyncError Nat :=
  match answer with
  | .error error => (store, .error (.primary error))
  | .ok manifest =>
    if manifest.identity.source.isEmpty then
      (store, .error .emptySource)
    else
      match storedState config.cursor store with
      | .error error => (store, .error error)
      | .ok state =>
        match state.filter (·.source ≠ manifest.identity.source) with
        | some state => (store, .error (.sourceChanged state.source manifest.identity.source))
        | none =>
          if manifest.identity.protocolVersion ≠ protocolVersion then
            (store, .error (.unsupportedVersion manifest.identity.protocolVersion protocolVersion))
          else if manifest.identity.schemaVersion ≠ schemaVersion then
            (store, .error
              (.unsupportedCheckpointSchema manifest.identity.schemaVersion schemaVersion))
          else
            -- the manifest's serial is compared with nothing
            match store.stagedCheckpoint.filter (·.manifest = manifest) with
            -- an interrupted transfer of the same checkpoint resumes
            | some staged =>
              stageAndInstall config manifest windows store staged.received staged.cursor
            | none =>
              stageAndInstall config manifest windows (store.beginCheckpointTransfer manifest) 0
                (CheckpointCursor.start.generationToken manifest.generation)

end Replica

/-! ## The cycle -/

structure ReplicaLoop (Bytes : Type) where
  metadata : PeerSet Bytes
  store : MetaStore Bytes

/-- The clock of one cycle, and what each member's transport answers in it. -/
structure CycleInput (Bytes : Type) where
  now : Duration
  fetch : Nat → BatchRequest → Except TransportError (ChangePage Bytes)
  manifest : Nat → Except TransportError CheckpointManifest
  windows : Nat → List (Except TransportError CheckpointWindow)

def checkpointRequiredReason : String := "checkpoint_required"

namespace ReplicaLoop

variable (config : ReplicaConfig Bytes)

def start (limits : SetLimits) (policy : ReconnectPolicy) (store : MetaStore Bytes)
    (peers : List String) : ReplicaLoop Bytes where
  metadata := peers.foldl (fun set peer => set.join peer store.currentSerial) { limits, policy }
  store := store

def apply (store : MetaStore Bytes) (page : ChangePage Bytes) :
    MetaStore Bytes × Except SyncError Nat :=
  let (store, answer) :=
    Replica.tryApplyPage config.json config.cursor config.pageSize store page
  (store, answer.map (·.outcome.serial))

def pull (loop : ReplicaLoop Bytes) (input : CycleInput Bytes) :
    ReplicaLoop Bytes × Except SyncError PullRound :=
  match Replica.state config.cursor loop.store with
  | .error error => (loop, .error error)
  | .ok state =>
    let (metadata, store, round) := pullRound (apply config) config.hash loop.metadata input.fetch
      input.now (cursorSerial state) (state.map (·.source)) loop.store
    ({ metadata, store }, round)

def recoverFrom (input : CycleInput Bytes) (loop : ReplicaLoop Bytes) (source : String) :
    ReplicaLoop Bytes × Bool :=
  match loop.metadata.members.findIdx? (·.source = source) with
  | none => (loop, false)
  | some index =>
    match Replica.installCheckpoint config loop.store (input.manifest index)
        (input.windows index) with
    -- only the peer recovered from has its frontier moved
    | (store, .ok serial) =>
      ({ store, metadata := ((loop.metadata.commit source serial).rearm source).1 }, true)
    | (store, .error _) => ({ loop with store }, false)

def belowFloorPeers (retired : List RetiredPeer) : List String :=
  (retired.filter (·.reason = checkpointRequiredReason)).map (·.source)

/-- Installs a checkpoint from any peer that refused this replica's cursor;
reports whether any did. -/
def recoverRetiredBelowFloor (input : CycleInput Bytes) (loop : ReplicaLoop Bytes)
    (sources : List String) : ReplicaLoop Bytes × Bool :=
  (Machine.exec (recoverFrom config input) loop sources,
    (Machine.answers (recoverFrom config input) loop sources).any (·))

/-- One cycle of the metadata plane; the blob plane that follows moves neither
the serial nor the peers. -/
def cycle (loop : ReplicaLoop Bytes) (input : CycleInput Bytes) :
    ReplicaLoop Bytes × Except TransportError Bool :=
  match loop.pull config input with
  -- validation and commit failures retry at the poll interval
  | (loop, .error _) => (loop, .ok true)
  | (loop, .ok round) =>
    let (loop, recovered) :=
      recoverRetiredBelowFloor config input loop (belowFloorPeers round.retired)
    if round.incompatible.isSome then
      (loop, .ok true)
    else if !round.answered && !recovered then
      (loop, .error .disconnected)
    else
      (loop, .ok round.caughtUp)

def after (limits : SetLimits) (policy : ReconnectPolicy) (store : MetaStore Bytes)
    (peers : List String) (inputs : List (CycleInput Bytes)) : ReplicaLoop Bytes :=
  Machine.exec (cycle config) (start limits policy store peers) inputs

end ReplicaLoop

/-! ## Where a replica stands -/

namespace Replica

variable (config : ReplicaConfig Bytes)

/-- Either the manifest was installed and the store stands at its serial, or
nothing was and it stands where it stood. -/
def Stands (store : MetaStore Bytes) (manifest : CheckpointManifest) :
    MetaStore Bytes × Except SyncError Nat → Prop
  | (store', .ok serial) => serial = manifest.serial ∧ store'.currentSerial = manifest.serial
  | (store', .error _) => store'.currentSerial = store.currentSerial

variable {store : MetaStore Bytes} {manifest : CheckpointManifest}

theorem finishInstall_stands (staged : store.stagedHeader.map (·.manifest) = some manifest) :
    Stands store manifest (finishInstall config store manifest) := by
  unfold finishInstall
  split
  · rename_i store' installed ran
    obtain ⟨header, serial, -⟩ := MetaStore.installStagedCheckpoint_eq_ok ran
    cases header.symm.trans staged
    exact ⟨rfl, serial⟩
  · rfl

theorem stageAndInstall_stands (windows : List (Except TransportError CheckpointWindow))
    (staged : store.stagedHeader.map (·.manifest) = some manifest) (offset : Nat)
    (cursor : String) :
    Stands store manifest (stageAndInstall config manifest windows store offset cursor) := by
  induction windows generalizing store offset cursor with
  | nil =>
    unfold stageAndInstall
    split
    · rfl
    · exact finishInstall_stands config staged
  | cons answer windows ih =>
    unfold stageAndInstall
    split
    · cases answer with
      | error error => rfl
      | ok window =>
        dsimp only
        split
        · rename_i store' chunk ran
          obtain ⟨same, -, header⟩ := MetaStore.stageCheckpointChunk_same ran
          have standing : store'.currentSerial = store.currentSerial :=
            congrArg SerialLog.serial same.journal
          have still : store'.stagedHeader.map (·.manifest) = some manifest := by
            rw [header]
            rfl
          have rest := ih still chunk.received window.next
          unfold Stands at rest ⊢
          split at rest
          · exact rest
          · exact rest.trans standing
        · rfl
    · exact finishInstall_stands config staged

theorem installCheckpoint_stands (store : MetaStore Bytes) (manifest : CheckpointManifest)
    (windows : List (Except TransportError CheckpointWindow)) :
    Stands store manifest (installCheckpoint config store (.ok manifest) windows) := by
  simp only [installCheckpoint]
  -- each of the manifest's checks leaves the store as it is when it refuses
  split
  · rfl
  split
  · rfl
  split
  · rfl
  split
  · rfl
  split
  · rfl
  split
  · rename_i staged resumed
    refine stageAndInstall_stands config windows ?_ _ _
    obtain ⟨present, same⟩ := Option.filter_eq_some_iff.mp resumed
    obtain ⟨header, found, rfl⟩ := Option.map_eq_some_iff.mp present
    rw [found]
    exact congrArg some (of_decide_eq_true same)
  · have begun : (store.beginCheckpointTransfer manifest).stagedHeader.map (·.manifest) =
        some manifest := rfl
    exact stageAndInstall_stands config windows begun _ _

end Replica

namespace ReplicaLoop

variable {config : ReplicaConfig Bytes}

/-- Every peer's recorded frontier is at most the serial the replica stores. -/
def Behind (loop : ReplicaLoop Bytes) : Prop :=
  loop.metadata.Within loop.store.currentSerial

theorem behind_start (limits : SetLimits) (policy : ReconnectPolicy) (store : MetaStore Bytes)
    (peers : List String) : Behind (start limits policy store peers) := by
  have joined : ∀ set : PeerSet Bytes, set.Within store.currentSerial →
      (peers.foldl (fun set peer => set.join peer store.currentSerial) set).Within
        store.currentSerial := by
    induction peers with
    | nil => exact fun _ h => h
    | cons peer peers ih => exact fun set h => ih _ (h.join peer)
  exact joined _ fun member hm => absurd hm List.not_mem_nil

theorem apply_advances : Advances (apply config) MetaStore.currentSerial where
  ok store page store' reached h := by
    unfold apply Replica.tryApplyPage at h
    cases ran : Replica.applyPage config.json config.cursor config.pageSize store page with
    | error error =>
      rw [ran] at h
      cases h
    | ok result =>
      rw [ran] at h
      cases h
      obtain ⟨checked, applied, serial⟩ := Replica.applyPage_eq_ok ran
      refine ⟨serial.symm, ?_⟩
      show store.currentSerial ≤ result.2.outcome.serial
      rw [serial]
      show store.journal.serial ≤ result.1.journal.serial
      rw [applied.journal, SerialLog.serial_pushAll]
      exact Nat.le_add_right _ _
  error store page store' error h := by
    unfold apply Replica.tryApplyPage at h
    cases ran : Replica.applyPage config.json config.cursor config.pageSize store page with
    | error error =>
      rw [ran] at h
      cases h
      rfl
    | ok result =>
      rw [ran] at h
      cases h

variable {loop : ReplicaLoop Bytes} {input : CycleInput Bytes}

theorem pull_behind (config : ReplicaConfig Bytes) (h : loop.Behind) (input : CycleInput Bytes) :
    (loop.pull config input).1.Behind ∧
      loop.store.currentSerial ≤ (loop.pull config input).1.store.currentSerial := by
  unfold pull
  split
  · exact ⟨h, Nat.le_refl _⟩
  · rename_i state resumed
    rw [← Replica.state_eq_ok resumed]
    exact pullRound_within apply_advances config.hash h input.fetch input.now _

/-- The peer's checkpoint is at least as new as the state it would replace. -/
def RecoversForward (input : CycleInput Bytes) (loop : ReplicaLoop Bytes) (source : String) :
    Prop :=
  ∀ index manifest, loop.metadata.members.findIdx? (·.source = source) = some index →
    input.manifest index = .ok manifest → loop.store.currentSerial ≤ manifest.serial

/-- **Step.** One recovery, from a checkpoint that is new enough. -/
theorem recoverFrom_behind (config : ReplicaConfig Bytes) {source : String} (h : loop.Behind)
    (forward : RecoversForward input loop source) :
    (recoverFrom config input loop source).1.Behind ∧
      loop.store.currentSerial ≤ (recoverFrom config input loop source).1.store.currentSerial := by
  unfold recoverFrom
  cases found : loop.metadata.members.findIdx? (·.source = source) with
  | none => exact ⟨h, Nat.le_refl _⟩
  | some index =>
    dsimp only
    cases answer : input.manifest index with
    | error error => exact ⟨h, Nat.le_refl _⟩
    | ok manifest =>
      -- the checkpoint is newer, so every frontier recorded so far still fits
      have newer := forward index manifest found answer
      have stands := Replica.installCheckpoint_stands config loop.store manifest
        (input.windows index)
      generalize Replica.installCheckpoint config loop.store (.ok manifest)
        (input.windows index) = outcome at stands
      obtain ⟨store, serial | error⟩ := outcome
      · have standing : store.currentSerial = loop.store.currentSerial := stands
        refine ⟨?_, standing.ge⟩
        show loop.metadata.Within store.currentSerial
        rw [standing]
        exact h
      · obtain ⟨rfl, standing⟩ := stands
        refine ⟨?_, standing.symm ▸ newer⟩
        show PeerSet.Within store.currentSerial _
        rw [standing]
        exact ((PeerSet.Within.mono h newer).commit (Nat.le_refl _) source).rearm source

/-- Every recovery of the cycle is from a checkpoint at least as new as what
the replica stores when it is made. -/
def Forward (config : ReplicaConfig Bytes) (loop : ReplicaLoop Bytes)
    (input : CycleInput Bytes) : Prop :=
  ∀ pulled round, loop.pull config input = (pulled, .ok round) →
    Machine.Along (recoverFrom config input) (RecoversForward input) pulled
      (belowFloorPeers round.retired)

variable {sources : List String}

theorem forward_of_one
    (below : (loop.pull config input).2.toOption.map (belowFloorPeers ·.retired) = some sources)
    (one : sources.length ≤ 1)
    (newer : ∀ index manifest, input.manifest index = .ok manifest →
      (loop.pull config input).1.store.currentSerial ≤ manifest.serial) :
    Forward config loop input := by
  intro pulled round ran
  rw [ran] at below newer
  rw [show belowFloorPeers round.retired = sources from Option.some.inj below]
  match sources, one with
  | [], _ => trivial
  | [source], _ => exact ⟨fun index manifest _ answer => newer index manifest answer, trivial⟩

/-- **Run.** All the recoveries of a cycle. -/
theorem recover_behind (h : loop.Behind)
    (forward : Along (recoverFrom config input) (RecoversForward input) loop sources) :
    (recoverRetiredBelowFloor config input loop sources).1.Behind ∧
      loop.store.currentSerial ≤
        (recoverRetiredBelowFloor config input loop sources).1.store.currentSerial := by
  induction sources generalizing loop with
  | nil => exact ⟨h, Nat.le_refl _⟩
  | cons source sources ih =>
    obtain ⟨first, rest⟩ := forward
    obtain ⟨behind, further⟩ := recoverFrom_behind config h first
    obtain ⟨last, furthest⟩ := ih behind rest
    exact ⟨last, further.trans furthest⟩

/-- **Step.** A whole cycle: the pull moves forward, and so do its recoveries. -/
theorem cycle_behind (h : loop.Behind) (forward : Forward config loop input) :
    (loop.cycle config input).1.Behind ∧
      (loop.pull config input).1.store.currentSerial ≤
        (loop.cycle config input).1.store.currentSerial := by
  have pulledBehind := (pull_behind config h input).1
  unfold Forward at forward
  unfold cycle
  generalize loop.pull config input = outcome at pulledBehind forward
  obtain ⟨pulled, error | round⟩ := outcome
  · exact ⟨pulledBehind, Nat.le_refl _⟩
  · have recovered := recover_behind pulledBehind (forward pulled round rfl)
    dsimp only
    split
    · exact recovered
    · split <;> exact recovered

end ReplicaLoop

/-! ## No step back -/

open ReplicaLoop

/-- At the start of every cycle no peer's frontier is beyond the replica's
serial, the pull of the cycle does not take the replica back, and neither do
the recoveries that follow it, whatever the peers answer, as long as each
recovery is from a checkpoint at least as new as the replica. -/
theorem replica_never_moves_backward (config : ReplicaConfig Bytes) (limits : SetLimits)
    (policy : ReconnectPolicy) (store : MetaStore Bytes) (peers : List String)
    (before : List (CycleInput Bytes)) (input : CycleInput Bytes)
    (forward : Machine.Along (cycle config) (Forward config) (start limits policy store peers)
      (before ++ [input])) :
    (∀ member ∈ (after config limits policy store peers before).metadata.members,
      member.frontier ≤ (after config limits policy store peers before).store.currentSerial) ∧
    (after config limits policy store peers before).store.currentSerial ≤
      ((after config limits policy store peers before).pull config input).1.store.currentSerial ∧
    ((after config limits policy store peers before).pull config input).1.store.currentSerial ≤
      (after config limits policy store peers (before ++ [input])).store.currentSerial := by
  obtain ⟨earlier, last, -⟩ := (along_append _ _ _ _).mp forward
  have behind : Behind (after config limits policy store peers before) :=
    exec_invariant (I := Behind) (cycle config)
      (fun loop input h ok => (cycle_behind h ok).1) _ before
      (behind_start limits policy store peers) earlier
  refine ⟨behind, (pull_behind config behind input).2, ?_⟩
  unfold after
  rw [exec_append]
  exact (cycle_behind behind last).2

/-- What `HttpPeerTransport::fetch_batch` makes of a page built from a peer's
store. -/
def fetchFrom (encodedLen : Change Bytes → Nat) (source : String) (store : MetaStore Bytes)
    (request : BatchRequest) : Except TransportError (ChangePage Bytes) :=
  match buildChangePage encodedLen store source request.after request.maxOperations none with
  | .encoded page => .ok page
  | .recordTooLarge .. => .error (.recordTooLarge (request.after + 1) maxChangePageBytes)
  | .belowFloor => .error .checkpointRequired
  | .cancelled => .error (.serverError 503 (some 1000000000))

def emptySha256 : List UInt8 :=
  [0xe3, 0xb0, 0xc4, 0x42, 0x98, 0xfc, 0x1c, 0x14, 0x9a, 0xfb, 0xf4, 0xc8, 0x99, 0x6f, 0xb9, 0x24,
    0x27, 0xae, 0x41, 0xe4, 0x64, 0x9b, 0x93, 0x4c, 0xa4, 0x95, 0x99, 0x1b, 0x78, 0x52, 0xb8, 0x55]

namespace PlainBytes

/-- Enough for the checkpoint of a history that wrote no rows: it has no bytes
at all. -/
def config : ReplicaConfig PlainBytes where
  json := json
  cursor := cursor
  canonical :=
    { ofVec := fun bytes => .text (hexEncode bytes)
      fromSlice := fun _ => none
      sha256 := fun _ => emptySha256 }
  pageSize := 256
  hash _ _ := 0

def follower : MetaStore PlainBytes where
  journal := SerialLog.empty.pushAll
    [{ payload := .text "a" }, { payload := .text "b" }, { payload := .text "c" }]

/-- The same history on the primary, which published a checkpoint at `serial`
and retains what follows it. -/
def primary (serial : Nat) : MetaStore PlainBytes :=
  { follower with retainedFloor := some (serial + 1) }

def checkpoint (serial : Nat) : CheckpointManifest where
  generation := 1
  identity := { source := "primary-a", protocolVersion := protocolVersion, schemaVersion }
  serial := serial
  rows := 0
  revocations := 0
  blobs := 0
  bytes := 0
  digest := hexEncode emptySha256

def limits : SetLimits where
  maxConcurrent := 4
  requestSize := 256
  perPeerBudget := 1024
  jitter := 0

def policy : ReconnectPolicy where
  base := 100000000
  multiplier := 2
  maxDelay := 30000000000
  maxAttempts := 10

/-- The primary is unreachable and the follower serves its journal. -/
def outage : CycleInput PlainBytes where
  now := 0
  fetch
    | 0, _ => .error .disconnected
    | _, request => fetchFrom (fun _ => 100) "primary-a" follower request
  manifest _ := .error .checkpointUnavailable
  windows _ := []

/-- A second later the primary is back, with a checkpoint at `serial`. -/
def primaryBack (serial : Nat) : CycleInput PlainBytes where
  now := 1000000000
  fetch
    | 0, request => fetchFrom (fun _ => 100) "primary-a" (primary serial) request
    | _, request => fetchFrom (fun _ => 100) "primary-a" follower request
  manifest
    | 0 => .ok (checkpoint serial)
    | _ => .error .checkpointUnavailable
  windows _ := []

def afterFresh (inputs : List (CycleInput PlainBytes)) : ReplicaLoop PlainBytes :=
  after config limits policy {} ["upstream", "follower"] inputs

end PlainBytes

open PlainBytes in
/-- With the primary's checkpoint as new as the replica, the run only moves
forward. -/
theorem replica_never_moves_backward_primaryBack :
    (afterFresh [outage]).store.currentSerial ≤
      (afterFresh [outage, primaryBack 3]).store.currentSerial := by
  have first : ((afterFresh []).pull config outage).2.toOption.map
      (belowFloorPeers ·.retired) = some [] := by
    decide +kernel
  have second : ((afterFresh [outage]).pull config (primaryBack 3)).2.toOption.map
      (belowFloorPeers ·.retired) = some ["upstream"] := by
    decide +kernel
  have stands : ((afterFresh [outage]).pull config (primaryBack 3)).1.store.currentSerial = 3 := by
    decide +kernel
  have forward : Along (cycle config) (Forward config)
      (start limits policy {} ["upstream", "follower"]) ([outage] ++ [primaryBack 3]) := by
    refine ⟨forward_of_one first (by decide) ?_, forward_of_one second (by decide) ?_, trivial⟩
    · intro index manifest answer
      cases answer
    · intro index manifest answer
      refine stands.le.trans ?_
      cases index with
      | zero => cases answer; exact Nat.le_refl _
      | succ index => cases answer
  have steps := replica_never_moves_backward config limits policy {} ["upstream", "follower"]
    [outage] (primaryBack 3) forward
  exact steps.2.1.trans steps.2.2

open PlainBytes in
/-- The primary's checkpoint is older than what the replica has since applied
from the follower: recovering from it takes the replica from serial 3 back to
1, and leaves the follower's frontier beyond it. -/
theorem recovery_replaces_newer_state :
    (afterFresh [outage]).store.currentSerial = 3 ∧
    (afterFresh [outage, primaryBack 1]).store.currentSerial = 1 ∧
    (afterFresh [outage, primaryBack 1]).metadata.members.map
      (fun member => (member.source, member.frontier)) = [("upstream", 1), ("follower", 3)] := by
  decide +kernel

end Peryx
