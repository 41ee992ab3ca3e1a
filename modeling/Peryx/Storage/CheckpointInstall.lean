import Peryx.Storage.Canonical
import Peryx.Storage.Commit

/-!
# Staging and installing a checkpoint

The receiver's half of `meta/checkpoint_transfer.rs`: windows of a checkpoint
are staged by offset under the manifest they belong to, and a whole transfer
that decodes to what its manifest declares replaces the node's replicated
state in one transaction.
-/

namespace Peryx

variable {Bytes : Type}

inductive CheckpointStageError where
  | outOfOrder (offset received : Nat)
  | overrun (received declared : Nat)
deriving DecidableEq

structure StagedCheckpoint where
  manifest : CheckpointManifest
  received : Nat
  cursor : String
deriving DecidableEq

inductive CheckpointCursor where
  | rows (after : Option String)
  | revocations (after : Option String)
  | blobs (after : Option String)
  | done
deriving DecidableEq

namespace CheckpointCursor

def start : CheckpointCursor :=
  .rows none

def token : CheckpointCursor → String
  | .rows after => tagged "r" after
  | .revocations after => tagged "v" after
  | .blobs after => tagged "b" after
  | .done => "done"
where
  tagged (tag : String) : Option String → String
    | none => tag
    | some key => tag ++ ":" ++ hexEncode key.toUTF8.toList

def generationToken (cursor : CheckpointCursor) (generation : Nat) : String :=
  "g" ++ toString generation ++ ":" ++ cursor.token

end CheckpointCursor

/-- `peryx_ha::AVAILABILITY_BLOB_VIEW`. -/
def availabilityBlobView : String := "blob"

/-- Rebuilds the status index and the active count from what arrives. -/
def replaceDigestRevocations (records : BTreeMap String DigestRevocation) : RevocationTables where
  records := records
  byStatus := (records.toList.map fun (digest, record) =>
    indexKey record.state.status digest).toFinset
  activeCount := (records.toList.filter fun (_, record) => record.state.status = .active).length

namespace MetaStore

variable (store : MetaStore Bytes)

def stagedCheckpoint : Option StagedCheckpoint :=
  store.stagedHeader.map fun header =>
    { manifest := header.manifest
      received := (store.staging.toList.map fun (_, bytes) => bytes.length).sum
      cursor := header.cursor }

def beginCheckpointTransfer (manifest : CheckpointManifest) :
    MetaStore Bytes :=
  { store with
    staging := ∅
    stagedHeader :=
      some { manifest, cursor := CheckpointCursor.start.generationToken manifest.generation } }

/-- Appends `bytes` at `offset`. A chunk that does not continue what is staged,
or runs past the length its manifest declares, is refused. -/
def stageCheckpointChunk (manifest : CheckpointManifest)
    (offset : Nat) (bytes : List UInt8) (cursor : String) :
    Except CheckpointStageError (MetaStore Bytes × StagedCheckpoint) :=
  let staged := store.stagedCheckpoint.filter (·.manifest = manifest)
  let received := (staged.map (·.received)).getD 0
  if received ≠ offset then
    .error (.outOfOrder offset received)
  else if received + bytes.length > manifest.bytes then
    .error (.overrun (received + bytes.length) manifest.bytes)
  else
    .ok ({ store with
        staging := store.staging.insert offset bytes
        stagedHeader := some { manifest, cursor } },
      { manifest, received := received + bytes.length, cursor })

def discardStagedCheckpoint : MetaStore Bytes :=
  { store with staging := ∅, stagedHeader := none }

/-- Swaps the decoded state in for whatever this node held. The state lands
twice: as the live rows, and as the checkpoint this node has published. -/
def replaceState (decoded : DecodedCheckpoint Bytes)
    (manifest : CheckpointManifest) (cursorKey : String) (cursorValue : Bytes) :
    MetaStore Bytes :=
  { store with
    driverKv := decoded.rows.insert cursorKey cursorValue
    -- the journal is dropped: this node serves nothing at or below the serial
    journal := .standingAt manifest.serial
    retainedFloor := some (manifest.serial.u64SaturatingAdd 1)
    revocations := replaceDigestRevocations decoded.revocations
    published :=
      { rows := decoded.rows
        revocations := decoded.revocations
        blobs := decoded.blobs.toList.foldl (fun blobs blob => blobs.insert blob.sha256 blob.size) ∅
        manifest := some manifest }
    blobRecovery := some ""
    derivedViewFrontier :=
      store.derivedViewFrontier.insert availabilityBlobView (manifest.serial - 1) }

/-- Reads the staged bytes back into the state they encode, in offset order. -/
def decodeStaged (canonical : CanonicalBytes Bytes) (store : MetaStore Bytes) :
    Except CheckpointInstallError (DecodedCheckpoint Bytes) := do
  let decoder ← store.staging.toList.foldlM
    (fun decoder (_, bytes) => decoder.push canonical bytes) ({} : CanonicalDecoder Bytes)
  decoder.finish canonical

/-- The counts a manifest signs, checked in this order, and then the digest. -/
def verifyDecoded (manifest : CheckpointManifest) (decoded : DecodedCheckpoint Bytes) :
    Except CheckpointVerifyError Unit :=
  if manifest.rows ≠ decoded.rows.size then
    .error (.truncated "rows" manifest.rows decoded.rows.size)
  else if manifest.revocations ≠ decoded.revocations.size then
    .error (.truncated "revocations" manifest.revocations decoded.revocations.size)
  else if manifest.blobs ≠ decoded.blobs.size then
    .error (.truncated "blobs" manifest.blobs decoded.blobs.size)
  else if decoded.digest ≠ manifest.digest then
    .error (.digest manifest.digest decoded.digest)
  else
    .ok ()

/-- Verifies the staged checkpoint and makes it this node's replicated state,
with `cursorKey` naming where the node resumes. -/
def installStagedCheckpoint (canonical : CanonicalBytes Bytes) (store : MetaStore Bytes)
    (cursorKey : String) (cursorValue : Bytes) :
    Except CheckpointInstallError (MetaStore Bytes × CheckpointManifest) :=
  match store.stagedCheckpoint with
  | none => .error .notStaged
  | some staged =>
    -- a short transfer is refused before anything is decoded
    if staged.received ≠ staged.manifest.bytes then
      .error (.incomplete staged.received staged.manifest.bytes)
    else
      match store.decodeStaged canonical with
      | .error error => .error error
      | .ok decoded =>
        match verifyDecoded staged.manifest decoded with
        | .error error => .error (.verify error)
        | .ok () =>
          .ok ((store.replaceState decoded staged.manifest cursorKey cursorValue
              ).discardStagedCheckpoint, staged.manifest)

/-! ## What an install leaves behind -/

structure SameState (store store' : MetaStore Bytes) : Prop where
  driverKv : store'.driverKv = store.driverKv
  journal : store'.journal = store.journal
  revocations : store'.revocations = store.revocations

theorem stageCheckpointChunk_same {store store' : MetaStore Bytes} {manifest : CheckpointManifest}
    {offset : Nat} {bytes : List UInt8} {cursor : String} {staged : StagedCheckpoint}
    (h : store.stageCheckpointChunk manifest offset bytes cursor = .ok (store', staged)) :
    SameState store store' ∧ staged.manifest = manifest ∧
      store'.stagedHeader = some ⟨manifest, cursor⟩ := by
  obtain ⟨-, h⟩ := Except.guard_eq_ok.mp h
  obtain ⟨-, h⟩ := Except.guard_eq_ok.mp h
  cases h
  exact ⟨⟨rfl, rfl, rfl⟩, rfl, rfl⟩

theorem installStagedCheckpoint_eq_ok {canonical : CanonicalBytes Bytes}
    {store store' : MetaStore Bytes} {cursorKey : String} {cursorValue : Bytes}
    {manifest : CheckpointManifest}
    (h : installStagedCheckpoint canonical store cursorKey cursorValue = .ok (store', manifest)) :
    store.stagedHeader.map (·.manifest) = some manifest ∧
      store'.currentSerial = manifest.serial ∧
      store'.driverKv[cursorKey]? = some cursorValue := by
  unfold installStagedCheckpoint at h
  cases header : store.stagedHeader with
  | none => simp [stagedCheckpoint, header] at h
  | some header' =>
    simp only [stagedCheckpoint, header, Option.map_some] at h
    obtain ⟨-, h⟩ := Except.guard_eq_ok.mp h
    split at h
    · cases h
    · split at h
      · cases h
      · cases h
        refine ⟨rfl, rfl, ?_⟩
        exact BTreeMap.get_insert_self _ _ _

end MetaStore

end Peryx
