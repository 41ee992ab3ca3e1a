import Peryx.Lib.BTreeMap
import Peryx.Lib.Saturating
import Peryx.Lib.SerialLog

/-!
# The metadata store's tables

What `peryx-storage`'s `MetaStore` keeps of replicated state: driver rows, the
serial and the journal, digest revocations with their status index and active
count, the retained floor, checkpoints published and staged, and the reclaim
guards a reference is checked against. Rows and payloads are opaque bytes.
-/

namespace Peryx

/-- The `MetaError` cases the modelled calls raise themselves, and `storage`
for a database that fails. -/
inductive MetaError where
  | storage
  | decode
  | replicaSerialConflict (expected actual : Nat)
  | driverPrecondition (message : String)
  | blobReclaiming (digest : String)
  | staleCheckpointGeneration (requested current : Nat)
  | checkpointGenerationExpired (generation : Nat)
  | checkpointReferences (message : String)
  | checkpointBlobSizesMissing (digests : List String)
deriving DecidableEq

/-! ## Digests -/

/-- 64 lowercase hexadecimal characters. -/
def isSha256Hex (hex : String) : Bool :=
  hex.toList.length == 64 && hex.toList.all fun c => ('0' ≤ c && c ≤ '9') || ('a' ≤ c && c ≤ 'f')

/-- `peryx_identity::ArtifactDigest`. -/
structure ArtifactDigest where
  sha256 : String
  valid : isSha256Hex sha256 = true
deriving DecidableEq

def ArtifactDigest.canonical (digest : ArtifactDigest) : String :=
  "sha256:" ++ digest.sha256

theorem ArtifactDigest.canonical_injective : Function.Injective ArtifactDigest.canonical := by
  intro a b same
  have text := String.append_right_inj "sha256:" |>.mp same
  cases a
  cases b
  cases text
  rfl

/-! ## Journal entries -/

structure DriverBlobReference where
  sha256 : String
  size : Nat
deriving DecidableEq

/-- By digest, then by size, as the source derives it. -/
instance : Ord DriverBlobReference where
  compare := compareLex (compareOn (·.sha256)) (compareOn (·.size))

instance : Std.TransOrd DriverBlobReference :=
  inferInstanceAs (Std.TransCmp (compareLex (compareOn DriverBlobReference.sha256)
    (compareOn DriverBlobReference.size)))

instance : Std.LawfulEqOrd DriverBlobReference where
  eq_of_compare {a b} h := by
    obtain ⟨sha256, size⟩ := compareLex_eq_eq.mp h
    have sha256 : a.sha256 = b.sha256 := Std.LawfulEqCmp.eq_of_compare sha256
    have size : a.size = b.size := Std.LawfulEqCmp.eq_of_compare size
    cases a
    cases b
    cases sha256
    cases size
    rfl

inductive DriverMutation (Bytes : Type) where
  | put (key : String) (value : Bytes)
  | delete (key : String)
deriving DecidableEq

def DriverMutation.key {Bytes : Type} : DriverMutation Bytes → String
  | .put key _ => key
  | .delete key => key

/-- One appended record: an opaque payload and the rows and blobs it describes. -/
structure JournalEntry (Bytes : Type) where
  payload : Bytes
  mutations : List (DriverMutation Bytes) := []
  blobs : List DriverBlobReference := []
deriving DecidableEq

/-! ## Digest revocations -/

inductive DigestRevocationStatus where
  | active
  | lifted
deriving DecidableEq

def DigestRevocationStatus.indexPrefix : DigestRevocationStatus → String
  | .active => "active\x00"
  | .lifted => "lifted\x00"

inductive DigestRevocationState where
  | active
  | lifted (liftedBy : String) (liftedAtUnix : Int64)
deriving DecidableEq

def DigestRevocationState.status : DigestRevocationState → DigestRevocationStatus
  | .active => .active
  | .lifted .. => .lifted

structure DigestRevocation where
  digest : ArtifactDigest
  reason : String
  createdBy : String
  createdAtUnix : Int64
  state : DigestRevocationState
  revision : Nat
deriving DecidableEq

def indexKey (status : DigestRevocationStatus) (digest : String) : String :=
  status.indexPrefix ++ digest

/-- `DIGEST_REVOCATION`, `DIGEST_REVOCATION_BY_STATUS` and the active count. -/
structure RevocationTables where
  records : BTreeMap String DigestRevocation := ∅
  byStatus : Finset String := ∅
  activeCount : Nat := 0

/-- Writes the row, the status index and the active count together. The count
is a `u64` and refuses to leave its range. -/
def RevocationTables.applyDigestRevocation (tables : RevocationTables)
    (record : DigestRevocation) : Except MetaError RevocationTables :=
  let key := record.digest.canonical
  let status := record.state.status
  let previous := tables.records[key]?.map (·.state.status)
  let records := tables.records.insert key record
  if previous = some status then
    .ok { tables with records }
  else
    let dropped := match previous with
      | some previous => tables.byStatus.erase (indexKey previous key)
      | none => tables.byStatus
    let byStatus := insert (indexKey status key) dropped
    match status with
    | .active =>
      if tables.activeCount + 1 < 2 ^ 64 then
        .ok { records, byStatus, activeCount := tables.activeCount + 1 }
      else
        .error (.driverPrecondition "digest revocation active count overflow")
    | .lifted =>
      if tables.activeCount = 0 then
        .error (.driverPrecondition "digest revocation active count underflow")
      else
        .ok { records, byStatus, activeCount := tables.activeCount - 1 }

theorem RevocationTables.records_applyDigestRevocation {tables tables' : RevocationTables}
    {record : DigestRevocation} (h : tables.applyDigestRevocation record = .ok tables') :
    tables'.records = tables.records.insert record.digest.canonical record := by
  unfold applyDigestRevocation at h
  by_cases same : tables.records[record.digest.canonical]?.map (·.state.status) =
      some record.state.status
  · rw [if_pos same] at h
    cases h
    rfl
  · rw [if_neg same] at h
    cases counted : record.state.status with
    | active =>
      simp only [counted] at h
      by_cases room : tables.activeCount + 1 < 2 ^ 64
      · rw [if_pos room] at h
        cases h
        rfl
      · rw [if_neg room] at h
        cases h
    | lifted =>
      simp only [counted] at h
      by_cases none : tables.activeCount = 0
      · rw [if_pos none] at h
        cases h
      · rw [if_neg none] at h
        cases h
        rfl

/-! ## Core changes in the journal -/

/-- A change to peryx's own metadata that a replica replays. -/
inductive ServerMutation where
  | digestRevocation (record : DigestRevocation)
deriving DecidableEq

def serverOpTag : String := "server-op"

/-- What the journal's reader trusts `serde_json` for: a value has members by
name, and a written core change reads back, under its tag. -/
structure SerdeJson (Bytes : Type) where
  Value : Type
  fromSlice : Bytes → Option Value
  hasMember : Value → String → Bool
  fromValue : Value → Option ServerMutation
  toVec : ServerMutation → Bytes
  reads_back : ∀ mutation, ∃ value, fromSlice (toVec mutation) = some value ∧
    hasMember value serverOpTag = true ∧ fromValue value = some mutation

/-- `None` when the payload belongs to an ecosystem driver; an error when it
claims a core operation it does not describe. -/
def ServerMutation.decode {Bytes : Type} (json : SerdeJson Bytes) (payload : Bytes) :
    Except MetaError (Option ServerMutation) :=
  match json.fromSlice payload with
  | none => .ok none
  | some value =>
    if json.hasMember value serverOpTag then
      match json.fromValue value with
      | some mutation => .ok (some mutation)
      | none => .error .decode
    else
      .ok none

theorem ServerMutation.decode_toVec {Bytes : Type} (json : SerdeJson Bytes)
    (mutation : ServerMutation) : decode json (json.toVec mutation) = .ok (some mutation) := by
  obtain ⟨value, read, tagged, back⟩ := json.reads_back mutation
  simp [decode, read, tagged, back]

/-! ## Checkpoints -/

structure CheckpointIdentity where
  source : String
  protocolVersion : Nat
  schemaVersion : Nat
deriving DecidableEq

/-- The published pointer a consumer verifies a transfer against. -/
structure CheckpointManifest where
  generation : Nat := 0
  identity : CheckpointIdentity
  serial : Nat
  rows : Nat
  revocations : Nat
  blobs : Nat
  bytes : Nat
  digest : String
deriving DecidableEq

/-- `CHECKPOINT_ROW`, `CHECKPOINT_REVOCATION`, `CHECKPOINT_BLOB` and the
manifest row of `CHECKPOINT_META`. -/
@[ext]
structure CheckpointTables (Bytes : Type) where
  rows : BTreeMap String Bytes := ∅
  revocations : BTreeMap String DigestRevocation := ∅
  blobs : BTreeMap String Nat := ∅
  manifest : Option CheckpointManifest := none

/-- The lease a transfer of one generation holds on the published checkpoint. -/
structure CheckpointPin where
  generation : Nat
  startedAt : Int64
  expiresAt : Int64
deriving DecidableEq

structure StagedHeader where
  manifest : CheckpointManifest
  cursor : String
deriving DecidableEq

/-! ## The store -/

structure MetaStore (Bytes : Type) where
  driverKv : BTreeMap String Bytes := ∅
  /-- `SERIAL`, `JOURNAL`, `JOURNAL_MUTATIONS` and `JOURNAL_BLOBS`. -/
  journal : SerialLog (JournalEntry Bytes) := .empty
  /-- `JOURNAL_RETENTION`. -/
  retainedFloor : Option Nat := none
  revocations : RevocationTables := {}
  /-- `BLOB_RECLAIM_GUARD`: when the guard on a digest expires. -/
  reclaimGuards : BTreeMap String Int64 := ∅
  referenceRevision : Nat := 0
  published : CheckpointTables Bytes := {}
  /-- `CHECKPOINT_PIN`. -/
  checkpointPin : Option CheckpointPin := none
  /-- `CHECKPOINT_STAGING`: the chunks received so far, by offset. -/
  staging : BTreeMap Nat (List UInt8) := ∅
  /-- `CHECKPOINT_STAGING_META`. -/
  stagedHeader : Option StagedHeader := none
  /-- `CHECKPOINT_BLOB_RECOVERY`. -/
  blobRecovery : Option String := none
  derivedViewFrontier : BTreeMap String Nat := ∅

namespace MetaStore

variable {Bytes : Type}

def currentSerial (store : MetaStore Bytes) : Nat :=
  store.journal.serial

def journalFloor (store : MetaStore Bytes) : Option Nat :=
  store.retainedFloor <|> store.journal.first

end MetaStore

end Peryx
