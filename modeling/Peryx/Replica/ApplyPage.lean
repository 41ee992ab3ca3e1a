import Peryx.Lib.Codec
import Peryx.Replica.ChangePage
import Peryx.Storage.CheckpointInstall
import Peryx.Storage.Replicated

/-!
# Applying a change page

`replica.rs`: a replica keeps a cursor pinned to one source, validates a page
against it, and commits the page's rows, core changes, journal entries and next
cursor in one transaction.
-/

namespace Peryx

open List Peryx.Except

variable {Bytes : Type} {json : SerdeJson Bytes}

/-- `peryx_ha::TransportError`, as far as the metadata plane raises it. -/
inductive TransportError where
  | disconnected
  | timeout
  | unauthenticated
  | serverError (status : Nat) (retryAfter : Option Nat)
  | badStatus (status : Nat)
  | checkpointRequired
  | checkpointUnavailable
  | malformed
  | frameTooLarge (limit actual : Nat)
  | recordTooLarge (serial limit : Nat)
  | tooManyOperations (limit actual : Nat)
  | sourceChanged (expected actual : String)
  | frontierGap (expected actual : Nat)
  | emptyBatch (frontier after : Nat)
  | atCapacity
deriving DecidableEq

/-- `SyncError`, as far as the metadata plane raises it. -/
inductive SyncError where
  | primary (error : TransportError)
  | store (error : MetaError)
  | state
  | unsupportedVersion (actual expected : Nat)
  | unsupportedCheckpointSchema (actual expected : Nat)
  | emptySource
  | wrongPageStart (expected actual : Nat)
  | serialGap (after actual : Nat)
  | primaryBehind (current page : Nat)
  | missingChanges (after current : Nat)
  | pageTooLarge (limit actual : Nat)
  | sourceChanged (expected actual : String)
  | localSerialMismatch (cursor journal : Nat)
  | invalidDigest (digest : String)
  | checkpoint (error : CheckpointInstallError)
  | checkpointChunk (error : CheckpointStageError)
  | conflictingBlobSize (digest : String) (first second : Nat)
  | reservedMetadataKey (key : String)
deriving DecidableEq

/-! ## The cursor -/

def replicaStateKey : String := "replication\x00state"

def replicaKeyPrefix : String := "replication\x00"

/-- Driver rows under the replication prefix are the replica's own. -/
def isReserved (key : String) : Bool :=
  replicaKeyPrefix.toList.isPrefixOf key.toList

structure ReplicaState where
  source : String
  serial : Nat
deriving DecidableEq

def cursorSerial (state : Option ReplicaState) : Nat :=
  (state.map (·.serial)).getD 0

namespace Replica

def storedState (cursor : Codec ReplicaState Bytes) (store : MetaStore Bytes) :
    Except SyncError (Option ReplicaState) :=
  match store.driverKv[replicaStateKey]? with
  | none => .ok none
  | some raw =>
    match cursor.decode raw with
    | none => .error .state
    | some state => .ok (some state)

/-- Reads the resume cursor and verifies that it matches the local journal. -/
def state (cursor : Codec ReplicaState Bytes) (store : MetaStore Bytes) :
    Except SyncError (Option ReplicaState) :=
  match storedState cursor store with
  | .error error => .error error
  | .ok state =>
    if store.currentSerial = cursorSerial state then
      .ok state
    else
      .error (.localSerialMismatch (cursorSerial state) store.currentSerial)

end Replica

/-! ## Validation -/

/-- `peryx_storage::blob::Digest`. -/
@[ext]
structure Digest where
  hex : String
  valid : isSha256Hex hex = true

instance : DecidableEq Digest := fun a b =>
  decidable_of_iff (a.hex = b.hex) Digest.ext_iff.symm

def Digest.fromHex (hex : String) : Option Digest :=
  if valid : isSha256Hex hex = true then some ⟨hex, valid⟩ else none

structure ValidatedChange (Bytes : Type) where
  event : Bytes
  server : Option ServerMutation
  metadata : List (MetadataMutation Bytes)
  blobs : List (Digest × Nat)

structure ValidatedPage (Bytes : Type) where
  source : String
  through : Nat
  primarySerial : Nat
  changes : List (ValidatedChange Bytes)
  changedKeys : Std.ExtTreeSet String compare
  referenced : BTreeMap String (Digest × Nat)

namespace ValidatedPage

def checkKeys (changedKeys : Std.ExtTreeSet String compare) :
    List (MetadataMutation Bytes) → Except SyncError (Std.ExtTreeSet String compare)
  | [] => .ok changedKeys
  | mutation :: metadata =>
    if isReserved mutation.key then .error (.reservedMetadataKey mutation.key)
    else checkKeys (changedKeys.insert mutation.key) metadata

/-- Every referenced digest is well formed and keeps one size over the page. -/
def checkBlobs (referenced : BTreeMap String (Digest × Nat)) :
    List BlobReference → Except SyncError (BTreeMap String (Digest × Nat) × List (Digest × Nat))
  | [] => .ok (referenced, [])
  | blob :: blobs =>
    match Digest.fromHex blob.sha256 with
    | none => .error (.invalidDigest blob.sha256)
    | some digest =>
      let rest := (checkBlobs (referenced.insert blob.sha256 (digest, blob.size)) blobs).map
        fun (referenced, checked) => (referenced, (digest, blob.size) :: checked)
      match referenced[blob.sha256]? with
      | none => rest
      | some (_, first) =>
        if first ≠ blob.size then .error (.conflictingBlobSize blob.sha256 first blob.size)
        else rest

def checkChanges (json : SerdeJson Bytes) (page : ValidatedPage Bytes) :
    List (Change Bytes) → Except SyncError (ValidatedPage Bytes)
  | [] => .ok page
  | change :: changes =>
    if change.serial ≠ page.through + 1 then
      .error (.serialGap page.through change.serial)
    else do
      let changedKeys ← checkKeys page.changedKeys change.metadata
      let (referenced, blobs) ← checkBlobs page.referenced change.blobs
      let server ← (ServerMutation.decode json change.event).mapError .store
      let checked := { event := change.event, server, metadata := change.metadata, blobs }
      checkChanges json
        { page with
          through := change.serial
          changes := page.changes ++ [checked]
          changedKeys
          referenced } changes

def new (json : SerdeJson Bytes) (page : ChangePage Bytes) (after limit : Nat)
    (state : Option ReplicaState) : Except SyncError (ValidatedPage Bytes) :=
  if page.version ≠ protocolVersion then
    .error (.unsupportedVersion page.version protocolVersion)
  else if page.source.isEmpty then
    .error .emptySource
  else if page.after ≠ after then
    .error (.wrongPageStart after page.after)
  else if page.changes.length > limit then
    .error (.pageTooLarge limit page.changes.length)
  else
    match state.filter (·.source ≠ page.source) with
    | some state => .error (.sourceChanged state.source page.source)
    | none => do
      let checked ← checkChanges json
        { source := page.source, through := after, primarySerial := page.currentSerial
          changes := [], changedKeys := ∅, referenced := ∅ } page.changes
      if page.currentSerial < checked.through then
        .error (.primaryBehind page.currentSerial checked.through)
      else if checked.changes.isEmpty ∧ page.currentSerial > after then
        .error (.missingChanges after page.currentSerial)
      else
        .ok checked

end ValidatedPage

/-! ## Applying -/

structure SyncOutcome where
  changes : Nat
  serial : Nat
  primarySerial : Nat
deriving DecidableEq

structure AppliedPage where
  outcome : SyncOutcome
  changedKeys : List String
  referenced : List (Digest × Nat)
  revocations : List ArtifactDigest
deriving DecidableEq

def MetadataMutation.toDriver : MetadataMutation Bytes → DriverMutation Bytes
  | .put key value => .put key value
  | .delete key => .delete key

def ValidatedChange.journalEntry (change : ValidatedChange Bytes) : JournalEntry Bytes where
  payload := change.event
  mutations := change.metadata.map (·.toDriver)
  blobs := change.blobs.map fun blob => ⟨blob.1.hex, blob.2⟩

namespace Replica

def replayMutation (txn : DriverTxn Bytes) : MetadataMutation Bytes → DriverTxn Bytes
  | .put key value => txn.put key value
  | .delete key => (txn.remove key).2

def replayChange (txn : DriverTxn Bytes) (change : ValidatedChange Bytes) :
    Except SyncError (DriverTxn Bytes) :=
  let rows := change.metadata.foldl replayMutation txn
  match change.server with
  | none => .ok rows
  | some server => (rows.applyServerMutation server).mapError .store

def replay (cursor : Codec ReplicaState Bytes) (changes : List (ValidatedChange Bytes))
    (next : ReplicaState) (txn : DriverTxn Bytes) :
    Except SyncError (DriverTxn Bytes × List (JournalEntry Bytes)) :=
  (changes.foldlM replayChange txn).map fun txn =>
    (txn.putLocal replicaStateKey (cursor.encode next), changes.map (·.journalEntry))

/-- Uses the same validation and transaction boundary for every transport. -/
def applyPage (json : SerdeJson Bytes) (cursor : Codec ReplicaState Bytes) (pageLimit : Nat)
    (store : MetaStore Bytes) (page : ChangePage Bytes) :
    Except SyncError (MetaStore Bytes × AppliedPage) := do
  let state ← state cursor store
  let after := cursorSerial state
  -- nothing is written before the whole page has been checked
  let validated ← ValidatedPage.new json page after pageLimit state
  let referenced := validated.referenced.toList.map Prod.snd
  if validated.changes.isEmpty then
    return (store,
      { outcome := { changes := 0, serial := after, primarySerial := validated.primarySerial }
        changedKeys := [], referenced, revocations := [] })
  else
    let store ← store.commitReplicaTxn .store after
      (replay cursor validated.changes { source := validated.source, serial := validated.through })
    return (store,
      { outcome :=
          { changes := validated.changes.length
            serial := validated.through
            primarySerial := validated.primarySerial }
        changedKeys := validated.changedKeys.toList
        referenced
        revocations := validated.changes.filterMap fun change =>
          change.server.map fun
            | .digestRevocation record => record.digest })

/-- A call that fails has dropped its transaction, if it opened one. -/
def tryApplyPage (json : SerdeJson Bytes) (cursor : Codec ReplicaState Bytes) (pageLimit : Nat)
    (store : MetaStore Bytes) (page : ChangePage Bytes) :
    MetaStore Bytes × Except SyncError AppliedPage :=
  match applyPage json cursor pageLimit store page with
  | .ok (store, applied) => (store, .ok applied)
  | .error error => (store, .error error)

end Replica

/-! ## What validation establishes -/

/-- A validated change is the page's, with its digests parsed, its payload
decoded, and no reserved key written. -/
structure Checked (json : SerdeJson Bytes) (change : Change Bytes)
    (checked : ValidatedChange Bytes) : Prop where
  event : checked.event = change.event
  metadata : checked.metadata = change.metadata
  server : ServerMutation.decode json change.event = .ok checked.server
  blobs : checked.blobs.map (fun blob => (blob.1.hex, blob.2)) =
    change.blobs.map fun blob => (blob.sha256, blob.size)
  keys : ∀ mutation ∈ change.metadata, isReserved mutation.key = false

theorem Digest.fromHex_eq_some {hex : String} {digest : Digest} (h : fromHex hex = some digest) :
    digest.hex = hex := by
  unfold fromHex at h
  split at h
  · cases h
    rfl
  · cases h

namespace ValidatedPage

theorem checkKeys_eq_ok {metadata : List (MetadataMutation Bytes)}
    {keys keys' : Std.ExtTreeSet String compare} (h : checkKeys keys metadata = .ok keys') :
    ∀ mutation ∈ metadata, isReserved mutation.key = false := by
  induction metadata generalizing keys with
  | nil => exact by simp
  | cons mutation metadata ih =>
    obtain ⟨reserved, h⟩ := guard_eq_ok.mp h
    intro m hm
    rcases mem_cons.mp hm with rfl | later
    · exact Bool.not_eq_true _ ▸ reserved
    · exact ih h m later

theorem checkBlobs_eq_ok {blobs : List BlobReference} {checked : List (Digest × Nat)}
    {referenced referenced' : BTreeMap String (Digest × Nat)}
    (h : checkBlobs referenced blobs = .ok (referenced', checked)) :
    checked.map (fun blob => (blob.1.hex, blob.2)) =
      blobs.map fun blob => (blob.sha256, blob.size) := by
  induction blobs generalizing referenced referenced' checked with
  | nil =>
    cases h
    rfl
  | cons blob blobs ih =>
    unfold checkBlobs at h
    cases parsed : Digest.fromHex blob.sha256 with
    | none => simp [parsed] at h
    | some digest =>
      simp only [parsed] at h
      -- whether or not the digest was seen before, the rest of the list passed
      have rest : ∃ passed, checkBlobs (referenced.insert blob.sha256 (digest, blob.size)) blobs =
          .ok passed ∧ (passed.1, (digest, blob.size) :: passed.2) = (referenced', checked) := by
        split at h
        · exact map_eq_ok.mp h
        · exact map_eq_ok.mp (guard_eq_ok.mp h).2
      obtain ⟨⟨_, passed⟩, ran, same⟩ := rest
      cases same
      rw [map_cons, map_cons, ih ran, Digest.fromHex_eq_some parsed]

theorem checkChanges_eq_ok {changes : List (Change Bytes)}
    {page page' : ValidatedPage Bytes} (h : checkChanges json page changes = .ok page') :
    page'.source = page.source ∧ page'.through = page.through + changes.length ∧
      ∃ checked, page'.changes = page.changes ++ checked ∧
        List.Forall₂ (Checked json) changes checked := by
  induction changes generalizing page with
  | nil =>
    cases h
    exact ⟨rfl, rfl, [], (List.append_nil _).symm, .nil⟩
  | cons change changes ih =>
    obtain ⟨gap, h⟩ := guard_eq_ok.mp h
    obtain ⟨keys, ranKeys, h⟩ := bind_eq_ok.mp h
    obtain ⟨⟨referenced, blobs⟩, ranBlobs, h⟩ := bind_eq_ok.mp h
    obtain ⟨server, decoded, h⟩ := bind_eq_ok.mp h
    obtain ⟨source, through, checked, appended, each⟩ := ih h
    refine ⟨source, ?_, _ :: checked, appended.trans (append_assoc _ _ _), .cons ?_ each⟩
    · rw [through, length_cons]
      show change.serial + changes.length = page.through + (changes.length + 1)
      omega
    · exact
        { event := rfl
          metadata := rfl
          server := mapError_eq_ok.mp decoded
          blobs := checkBlobs_eq_ok ranBlobs
          keys := checkKeys_eq_ok ranKeys }

theorem new_eq_ok {page : ChangePage Bytes} {after limit : Nat}
    {state : Option ReplicaState} {validated : ValidatedPage Bytes}
    (h : new json page after limit state = .ok validated) :
    page.after = after ∧ (∀ known, state = some known → known.source = page.source) ∧
      validated.source = page.source ∧ validated.through = after + page.changes.length ∧
      List.Forall₂ (Checked json) page.changes validated.changes := by
  obtain ⟨-, h⟩ := guard_eq_ok.mp h
  obtain ⟨-, h⟩ := guard_eq_ok.mp h
  obtain ⟨start, h⟩ := guard_eq_ok.mp h
  obtain ⟨-, h⟩ := guard_eq_ok.mp h
  split at h
  · cases h
  · rename_i pinned
    obtain ⟨checked, ran, h⟩ := bind_eq_ok.mp h
    obtain ⟨source, through, changes, appended, each⟩ := checkChanges_eq_ok ran
    obtain ⟨-, h⟩ := guard_eq_ok.mp h
    obtain ⟨-, h⟩ := guard_eq_ok.mp h
    cases h
    refine ⟨not_not.mp start, ?_, source, through, appended ▸ each⟩
    -- a known source other than the page's would have been filtered in
    rintro known rfl
    by_contra other
    simp [Option.filter, other] at pinned

end ValidatedPage

/-! ## What an applied page leaves behind -/

def DriverTxn.replicated (txn : DriverTxn Bytes) : Replicated Bytes where
  rows := txn.table
  revocations := txn.revocations.records

namespace Replica

theorem replayMutation_table (txn : DriverTxn Bytes) (mutation : MetadataMutation Bytes) :
    (replayMutation txn mutation).table = mutation.toDriver.write txn.table ∧
      (replayMutation txn mutation).revocations = txn.revocations := by
  cases mutation with
  | put key value => exact ⟨rfl, rfl⟩
  | delete key =>
    simp only [replayMutation, DriverTxn.remove]
    split <;> exact ⟨rfl, rfl⟩

theorem replayMutations_table (metadata : List (MetadataMutation Bytes)) (txn : DriverTxn Bytes) :
    (metadata.foldl replayMutation txn).table =
        (metadata.map (·.toDriver)).foldl DriverMutation.write txn.table ∧
      (metadata.foldl replayMutation txn).revocations = txn.revocations := by
  induction metadata generalizing txn with
  | nil => exact ⟨rfl, rfl⟩
  | cons mutation metadata ih =>
    obtain ⟨table, revocations⟩ := replayMutation_table txn mutation
    obtain ⟨tables, same⟩ := ih (replayMutation txn mutation)
    exact ⟨by rw [foldl_cons, tables, table]; rfl, same.trans revocations⟩

variable {cursor : Codec ReplicaState Bytes} {store : MetaStore Bytes}

/-- **Step.** Replaying a checked change absorbs its journal entry. -/
theorem replayChange_eq_ok {change : Change Bytes}
    {checked : ValidatedChange Bytes} (valid : Checked json change checked)
    {txn txn' : DriverTxn Bytes} (h : replayChange txn checked = .ok txn') :
    txn'.replicated = txn.replicated.absorb json checked.journalEntry := by
  obtain ⟨tables, same⟩ := replayMutations_table checked.metadata txn
  have decoded : ServerMutation.decode json checked.journalEntry.payload = .ok checked.server := by
    show ServerMutation.decode json checked.event = _
    rw [valid.event, valid.server]
  unfold replayChange at h
  unfold Replicated.absorb DriverTxn.replicated
  rw [decoded]
  cases server : checked.server with
  | none =>
    simp only [server] at h
    cases h
    rw [tables, same]
    rfl
  | some mutation =>
    obtain ⟨record⟩ := mutation
    simp only [server] at h
    obtain ⟨revocations, applied, rfl⟩ := map_eq_ok.mp (mapError_eq_ok.mp h)
    rw [RevocationTables.records_applyDigestRevocation applied, same]
    show Replicated.mk (checked.metadata.foldl replayMutation txn).table _ = _
    rw [tables]
    rfl

variable {checked : List (ValidatedChange Bytes)} {changes : List (Change Bytes)}
  {store' : MetaStore Bytes} {pageLimit : Nat} {page : ChangePage Bytes}

/-- **Run.** Replaying checked changes absorbs their journal entries. -/
theorem replayChanges_eq_ok (valid : List.Forall₂ (Checked json) changes checked)
    {txn txn' : DriverTxn Bytes} (h : checked.foldlM replayChange txn = .ok txn') :
    txn'.replicated = txn.replicated.absorbAll json (checked.map (·.journalEntry)) := by
  induction valid generalizing txn with
  | nil =>
    cases h
    rfl
  | cons first _ ih =>
    obtain ⟨mid, ran, h⟩ := bind_eq_ok.mp h
    rw [ih h, replayChange_eq_ok first ran]
    rfl

theorem commit_eq_ok
    (valid : List.Forall₂ (Checked json) changes checked) {next : ReplicaState} {after : Nat}
    (h : store.commitReplicaTxn SyncError.store after (replay cursor checked next) = .ok store') :
    store'.journal = store.journal.pushAll (checked.map (·.journalEntry)) ∧
      Replicated.AgreeOn (fun key => isReserved key = false) store'.replicated
        (store.replicated.absorbAll json (checked.map (·.journalEntry))) ∧
      store'.driverKv[replicaStateKey]? = some (cursor.encode next) := by
  obtain ⟨txn, entries, guards, ran, rfl⟩ := MetaStore.commitReplicaTxn_eq_ok h
  rw [replay, map_eq_ok] at ran
  obtain ⟨replayed, ran, same⟩ := ran
  cases same
  have absorbed := replayChanges_eq_ok valid ran
  refine ⟨rfl, ⟨fun key free => ?_, ?_⟩, BTreeMap.get_insert_self _ _ _⟩
  · -- the cursor row is reserved, so it is none of these
    have ne : replicaStateKey ≠ key := by
      rintro rfl
      cases free
    show (replayed.table.insert replicaStateKey (cursor.encode next))[key]? = _
    rw [BTreeMap.get_insert_of_ne _ _ ne]
    exact congrArg (fun state => state.rows[key]?) absorbed
  · show replayed.replicated.revocations = _
    rw [absorbed]
    rfl

structure Applied (json : SerdeJson Bytes) (cursor : Codec ReplicaState Bytes)
    (store store' : MetaStore Bytes) (page : ChangePage Bytes)
    (checked : List (ValidatedChange Bytes)) : Prop where
  start : page.after = store.currentSerial
  valid : List.Forall₂ (Checked json) page.changes checked
  journal : store'.journal = store.journal.pushAll (checked.map (·.journalEntry))
  state : Replicated.AgreeOn (fun key => isReserved key = false) store'.replicated
    (store.replicated.absorbAll json (checked.map (·.journalEntry)))
  resumes : Replica.state cursor store' = Replica.state cursor store ∧ store' = store ∨
    Replica.state cursor store' = .ok (some ⟨page.source, store'.currentSerial⟩)

theorem state_eq_ok {known : Option ReplicaState} (h : state cursor store = .ok known) :
    store.currentSerial = cursorSerial known := by
  unfold state at h
  split at h
  · cases h
  · split at h
    · cases h
      assumption
    · cases h

theorem applyPage_eq_ok
    {applied : AppliedPage}
    (h : applyPage json cursor pageLimit store page = .ok (store', applied)) :
    ∃ checked, Applied json cursor store store' page checked ∧
      applied.outcome.serial = store'.currentSerial := by
  obtain ⟨known, resumed, h⟩ := bind_eq_ok.mp h
  obtain ⟨validated, ran, h⟩ := bind_eq_ok.mp h
  have standing := state_eq_ok resumed
  obtain ⟨start, -, source, through, valid⟩ := ValidatedPage.new_eq_ok ran
  have counted := valid.length_eq
  by_cases nothing : validated.changes.isEmpty
  · rw [if_pos nothing] at h
    cases h
    have none := List.isEmpty_iff.mp nothing
    refine ⟨validated.changes, ⟨start.trans standing.symm, valid, ?_, ?_, .inl ⟨rfl, rfl⟩⟩,
      standing.symm⟩
    · rw [none]
      rfl
    · rw [none]
      exact .refl _
  · rw [if_neg nothing] at h
    obtain ⟨committed, wrote, h⟩ := bind_eq_ok.mp h
    cases h
    obtain ⟨journal, state, stored⟩ := commit_eq_ok valid wrote
    have reached : store'.currentSerial = validated.through := by
      show store'.journal.serial = validated.through
      rw [journal, SerialLog.serial_pushAll, length_map, ← counted, through, ← standing]
      rfl
    refine ⟨validated.changes, ⟨start.trans standing.symm, valid, journal, state, .inr ?_⟩,
      reached.symm⟩
    simp [Replica.state, storedState, stored, cursor.decode_encode, cursorSerial, reached, source]

theorem tryApplyPage_error {error : SyncError}
    (h : (tryApplyPage json cursor pageLimit store page).2 = .error error) :
    (tryApplyPage json cursor pageLimit store page).1 = store := by
  unfold tryApplyPage at h ⊢
  split at h
  · cases h
  · rfl

end Replica

end Peryx
