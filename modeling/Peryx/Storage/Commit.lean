import Peryx.Lib.Except
import Peryx.Storage.Tables

/-!
# Committing to the metadata store

`meta/index.rs` and the writers of `meta/revocation.rs`: a body stages rows in
a `DriverTxn`, and the commit adds the journal entries that carry them. A call
that fails returns an error and no store: redb drops its transaction.
-/

namespace Peryx

open BTreeMap Peryx.Except List

variable {Bytes : Type}

/-! ## Transactions over driver rows -/

structure DriverTxn (Bytes : Type) where
  table : BTreeMap String Bytes
  revocations : RevocationTables
  touched : Std.ExtTreeSet String compare := ∅
  blobs : Std.ExtTreeSet DriverBlobReference compare := ∅
  wroteRows : Bool := false

namespace DriverTxn

variable (txn : DriverTxn Bytes)

def get (key : String) : Option Bytes :=
  txn.table[key]?

/-- Returns whether the write inserted a new key. -/
def upsert (key : String) (value : Bytes) : Bool × DriverTxn Bytes :=
  (txn.table[key]?.isNone,
    { txn with
      table := txn.table.insert key value
      touched := txn.touched.insert key
      wroteRows := true })

def put (key : String) (value : Bytes) : DriverTxn Bytes :=
  (txn.upsert key value).2

/-- Returns whether the key was present; a key that was not is not touched. -/
def remove (key : String) : Bool × DriverTxn Bytes :=
  let removed := txn.table[key]?.isSome
  let table := txn.table.erase key
  if removed then
    (removed, { txn with table, touched := txn.touched.insert key, wroteRows := true })
  else
    (removed, { txn with table })

/-- Adds no replicated mutation. -/
def upsertLocal (key : String) (value : Bytes) :
    Bool × DriverTxn Bytes :=
  (txn.table[key]?.isNone, { txn with table := txn.table.insert key value, wroteRows := true })

def putLocal (key : String) (value : Bytes) : DriverTxn Bytes :=
  (txn.upsertLocal key value).2

def removeLocal (key : String) : Bool × DriverTxn Bytes :=
  let removed := txn.table[key]?.isSome
  (removed, { txn with table := txn.table.erase key, wroteRows := txn.wroteRows || removed })

def referenceBlob (sha256 : String) (size : Nat) : DriverTxn Bytes :=
  { txn with blobs := txn.blobs.insert ⟨sha256, size⟩ }

/-- Core state lives in its own tables and reaches a replica through here. -/
def applyServerMutation :
    ServerMutation → Except MetaError (DriverTxn Bytes)
  | .digestRevocation record =>
    (txn.revocations.applyDigestRevocation record).map fun revocations =>
      { txn with revocations }

def mutation (key : String) : DriverMutation Bytes :=
  match txn.get key with
  | none => .delete key
  | some value => .put key value

def mutations : List (DriverMutation Bytes) :=
  txn.touched.toList.map txn.mutation

end DriverTxn

/-- One call a body makes on its transaction. A body also reads, which only
decides the calls it goes on to make. -/
inductive DriverOp (Bytes : Type) where
  | put (key : String) (value : Bytes)
  | upsert (key : String) (value : Bytes)
  | remove (key : String)
  | putLocal (key : String) (value : Bytes)
  | upsertLocal (key : String) (value : Bytes)
  | removeLocal (key : String)
  | referenceBlob (sha256 : String) (size : Nat)
deriving DecidableEq

def DriverOp.localKey : DriverOp Bytes → Option String
  | .putLocal key _ | .upsertLocal key _ | .removeLocal key => some key
  | .put .. | .upsert .. | .remove _ | .referenceBlob .. => none

variable (txn : DriverTxn Bytes)

def DriverTxn.perform : DriverOp Bytes → DriverTxn Bytes
  | .put key value => txn.put key value
  | .upsert key value => (txn.upsert key value).2
  | .remove key => (txn.remove key).2
  | .putLocal key value => txn.putLocal key value
  | .upsertLocal key value => (txn.upsertLocal key value).2
  | .removeLocal key => (txn.removeLocal key).2
  | .referenceBlob sha256 size => txn.referenceBlob sha256 size

def DriverTxn.performAll (ops : List (DriverOp Bytes)) :
    DriverTxn Bytes :=
  ops.foldl perform txn

/-! ## Commits -/

/-- What a body asks to be journaled: payloads alone on a writer, whole entries
on a replica. -/
inductive PendingJournal (Bytes : Type) where
  | payloads (payloads : List Bytes)
  | entries (entries : List (JournalEntry Bytes))

def finishJournal : PendingJournal Bytes → List (JournalEntry Bytes)
  | .payloads payloads =>
    (payloads.map fun payload => { payload := payload }).modifyLast fun last =>
      { last with mutations := txn.mutations, blobs := txn.blobs.toList }
  | .entries entries => entries

/-- Rejects a reference while a collector owns the purge or holds the blob's
lease, and drops the lapsed guards it passes. A replica is admitted: the
primary already fenced the write. -/
def checkBlobReclaimGuard (guards : BTreeMap String Int64) (expectedSerial : Option Nat)
    (blobs : List DriverBlobReference) (now : Int64) (collectorActive : Bool) :
    Except MetaError (BTreeMap String Int64) :=
  -- only a replica's commit states the serial it expects
  if expectedSerial.isSome then
    .ok guards
  else
    blobs.foldlM (fun guards blob =>
      match guards[blob.sha256]? with
      | none => .ok guards
      | some expiresAtUnix =>
        if collectorActive || !(expiresAtUnix ≤ now : Bool) then
          .error (.blobReclaiming blob.sha256)
        else
          .ok (guards.erase blob.sha256)) guards

namespace MetaStore

variable (store : MetaStore Bytes)

def checkReplicaSerial : Option Nat → Except MetaError Unit
  | none => .ok ()
  | some expected =>
    if store.currentSerial = expected then .ok ()
    else .error (.replicaSerialConflict expected store.currentSerial)

def beginWrite : DriverTxn Bytes where
  table := store.driverKv
  revocations := store.revocations

def written (txn : DriverTxn Bytes)
    (entries : List (JournalEntry Bytes)) (guards : BTreeMap String Int64) : MetaStore Bytes :=
  { store with
    driverKv := txn.table
    revocations := txn.revocations
    journal := store.journal.pushAll entries
    reclaimGuards := guards
    referenceRevision :=
      if txn.wroteRows then store.referenceRevision + 1 else store.referenceRevision }

/-- Commits rows and serial-ordered journal entries together, and returns the
serial of the last entry. `fromMeta` is the caller's `From<MetaError>`. -/
def commitDriverTxnWithJournal {E : Type} (fromMeta : MetaError → E) (store : MetaStore Bytes)
    (expectedSerial : Option Nat) (now : Int64) (collectorActive : Bool)
    (body : DriverTxn Bytes → Except E (DriverTxn Bytes × PendingJournal Bytes)) :
    Except E (MetaStore Bytes × Option Nat) := do
  (store.checkReplicaSerial expectedSerial).mapError fromMeta
  let (txn, journal) ← body store.beginWrite
  let entries := finishJournal txn journal
  -- the guards are checked last: a body that fails reports its own error
  let guards ← (checkBlobReclaimGuard store.reclaimGuards expectedSerial txn.blobs.toList now
    collectorActive).mapError fromMeta
  let committed := store.written txn entries guards
  return (committed, if entries.isEmpty then none else some committed.currentSerial)

/-- A writer's transaction: the body's calls, and the payloads it journals. -/
def commitDriverTxn (ops : List (DriverOp Bytes))
    (payloads : List Bytes) (now : Int64) (collectorActive : Bool) :
    Except MetaError (MetaStore Bytes × Option Nat) :=
  commitDriverTxnWithJournal id store none now collectorActive fun txn =>
    .ok (txn.performAll ops, .payloads payloads)

def commitReplicaTxn {E : Type} (fromMeta : MetaError → E) (store : MetaStore Bytes)
    (expectedSerial : Nat)
    (body : DriverTxn Bytes → Except E (DriverTxn Bytes × List (JournalEntry Bytes))) :
    Except E (MetaStore Bytes) :=
  (commitDriverTxnWithJournal fromMeta store (some expectedSerial) 0 false fun txn =>
    (body txn).map fun (txn, entries) => (txn, .entries entries)).map (·.1)

/-! ## Revocations and guards -/

/-- `apply_digest_revocation` and `journal_digest_revocation` in one
transaction. -/
def writeDigestRevocation (json : SerdeJson Bytes) (store : MetaStore Bytes)
    (record : DigestRevocation) : Except MetaError (MetaStore Bytes) :=
  (store.revocations.applyDigestRevocation record).map fun revocations =>
    { store with
      revocations
      journal := store.journal.push { payload := json.toVec (.digestRevocation record) } }

end MetaStore

inductive PutRevocationOutcome where
  | created (record : DigestRevocation)
  | unchanged (record : DigestRevocation)
  | reopened (record : DigestRevocation)

inductive PutRevocationError where
  | store (error : MetaError)
  | reasonConflict

inductive LiftRevocationOutcome where
  | lifted (record : DigestRevocation)
  | unchanged (record : DigestRevocation)

inductive ReclaimGuardArm where
  | referencesMoved
  | armed (digests : List String)

namespace MetaStore

def putDigestRevocation (json : SerdeJson Bytes) (store : MetaStore Bytes)
    (digest : ArtifactDigest) (reason actor : String) (now : Int64) :
    Except PutRevocationError (MetaStore Bytes × PutRevocationOutcome) :=
  let opened (revision : Nat) : DigestRevocation :=
    { digest, reason, createdBy := actor, createdAtUnix := now, state := .active, revision }
  match store.revocations.records[digest.canonical]? with
  | some record =>
    if record.state = .active then
      if record.reason = reason then .ok (store, .unchanged record) else .error .reasonConflict
    else
      let reopened := opened (record.revision + 1)
      ((store.writeDigestRevocation json reopened).map (·, .reopened reopened)).mapError .store
  | none =>
    let created := opened 1
    ((store.writeDigestRevocation json created).map (·, .created created)).mapError .store

/-- Retains creation evidence after lifting an active revocation. -/
def liftDigestRevocation (json : SerdeJson Bytes) (store : MetaStore Bytes)
    (digest : ArtifactDigest) (actor : String) (now : Int64) :
    Except MetaError (MetaStore Bytes × Option LiftRevocationOutcome) :=
  match store.revocations.records[digest.canonical]? with
  | none => .ok (store, none)
  | some record =>
    if record.state.status = .lifted then
      .ok (store, some (.unchanged record))
    else
      let lifted := { record with state := .lifted actor now, revision := record.revision + 1 }
      (store.writeDigestRevocation json lifted).map (·, some (.lifted lifted))

/-- Arms the guards of digests nothing guards yet, unless a reference moved
since the caller proved them unreferenced. -/
def compareAndArmReclaimGuards (store : MetaStore Bytes) (digests : List String)
    (revision : Nat) (now expiresAtUnix : Int64) : MetaStore Bytes × ReclaimGuardArm :=
  if store.referenceRevision ≠ revision then
    (store, .referencesMoved)
  else
    let (guards, armed) := digests.foldl (fun (guards, armed) digest =>
      match guards[digest]? with
      | none => (guards.insert digest expiresAtUnix, armed ++ [digest])
      | some held =>
        if held ≤ now then (guards.insert digest expiresAtUnix, armed ++ [digest])
        else (guards, armed)) (store.reclaimGuards, [])
    ({ store with reclaimGuards := guards }, .armed armed)

/-! ## Reading the journal -/

/-- Visits records in order until the visitor breaks (`true`). -/
def visit {σ ρ : Type} (visitor : σ → ρ → σ × Bool) : σ → List ρ → σ
  | state, [] => state
  | state, record :: records =>
    match visitor state record with
    | (state, true) => state
    | (state, false) => visit visitor state records

/-- At most `limit` records after `after`, with the head serial and the
retained floor of the same snapshot. -/
def visitRetainedJournalPage {σ : Type} (store : MetaStore Bytes) (after limit : Nat)
    (visitor : σ → Nat × JournalEntry Bytes → σ × Bool) (state : σ) :
    σ × Nat × Option Nat :=
  (visit visitor state ((store.journal.after after).take limit), store.currentSerial,
    store.journalFloor)

end MetaStore

/-! ## What a body and a commit leave behind -/

namespace DriverTxn

variable (txn : DriverTxn Bytes)

theorem touched_insert {key k : String} {touched : Std.ExtTreeSet String compare}
    (h : k ∉ touched.insert key) : key ≠ k ∧ k ∉ touched := by
  rw [Std.ExtTreeSet.mem_insert, Std.LawfulEqCmp.compare_eq_iff_eq] at h
  exact not_or.mp h

/-- **Step.** An operation leaves alone every row it neither touches nor writes
as local, and touched rows stay touched. -/
theorem perform_frame (op : DriverOp Bytes) {key : String}
    (untouched : key ∉ (txn.perform op).touched) (notLocal : op.localKey ≠ some key) :
    (txn.perform op).table[key]? = txn.table[key]? ∧ key ∉ txn.touched := by
  cases op with
  | put k value | upsert k value =>
    obtain ⟨ne, old⟩ := touched_insert untouched
    exact ⟨get_insert_of_ne _ _ ne, old⟩
  | remove k =>
    simp only [perform, remove] at untouched ⊢
    by_cases present : txn.table[k]?.isSome
    · rw [if_pos present] at untouched ⊢
      obtain ⟨ne, old⟩ := touched_insert untouched
      exact ⟨get_erase_of_ne _ ne, old⟩
    · rw [if_neg present] at untouched ⊢
      refine ⟨?_, untouched⟩
      -- an absent key is erased to no effect
      show (txn.table.erase k)[key]? = txn.table[key]?
      rw [get_erase]
      by_cases same : k = key
      · subst same
        rw [if_pos rfl]
        exact (Option.not_isSome_iff_eq_none.mp present).symm
      · rw [if_neg same]
  | putLocal k value | upsertLocal k value =>
    have ne : k ≠ key := fun h => notLocal (congrArg some h)
    exact ⟨get_insert_of_ne _ _ ne, untouched⟩
  | removeLocal k =>
    have ne : k ≠ key := fun h => notLocal (congrArg some h)
    exact ⟨get_erase_of_ne _ ne, untouched⟩
  | referenceBlob sha256 size => exact ⟨rfl, untouched⟩

/-- **Run.** The same of a whole body. -/
theorem performAll_frame (ops : List (DriverOp Bytes)) {key : String}
    (untouched : key ∉ (txn.performAll ops).touched)
    (notLocal : ∀ op ∈ ops, op.localKey ≠ some key) :
    (txn.performAll ops).table[key]? = txn.table[key]? ∧ key ∉ txn.touched := by
  induction ops generalizing txn with
  | nil => exact ⟨rfl, untouched⟩
  | cons op ops ih =>
    obtain ⟨rest, still⟩ := ih (txn.perform op) untouched fun op' h =>
      notLocal op' (mem_cons_of_mem op h)
    obtain ⟨first, before⟩ := txn.perform_frame op still (notLocal op mem_cons_self)
    exact ⟨rest.trans first, before⟩

theorem revocations_perform (op : DriverOp Bytes) :
    (txn.perform op).revocations = txn.revocations := by
  cases op with
  | remove k =>
    simp only [perform, remove]
    split <;> rfl
  | put | upsert | putLocal | upsertLocal | removeLocal | referenceBlob => rfl

theorem revocations_performAll (ops : List (DriverOp Bytes)) :
    (txn.performAll ops).revocations = txn.revocations := by
  induction ops generalizing txn with
  | nil => rfl
  | cons op ops ih => exact (ih (txn.perform op)).trans (txn.revocations_perform op)

end DriverTxn

theorem finishJournal_payloads (payloads : List Bytes) (last : Bytes) :
    finishJournal txn (.payloads (payloads ++ [last])) =
      payloads.map (fun payload => { payload := payload }) ++
        [{ payload := last, mutations := txn.mutations, blobs := txn.blobs.toList }] := by
  simp only [finishJournal, map_append, map_cons, map_nil, modifyLast_concat]

namespace MetaStore

variable {store store' : MetaStore Bytes} {now : Int64} {json : SerdeJson Bytes}

theorem commitDriverTxn_eq_ok {ops : List (DriverOp Bytes)}
    {payloads : List Bytes} {collectorActive : Bool} {serial : Option Nat}
    (h : store.commitDriverTxn ops payloads now collectorActive = .ok (store', serial)) :
    ∃ guards, store' = store.written (store.beginWrite.performAll ops)
      (finishJournal (store.beginWrite.performAll ops) (.payloads payloads)) guards := by
  obtain ⟨_, -, h⟩ := bind_eq_ok.mp h
  obtain ⟨⟨txn, journal⟩, ran, h⟩ := bind_eq_ok.mp h
  obtain ⟨guards, -, h⟩ := bind_eq_ok.mp h
  cases ran
  cases h
  exact ⟨guards, rfl⟩

theorem commitReplicaTxn_eq_ok {E : Type} {fromMeta : MetaError → E}
    {expectedSerial : Nat}
    {body : DriverTxn Bytes → Except E (DriverTxn Bytes × List (JournalEntry Bytes))}
    (h : store.commitReplicaTxn fromMeta expectedSerial body = .ok store') :
    ∃ txn entries guards, body store.beginWrite = .ok (txn, entries) ∧
      store' = store.written txn entries guards := by
  rw [commitReplicaTxn, map_eq_ok] at h
  obtain ⟨⟨committed, serial⟩, h, rfl⟩ := h
  obtain ⟨_, -, h⟩ := bind_eq_ok.mp h
  obtain ⟨⟨txn, journal⟩, ran, h⟩ := bind_eq_ok.mp h
  obtain ⟨guards, -, h⟩ := bind_eq_ok.mp h
  dsimp only at ran
  rw [map_eq_ok] at ran
  obtain ⟨⟨txn', entries⟩, ran, same⟩ := ran
  cases same
  cases h
  exact ⟨txn', entries, guards, ran, rfl⟩

theorem writeDigestRevocation_eq_ok
    {record : DigestRevocation} (h : store.writeDigestRevocation json record = .ok store') :
    ∃ revocations, store.revocations.applyDigestRevocation record = .ok revocations ∧
      store' = { store with
        revocations
        journal := store.journal.push { payload := json.toVec (.digestRevocation record) } } := by
  obtain ⟨revocations, applied, rfl⟩ := map_eq_ok.mp h
  exact ⟨revocations, applied, rfl⟩

theorem putDigestRevocation_eq_ok {digest : ArtifactDigest} {reason actor : String}
    {outcome : PutRevocationOutcome}
    (h : store.putDigestRevocation json digest reason actor now = .ok (store', outcome)) :
    store' = store ∨ ∃ record, store.writeDigestRevocation json record = .ok store' := by
  unfold putDigestRevocation at h
  split at h
  · split at h
    · split at h
      · cases h
        exact .inl rfl
      · cases h
    · obtain ⟨committed, written, same⟩ := map_eq_ok.mp (mapError_eq_ok.mp h)
      cases same
      exact .inr ⟨_, written⟩
  · obtain ⟨committed, written, same⟩ := map_eq_ok.mp (mapError_eq_ok.mp h)
    cases same
    exact .inr ⟨_, written⟩

theorem liftDigestRevocation_eq_ok {digest : ArtifactDigest} {actor : String}
    {outcome : Option LiftRevocationOutcome}
    (h : store.liftDigestRevocation json digest actor now = .ok (store', outcome)) :
    store' = store ∨ ∃ record, store.writeDigestRevocation json record = .ok store' := by
  unfold liftDigestRevocation at h
  split at h
  · cases h
    exact .inl rfl
  · split at h
    · cases h
      exact .inl rfl
    · obtain ⟨committed, written, same⟩ := map_eq_ok.mp h
      cases same
      exact .inr ⟨_, written⟩

end MetaStore

end Peryx
