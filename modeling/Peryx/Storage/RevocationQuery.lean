import Peryx.Lib.Keys
import Peryx.Lib.Machine
import Peryx.Storage.CheckpointInstall

/-!
# Revocation steps and queries

The rest of `meta/revocation.rs`: the backfill a store runs when it is opened,
and the pages of revocations an operator walks. A page filtered by status reads
the status index and looks each row up.

Every table of the module is opened with the store, so none is ever missing.
-/

namespace Peryx

/-! ## Digests as text -/

/-- `ArtifactDigest::from_str`. -/
def ArtifactDigest.fromStr (value : String) : Option ArtifactDigest :=
  (stripPrefix "sha256:" value).bind fun sha256 =>
    if valid : isSha256Hex sha256 = true then some { sha256, valid } else none

/-! ## Backfill -/

def statusEntries (records : BTreeMap String DigestRevocation) : List String :=
  records.toList.map fun (digest, record) => indexKey record.state.status digest

def activeRows (records : BTreeMap String DigestRevocation) : Nat :=
  (records.toList.filter fun (_, record) => record.state.status = .active).length

/-- Rebuilds the derived count and the status index for legacy or drifted
stores. -/
def RevocationTables.backfillDigestRevocationState (tables : RevocationTables) :
    RevocationTables :=
  let indexed := (statusEntries tables.records).all (· ∈ tables.byStatus)
  { records := tables.records
    byStatus :=
      if !indexed || tables.byStatus.card != tables.records.size then
        (statusEntries tables.records).toFinset
      else tables.byStatus
    activeCount := activeRows tables.records }

/-! ## Pages -/

def maxRevocationQueryLimit : Nat := 100

structure DigestRevocationQuery where
  status : Option DigestRevocationStatus := none
  cursor : Option ArtifactDigest := none
  limit : Nat := 25

structure DigestRevocationPage where
  revocations : List DigestRevocation
  nextCursor : Option String

/-- At most `limit` of the records read, and where to go on if there are more. -/
def DigestRevocationPage.truncate (limit : Nat) (records : List DigestRevocation) :
    DigestRevocationPage where
  revocations := records.take limit
  nextCursor :=
    if records.length > limit then records[limit - 1]?.map (·.digest.canonical) else none

inductive DigestRevocationQueryError where
  | store (error : MetaError)
  | invalidLimit
deriving DecidableEq

namespace RevocationTables

/-- The rows index entries point at, `room` and one more at most, up to the
first entry of another status. -/
def resolve (tables : RevocationTables) (start : String) :
    Nat → List String → Except MetaError (List DigestRevocation)
  | _, [] => .ok []
  | room, key :: keys =>
    match stripPrefix start key with
    | none => .ok []
    | some digest =>
      match tables.records[digest]? with
      | none =>
        .error (.driverPrecondition "digest revocation index references a missing row")
      | some record =>
        match room with
        | 0 => .ok [record]
        | room + 1 => (tables.resolve start room keys).map (record :: ·)

def aboveLower (status : DigestRevocationStatus) (cursor : Option String) (key : String) : Bool :=
  match cursor with
  | none => status.indexPrefix ≤ key
  | some cursor => indexKey status cursor < key

variable (tables : RevocationTables)

/-- Reads at most `limit + 1` index entries, each resolved by a point lookup. -/
def statusPage (status : DigestRevocationStatus)
    (cursor : Option String) (limit : Nat) : Except MetaError (List DigestRevocation) :=
  tables.resolve status.indexPrefix limit
    ((tables.byStatus.sort (· ≤ ·)).filter (aboveLower status cursor))

def digestPage (cursor : Option String) (limit : Nat) :
    List DigestRevocation :=
  ((tables.records.rangeAfter cursor).take (limit + 1)).map (·.2)

/-- Rows in canonical digest order after an exclusive cursor. -/
def queryDigestRevocations (query : DigestRevocationQuery) :
    Except DigestRevocationQueryError DigestRevocationPage :=
  if 1 ≤ query.limit ∧ query.limit ≤ maxRevocationQueryLimit then
    let cursor := query.cursor.map (·.canonical)
    let records : Except DigestRevocationQueryError _ := match query.status with
      | some status => (tables.statusPage status cursor query.limit).mapError .store
      | none => .ok (tables.digestPage cursor query.limit)
    records.map (DigestRevocationPage.truncate query.limit)
  else
    .error .invalidLimit

end RevocationTables

/-! ## Steps -/

/-- `replay` is a journal entry a replica applies, `replace` the install of a
checkpoint, and `backfill` the opening of the store. -/
inductive RevocationCall where
  | put (digest : ArtifactDigest) (reason actor : String) (now : Int64)
  | lift (digest : ArtifactDigest) (actor : String) (now : Int64)
  | replay (record : DigestRevocation)
  | replace (records : BTreeMap String DigestRevocation)
  | backfill

namespace MetaStore

variable {Bytes : Type}

def withRevocations (store : MetaStore Bytes) (revocations : RevocationTables) :
    MetaStore Bytes :=
  { store with revocations }

/-- The store after a step, unless the step fails. A conflict of reasons is not
a failure of the store. -/
def revocationRun (json : SerdeJson Bytes) (store : MetaStore Bytes) :
    RevocationCall → Except MetaError (MetaStore Bytes)
  | .put digest reason actor now =>
    match store.putDigestRevocation json digest reason actor now with
    | .ok (store, _) => .ok store
    | .error (.store error) => .error error
    | .error .reasonConflict => .ok store
  | .lift digest actor now => (store.liftDigestRevocation json digest actor now).map (·.1)
  | .replay record =>
    (store.revocations.applyDigestRevocation record).map store.withRevocations
  | .replace records => .ok (store.withRevocations (replaceDigestRevocations records))
  | .backfill => .ok (store.withRevocations store.revocations.backfillDigestRevocationState)

/-- A step that fails is rolled back. -/
def revocationStep (json : SerdeJson Bytes) (store : MetaStore Bytes) (call : RevocationCall) :
    MetaStore Bytes × Except MetaError Unit :=
  match store.revocationRun json call with
  | .ok store => (store, .ok ())
  | .error error => (store, .error error)

end MetaStore

end Peryx
