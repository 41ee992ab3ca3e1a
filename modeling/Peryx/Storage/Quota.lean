import Peryx.Lib.Except
import Peryx.Lib.Machine
import Peryx.Lib.Tally
import Peryx.Storage.Tables

/-!
# Repository quotas

`meta/quota.rs`: a reservation is checked against its repository's limits and
reserved, then committed with the object it pays for or released; an index finds
a committed reservation by the object's identity, and an abandoned one is
released by a repair.

Counters are unsigned and subtracted from without a check. A subtraction below
zero stops the model with `QuotaStop.underflow`, which no error of the source
is.
-/

namespace Peryx

/-! ## Records and rows -/

inductive AccountingClass where
  | hosted
deriving DecidableEq

abbrev QuotaValue := Tally

abbrev References := Tally

/-- `QuotaValue::total` and `References::total`. -/
def Tally.total (t : Tally) : Nat :=
  t.committed.u64SaturatingAdd t.reserved

/-- Artifact bytes count logical allocations; accounted bytes charge each
digest once per repository. -/
@[ext] structure QuotaUsage where
  artifactBytes : QuotaValue := {}
  accountedBytes : QuotaValue := {}
  resources : QuotaValue := {}
deriving DecidableEq

structure QuotaResourceUsage where
  artifactBytes : QuotaValue := {}
  groups : QuotaValue := {}
deriving DecidableEq

structure QuotaLimits where
  maxArtifactBytes : Option Nat := none
  maxAccountedBytes : Option Nat := none
  maxResources : Option Nat := none
  maxGroupsPerResource : Option Nat := none
  audit : Bool := false
deriving DecidableEq

inductive QuotaLimit where
  | artifactBytes
  | accountedBytes
  | resources
  | groupsPerResource
deriving DecidableEq

structure NewQuotaReservation where
  repository : String
  resource : Option String
  group : Option String
  digest : String
  bytes : Nat
  accountingClass : AccountingClass := .hosted
  createdAtUnix : Int64
deriving DecidableEq

inductive QuotaReservationState where
  | reserved
  | committed
deriving DecidableEq

abbrev Uuid := BitVec 128

instance : Std.TransOrd Uuid := inferInstance

/-- Committed records remain until deletion releases their counters. -/
structure QuotaReservationRecord where
  id : Uuid
  repository : String
  resource : Option String
  group : Option String
  digest : String
  bytes : Nat
  accountingClass : AccountingClass := .hosted
  state : QuotaReservationState
  createdAtUnix : Int64
  violations : List QuotaLimit
  resourceArtifactBytes : Bool
deriving DecidableEq

/-- Lets driver-object deletion locate and release its committed counters. -/
structure QuotaAllocation where
  repository : String
  resource : Option String
  group : Option String
  digest : String
deriving DecidableEq

structure QuotaRepairReport where
  released : Nat
  remaining : Nat
deriving DecidableEq

inductive QuotaError where
  | store (error : MetaError)
  | empty (field : String)
  | fieldTooLong (field : String) (max : Nat)
  | groupWithoutResource
  | digestSize (digest : String) (actual requested : Nat)
  | counterOverflow
  | reservationUnavailable (id : Uuid)
  | exceeded (violations : List QuotaLimit)
  | resourceExceeded (total : Nat)
deriving DecidableEq

/-- What ends an operation early: an error it returns, or a subtraction below
zero. -/
inductive QuotaStop where
  | error (error : QuotaError)
  | underflow
deriving DecidableEq

@[ext] structure ResourceUsage where
  references : References := {}
  artifactBytes : QuotaValue := {}
  groups : QuotaValue := {}
deriving DecidableEq

structure BlobUsage where
  bytes : Nat := 0
  references : References := {}
deriving DecidableEq

/-- A table key is a JSON array of strings and nulls, which its members
determine and which determines them. -/
abbrev IdentityKey := List (Option String)

instance : Std.TransOrd IdentityKey := inferInstance

def IdentityKey.resource (repository resource : String) : IdentityKey :=
  [some repository, some resource]

def IdentityKey.group (repository resource group : String) : IdentityKey :=
  [some repository, some resource, some group]

def IdentityKey.blob (repository digest : String) : IdentityKey :=
  [some repository, some digest]

variable {a b c d : String}

theorem IdentityKey.blob_inj :
    IdentityKey.blob a b = .blob c d ↔ a = c ∧ b = d := by
  simp [IdentityKey.blob]

theorem IdentityKey.resource_inj :
    IdentityKey.resource a b = .resource c d ↔ a = c ∧ b = d := by
  simp [IdentityKey.resource]

theorem IdentityKey.group_inj {e f : String} :
    IdentityKey.group a b c = .group d e f ↔ a = d ∧ b = e ∧ c = f := by
  simp [IdentityKey.group]

def QuotaAllocation.key (allocation : QuotaAllocation) : IdentityKey :=
  [some allocation.repository, allocation.resource, allocation.group, some allocation.digest]

def QuotaReservationRecord.allocation (reservation : QuotaReservationRecord) : QuotaAllocation :=
  ⟨reservation.repository, reservation.resource, reservation.group, reservation.digest⟩

def allocationKey (reservation : QuotaReservationRecord) : IdentityKey :=
  reservation.allocation.key

structure QuotaTables where
  usage : BTreeMap String QuotaUsage := ∅
  blob : BTreeMap IdentityKey BlobUsage := ∅
  resource : BTreeMap IdentityKey ResourceUsage := ∅
  group : BTreeMap IdentityKey References := ∅
  reservation : BTreeMap Uuid QuotaReservationRecord := ∅
  pending : Std.ExtTreeSet Uuid compare := ∅
  allocation : BTreeMap IdentityKey Uuid := ∅

/-! ## Counters -/

def checkedAdd (value amount : Nat) : Except QuotaStop Nat :=
  match value.u64CheckedAdd amount with
  | some value => .ok value
  | none => .error (.error .counterOverflow)

/-- `value -= amount` on a `u64`. -/
def subtract (value amount : Nat) : Except QuotaStop Nat :=
  if amount ≤ value then .ok (value - amount) else .error .underflow

variable (value : QuotaValue)

def ensureTotalAdd (amount : Nat) : Except QuotaStop Unit := do
  let total ← checkedAdd value.committed value.reserved
  let _ ← checkedAdd total amount
  return ()

def ensureIf (adds : Bool) (value : QuotaValue) (amount : Nat) : Except QuotaStop Unit :=
  if adds then ensureTotalAdd value amount else .ok ()

def moveValue (amount : Nat) : Except QuotaStop QuotaValue := do
  let reserved ← subtract value.reserved amount
  let committed ← checkedAdd value.committed amount
  return { committed, reserved }

def subtractValue (state : QuotaReservationState) (amount : Nat) :
    Except QuotaStop QuotaValue := do
  if state = .committed then
    return { value with committed := ← subtract value.committed amount }
  else
    return { value with reserved := ← subtract value.reserved amount }

def subtractReference (references : References) (state : QuotaReservationState) :
    Except QuotaStop References :=
  subtractValue references state 1

def rebalanceOrRemove (references : References)
    (released : QuotaReservationState) (amount : Nat) : Except QuotaStop QuotaValue := do
  if references.total = 0 then
    subtractValue value released amount
  else if released = .committed ∧ references.committed = 0 then
    let committed ← subtract value.committed amount
    let reserved ← checkedAdd value.reserved amount
    return { committed, reserved }
  else
    return value

def onlyIf (condition : Bool) (change : Tally → Except QuotaStop Tally) (value : Tally) :
    Except QuotaStop Tally :=
  if condition then change value else .ok value

/-- The charge moves with the first reference that commits. -/
def moveFirst (references : References) (amount : Nat) :
    Except QuotaStop QuotaValue :=
  onlyIf (references.committed = 0) (moveValue · amount) value

def moveReference (references : References) : Except QuotaStop References :=
  moveValue references 1

def addReserved (value : Tally) (amount : Nat) : Except QuotaStop Tally := do
  return { value with reserved := ← checkedAdd value.reserved amount }

/-! ## Reserving -/

def maxIdentityBytes : Nat := 512

def validateField (field : String) (value : Option String) : Except QuotaStop Unit :=
  if value.any (·.isEmpty) then
    .error (.error (.empty field))
  else if value.any (·.utf8ByteSize > maxIdentityBytes) then
    .error (.error (.fieldTooLong field maxIdentityBytes))
  else
    .ok ()

def validateRequest (request : NewQuotaReservation) : Except QuotaStop Unit := do
  validateField "repository" (some request.repository)
  validateField "resource" request.resource
  validateField "group" request.group
  validateField "digest" (some request.digest)
  if request.group.isSome && request.resource.isNone then
    .error (.error .groupWithoutResource)
  else
    .ok ()

structure ReservationRows where
  usage : QuotaUsage
  resource : ResourceUsage
  group : References
  blob : BlobUsage
  resourceKey : Option IdentityKey
  groupKey : Option IdentityKey
  blobKey : IdentityKey

structure ReservationAdds where
  accountedBytes : Bool
  resource : Bool
  group : Bool

namespace ReservationRows

def read (tables : QuotaTables) (request : NewQuotaReservation) :
    Except QuotaStop ReservationRows :=
  let resourceKey := request.resource.map (IdentityKey.resource request.repository)
  let groupKey := request.resource.bind fun resource =>
    request.group.map (IdentityKey.group request.repository resource)
  let blobKey := IdentityKey.blob request.repository request.digest
  let blob := tables.blob.getD blobKey {}
  if blob.references.total > 0 ∧ blob.bytes ≠ request.bytes then
    .error (.error (.digestSize request.digest blob.bytes request.bytes))
  else
    .ok
      { usage := tables.usage.getD request.repository {}
        resource := (resourceKey.map (tables.resource.getD · {})).getD {}
        group := (groupKey.map (tables.group.getD · {})).getD {}
        blob := { blob with bytes := request.bytes }
        resourceKey, groupKey, blobKey }

variable (rows : ReservationRows)

def adds : ReservationAdds where
  accountedBytes := rows.blob.references.total == 0
  resource := rows.resourceKey.isSome && rows.resource.references.total == 0
  group := rows.groupKey.isSome && rows.group.total == 0

/-- The totals a reservation adds to still fit their counters. -/
def ensureTotals (bytes : Nat) (limited : Bool) :
    Except QuotaStop Unit := do
  ensureTotalAdd rows.usage.artifactBytes bytes
  ensureIf limited rows.resource.artifactBytes bytes
  ensureIf rows.adds.accountedBytes rows.usage.accountedBytes bytes
  ensureIf rows.adds.resource rows.usage.resources 1
  ensureIf rows.adds.group rows.resource.groups 1

def resourceExcess (bytes : Nat) (limit : Option Nat) : Option Nat :=
  limit.bind fun limit =>
    let total := rows.resource.artifactBytes.total + bytes
    if total > limit then some total else none

def passes (value : QuotaValue) (amount : Nat) (limit : Option Nat) : Bool :=
  limit.any fun limit => (value.total.u64CheckedAdd amount).all (· > limit)

def limitViolations (bytes : Nat) (limits : QuotaLimits)
    (resourceArtifactBytesExceeded : Bool) : List QuotaLimit :=
  (if limits.maxArtifactBytes.any (bytes > ·) || resourceArtifactBytesExceeded then
    [.artifactBytes] else []) ++
  (if rows.adds.accountedBytes && passes rows.usage.accountedBytes bytes limits.maxAccountedBytes
    then [.accountedBytes] else []) ++
  (if rows.adds.resource && passes rows.usage.resources 1 limits.maxResources then
    [.resources] else []) ++
  (if rows.adds.group && passes rows.resource.groups 1 limits.maxGroupsPerResource then
    [.groupsPerResource] else [])

def charged (bytes : Nat) (limited : Bool) :
    Except QuotaStop ReservationRows := do
  let adds := rows.adds
  let artifactBytes ← addReserved rows.usage.artifactBytes bytes
  let resourceArtifactBytes ← onlyIf limited (addReserved · bytes) rows.resource.artifactBytes
  let accountedBytes ← onlyIf adds.accountedBytes (addReserved · bytes) rows.usage.accountedBytes
  let blobReferences ← addReserved rows.blob.references 1
  let resources ← onlyIf adds.resource (addReserved · 1) rows.usage.resources
  let resourceReferences ← onlyIf rows.resourceKey.isSome (addReserved · 1) rows.resource.references
  let groups ← onlyIf adds.group (addReserved · 1) rows.resource.groups
  let group ← onlyIf rows.groupKey.isSome (addReserved · 1) rows.group
  return { rows with
    usage := { artifactBytes, accountedBytes, resources }
    resource := { references := resourceReferences, artifactBytes := resourceArtifactBytes, groups }
    group
    blob := { rows.blob with references := blobReferences } }

def reserve (bytes : Nat) (limits : QuotaLimits)
    (maxResourceArtifactBytes : Option Nat) :
    Except QuotaStop (ReservationRows × List QuotaLimit) := do
  rows.ensureTotals bytes maxResourceArtifactBytes.isSome
  let resourceExcess := rows.resourceExcess bytes maxResourceArtifactBytes
  let violations := rows.limitViolations bytes limits resourceExcess.isSome
  if !limits.audit && !violations.isEmpty then
    match resourceExcess with
    | some total => .error (.error (.resourceExceeded total))
    | none => .error (.error (.exceeded violations))
  else
    let rows ← rows.charged bytes maxResourceArtifactBytes.isSome
    return (rows, violations)

def write (tables : QuotaTables) (repository : String) : QuotaTables :=
  { tables with
    usage := tables.usage.insert repository rows.usage
    blob := tables.blob.insert rows.blobKey rows.blob
    resource := rows.resourceKey.elim tables.resource (tables.resource.insert · rows.resource)
    group := rows.groupKey.elim tables.group (tables.group.insert · rows.group) }

end ReservationRows

def NewQuotaReservation.reservation (request : NewQuotaReservation) (id : Uuid)
    (violations : List QuotaLimit) (resourceArtifactBytes : Bool) : QuotaReservationRecord where
  id
  repository := request.repository
  resource := request.resource
  group := request.group
  digest := request.digest
  bytes := request.bytes
  accountingClass := request.accountingClass
  state := .reserved
  createdAtUnix := request.createdAtUnix
  violations
  resourceArtifactBytes

namespace QuotaTables

variable (tables : QuotaTables)

/-- `id` is the one that `Uuid::new_v4` draws. -/
def reserveQuotaInner (id : Uuid) (request : NewQuotaReservation)
    (limits : QuotaLimits) (maxResourceArtifactBytes : Option Nat) :
    Except QuotaStop (QuotaTables × QuotaReservationRecord) := do
  validateRequest request
  let rows ← ReservationRows.read tables request
  let (rows, violations) ← rows.reserve request.bytes limits maxResourceArtifactBytes
  let reservation := request.reservation id violations maxResourceArtifactBytes.isSome
  let tables := rows.write tables request.repository
  return ({ tables with
    reservation := tables.reservation.insert id reservation
    pending := tables.pending.insert id }, reservation)

def reserveQuota (tables : QuotaTables) (id : Uuid) (request : NewQuotaReservation)
    (limits : QuotaLimits) : Except QuotaStop (QuotaTables × QuotaReservationRecord) :=
  tables.reserveQuotaInner id request limits none

def reserveResourceQuota (id : Uuid) (request : NewQuotaReservation)
    (limits : QuotaLimits) (maxResourceArtifactBytes : Option Nat) :
    Except QuotaStop (QuotaTables × QuotaReservationRecord) :=
  if request.resource.isNone then
    .error (.error (.empty "resource"))
  else
    tables.reserveQuotaInner id request limits maxResourceArtifactBytes

/-! ## Committing and releasing -/

def keepReferenced {α : Type} (table : BTreeMap IdentityKey α) (key : IdentityKey)
    (references : References) (row : α) : BTreeMap IdentityKey α :=
  if references.total = 0 then table.erase key else table.insert key row

def transitionGroup (reservation : QuotaReservationRecord) (commit : Bool)
    (resource : ResourceUsage) : Except QuotaStop (QuotaTables × ResourceUsage) :=
  match reservation.resource, reservation.group with
  | some resourceName, some groupName => do
    let key := IdentityKey.group reservation.repository resourceName groupName
    let group := tables.group.getD key {}
    let (groups, group) ←
      if commit then do
        let groups ← moveFirst resource.groups group 1
        let group ← moveReference group
        pure (groups, group)
      else do
        let group ← subtractReference group reservation.state
        let groups ← rebalanceOrRemove resource.groups group reservation.state 1
        pure (groups, group)
    return ({ tables with group := keepReferenced tables.group key group group },
      { resource with groups })
  | _, _ => .ok (tables, resource)

/-- The rows of one resource, the row itself kept while something refers to
it. -/
def writeResource (repository resourceName : String) (usage : QuotaUsage)
    (resource : ResourceUsage) : QuotaTables :=
  { tables with
    usage := tables.usage.insert repository usage
    resource := keepReferenced tables.resource (.resource repository resourceName)
      resource.references resource }

def transitionResource (reservation : QuotaReservationRecord)
    (commit : Bool) : Except QuotaStop QuotaTables :=
  match reservation.resource with
  | none => .ok tables
  | some resourceName => do
    let resource := tables.resource.getD (.resource reservation.repository resourceName) {}
    let usage := tables.usage.getD reservation.repository {}
    let limited := reservation.resourceArtifactBytes
    let (resources, artifactBytes, references) ←
      if commit then do
        let resources ← moveFirst usage.resources resource.references 1
        let artifactBytes ← onlyIf limited (moveValue · reservation.bytes) resource.artifactBytes
        let references ← moveReference resource.references
        pure (resources, artifactBytes, references)
      else do
        let artifactBytes ← onlyIf limited (subtractValue · reservation.state reservation.bytes)
          resource.artifactBytes
        let references ← subtractReference resource.references reservation.state
        let resources ← rebalanceOrRemove usage.resources references reservation.state 1
        pure (resources, artifactBytes, references)
    let (tables, resource) ← tables.transitionGroup reservation commit
      { resource with references, artifactBytes }
    return tables.writeResource reservation.repository resourceName { usage with resources }
      resource

/-- The rows of one digest, its own kept while something refers to it. -/
def writeBlob (repository digest : String) (usage : QuotaUsage)
    (blob : BlobUsage) : QuotaTables :=
  { tables with
    usage := tables.usage.insert repository usage
    blob := keepReferenced tables.blob (.blob repository digest) blob.references blob }

/-- The part of a transition that the repository's bytes are counted by. -/
def transitionBlob (reservation : QuotaReservationRecord)
    (commit : Bool) : Except QuotaStop QuotaTables := do
  let usage := tables.usage.getD reservation.repository {}
  let blob := tables.blob.getD (.blob reservation.repository reservation.digest) {}
  let (artifactBytes, accountedBytes, references) ←
    if commit then do
      let artifactBytes ← moveValue usage.artifactBytes reservation.bytes
      let accountedBytes ← moveFirst usage.accountedBytes blob.references reservation.bytes
      let references ← moveReference blob.references
      pure (artifactBytes, accountedBytes, references)
    else do
      let artifactBytes ← subtractValue usage.artifactBytes reservation.state reservation.bytes
      let references ← subtractReference blob.references reservation.state
      let accountedBytes ← rebalanceOrRemove usage.accountedBytes references reservation.state
        reservation.bytes
      pure (artifactBytes, accountedBytes, references)
  return tables.writeBlob reservation.repository reservation.digest
    { usage with artifactBytes, accountedBytes } { blob with references }

def transition (tables : QuotaTables) (reservation : QuotaReservationRecord) (commit : Bool) :
    Except QuotaStop QuotaTables := do
  let tables ← tables.transitionBlob reservation commit
  tables.transitionResource reservation commit

/-- Preserves an index entry replaced by a later duplicate. -/
def forgetAllocation (reservation : QuotaReservationRecord) :
    QuotaTables :=
  if tables.allocation[allocationKey reservation]? = some reservation.id then
    { tables with allocation := tables.allocation.erase (allocationKey reservation) }
  else
    tables

inductive ReleaseScope where
  | any
  | pending
deriving DecidableEq

def release (id : Uuid) (scope : ReleaseScope) :
    Except QuotaStop (QuotaTables × Bool) :=
  match tables.reservation[id]? with
  | none => .ok (tables, false)
  | some reservation =>
    if reservation.state = .committed ∧ scope = .pending then
      .ok (tables, false)
    else do
      let tables ← tables.transition reservation false
      let tables := tables.forgetAllocation reservation
      return ({ tables with
        reservation := tables.reservation.erase id
        pending := tables.pending.erase id }, true)

def commitReservation (id : Uuid) : Except QuotaStop (QuotaTables × Bool) :=
  match tables.reservation[id]? with
  | none => .ok (tables, false)
  | some reservation =>
    if reservation.state = .committed then
      .ok (tables, false)
    else do
      let tables ← tables.transition reservation true
      return ({ tables with
        reservation := tables.reservation.insert id { reservation with state := .committed }
        allocation := tables.allocation.insert (allocationKey reservation) id
        pending := tables.pending.erase id }, true)

/-- Removing the index entry makes repeated release a no-op. -/
def releaseCommittedAllocation (allocation : QuotaAllocation) :
    Except QuotaStop (QuotaTables × Bool) :=
  match tables.allocation[allocation.key]? with
  | none => .ok (tables, false)
  | some id => tables.release id .any

def settleReservation (id : Uuid) (commit : Bool) :
    Except QuotaStop QuotaTables := do
  let (tables, settled) ← if commit then tables.commitReservation id else tables.release id .pending
  if settled then .ok tables else .error (.error (.reservationUnavailable id))

def settleReservations (reservations committed : List Uuid) :
    Except QuotaStop QuotaTables :=
  reservations.foldlM
    (fun (tables : QuotaTables) id => tables.settleReservation id (id ∈ committed)) tables

def eligible (tables : QuotaTables) (createdBeforeUnix : Int64) :
    List Uuid → Except QuotaStop (List Uuid)
  | [] => .ok []
  | id :: ids =>
    match tables.reservation[id]? with
    | none => .error (.error (.reservationUnavailable id))
    | some reservation => do
      let rest ← tables.eligible createdBeforeUnix ids
      return if reservation.createdAtUnix ≤ createdBeforeUnix then id :: rest else rest

def repairAbandonedQuotaReservations (createdBeforeUnix : Int64)
    (limit : Nat) : Except QuotaStop (QuotaTables × QuotaRepairReport) := do
  let eligible ← tables.eligible createdBeforeUnix tables.pending.toList
  let ids := eligible.take limit
  let tables ← ids.foldlM (fun tables id => (·.1) <$> tables.release id .pending) tables
  return (tables, { released := ids.length, remaining := eligible.length - ids.length })

/-! ## Reading -/

def quotaUsage (repository : String) : QuotaUsage :=
  tables.usage.getD repository {}

def quotaResourceUsage (repository resource : String) :
    QuotaResourceUsage :=
  let usage := tables.resource.getD (.resource repository resource) {}
  { artifactBytes := usage.artifactBytes, groups := usage.groups }

end QuotaTables

/-! ## Calls, one transaction each -/

/-- `settle` is what a driver transaction does to its reservations: the ones it
wrote for are committed and the rest are released. `aborted` is any call whose
driver body or database failed. -/
inductive QuotaCall where
  | reserve (id : Uuid) (request : NewQuotaReservation) (limits : QuotaLimits)
  | reserveResource (id : Uuid) (request : NewQuotaReservation) (limits : QuotaLimits)
      (maxResourceArtifactBytes : Option Nat)
  | commit (id : Uuid)
  | release (id : Uuid)
  | settle (reservations committed : List Uuid)
  | releaseAllocation (allocation : QuotaAllocation)
  | repair (createdBeforeUnix : Int64) (limit : Nat)
  | aborted (error : QuotaError)
deriving DecidableEq

inductive QuotaAnswer where
  | reserved (reservation : QuotaReservationRecord)
  | changed (done : Bool)
  | repaired (report : QuotaRepairReport)
deriving DecidableEq

namespace QuotaTables

def run (tables : QuotaTables) : QuotaCall → Except QuotaStop (QuotaTables × QuotaAnswer)
  | .reserve id request limits =>
    (tables.reserveQuota id request limits).map (answered .reserved)
  | .reserveResource id request limits maxResourceArtifactBytes =>
    (tables.reserveResourceQuota id request limits maxResourceArtifactBytes).map
      (answered .reserved)
  | .commit id => (tables.commitReservation id).map (answered .changed)
  | .release id => (tables.release id .any).map (answered .changed)
  | .settle reservations committed =>
    (tables.settleReservations reservations committed).map (·, .changed true)
  | .releaseAllocation allocation =>
    (tables.releaseCommittedAllocation allocation).map (answered .changed)
  | .repair createdBeforeUnix limit =>
    (tables.repairAbandonedQuotaReservations createdBeforeUnix limit).map (answered .repaired)
  | .aborted error => .error (.error error)
where
  answered {α : Type} (answer : α → QuotaAnswer) : QuotaTables × α → QuotaTables × QuotaAnswer
    | (tables, value) => (tables, answer value)

def step (tables : QuotaTables) (call : QuotaCall) :
    QuotaTables × Except QuotaStop QuotaAnswer :=
  match tables.run call with
  | .ok (tables, answer) => (tables, .ok answer)
  | .error stop => (tables, .error stop)

end QuotaTables

end Peryx
