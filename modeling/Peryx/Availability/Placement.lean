import Peryx.Storage.Tables

/-!
# Placements of a blob

One row of `BLOB_PLACEMENT` says what a node knows of a digest's bytes at one
location. A transition is decided over the row a worker has read
(`peryx-ha/src/placement.rs`) and committed by a compare-and-put
(`meta/blob_placement.rs`), again and again until the row did not move
(`placement_policy.rs`).
-/

namespace Peryx

/-! ## Keys -/

def maxComponentBytes : Nat := 512

def maxPlacementsPerDigest : Nat := 64

inductive PlacementKeyError where
  | empty (field : String)
  | tooLong (field : String)
  | containsNul (field : String)
deriving DecidableEq

def component (field value : String) : Except PlacementKeyError String :=
  if value.isEmpty then .error (.empty field)
  else if value.utf8ByteSize > maxComponentBytes then .error (.tooLong field)
  else if '\x00' ∈ value.toList then .error (.containsNul field)
  else .ok value

/-- `BackendId`, `DataCenterId` and `BackendLocation`: a text its check
accepts. -/
structure KeyComponent (field : String) where
  text : String
  valid : component field text = .ok text
deriving DecidableEq

structure BlobPlacementKey where
  digest : ArtifactDigest
  backend : KeyComponent "backend"
  dataCenter : KeyComponent "data center"
  location : KeyComponent "location"
deriving DecidableEq

def encodedKey (key : BlobPlacementKey) : String :=
  key.digest.canonical ++ "\x00" ++ key.backend.text ++ "\x00" ++ key.dataCenter.text ++ "\x00" ++
    key.location.text

/-! ## Records -/

inductive BlobPlacementFailure where
  | sourceUnavailable
  | digestMismatch
  | backendRejected
  | transferLimit
deriving DecidableEq

inductive BlobPlacementState where
  | pending
  | verified (size : Nat)
  | failed (failure : BlobPlacementFailure)
  | revoked
deriving DecidableEq

inductive BlobPlacementStatus where
  | pending
  | verified
  | failed
  | revoked
deriving DecidableEq

def BlobPlacementState.status : BlobPlacementState → BlobPlacementStatus
  | .pending => .pending
  | .verified _ => .verified
  | .failed _ => .failed
  | .revoked => .revoked

structure BlobPlacementRecord where
  key : BlobPlacementKey
  state : BlobPlacementState
  fence : Nat
  transferAttempt : Nat
  generation : Nat
  updatedAtUnix : Int64
deriving DecidableEq

/-- `publish` carries bytes the local store already committed, so it opens no
transfer attempt. -/
inductive BlobPlacementTransition where
  | stage
  | checkpoint (attempt : Nat)
  | verify (attempt : Nat) (observed : ArtifactDigest) (size : Nat)
  | publish (size : Nat)
  | fail (attempt : Nat) (failure : BlobPlacementFailure)
  | invalidate
  | revoke
deriving DecidableEq

namespace BlobPlacementTransition

def label : BlobPlacementTransition → String
  | .stage => "stage"
  | .checkpoint _ => "checkpoint"
  | .verify .. => "verify"
  | .publish _ => "publish"
  | .fail .. => "fail"
  | .invalidate => "invalidate"
  | .revoke => "revoke"

def attempt : BlobPlacementTransition → Option Nat
  | .checkpoint attempt | .verify attempt _ _ | .fail attempt _ => some attempt
  | .stage | .publish _ | .invalidate | .revoke => none

end BlobPlacementTransition

/-! ## Decisions -/

inductive BlobPlacementOutcome where
  | applied (record : BlobPlacementRecord)
  | unchanged (record : BlobPlacementRecord)
deriving DecidableEq

inductive BlobPlacementDecisionError where
  | illegalTransition (found : BlobPlacementStatus) (transition : String)
  | missingPlacement (transition : String)
  | staleFence (current applied : Nat)
  | staleTransferAttempt (current applied : Nat)
  | transferAttemptFenceMismatch (current applied : Nat)
  | transferAttemptExhausted
deriving DecidableEq

inductive NextBlobPlacement where
  | unchanged (record : BlobPlacementRecord)
  | applied (state : BlobPlacementState)

def nextBlobPlacement (key : BlobPlacementKey) (prior : Option BlobPlacementRecord)
    (transition : BlobPlacementTransition) (fence : Nat) :
    Except BlobPlacementDecisionError NextBlobPlacement :=
  match prior, transition with
  | none, .stage => .ok (.applied .pending)
  | none, .publish size => .ok (.applied (.verified size))
  | none, transition => .error (.missingPlacement transition.label)
  | some record, transition =>
    match transition, record.state with
    | .stage, .failed _ => .ok (.applied .pending)
    | .stage, .revoked => .ok (.applied .pending)
    | .stage, .pending =>
      if fence > record.fence then .ok (.applied .pending) else .ok (.unchanged record)
    | .checkpoint _, .pending => .ok (.applied .pending)
    | .verify _ observed size, .pending =>
      .ok (.applied (if observed = key.digest then .verified size else .failed .digestMismatch))
    | .fail _ failure, .pending => .ok (.applied (.failed failure))
    -- locally committed bytes settle every unverified state, and a repeat
    -- still has to carry a higher fence onto the row
    | .publish size, state =>
      if state = .verified size ∧ fence = record.fence then .ok (.unchanged record)
      else .ok (.applied (.verified size))
    | .invalidate, .verified _ => .ok (.applied (.failed .digestMismatch))
    | .fail _ _, .failed _ => .ok (.unchanged record)
    | .revoke, state =>
      if state = .revoked ∧ fence = record.fence then .ok (.unchanged record)
      else .ok (.applied .revoked)
    | transition, state => .error (.illegalTransition state.status transition.label)

/-- Refuses an older owner, and a transfer attempt that is not the stored one. -/
def checkOwnership (prior : Option BlobPlacementRecord) (transition : BlobPlacementTransition)
    (fence : Nat) : Except BlobPlacementDecisionError Unit :=
  match prior with
  | none => .ok ()
  | some record =>
    if fence < record.fence then
      .error (.staleFence record.fence fence)
    else
      match transition.attempt with
      | none => .ok ()
      | some attempt =>
        if fence ≠ record.fence then
          .error (.transferAttemptFenceMismatch record.fence fence)
        else if attempt ≠ record.transferAttempt then
          .error (.staleTransferAttempt record.transferAttempt attempt)
        else .ok ()

def nextTransferAttempt (prior : Option BlobPlacementRecord)
    (transition : BlobPlacementTransition) : Except BlobPlacementDecisionError Nat :=
  match transition, prior with
  | .stage, none => .ok 1
  | .stage, some record =>
    match record.transferAttempt.u64CheckedAdd 1 with
    | some attempt => .ok attempt
    | none => .error .transferAttemptExhausted
  | _, none => .ok 0
  | _, some record => .ok record.transferAttempt

/-- The generation is not checked as the attempt is: it wraps. -/
def decideBlobPlacement (key : BlobPlacementKey) (prior : Option BlobPlacementRecord)
    (transition : BlobPlacementTransition) (fence : Nat) (now : Int64) :
    Except BlobPlacementDecisionError BlobPlacementOutcome := do
  checkOwnership prior transition fence
  match ← nextBlobPlacement key prior transition fence with
  | .unchanged record => return .unchanged record
  | .applied state =>
    let transferAttempt ← nextTransferAttempt prior transition
    return .applied
      { key
        state
        fence := prior.elim fence fun record => max record.fence fence
        transferAttempt
        generation := prior.elim 1 fun record => record.generation.u64WrappingAdd 1
        updatedAtUnix := now }

/-! ## The table -/

inductive CompareWrite where
  | written
  | conflict
  | capacityExceeded
deriving DecidableEq

/-- `BLOB_PLACEMENT`, by encoded key. -/
abbrev PlacementTable := BTreeMap String BlobPlacementRecord

namespace PlacementTable

variable (table : PlacementTable)

def blobPlacement (key : BlobPlacementKey) :
    Option BlobPlacementRecord :=
  table[encodedKey key]?

def blobPlacements (digest : ArtifactDigest) :
    List BlobPlacementRecord :=
  let low := digest.canonical ++ "\x00"
  let high := digest.canonical ++ "\x01"
  (table.toList.filter fun row => low ≤ row.1 ∧ row.1 < high).map (·.2)

def placementCount (digest : ArtifactDigest) : Nat :=
  (table.blobPlacements digest).length

/-- Commits a caller-decided state only when the persisted record still matches
`expected`. -/
def compareAndPutBlobPlacement (expected : Option BlobPlacementRecord)
    (replacement : BlobPlacementRecord) : PlacementTable × CompareWrite :=
  let key := encodedKey replacement.key
  if table[key]? ≠ expected then (table, .conflict)
  else if expected = none ∧
      table.placementCount replacement.key.digest ≥ maxPlacementsPerDigest then
    (table, .capacityExceeded)
  else (table.insert key replacement, .written)

end PlacementTable

/-! ## Workers -/

/-- The arguments of one `apply_blob_placement`. -/
structure PlacementCall where
  key : BlobPlacementKey
  transition : BlobPlacementTransition
  fence : Nat
  now : Int64
deriving DecidableEq

def PlacementCall.decide (call : PlacementCall) (prior : Option BlobPlacementRecord) :
    Except BlobPlacementDecisionError BlobPlacementOutcome :=
  decideBlobPlacement call.key prior call.transition call.fence call.now

/-- Where a worker is in the loop of its call: about to read, or about to write
what it decided over the row it read. -/
inductive PlacementWorker where
  | reading (call : PlacementCall)
  | writing (call : PlacementCall) (prior : Option BlobPlacementRecord)
      (replacement : BlobPlacementRecord)

structure PlacementWorkers where
  table : PlacementTable := ∅
  workers : BTreeMap Nat PlacementWorker := ∅

inductive BlobPlacementError where
  | decision (error : BlobPlacementDecisionError)
  | tooManyPlacements
deriving DecidableEq

/-- What the scheduler lets happen next: a worker makes a call, takes the next
step of its loop, or is lost with its call (a store error, a crash). -/
inductive PlacementStep where
  | call (worker : Nat) (call : PlacementCall)
  | read (worker : Nat)
  | write (worker : Nat)
  | lose (worker : Nat)

/-- A write that was applied: the call, the row it replaced and the new one. -/
structure PlacementWrite where
  call : PlacementCall
  before : Option BlobPlacementRecord
  after : BlobPlacementRecord

inductive PlacementEvent where
  | quiet
  | returned (result : Except BlobPlacementError BlobPlacementOutcome)
  | written (write : PlacementWrite)

namespace PlacementWorkers

variable (state : PlacementWorkers)

def leave (worker : Nat) : PlacementWorkers :=
  { state with workers := state.workers.erase worker }

def become (worker : Nat) (phase : PlacementWorker) :
    PlacementWorkers :=
  { state with workers := state.workers.insert worker phase }

def read (worker : Nat) (call : PlacementCall) :
    PlacementWorkers × PlacementEvent :=
  let prior := state.table.blobPlacement call.key
  match call.decide prior with
  | .error error => (state.leave worker, .returned (.error (.decision error)))
  | .ok (.unchanged record) => (state.leave worker, .returned (.ok (.unchanged record)))
  | .ok (.applied replacement) => (state.become worker (.writing call prior replacement), .quiet)

def write (worker : Nat) (call : PlacementCall)
    (prior : Option BlobPlacementRecord) (replacement : BlobPlacementRecord) :
    PlacementWorkers × PlacementEvent :=
  match state.table.compareAndPutBlobPlacement prior replacement with
  | (table, .written) =>
    ({ state with table }.leave worker, .written ⟨call, prior, replacement⟩)
  | (_, .conflict) => (state.become worker (.reading call), .quiet)
  | (_, .capacityExceeded) => (state.leave worker, .returned (.error .tooManyPlacements))

/-- A step a worker is not ready for changes nothing. -/
def step : PlacementStep → PlacementWorkers × PlacementEvent
  | .call worker call =>
    match state.workers[worker]? with
    | none => (state.become worker (.reading call), .quiet)
    | some _ => (state, .quiet)
  | .read worker =>
    match state.workers[worker]? with
    | some (.reading call) => state.read worker call
    | _ => (state, .quiet)
  | .write worker =>
    match state.workers[worker]? with
    | some (.writing call prior replacement) => state.write worker call prior replacement
    | _ => (state, .quiet)
  | .lose worker => (state.leave worker, .quiet)

end PlacementWorkers

end Peryx
