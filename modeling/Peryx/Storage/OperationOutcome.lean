import Peryx.Lib.Machine
import Peryx.Storage.Commit
import Peryx.Storage.IngressIntent

/-!
# Operation outcomes and finalization

`meta/operation_outcome.rs` and `meta/finalize.rs`. An operation id is claimed
before its write, so a retry replays the record; a finalized write commits its
rows and journal, the outcome and the settled intent in one transaction.

`E` is the error type of a body and `fromMeta` its `From<MetaError>`.
-/

namespace Peryx

/-! ## Outcomes -/

inductive OperationState where
  | pending
  | published
  | failed
deriving DecidableEq

def OperationState.isTerminal : OperationState → Bool
  | .pending => false
  | .published | .failed => true

inductive OperationResult where
  | published
  | failed
deriving DecidableEq

def OperationResult.state : OperationResult → OperationState
  | .published => .published
  | .failed => .failed

structure OperationOutcomeRecord where
  state : OperationState
  response : List UInt8
  expiryUnix : Option Int64
  updatedAtUnix : Int64
deriving DecidableEq

inductive OperationClaim where
  | admitted
  | existing (record : OperationOutcomeRecord)
deriving DecidableEq

inductive OperationOutcomeError where
  | notAdmitted (operation : String)
  | alreadyFinal (operation : String)
deriving DecidableEq

abbrev Outcomes := BTreeMap String OperationOutcomeRecord

namespace Outcomes

def pendingRecord (expiryUnix : Option Int64) (now : Int64) : OperationOutcomeRecord where
  state := .pending
  response := []
  expiryUnix
  updatedAtUnix := now

variable (outcomes : Outcomes)

def claimOperation (operation : String) (expiryUnix : Option Int64)
    (now : Int64) : Outcomes × OperationClaim :=
  match outcomes[operation]? with
  | some record => (outcomes, .existing record)
  | none => (outcomes.insert operation (pendingRecord expiryUnix now), .admitted)

/-- Starts another attempt under a terminal operation id. A pending operation
keeps its checkpoint. -/
def restartOperation (operation : String) (expiryUnix : Option Int64)
    (now : Int64) : Outcomes × OperationOutcomeRecord :=
  match outcomes[operation]?.filter fun record => !record.state.isTerminal with
  | some record => (outcomes, record)
  | none =>
    let record := pendingRecord expiryUnix now
    (outcomes.insert operation record, record)

def pending (operation : String) :
    Except OperationOutcomeError OperationOutcomeRecord :=
  match outcomes[operation]? with
  | none => .error (.notAdmitted operation)
  | some record =>
    if record.state.isTerminal then .error (.alreadyFinal operation) else .ok record

def finalizeOperation (operation : String) (result : OperationResult)
    (response : List UInt8) (now : Int64) :
    Except OperationOutcomeError (Outcomes × OperationOutcomeRecord) := do
  let record ← outcomes.pending operation
  let finalized : OperationOutcomeRecord :=
    { state := result.state, response, expiryUnix := record.expiryUnix, updatedAtUnix := now }
  return (outcomes.insert operation finalized, finalized)

def checkpointPendingOperation (operation : String)
    (response : List UInt8) (now : Int64) : Except OperationOutcomeError Outcomes := do
  let record ← outcomes.pending operation
  return outcomes.insert operation { record with response, updatedAtUnix := now }

def doomed (now : Int64) (limit : Nat) : List String :=
  ((outcomes.toList.filter fun (_, record) => record.expiryUnix.any (now ≥ ·)).take limit).map (·.1)

def pruneOperationOutcomes (now : Int64) (limit : Nat) : Outcomes × Nat :=
  let doomed := outcomes.doomed now limit
  (doomed.foldl (·.erase ·) outcomes, doomed.length)

end Outcomes

/-! ## Finalized writes -/

variable {Bytes E : Type}

/-- An empty `intentKey` leaves the intents unchanged. -/
structure FinalizedWrite where
  operation : String
  intentKey : String
  response : List UInt8
  expiryUnix : Option Int64
  now : Int64
deriving DecidableEq

inductive FinalizeOutcome where
  | published
  | replayed (record : OperationOutcomeRecord)
deriving DecidableEq

inductive FinalizeFlow (E : Type) where
  | user (error : E)
  | raceReplay (record : OperationOutcomeRecord)

structure OperationStore (Bytes : Type) where
  metadata : MetaStore Bytes := {}
  outcomes : Outcomes := ∅
  intents : IntentTables := {}

/-- One call a body makes: on the driver's rows, or `checkpoint_operation`. -/
inductive BodyCall (Bytes : Type) where
  | driver (op : DriverOp Bytes)
  | checkpoint (operation : String) (response : List UInt8) (now : Int64)

/-- What a body does: the calls it makes, and the payloads it journals unless it
fails. A body also reads, which only decides what it goes on to do. -/
structure WriteBody (Bytes E : Type) where
  calls : List (BodyCall Bytes)
  result : Except E (List Bytes)

namespace WriteBody

def driverOps (body : WriteBody Bytes E) : List (DriverOp Bytes) :=
  body.calls.filterMap fun
    | .driver op => some op
    | .checkpoint .. => none

/-- A checkpoint that fails stages nothing; the body may go on. -/
def checkpoint (outcomes : Outcomes) : BodyCall Bytes → Outcomes
  | .driver _ => outcomes
  | .checkpoint operation response now =>
    match outcomes.checkpointPendingOperation operation response now with
    | .ok outcomes => outcomes
    | .error _ => outcomes

end WriteBody

namespace OperationStore

/-- `commit_driver_txn_at` up to its `finalize`. -/
def runBody (fromMeta : MetaError → E) (store : OperationStore Bytes) (body : WriteBody Bytes E)
    (clock : Int64) (collectorActive : Bool) : Except E (OperationStore Bytes) := do
  let (metadata, _) ← store.metadata.commitDriverTxnWithJournal fromMeta none clock
    collectorActive fun txn => body.result.map fun payloads =>
      (txn.performAll body.driverOps, .payloads payloads)
  return { store with metadata, outcomes := body.calls.foldl WriteBody.checkpoint store.outcomes }

def advanceIntentToAdmitted (intents : IntentTables) (intentKey : String) (now : Int64) :
    IntentTables :=
  if intentKey = "" then
    intents
  else
    match intents.intents[intentKey]?.filter fun record => record.phase < .admitted with
    | some record => intents.settleIntent intentKey record .admitted now
    | none => intents

def publishedRecord (write : FinalizedWrite) : OperationOutcomeRecord where
  state := .published
  response := write.response
  expiryUnix := write.expiryUnix
  updatedAtUnix := write.now

def stampFinalized (store : OperationStore Bytes) (write : FinalizedWrite) :
    Except (FinalizeFlow E) (OperationStore Bytes) :=
  match store.outcomes[write.operation]?.filter fun record => record.state.isTerminal with
  | some record => .error (.raceReplay record)
  | none =>
    .ok { store with
      outcomes := store.outcomes.insert write.operation (publishedRecord write)
      intents := advanceIntentToAdmitted store.intents write.intentKey write.now }

/-- A terminal outcome drops what the body staged, and is replayed. -/
def resolveFinalize (store : OperationStore Bytes) :
    Except (FinalizeFlow E) (OperationStore Bytes) → OperationStore Bytes × Except E FinalizeOutcome
  | .ok committed => (committed, .ok .published)
  | .error (.user error) => (store, .error error)
  | .error (.raceReplay record) => (store, .ok (.replayed record))

def commitFinalizedWrite (fromMeta : MetaError → E) (store : OperationStore Bytes)
    (write : FinalizedWrite) (body : WriteBody Bytes E) (clock : Int64) (collectorActive : Bool) :
    OperationStore Bytes × Except E FinalizeOutcome :=
  store.resolveFinalize do
    let staged ← (store.runBody fromMeta body clock collectorActive).mapError .user
    staged.stampFinalized write

end OperationStore

/-! ## Calls, one transaction each -/

/-- `driver` is a driver transaction that finalizes nothing, and `aborted` any
call whose database failed. -/
inductive OperationCall (Bytes E : Type) where
  | claim (operation : String) (expiryUnix : Option Int64) (now : Int64)
  | restart (operation : String) (expiryUnix : Option Int64) (now : Int64)
  | finalize (operation : String) (result : OperationResult) (response : List UInt8) (now : Int64)
  | commitFinalized (write : FinalizedWrite) (body : WriteBody Bytes E) (clock : Int64)
      (collectorActive : Bool)
  | driver (body : WriteBody Bytes E) (clock : Int64) (collectorActive : Bool)
  | prune (now : Int64) (limit : Nat)
  | intent (call : IntentCall)
  | aborted (error : MetaError)

inductive OperationAnswer (E : Type) where
  | claimed (claim : OperationClaim)
  | restarted (record : OperationOutcomeRecord)
  | finalized (result : Except OperationOutcomeError OperationOutcomeRecord)
  | committed (outcome : Except E FinalizeOutcome)
  | driven (result : Except E Unit)
  | pruned (count : Nat)
  | intent (answer : IntentAnswer)
  | aborted (error : MetaError)

namespace OperationStore

variable (fromMeta : MetaError → E)

def step (store : OperationStore Bytes) :
    OperationCall Bytes E → OperationStore Bytes × OperationAnswer E
  | .claim operation expiryUnix now =>
    let (outcomes, claim) := store.outcomes.claimOperation operation expiryUnix now
    ({ store with outcomes }, .claimed claim)
  | .restart operation expiryUnix now =>
    let (outcomes, record) := store.outcomes.restartOperation operation expiryUnix now
    ({ store with outcomes }, .restarted record)
  | .finalize operation result response now =>
    match store.outcomes.finalizeOperation operation result response now with
    | .ok (outcomes, record) => ({ store with outcomes }, .finalized (.ok record))
    | .error error => (store, .finalized (.error error))
  | .commitFinalized write body clock collectorActive =>
    let (store, outcome) := store.commitFinalizedWrite fromMeta write body clock collectorActive
    (store, .committed outcome)
  | .driver body clock collectorActive =>
    match store.runBody fromMeta body clock collectorActive with
    | .ok store => (store, .driven (.ok ()))
    | .error error => (store, .driven (.error error))
  | .prune now limit =>
    let (outcomes, count) := store.outcomes.pruneOperationOutcomes now limit
    ({ store with outcomes }, .pruned count)
  | .intent call =>
    let (intents, answer) := store.intents.run call
    ({ store with intents }, .intent answer)
  | .aborted error => (store, .aborted error)

end OperationStore

/-! ## What a finalized write comes to -/

def Outcomes.Final (outcomes : Outcomes) (operation : String)
    (record : OperationOutcomeRecord) : Prop :=
  outcomes[operation]? = some record ∧ record.state.isTerminal = true

namespace OperationStore

variable {fromMeta : MetaError → E} {store : OperationStore Bytes}
  {record : OperationOutcomeRecord}

theorem runBody_eq_ok {body : WriteBody Bytes E} {clock : Int64} {collectorActive : Bool}
    {staged : OperationStore Bytes}
    (ran : store.runBody fromMeta body clock collectorActive = .ok staged) :
    staged.outcomes = body.calls.foldl WriteBody.checkpoint store.outcomes ∧
      staged.intents = store.intents := by
  obtain ⟨⟨metadata, serial⟩, -, done⟩ := Except.bind_eq_ok.mp ran
  cases done
  exact ⟨rfl, rfl⟩

theorem stampFinalized_of_final {write : FinalizedWrite}
    (final : store.outcomes.Final write.operation record) :
    store.stampFinalized (E := E) write = .error (.raceReplay record) := by
  rw [stampFinalized, final.1]
  simp only [Option.filter_some, final.2, if_true]

def stamped (store : OperationStore Bytes) (write : FinalizedWrite) : OperationStore Bytes :=
  { store with
    outcomes := store.outcomes.insert write.operation (publishedRecord write)
    intents := advanceIntentToAdmitted store.intents write.intentKey write.now }

theorem stampFinalized_of_not_final {write : FinalizedWrite}
    (fresh : ¬ ∃ record, store.outcomes.Final write.operation record) :
    store.stampFinalized (E := E) write = .ok (store.stamped write) := by
  have none : (store.outcomes[write.operation]?.filter fun record => record.state.isTerminal) =
      none := by
    refine Option.filter_eq_none_iff.mpr fun record found terminal => ?_
    exact fresh ⟨record, found, terminal⟩
  rw [stampFinalized, none]
  rfl

theorem commitFinalizedWrite_cases (fromMeta : MetaError → E) (store : OperationStore Bytes)
    (write : FinalizedWrite) (body : WriteBody Bytes E) (clock : Int64) (collectorActive : Bool) :
    (∃ error, store.runBody fromMeta body clock collectorActive = .error error ∧
      store.commitFinalizedWrite fromMeta write body clock collectorActive =
        (store, .error error)) ∨
    ∃ staged, store.runBody fromMeta body clock collectorActive = .ok staged ∧
      ((∃ record, staged.outcomes.Final write.operation record ∧
        store.commitFinalizedWrite fromMeta write body clock collectorActive =
          (store, .ok (.replayed record))) ∨
      (¬ ∃ record, staged.outcomes.Final write.operation record) ∧
        store.commitFinalizedWrite fromMeta write body clock collectorActive =
          (staged.stamped write, .ok .published)) := by
  unfold commitFinalizedWrite
  cases ran : store.runBody fromMeta body clock collectorActive with
  | error error => exact .inl ⟨error, rfl, rfl⟩
  | ok staged =>
    refine .inr ⟨staged, rfl, ?_⟩
    by_cases final : ∃ record, staged.outcomes.Final write.operation record
    · obtain ⟨record, final⟩ := final
      refine .inl ⟨record, final, ?_⟩
      show store.resolveFinalize (staged.stampFinalized write) = _
      rw [stampFinalized_of_final final]
      rfl
    · refine .inr ⟨final, ?_⟩
      show store.resolveFinalize (staged.stampFinalized write) = _
      rw [stampFinalized_of_not_final final]
      rfl

end OperationStore

end Peryx
