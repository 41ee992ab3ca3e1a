import Peryx.Lib.BTreeMap
import Peryx.Lib.Saturating

/-!
# Ingress intents

`meta/ingress_intent.rs`: write intents that survive a restart of the ingress
and deduplicate retries by key and content.

Counters and sequence numbers are `u64`: an unchecked `+` on them wraps.
-/

namespace Peryx

/-! ## Records -/

/-- Declaration order enforces forward-only lifecycle transitions. -/
inductive IntentPhase where
  | pending
  | admitted
  | expired
deriving DecidableEq, Repr, Ord

instance : LT IntentPhase := ltOfOrd

instance : LE IntentPhase := leOfOrd

structure StagedIntent where
  phase : IntentPhase
  authority : String
  seq : Nat
  digest : String
  size : Nat
  payload : List UInt8
  refusals : Nat
  updatedAtUnix : Int64
deriving DecidableEq

@[ext] structure IntentUsage where
  records : Nat := 0
  bytes : Nat := 0
deriving DecidableEq

structure IntentLimits where
  maxRecords : Nat
  maxBytes : Nat
  backpressurePercent : Nat
deriving DecidableEq

def IntentLimits.softRecords (limits : IntentLimits) : Nat :=
  limits.maxRecords.u64SaturatingMul limits.backpressurePercent / 100

def IntentLimits.softBytes (limits : IntentLimits) : Nat :=
  limits.maxBytes.u64SaturatingMul limits.backpressurePercent / 100

def IntentLimits.isBackpressured (limits : IntentLimits) (usage : IntentUsage) : Bool :=
  usage.records ≥ limits.softRecords || usage.bytes ≥ limits.softBytes

inductive BackpressureState where
  | nominal
  | backpressured
deriving DecidableEq

structure IntentAdmission where
  authority : String
  key : String
  digest : String
  size : Nat
  payload : List UInt8
deriving DecidableEq

inductive IntentStageOutcome where
  | admitted
  | duplicate
  | conflict
  | rejectedOverRecordLimit
  | rejectedOverByteLimit
deriving DecidableEq

structure IntentStageResult where
  outcome : IntentStageOutcome
  pressure : BackpressureState
deriving DecidableEq

inductive IntentTransition where
  | advanced
  | ignored
deriving DecidableEq

inductive IntentUpdate where
  | applied
  | ignored
deriving DecidableEq

/-- `authority` and `maxRefusals` both narrow the walk before `limit` counts a
row. -/
structure PendingIntents where
  authority : Option String
  afterSeq : Option Nat
  limit : Nat
  maxRefusals : Nat

def u32Max : Nat := 2 ^ 32 - 1

/-- `INGRESS_INTENT`, `INGRESS_INTENT_COUNT`, `INGRESS_INTENT_ORDER` and the
next sequence number. -/
structure IntentTables where
  intents : BTreeMap String StagedIntent := ∅
  counts : BTreeMap String IntentUsage := ∅
  order : BTreeMap Nat String := ∅
  seq : Nat := 0

namespace IntentTables

/-! ## Staging -/

variable (tables : IntentTables)

def readUsage (authority : String) : IntentUsage :=
  tables.counts.getD authority {}

def charged (usage : IntentUsage) (size : Nat) : IntentUsage where
  records := usage.records.u64WrappingAdd 1
  bytes := usage.bytes.u64WrappingAdd size

def stageOutcome (admission : IntentAdmission) (limits : IntentLimits) :
    IntentStageOutcome :=
  let usage := tables.readUsage admission.authority
  match tables.intents[admission.key]? with
  | some record =>
    if record.digest = admission.digest ∧ record.size = admission.size then .duplicate
    else .conflict
  | none =>
    if usage.records.u64WrappingAdd 1 > limits.maxRecords then .rejectedOverRecordLimit
    else if usage.bytes.u64SaturatingAdd admission.size > limits.maxBytes then
      .rejectedOverByteLimit
    else .admitted

def admittedRecord (admission : IntentAdmission) (now : Int64) :
    StagedIntent where
  phase := .pending
  authority := admission.authority
  seq := tables.seq
  digest := admission.digest
  size := admission.size
  payload := admission.payload
  refusals := 0
  updatedAtUnix := now

def admitIntent (admission : IntentAdmission) (now : Int64) : IntentTables where
  intents := tables.intents.insert admission.key (tables.admittedRecord admission now)
  counts := tables.counts.insert admission.authority
    (charged (tables.readUsage admission.authority) admission.size)
  order := tables.order.insert tables.seq admission.key
  seq := tables.seq.u64WrappingAdd 1

def stageIntent (admission : IntentAdmission) (limits : IntentLimits)
    (now : Int64) : IntentTables × IntentStageResult :=
  let usage := tables.readUsage admission.authority
  let outcome := tables.stageOutcome admission limits
  let settled := if outcome = .admitted then charged usage admission.size else usage
  let pressure := if limits.isBackpressured settled then .backpressured else .nominal
  (if outcome = .admitted then tables.admitIntent admission now else tables, { outcome, pressure })

/-! ## Settling and removing -/

def settledRecord (record : StagedIntent) (phase : IntentPhase) (now : Int64) : StagedIntent :=
  { record with phase, updatedAtUnix := now }

/-- Every transition drops the order entry with the phase. -/
def settleIntent (intentKey : String) (record : StagedIntent)
    (phase : IntentPhase) (now : Int64) : IntentTables :=
  { tables with
    intents := tables.intents.insert intentKey (settledRecord record phase now)
    order := tables.order.erase record.seq }

/-- Drops the counter row once nothing of the authority remains. -/
def refundCapacity (counts : BTreeMap String IntentUsage) (record : StagedIntent) :
    BTreeMap String IntentUsage :=
  let usage := counts.getD record.authority {}
  let remaining : IntentUsage :=
    { records := usage.records - 1, bytes := usage.bytes - record.size }
  if remaining.records = 0 then counts.erase record.authority
  else counts.insert record.authority remaining

def advanceIntent (intentKey : String) (phase : IntentPhase)
    (now : Int64) : IntentTables × IntentTransition :=
  match tables.intents[intentKey]? with
  | some record =>
    if record.phase < phase then (tables.settleIntent intentKey record phase now, .advanced)
    else (tables, .ignored)
  | none => (tables, .ignored)

/-- Leaves `updatedAtUnix` as it is, so a refused intent keeps ageing. -/
def refuseIntent (intentKey : String) : IntentTables × IntentUpdate :=
  match tables.intents[intentKey]? with
  | some record =>
    if record.phase = .pending then
      let record := { record with refusals := min (record.refusals + 1) u32Max }
      ({ tables with intents := tables.intents.insert intentKey record }, .applied)
    else (tables, .ignored)
  | none => (tables, .ignored)

def releaseIntent (intentKey : String) : IntentTables × IntentUpdate :=
  match tables.intents[intentKey]? with
  | some record =>
    if record.phase = .pending then
      ({ tables with
        intents := tables.intents.erase intentKey
        counts := refundCapacity tables.counts record
        order := tables.order.erase record.seq }, .applied)
    else (tables, .ignored)
  | none => (tables, .ignored)

def stale (now deadlineSecs : Int64) (minRefusals limit : Nat) :
    List (String × StagedIntent) :=
  (tables.intents.toList.filter fun (_, record) =>
    record.phase = .pending ∧ record.refusals ≥ minRefusals ∧
      now ≥ record.updatedAtUnix + deadlineSecs).take limit

def expireStaleIntents (now deadlineSecs : Int64)
    (minRefusals limit : Nat) : IntentTables × Nat :=
  let stale := tables.stale now deadlineSecs minRefusals limit
  (stale.foldl (fun tables (key, record) => tables.settleIntent key record .expired now) tables,
    stale.length)

def doomed (now retentionSecs : Int64) (limit : Nat) :
    List (String × StagedIntent) :=
  (tables.intents.toList.filter fun (_, record) =>
    (record.phase = .admitted ∨ record.phase = .expired) ∧
      now ≥ record.updatedAtUnix + retentionSecs).take limit

/-- A settled intent left the order index when it settled. -/
def prune : String × StagedIntent → IntentTables
  | (key, record) =>
    { tables with
      intents := tables.intents.erase key
      counts := refundCapacity tables.counts record }

def pruneIngressIntents (now retentionSecs : Int64) (limit : Nat) :
    IntentTables × Nat :=
  let doomed := tables.doomed now retentionSecs limit
  (doomed.foldl prune tables, doomed.length)

/-! ## Listing -/

def listed (query : PendingIntents) : Nat × String →
    Option (String × StagedIntent)
  | (_, key) =>
    match tables.intents[key]? with
    | none => none
    | some record =>
      if record.refusals < query.maxRefusals ∧ query.authority.all (· == record.authority) then
        some (key, record)
      else none

def collectPending (query : PendingIntents) :
    List (String × StagedIntent) :=
  ((tables.order.rangeAfter query.afterSeq).filterMap (tables.listed query)).take query.limit

def listPendingIntentsFor (authority : String) (afterSeq : Option Nat)
    (limit : Nat) : List (String × StagedIntent) :=
  tables.collectPending { authority := some authority, afterSeq, limit, maxRefusals := u32Max }

end IntentTables

/-! ## Calls -/

inductive IntentCall where
  | stage (admission : IntentAdmission) (limits : IntentLimits) (now : Int64)
  | advance (intentKey : String) (phase : IntentPhase) (now : Int64)
  | refuse (intentKey : String)
  | release (intentKey : String)
  | expire (now deadlineSecs : Int64) (minRefusals limit : Nat)
  | prune (now retentionSecs : Int64) (limit : Nat)
deriving DecidableEq

inductive IntentAnswer where
  | staged (result : IntentStageResult)
  | transition (outcome : IntentTransition)
  | updated (outcome : IntentUpdate)
  | count (rows : Nat)
deriving DecidableEq

def IntentTables.run (tables : IntentTables) : IntentCall → IntentTables × IntentAnswer
  | .stage admission limits now => (tables.stageIntent admission limits now).map id .staged
  | .advance intentKey phase now => (tables.advanceIntent intentKey phase now).map id .transition
  | .refuse intentKey => (tables.refuseIntent intentKey).map id .updated
  | .release intentKey => (tables.releaseIntent intentKey).map id .updated
  | .expire now deadlineSecs minRefusals limit =>
    (tables.expireStaleIntents now deadlineSecs minRefusals limit).map id .count
  | .prune now retentionSecs limit =>
    (tables.pruneIngressIntents now retentionSecs limit).map id .count

end Peryx
