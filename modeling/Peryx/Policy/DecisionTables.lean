import Peryx.Lib.BTreeMap
import Peryx.Lib.Codec
import Peryx.Lib.Digits
import Peryx.Lib.Machine

/-!
# The tables of policy decisions

`meta/policy_decision.rs`: every decision is numbered and appended to a bounded
history. Two tables hold the current decision of each subject: its id under the
subject, and its record under the id.

A subject's key is made by `serde_json`, a `Codec`. A serial that does not fit
64 bits panics, and the transaction is abandoned.
-/

namespace Peryx

inductive PolicyAction where
  | upload
  | cached
  | serve
deriving DecidableEq

inductive PolicyDecisionState where
  | allow
  | deny
  | wait
deriving DecidableEq

def maxQueryLimit : Nat := 100

def maxReasonBytes : Nat := 2048

def maxSubjectBytes : Nat := 512

/-- The `Uuid` of a decision. -/
abbrev DecisionId := Nat

/-- The three inputs a policy result depends on, each counted within one
repository. -/
structure PolicyInputGeneration where
  repository : Nat := 0
  catalog : Nat := 0
  policy : Nat := 0
deriving DecidableEq

structure PolicyDecisionSubject where
  repository : String
  resource : String
  group : Option String
  artifact : Option String
  source : Option String
  action : PolicyAction
deriving DecidableEq

structure NewPolicyDecision extends PolicyDecisionSubject where
  state : PolicyDecisionState
  rule : Option String
  reason : Option String
  evaluatedAtUnix : Int
  nextEligibleAtUnix : Option Int
deriving DecidableEq

structure PolicyDecisionRecord extends NewPolicyDecision where
  id : DecisionId
  inputGeneration : PolicyInputGeneration
deriving DecidableEq

inductive PolicyDecisionStoreError where
  | fieldTooLong (field : String) (max : Nat)
  /-- A panic: the next serial does not fit. -/
  | serialOverflow
  /-- A panic: a current pointer has no matching record. -/
  | missingRecord
deriving DecidableEq

/-! ## Checks -/

def DecisionTables.validateField (field : String) (value : String) :
    Except PolicyDecisionStoreError Unit :=
  if maxSubjectBytes < value.utf8ByteSize then .error (.fieldTooLong field maxSubjectBytes)
  else .ok ()

def validateSubject (decision : PolicyDecisionSubject) : Except PolicyDecisionStoreError Unit :=
  [("repository", some decision.repository), ("resource", some decision.resource),
    ("group", decision.group), ("artifact", decision.artifact),
    ("source", decision.source)].forM fun (field, value) =>
      match value with
      | some value => DecisionTables.validateField field value
      | none => .ok ()

def validateDecision (decision : NewPolicyDecision) : Except PolicyDecisionStoreError Unit := do
  validateSubject decision.toPolicyDecisionSubject
  if decision.rule.any (maxSubjectBytes < ·.utf8ByteSize) then
    throw (.fieldTooLong "rule" maxSubjectBytes)
  if decision.reason.any (maxReasonBytes < ·.utf8ByteSize) then
    throw (.fieldTooLong "reason" maxReasonBytes)

/-! ## Tables -/

structure DecisionTables where
  /-- The row of the serial table under `policy_decision`. -/
  serial : Option Nat := none
  history : BTreeMap String PolicyDecisionRecord := ∅
  current : BTreeMap String String := ∅
  currentRecords : BTreeMap String PolicyDecisionRecord := ∅
  generations : BTreeMap String PolicyInputGeneration := ∅

/-- `pd_{serial:016x}`. -/
def historyId (serial : Nat) : String :=
  "pd_" ++ String.ofList (digits 16 16 serial)

namespace DecisionTables

def policyInputGeneration (tables : DecisionTables) (repository : String) : PolicyInputGeneration :=
  tables.generations[repository]?.getD {}

def advancePolicyGeneration (repository : String) (tables : DecisionTables) : DecisionTables :=
  let generation := tables.policyInputGeneration repository
  { tables with
    generations := tables.generations.insert repository
      { generation with policy := generation.policy + 1 } }

def advanceRepositoryGeneration (repository : String) (tables : DecisionTables) : DecisionTables :=
  let generation := tables.policyInputGeneration repository
  { tables with
    generations := tables.generations.insert repository
      { generation with repository := generation.repository + 1 } }

def advanceRepositoryGenerations (repositories : List String) (tables : DecisionTables) :
    DecisionTables :=
  repositories.foldl (fun tables repository => tables.advanceRepositoryGeneration repository) tables

/-- Drops the oldest rows once the history is longer than the limit: those below
the first one kept, or all. -/
def pruneHistory (limit : Nat) (tables : DecisionTables) : DecisionTables :=
  let excess := tables.history.size - limit
  if excess = 0 then tables
  else
    match tables.history.toList[excess]? with
    | some (firstKept, _) =>
      { tables with history := tables.history.filter fun id _ => compare id firstKept ≠ .lt }
    | none => { tables with history := ∅ }

section

variable (json : Codec PolicyDecisionSubject String)

def recordIn (id : DecisionId) (decision : NewPolicyDecision) (tables : DecisionTables) :
    Except PolicyDecisionStoreError (PolicyDecisionRecord × DecisionTables) :=
  let next := tables.serial.getD 0 + 1
  if next < 2 ^ 64 then
    let historyId := historyId next
    let inputGeneration := tables.policyInputGeneration decision.repository
    let record : PolicyDecisionRecord := { decision with id, inputGeneration }
    let subject := json.encode decision.toPolicyDecisionSubject
    let previous := tables.current[subject]?
    let currentRecords :=
      match previous with
      | some previous => tables.currentRecords.erase previous
      | none => tables.currentRecords
    .ok (record,
      { tables with
        serial := some next
        history := tables.history.insert historyId record
        current := tables.current.insert subject historyId
        currentRecords := currentRecords.insert historyId record })
  else .error .serialOverflow

def recordPruned (limit : Nat) (id : DecisionId) (decision : NewPolicyDecision)
    (tables : DecisionTables) :
    Except PolicyDecisionStoreError (PolicyDecisionRecord × DecisionTables) := do
  let (record, tables) ← tables.recordIn json id decision
  return (record, tables.pruneHistory limit)

def recordPolicyDecision (limit : Nat) (id : DecisionId) (decision : NewPolicyDecision)
    (tables : DecisionTables) :
    Except PolicyDecisionStoreError (PolicyDecisionRecord × DecisionTables) := do
  validateDecision decision
  tables.recordPruned json limit id decision

/-! ## Batches -/

/-- A queued decision, with the input generation it was made under. -/
structure OwnedDecision where
  id : DecisionId
  decision : NewPolicyDecision
  inputGeneration : PolicyInputGeneration

/-- The tables of an open transaction, with the serial of the last decision
written. -/
structure BatchWriter where
  tables : DecisionTables
  serial : Nat

def BatchWriter.new (tables : DecisionTables) : BatchWriter :=
  ⟨tables, tables.serial.getD 0⟩

def BatchWriter.record (writer : BatchWriter) (queued : OwnedDecision) :
    Except PolicyDecisionStoreError (PolicyDecisionRecord × BatchWriter) :=
  let serial := writer.serial + 1
  if serial < 2 ^ 64 then
    let historyId := historyId serial
    let record : PolicyDecisionRecord :=
      { queued.decision with id := queued.id, inputGeneration := queued.inputGeneration }
    let subject := json.encode queued.decision.toPolicyDecisionSubject
    let previous := writer.tables.current[subject]?
    let currentRecords :=
      match previous with
      | some previous => writer.tables.currentRecords.erase previous
      | none => writer.tables.currentRecords
    .ok (record,
      { tables :=
          { writer.tables with
            history := writer.tables.history.insert historyId record
            current := writer.tables.current.insert subject historyId
            currentRecords := currentRecords.insert historyId record }
        serial })
  else .error .serialOverflow

def BatchWriter.finish (writer : BatchWriter) : DecisionTables :=
  { writer.tables with serial := some writer.serial }

def BatchWriter.recordAll (writer : BatchWriter) : List OwnedDecision →
    Except PolicyDecisionStoreError (List PolicyDecisionRecord × BatchWriter)
  | [] => .ok ([], writer)
  | queued :: rest => do
    let (record, writer) ← writer.record json queued
    let (records, writer) ← writer.recordAll rest
    return (record :: records, writer)

def writeBatch (limit : Nat) (queued : List OwnedDecision) (tables : DecisionTables) :
    Except PolicyDecisionStoreError (List PolicyDecisionRecord × DecisionTables) := do
  let (records, writer) ← (BatchWriter.new tables).recordAll json queued
  return (records, writer.finish.pruneHistory limit)

def recordEach (limit : Nat) : List OwnedDecision → DecisionTables →
    Except PolicyDecisionStoreError (List PolicyDecisionRecord × DecisionTables)
  | [], tables => .ok ([], tables)
  | queued :: rest, tables => do
    let (record, tables) ← tables.recordPruned json limit queued.id queued.decision
    let (records, tables) ← recordEach limit rest tables
    return (record :: records, tables)

/-! ## Reads -/

def currentPolicyDecision (subject : PolicyDecisionSubject) (tables : DecisionTables) :
    Except PolicyDecisionStoreError (Option PolicyDecisionRecord) := do
  validateSubject subject
  match tables.current[json.encode subject]? with
  | none => return none
  | some id =>
    match tables.currentRecords[id]? with
    | none => throw .missingRecord
    | some record =>
      if record.inputGeneration = tables.policyInputGeneration record.repository then
        return some record
      else return none

end

end DecisionTables

structure PolicyDecisionItem where
  record : PolicyDecisionRecord
  fresh : Bool
deriving DecidableEq

structure PolicyDecisionQuery where
  repository : Option String := none
  resource : Option String := none
  state : Option PolicyDecisionState := none
  rule : Option String := none
  source : Option String := none
  evaluatedFromUnix : Option Int := none
  evaluatedToUnix : Option Int := none
  cursor : Option String := none
  limit : Nat := 25

inductive PolicyDecisionQueryError where
  | invalidLimit
  | invalidCursor
  | filterTooLong (field : String) (max : Nat)
deriving DecidableEq

def isAsciiHexdigit (c : Char) : Bool :=
  c.isDigit || ('a' ≤ c && c ≤ 'f') || ('A' ≤ c && c ≤ 'F')

def validCursor (cursor : String) : Bool :=
  cursor.utf8ByteSize = 19 && "pd_".toList.isPrefixOf cursor.toList &&
    (cursor.toList.drop 3).all isAsciiHexdigit

namespace PolicyDecisionQuery

def filterError (field : String) (value : Option String) : Except PolicyDecisionQueryError Unit :=
  if value.any (maxSubjectBytes < ·.utf8ByteSize) then .error (.filterTooLong field maxSubjectBytes)
  else .ok ()

def validate (query : PolicyDecisionQuery) : Except PolicyDecisionQueryError Unit := do
  if ¬ (1 ≤ query.limit ∧ query.limit ≤ maxQueryLimit) then throw .invalidLimit
  if query.cursor.any (! validCursor ·) then throw .invalidCursor
  filterError "repository" query.repository
  filterError "resource" query.resource
  filterError "rule" query.rule
  filterError "source" query.source

end PolicyDecisionQuery

def matchesQuery (record : PolicyDecisionRecord) (query : PolicyDecisionQuery) : Bool :=
  query.repository.all (record.repository = ·) &&
  query.resource.all (record.resource = ·) &&
  query.state.all (record.state = ·) &&
  query.rule.all (record.rule = some ·) &&
  query.source.all (record.source = some ·) &&
  query.evaluatedFromUnix.all (· ≤ record.evaluatedAtUnix) &&
  query.evaluatedToUnix.all (record.evaluatedAtUnix ≤ ·)

namespace DecisionTables

def item (tables : DecisionTables) (record : PolicyDecisionRecord) : PolicyDecisionItem :=
  ⟨record, record.inputGeneration = tables.policyInputGeneration record.repository⟩

/-- Decision history newest first after an exclusive cursor: up to one decision
more than the limit is read, to know whether there are more. -/
def queryPolicyDecisions (query : PolicyDecisionQuery) (tables : DecisionTables) :
    Except PolicyDecisionQueryError (List PolicyDecisionItem × Option String) := do
  query.validate
  let found := (tables.history.toList.reverse.filter fun (id, record) =>
    query.cursor.all (id < ·) && matchesQuery record query).take (query.limit + 1)
  let cursors := found.map Prod.fst
  let nextCursor := if query.limit < found.length then cursors[query.limit - 1]? else none
  return ((found.map fun row => tables.item row.2).take query.limit, nextCursor)

end DecisionTables

/-! ## Transactions -/

inductive DecisionStep where
  | record (id : DecisionId) (decision : NewPolicyDecision)
  | batch (queued : List DecisionTables.OwnedDecision)
  | prune
  | advancePolicy (repository : String)
  | advanceRepositories (repositories : List String)

namespace DecisionTables

/-- A transaction that is kept where it succeeds, answered with what it recorded. -/
def commit {α : Type} (tables : DecisionTables)
    (result : Except PolicyDecisionStoreError (α × DecisionTables)) :
    DecisionTables × Except PolicyDecisionStoreError α :=
  match result with
  | .ok (answer, tables') => (tables', .ok answer)
  | .error error => (tables, .error error)

def step (json : Codec PolicyDecisionSubject String) (limit : Nat) (tables : DecisionTables) :
    DecisionStep → DecisionTables × Except PolicyDecisionStoreError (List PolicyDecisionRecord)
  | .record id decision =>
    tables.commit ((tables.recordPolicyDecision json limit id decision).map fun (record, tables) =>
      ([record], tables))
  | .batch queued => tables.commit (tables.writeBatch json limit queued)
  | .prune => (tables.pruneHistory limit, .ok [])
  | .advancePolicy repository => (tables.advancePolicyGeneration repository, .ok [])
  | .advanceRepositories repositories => (tables.advanceRepositoryGenerations repositories, .ok [])

end DecisionTables

end Peryx
