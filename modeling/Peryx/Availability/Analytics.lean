import Peryx.Lib.Absorb
import Peryx.Lib.Codec
import Peryx.Lib.Machine
import Peryx.Ownership.Command

/-!
# Applying replicated analytics

`peryx-ha-distributed/src/analytics.rs`: a receiver folds the batches of many
producers into additive totals, each `(producer, epoch, sequence)` interval
once.
-/

namespace Peryx

abbrev ProducerId := String

structure IntervalId where
  producer : ProducerId
  epoch : AuthorityEpoch
  sequence : Nat
deriving DecidableEq

namespace IntervalId

instance : Ord IntervalId where
  compare := compareLex (compareOn (·.producer))
    (compareLex (compareOn (·.epoch)) (compareOn (·.sequence)))

instance : Std.TransOrd IntervalId :=
  inferInstanceAs (Std.TransCmp (compareLex (compareOn producer)
    (compareLex (compareOn epoch) (compareOn sequence))))

instance : Std.LawfulEqOrd IntervalId where
  eq_of_compare {a b} h := by
    obtain ⟨producer, h⟩ := compareLex_eq_eq.mp h
    obtain ⟨epoch, sequence⟩ := compareLex_eq_eq.mp h
    have producer : a.producer = b.producer := Std.LawfulEqCmp.eq_of_compare producer
    have epoch : a.epoch = b.epoch := Std.LawfulEqCmp.eq_of_compare epoch
    have sequence : a.sequence = b.sequence := Std.LawfulEqCmp.eq_of_compare sequence
    cases a
    cases b
    cases producer
    cases epoch
    cases sequence
    rfl

end IntervalId

structure AggregateKey where
  day : Int64
  repository : String
  resource : String
  group : String
  source : String
deriving DecidableEq

namespace AggregateKey

instance : Ord AggregateKey where
  compare := compareLex (compareOn (·.day)) (compareLex (compareOn (·.repository))
    (compareLex (compareOn (·.resource)) (compareLex (compareOn (·.group)) (compareOn (·.source)))))

instance : Std.TransOrd AggregateKey :=
  inferInstanceAs (Std.TransCmp (compareLex (compareOn day) (compareLex (compareOn repository)
    (compareLex (compareOn resource) (compareLex (compareOn group) (compareOn source))))))

instance : Std.LawfulEqOrd AggregateKey where
  eq_of_compare {a b} h := by
    obtain ⟨day, h⟩ := compareLex_eq_eq.mp h
    obtain ⟨repository, h⟩ := compareLex_eq_eq.mp h
    obtain ⟨resource, h⟩ := compareLex_eq_eq.mp h
    obtain ⟨group, source⟩ := compareLex_eq_eq.mp h
    have day : a.day = b.day := Std.LawfulEqCmp.eq_of_compare day
    have repository : a.repository = b.repository := Std.LawfulEqCmp.eq_of_compare repository
    have resource : a.resource = b.resource := Std.LawfulEqCmp.eq_of_compare resource
    have group : a.group = b.group := Std.LawfulEqCmp.eq_of_compare group
    have source : a.source = b.source := Std.LawfulEqCmp.eq_of_compare source
    cases a
    cases b
    cases day
    cases repository
    cases resource
    cases group
    cases source
    rfl

end AggregateKey

@[ext] structure AggregateDelta where
  downloads : Nat := 0
  bytes : Nat := 0
deriving DecidableEq

def AggregateDelta.saturatingAdd (a b : AggregateDelta) : AggregateDelta where
  downloads := a.downloads.u64SaturatingAdd b.downloads
  bytes := a.bytes.u64SaturatingAdd b.bytes

structure AggregateRow where
  key : AggregateKey
  delta : AggregateDelta
deriving DecidableEq

structure AnalyticsBatch where
  interval : IntervalId
  rows : List AggregateRow
deriving DecidableEq

/-! ## The durable frontier -/

/-- The highest sequence that is durable on every node, by producer and epoch. -/
structure Frontier where
  acknowledged : BTreeMap ProducerId (BTreeMap AuthorityEpoch Nat) := ∅

/-- What an `(producer, epoch)` pair of producers acknowledged. -/
structure FrontierAck where
  producer : ProducerId
  epoch : AuthorityEpoch
  sequence : Nat

namespace Frontier

/-- Keeps the highest sequence, whatever the order of acknowledgements. -/
def acknowledge (frontier : Frontier) (ack : FrontierAck) : Frontier :=
  let epochs := frontier.acknowledged.getD ack.producer ∅
  let slot := epochs.getD ack.epoch 0
  { acknowledged := frontier.acknowledged.insert ack.producer
      (epochs.insert ack.epoch (max slot ack.sequence)) }

def find (frontier : Frontier) (producer : ProducerId) (epoch : AuthorityEpoch) : Option Nat :=
  frontier.acknowledged[producer]?.bind (·[epoch]?)

def covers (frontier : Frontier) (interval : IntervalId) : Bool :=
  (frontier.find interval.producer interval.epoch).any (interval.sequence ≤ ·)

/-- Flat, because JSON has no maps keyed by integers. -/
def acknowledgements (frontier : Frontier) : List FrontierAck :=
  frontier.acknowledged.toList.flatMap fun (producer, epochs) =>
    epochs.toList.map fun (epoch, sequence) => { producer, epoch, sequence }

end Frontier

/-! ## Applying batches -/

structure ApplyLimits where
  maxRowsPerBatch : Nat := 16384
  maxRetainedIntervals : Nat := 65536

inductive ApplyOutcome where
  | applied
  | duplicate
deriving DecidableEq

inductive ApplyError where
  | batchTooLarge (limit actual : Nat)
  | retentionFull (limit : Nat)
deriving DecidableEq

inductive SnapshotError where
  | malformed
  | unsupportedSchema (expected found : Nat)
deriving DecidableEq

/-- Totals are kept apart by producer. -/
structure AcceptedKey where
  producer : ProducerId
  dimension : AggregateKey
deriving DecidableEq

namespace AcceptedKey

instance : Ord AcceptedKey where
  compare := compareLex (compareOn (·.producer)) (compareOn (·.dimension))

instance : Std.TransOrd AcceptedKey :=
  inferInstanceAs (Std.TransCmp (compareLex (compareOn producer) (compareOn dimension)))

instance : Std.LawfulEqOrd AcceptedKey where
  eq_of_compare {a b} h := by
    obtain ⟨producer, dimension⟩ := compareLex_eq_eq.mp h
    have producer : a.producer = b.producer := Std.LawfulEqCmp.eq_of_compare producer
    have dimension : a.dimension = b.dimension := Std.LawfulEqCmp.eq_of_compare dimension
    cases a
    cases b
    cases producer
    cases dimension
    rfl

end AcceptedKey

def applyStateSchema : Nat := 2

structure AcceptedSnapshotRow where
  producer : ProducerId
  key : AggregateKey
  delta : AggregateDelta

structure ApplyStateSnapshot where
  schema : Nat
  totals : List AcceptedSnapshotRow
  applied : List IntervalId

structure ApplyState where
  totals : BTreeMap AcceptedKey AggregateDelta
  applied : Std.ExtTreeSet IntervalId compare
  limits : ApplyLimits

def AnalyticsBatch.entries (batch : AnalyticsBatch) : List (AcceptedKey × AggregateDelta) :=
  batch.rows.map fun row => (⟨batch.interval.producer, row.key⟩, row.delta)

/-- A row's delta joins its total, zero if there is none yet. -/
def addDelta (total : Option AggregateDelta) (delta : AggregateDelta) : AggregateDelta :=
  (total.getD {}).saturatingAdd delta

namespace ApplyState

def new (limits : ApplyLimits) : ApplyState where
  totals := ∅
  applied := ∅
  limits := limits

def apply (state : ApplyState) (batch : AnalyticsBatch) :
    Except ApplyError (ApplyState × ApplyOutcome) :=
  if batch.rows.length > state.limits.maxRowsPerBatch then
    .error (.batchTooLarge state.limits.maxRowsPerBatch batch.rows.length)
  else if batch.interval ∈ state.applied then
    .ok (state, .duplicate)
  else if state.applied.size ≥ state.limits.maxRetainedIntervals then
    .error (.retentionFull state.limits.maxRetainedIntervals)
  else
    .ok ({ state with
      totals := batch.entries.foldl (absorb addDelta) state.totals
      applied := state.applied.insert batch.interval }, .applied)

def total (state : ApplyState) (key : AggregateKey) : AggregateDelta :=
  (state.totals.toList.filter (·.1.dimension = key)).foldl
    (fun sum (_, delta) => sum.saturatingAdd delta) {}

/-- Drops covered replay keys, and no totals. -/
def compact (state : ApplyState) (frontier : Frontier) : ApplyState :=
  { state with applied := state.applied.filter fun interval => !frontier.covers interval }

end ApplyState

/-! ## The receiver -/

structure AnalyticsReceiver where
  state : ApplyState
  cursors : BTreeMap ProducerId Int64
  accepted : BTreeMap ProducerId (AuthorityEpoch × Nat)
  frontier : Frontier

structure ReceiverSnapshot (Bytes : Type) where
  schema : Nat
  state : Bytes
  cursors : List (ProducerId × Int64)
  accepted : List FrontierAck
  frontier : List FrontierAck

/-- What snapshots trust `serde_json` for. -/
structure AnalyticsJson (Bytes : Type) where
  state : Codec ApplyStateSnapshot Bytes
  receiver : Codec (ReceiverSnapshot Bytes) Bytes

section Snapshots

variable {Bytes : Type} (json : AnalyticsJson Bytes)

def ApplyState.encode (state : ApplyState) : Bytes :=
  json.state.encode
    { schema := applyStateSchema
      totals := state.totals.toList.map fun (key, delta) =>
        { producer := key.producer, key := key.dimension, delta }
      applied := state.applied.toList }

def ApplyState.restore (bytes : Bytes) (limits : ApplyLimits) :
    Except SnapshotError ApplyState :=
  match json.state.decode bytes with
  | none => .error .malformed
  | some snapshot =>
    if snapshot.schema ≠ applyStateSchema then
      .error (.unsupportedSchema applyStateSchema snapshot.schema)
    else
      .ok
        { totals := (snapshot.totals.map fun row =>
            ((⟨row.producer, row.key⟩ : AcceptedKey), row.delta)).foldl
              (fun totals row => totals.insert row.1 row.2) ∅
          applied := snapshot.applied.foldl (·.insert ·) ∅
          limits }

namespace AnalyticsReceiver

def encode (receiver : AnalyticsReceiver) : Bytes :=
  json.receiver.encode
    { schema := applyStateSchema
      state := receiver.state.encode json
      cursors := receiver.cursors.toList
      accepted := receiver.accepted.toList.map fun (producer, epoch, sequence) =>
        { producer, epoch, sequence }
      frontier := receiver.frontier.acknowledgements }

def restore (bytes : Bytes) (limits : ApplyLimits) : Except SnapshotError AnalyticsReceiver :=
  match json.receiver.decode bytes with
  | none => .error .malformed
  | some snapshot =>
    if snapshot.schema ≠ applyStateSchema then
      .error (.unsupportedSchema applyStateSchema snapshot.schema)
    else
      (ApplyState.restore json snapshot.state limits).map fun state =>
        { state
          cursors := snapshot.cursors.foldl (fun cursors row => cursors.insert row.1 row.2) ∅
          accepted := (snapshot.accepted.map fun ack =>
            (ack.producer, ack.epoch, ack.sequence)).foldl
              (fun accepted row => accepted.insert row.1 row.2) ∅
          frontier := snapshot.frontier.foldl Frontier.acknowledge {} }

end AnalyticsReceiver

end Snapshots

/-- `i64::try_from(sequence).unwrap_or(i64::MAX)`. -/
def IntervalId.day (interval : IntervalId) : Int64 :=
  .ofIntClamp interval.sequence

/-- A day joins a cursor, which stands before every day at first. -/
def advanceCursor (cursor : Option Int64) (day : Int64) : Int64 :=
  max (cursor.getD (-1)) day

/-- By epoch, then by sequence. -/
def maxPosition (a b : AuthorityEpoch × Nat) : AuthorityEpoch × Nat :=
  if a.1 < b.1 ∨ a.1 = b.1 ∧ a.2 ≤ b.2 then b else a

def advancePosition (accepted : Option (AuthorityEpoch × Nat))
    (position : AuthorityEpoch × Nat) : AuthorityEpoch × Nat :=
  maxPosition (accepted.getD position) position

namespace AnalyticsReceiver

def new (limits : ApplyLimits) : AnalyticsReceiver where
  state := .new limits
  cursors := ∅
  accepted := ∅
  frontier := {}

/-- A new interval advances cursor and position; a duplicate changes nothing. -/
def apply (receiver : AnalyticsReceiver) (batch : AnalyticsBatch) :
    Except ApplyError (AnalyticsReceiver × ApplyOutcome) :=
  match receiver.state.apply batch with
  | .error error => .error error
  | .ok (state, .duplicate) => .ok ({ receiver with state }, .duplicate)
  | .ok (state, .applied) =>
    let { producer, epoch, sequence } := batch.interval
    .ok ({ receiver with
      state
      cursors := absorb advanceCursor receiver.cursors (producer, batch.interval.day)
      accepted := absorb advancePosition receiver.accepted (producer, epoch, sequence) },
      .applied)

def acknowledge (receiver : AnalyticsReceiver) (ack : FrontierAck) : AnalyticsReceiver :=
  { receiver with frontier := receiver.frontier.acknowledge ack }

def compact (receiver : AnalyticsReceiver) : AnalyticsReceiver :=
  { receiver with state := receiver.state.compact receiver.frontier }

end AnalyticsReceiver

/-! ## Runs -/

/-- What reaches a receiver; `reload` is an encode and a restore of it. -/
inductive ReceiverStep where
  | deliver (batch : AnalyticsBatch)
  | acknowledge (ack : FrontierAck)
  | compact
  | reload

inductive ReceiverEvent where
  | quiet
  | delivered (outcome : ApplyOutcome)
  | refused (error : ApplyError)
  | unreadable (error : SnapshotError)
deriving DecidableEq

def AnalyticsReceiver.step {Bytes : Type} (json : AnalyticsJson Bytes)
    (receiver : AnalyticsReceiver) : ReceiverStep → AnalyticsReceiver × ReceiverEvent
  | .deliver batch =>
    match receiver.apply batch with
    | .ok (receiver, outcome) => (receiver, .delivered outcome)
    | .error error => (receiver, .refused error)
  | .acknowledge ack => (receiver.acknowledge ack, .quiet)
  | .compact => (receiver.compact, .quiet)
  | .reload =>
    match restore json (receiver.encode json) receiver.state.limits with
    | .ok receiver => (receiver, .quiet)
    | .error error => (receiver, .unreadable error)

end Peryx
