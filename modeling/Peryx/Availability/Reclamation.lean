import Peryx.Availability.Placement
import Peryx.Availability.References

/-!
# Reclamation passes

A pass looks for blobs nothing references, writes a tombstone for each
(`select_reclamation_candidate`) and marks tombstones ready once every replica
has caught up (`mark_reclamation_ready`).

What the blob storage lists, the frontiers report and the task's owner cancels
comes in as the input of a step.
-/

namespace Peryx

/-! ## Decisions -/

/-- `peryx_core::ObservedFrontier`. -/
structure ObservedFrontier where
  replica : Option Nat
  backup : Option Nat
deriving DecidableEq

def ObservedFrontier.covers (observed : ObservedFrontier) (required : Nat) : Bool :=
  observed.replica.all (· ≥ required) && observed.backup.all (· ≥ required)

inductive SkipReason where
  | referenced
  | serveable
deriving DecidableEq

inductive ReclamationState where
  | pending
  | ready
  | skipped (reason : SkipReason)
deriving DecidableEq

structure ReclamationTombstone where
  digest : ArtifactDigest
  state : ReclamationState
  requiredFrontier : Nat
  fence : Nat
  attempts : Nat
  selectedAtUnix : Int64
  updatedAtUnix : Int64
deriving DecidableEq

structure ReclamationSnapshot where
  tombstone : Option ReclamationTombstone
  placements : List BlobPlacementRecord
deriving DecidableEq

inductive SelectOutcome where
  | selected (tombstone : ReclamationTombstone)
  | skipped (tombstone : ReclamationTombstone)
  | ineligible (reason : SkipReason)

inductive ReadyOutcome where
  | ready (tombstone : ReclamationTombstone)
  | notReady (tombstone : ReclamationTombstone) (observed : ObservedFrontier)
  | skipped (tombstone : ReclamationTombstone)

def SelectOutcome.replacement : SelectOutcome → Option ReclamationTombstone
  | .selected tombstone | .skipped tombstone => some tombstone
  | .ineligible _ => none

def ReadyOutcome.replacement : ReadyOutcome → ReclamationTombstone
  | .ready tombstone | .notReady tombstone _ | .skipped tombstone => tombstone

inductive ReclamationDecisionError where
  | staleFence (current applied : Nat)
  | missingCandidate
deriving DecidableEq

def ReclamationTombstone.validateFence (tombstone : ReclamationTombstone) (fence : Nat) :
    Except ReclamationDecisionError Unit :=
  if fence < tombstone.fence then .error (.staleFence tombstone.fence fence) else .ok ()

def guardFence (existing : Option ReclamationTombstone) (fence : Nat) :
    Except ReclamationDecisionError Unit :=
  match existing with
  | some tombstone => tombstone.validateFence fence
  | none => .ok ()

def skipReason (snapshot : ReclamationSnapshot) (referenced : Bool) : Option SkipReason :=
  if referenced then some .referenced
  else if snapshot.placements.any (·.state.status = .verified) then some .serveable
  else none

def ReclamationTombstone.advance (prior : ReclamationTombstone) (state : ReclamationState)
    (requiredFrontier fence : Nat) (now : Int64) : ReclamationTombstone where
  digest := prior.digest
  state := state
  requiredFrontier := requiredFrontier
  fence := max prior.fence fence
  attempts := prior.attempts.u64WrappingAdd 1
  selectedAtUnix := prior.selectedAtUnix
  updatedAtUnix := now

def decideReclamationSelection (digest : ArtifactDigest) (snapshot : ReclamationSnapshot)
    (referenced : Bool) (requiredFrontier fence : Nat) (now : Int64) :
    Except ReclamationDecisionError SelectOutcome := do
  guardFence snapshot.tombstone fence
  return match skipReason snapshot referenced, snapshot.tombstone with
  | some reason, some prior =>
    .skipped (prior.advance (.skipped reason) prior.requiredFrontier fence now)
  | some reason, none => .ineligible reason
  | none, some prior =>
    .selected (prior.advance .pending (max prior.requiredFrontier requiredFrontier) fence now)
  | none, none =>
    .selected
      { digest
        state := .pending
        requiredFrontier
        fence
        attempts := 1
        selectedAtUnix := now
        updatedAtUnix := now }

def decideReclamationReadiness (snapshot : ReclamationSnapshot) (referenced : Bool)
    (observed : ObservedFrontier) (fence : Nat) (now : Int64) :
    Except ReclamationDecisionError ReadyOutcome :=
  match snapshot.tombstone with
  | none => .error .missingCandidate
  | some tombstone => do
    guardFence (some tombstone) fence
    return match tombstone.state with
    | .ready => .ready tombstone
    | .skipped _ => .skipped tombstone
    | .pending =>
      match skipReason snapshot referenced with
      | none =>
        if observed.covers tombstone.requiredFrontier then
          .ready (tombstone.advance .ready tombstone.requiredFrontier fence now)
        else
          .notReady (tombstone.advance .pending tombstone.requiredFrontier fence now) observed
      | some reason =>
        .skipped (tombstone.advance (.skipped reason) tombstone.requiredFrontier fence now)

/-! ## Tombstones in the store -/

/-- `RECLAMATION_TOMBSTONE`: each tombstone under its own digest. -/
structure TombstoneTable where
  rows : BTreeMap String ReclamationTombstone
  keyed : ∀ (key : String) (tombstone : ReclamationTombstone), rows[key]? = some tombstone →
    tombstone.digest.canonical = key

namespace TombstoneTable

def empty : TombstoneTable where
  rows := ∅
  keyed key tombstone found := by
    rw [BTreeMap.get_empty] at found
    cases found

instance : Inhabited TombstoneTable := ⟨empty⟩

def insert (table : TombstoneTable) (tombstone : ReclamationTombstone) : TombstoneTable where
  rows := table.rows.insert tombstone.digest.canonical tombstone
  keyed key stored found := by
    obtain ⟨same, rfl⟩ | ⟨-, found⟩ := BTreeMap.of_get_insert found
    · exact same
    · exact table.keyed key stored found

def find (table : TombstoneTable) (digest : ArtifactDigest) : Option ReclamationTombstone :=
  table.rows[digest.canonical]?

theorem find_insert (table : TombstoneTable) (tombstone : ReclamationTombstone)
    (digest : ArtifactDigest) :
    (table.insert tombstone).find digest =
      if tombstone.digest = digest then some tombstone else table.find digest := by
  rw [find, insert, BTreeMap.get_insert, find]
  simp only [ArtifactDigest.canonical_injective.eq_iff]

/-- One page of tombstones in digest order, and the cursor of the next. -/
def scan (table : TombstoneTable) (cursor : Option String) (limit : Nat) :
    List ReclamationTombstone × Option String :=
  let entries := table.rows.rangeAfter cursor
  ((entries.take limit).map (·.2),
    if entries.length > limit then (entries.take limit).getLast?.map (·.1) else none)

end TombstoneTable

inductive TombstoneWrite where
  | written
  | referencesMoved
  | conflict
deriving DecidableEq

/-! ## Passes -/

structure PassCall where
  fence : Nat
  batch : Nat
  now : Int64

/-- `AvailabilityTaskReport`. -/
structure TaskReport where
  processed : Nat := 0
  changed : Nat := 0

/-- Which of its two loops a pass is in: selecting candidates that need this
frontier, or marking them against what was observed. -/
inductive PassTask where
  | select (required : Nat)
  | mark (observed : ObservedFrontier)

structure ProvedReferences where
  revision : Nat
  digests : Finset String

/-- A digest's turn in a loop, with those after it and the cursor they end at. -/
structure PassPage where
  todo : List ArtifactDigest
  nextCursor : Option String

inductive PassPhase (Bytes : Type) where
  | starting
  | proving (task : PassTask)
  | scanning (task : PassTask) (scan : ReferenceScan Bytes)
  | paging (task : PassTask) (proved : ProvedReferences)
  | taking (task : PassTask) (proved : ProvedReferences) (page : PassPage)
  | deciding (task : PassTask) (proved : ProvedReferences) (digest : ArtifactDigest)
      (page : PassPage)
  | writing (task : PassTask) (proved : ProvedReferences) (digest : ArtifactDigest)
      (page : PassPage) (snapshot : ReclamationSnapshot) (replacement : ReclamationTombstone)
      (changes : Bool)
  | observing

structure ReclamationPass (Bytes : Type) where
  call : PassCall
  report : TaskReport := {}
  phase : PassPhase Bytes := .starting

/-- What a loop does with a digest: whether it counts, and what it writes. -/
structure PassDecision where
  changes : Bool
  replacement : Option ReclamationTombstone

/-- The decision of `select_reclamation_candidate` or `mark_reclamation_ready`
over a snapshot. Nothing is written where nothing would change. -/
def PassTask.decide (task : PassTask) (call : PassCall) (digest : ArtifactDigest)
    (referenced : Bool) (snapshot : ReclamationSnapshot) :
    Except ReclamationDecisionError PassDecision :=
  match task with
  | .select required =>
    (decideReclamationSelection digest snapshot referenced required call.fence call.now).map
      fun outcome =>
        { changes := outcome matches .selected _
          replacement := outcome.replacement }
  | .mark observed =>
    (decideReclamationReadiness snapshot referenced observed call.fence call.now).map fun outcome =>
        { changes := outcome matches .ready _
          replacement :=
            if snapshot.tombstone = some outcome.replacement then none
            else some outcome.replacement }

inductive PassInput where
  | proceed
  | scanned (others : Finset String)
  | listed (digests : List ArtifactDigest) (nextCursor : Option String)
  | observed (frontier : Option ObservedFrontier)

/-! ## The system -/

/-- A write to the tombstone of a digest, with the store it was committed in. -/
structure TombstoneUpdate (Bytes : Type) where
  call : PassCall
  task : PassTask
  proved : ProvedReferences
  digest : ArtifactDigest
  snapshot : ReclamationSnapshot
  after : ReclamationTombstone
  store : MetaStore Bytes

def TombstoneUpdate.before {Bytes : Type} (update : TombstoneUpdate Bytes) :
    Option ReclamationTombstone :=
  update.snapshot.tombstone

/-- How a pass ends: with its report, or with the code of the step that failed. -/
inductive PassResult where
  | done (report : TaskReport)
  | failed (code : String) (error : ReclamationDecisionError)

inductive ReclamationEvent (Bytes : Type) where
  | quiet
  | returned (result : PassResult)
  | written (update : TombstoneUpdate Bytes)

structure Reclaiming (Bytes : Type) where
  metadata : MetaStore Bytes
  placing : PlacementWorkers := {}
  tombstones : TombstoneTable
  /-- `RECLAMATION_CURSOR`. -/
  selectionCursor : Option String := none
  finalizeCursor : Option String := none
  passes : BTreeMap Nat (ReclamationPass Bytes) := ∅

namespace Reclaiming

variable {Bytes : Type}

variable (state : Reclaiming Bytes)

def reclamationSnapshot (digest : ArtifactDigest) :
    ReclamationSnapshot :=
  { tombstone := state.tombstones.find digest
    placements := state.placing.table.blobPlacements digest }

/-- Writes a tombstone only if neither the references nor what was decided over
moved. -/
def compareAndPutReclamationTombstone (expected : ReclamationSnapshot)
    (replacement : ReclamationTombstone) (revision : Nat) : TombstoneTable × TombstoneWrite :=
  if state.metadata.referenceRevision ≠ revision then (state.tombstones, .referencesMoved)
  else if state.reclamationSnapshot replacement.digest = expected then
    (state.tombstones.insert replacement, .written)
  else (state.tombstones, .conflict)

def put (id : Nat) (pass : ReclamationPass Bytes) : Reclaiming Bytes :=
  { state with passes := state.passes.insert id pass }

def drop (id : Nat) : Reclaiming Bytes :=
  { state with passes := state.passes.erase id }

/-- `advance_cursor`: a page without a successor wraps back to the first row. -/
def advanceCursor (task : PassTask) (cursor : Option String) :
    Reclaiming Bytes :=
  match task with
  | .select _ => { state with selectionCursor := cursor }
  | .mark _ => { state with finalizeCursor := cursor }

/-- The next digest of a loop. Blobs the inventory holds are passed over, and
counted, while candidates are selected. -/
def take (id : Nat) (pass : ReclamationPass Bytes) (task : PassTask)
    (proved : ProvedReferences) (page : PassPage) : Reclaiming Bytes × ReclamationEvent Bytes :=
  match task, page.todo with
  | .select _, [] =>
    ((state.advanceCursor task page.nextCursor).put id { pass with phase := .observing }, .quiet)
  | .mark _, [] =>
    ((state.advanceCursor task page.nextCursor).drop id, .returned (.done pass.report))
  | .select _, digest :: todo =>
    let report := { pass.report with processed := pass.report.processed + 1 }
    let page := { page with todo }
    if digest.sha256 ∈ proved.digests then
      (state.put id { pass with report, phase := .taking task proved page }, .quiet)
    else
      (state.put id { pass with report, phase := .deciding task proved digest page }, .quiet)
  | .mark _, digest :: todo =>
    (state.put id { pass with phase := .deciding task proved digest { page with todo } }, .quiet)

def countChange (report : TaskReport) (changes : Bool) : TaskReport :=
  if changes then { report with changed := report.changed + 1 } else report

def decide (state : Reclaiming Bytes) (id : Nat) (pass : ReclamationPass Bytes) (task : PassTask)
    (proved : ProvedReferences) (digest : ArtifactDigest) (page : PassPage) :
    Reclaiming Bytes × ReclamationEvent Bytes :=
  let snapshot := state.reclamationSnapshot digest
  match task.decide pass.call digest (digest.sha256 ∈ proved.digests) snapshot with
  | .error error =>
    let code := match task with
      | .select _ => "reclamation_select"
      | .mark _ => "reclamation_mark"
    (state.drop id, .returned (.failed code error))
  | .ok ⟨changes, none⟩ =>
    (state.put id { pass with
      report := countChange pass.report changes
      phase := .taking task proved page }, .quiet)
  | .ok ⟨changes, some replacement⟩ =>
    (state.put id { pass with
      phase := .writing task proved digest page snapshot replacement changes }, .quiet)

def write (id : Nat) (pass : ReclamationPass Bytes) (task : PassTask)
    (proved : ProvedReferences) (digest : ArtifactDigest) (page : PassPage)
    (snapshot : ReclamationSnapshot) (replacement : ReclamationTombstone) (changes : Bool) :
    Reclaiming Bytes × ReclamationEvent Bytes :=
  match state.compareAndPutReclamationTombstone snapshot replacement proved.revision with
  | (tombstones, .written) =>
    ({ state with tombstones }.put id { pass with
        report := countChange pass.report changes
        phase := .taking task proved page },
      .written ⟨pass.call, task, proved, digest, snapshot, replacement, state.metadata⟩)
  | (_, .referencesMoved) => (state.drop id, .returned (.done pass.report))
  | (_, .conflict) =>
    (state.put id { pass with phase := .deciding task proved digest page }, .quiet)

def passStep (inventory : Inventory Bytes) (state : Reclaiming Bytes) (id : Nat)
    (pass : ReclamationPass Bytes) (input : PassInput) :
    Reclaiming Bytes × ReclamationEvent Bytes :=
  match pass.phase, input with
  | .starting, .proceed =>
    if pass.call.fence = 0 then (state.drop id, .returned (.done pass.report))
    else
      let task := PassTask.select state.metadata.currentSerial
      (state.put id { pass with phase := .proving task }, .quiet)
  | .proving task, .proceed =>
    let scan := ReferenceScan.start inventory state.metadata
    (state.put id { pass with phase := .scanning task scan }, .quiet)
  | .scanning task scan, .scanned others =>
    match scan.left with
    | [] => (state, .quiet)
    | part :: left =>
      let scan := scan.read part left state.metadata others
      (state.put id { pass with phase := .scanning task scan }, .quiet)
  | .scanning task scan, .proceed =>
    match scan.left with
    | _ :: _ => (state, .quiet)
    | [] =>
      -- the revision is read again after the scan
      if state.metadata.referenceRevision = scan.revision then
        let proved := { revision := scan.revision, digests := scan.digests }
        (state.put id { pass with phase := .paging task proved }, .quiet)
      else (state.drop id, .returned (.done pass.report))
  | .paging (.select required) proved, .listed digests nextCursor =>
    let page := { todo := digests, nextCursor }
    (state.put id { pass with phase := .taking (.select required) proved page }, .quiet)
  | .paging (.mark observed) proved, .proceed =>
    let (tombstones, nextCursor) := state.tombstones.scan state.finalizeCursor pass.call.batch
    let todo := (tombstones.filter (·.state = .pending)).map (·.digest)
    (state.put id { pass with phase := .taking (.mark observed) proved { todo, nextCursor } },
      .quiet)
  | .taking task proved page, .proceed => state.take id pass task proved page
  | .deciding task proved digest page, .proceed => state.decide id pass task proved digest page
  | .writing task proved digest page snapshot replacement changes, .proceed =>
    state.write id pass task proved digest page snapshot replacement changes
  | .observing, .observed none => (state.drop id, .returned (.done pass.report))
  | .observing, .observed (some observed) =>
    (state.put id { pass with phase := .proving (.mark observed) }, .quiet)
  | _, _ => (state, .quiet)

end Reclaiming

/-- What happens next: a commit of rows, a step of a placement worker, a new
pass, a step of a pass, or the end of one (cancelled, or failed by the store). -/
inductive ReclamationStep (Bytes : Type) where
  | commit (expectedSerial : Option Nat) (ops : List (DriverOp Bytes))
      (journal : PendingJournal Bytes) (now : Int64) (collectorActive : Bool)
  | placement (step : PlacementStep)
  | start (id : Nat) (call : PassCall)
  | pass (id : Nat) (input : PassInput)
  | stop (id : Nat)

/-- A step that nothing is ready for, and a commit that fails, change nothing. -/
def Reclaiming.step {Bytes : Type} (inventory : Inventory Bytes) (state : Reclaiming Bytes) :
    ReclamationStep Bytes → Reclaiming Bytes × ReclamationEvent Bytes
  | .commit expectedSerial ops journal now collectorActive =>
    match state.metadata.commitDriverTxnWithJournal id expectedSerial now collectorActive
      (fun txn => .ok (txn.performAll ops, journal)) with
    | .ok (metadata, _) => ({ state with metadata }, .quiet)
    | .error _ => (state, .quiet)
  | .placement step => ({ state with placing := (state.placing.step step).1 }, .quiet)
  | .start id call =>
    match state.passes[id]? with
    | none => (state.put id { call }, .quiet)
    | some _ => (state, .quiet)
  | .pass id input =>
    match state.passes[id]? with
    | some pass => state.passStep inventory id pass input
    | none => (state, .quiet)
  | .stop id => (state.drop id, .quiet)

end Peryx
