import Peryx.Lib.Machine
import Peryx.Storage.CanonicalRoundTrip

/-!
# Publishing checkpoints and pruning the journal

`publish_checkpoint_with_sizes` of `meta/checkpoint.rs`, `prune_journal_batch`
of `meta/journal.rs` and the pin a transfer holds (`meta/checkpoint_transfer.rs`):
a publication folds only the records its predecessor does not cover, raises the
retained floor, and pruning removes what lies below it.

- `PrimaryHistory.keeps_after`: what a primary keeps to along a run.
- `published_state_is_the_whole_fold`: a checkpoint holds the fold of all records.
-/

namespace Peryx

open List Peryx.Except

variable {Bytes : Type} {store' : MetaStore Bytes}

/-! ## The published tables -/

/-- The three state tables and the manifest. Blobs are keyed by digest: of two
sizes of one digest the larger, written last, stays. -/
def CheckpointTables.ofState (state : CheckpointState Bytes) (manifest : CheckpointManifest) :
    CheckpointTables Bytes where
  rows := state.rows
  revocations := state.revocations
  blobs := state.blobs.toList.foldl (fun blobs blob => blobs.insert blob.sha256 blob.size) ∅
  manifest := some manifest

def CheckpointTables.state (tables : CheckpointTables Bytes) : CheckpointState Bytes where
  rows := tables.rows
  revocations := tables.revocations
  blobs := tables.blobs.toList.foldl (fun blobs (sha256, size) => blobs.insert ⟨sha256, size⟩) ∅

structure Checkpoint (Bytes : Type) where
  manifest : CheckpointManifest
  state : CheckpointState Bytes

def pinLeaseSecs : Int64 := 30

def pinMaxLifetimeSecs : Int64 := 300

namespace MetaStore

variable (store : MetaStore Bytes)

def checkpoint : Option (Checkpoint Bytes) :=
  store.published.manifest.map fun manifest => { manifest, state := store.published.state }

def currentGeneration : Nat :=
  (store.published.manifest.map (·.generation)).getD 0

/-- Folds the journal after `base` through `through` onto `state`. -/
def foldJournal (json : SerdeJson Bytes) (store : MetaStore Bytes)
    (state : CheckpointState Bytes) (base through : Nat) :
    Except MetaError (CheckpointState Bytes) :=
  state.foldAll json (((store.journal.after base).filter (·.1 ≤ through)).map Prod.snd)

/-! ## Publishing -/

def leasedManifest (now : Int64) : Option CheckpointManifest :=
  match store.published.manifest, store.checkpointPin with
  | some manifest, some pin =>
    if pin.generation = manifest.generation ∧ now < pin.expiresAt then some manifest else none
  | _, _ => none

/-- The published manifest, when publishing again would say the same. -/
def standingManifest (identity : CheckpointIdentity) :
    Option CheckpointManifest :=
  store.published.manifest.filter fun manifest =>
    0 < manifest.generation ∧ manifest.serial = store.currentSerial ∧
      manifest.identity = identity ∧ store.checkpointPin.isNone

/-- Makes the state at the current serial durable, folding only the records the
published checkpoint does not already cover. `scan` names the blobs the folded
rows reference. -/
def publishCheckpointWithSizes (codec : CanonicalCodec Bytes) (json : SerdeJson Bytes)
    (store : MetaStore Bytes) (identity : CheckpointIdentity)
    (supplemental : BTreeMap String Nat)
    (scan : CheckpointState Bytes → Except String (Std.ExtTreeSet String compare))
    (now : Int64) : Except MetaError (MetaStore Bytes × CheckpointManifest) :=
  match store.leasedManifest now with
  | some manifest => .ok (store, manifest)
  | none =>
    match store.standingManifest identity with
    | some manifest => .ok (store, manifest)
    | none => do
      let serial := store.currentSerial
      let base := (store.checkpoint.map (·.manifest.serial)).getD 0
      let state := (store.checkpoint.map (·.state)).getD {}
      let folded ← store.foldJournal json state base serial
      let live ← (scan folded).mapError .checkpointReferences
      let state ← folded.retainBlobs live supplemental
      let manifest :=
        { state.manifest codec identity serial with
          generation :=
            (store.published.manifest.map (·.generation.u64SaturatingAdd 1)).getD 1 }
      -- one transaction: the state, its manifest, the floor, and no pin
      return ({ store with
          published := .ofState state manifest
          retainedFloor := some (serial.u64SaturatingAdd 1)
          checkpointPin := none }, manifest)

/-- Removes at most `limit` journal records below the retained floor. -/
def pruneJournalBatch (limit : Nat) : MetaStore Bytes × Nat :=
  if limit = 0 then
    (store, 0)
  else
    let floor := store.retainedFloor.getD 1
    let serials := ((store.journal.records.filter (·.1 < floor)).take limit).map (·.1)
    ({ store with journal := store.journal.discard serials }, serials.length)

/-- The transaction that opens every chunk request: renews the bounded lease of
`generation`. -/
def renewPin (generation : Nat) (now : Int64) :
    Except MetaError (MetaStore Bytes) :=
  if generation ≠ store.currentGeneration then
    .error (.staleCheckpointGeneration generation store.currentGeneration)
  else
    let previous := store.checkpointPin.filter (·.generation = generation)
    let startedAt := (previous.map (·.startedAt)).getD now
    let deadline := startedAt.saturatingAdd pinMaxLifetimeSecs
    if deadline ≤ now then
      .error (.checkpointGenerationExpired generation)
    else
      .ok { store with
        checkpointPin := some
          { generation, startedAt, expiresAt := min (now.saturatingAdd pinLeaseSecs) deadline } }

end MetaStore

/-! ## A primary and its history -/

/-- A call that writes to a primary's store. The body of a commit is any
function of its transaction, and `scan` any function of the folded state. -/
inductive PrimaryCall (Bytes : Type) where
  | commit (expectedSerial : Option Nat) (now : Int64) (collectorActive : Bool)
      (body : DriverTxn Bytes → Except MetaError (DriverTxn Bytes × PendingJournal Bytes))
  | revoke (digest : ArtifactDigest) (reason actor : String) (now : Int64)
  | lift (digest : ArtifactDigest) (actor : String) (now : Int64)
  | armGuards (digests : List String) (revision : Nat) (now expiresAtUnix : Int64)
  | publish (identity : CheckpointIdentity) (supplemental : BTreeMap String Nat)
      (scan : CheckpointState Bytes → Except String (Std.ExtTreeSet String compare))
      (now : Int64)
  | prune (limit : Nat)
  /-- The first transaction of a chunk request. -/
  | pin (generation : Nat) (now : Int64)

structure PrimaryConfig (Bytes : Type) where
  json : SerdeJson Bytes
  codec : CanonicalCodec Bytes

def PlainVec.config : PrimaryConfig (List UInt8) where
  json := json
  codec := codec

def MetaStore.settled {E α : Type} (store : MetaStore Bytes) :
    Except E (MetaStore Bytes × α) → MetaStore Bytes
  | .ok (committed, _) => committed
  | .error _ => store

def MetaStore.run (config : PrimaryConfig Bytes) (store : MetaStore Bytes) :
    PrimaryCall Bytes → MetaStore Bytes
  | .commit expectedSerial now collectorActive body =>
    store.settled (store.commitDriverTxnWithJournal id expectedSerial now collectorActive body)
  | .revoke digest reason actor now =>
    store.settled (store.putDigestRevocation config.json digest reason actor now)
  | .lift digest actor now =>
    store.settled (store.liftDigestRevocation config.json digest actor now)
  | .armGuards digests revision now expiresAtUnix =>
    (store.compareAndArmReclaimGuards digests revision now expiresAtUnix).1
  | .publish identity supplemental scan now =>
    store.settled
      (store.publishCheckpointWithSizes config.codec config.json identity supplemental scan now)
  | .prune limit => (store.pruneJournalBatch limit).1
  | .pin generation now => store.settled ((store.renewPin generation now).map (·, ()))

namespace PlainVec

def putRow (key : String) (value : List UInt8) : PrimaryCall (List UInt8) :=
  .commit none 0 false fun txn => .ok (txn.put key value, .payloads [[0]])

def publishAs (version : Nat) (now : Int64) : PrimaryCall (List UInt8) :=
  .publish ⟨"primary-a", version, 1⟩ ∅ (fun _ => .ok ∅) now

/-- A row, a checkpoint over it, another row, and what the checkpoint covers
pruned. -/
def checkpointed : List (PrimaryCall (List UInt8)) :=
  [putRow "pypi/demo" [49], publishAs 1 0, putRow "pypi/demo" [50], .prune 10]

end PlainVec

structure PrimaryHistory (Bytes : Type) where
  store : MetaStore Bytes := {}
  committed : SerialLog (JournalEntry Bytes) := .empty

namespace PrimaryHistory

def step (config : PrimaryConfig Bytes) (history : PrimaryHistory Bytes)
    (call : PrimaryCall Bytes) : PrimaryHistory Bytes × Unit :=
  let store := history.store.run config call
  ({ store
     committed := history.committed.pushAll
       ((store.journal.after history.store.currentSerial).map Prod.snd) }, ())

def after (config : PrimaryConfig Bytes) (calls : List (PrimaryCall Bytes)) :
    PrimaryHistory Bytes :=
  Machine.exec (step config) {} calls

end PrimaryHistory

/-! ## What a call can do -/

/-- `entries` are appended, and neither the floor nor the published checkpoint
moves. -/
structure Appends (store store' : MetaStore Bytes) (entries : List (JournalEntry Bytes)) :
    Prop where
  journal : store'.journal = store.journal.pushAll entries
  retainedFloor : store'.retainedFloor = store.retainedFloor
  published : store'.published = store.published

/-- A new checkpoint at the current serial: the published state with the rest
of the journal folded in, up to its blobs. -/
structure Publishes (config : PrimaryConfig Bytes) (store store' : MetaStore Bytes)
    (state : CheckpointState Bytes) (manifest : CheckpointManifest) : Prop where
  folded : ∃ folded, store.foldJournal config.json
      ((store.checkpoint.map (·.state)).getD {})
      ((store.checkpoint.map (·.manifest.serial)).getD 0) store.currentSerial = .ok folded ∧
    folded.SameRows state
  signed : ∃ identity, manifest =
    { state.manifest config.codec identity store.currentSerial with
      generation := (store.published.manifest.map (·.generation.u64SaturatingAdd 1)).getD 1 }
  journal : store'.journal = store.journal
  retainedFloor : store'.retainedFloor = some (store.currentSerial.u64SaturatingAdd 1)
  published : store'.published = .ofState state manifest

def Prunes (store store' : MetaStore Bytes) : Prop :=
  ∃ serials, store' = { store with journal := store.journal.discard serials } ∧
    ∀ serial ∈ serials, serial < store.retainedFloor.getD 1

/-- Everything a call can do to the journal, its floor and the published
checkpoint. -/
inductive PrimaryStep (config : PrimaryConfig Bytes) (store store' : MetaStore Bytes) : Prop where
  | appends {entries : List (JournalEntry Bytes)} (h : Appends store store' entries)
  | publishes {state : CheckpointState Bytes} {manifest : CheckpointManifest}
      (h : Publishes config store store' state manifest)
  | prunes (h : Prunes store store')

namespace MetaStore

variable {store : MetaStore Bytes} {now : Int64}

theorem commit_appends {E : Type} {fromMeta : MetaError → E}
    {expectedSerial serial : Option Nat} {collectorActive : Bool}
    {body : DriverTxn Bytes → Except E (DriverTxn Bytes × PendingJournal Bytes)}
    (h : store.commitDriverTxnWithJournal fromMeta expectedSerial now collectorActive body =
      .ok (store', serial)) : ∃ entries, Appends store store' entries := by
  obtain ⟨_, -, h⟩ := bind_eq_ok.mp h
  obtain ⟨⟨txn, journal⟩, -, h⟩ := bind_eq_ok.mp h
  obtain ⟨guards, -, h⟩ := bind_eq_ok.mp h
  cases h
  exact ⟨_, rfl, rfl, rfl⟩

theorem writeDigestRevocation_appends {json : SerdeJson Bytes}
    (h : store' = store ∨ ∃ record, store.writeDigestRevocation json record = .ok store') :
    ∃ entries, Appends store store' entries := by
  rcases h with rfl | ⟨record, wrote⟩
  · exact ⟨[], rfl, rfl, rfl⟩
  · obtain ⟨revocations, -, rfl⟩ := writeDigestRevocation_eq_ok wrote
    exact ⟨[_], rfl, rfl, rfl⟩

theorem publishCheckpointWithSizes_eq_ok {config : PrimaryConfig Bytes}
    {identity : CheckpointIdentity}
    {supplemental : BTreeMap String Nat}
    {scan : CheckpointState Bytes → Except String (Std.ExtTreeSet String compare)}
    {manifest : CheckpointManifest}
    (h : store.publishCheckpointWithSizes config.codec config.json identity supplemental scan
      now = .ok (store', manifest)) :
    (store' = store ∧ store.published.manifest = some manifest) ∨
      ∃ state, Publishes config store store' state manifest := by
  unfold publishCheckpointWithSizes at h
  split at h
  · rename_i held leased
    cases h
    refine .inl ⟨rfl, ?_⟩
    unfold leasedManifest at leased
    split at leased
    · rename_i found _
      split at leased
      · exact found.trans leased
      · cases leased
    · cases leased
  · split at h
    · rename_i held standing
      cases h
      exact .inl ⟨rfl, (Option.filter_eq_some_iff.mp standing).1⟩
    · obtain ⟨folded, ran, h⟩ := bind_eq_ok.mp h
      obtain ⟨live, -, h⟩ := bind_eq_ok.mp h
      obtain ⟨state, retained, h⟩ := bind_eq_ok.mp h
      cases h
      exact .inr ⟨state, ⟨folded, ran, CheckpointState.retainBlobs_sameRows retained⟩,
        ⟨identity, rfl⟩, rfl, rfl, rfl⟩

theorem pruneJournalBatch_prunes (store : MetaStore Bytes) (limit : Nat) :
    Prunes store (store.pruneJournalBatch limit).1 := by
  unfold pruneJournalBatch
  split
  · refine ⟨[], ?_, by simp⟩
    have same : store.journal.discard [] = store.journal := by
      refine SerialLog.ext rfl ?_
      exact filter_eq_self.mpr (by simp)
    rw [same]
  · refine ⟨_, rfl, ?_⟩
    intro serial hs
    obtain ⟨record, taken, rfl⟩ := mem_map.mp hs
    simpa using (mem_filter.mp (mem_of_mem_take taken)).2

theorem renewPin_appends {generation : Nat}
    (h : store.renewPin generation now = .ok store') : Appends store store' [] := by
  obtain ⟨-, h⟩ := guard_eq_ok.mp h
  obtain ⟨-, h⟩ := guard_eq_ok.mp h
  cases h
  exact ⟨rfl, rfl, rfl⟩

theorem settled_cases {E α : Type} {P : MetaStore Bytes → Prop}
    {answer : Except E (MetaStore Bytes × α)} (failed : P store)
    (ok : ∀ committed value, answer = .ok (committed, value) → P committed) :
    P (store.settled answer) := by
  cases answer with
  | error error => exact failed
  | ok result => exact ok result.1 result.2 rfl

theorem run_step (config : PrimaryConfig Bytes) (store : MetaStore Bytes)
    (call : PrimaryCall Bytes) : PrimaryStep config store (store.run config call) := by
  have unchanged : PrimaryStep config store store := by
    have nothing : Appends store store [] := ⟨rfl, rfl, rfl⟩
    exact .appends nothing
  have appended : ∀ {store' : MetaStore Bytes}, (∃ entries, Appends store store' entries) →
      PrimaryStep config store store' := fun ⟨_, h⟩ => .appends h
  cases call with
  | commit expectedSerial now collectorActive body =>
    refine settled_cases (P := PrimaryStep config store) unchanged ?_
    exact fun _ _ ran => appended (commit_appends ran)
  | revoke digest reason actor now =>
    refine settled_cases (P := PrimaryStep config store) unchanged ?_
    exact fun _ _ ran => appended (writeDigestRevocation_appends (putDigestRevocation_eq_ok ran))
  | lift digest actor now =>
    refine settled_cases (P := PrimaryStep config store) unchanged ?_
    exact fun _ _ ran => appended (writeDigestRevocation_appends (liftDigestRevocation_eq_ok ran))
  | armGuards digests revision now expiresAtUnix =>
    refine appended ⟨[], ?_⟩
    unfold run compareAndArmReclaimGuards
    dsimp only
    split <;> exact ⟨rfl, rfl, rfl⟩
  | publish identity supplemental scan now =>
    refine settled_cases (P := PrimaryStep config store) unchanged ?_
    intro store' manifest ran
    rcases publishCheckpointWithSizes_eq_ok ran with ⟨rfl, -⟩ | ⟨state, publishes⟩
    · exact unchanged
    · exact .publishes publishes
  | prune limit => exact .prunes (pruneJournalBatch_prunes store limit)
  | pin generation now =>
    refine settled_cases (P := PrimaryStep config store) unchanged ?_
    intro store' _ ran
    obtain ⟨renewed, ok, same⟩ := map_eq_ok.mp ran
    cases same
    exact .appends (renewPin_appends ok)

end MetaStore

/-! ## What is kept of the history -/

def MetaStore.floor (store : MetaStore Bytes) : Nat :=
  store.retainedFloor.getD 1

def MetaStore.publishedSerial (store : MetaStore Bytes) : Nat :=
  (store.published.manifest.map (·.serial)).getD 0

/-- The history is whole, the store holds all of it from its floor on, and the
published checkpoint is the fold of the part it covers. -/
structure Keeps (config : PrimaryConfig Bytes) (history : PrimaryHistory Bytes) : Prop where
  whole : history.committed.Whole
  serial : history.store.journal.serial = history.committed.serial
  floor : history.store.retainedFloor =
    history.store.published.manifest.map (·.serial.u64SaturatingAdd 1)
  covered : history.store.publishedSerial ≤ history.committed.serial
  tail : history.store.journal.after (history.store.floor - 1) =
    history.committed.after (history.store.floor - 1)
  folded : ∃ full, CheckpointState.foldAll config.json {}
      ((history.committed.upTo history.store.publishedSerial).map Prod.snd) = .ok full ∧
    full.SameRows history.store.published.state

namespace Keeps

open MetaStore

variable {config : PrimaryConfig Bytes} {history : PrimaryHistory Bytes}

theorem empty (config : PrimaryConfig Bytes) : Keeps config {} where
  whole := SerialLog.whole_empty
  serial := rfl
  floor := rfl
  covered := Nat.le_refl _
  tail := rfl
  folded := ⟨{}, rfl, rfl, rfl⟩

variable (h : Keeps config history)

include h

theorem floor_le : history.store.floor ≤ history.store.publishedSerial + 1 := by
  unfold MetaStore.floor publishedSerial
  rw [h.floor]
  cases history.store.published.manifest with
  | none => exact Nat.le_refl _
  | some manifest => exact Nat.u64SaturatingAdd_le _ _

theorem after_eq {n : Nat} (above : history.store.floor ≤ n + 1) :
    history.store.journal.after n = history.committed.after n := by
  have le : history.store.floor - 1 ≤ n := by omega
  rw [history.store.journal.after_of_le le, history.committed.after_of_le le, h.tail]

theorem checkpoint_sameRows {full : CheckpointState Bytes}
    (covered : CheckpointState.foldAll config.json {}
      ((history.committed.upTo history.store.publishedSerial).map Prod.snd) = .ok full)
    (same : full.SameRows history.store.published.state) :
    CheckpointState.SameRows ((history.store.checkpoint.map (·.state)).getD {}) full := by
  unfold checkpoint
  unfold publishedSerial at covered
  cases current : history.store.published.manifest with
  | none =>
    rw [current, h.whole.upTo] at covered
    cases covered
    exact ⟨rfl, rfl⟩
  | some manifest => exact same.symm

/-- **Step.** Records join both sides. -/
theorem appends {entries : List (JournalEntry Bytes)}
    (step : Appends history.store store' entries) :
    Keeps config { store := store', committed := history.committed.pushAll entries } := by
  have same : store'.floor = history.store.floor := by
    unfold MetaStore.floor
    rw [step.retainedFloor]
  have still : store'.publishedSerial = history.store.publishedSerial := by
    unfold publishedSerial
    rw [step.published]
  constructor
  case whole => exact h.whole.pushAll entries
  case serial =>
    rw [step.journal, SerialLog.serial_pushAll, SerialLog.serial_pushAll, h.serial]
  case floor =>
    rw [step.retainedFloor, step.published]
    exact h.floor
  case covered =>
    rw [still, SerialLog.serial_pushAll]
    exact h.covered.trans (Nat.le_add_right _ _)
  case tail =>
    rw [same, step.journal]
    exact SerialLog.after_pushAll_congr h.serial h.tail entries
  case folded =>
    rw [still, h.whole.upTo_pushAll_of_le entries h.covered, step.published]
    exact h.folded

/-- **Step.** The new checkpoint is the old one with the rest folded in, so the
fold of the whole. -/
theorem publishes {state : CheckpointState Bytes} {manifest : CheckpointManifest}
    (step : Publishes config history.store store' state manifest) :
    Keeps config { store := store', committed := history.committed } := by
  obtain ⟨identity, rfl⟩ := step.signed
  have serial : store'.publishedSerial = history.committed.serial := by
    unfold publishedSerial
    rw [step.published]
    exact h.serial
  constructor
  case whole => exact h.whole
  case serial =>
    rw [step.journal, h.serial]
  case floor =>
    rw [step.retainedFloor, step.published]
    rfl
  case covered => exact serial.le
  case tail =>
    -- the floor only rises
    have raised : history.store.floor ≤ store'.floor := by
      unfold MetaStore.floor
      rw [step.retainedFloor, h.floor]
      have covered := h.covered
      unfold publishedSerial at covered
      cases current : history.store.published.manifest with
      | none =>
        show 1 ≤ min (history.store.currentSerial + 1) Nat.u64Max
        exact Nat.le_min.mpr ⟨Nat.le_add_left _ _, by decide⟩
      | some manifest =>
        rw [current] at covered
        show min (manifest.serial + 1) Nat.u64Max ≤ min (history.store.currentSerial + 1) Nat.u64Max
        refine min_le_min_right _ (Nat.succ_le_succ ?_)
        exact covered.trans h.serial.ge
    dsimp only
    rw [step.journal]
    exact h.after_eq (raised.trans (by omega))
  case folded =>
    obtain ⟨full, covered, same⟩ := h.folded
    obtain ⟨folded, ran, rows⟩ := step.folded
    have base : (history.store.checkpoint.map (·.manifest.serial)).getD 0 =
        history.store.publishedSerial := by
      unfold checkpoint publishedSerial
      cases history.store.published.manifest <;> rfl
    have start := h.checkpoint_sameRows covered same
    -- the records after the old checkpoint are all still there
    have rest : (history.store.journal.after history.store.publishedSerial).filter
        (·.1 ≤ history.store.currentSerial) =
          history.committed.after history.store.publishedSerial := by
      rw [← h.after_eq h.floor_le]
      refine filter_eq_self.mpr fun record hr => ?_
      exact decide_eq_true (history.store.journal.bounded record (mem_of_mem_filter hr))
    rw [base, foldJournal, rest] at ran
    obtain ⟨full', ran', same'⟩ := CheckpointState.foldAll_congr start ran
    refine ⟨full', ?_, ?_⟩
    · have all : history.committed.upTo history.committed.serial = history.committed.records := by
        rw [h.whole.upTo, ← h.whole.length, take_length]
      rw [serial, all, ← h.whole.upTo_append_after history.store.publishedSerial, map_append]
      exact CheckpointState.foldAll_append covered ran'
    · rw [step.published]
      exact same'.symm.trans rows

/-- **Step.** Only records below the floor are dropped. -/
theorem prunes (step : Prunes history.store store') :
    Keeps config { store := store', committed := history.committed } := by
  obtain ⟨serials, rfl, below⟩ := step
  constructor
  case whole => exact h.whole
  case serial => exact h.serial
  case floor => exact h.floor
  case covered => exact h.covered
  case tail =>
    refine (history.store.journal.after_discard fun serial hs => ?_).trans h.tail
    exact Nat.le_sub_one_of_lt (below serial hs)
  case folded => exact h.folded

theorem step (call : PrimaryCall Bytes) :
    Keeps config (Machine.next (PrimaryHistory.step config) history call) := by
  have next : Machine.next (PrimaryHistory.step config) history call =
      { store := history.store.run config call
        committed := history.committed.pushAll (((history.store.run config call).journal.after
          history.store.currentSerial).map Prod.snd) } := rfl
  rw [next]
  cases history.store.run_step config call with
  | @appends entries step =>
    have added : ((history.store.run config call).journal.after
        history.store.currentSerial).map Prod.snd = entries := by
      rw [step.journal, currentSerial, SerialLog.after_serial_pushAll, SerialLog.map_snd_numbered]
    rw [added]
    exact h.appends step
  | publishes step =>
    rw [step.journal, currentSerial, SerialLog.after_serial]
    exact h.publishes step
  | prunes step =>
    have serial : (history.store.run config call).journal.serial =
        history.store.currentSerial := by
      obtain ⟨serials, same, -⟩ := step
      rw [same]
      rfl
    rw [← serial, SerialLog.after_serial]
    exact h.prunes step

end Keeps

theorem PrimaryHistory.keeps_after (config : PrimaryConfig Bytes)
    (calls : List (PrimaryCall Bytes)) : Keeps config (after config calls) :=
  Machine.exec_invariant_always (step config) (I := Keeps config)
    (fun _ call h => h.step call) {} calls (Keeps.empty config)

/-- After any calls on an empty store, whatever was published when and however
much was pruned: the published rows and revocations are the fold of every
record ever committed, from serial 1 through the manifest's serial, and the
journal still holds every record after it. -/
theorem published_state_is_the_whole_fold (config : PrimaryConfig Bytes)
    (calls : List (PrimaryCall Bytes)) :
    let history := PrimaryHistory.after config calls
    let covered := history.committed.upTo history.store.publishedSerial
    covered.map Prod.fst = List.range' 1 history.store.publishedSerial ∧
      (∃ full, CheckpointState.foldAll config.json {} (covered.map Prod.snd) = .ok full ∧
        history.store.published.rows = full.rows ∧
        history.store.published.revocations = full.revocations) ∧
      history.store.journal.after history.store.publishedSerial =
        history.committed.after history.store.publishedSerial := by
  intro history covered
  have keeps : Keeps config history := PrimaryHistory.keeps_after config calls
  obtain ⟨full, folds, same⟩ := keeps.folded
  exact ⟨keeps.whole.map_fst_upTo keeps.covered, ⟨full, folds, same.1.symm, same.2.symm⟩,
    keeps.after_eq keeps.floor_le⟩

end Peryx
