import Peryx.Lib.Machine
import Peryx.Replica.ApplyPage

/-!
# A replica converges to its primary

A primary commits driver transactions and revocations; pages are built from
its journal at any serial and any moment, and delivered to a replica in any
order, any number of times.

A transaction may append several entries and only the last one carries its
rows, so a page that ends inside a transaction leaves the rows of the one
before (`page_cut_inside_transaction`).

- `step_cases`: what one event does to the pair.
- `replica_converges`: the state a replica stands at, after any deliveries.
-/

namespace Peryx

open List

variable {Bytes : Type}

/-! ## The pair -/

/-- What a deployment fixes: the encodings, the primary's name, and how many
changes the replica takes from one page. -/
structure Replication (Bytes : Type) where
  json : SerdeJson Bytes
  cursor : Codec ReplicaState Bytes
  encodedLen : Change Bytes → Nat
  source : String
  pageLimit : Nat

structure ReplicationPair (Bytes : Type) where
  primary : MetaStore Bytes := {}
  replica : MetaStore Bytes := {}
  pages : List (ChangePage Bytes) := []

inductive PairEvent (Bytes : Type) where
  /-- A driver transaction on the primary. -/
  | driver (ops : List (DriverOp Bytes)) (payloads : List Bytes) (now : Int64)
      (collectorActive : Bool)
  | revoke (digest : ArtifactDigest) (reason actor : String) (now : Int64)
  | lift (digest : ArtifactDigest) (actor : String) (now : Int64)
  | armGuards (digests : List String) (revision : Nat) (now expiresAtUnix : Int64)
  /-- A page is built from the primary's journal. -/
  | build (after limit : Nat) (cancelAt : Option Nat)
  /-- The replica is handed one of the pages built so far. -/
  | deliver (index : Nat)

def PairEvent.localKeys : PairEvent Bytes → List String
  | .driver ops .. => ops.filterMap (·.localKey)
  | .revoke .. | .lift .. | .armGuards .. | .build .. | .deliver _ => []

namespace Replication

variable (net : Replication Bytes)

def primaryStep (primary : MetaStore Bytes) : PairEvent Bytes → MetaStore Bytes
  | .driver ops payloads now collectorActive =>
    match primary.commitDriverTxn ops payloads now collectorActive with
    | .ok (committed, _) => committed
    | .error _ => primary
  | .revoke digest reason actor now =>
    match primary.putDigestRevocation net.json digest reason actor now with
    | .ok (committed, _) => committed
    | .error _ => primary
  | .lift digest actor now =>
    match primary.liftDigestRevocation net.json digest actor now with
    | .ok (committed, _) => committed
    | .error _ => primary
  | .armGuards digests revision now expiresAtUnix =>
    (primary.compareAndArmReclaimGuards digests revision now expiresAtUnix).1
  | .build .. | .deliver _ => primary

def buildPage (primary : MetaStore Bytes) (after limit : Nat) (cancelAt : Option Nat) :
    ChangePageBody Bytes :=
  buildChangePage net.encodedLen primary net.source after limit cancelAt

def apply (replica : MetaStore Bytes) (page : ChangePage Bytes) :
    MetaStore Bytes × Except SyncError AppliedPage :=
  Replica.tryApplyPage net.json net.cursor net.pageLimit replica page

/-- One event; a delivery is answered with what `apply_page` returned. -/
def step (pair : ReplicationPair Bytes) (event : PairEvent Bytes) :
    ReplicationPair Bytes × Option (Except SyncError AppliedPage) :=
  let primary := net.primaryStep pair.primary event
  match event with
  | .build after limit cancelAt =>
    match net.buildPage primary after limit cancelAt with
    | .encoded page => ({ pair with primary, pages := pair.pages ++ [page] }, none)
    | _ => ({ pair with primary }, none)
  | .deliver index =>
    match pair.pages[index]? with
    | some page =>
      let (replica, answer) := net.apply pair.replica page
      ({ pair with primary, replica }, some answer)
    | none => ({ pair with primary }, none)
  | _ => ({ pair with primary }, none)

variable (events : List (PairEvent Bytes))

def after : ReplicationPair Bytes :=
  Machine.exec net.step {} events

/-- The primary right after the last of its transactions whose journal entries
all stand at or below `serial`. -/
def primaryThrough (serial : Nat) (events : List (PairEvent Bytes)) : MetaStore Bytes :=
  (events.foldl (fun (pair, whole) event =>
    let pair := Machine.next net.step pair event
    (pair, if pair.primary.currentSerial ≤ serial then pair.primary else whole))
    (({} : ReplicationPair Bytes), ({} : MetaStore Bytes))).2

/-- A replicated row: outside the replication prefix and never written as
local. -/
def Replicates (key : String) : Prop :=
  isReserved key = false ∧ ∀ event ∈ events, key ∉ event.localKeys

/-- What a driver owes the journal: its payloads are in its own vocabulary, and
a transaction that changes a row of `K` appends at least one. -/
def Promises (K : String → Prop) (pair : ReplicationPair Bytes) : PairEvent Bytes → Prop
  | .driver ops payloads now collectorActive =>
    (∀ payload ∈ payloads, ServerMutation.decode net.json payload = .ok none) ∧
      (payloads = [] → ∀ committed serial,
        pair.primary.commitDriverTxn ops payloads now collectorActive = .ok (committed, serial) →
          ∀ key, K key → committed.driverKv[key]? = pair.primary.driverKv[key]?)
  | .revoke .. | .lift .. | .armGuards .. | .build .. | .deliver _ => True

/-! ## The primary's side -/

variable {net} {K : String → Prop}

theorem primaryStep_commits {pair : ReplicationPair Bytes} {event : PairEvent Bytes}
    (promised : net.Promises K pair event) (notLocal : ∀ key, K key → key ∉ event.localKeys) :
    ∃ entries, Commits net.json K pair.primary (net.primaryStep pair.primary event) entries := by
  have unchanged : ∃ entries, Commits net.json K pair.primary pair.primary entries :=
    ⟨[], .nothing rfl (.refl _)⟩
  -- a revocation call commits one entry or nothing at all
  have written : ∀ store', (store' = pair.primary ∨ ∃ record,
      pair.primary.writeDigestRevocation net.json record = .ok store') →
      ∃ entries, Commits net.json K pair.primary store' entries := by
    rintro store' (rfl | ⟨record, wrote⟩)
    · exact unchanged
    · exact Commits.revocation wrote
  cases event with
  | driver ops payloads now collectorActive =>
    obtain ⟨own, journals⟩ := promised
    simp only [primaryStep]
    split
    · rename_i committed serial ran
      refine Commits.driver ran own ?_ fun none key hk => journals none committed serial ran key hk
      intro op hop key hk isLocal
      exact notLocal key hk (mem_filterMap.mpr ⟨op, hop, isLocal⟩)
    · exact unchanged
  | revoke digest reason actor now =>
    simp only [primaryStep]
    split
    · rename_i ran
      exact written _ (MetaStore.putDigestRevocation_eq_ok ran)
    · exact unchanged
  | lift digest actor now =>
    simp only [primaryStep]
    split
    · rename_i ran
      exact written _ (MetaStore.liftDigestRevocation_eq_ok ran)
    · exact unchanged
  | armGuards digests revision now expiresAtUnix =>
    refine ⟨[], .nothing ?_ ?_⟩
    · simp only [primaryStep, MetaStore.compareAndArmReclaimGuards]
      split <;> rfl
    · simp only [primaryStep, MetaStore.compareAndArmReclaimGuards]
      split <;> exact .refl _
  | build | deliver => exact unchanged

theorem step_primary (pair : ReplicationPair Bytes) (event : PairEvent Bytes) :
    (Machine.next net.step pair event).primary = net.primaryStep pair.primary event := by
  cases event with
  | build after limit cancelAt =>
    simp only [Machine.next, step]
    split <;> rfl
  | deliver index =>
    simp only [Machine.next, step]
    split <;> rfl
  | driver | revoke | lift | armGuards => rfl

theorem after_concat (event : PairEvent Bytes) :
    net.after (events ++ [event]) = Machine.next net.step (net.after events) event := by
  rw [after, Machine.exec_append]
  rfl

theorem primaryThrough_concat (serial : Nat) (events : List (PairEvent Bytes))
    (event : PairEvent Bytes) :
    net.primaryThrough serial (events ++ [event]) =
      if (net.after (events ++ [event])).primary.currentSerial ≤ serial
      then (net.after (events ++ [event])).primary else net.primaryThrough serial events := by
  have runs : ∀ (events : List (PairEvent Bytes)) (whole : MetaStore Bytes)
      (pair : ReplicationPair Bytes),
      (events.foldl (fun (pair, whole) event =>
        let pair := Machine.next net.step pair event
        (pair, if pair.primary.currentSerial ≤ serial then pair.primary else whole))
        (pair, whole)).1 = Machine.exec net.step pair events := by
    intro events
    induction events with
    | nil => intro whole pair; rfl
    | cons event events ih => intro whole pair; exact ih _ _
  rw [after_concat, primaryThrough, foldl_append]
  simp only [foldl_cons, foldl_nil, runs]
  rfl

theorem primaryThrough_of_le {serial : Nat} {events : List (PairEvent Bytes)}
    (h : (net.after events).primary.currentSerial ≤ serial) :
    net.primaryThrough serial events = (net.after events).primary := by
  induction events using reverseRecOn with
  | nil => rfl
  | append_singleton events event _ => rw [primaryThrough_concat, if_pos h]

/-! ## The invariant of a run -/

/-- What holds after every event: each moment of the primary is the fold of its
journal, every page is a stretch of that journal, and the replica holds the
journal up to its serial and the fold of it. -/
structure Converging (net : Replication Bytes) (K : String → Prop)
    (events : List (PairEvent Bytes)) : Prop where
  whole : (net.after events).primary.journal.Whole
  through : ∀ serial, Replicated.AgreeOn K (net.primaryThrough serial events).replicated
    (Replicated.absorbAll net.json {}
      (((net.after events).primary.journal.upTo serial).map Prod.snd))
  pages : ∀ page ∈ (net.after events).pages, ∃ taken,
    taken <+: (net.after events).primary.journal.after page.after ∧
      page.changes = taken.map Change.ofRecord
  copied : (net.after events).replica.journal.records =
    (net.after events).primary.journal.upTo (net.after events).replica.currentSerial
  behind : (net.after events).replica.currentSerial ≤ (net.after events).primary.currentSerial
  follows : Replicated.AgreeOn (fun key => isReserved key = false)
    (net.after events).replica.replicated
    (Replicated.absorbAll net.json {} ((net.after events).replica.journal.records.map Prod.snd))

theorem converging_nil : Converging net K [] where
  whole := SerialLog.whole_empty
  through _ := .refl _
  pages _ h := absurd h not_mem_nil
  copied := rfl
  behind := Nat.le_refl _
  follows := .refl _

namespace Converging

variable {events : List (PairEvent Bytes)} {event : PairEvent Bytes}

/-- The primary's own history stays the fold of its journal: up to a serial
inside the new transaction its entries are inert, and at its end they are all
there. -/
theorem through_concat (h : Converging net K events) {entries : List (JournalEntry Bytes)}
    (commits : Commits net.json K (net.after events).primary
      (net.after (events ++ [event])).primary entries) (serial : Nat) :
    Replicated.AgreeOn K (net.primaryThrough serial (events ++ [event])).replicated
      (Replicated.absorbAll net.json {}
        (((net.after (events ++ [event])).primary.journal.upTo serial).map Prod.snd)) := by
  have reached : (net.after (events ++ [event])).primary.currentSerial =
      (net.after events).primary.currentSerial + entries.length := by
    show (net.after (events ++ [event])).primary.journal.serial = _
    rw [commits.journal, SerialLog.serial_pushAll]
    rfl
  rw [primaryThrough_concat, commits.journal, h.whole.upTo_pushAll, Replicated.absorbAll_append]
  by_cases ended : (net.after (events ++ [event])).primary.currentSerial ≤ serial
  · rw [if_pos ended]
    have before : (net.after events).primary.currentSerial ≤ serial := by omega
    have all : entries.take (serial - (net.after events).primary.journal.serial) = entries := by
      refine take_of_length_le ?_
      show entries.length ≤ serial - (net.after events).primary.currentSerial
      omega
    have standing := h.through serial
    rw [primaryThrough_of_le before] at standing
    rw [all]
    exact commits.state.trans (standing.absorbAll entries)
  · rw [if_neg ended]
    by_cases none : entries = []
    · rw [none, take_nil]
      exact h.through serial
    · have proper : serial - (net.after events).primary.journal.serial < entries.length := by
        have positive : 0 < entries.length := length_pos_iff.mpr none
        show serial - (net.after events).primary.currentSerial < entries.length
        omega
      rw [commits.inert _ proper]
      exact h.through serial

theorem journalEntries_eq {json : SerdeJson Bytes} {taken : List (Nat × JournalEntry Bytes)}
    {checked : List (ValidatedChange Bytes)}
    (valid : List.Forall₂ (Checked json) (taken.map Change.ofRecord) checked) :
    checked.map (·.journalEntry) = taken.map Prod.snd := by
  induction taken generalizing checked with
  | nil =>
    cases valid
    rfl
  | cons record taken ih =>
    cases valid with
    | cons first rest =>
      rename_i change checked
      rw [map_cons, map_cons, ih rest]
      congr 1
      have mutations : change.metadata.map (·.toDriver) = record.2.mutations := by
        rw [first.metadata]
        show (record.2.mutations.map MetadataMutation.ofDriver).map _ = _
        rw [map_map]
        refine map_id'' (fun mutation => ?_) _
        cases mutation <;> rfl
      have blobs : change.blobs.map (fun blob => (⟨blob.1.hex, blob.2⟩ : DriverBlobReference)) =
          record.2.blobs := by
        have pairs := congrArg (List.map fun blob : String × Nat =>
          (⟨blob.1, blob.2⟩ : DriverBlobReference)) first.blobs
        rw [map_map, map_map] at pairs
        refine Eq.trans pairs ?_
        show (record.2.blobs.map BlobReference.ofDriver).map _ = _
        rw [map_map]
        exact map_id'' (fun _ => rfl) _
      show JournalEntry.mk change.event (change.metadata.map (·.toDriver)) _ = record.2
      rw [first.event, mutations, blobs]
      rfl

theorem applied (h : Converging net K events) {page : ChangePage Bytes}
    {replica : MetaStore Bytes} {checked : List (ValidatedChange Bytes)}
    (built : page ∈ (net.after events).pages)
    (ran : Replica.Applied net.json net.cursor (net.after events).replica replica page checked) :
    replica.journal.records = (net.after events).primary.journal.upTo replica.currentSerial ∧
      replica.currentSerial ≤ (net.after events).primary.currentSerial ∧
      Replicated.AgreeOn (fun key => isReserved key = false) replica.replicated
        (Replicated.absorbAll net.json {} (replica.journal.records.map Prod.snd)) := by
  obtain ⟨taken, cut, changes⟩ := h.pages page built
  have entries : checked.map (·.journalEntry) = taken.map Prod.snd :=
    journalEntries_eq (changes ▸ ran.valid)
  rw [ran.start] at cut
  have serial : replica.currentSerial =
      (net.after events).replica.currentSerial + taken.length := by
    show replica.journal.serial = _
    rw [ran.journal, SerialLog.serial_pushAll, entries, length_map]
    rfl
  -- numbering the page's entries again gives back the records it was cut from
  have records : replica.journal.records = (net.after events).replica.journal.records ++ taken := by
    rw [ran.journal, SerialLog.records_pushAll, entries]
    exact congrArg _ (SerialLog.numbered_map_snd (h.whole.stretch cut))
  refine ⟨?_, ?_, ?_⟩
  · rw [records, h.copied, serial, h.whole.upTo_append cut]
  · have short := cut.length_le
    rw [h.whole.after, length_drop, h.whole.length] at short
    have := h.behind
    show _ ≤ (net.after events).primary.journal.serial
    change _ ≤ (net.after events).primary.journal.serial at this
    omega
  · rw [records, map_append, Replicated.absorbAll_append, ← entries]
    exact ran.state.trans (h.follows.absorbAll _)

theorem step_cases (net : Replication Bytes) (pair : ReplicationPair Bytes)
    (event : PairEvent Bytes) :
    (Machine.next net.step pair event).replica = pair.replica ∧
        ((Machine.next net.step pair event).pages = pair.pages ∨
          ∃ after limit cancelAt page, (Machine.next net.step pair event).pages =
            pair.pages ++ [page] ∧
            net.buildPage (net.primaryStep pair.primary event) after limit cancelAt =
              .encoded page) ∨
      (Machine.next net.step pair event).pages = pair.pages ∧
        ∃ page ∈ pair.pages, ∃ checked, Replica.Applied net.json net.cursor pair.replica
          (Machine.next net.step pair event).replica page checked := by
  cases event with
  | build after limit cancelAt =>
    refine .inl ?_
    simp only [Machine.next, step]
    split
    · rename_i page built
      exact ⟨rfl, .inr ⟨after, limit, cancelAt, page, rfl, built⟩⟩
    · exact ⟨rfl, .inl rfl⟩
  | deliver index =>
    simp only [Machine.next, step]
    cases built : pair.pages[index]? with
    | none => exact .inl ⟨rfl, .inl rfl⟩
    | some page =>
      simp only [Replication.apply, Replica.tryApplyPage]
      cases ran : Replica.applyPage net.json net.cursor net.pageLimit pair.replica page with
      | error error => exact .inl ⟨rfl, .inl trivial⟩
      | ok result =>
        obtain ⟨checked, applied, -⟩ := Replica.applyPage_eq_ok ran
        exact .inr ⟨trivial, page, mem_of_getElem? built, checked, applied⟩
  | driver | revoke | lift | armGuards => exact .inl ⟨rfl, .inl rfl⟩

/-- **Step.** One more event, whichever it is. -/
theorem step (h : Converging net K events) (promised : net.Promises K (net.after events) event)
    (notLocal : ∀ key, K key → key ∉ event.localKeys) : Converging net K (events ++ [event]) := by
  obtain ⟨entries, commits⟩ := primaryStep_commits promised notLocal
  have primary : (net.after (events ++ [event])).primary =
      net.primaryStep (net.after events).primary event := by
    rw [after_concat, step_primary]
  rw [← primary] at commits
  -- the primary only appends, so pages and the replica's part of the journal stand
  have grows : (net.after events).primary.currentSerial ≤
      (net.after (events ++ [event])).primary.currentSerial := by
    show _ ≤ (net.after (events ++ [event])).primary.journal.serial
    rw [commits.journal, SerialLog.serial_pushAll]
    exact Nat.le_add_right _ _
  have pages : ∀ page ∈ (net.after events).pages, ∃ taken,
      taken <+: (net.after (events ++ [event])).primary.journal.after page.after ∧
        page.changes = taken.map Change.ofRecord := by
    intro page hp
    obtain ⟨taken, cut, changes⟩ := h.pages page hp
    refine ⟨taken, cut.trans ?_, changes⟩
    rw [commits.journal]
    exact SerialLog.after_pushAll _ _ _
  have through := h.through_concat commits
  have whole : (net.after (events ++ [event])).primary.journal.Whole := by
    rw [commits.journal]
    exact h.whole.pushAll entries
  obtain ⟨same, built⟩ | ⟨samePages, page, delivered, checked, ran⟩ :=
    step_cases net (net.after events) event
  · rw [← after_concat] at same built
    refine ⟨whole, through, ?_, ?_, same ▸ h.behind.trans grows, same ▸ h.follows⟩
    · obtain none | ⟨after, limit, cancelAt, page, added, ran⟩ := built
      · exact fun page hp => pages page (none ▸ hp)
      · intro page' hp
        rw [added, mem_append, mem_singleton] at hp
        obtain old | rfl := hp
        · exact pages page' old
        · rw [← primary] at ran
          obtain ⟨-, -, start, -, -, taken, cut, changes⟩ := buildChangePage_encoded ran
          exact ⟨taken, start.symm ▸ cut, changes⟩
    · rw [same, commits.journal, h.whole.upTo_pushAll_of_le entries h.behind]
      exact h.copied
  · rw [← after_concat] at samePages ran
    obtain ⟨copied, behind, follows⟩ := h.applied delivered ran
    refine ⟨whole, through, ?_, ?_, behind.trans grows, follows⟩
    · exact fun page hp => pages page (samePages ▸ hp)
    · rw [commits.journal, h.whole.upTo_pushAll_of_le entries behind]
      exact copied

end Converging

/-- **Run.** Every run whose drivers keep their promise converges. -/
theorem converging_after {events : List (PairEvent Bytes)}
    (promised : Machine.Along net.step (net.Promises K) {} events)
    (notLocal : ∀ event ∈ events, ∀ key, K key → key ∉ event.localKeys) :
    Converging net K events := by
  induction events using reverseRecOn with
  | nil => exact converging_nil
  | append_singleton events event ih =>
    obtain ⟨before, last, -⟩ := (Machine.along_append _ _ _ _).mp promised
    refine (ih before fun e he => notLocal e (mem_append_left _ he)).step last ?_
    exact notLocal event (mem_append_right _ mem_cons_self)

end Replication

/-! ## Convergence -/

open Replication

/-- After any run the replica's journal is the primary's up to the replica's
serial, its replicated rows and its revocations are those of the primary right
after the last transaction whole in that journal, and a page that is refused
changes nothing. -/
theorem replica_converges (net : Replication Bytes) (events : List (PairEvent Bytes))
    (promised : Machine.Along net.step (net.Promises (Replicates events)) {} events) :
    (net.after events).replica.journal.records =
        (net.after events).primary.journal.upTo (net.after events).replica.currentSerial ∧
      (∀ key, Replicates events key → (net.after events).replica.driverKv[key]? =
        (net.primaryThrough (net.after events).replica.currentSerial events).driverKv[key]?) ∧
      (net.after events).replica.revocations.records =
        (net.primaryThrough (net.after events).replica.currentSerial events).revocations.records ∧
      ∀ store page error, (net.apply store page).2 = .error error →
        (net.apply store page).1 = store := by
  have converging : Converging net (Replicates events) events :=
    converging_after promised fun event he key hk => hk.2 event he
  -- both sides are the fold of the same records
  have agree : Replicated.AgreeOn (Replicates events) _ _ :=
    converging.follows.mono fun key hk => hk.1
  rw [converging.copied] at agree
  have same := agree.trans (converging.through (net.after events).replica.currentSerial).symm
  exact ⟨converging.copied, same.rows, same.revocations, fun store page error failed =>
    Replica.tryApplyPage_error failed⟩

/-- Bytes that stand for the value they encode. -/
inductive PlainBytes where
  | text (content : String)
  | state (state : ReplicaState)
  | server (mutation : ServerMutation)
deriving DecidableEq

namespace PlainBytes

def json : SerdeJson PlainBytes where
  Value := PlainBytes
  fromSlice := some
  hasMember
    | .server _, member => member == serverOpTag
    | .text _, _ | .state _, _ => false
  fromValue
    | .server mutation => some mutation
    | .text _ | .state _ => none
  toVec := .server
  reads_back mutation := ⟨.server mutation, rfl, beq_self_eq_true _, rfl⟩

def cursor : Codec ReplicaState PlainBytes where
  encode := .state
  decode
    | .state known => some known
    | .text _ | .server _ => none
  decode_encode _ := rfl

/-- Every change encodes to a hundred bytes. -/
def replication : Replication PlainBytes where
  json := json
  cursor := cursor
  encodedLen _ := 100
  source := "primary-a"
  pageLimit := 10

end PlainBytes

/-- A release is published with a local note and then revoked; a page is cut
inside the publication, and a second one takes the rest. -/
def publishedThenRevoked : List (PairEvent PlainBytes) :=
  [.driver [.put "pypi/demo" (.text "1.0"), .putLocal "pypi/seen" (.text "today")]
      [.text "file-added", .text "release-added"] 0 false,
    .revoke ⟨"aaaaaaaaaaaaaaaaaaaaaaaaaaaaaaaaaaaaaaaaaaaaaaaaaaaaaaaaaaaaaaaa", by decide +kernel⟩
      "malware" "ops" 7,
    .build 0 1 none, .deliver 0, .build 1 10 none, .deliver 1, .deliver 0]

theorem replica_converges_publishedThenRevoked :
    (PlainBytes.replication.after publishedThenRevoked).replica.currentSerial = 3 ∧
      (PlainBytes.replication.after publishedThenRevoked).replica.driverKv["pypi/demo"]? =
        some (.text "1.0") ∧
      (PlainBytes.replication.after publishedThenRevoked).replica.revocations.records =
        (PlainBytes.replication.primaryThrough 3 publishedThenRevoked).revocations.records := by
  have caughtUp :
      (PlainBytes.replication.after publishedThenRevoked).replica.currentSerial = 3 := by
    decide +kernel
  obtain ⟨-, rows, revocations, -⟩ := replica_converges PlainBytes.replication
    publishedThenRevoked ⟨⟨by decide +kernel, nofun⟩, trivial, trivial, trivial, trivial, trivial,
      trivial, trivial⟩
  rw [caughtUp] at rows revocations
  refine ⟨caughtUp, (rows "pypi/demo" ⟨by decide +kernel, by decide +kernel⟩).trans ?_,
    revocations⟩
  decide +kernel

/-- One transaction of two entries, and a page of one. -/
def splitTransaction : List (PairEvent PlainBytes) :=
  [.driver [.put "pypi/demo" (.text "1.0")] [.text "file-added", .text "release-added"] 0 false,
    .build 0 1 none, .deliver 0]

/-- The replica stands at a serial the transaction produced, without the row
the primary had right after it. -/
theorem page_cut_inside_transaction :
    Machine.Along PlainBytes.replication.step
        (PlainBytes.replication.Promises (Replicates splitTransaction)) {} splitTransaction ∧
      Replicates splitTransaction "pypi/demo" ∧
      (PlainBytes.replication.after (splitTransaction.take 1)).primary.currentSerial = 2 ∧
      (PlainBytes.replication.after (splitTransaction.take 1)).primary.driverKv["pypi/demo"]? =
        some (.text "1.0") ∧
      (PlainBytes.replication.after splitTransaction).replica.currentSerial = 1 ∧
      (PlainBytes.replication.after splitTransaction).replica.driverKv["pypi/demo"]? = none := by
  refine ⟨⟨⟨by decide +kernel, nofun⟩, trivial, trivial, trivial⟩,
    ⟨by decide +kernel, by decide +kernel⟩, ?_, ?_, ?_, ?_⟩
  all_goals decide +kernel

end Peryx
