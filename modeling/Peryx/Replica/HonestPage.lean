import Peryx.Replica.ApplyPage
import Peryx.Storage.Publication

/-!
# Pages built for an honest prefix

`build_change_page` on a primary that commits, publishes and prunes, against
`ValidatedPage::new` on a replica that stands anywhere at or behind it. Where a
page starts, how its serials run and where it ends are then never the reason
it is refused.

- `honest_page_is_usable`: what such a page can be refused for.
-/

namespace Peryx

open List Peryx.Except

variable {Bytes : Type}

/-! ## What can be wrong with what a page says -/

/-- A page is refused for its source or for something in its records, wherever
it starts and ends. -/
inductive ContentRefusal (json : SerdeJson Bytes) (source : String)
    (changes : List (Change Bytes)) : SyncError → Prop where
  | emptySource (h : source.isEmpty = true) : ContentRefusal json source changes .emptySource
  | reservedMetadataKey {change : Change Bytes} {mutation : MetadataMutation Bytes}
      (hc : change ∈ changes) (hm : mutation ∈ change.metadata)
      (reserved : isReserved mutation.key = true) :
      ContentRefusal json source changes (.reservedMetadataKey mutation.key)
  | invalidDigest {change : Change Bytes} {blob : BlobReference} (hc : change ∈ changes)
      (hb : blob ∈ change.blobs) (invalid : Digest.fromHex blob.sha256 = none) :
      ContentRefusal json source changes (.invalidDigest blob.sha256)
  | conflictingBlobSize {first second : BlobReference}
      (hf : first ∈ changes.flatMap (·.blobs)) (hs : second ∈ changes.flatMap (·.blobs))
      (same : first.sha256 = second.sha256) (differ : first.size ≠ second.size) :
      ContentRefusal json source changes (.conflictingBlobSize second.sha256 first.size second.size)
  | undecodable {change : Change Bytes} {error : MetaError} (hc : change ∈ changes)
      (failed : ServerMutation.decode json change.event = .error error) :
      ContentRefusal json source changes (.store error)

namespace ValidatedPage

variable {error : SyncError} {referenced : BTreeMap String (Digest × Nat)}

theorem checkKeys_error {metadata : List (MetadataMutation Bytes)}
    {keys : Std.ExtTreeSet String compare}
    (h : checkKeys keys metadata = .error error) :
    ∃ mutation ∈ metadata, isReserved mutation.key = true ∧
      error = .reservedMetadataKey mutation.key := by
  induction metadata generalizing keys with
  | nil => cases h
  | cons mutation metadata ih =>
    unfold checkKeys at h
    by_cases reserved : isReserved mutation.key = true
    · rw [if_pos reserved] at h
      cases h
      exact ⟨mutation, mem_cons_self, reserved, rfl⟩
    · rw [if_neg reserved] at h
      obtain ⟨other, hm, refused⟩ := ih h
      exact ⟨other, mem_cons_of_mem _ hm, refused⟩

/-- Every size on record was said by one of `seen`. -/
def Sourced (referenced : BTreeMap String (Digest × Nat)) (seen : List BlobReference) : Prop :=
  ∀ sha256 digest size, referenced[sha256]? = some (digest, size) →
    (⟨sha256, size⟩ : BlobReference) ∈ seen

theorem Sourced.insert {seen : List BlobReference}
    (h : Sourced referenced seen) (blob : BlobReference) (digest : Digest) :
    Sourced (referenced.insert blob.sha256 (digest, blob.size)) (seen ++ [blob]) := by
  intro sha256 other size found
  by_cases same : blob.sha256 = sha256
  · subst same
    rw [BTreeMap.get_insert_self] at found
    cases found
    exact mem_append_right _ (mem_singleton_self _)
  · rw [BTreeMap.get_insert_of_ne _ _ same] at found
    exact mem_append_left _ (h sha256 other size found)

theorem checkBlobs_sourced {blobs seen : List BlobReference} {checked : List (Digest × Nat)}
    {referenced' : BTreeMap String (Digest × Nat)} (known : Sourced referenced seen)
    (h : checkBlobs referenced blobs = .ok (referenced', checked)) :
    Sourced referenced' (seen ++ blobs) := by
  induction blobs generalizing referenced referenced' seen checked with
  | nil =>
    cases h
    rw [List.append_nil]
    exact known
  | cons blob blobs ih =>
    unfold checkBlobs at h
    split at h
    · cases h
    · rename_i digest _
      rw [append_cons]
      split at h
      on_goal 2 => replace h := (guard_eq_ok.mp h).2
      all_goals
        obtain ⟨⟨final, tail⟩, inner, h⟩ := map_eq_ok.mp h
        cases h
        exact ih (known.insert blob digest) inner

theorem checkBlobs_error {blobs seen : List BlobReference}
    (known : Sourced referenced seen) (h : checkBlobs referenced blobs = .error error) :
    (∃ blob ∈ seen ++ blobs, Digest.fromHex blob.sha256 = none ∧
        error = .invalidDigest blob.sha256) ∨
      ∃ first ∈ seen ++ blobs, ∃ second ∈ seen ++ blobs, first.sha256 = second.sha256 ∧
        first.size ≠ second.size ∧
        error = .conflictingBlobSize second.sha256 first.size second.size := by
  induction blobs generalizing referenced seen with
  | nil => cases h
  | cons blob blobs ih =>
    unfold checkBlobs at h
    split at h
    · rename_i invalid
      cases h
      exact .inl ⟨blob, mem_append_right _ mem_cons_self, invalid, rfl⟩
    · rename_i digest _
      have rest := append_cons seen blob blobs ▸ ih (known.insert blob digest)
      split at h
      · exact rest (map_eq_error.mp h)
      · rename_i first found
        rcases guard_eq_error.mp h with ⟨differ, rfl⟩ | ⟨-, h⟩
        · refine .inr ⟨⟨blob.sha256, first⟩, mem_append_left _ (known _ _ _ found), blob,
            mem_append_right _ mem_cons_self, rfl, differ, rfl⟩
        · exact rest (map_eq_error.mp h)

variable {json : SerdeJson Bytes}

/-- **Run.** A page whose serials run on is refused for a record's content
only. -/
theorem checkChanges_error {source : String}
    {done changes : List (Change Bytes)} {page : ValidatedPage Bytes}
    (known : Sourced page.referenced (done.flatMap (·.blobs)))
    (runs : changes.map (·.serial) = List.range' (page.through + 1) changes.length)
    (h : checkChanges json page changes = .error error) :
    ContentRefusal json source (done ++ changes) error := by
  induction changes generalizing page done with
  | nil => cases h
  | cons change changes ih =>
    obtain ⟨next, runs⟩ := List.cons.inj (runs.trans range'_succ)
    have here : change ∈ done ++ change :: changes := mem_append_right _ mem_cons_self
    unfold checkChanges at h
    rw [if_neg (not_not.mpr next)] at h
    rcases bind_eq_error.mp h with keys | ⟨changedKeys, -, h⟩
    · obtain ⟨mutation, hm, reserved, rfl⟩ := checkKeys_error keys
      exact .reservedMetadataKey here hm reserved
    · rcases bind_eq_error.mp h with blobs | ⟨⟨referenced, checked⟩, blobs, h⟩
      · have within : ∀ {blob}, blob ∈ done.flatMap (·.blobs) ++ change.blobs →
            blob ∈ (done ++ change :: changes).flatMap (·.blobs) := by
          intro blob hb
          rw [flatMap_append, flatMap_cons, ← append_assoc]
          exact mem_append_left _ hb
        rcases checkBlobs_error known blobs with
          ⟨blob, hb, invalid, rfl⟩ | ⟨first, hf, second, hs, same, differ, rfl⟩
        · obtain ⟨_, hc, hb⟩ := mem_flatMap.mp (within hb)
          exact .invalidDigest hc hb invalid
        · exact .conflictingBlobSize (within hf) (within hs) same differ
      · rcases bind_eq_error.mp h with decoded | ⟨server, -, h⟩
        · obtain ⟨inner, failed, rfl⟩ := mapError_eq_error.mp decoded
          exact .undecodable here failed
        · rw [append_cons]
          refine ih ?_ ?_ h
          · rw [flatMap_append, flatMap_singleton]
            exact checkBlobs_sourced known blobs
          · have serial : change.serial = page.through + 1 := next
            rw [serial]
            exact runs

/-- A page that starts where its reader stands, runs on without a gap, ends at
or before the head it reports and is not empty short of it is refused for its
content only. -/
theorem new_refused {page : ChangePage Bytes} {after limit : Nat}
    {state : Option ReplicaState} (version : page.version = protocolVersion)
    (start : page.after = after) (fits : page.changes.length ≤ limit)
    (source : ∀ known ∈ state, known.source = page.source)
    (runs : page.changes.map (·.serial) = List.range' (after + 1) page.changes.length)
    (head : after + page.changes.length ≤ page.currentSerial)
    (some : page.changes = [] → page.currentSerial ≤ after)
    (h : new json page after limit state = .error error) :
    ContentRefusal json page.source page.changes error := by
  unfold new at h
  rw [if_neg (not_not.mpr version)] at h
  rcases guard_eq_error.mp h with ⟨empty, rfl⟩ | ⟨-, h⟩
  · exact .emptySource empty
  rw [if_neg (not_not.mpr start), if_neg (Nat.not_lt.mpr fits)] at h
  have pinned : state.filter (·.source ≠ page.source) = none := by
    refine Option.filter_eq_none_iff.mpr fun known hk => ?_
    simp [source known hk]
  rw [pinned] at h
  rcases bind_eq_error.mp h with refused | ⟨checked, ran, h⟩
  · have unknown : Sourced ∅ (List.flatMap (·.blobs) ([] : List (Change Bytes))) := by
      intro sha256 digest size found
      cases found
    exact checkChanges_error unknown runs refused
  · obtain ⟨-, through, changes, appended, each⟩ := checkChanges_eq_ok ran
    have upTo : checked.through ≤ page.currentSerial := by
      rw [through]
      exact head
    rw [if_neg (Nat.not_lt.mpr upTo)] at h
    rcases guard_eq_error.mp h with ⟨⟨none, short⟩, -⟩ | ⟨-, h⟩
    · have empty : page.changes = [] := by
        rw [appended, nil_append, List.isEmpty_iff] at none
        rw [none] at each
        exact forall₂_nil_right_iff.mp each
      exact absurd (some empty) (Nat.not_le.mpr short)
    · cases h

end ValidatedPage

/-! ## What the builder answers -/

variable {cancelAt : Option Nat}

theorem isCancelled_mono {poll later : Nat} (le : poll ≤ later)
    (h : isCancelled cancelAt poll = true) : isCancelled cancelAt later = true := by
  cases cancelAt with
  | none => cases h
  | some at' =>
    have raised : at' ≤ poll := by simpa [isCancelled] using h
    simpa [isCancelled] using raised.trans le

/-- **Step.** The first record of a walk is taken, unless the walk is cancelled
or the record alone is too large. -/
theorem PageWalk.visitRecord_first (encodedLen : Change Bytes → Nat) (cancelAt : Option Nat)
    (record : Nat × JournalEntry Bytes) :
    let (walk, stop) := visitRecord encodedLen cancelAt {} record
    if stop then isCancelled cancelAt walk.polls = true ∨ walk.oversized ≠ none
    else walk.changes = [Change.ofRecord record] := by
  unfold visitRecord
  dsimp only
  by_cases cancelled : isCancelled cancelAt 0 = true
  · rw [if_pos cancelled]
    exact .inl (isCancelled_mono (Nat.zero_le _) cancelled)
  · rw [if_neg cancelled]
    split
    · exact .inr (Option.some_ne_none _)
    · rfl

theorem PageWalk.visit_cons (encodedLen : Change Bytes → Nat) (cancelAt : Option Nat)
    (record : Nat × JournalEntry Bytes) (records : List (Nat × JournalEntry Bytes)) :
    let walk := MetaStore.visit (visitRecord encodedLen cancelAt) {} (record :: records)
    isCancelled cancelAt walk.polls = true ∨ walk.oversized ≠ none ∨ walk.changes ≠ [] := by
  have first := visitRecord_first encodedLen cancelAt record
  rw [MetaStore.visit]
  generalize visitRecord encodedLen cancelAt {} record = visited at first
  obtain ⟨walk, stop⟩ := visited
  cases stop with
  | true => exact first.imp_right .inl
  | false =>
    obtain ⟨taken, -, changes⟩ := visit_changes encodedLen cancelAt records walk
    refine .inr (.inr ?_)
    rw [changes, show walk.changes = [Change.ofRecord record] from first]
    exact cons_ne_nil _ _

variable {encodedLen : Change Bytes → Nat} {store : MetaStore Bytes} {source : String}

theorem buildChangePage_nil
    {after limit : Nat} {page : ChangePage Bytes}
    (positive : 1 ≤ limit)
    (h : buildChangePage encodedLen store source after limit cancelAt = .encoded page)
    (none : page.changes = []) : store.journal.after after = [] := by
  cases records : store.journal.after after with
  | nil => rfl
  | cons record rest =>
    obtain ⟨limit, rfl⟩ := Nat.exists_eq_add_of_le' positive
    unfold buildChangePage MetaStore.visitRetainedJournalPage at h
    rw [records, take_succ_cons] at h
    dsimp only at h
    split at h
    · cases h
    · split at h
      · cases h
      · rename_i running
        split at h
        · cases h
        · rename_i fits
          cases h
          rcases PageWalk.visit_cons encodedLen cancelAt record (rest.take limit) with
            cancelled | oversized | changes
          · exact absurd cancelled running
          · exact absurd fits oversized
          · exact absurd none changes

/-! ## On a primary -/

namespace Keeps

variable {config : PrimaryConfig Bytes} {history : PrimaryHistory Bytes}

section

variable (h : Keeps config history)

include h

theorem mem_journal {record : Nat × JournalEntry Bytes}
    (hr : record ∈ history.committed.records) (retained : history.store.floor ≤ record.1) :
    record ∈ history.store.journal.records := by
  have one := (h.whole.mem_serials.mp ⟨record, hr, rfl⟩).1
  have above : history.store.floor - 1 < record.1 := by omega
  have later : record ∈ history.committed.after (history.store.floor - 1) :=
    mem_filter.mpr ⟨hr, decide_eq_true above⟩
  rw [← h.tail] at later
  exact mem_of_mem_filter later

theorem belowFloor_first (none : history.store.retainedFloor = none) (after : Nat) :
    belowFloor after history.store.currentSerial history.store.journal.first = false := by
  have floor : history.store.floor = 1 := by
    unfold MetaStore.floor
    rw [none]
    rfl
  unfold SerialLog.first
  cases records : history.store.journal.records with
  | nil =>
    -- with a record in the history, serial 1 would still be here
    by_cases empty : history.store.currentSerial = 0
    · simp [belowFloor, empty]
    · obtain ⟨record, hr, serial⟩ := h.whole.mem_serials.mpr
        ⟨Nat.le_refl 1, Nat.one_le_iff_ne_zero.mpr (h.serial ▸ empty)⟩
      have kept := h.mem_journal hr (by omega)
      rw [records] at kept
      cases kept
  | cons first rest =>
    have bounded := history.store.journal.bounded first (by rw [records]; exact mem_cons_self)
    have low : first.1 ≤ 1 := by
      by_contra high
      obtain ⟨record, hr, serial⟩ := h.whole.mem_serials.mpr
        ⟨Nat.le_refl 1, h.serial ▸ (show 1 ≤ history.store.journal.serial by omega)⟩
      have kept := h.mem_journal hr (by omega)
      have sorted := history.store.journal.sorted
      rw [records] at kept sorted
      rcases mem_cons.mp kept with rfl | later
      · exact high (Nat.le_of_eq serial)
      · have := (pairwise_cons.mp sorted).1 record later
        omega
    simpa [belowFloor] using low.trans (Nat.le_add_left 1 after)

theorem belowFloor_iff (after : Nat) :
    belowFloor after history.store.currentSerial history.store.journalFloor = true ↔
      ∃ record ∈ history.committed.records, after < record.1 ∧
        record.1 < history.store.floor := by
  have covered := h.covered
  have floor_le := h.floor_le
  unfold MetaStore.journalFloor
  cases retained : history.store.retainedFloor with
  | none =>
    have same : history.store.floor = 1 := by
      unfold MetaStore.floor
      rw [retained]
      rfl
    constructor
    · intro below
      cases (h.belowFloor_first retained after).symm.trans below
    · rintro ⟨record, -, later, below⟩
      omega
  | some floor =>
    have same : history.store.floor = floor := by
      unfold MetaStore.floor
      rw [retained]
      rfl
    constructor
    · intro below
      have short : after + 1 < floor := by simpa [belowFloor] using below
      have known : 1 ≤ after + 1 ∧ after + 1 ≤ history.committed.serial := by omega
      obtain ⟨record, hr, serial⟩ := h.whole.mem_serials.mpr known
      exact ⟨record, hr, by omega, by omega⟩
    · rintro ⟨record, -, later, below⟩
      have short : after + 1 < floor := by omega
      simpa [belowFloor] using short

theorem after_eq_of_above {after : Nat}
    (above : belowFloor after history.store.currentSerial history.store.journalFloor ≠ true) :
    history.store.journal.after after = history.committed.after after := by
  refine h.after_eq ?_
  by_contra low
  have covered := h.covered
  have floor_le := h.floor_le
  have known : 1 ≤ after + 1 ∧ after + 1 ≤ history.committed.serial := by omega
  obtain ⟨record, hr, serial⟩ := h.whole.mem_serials.mpr known
  exact above ((h.belowFloor_iff after).mpr ⟨record, hr, by omega, by omega⟩)

end

end Keeps

theorem buildChangePage_belowFloor_iff
    {after limit : Nat} :
    buildChangePage encodedLen store source after limit cancelAt = .belowFloor ↔
      belowFloor after store.currentSerial store.journalFloor = true := by
  unfold buildChangePage MetaStore.visitRetainedJournalPage
  dsimp only
  split
  · rename_i below
    exact ⟨fun _ => below, fun _ => rfl⟩
  · rename_i above
    refine ⟨?_, fun below => absurd below above⟩
    split
    · nofun
    · split <;> nofun

/-- A primary after any calls, and a replica of it that stands anywhere at or
behind its head: the builder points to a checkpoint exactly when some record
after the replica's serial is below the retained floor, and everything above
the floor is still there to read; a page it builds is accepted, or refused for
its source or for what one of its records says. -/
theorem honest_page_is_usable (config : PrimaryConfig Bytes) (calls : List (PrimaryCall Bytes))
    (encodedLen : Change Bytes → Nat) (source : String) (state : Option ReplicaState)
    (limit : Nat) (cancelAt : Option Nat)
    (behind : cursorSerial state ≤ (PrimaryHistory.after config calls).store.currentSerial)
    (pinned : ∀ known ∈ state, known.source = source) (positive : 1 ≤ limit) :
    let history := PrimaryHistory.after config calls
    let built := buildChangePage encodedLen history.store source (cursorSerial state) limit cancelAt
    (built = .belowFloor ↔ ∃ record ∈ history.committed.records,
      cursorSerial state < record.1 ∧ record.1 < history.store.floor) ∧
    (∀ record ∈ history.committed.records, history.store.floor ≤ record.1 →
      record ∈ history.store.journal.records) ∧
    ∀ page, built = .encoded page →
      (∃ validated,
        ValidatedPage.new config.json page (cursorSerial state) limit state = .ok validated) ∨
      ∃ error, ValidatedPage.new config.json page (cursorSerial state) limit state =
        .error error ∧ ContentRefusal config.json source page.changes error := by
  intro history built
  have keeps : Keeps config history := PrimaryHistory.keeps_after config calls
  refine ⟨buildChangePage_belowFloor_iff.trans (keeps.belowFloor_iff _),
    fun record => keeps.mem_journal, ?_⟩
  intro page encoded
  obtain ⟨version, rfl, start, fits, head, taken, cut, changes⟩ := buildChangePage_encoded encoded
  -- the page is a stretch of everything ever committed
  have above : buildChangePage encodedLen history.store page.source (cursorSerial state) limit
      cancelAt ≠ .belowFloor := by
    intro below
    cases encoded.symm.trans below
  have same := keeps.after_eq_of_above fun below => above (buildChangePage_belowFloor_iff.mpr below)
  have short := buildChangePage_nil positive encoded
  rw [same] at cut short
  have length : taken.length = page.changes.length := by rw [changes, length_map]
  have runs := keeps.whole.stretch cut
  have upTo := cut.length_le
  rw [keeps.whole.after, length_drop, keeps.whole.length, ← keeps.serial] at upTo
  cases validated : ValidatedPage.new config.json page (cursorSerial state) limit state with
  | ok page => exact .inl ⟨page, rfl⟩
  | error error =>
    refine .inr ⟨error, rfl, ValidatedPage.new_refused version start fits pinned ?_ ?_ ?_ validated⟩
    · rw [← length, ← runs, changes, map_map]
      rfl
    · rw [head, ← length]
      show _ ≤ history.store.journal.serial
      have standing : cursorSerial state ≤ history.store.journal.serial := behind
      omega
    · intro none
      have ended := short none
      rw [keeps.whole.after, drop_eq_nil_iff, keeps.whole.length, ← keeps.serial] at ended
      exact head ▸ ended

theorem honest_page_is_usable_checkpointed :
    buildChangePage (fun _ => 100)
      (PrimaryHistory.after PlainVec.config PlainVec.checkpointed).store "primary-a" 0 10 none =
        .belowFloor := by
  refine (honest_page_is_usable PlainVec.config PlainVec.checkpointed (fun _ => 100) "primary-a"
    none 10 none (by decide +kernel) nofun (by decide)).1.mpr ⟨(1, ⟨[0],
      [.put "pypi/demo" [49]], []⟩), ?_, ?_, ?_⟩
  all_goals decide +kernel

/-- A primary may journal a row under the replication prefix; no replica takes
it. -/
theorem reserved_row_is_refused :
    let history := PrimaryHistory.after PlainVec.config
      [PlainVec.putRow "replication\x00note" [1]]
    let page : ChangePage (List UInt8) :=
      { version := protocolVersion, source := "primary-a", after := 0, currentSerial := 1
        changes := [⟨1, [0], [.put "replication\x00note" [1]], []⟩] }
    buildChangePage (fun _ => 100) history.store "primary-a" 0 10 none = .encoded page ∧
      (ValidatedPage.new PlainVec.json page 0 10 none).map (fun _ => ()) =
        .error (.reservedMetadataKey "replication\x00note") := by
  refine ⟨?_, ?_⟩
  all_goals decide +kernel

end Peryx
