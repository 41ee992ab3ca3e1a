import Peryx.Storage.Commit

/-!
# Change pages

`protocol.rs` and `change_page.rs` of `peryx-ha-distributed`: the page a
reader at some serial is served, and how a node builds it from its journal
under the byte bound, a record limit and a cancellation flag.

The encoded length of a change is a parameter (`serde_json`), and so is when
the cancellation flag is raised: before the poll of that number.
-/

namespace Peryx

open List

variable {Bytes : Type}

def protocolVersion : Nat := 1

structure BlobReference where
  sha256 : String
  size : Nat
deriving DecidableEq

def BlobReference.ofDriver (reference : DriverBlobReference) : BlobReference :=
  ⟨reference.sha256, reference.size⟩

inductive MetadataMutation (Bytes : Type) where
  | put (key : String) (value : Bytes)
  | delete (key : String)
deriving DecidableEq

namespace MetadataMutation

def key : MetadataMutation Bytes → String
  | .put key _ => key
  | .delete key => key

def ofDriver : DriverMutation Bytes → MetadataMutation Bytes
  | .put key value => .put key value
  | .delete key => .delete key

end MetadataMutation

structure Change (Bytes : Type) where
  serial : Nat
  event : Bytes
  metadata : List (MetadataMutation Bytes) := []
  blobs : List BlobReference := []
deriving DecidableEq

def Change.ofRecord (record : Nat × JournalEntry Bytes) : Change Bytes where
  serial := record.1
  event := record.2.payload
  metadata := record.2.mutations.map .ofDriver
  blobs := record.2.blobs.map .ofDriver

/-- A page read from one stable primary identity after an exclusive serial. -/
structure ChangePage (Bytes : Type) where
  version : Nat
  source : String
  after : Nat
  currentSerial : Nat
  changes : List (Change Bytes)
deriving DecidableEq

/-! ## Building a page -/

def maxChangePageBytes : Nat := 4 * 1024 * 1024

/-- Headroom for the page fields and JSON framing outside the change array. -/
def changePageEnvelopeBytes : Nat := 4 * 1024

inductive ChangePageBody (Bytes : Type) where
  | encoded (page : ChangePage Bytes)
  | recordTooLarge (serial bytes : Nat)
  | belowFloor
  | cancelled
deriving DecidableEq

/-- Whether the records after `after` are gone. -/
def belowFloor (after currentSerial : Nat) : Option Nat → Bool
  | some floor => after + 1 < floor
  | none => after < currentSerial

/-- What the walk over the journal has gathered, and how often it has polled
the cancellation flag. -/
structure PageWalk (Bytes : Type) where
  changes : List (Change Bytes) := []
  used : Nat := changePageEnvelopeBytes
  oversized : Option (Nat × Nat) := none
  polls : Nat := 0

/-- The flag is raised once and stays raised. -/
def isCancelled (cancelAt : Option Nat) (poll : Nat) : Bool :=
  cancelAt.any (· ≤ poll)

variable (encodedLen : Change Bytes → Nat)

/-- One record of the walk; `true` stops it. -/
def PageWalk.visitRecord (cancelAt : Option Nat)
    (walk : PageWalk Bytes) (record : Nat × JournalEntry Bytes) : PageWalk Bytes × Bool :=
  let polled := { walk with polls := walk.polls + 1 }
  if isCancelled cancelAt walk.polls then
    (polled, true)
  else
    let change := Change.ofRecord record
    let bytes := encodedLen change
    -- one more byte for the separator the change needs in the array
    if walk.used + bytes + 1 > maxChangePageBytes then
      if walk.changes.isEmpty then
        ({ polled with oversized := some (change.serial, bytes) }, true)
      else
        (polled, true)
    else
      ({ polled with used := walk.used + bytes + 1, changes := walk.changes ++ [change] }, false)

/-- Reads and encodes one page of `store`'s journal. -/
def buildChangePage (store : MetaStore Bytes)
    (source : String) (after limit : Nat) (cancelAt : Option Nat) : ChangePageBody Bytes :=
  let (walk, currentSerial, floor) := store.visitRetainedJournalPage after limit
    (PageWalk.visitRecord encodedLen cancelAt) {}
  if belowFloor after currentSerial floor then
    .belowFloor
  else if isCancelled cancelAt walk.polls then
    .cancelled
  else
    match walk.oversized with
    | some (serial, bytes) => .recordTooLarge serial bytes
    | none =>
      .encoded { version := protocolVersion, source, after, currentSerial, changes := walk.changes }

/-! ## A page is a stretch of the journal -/

/-- **Step.** A record either stops the walk and adds nothing, or is added. -/
theorem PageWalk.visitRecord_changes (cancelAt : Option Nat)
    (walk : PageWalk Bytes) (record : Nat × JournalEntry Bytes) :
    (walk.visitRecord encodedLen cancelAt record).1.changes =
      if (walk.visitRecord encodedLen cancelAt record).2 then walk.changes
      else walk.changes ++ [Change.ofRecord record] := by
  unfold visitRecord
  dsimp only
  split
  · rfl
  · split
    · split <;> rfl
    · rfl

/-- **Run.** A walk gathers a leading stretch of the records. -/
theorem PageWalk.visit_changes (cancelAt : Option Nat)
    (records : List (Nat × JournalEntry Bytes)) (walk : PageWalk Bytes) :
    ∃ taken, taken <+: records ∧
      (MetaStore.visit (visitRecord encodedLen cancelAt) walk records).changes =
        walk.changes ++ taken.map Change.ofRecord := by
  induction records generalizing walk with
  | nil => exact ⟨[], prefix_rfl, by simp [MetaStore.visit]⟩
  | cons record records ih =>
    have step := visitRecord_changes encodedLen cancelAt walk record
    rw [MetaStore.visit]
    generalize visitRecord encodedLen cancelAt walk record = visited at step
    obtain ⟨walk', stop⟩ := visited
    cases stop with
    | true => exact ⟨[], nil_prefix, by simpa using step⟩
    | false =>
      obtain ⟨taken, isPrefix, changes⟩ := ih walk'
      refine ⟨record :: taken, (cons_prefix_cons).mpr ⟨rfl, isPrefix⟩, ?_⟩
      simp only [Bool.false_eq_true, if_false] at step
      rw [changes, step, map_cons, append_assoc, singleton_append]

theorem buildChangePage_encoded {encodedLen : Change Bytes → Nat} {store : MetaStore Bytes}
    {source : String} {after limit : Nat} {cancelAt : Option Nat} {page : ChangePage Bytes}
    (h : buildChangePage encodedLen store source after limit cancelAt = .encoded page) :
    page.version = protocolVersion ∧ page.source = source ∧ page.after = after ∧
      page.changes.length ≤ limit ∧ page.currentSerial = store.currentSerial ∧
      ∃ taken, taken <+: store.journal.after after ∧
        page.changes = taken.map Change.ofRecord := by
  obtain ⟨taken, isPrefix, changes⟩ := PageWalk.visit_changes encodedLen cancelAt
    ((store.journal.after after).take limit) {}
  unfold buildChangePage MetaStore.visitRetainedJournalPage at h
  dsimp only at h
  split at h
  · cases h
  · split at h
    · cases h
    · split at h
      · cases h
      · cases h
        have gathered : _ = taken.map Change.ofRecord := changes
        refine ⟨rfl, rfl, rfl, ?_, rfl, taken, isPrefix.trans ( take_prefix _ _), gathered⟩
        rw [gathered, length_map]
        exact isPrefix.length_le.trans ( length_take_le _ _)

end Peryx
