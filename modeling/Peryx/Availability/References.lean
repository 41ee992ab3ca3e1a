import Peryx.Storage.Commit

/-!
# Scanning references

Which digests the driver rows reference is assembled from several reads that
share no transaction. The reference revision, which every commit of rows moves,
tells whether they describe one state (`meta/index.rs`): a scan is worth what it
says of the rows for as long as the revision it began at is the current one.
-/

namespace Peryx

open List Peryx.Except Finset

variable {Bytes : Type}

/-- What each part of the inventory (a driver's scan, a listing of trash) reads
off the rows. -/
abbrev Inventory (Bytes : Type) := List (BTreeMap String Bytes → Finset String)

def Referenced (inventory : Inventory Bytes) (rows : BTreeMap String Bytes)
    (digest : String) : Prop :=
  ∃ part ∈ inventory, digest ∈ part rows

/-- A scan under way: the revision it began at, the parts it has not read yet
and the digests it has found. -/
structure ReferenceScan (Bytes : Type) where
  revision : Nat
  left : Inventory Bytes
  digests : Finset String

namespace ReferenceScan

def start (inventory : Inventory Bytes) (metadata : MetaStore Bytes) : ReferenceScan Bytes :=
  { revision := metadata.referenceRevision, left := inventory, digests := ∅ }

/-- Reads one part off the rows of the moment. `others` is what the parts of the
inventory that do not read rows add, a published checkpoint's blobs among them. -/
def read (scan : ReferenceScan Bytes) (part : BTreeMap String Bytes → Finset String)
    (left : Inventory Bytes) (metadata : MetaStore Bytes) (others : Finset String) :
    ReferenceScan Bytes :=
  { scan with left, digests := scan.digests ∪ part metadata.driverKv ∪ others }

end ReferenceScan

/-! ## What a scan shows -/

/-- While the revision stands, the digests are all that these parts reference. -/
structure ScanCovers (parts : Inventory Bytes) (metadata : MetaStore Bytes) (revision : Nat)
    (digests : Finset String) : Prop where
  past : revision ≤ metadata.referenceRevision
  all : metadata.referenceRevision = revision →
    ∀ part ∈ parts, part metadata.driverKv ⊆ digests

/-- The rows stay as they are, or the revision moves on. -/
def RowsMove (before after : MetaStore Bytes) : Prop :=
  (after.driverKv = before.driverKv ∧ after.referenceRevision = before.referenceRevision) ∨
    before.referenceRevision < after.referenceRevision

variable {parts inventory : Inventory Bytes} {metadata metadata' : MetaStore Bytes}
  {revision : Nat} {digests : Finset String}

theorem ScanCovers.move (covers : ScanCovers parts metadata revision digests)
    (move : RowsMove metadata metadata') : ScanCovers parts metadata' revision digests := by
  obtain ⟨rows, same⟩ | moved := move
  · refine ⟨same ▸ covers.past, fun stands => ?_⟩
    rw [rows]
    exact covers.all (same ▸ stands)
  · have past := covers.past
    exact ⟨by omega, fun stands => by omega⟩

theorem ScanCovers.referenced (covers : ScanCovers inventory metadata revision digests)
    (stands : metadata.referenceRevision = revision) {digest : String} (absent : digest ∉ digests) :
    ¬ Referenced inventory metadata.driverKv digest := by
  rintro ⟨part, mem, found⟩
  exact absent (covers.all stands part mem found)

namespace ReferenceScan

variable {scan : ReferenceScan Bytes}

def Sound (inventory : Inventory Bytes) (metadata : MetaStore Bytes)
    (scan : ReferenceScan Bytes) : Prop :=
  ∃ read, inventory = read ++ scan.left ∧ ScanCovers read metadata scan.revision scan.digests

theorem sound_start (inventory : Inventory Bytes) (metadata : MetaStore Bytes) :
    (start inventory metadata).Sound inventory metadata :=
  ⟨[], rfl, Nat.le_refl _, by simp⟩

theorem Sound.move (sound : scan.Sound inventory metadata) (move : RowsMove metadata metadata') :
    scan.Sound inventory metadata' := by
  obtain ⟨read, split, covers⟩ := sound
  exact ⟨read, split, covers.move move⟩

theorem Sound.read (sound : scan.Sound inventory metadata)
    {part : BTreeMap String Bytes → Finset String} {left : Inventory Bytes}
    (next : scan.left = part :: left) (others : Finset String) :
    (scan.read part left metadata others).Sound inventory metadata := by
  obtain ⟨done, split, covers⟩ := sound
  refine ⟨done ++ [part], ?_, covers.past, fun stands other mem => ?_⟩
  · rw [split, next, append_assoc]
    rfl
  · have wider : scan.digests ⊆ (scan.read part left metadata others).digests :=
      subset_union_left.trans subset_union_left
    obtain mem | mem := mem_append.mp mem
    · exact (covers.all stands other mem).trans wider
    · cases List.mem_singleton.mp mem
      exact subset_union_right.trans subset_union_left

theorem Sound.covers (sound : scan.Sound inventory metadata) (done : scan.left = []) :
    ScanCovers inventory metadata scan.revision scan.digests := by
  obtain ⟨read, split, covers⟩ := sound
  rw [done, List.append_nil] at split
  exact split ▸ covers

end ReferenceScan

/-! ## Commits move the revision -/

namespace DriverTxn

variable {rows : BTreeMap String Bytes}

/-- **Step.** A body that has written no rows has left them as they were. -/
theorem perform_rows {txn : DriverTxn Bytes} (unwritten : txn.wroteRows = false → txn.table = rows)
    (op : DriverOp Bytes) :
    (txn.perform op).wroteRows = false → (txn.perform op).table = rows := by
  cases op with
  | put | upsert | putLocal | upsertLocal =>
    intro written
    cases written
  | referenceBlob => exact unwritten
  | remove key =>
    by_cases present : txn.table[key]?.isSome
    · simp only [perform, remove, if_pos present]
      intro written
      cases written
    · simp only [perform, remove, if_neg present]
      rw [BTreeMap.erase_of_absent (Option.not_isSome_iff_eq_none.mp present)]
      exact unwritten
  | removeLocal key =>
    by_cases present : txn.table[key]?.isSome
    · simp only [perform, removeLocal, present, Bool.or_true]
      intro written
      cases written
    · simp only [perform, removeLocal, present, Bool.or_false]
      rw [BTreeMap.erase_of_absent (Option.not_isSome_iff_eq_none.mp present)]
      exact unwritten

theorem performAll_rows (ops : List (DriverOp Bytes)) {txn : DriverTxn Bytes}
    (unwritten : txn.wroteRows = false → txn.table = rows) :
    (txn.performAll ops).wroteRows = false → (txn.performAll ops).table = rows := by
  induction ops generalizing txn with
  | nil => exact unwritten
  | cons op ops ih => exact ih (perform_rows unwritten op)

end DriverTxn

theorem rowsMove_commit {ops : List (DriverOp Bytes)} {journal : PendingJournal Bytes}
    {expectedSerial : Option Nat} {now : Int64} {collectorActive : Bool} {serial : Option Nat}
    (committed : metadata.commitDriverTxnWithJournal id expectedSerial now collectorActive
      (fun txn => .ok (txn.performAll ops, journal)) = .ok (metadata', serial)) :
    RowsMove metadata metadata' := by
  obtain ⟨_, -, committed⟩ := bind_eq_ok.mp committed
  obtain ⟨_, ran, committed⟩ := bind_eq_ok.mp committed
  obtain ⟨guards, -, committed⟩ := bind_eq_ok.mp committed
  cases ran
  cases committed
  unfold RowsMove MetaStore.written
  dsimp only
  cases wrote : (metadata.beginWrite.performAll ops).wroteRows with
  | true =>
    right
    exact Nat.lt_succ_self _
  | false =>
    left
    exact ⟨DriverTxn.performAll_rows ops (fun _ => rfl) wrote, if_neg Bool.false_ne_true⟩

end Peryx
