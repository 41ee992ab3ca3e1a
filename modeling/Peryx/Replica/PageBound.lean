import Peryx.Replica.HonestPage

/-!
# A change page fits the wire

What `build_change_page` counts per record against the bytes `serde_json`
writes for the whole page.

- `PageWalk.Within.visit`: the count of a walk bounds the bytes written.
- `change_page_fits_the_wire`: size, limit and first record of every page.
-/

namespace Peryx

open List

variable {Bytes : Type}

/-! ## The page as bytes -/

/-- `serde_json`: a string, and a change, on their own as inside a page. -/
structure PageJson (Bytes : Type) where
  text : String → List UInt8
  change : Change Bytes → List UInt8

/-- `serde_json::to_vec` of a page. -/
def ChangePage.toVec (json : PageJson Bytes) (page : ChangePage Bytes) : List UInt8 :=
  let raw := fun text : String => text.toUTF8.toList
  raw ("\x7b\"version\":" ++ toString page.version ++ ",\"source\":") ++ json.text page.source ++
    raw (",\"after\":" ++ toString page.after ++ ",\"current_serial\":" ++
      toString page.currentSerial ++ ",\"changes\":[") ++
    (raw ",").intercalate (page.changes.map json.change) ++ raw "]\x7d"

theorem length_intercalate_le (sep : List UInt8) (parts : List (List UInt8)) :
    (sep.intercalate parts).length ≤ (parts.map fun part => part.length + sep.length).sum := by
  induction parts with
  | nil => simp
  | cons part parts ih =>
    cases parts with
    | nil => simp
    | cons next parts =>
      simp only [intercalate_cons_cons, length_append, map_cons, sum_cons] at ih ⊢
      omega

theorem ChangePage.length_toVec_le (json : PageJson Bytes) (page : ChangePage Bytes) :
    (page.toVec json).length ≤ ({ page with changes := [] }.toVec json).length +
      (page.changes.map fun change => (json.change change).length + 1).sum := by
  have comma : (",".toUTF8.toList).length = 1 := by decide +kernel
  have joined := length_intercalate_le ",".toUTF8.toList (page.changes.map json.change)
  rw [comma, map_map] at joined
  simp only [toVec, length_append, map_nil, intercalate_nil, length_nil]
  have same : (page.changes.map ((fun part => part.length + 1) ∘ json.change)).sum =
    (page.changes.map fun change => (json.change change).length + 1).sum := rfl
  omega

/-! ## What the walk has counted -/

namespace PageWalk

/-- A walk that began at `first` counts what it gathered within the bound, and
has found a record too large only where it began. -/
structure Within (encodedLen : Change Bytes → Nat) (first : Option (Nat × JournalEntry Bytes))
    (walk : PageWalk Bytes) : Prop where
  used : walk.used =
    changePageEnvelopeBytes + (walk.changes.map fun change => encodedLen change + 1).sum
  bound : walk.used ≤ maxChangePageBytes
  oversized : ∀ found ∈ walk.oversized, ∃ record ∈ first,
    found = (record.1, encodedLen (.ofRecord record)) ∧
      maxChangePageBytes < changePageEnvelopeBytes + found.2 + 1

variable {encodedLen : Change Bytes → Nat} {first : Option (Nat × JournalEntry Bytes)}
  {walk : PageWalk Bytes}

theorem Within.start (encodedLen : Change Bytes → Nat)
    (first : Option (Nat × JournalEntry Bytes)) : Within encodedLen first {} where
  used := rfl
  bound := by simp [changePageEnvelopeBytes, maxChangePageBytes]
  oversized := nofun

/-- **Step.** -/
theorem Within.visitRecord (within : walk.Within encodedLen first) (cancelAt : Option Nat)
    {record : Nat × JournalEntry Bytes} (begins : walk.changes = [] → first = some record) :
    let (walk', stop) := walk.visitRecord encodedLen cancelAt record
    walk'.Within encodedLen first ∧ (stop = false → walk'.changes ≠ []) := by
  obtain ⟨used, bound, oversized⟩ := within
  unfold PageWalk.visitRecord
  dsimp only
  split
  · exact ⟨⟨used, bound, oversized⟩, nofun⟩
  split
  · rename_i large
    split
    · rename_i empty
      have none := List.isEmpty_iff.mp empty
      refine ⟨⟨used, bound, ?_⟩, nofun⟩
      rintro found ⟨⟩
      refine ⟨record, begins none, rfl, ?_⟩
      simpa [used, none] using large
    · exact ⟨⟨used, bound, oversized⟩, nofun⟩
  · rename_i fits
    refine ⟨⟨?_, Nat.not_lt.mp fits, oversized⟩, by simp⟩
    simp only [used, map_append, sum_append, map_cons, map_nil, sum_singleton]
    omega

/-- **Run.** -/
theorem Within.visit (within : walk.Within encodedLen first) (cancelAt : Option Nat)
    (records : List (Nat × JournalEntry Bytes))
    (begins : walk.changes = [] → first = records.head?) :
    (MetaStore.visit (PageWalk.visitRecord encodedLen cancelAt) walk records).Within
      encodedLen first := by
  induction records generalizing walk with
  | nil => exact within
  | cons record records ih =>
    have step := within.visitRecord cancelAt begins
    rw [MetaStore.visit]
    generalize PageWalk.visitRecord encodedLen cancelAt walk record = visited at step
    obtain ⟨walk', stop⟩ := visited
    cases stop with
    | true => exact step.1
    | false => exact ih step.1 fun none => absurd none (step.2 rfl)

end PageWalk

/-- For any journal, start, limit and source whose empty page fits the reserved
headroom: a page is within the byte bound and the limit, carries a leading stretch of
the retained records after the start, at least one of them whenever there is any, and
is served only where the first of them fits a page of its own; so a first record that
does not fit is reported as too large unless the start is below the floor or the build
was cancelled. A record reported as too large is that first one. -/
theorem change_page_fits_the_wire (json : PageJson Bytes) (store : MetaStore Bytes)
    (source : String) (after limit : Nat) (cancelAt : Option Nat) (positive : 1 ≤ limit)
    (fits : (ChangePage.toVec json
      ⟨protocolVersion, source, after, store.currentSerial, []⟩).length ≤ changePageEnvelopeBytes) :
    match buildChangePage (fun change => (json.change change).length) store source after limit
      cancelAt with
    | .encoded page => (page.toVec json).length ≤ maxChangePageBytes ∧
        page.changes.length ≤ limit ∧ (store.journal.after after ≠ [] → page.changes ≠ []) ∧
        (∃ taken, taken <+: store.journal.after after ∧
          page.changes = taken.map Change.ofRecord) ∧
        ∀ record ∈ (store.journal.after after).head?,
          changePageEnvelopeBytes + (json.change (.ofRecord record)).length + 1 ≤ maxChangePageBytes
    | .recordTooLarge serial bytes => ∃ record ∈ (store.journal.after after).head?,
        serial = record.1 ∧ bytes = (json.change (.ofRecord record)).length ∧
        maxChangePageBytes < changePageEnvelopeBytes + bytes + 1
    | .belowFloor => belowFloor after store.currentSerial store.journalFloor = true
    | .cancelled => cancelAt ≠ none := by
  have walked := (PageWalk.Within.start (fun change => (json.change change).length) _).visit
    cancelAt ((store.journal.after after).take limit) fun _ => rfl
  rw [head?_take, if_neg (by omega)] at walked
  generalize built : buildChangePage _ store source after limit cancelAt = body
  have stored := built
  unfold buildChangePage MetaStore.visitRetainedJournalPage at stored
  dsimp only at stored
  split at stored
  · cases stored
    assumption
  split at stored
  · cases stored
    rename_i raised
    rintro rfl
    cases raised
  split at stored
  · rename_i serial bytes found
    cases stored
    obtain ⟨record, head, same, large⟩ := walked.oversized _ found
    cases same
    exact ⟨record, head, rfl, rfl, large⟩
  · cases stored
    obtain ⟨-, -, -, limited, -, taken, front, changes⟩ := buildChangePage_encoded built
    have short := buildChangePage_nil positive built
    have used := walked.used
    have bound := walked.bound
    refine ⟨?_, limited, fun retained none => retained (short none), ⟨taken, front, changes⟩, ?_⟩
    · refine (ChangePage.length_toVec_le json _).trans ?_
      dsimp only at fits ⊢
      omega
    · intro record first
      -- the page is not empty, so it begins with the first record
      obtain ⟨rest, retained⟩ := head?_eq_some_iff.mp first
      cases taken with
      | nil => exact absurd (short changes) (by rw [retained]; exact cons_ne_nil _ _)
      | cons head taken =>
        rw [retained] at front
        obtain ⟨rfl, -⟩ := cons_prefix_cons.mp front
        dsimp only at changes
        rw [changes, map_cons, map_cons, sum_cons] at used
        omega

def PlainVec.pageJson : PageJson (List UInt8) where
  text := (·.toUTF8.toList)
  change := (·.event)

theorem change_page_fits_the_wire_released :
    (ChangePage.toVec PlainVec.pageJson ⟨protocolVersion, "primary-a", 0, 1,
      [⟨1, [0], [.put "pypi/demo" [1]], []⟩]⟩).length ≤ maxChangePageBytes := by
  have fits := change_page_fits_the_wire PlainVec.pageJson
    (PrimaryHistory.after PlainVec.config [PlainVec.putRow "pypi/demo" [1]]).store "primary-a" 0 10
    none (by decide) (by decide +kernel)
  have built : buildChangePage (fun change => (PlainVec.pageJson.change change).length)
      (PrimaryHistory.after PlainVec.config [PlainVec.putRow "pypi/demo" [1]]).store "primary-a" 0
      10 none = .encoded ⟨protocolVersion, "primary-a", 0, 1,
        [⟨1, [0], [.put "pypi/demo" [1]], []⟩]⟩ := by
    decide +kernel
  rw [built] at fits
  exact fits.1

end Peryx
