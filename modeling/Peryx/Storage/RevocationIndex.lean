import Peryx.Storage.RevocationQuery

/-!
# The status index of revocations is exact

The rows of `meta/revocation.rs` imply the status index and the active count,
and every step keeps both what the rows imply.

- `Exact.applyDigestRevocation`: one write keeps index and count.
- `revocation_index_is_exact`: every run, and what its listings answer.
-/

namespace Peryx

open BTreeMap List Option Finset Std.ExtTreeMap

namespace RevocationTables

/-! ## What rows imply -/

/-- The index has an entry for each row under its status, and the count is that
of the active rows. -/
structure Exact (tables : RevocationTables) : Prop where
  index : tables.byStatus = (statusEntries tables.records).toFinset
  count : tables.activeCount = activeRows tables.records

end RevocationTables

def Keyed (records : BTreeMap String DigestRevocation) : Prop :=
  ∀ (key : String) (record : DigestRevocation), records[key]? = some record →
    record.digest.canonical = key

theorem mem_statusEntries {records : BTreeMap String DigestRevocation} {entry : String} :
    entry ∈ statusEntries records ↔ ∃ (digest : String) (record : DigestRevocation),
      records[digest]? = some record ∧ indexKey record.state.status digest = entry := by
  simp only [statusEntries, List.mem_map, Prod.exists, mem_toList_iff_getElem?_eq_some]

/-! ## Index keys -/

theorem indexKey_active_lt_lifted (a b : String) : indexKey .active a < indexKey .lifted b := by
  rw [String.lt_iff_toList_lt, indexKey, indexKey, String.toList_append, String.toList_append]
  exact List.Lex.rel (by decide)

theorem stripPrefix_active_lifted (digest : String) :
    stripPrefix DigestRevocationStatus.active.indexPrefix (indexKey .lifted digest) = none := by
  rw [stripPrefix, if_neg]
  rw [indexKey, String.toList_append]
  rintro ⟨rest, begins⟩
  simp [DigestRevocationStatus.indexPrefix] at begins

theorem indexKey_lt_indexKey {status : DigestRevocationStatus} {a b : String} :
    indexKey status a < indexKey status b ↔ a < b :=
  Keys.append_lt_append_left _ _ _

theorem indexKey_inj {status status' : DigestRevocationStatus} {a b : String} :
    indexKey status a = indexKey status' b ↔ status = status' ∧ a = b := by
  refine ⟨fun same => ?_, fun ⟨hs, ha⟩ => hs ▸ ha ▸ rfl⟩
  cases status <;> cases status'
  · exact ⟨rfl, String.append_right_inj _ |>.mp same⟩
  · exact absurd same (ne_of_lt (indexKey_active_lt_lifted a b))
  · exact absurd same (ne_of_gt (indexKey_active_lt_lifted b a))
  · exact ⟨rfl, String.append_right_inj _ |>.mp same⟩

/-! ## Rows of one status -/

def rowsOf (records : BTreeMap String DigestRevocation) (status : DigestRevocationStatus) :
    List (String × DigestRevocation) :=
  records.toList.filter fun row => row.2.state.status = status

section

variable {records : BTreeMap String DigestRevocation} {status : DigestRevocationStatus}

theorem mem_rowsOf {row : String × DigestRevocation} :
    row ∈ rowsOf records status ↔ records[row.1]? = some row.2 ∧ row.2.state.status = status := by
  rw [rowsOf, List.mem_filter, mem_toList_iff_getElem?_eq_some, decide_eq_true_iff]

theorem ordered_rowsOf : (rowsOf records status).Pairwise fun a b => compare a.1 b.1 = .lt :=
  ordered_keys_toList.sublist filter_sublist

theorem nodup_statusEntries : (statusEntries records).Nodup := by
  refine (pairwise_map.mpr ?_)
  refine ordered_keys_toList.imp fun {a b} before same => ?_
  obtain ⟨-, same⟩ := indexKey_inj.mp same
  exact absurd same (ne_of_lt (compare_lt_iff_lt.mp before))

theorem statusEntries_eq_rowsOf {entry : String} :
    entry ∈ statusEntries records ↔
      entry ∈ (rowsOf records .active).map (fun row => indexKey .active row.1) ++
        (rowsOf records .lifted).map (fun row => indexKey .lifted row.1) := by
  simp only [mem_statusEntries, mem_append, List.mem_map, Prod.exists, mem_rowsOf]
  constructor
  · rintro ⟨digest, record, stored, rfl⟩
    cases status : record.state.status with
    | active => exact .inl ⟨digest, record, ⟨stored, status⟩, rfl⟩
    | lifted => exact .inr ⟨digest, record, ⟨stored, status⟩, rfl⟩
  · rintro (⟨digest, record, ⟨stored, status⟩, rfl⟩ | ⟨digest, record, ⟨stored, status⟩, rfl⟩)
    all_goals exact ⟨digest, record, stored, by rw [status]⟩

theorem ordered_entries_rowsOf :
    ((rowsOf records status).map fun row => indexKey status row.1).Pairwise (· < ·) :=
  pairwise_map.mpr (ordered_rowsOf.imp fun before =>
    indexKey_lt_indexKey.mpr (compare_lt_iff_lt.mp before))

end

variable {tables : RevocationTables}

namespace RevocationTables

theorem Exact.sort_byStatus (exact : tables.Exact) :
    tables.byStatus.sort (· ≤ ·) =
      (rowsOf tables.records .active).map (fun row => indexKey .active row.1) ++
        (rowsOf tables.records .lifted).map (fun row => indexKey .lifted row.1) := by
  have ordered : ((rowsOf tables.records .active).map (fun row => indexKey .active row.1) ++
      (rowsOf tables.records .lifted).map (fun row => indexKey .lifted row.1)).Pairwise
        (· < ·) := by
    refine pairwise_append.mpr ⟨ordered_entries_rowsOf, ordered_entries_rowsOf, ?_⟩
    intro a ha b hb
    obtain ⟨active, -, rfl⟩ := List.mem_map.mp ha
    obtain ⟨lifted, -, rfl⟩ := List.mem_map.mp hb
    exact indexKey_active_lt_lifted _ _
  refine List.Pairwise.eq_of_mem_iff (sortedLT_sort _).pairwise ordered fun entry => ?_
  rw [mem_sort, exact.index, List.mem_toFinset, statusEntries_eq_rowsOf]

/-! ## Pages -/

instance : Ord ArtifactDigest := ⟨compareOn ArtifactDigest.canonical⟩

instance : Std.TransOrd ArtifactDigest :=
  inferInstanceAs (Std.TransCmp (compareOn ArtifactDigest.canonical))

theorem indexPrefix_eq (status : DigestRevocationStatus) :
    status.indexPrefix = indexKey status "" :=
  String.append_empty.symm

theorem aboveLower_own (status : DigestRevocationStatus) (cursor : Option String)
    (rows : List (String × DigestRevocation)) :
    (rows.map fun row => indexKey status row.1).filter (aboveLower status cursor) =
      (Paging.after Prod.fst rows cursor).map fun row => indexKey status row.1 := by
  rw [List.filter_map]
  congr 1
  cases cursor with
  | none =>
    refine List.filter_eq_self.mpr fun row _ => ?_
    refine decide_eq_true (not_lt.mp fun before => ?_)
    rw [indexPrefix_eq, indexKey_lt_indexKey, String.lt_iff_toList_lt] at before
    exact not_lt_nil _ before
  | some cursor =>
    refine List.filter_congr fun row _ => ?_
    exact decide_eq_decide.mpr (indexKey_lt_indexKey.trans compare_lt_iff_lt.symm)

theorem Exact.range_eq (exact : tables.Exact) (status : DigestRevocationStatus)
    (cursor : Option String) :
    ∃ others, (∀ key ∈ others.head?, stripPrefix status.indexPrefix key = none) ∧
      (tables.byStatus.sort (· ≤ ·)).filter (aboveLower status cursor) =
        (Paging.after Prod.fst (rowsOf tables.records status) cursor).map
          (fun row => indexKey status row.1) ++ others := by
  rw [exact.sort_byStatus, filter_append]
  cases status with
  | active =>
    refine ⟨_, ?_, congrArg (· ++ _) (aboveLower_own .active cursor _)⟩
    intro key mem
    have listed := (List.mem_filter.mp (mem_of_mem_head? mem)).1
    obtain ⟨row, -, rfl⟩ := List.mem_map.mp listed
    exact stripPrefix_active_lifted _
  | lifted =>
    -- the active entries are all below the range
    have before : ((rowsOf tables.records .active).map fun row => indexKey .active row.1).filter
        (aboveLower .lifted cursor) = [] := by
      refine filter_eq_nil_iff.mpr fun key mem => ?_
      obtain ⟨row, -, rfl⟩ := List.mem_map.mp mem
      cases cursor with
      | none =>
        rw [aboveLower, indexPrefix_eq, decide_eq_true_iff]
        exact not_le.mpr (indexKey_active_lt_lifted _ _)
      | some cursor =>
        rw [aboveLower, decide_eq_true_iff]
        exact lt_asymm (indexKey_active_lt_lifted _ _)
    refine ⟨[], nofun, ?_⟩
    rw [before, nil_append, List.append_nil, aboveLower_own]

theorem resolve_rows {status : DigestRevocationStatus} {others : List String}
    (foreign : ∀ key ∈ others.head?, stripPrefix status.indexPrefix key = none) :
    ∀ (room : Nat) (rows : List (String × DigestRevocation)),
      (∀ row ∈ rows, tables.records[row.1]? = some row.2) →
      tables.resolve status.indexPrefix room
          (rows.map (fun row => indexKey status row.1) ++ others) =
        .ok ((rows.take (room + 1)).map (·.2))
  | room, [], _ => by
    cases others with
    | nil => cases room <;> rfl
    | cons key keys =>
      have stop := foreign key rfl
      rw [map_nil, nil_append, resolve.eq_def]
      simp only [stop]
      rfl
  | room, row :: rows, stored => by
    have first := stored row List.mem_cons_self
    rw [List.map_cons, cons_append, resolve.eq_def]
    simp only [indexKey, stripPrefix_append, first]
    cases room with
    | zero => rfl
    | succ room =>
      have rest := resolve_rows foreign room rows fun row mem => stored row (.tail _ mem)
      simp only [indexKey] at rest
      simp only [rest]
      rfl

theorem Exact.statusPage_eq (exact : tables.Exact) (status : DigestRevocationStatus)
    (cursor : Option String) (limit : Nat) :
    tables.statusPage status cursor limit =
      .ok (((Paging.after Prod.fst (rowsOf tables.records status) cursor).take
        (limit + 1)).map (·.2)) := by
  obtain ⟨others, foreign, range⟩ := exact.range_eq status cursor
  rw [statusPage, range]
  refine resolve_rows foreign limit _ fun row mem => ?_
  exact (mem_rowsOf.mp ((Paging.after_sublist cursor).mem mem)).1

/-- One page of a walk over a status: its rows, and the cursor the caller asks
for the next one with. -/
def statusListing (tables : RevocationTables) (status : DigestRevocationStatus) (limit : Nat)
    (cursor : Option ArtifactDigest) :
    Except DigestRevocationQueryError (List DigestRevocation × Option ArtifactDigest) :=
  (tables.queryDigestRevocations { status := some status, cursor, limit }).map fun page =>
    (page.revocations, page.nextCursor.bind ArtifactDigest.fromStr)

def statusLeft (tables : RevocationTables) (status : DigestRevocationStatus)
    (cursor : Option ArtifactDigest) : List DigestRevocation :=
  (Paging.after Prod.fst (rowsOf tables.records status) (cursor.map (·.canonical))).map (·.2)

theorem fromStr_canonical (digest : ArtifactDigest) :
    ArtifactDigest.fromStr digest.canonical = some digest := by
  rw [ArtifactDigest.fromStr, ArtifactDigest.canonical, stripPrefix_append, bind_some,
    dif_pos digest.valid]

variable {limit : Nat}

/-- A truncated page is a cut at its digests, whose texts read back. -/
theorem truncate_eq_cut (left : List DigestRevocation) :
    ((DigestRevocationPage.truncate limit left).revocations,
        (DigestRevocationPage.truncate limit left).nextCursor.bind ArtifactDigest.fromStr) =
      Paging.cut (·.digest) limit left := by
  refine Prod.ext rfl ?_
  dsimp only [DigestRevocationPage.truncate, Paging.cut]
  by_cases longer : limit < left.length
  · rw [if_pos longer, if_pos longer]
    cases left[limit - 1]? with
    | none => rfl
    | some last => exact fromStr_canonical last.digest
  · rw [if_neg longer, if_neg longer]
    rfl

theorem Exact.statusListing_eq (exact : tables.Exact) (status : DigestRevocationStatus)
    (valid : 1 ≤ limit ∧ limit ≤ maxRevocationQueryLimit)
    (cursor : Option ArtifactDigest) :
    tables.statusListing status limit cursor =
      .ok (Paging.cut (·.digest) limit (tables.statusLeft status cursor)) := by
  rw [statusListing, queryDigestRevocations, if_pos valid, ← Paging.cut_take valid.1,
    ← truncate_eq_cut]
  simp only [exact.statusPage_eq, Except.mapError, map_take, Except.map]
  rfl

theorem statusLeft_eq (keyed : Keyed tables.records) (status : DigestRevocationStatus) :
    tables.statusLeft status =
      Paging.after (·.digest) ((rowsOf tables.records status).map (·.2)) := by
  funext cursor
  cases cursor with
  | none => rfl
  | some digest =>
    rw [statusLeft, map_some, Paging.after, Paging.after, List.filter_map]
    refine congrArg _ (List.filter_congr fun row mem => ?_)
    rw [← keyed _ _ (mem_rowsOf.mp mem).1]
    rfl

theorem Exact.pages (exact : tables.Exact) (keyed : Keyed tables.records)
    (status : DigestRevocationStatus)
    (valid : 1 ≤ limit ∧ limit ≤ maxRevocationQueryLimit) :
    Paging.Pages (tables.statusListing status limit) (tables.statusLeft status) := by
  have ordered : ((rowsOf tables.records status).map (·.2)).Pairwise fun a b =>
      compare a.digest b.digest = .lt := by
    refine pairwise_map.mpr (ordered_rowsOf.imp_of_mem fun {a b} ha hb lt => ?_)
    rw [← keyed _ _ (mem_rowsOf.mp ha).1, ← keyed _ _ (mem_rowsOf.mp hb).1] at lt
    exact lt
  rw [statusLeft_eq keyed]
  refine Paging.pages_of_cut ordered valid.1 fun {cursor answer} given => ?_
  rw [← statusLeft_eq keyed]
  exact Except.ok.inj (given.symm.trans (exact.statusListing_eq status valid cursor))

/-! ## Writing a row -/

end RevocationTables

section

variable (records : BTreeMap String DigestRevocation) (key : String) (record : DigestRevocation)

theorem statusEntries_insert :
    (statusEntries (records.insert key record)).toFinset =
      insert (indexKey record.state.status key) (statusEntries (records.erase key)).toFinset := by
  rw [statusEntries, toFinset_eq_of_perm _ _
    ((toList_insert_perm records key record).map _), List.map_cons, toFinset_cons]
  rfl

theorem activeRows_insert :
    activeRows (records.insert key record) =
      activeRows (records.erase key) + if record.state.status = .active then 1 else 0 := by
  rw [activeRows, ((toList_insert_perm records key record).filter _).length_eq,
    List.filter_cons, activeRows]
  by_cases active : record.state.status = .active
  · simp [active]
  · simp [active]

theorem indexKey_notMem_erase (status : DigestRevocationStatus) :
    indexKey status key ∉ (statusEntries (records.erase key)).toFinset := by
  rw [List.mem_toFinset, mem_statusEntries]
  rintro ⟨digest, other, stored, same⟩
  obtain ⟨-, rfl⟩ := indexKey_inj.mp same
  rw [get_erase_self] at stored
  cases stored

end

namespace RevocationTables

/-- A record that is written where a row already stands, or is active. -/
def Known (tables : RevocationTables) (record : DigestRevocation) : Prop :=
  record.state.status = .lifted → tables.records[record.digest.canonical]? ≠ none

instance (tables : RevocationTables) (record : DigestRevocation) :
    Decidable (tables.Known record) :=
  inferInstanceAs (Decidable (_ → _))

def countOverflow : MetaError :=
  .driverPrecondition "digest revocation active count overflow"

def countUnderflow : MetaError :=
  .driverPrecondition "digest revocation active count underflow"

theorem Exact.share (exact : tables.Exact) {key : String} {old : DigestRevocation}
    (found : tables.records[key]? = some old) :
    tables.byStatus = insert (indexKey old.state.status key)
        (statusEntries (tables.records.erase key)).toFinset ∧
      tables.activeCount = activeRows (tables.records.erase key) +
        if old.state.status = .active then 1 else 0 := by
  have index := statusEntries_insert (tables.records.erase key) key old
  have count := activeRows_insert (tables.records.erase key) key old
  have absent := erase_of_absent (get_erase_self tables.records key)
  rw [insert_erase found, absent] at index count
  exact ⟨exact.index.trans index, exact.count.trans count⟩

theorem exact_insert (record : DigestRevocation) {key : String} {rest : Finset String}
    {count : Nat} (index : rest = (statusEntries (tables.records.erase key)).toFinset)
    (active : count = activeRows (tables.records.erase key) +
      if record.state.status = .active then 1 else 0) :
    Exact ⟨tables.records.insert key record, insert (indexKey record.state.status key) rest,
      count⟩ where
  index := by rw [statusEntries_insert, index]
  count := by rw [activeRows_insert, active]

theorem Exact.applyDigestRevocation (exact : tables.Exact) {record : DigestRevocation}
    (known : tables.Known record) :
    (∃ tables', tables.applyDigestRevocation record = .ok tables' ∧ tables'.Exact) ∨
      tables.applyDigestRevocation record = .error countOverflow := by
  unfold RevocationTables.applyDigestRevocation
  dsimp only
  cases found : tables.records[record.digest.canonical]? with
  | none =>
    have absent := erase_of_absent found
    cases status : record.state.status with
    | lifted => exact absurd found (known status)
    | active =>
      rw [map_none, if_neg nofun]
      dsimp only
      split
      · refine .inl ⟨_, rfl, status ▸ exact_insert record (by rw [absent, exact.index]) ?_⟩
        rw [absent, exact.count, if_pos status]
      · exact .inr rfl
  | some old =>
    obtain ⟨index, count⟩ := exact.share found
    have apart := indexKey_notMem_erase tables.records record.digest.canonical
    rw [map_some]
    by_cases same : old.state.status = record.state.status
    · rw [if_pos (congrArg some same)]
      rw [same] at index count
      refine .inl ⟨_, rfl, ?_⟩
      have whole := exact_insert record rfl count
      rwa [← index] at whole
    · rw [if_neg fun h => same (Option.some.inj h)]
      have dropped : tables.byStatus.erase (indexKey old.state.status record.digest.canonical) =
          (statusEntries (tables.records.erase record.digest.canonical)).toFinset := by
        rw [index, erase_insert (apart _)]
      cases status : record.state.status with
      | active =>
        have was : old.state.status ≠ .active := fun h => same (h.trans status.symm)
        rw [if_neg was] at count
        dsimp only
        split
        · refine .inl ⟨_, rfl, status ▸ exact_insert record dropped ?_⟩
          rw [count, if_pos status]
        · exact .inr rfl
      | lifted =>
        have was : old.state.status = .active := by
          cases h : old.state.status with
          | active => rfl
          | lifted => exact absurd (h.trans status.symm) same
        have is : record.state.status ≠ .active := by rw [status]; nofun
        rw [if_pos was] at count
        dsimp only
        rw [if_neg (by omega)]
        refine .inl ⟨_, rfl, status ▸ exact_insert record dropped ?_⟩
        rw [count, if_neg is]
        rfl

/-! ## Rebuilding -/

theorem card_statusEntries (records : BTreeMap String DigestRevocation) :
    (statusEntries records).toFinset.card = records.size := by
  rw [toFinset_card_of_nodup nodup_statusEntries, statusEntries, length_map,
    Std.ExtTreeMap.length_toList]

theorem exact_replaceDigestRevocations (records : BTreeMap String DigestRevocation) :
    (replaceDigestRevocations records).Exact :=
  ⟨rfl, rfl⟩

/-- A backfill makes any tables exact. It leaves an index alone that has every
entry and no more entries than there are rows. -/
theorem exact_backfill (tables : RevocationTables) :
    tables.backfillDigestRevocationState.Exact where
  count := rfl
  index := by
    unfold backfillDigestRevocationState
    dsimp only
    split
    · rfl
    next kept =>
      simp only [Bool.or_eq_true, Bool.not_eq_true', bne_iff_ne, not_or, Bool.not_eq_false,
        not_not, List.all_eq_true, decide_eq_true_iff] at kept
      have all : (statusEntries tables.records).toFinset ⊆ tables.byStatus :=
        fun entry mem => kept.1 entry (List.mem_toFinset.mp mem)
      refine (eq_of_subset_of_card_le all ?_).symm
      rw [kept.2, card_statusEntries]

end RevocationTables

/-! ## Runs -/

structure RevocationTables.Sound (tables : RevocationTables) : Prop where
  exact : tables.Exact
  keyed : Keyed tables.records

theorem Keyed.insert {records : BTreeMap String DigestRevocation} (keyed : Keyed records)
    (record : DigestRevocation) : Keyed (records.insert record.digest.canonical record) := by
  intro key stored found
  obtain ⟨same, rfl⟩ | ⟨-, found⟩ := of_get_insert found
  · exact same
  · exact keyed key stored found

theorem RevocationTables.Sound.applyDigestRevocation {tables tables' : RevocationTables}
    (sound : tables.Sound) {record : DigestRevocation} (known : tables.Known record)
    (applied : tables.applyDigestRevocation record = .ok tables') : tables'.Sound := by
  obtain ⟨after, same, exact⟩ | failed := sound.exact.applyDigestRevocation known
  · cases same.symm.trans applied
    refine ⟨exact, ?_⟩
    rw [records_applyDigestRevocation applied]
    exact sound.keyed.insert record
  · cases failed.symm.trans applied

/-- What a step needs: a lifted record that is replayed finds a row, and a
checkpoint has its rows under their own digests. -/
def RevocationCall.Fits (tables : RevocationTables) : RevocationCall → Prop
  | .replay record => tables.Known record
  | .replace records => Keyed records
  | _ => True

namespace MetaStore

variable {Bytes : Type} (json : SerdeJson Bytes) {store : MetaStore Bytes}

theorem revocations_writeDigestRevocation (record : DigestRevocation) :
    (store.writeDigestRevocation json record).map (·.revocations) =
      store.revocations.applyDigestRevocation record := by
  unfold writeDigestRevocation
  cases store.revocations.applyDigestRevocation record <;> rfl

theorem putDigestRevocation_cases (digest : ArtifactDigest) (reason actor : String) (now : Int64) :
    (∃ outcome, store.putDigestRevocation json digest reason actor now = .ok (store, outcome)) ∨
    store.putDigestRevocation json digest reason actor now = .error .reasonConflict ∨
    ∃ (record : DigestRevocation) (outcome : PutRevocationOutcome), record.state = .active ∧
      store.putDigestRevocation json digest reason actor now =
        ((store.writeDigestRevocation json record).map (·, outcome)).mapError .store := by
  unfold putDigestRevocation
  cases store.revocations.records[digest.canonical]? with
  | none => exact .inr (.inr ⟨_, _, rfl, rfl⟩)
  | some record =>
    dsimp only
    by_cases active : record.state = .active
    · rw [if_pos active]
      by_cases same : record.reason = reason
      · rw [if_pos same]
        exact .inl ⟨_, rfl⟩
      · rw [if_neg same]
        exact .inr (.inl rfl)
    · rw [if_neg active]
      exact .inr (.inr ⟨_, _, rfl, rfl⟩)

theorem liftDigestRevocation_cases (digest : ArtifactDigest) (actor : String) (now : Int64) :
    (∃ outcome, store.liftDigestRevocation json digest actor now = .ok (store, outcome)) ∨
    ∃ (found record : DigestRevocation) (outcome : Option LiftRevocationOutcome),
      store.revocations.records[digest.canonical]? = some found ∧
      record.digest = found.digest ∧
      store.liftDigestRevocation json digest actor now =
        (store.writeDigestRevocation json record).map (·, outcome) := by
  unfold liftDigestRevocation
  cases store.revocations.records[digest.canonical]? with
  | none => exact .inl ⟨_, rfl⟩
  | some record =>
    dsimp only
    by_cases lifted : record.state.status = .lifted
    · rw [if_pos lifted]
      exact .inl ⟨_, rfl⟩
    · rw [if_neg lifted]
      exact .inr ⟨record, { record with state := .lifted actor now, revision := _ }, _, rfl, rfl,
        rfl⟩

variable {call : RevocationCall}

/-- **What a step does** to the tables: nothing, one known record, a
replacement or a backfill. -/
theorem revocationRun_cases (sound : store.revocations.Sound) (fits : call.Fits store.revocations) :
    let after := (store.revocationRun json call).map (·.revocations)
    after = .ok store.revocations ∨
    (∃ record, store.revocations.Known record ∧
      after = store.revocations.applyDigestRevocation record) ∨
    (∃ records, Keyed records ∧ after = .ok (replaceDigestRevocations records)) ∨
    after = .ok store.revocations.backfillDigestRevocationState := by
  intro after
  cases call with
  | replace records => exact .inr (.inr (.inl ⟨records, fits, rfl⟩))
  | backfill => exact .inr (.inr (.inr rfl))
  | replay record =>
    refine .inr (.inl ⟨record, fits, ?_⟩)
    simp only [after, revocationRun]
    cases store.revocations.applyDigestRevocation record <;> rfl
  | put digest reason actor now =>
    simp only [after, revocationRun]
    obtain ⟨outcome, done⟩ | conflict | ⟨record, outcome, active, written⟩ :=
      putDigestRevocation_cases json digest reason actor now
    · rw [done]
      exact .inl rfl
    · rw [conflict]
      exact .inl rfl
    · refine .inr (.inl ⟨record, fun lifted => ?_, ?_⟩)
      · rw [active] at lifted
        cases lifted
      · rw [written, ← revocations_writeDigestRevocation json]
        cases store.writeDigestRevocation json record <;> rfl
  | lift digest actor now =>
    simp only [after, revocationRun]
    obtain ⟨outcome, done⟩ | ⟨found, record, outcome, stored, same, written⟩ :=
      liftDigestRevocation_cases json digest actor now
    · rw [done]
      exact .inl rfl
    · refine .inr (.inl ⟨record, fun _ => ?_, ?_⟩)
      · rw [same, sound.keyed _ _ stored, stored]
        exact some_ne_none _
      · rw [written, ← revocations_writeDigestRevocation json]
        cases store.writeDigestRevocation json record <;> rfl

/-- **Step.** A step keeps the tables sound, and fails only on `2⁶⁴` active
rows. -/
theorem revocationRun_sound (sound : store.revocations.Sound) (fits : call.Fits store.revocations) :
    (∃ store', store.revocationRun json call = .ok store' ∧ store'.revocations.Sound) ∨
      store.revocationRun json call = .error RevocationTables.countOverflow := by
  have cases := revocationRun_cases json sound fits
  match ran : store.revocationRun json call with
  | .ok store' =>
    rw [ran] at cases
    refine .inl ⟨store', rfl, ?_⟩
    obtain same | ⟨record, known, applied⟩ | ⟨records, keyed, same⟩ | same := cases
    · rw [show store'.revocations = _ from Except.ok.inj same]
      exact sound
    · exact sound.applyDigestRevocation known applied.symm
    · rw [show store'.revocations = _ from Except.ok.inj same]
      exact ⟨RevocationTables.exact_replaceDigestRevocations _, keyed⟩
    · rw [show store'.revocations = _ from Except.ok.inj same]
      exact ⟨RevocationTables.exact_backfill _, sound.keyed⟩
  | .error error =>
    rw [ran] at cases
    obtain same | ⟨record, known, applied⟩ | ⟨records, keyed, same⟩ | same := cases
    · cases same
    · obtain ⟨after, done, -⟩ | failed := sound.exact.applyDigestRevocation known
      · cases applied.trans done
      · cases applied.trans failed
        exact .inr rfl
    · cases same
    · cases same

theorem revocationStep_sound (sound : store.revocations.Sound)
    (fits : call.Fits store.revocations) :
    (Machine.next (revocationStep json) store call).revocations.Sound ∧
      Machine.answer (revocationStep json) store call ≠ .error RevocationTables.countUnderflow := by
  obtain ⟨store', ran, sound'⟩ | failed := revocationRun_sound json sound fits
  · simp only [Machine.next, Machine.answer, revocationStep, ran]
    exact ⟨sound', nofun⟩
  · simp only [Machine.next, Machine.answer, revocationStep, failed]
    refine ⟨sound, fun same => ?_⟩
    have text := MetaError.driverPrecondition.inj (Except.error.inj same)
    exact absurd text (by decide)

theorem sound_of_run : ∀ {store : MetaStore Bytes} {calls : List RevocationCall},
    store.revocations.Sound →
    Machine.Along (revocationStep json) (fun store call => call.Fits store.revocations)
      store calls →
    (Machine.exec (revocationStep json) store calls).revocations.Sound ∧
      .error RevocationTables.countUnderflow ∉ Machine.answers (revocationStep json) store calls
  | _, [], sound, _ => ⟨sound, not_mem_nil⟩
  | store, call :: calls, sound, ⟨fits, rest⟩ => by
    obtain ⟨sound', answered⟩ := revocationStep_sound json sound fits
    obtain ⟨ends, later⟩ := sound_of_run sound' rest
    refine ⟨ends, fun mem => ?_⟩
    obtain same | mem := List.mem_cons.mp mem
    · exact answered same.symm
    · exact later mem

/-- From any legacy store that is opened, whatever is put, lifted, replayed,
replaced or rebuilt, the index has one entry for each row, under its status, the
count is that of the active rows, no step underflows it, and the pages of a
status are its rows, each once and in key order. -/
theorem revocation_index_is_exact (store : MetaStore Bytes) (calls : List RevocationCall)
    (keyed : Keyed store.revocations.records)
    (fits : Machine.Along (revocationStep json) (fun store call => call.Fits store.revocations)
      store (.backfill :: calls)) :
    let tables := (Machine.exec (revocationStep json) store (.backfill :: calls)).revocations
    (∀ entry, entry ∈ tables.byStatus ↔ ∃ digest record, tables.records[digest]? = some record ∧
      entry = indexKey record.state.status digest) ∧
    tables.byStatus.card = tables.records.size ∧
    tables.activeCount =
      (tables.records.toList.filter fun row => row.2.state.status = .active).length ∧
    .error RevocationTables.countUnderflow ∉
      Machine.answers (revocationStep json) store (.backfill :: calls) ∧
    ∀ status limit fuel, 1 ≤ limit → limit ≤ maxRevocationQueryLimit →
      (rowsOf tables.records status).length < fuel →
      Paging.walk (tables.statusListing status limit) fuel none =
        .ok ((rowsOf tables.records status).map (·.2)) := by
  intro tables
  -- opening the store makes its tables exact, whatever they were
  have opened : (Machine.next (revocationStep json) store .backfill).revocations.Sound :=
    ⟨RevocationTables.exact_backfill _, keyed⟩
  obtain ⟨ends, later⟩ := sound_of_run json opened fits.2
  have sound : tables.Sound := ends
  refine ⟨fun entry => ?_, ?_, sound.exact.count, ?_, ?_⟩
  · rw [sound.exact.index, List.mem_toFinset, mem_statusEntries]
    simp only [eq_comm]
  · rw [sound.exact.index, RevocationTables.card_statusEntries]
  · intro mem
    obtain same | mem := List.mem_cons.mp mem
    · cases same
    · exact later mem
  · intro status limit fuel some most enough
    have pages := sound.exact.pages sound.keyed status ⟨some, most⟩
    refine pages.walk_eq_ok (fun cursor => ?_) (by rwa [RevocationTables.statusLeft, length_map])
    exact ⟨_, sound.exact.statusListing_eq status ⟨some, most⟩ cursor⟩

end MetaStore

def plainJson : SerdeJson ServerMutation where
  Value := ServerMutation
  fromSlice := some
  hasMember _ name := name == serverOpTag
  fromValue := some
  toVec := id
  reads_back mutation := ⟨mutation, rfl, by decide, rfl⟩

def digestOf (digit : Char) (valid : isSha256Hex (String.ofList (List.replicate 64 digit)) = true) :
    ArtifactDigest :=
  ⟨String.ofList (List.replicate 64 digit), valid⟩

def revocationOf (digest : ArtifactDigest) (state : DigestRevocationState) : DigestRevocation :=
  { digest, reason := "malware", createdBy := "operator", createdAtUnix := 1, state, revision := 1 }

/-- A digest is revoked and lifted, and a replica replays the lift once more. -/
theorem revocation_index_is_exact_lifted :
    let a := digestOf 'a' (by decide)
    let lifted := revocationOf a (.lifted "operator" 3)
    let tables := (Machine.exec (MetaStore.revocationStep plainJson) {}
      [.backfill, .put a "malware" "operator" 1, .lift a "operator" 3, .replay lifted]).revocations
    rowsOf tables.records .lifted = [(a.canonical, lifted)] ∧
      Paging.walk (tables.statusListing .lifted 1) 2 none = .ok [lifted] := by
  intro a lifted tables
  have exact := MetaStore.revocation_index_is_exact plainJson {}
    [.put a "malware" "operator" 1, .lift a "operator" 3, .replay lifted]
    (fun key record found => by rw [get_empty] at found; cases found)
    ⟨trivial, trivial, trivial, show RevocationTables.Known _ _ by decide +kernel, trivial⟩
  have rows : rowsOf tables.records .lifted = [(a.canonical, lifted)] := by decide +kernel
  have walked : Paging.walk (tables.statusListing .lifted 1) 2 none =
      .ok ((rowsOf tables.records .lifted).map (·.2)) :=
    exact.2.2.2.2 .lifted 1 2 (by decide) (by decide)
      (show (rowsOf tables.records .lifted).length < 2 by rw [rows]; decide)
  rw [rows] at walked
  exact ⟨rows, walked⟩

/-- A lift replayed where its revocation is not stored underflows the count, and
rows under other digests than their own are left out of the pages. -/
theorem revocation_index_of_unknown_records :
    let a := digestOf 'a' (by decide)
    let b := digestOf 'b' (by decide)
    let step := MetaStore.revocationStep plainJson
    Machine.answers step {} [.backfill, .replay (revocationOf b (.lifted "operator" 3))] =
      [.ok (), .error RevocationTables.countUnderflow] ∧
    let misplaced : BTreeMap String DigestRevocation :=
      ((∅ : BTreeMap String DigestRevocation).insert a.canonical (revocationOf b .active)).insert
        b.canonical (revocationOf b .active)
    let tables := (Machine.exec step {} [.backfill, .replace misplaced]).revocations
    tables.records.size = 2 ∧
      (Paging.walk (tables.statusListing .active 1) 3 none).map List.length = .ok 1 := by
  intro a b step
  refine ⟨by decide +kernel, ?_⟩
  intro misplaced tables
  have exact : tables.Exact := RevocationTables.exact_replaceDigestRevocations misplaced
  refine ⟨by decide +kernel, ?_⟩
  rw [funext (exact.statusListing_eq .active (by decide))]
  decide +kernel

end Peryx
