import Peryx.Storage.Commit

/-!
# The replicated state a journal stands for

Nothing at rest says which driver rows are replicated: the journal is the only
exact account. Folding it is therefore the definition of the replicated state,
and a commit is right when the rows it leaves agree with the fold of the
journal it leaves.
-/

namespace Peryx

open BTreeMap List

variable {Bytes : Type} {json : SerdeJson Bytes} {K : String → Prop}

/-- Driver rows and digest revocations, without the bookkeeping around them. -/
structure Replicated (Bytes : Type) where
  rows : BTreeMap String Bytes := ∅
  revocations : BTreeMap String DigestRevocation := ∅

def DriverMutation.write (rows : BTreeMap String Bytes) :
    DriverMutation Bytes → BTreeMap String Bytes
  | .put key value => rows.insert key value
  | .delete key => rows.erase key

namespace Replicated

def absorbServer (revocations : BTreeMap String DigestRevocation) :
    Option ServerMutation → BTreeMap String DigestRevocation
  | some (.digestRevocation record) => revocations.insert record.digest.canonical record
  | none => revocations

def absorb (json : SerdeJson Bytes) (state : Replicated Bytes) (entry : JournalEntry Bytes) :
    Replicated Bytes where
  rows := entry.mutations.foldl DriverMutation.write state.rows
  revocations := absorbServer state.revocations
    ((ServerMutation.decode json entry.payload).toOption.getD none)

def absorbAll (json : SerdeJson Bytes) (state : Replicated Bytes)
    (entries : List (JournalEntry Bytes)) : Replicated Bytes :=
  entries.foldl (absorb json) state

theorem absorbAll_append (json : SerdeJson Bytes) (state : Replicated Bytes)
    (entries more : List (JournalEntry Bytes)) :
    absorbAll json state (entries ++ more) = absorbAll json (absorbAll json state entries) more :=
  foldl_append

theorem absorb_inert {payload : Bytes}
    (driver : ServerMutation.decode json payload = .ok none) (state : Replicated Bytes) :
    absorb json state { payload } = state := by
  simp [absorb, driver, absorbServer, Except.toOption]

theorem absorbAll_inert {payloads : List Bytes}
    (driver : ∀ payload ∈ payloads, ServerMutation.decode json payload = .ok none)
    (state : Replicated Bytes) :
    absorbAll json state (payloads.map fun payload => { payload := payload }) = state := by
  induction payloads with
  | nil => rfl
  | cons payload payloads ih =>
    show absorbAll json (absorb json state { payload }) _ = state
    rw [absorb_inert (driver payload mem_cons_self)]
    exact ih fun p h => driver p (mem_cons_of_mem _ h)

/-! ## Agreement on some keys -/

/-- The same core state, and the same rows under the keys of `K`. -/
structure AgreeOn (K : String → Prop) (a b : Replicated Bytes) : Prop where
  rows : ∀ key, K key → a.rows[key]? = b.rows[key]?
  revocations : a.revocations = b.revocations

namespace AgreeOn

variable {a b c : Replicated Bytes}

theorem refl (a : Replicated Bytes) : AgreeOn K a a :=
  ⟨fun _ _ => rfl, rfl⟩

theorem symm (h : AgreeOn K a b) : AgreeOn K b a :=
  ⟨fun key hk => (h.rows key hk).symm, h.revocations.symm⟩

theorem trans (h : AgreeOn K a b) (h' : AgreeOn K b c) : AgreeOn K a c :=
  ⟨fun key hk => (h.rows key hk).trans (h'.rows key hk), h.revocations.trans h'.revocations⟩

theorem mono {K' : String → Prop} (h : AgreeOn K a b) (fewer : ∀ key, K' key → K key) :
    AgreeOn K' a b :=
  ⟨fun key hk => h.rows key (fewer key hk), h.revocations⟩

end AgreeOn

theorem get_write (rows : BTreeMap String Bytes) (mutation : DriverMutation Bytes) (key : String) :
    (mutation.write rows)[key]? =
      if mutation.key = key then
        match mutation with
        | .put _ value => some value
        | .delete _ => none
      else rows[key]? := by
  cases mutation with
  | put k value => exact get_insert rows k key value
  | delete k => exact get_erase rows k key

theorem get_writes_congr (mutations : List (DriverMutation Bytes)) {key : String}
    {a b : BTreeMap String Bytes} (h : a[key]? = b[key]?) :
    (mutations.foldl DriverMutation.write a)[key]? =
      (mutations.foldl DriverMutation.write b)[key]? := by
  induction mutations generalizing a b with
  | nil => exact h
  | cons mutation mutations ih =>
    refine ih ?_
    rw [get_write, get_write, h]

theorem AgreeOn.absorb {K : String → Prop} {a b : Replicated Bytes}
    (h : AgreeOn K a b) (entry : JournalEntry Bytes) :
    AgreeOn K (a.absorb json entry) (b.absorb json entry) where
  rows key hk := get_writes_congr entry.mutations (h.rows key hk)
  revocations := by
    show absorbServer a.revocations _ = absorbServer b.revocations _
    rw [h.revocations]

theorem AgreeOn.absorbAll {K : String → Prop} {a b : Replicated Bytes}
    (h : AgreeOn K a b) (entries : List (JournalEntry Bytes)) :
    AgreeOn K (a.absorbAll json entries) (b.absorbAll json entries) := by
  induction entries generalizing a b with
  | nil => exact h
  | cons entry entries ih => exact ih (h.absorb entry)

end Replicated

/-! ## A writer's transactions -/

def MetaStore.replicated (store : MetaStore Bytes) : Replicated Bytes where
  rows := store.driverKv
  revocations := store.revocations.records

namespace DriverTxn

variable (txn : DriverTxn Bytes)

theorem get_write_mutation (rows : BTreeMap String Bytes) (k key : String) :
    ((txn.mutation k).write rows)[key]? = if k = key then txn.table[key]? else rows[key]? := by
  unfold mutation get
  cases value : txn.table[k]? with
  | none =>
    show (rows.erase k)[key]? = _
    rw [get_erase]
    by_cases same : k = key
    · rw [if_pos same, if_pos same, ← same, value]
    · rw [if_neg same, if_neg same]
  | some v =>
    show (rows.insert k v)[key]? = _
    rw [get_insert]
    by_cases same : k = key
    · rw [if_pos same, if_pos same, ← same, value]
    · rw [if_neg same, if_neg same]

theorem get_write_keys (keys : List String) (rows : BTreeMap String Bytes) (key : String) :
    ((keys.map txn.mutation).foldl DriverMutation.write rows)[key]? =
      if key ∈ keys then txn.table[key]? else rows[key]? := by
  induction keys generalizing rows with
  | nil => rfl
  | cons k keys ih =>
    rw [map_cons, foldl_cons, ih, get_write_mutation]
    by_cases later : key ∈ keys
    · rw [if_pos later, if_pos (mem_cons_of_mem k later)]
    · rw [if_neg later]
      by_cases same : k = key
      · rw [if_pos same, same, if_pos mem_cons_self]
      · have other : key ∉ k :: keys := by simp [later, Ne.symm same]
        rw [if_neg same, if_neg other]

theorem get_mutations (rows : BTreeMap String Bytes) (key : String) :
    (txn.mutations.foldl DriverMutation.write rows)[key]? =
      if key ∈ txn.touched then txn.table[key]? else rows[key]? := by
  rw [mutations, get_write_keys]
  simp only [Std.ExtTreeSet.mem_toList]

end DriverTxn

/-- A transaction appends `entries`, leaves what they say under the keys of
`K`, and nothing short of all of them says anything. -/
structure Commits (json : SerdeJson Bytes) (K : String → Prop) (store store' : MetaStore Bytes)
    (entries : List (JournalEntry Bytes)) : Prop where
  journal : store'.journal = store.journal.pushAll entries
  state : Replicated.AgreeOn K store'.replicated (store.replicated.absorbAll json entries)
  inert : ∀ n, n < entries.length → ∀ state : Replicated Bytes,
    state.absorbAll json (entries.take n) = state

namespace Commits

variable {store store' : MetaStore Bytes}

theorem nothing (journal : store'.journal = store.journal)
    (state : Replicated.AgreeOn K store'.replicated store.replicated) :
    Commits json K store store' [] where
  journal := journal
  state := state
  inert n h := absurd h (Nat.not_lt_zero n)

theorem revocation {record : DigestRevocation}
    (h : store.writeDigestRevocation json record = .ok store') :
    ∃ entries, Commits json K store store' entries := by
  obtain ⟨revocations, applied, rfl⟩ := MetaStore.writeDigestRevocation_eq_ok h
  refine ⟨[{ payload := json.toVec (.digestRevocation record) }], rfl, ⟨fun _ _ => rfl, ?_⟩, ?_⟩
  · show revocations.records = Replicated.absorbServer store.revocations.records
      ((ServerMutation.decode json (json.toVec (.digestRevocation record))).toOption.getD none)
    rw [ServerMutation.decode_toVec, RevocationTables.records_applyDigestRevocation applied]
    rfl
  · intro n short state
    have : n = 0 := by simpa using short
    subst this
    rfl

/-- A driver's transaction: its payloads are its own, it writes none of `K` as
local, and it journals whenever it changes a row of `K`. -/
theorem driver {ops : List (DriverOp Bytes)} {payloads : List Bytes} {now : Int64}
    {collectorActive : Bool} {serial : Option Nat}
    (h : store.commitDriverTxn ops payloads now collectorActive = .ok (store', serial))
    (own : ∀ payload ∈ payloads, ServerMutation.decode json payload = .ok none)
    (notLocal : ∀ op ∈ ops, ∀ key, K key → op.localKey ≠ some key)
    (journals : payloads = [] → ∀ key, K key →
      store'.driverKv[key]? = store.driverKv[key]?) :
    ∃ entries, Commits json K store store' entries := by
  obtain ⟨guards, committed⟩ := MetaStore.commitDriverTxn_eq_ok h
  have core : store'.revocations = store.revocations := by
    rw [committed]
    exact DriverTxn.revocations_performAll _ ops
  rcases eq_nil_or_concat payloads with rfl | ⟨payloads, last, rfl⟩
  · refine ⟨[], nothing ?_ ⟨fun key hk => journals rfl key hk, ?_⟩⟩
    · rw [committed]
      rfl
    · show store'.revocations.records = store.revocations.records
      rw [core]
  · rw [concat_eq_append] at own committed
    have driverPayloads : ∀ payload ∈ payloads, ServerMutation.decode json payload = .ok none :=
      fun payload hp => own payload (mem_append_left _ hp)
    have lastOwn : ServerMutation.decode json last = .ok none :=
      own last (mem_append_right _ mem_cons_self)
    rw [finishJournal_payloads] at committed
    refine ⟨_, by rw [committed]; rfl, ⟨fun key hk => ?_, ?_⟩, fun n short state => ?_⟩
    · -- the last entry writes the touched rows back; the others stand as they stood
      rw [Replicated.absorbAll_append, Replicated.absorbAll_inert driverPayloads, committed]
      show (store.beginWrite.performAll ops).table[key]? =
        ((store.beginWrite.performAll ops).mutations.foldl DriverMutation.write
          store.driverKv)[key]?
      rw [DriverTxn.get_mutations]
      by_cases touched : key ∈ (store.beginWrite.performAll ops).touched
      · rw [if_pos touched]
      · rw [if_neg touched]
        exact (DriverTxn.performAll_frame store.beginWrite ops touched
          fun op hop => notLocal op hop key hk).1
    · rw [Replicated.absorbAll_append, Replicated.absorbAll_inert driverPayloads]
      show store'.revocations.records = Replicated.absorbServer store.revocations.records _
      rw [core, lastOwn]
      rfl
    · have proper : n ≤ payloads.length := by simpa using Nat.lt_succ_iff.mp (by simpa using short)
      rw [take_append_of_le_length (by simpa using proper), ← map_take]
      exact Replicated.absorbAll_inert
        (fun payload hp => driverPayloads payload (mem_of_mem_take hp)) state

end Commits

end Peryx
