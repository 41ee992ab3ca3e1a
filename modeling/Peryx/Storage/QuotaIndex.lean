import Peryx.Storage.QuotaConservation

/-!
# The allocation index

`meta/quota.rs` finds the reservation to release for a deleted object through an
index by the object's identity, which holds one id. Committing overwrites the
entry and releasing removes it where it names the released reservation, so of
two committed reservations of one identity the index can lose the one that
stays.

- `committed_quota_is_releasable_iff`: when the index finds what it should.
-/

namespace Peryx

open Machine BTreeMap

theorem QuotaAllocation.key_inj {a b : QuotaAllocation} : a.key = b.key ↔ a = b := by
  cases a
  cases b
  simp [QuotaAllocation.key]

variable {allocation : QuotaAllocation}

namespace QuotaTables

/-- A committed reservation of the allocation. -/
def Holds (tables : QuotaTables) (allocation : QuotaAllocation) (id : Uuid) : Prop :=
  ∃ r : QuotaReservationRecord, tables.reservation[id]? = some r ∧ r.state = .committed ∧
    r.allocation = allocation

/-- What the index names holds its allocation. -/
def IndexSound (tables : QuotaTables) : Prop :=
  ∀ (allocation : QuotaAllocation) (id : Uuid),
    tables.allocation[allocation.key]? = some id → tables.Holds allocation id

/-- What holds an allocation is in the index. -/
def Indexed (tables : QuotaTables) : Prop :=
  ∀ (allocation : QuotaAllocation) (id : Uuid), tables.Holds allocation id →
    ∃ id', tables.allocation[allocation.key]? = some id' ∧ tables.Holds allocation id'

/-- At most one reservation holds it. -/
def Sole (tables : QuotaTables) (allocation : QuotaAllocation) : Prop :=
  ∀ id id', tables.Holds allocation id → tables.Holds allocation id' → id = id'

variable {tables tables' : QuotaTables} {id : Uuid} {r : QuotaReservationRecord}

theorem Holds.allocation_eq (holds : tables.Holds allocation id)
    (found : tables.reservation[id]? = some r) : r.allocation = allocation := by
  obtain ⟨r', found', -, same⟩ := holds
  cases found.symm.trans found'
  exact same

/-! ## One record changes -/

variable {s : Ledger} {request : NewQuotaReservation} {limited : Bool}

theorem Reserved.holds (reserved : Reserved tables s id request limited tables' r)
    (fresh : tables.reservation[id]? = none) (key : Uuid) :
    tables'.Holds allocation key ↔ tables.Holds allocation key := by
  unfold Holds
  rw [reserved.reservation, get_insert]
  by_cases same : id = key
  · have state : r.state = .reserved := by
      rw [reserved.record]
      rfl
    simp [← same, fresh, state]
  · rw [if_neg same]

theorem Committed.holds (committed : Committed tables id r tables') (key : Uuid) :
    tables'.Holds allocation key ↔
      (id = key ∧ r.allocation = allocation) ∨ tables.Holds allocation key := by
  unfold Holds
  rw [committed.reservation, get_insert]
  by_cases same : id = key
  · rw [if_pos same, ← same, committed.found]
    simp [committed.reserved, QuotaReservationRecord.commit, QuotaReservationRecord.allocation]
  · simp [same]

theorem Released.holds (released : Released tables id r tables') (key : Uuid) :
    tables'.Holds allocation key ↔ id ≠ key ∧ tables.Holds allocation key := by
  unfold Holds
  rw [released.reservation, get_erase]
  by_cases same : id = key <;> simp [same]

theorem Committed.entry (committed : Committed tables id r tables') :
    tables'.allocation[allocation.key]? =
      if r.allocation = allocation then some id else tables.allocation[allocation.key]? := by
  rw [committed.allocation, get_insert]
  exact if_congr QuotaAllocation.key_inj rfl rfl

theorem Released.entry (released : Released tables id r tables') (conserved : Conserved tables)
    (sound : tables.IndexSound) :
    tables'.allocation[allocation.key]? =
      if tables.allocation[allocation.key]? = some id then none
      else tables.allocation[allocation.key]? := by
  have own : r.id = id := conserved.keyed id r released.found
  rw [released.allocation, own]
  by_cases same : r.allocation = allocation
  · rw [← same]
    show (if tables.allocation[r.allocation.key]? = some id then
        tables.allocation.erase r.allocation.key else tables.allocation)[r.allocation.key]? = _
    split <;> simp_all
  · have unnamed : tables.allocation[allocation.key]? ≠ some id :=
      fun named => same ((sound allocation id named).allocation_eq released.found)
    split
    · rw [get_erase, if_neg]
      exact mt QuotaAllocation.key_inj.mp same
    · rfl

/-! ## The index is sound -/

theorem IndexSound.released (sound : tables.IndexSound) (conserved : Conserved tables)
    (released : Released tables id r tables') : tables'.IndexSound := by
  intro allocation key named
  rw [released.entry conserved sound] at named
  split at named
  case isTrue => cases named
  case isFalse other =>
    refine (released.holds key).mpr ⟨?_, sound allocation key named⟩
    rintro rfl
    exact other named

theorem IndexSound.committed (sound : tables.IndexSound)
    (committed : Committed tables id r tables') : tables'.IndexSound := by
  intro allocation key named
  rw [committed.entry] at named
  rw [committed.holds]
  split at named
  case isTrue same =>
    cases named
    exact .inl ⟨rfl, same⟩
  case isFalse => exact .inr (sound allocation key named)

theorem IndexSound.reserved
    (sound : tables.IndexSound) (reserved : Reserved tables s id request limited tables' r)
    (fresh : tables.reservation[id]? = none) : tables'.IndexSound := by
  intro allocation key named
  rw [reserved.allocation] at named
  exact (reserved.holds fresh key).mpr (sound allocation key named)

/-! ## When it is complete -/

theorem Indexed.committed (indexed : tables.Indexed) (committed : Committed tables id r tables') :
    tables'.Indexed := by
  intro allocation key held
  rw [committed.entry]
  by_cases same : r.allocation = allocation
  · exact ⟨id, if_pos same, (committed.holds id).mpr (.inl ⟨rfl, same⟩)⟩
  · rw [if_neg same]
    obtain ⟨-, other⟩ | held := (committed.holds key).mp held
    · exact absurd other same
    · obtain ⟨id', named, held⟩ := indexed allocation key held
      exact ⟨id', named, (committed.holds id').mpr (.inr held)⟩

theorem Indexed.reserved
    (indexed : tables.Indexed) (reserved : Reserved tables s id request limited tables' r)
    (fresh : tables.reservation[id]? = none) : tables'.Indexed := by
  intro allocation key held
  obtain ⟨id', named, held⟩ := indexed allocation key ((reserved.holds fresh key).mp held)
  rw [reserved.allocation]
  exact ⟨id', named, (reserved.holds fresh id').mpr held⟩

/-- Releasing keeps the index complete exactly when every identity whose entry
it removes has no other committed reservation. -/
theorem Indexed.released_iff (indexed : tables.Indexed) (conserved : Conserved tables)
    (sound : tables.IndexSound) (released : Released tables id r tables') :
    tables'.Indexed ↔ ∀ allocation : QuotaAllocation,
      tables.allocation[allocation.key]? = some id →
        ∀ key, tables.Holds allocation key → key = id := by
  constructor
  · intro kept allocation named key held
    by_contra other
    obtain ⟨id', named', -⟩ := kept allocation key ((released.holds key).mpr ⟨Ne.symm other, held⟩)
    rw [released.entry conserved sound, if_pos named] at named'
    cases named'
  · intro lone allocation key held
    obtain ⟨other, held⟩ := (released.holds key).mp held
    obtain ⟨id', named, held'⟩ := indexed allocation key held
    have unnamed : id ≠ id' := by
      rintro rfl
      exact other (lone allocation named key held).symm
    refine ⟨id', ?_, (released.holds id').mpr ⟨unnamed, held'⟩⟩
    rw [released.entry conserved sound, if_neg, named]
    rw [named]
    exact fun same => unnamed (Option.some.inj same).symm

theorem Indexed.abandoned (indexed : tables.Indexed) (conserved : Conserved tables)
    (sound : tables.IndexSound) (reserved : r.state = .reserved)
    (released : Released tables id r tables') : tables'.Indexed := by
  refine (indexed.released_iff conserved sound released).mpr fun allocation named => ?_
  obtain ⟨r', found, committed, -⟩ := sound allocation id named
  cases released.found.symm.trans found
  cases reserved.symm.trans committed

end QuotaTables

/-! ## Calls -/

/-- What the call releases is not named by the index for an identity that has
another committed reservation. -/
def QuotaCall.Lone (tables : QuotaTables) (call : QuotaCall) : Prop :=
  ∀ (allocation : QuotaAllocation) (id : Uuid), call.releases tables = some id →
    tables.allocation[allocation.key]? = some id →
      ∀ key, tables.Holds allocation key → key = id

namespace QuotaTables

variable {tables : QuotaTables}

theorem sound_keeps : Keeps IndexSound where
  commit _ sound committed := sound.committed committed
  abandon conserved sound _ released := sound.released conserved released

theorem indexed_keeps : Keeps fun tables => tables.IndexSound ∧ tables.Indexed where
  commit _ kept committed := ⟨kept.1.committed committed, kept.2.committed committed⟩
  abandon conserved kept reserved released :=
    ⟨kept.1.released conserved released, kept.2.abandoned conserved kept.1 reserved released⟩

variable {call : QuotaCall}

/-- **Step.** Every call keeps the index sound. -/
theorem step_sound (conserved : Conserved tables) (sound : tables.IndexSound)
    (draws : call.Draws tables) :
    Conserved (Machine.next step tables call) ∧ IndexSound (Machine.next step tables call) := by
  have yields := run_yields sound_keeps conserved sound draws
    (fun reserving _ reserved => sound.reserved reserved (draws.absent reserving))
    fun _ released => sound.released conserved released
  exact (step_of_yields (P := fun tables => Conserved tables ∧ IndexSound tables) yields
    ⟨conserved, sound⟩).1

theorem next_of_releases (conserved : Conserved tables) {id : Uuid}
    {r : QuotaReservationRecord} (releases : call.releases tables = some id)
    (found : tables.reservation[id]? = some r) :
    Released tables id r (Machine.next step tables call) := by
  have within : ¬ (r.state = .committed ∧ ReleaseScope.any = .pending) := nofun
  obtain ⟨tables', done, released⟩ := release_eq conserved found within
  have ran : tables.run call = .ok (tables', .changed true) := by
    cases call with
    | release =>
      cases releases
      rw [run, done]
      rfl
    | releaseAllocation allocation =>
      rw [run, releaseCommittedAllocation, show tables.allocation[allocation.key]? = some id
        from releases]
      dsimp only
      rw [done]
      rfl
    | _ => cases releases
  rw [Machine.next, step, ran]
  exact released

/-- **Step.** A call keeps the index complete exactly when it is lone. -/
theorem step_indexed_iff (conserved : Conserved tables) (sound : tables.IndexSound)
    (indexed : tables.Indexed) (draws : call.Draws tables) :
    Indexed (Machine.next step tables call) ↔ call.Lone tables := by
  constructor
  · intro kept allocation id releases named
    obtain ⟨r, found, -, -⟩ := sound allocation id named
    have released := next_of_releases conserved releases found
    exact (indexed.released_iff conserved sound released).mp kept allocation named
  · intro lone
    have yields := run_yields indexed_keeps conserved ⟨sound, indexed⟩ draws
      (fun reserving _ reserved => ⟨sound.reserved reserved (draws.absent reserving),
        indexed.reserved reserved (draws.absent reserving)⟩)
      fun releases released => ⟨sound.released conserved released,
        (indexed.released_iff conserved sound released).mpr fun allocation =>
          lone allocation _ releases⟩
    exact (step_of_yields
      (P := fun tables => Conserved tables ∧ tables.IndexSound ∧ tables.Indexed) yields
      ⟨conserved, sound, indexed⟩).1.2.2

theorem sound_empty : IndexSound {} := by
  intro allocation id named
  cases named

theorem indexed_empty : Indexed {} := by
  rintro allocation id ⟨r, found, -⟩
  cases found

/-- **Run.** -/
theorem exec_sound (calls : List QuotaCall) (draws : Along step QuotaCall.Draws {} calls) :
    Conserved (exec step {} calls) ∧ IndexSound (exec step {} calls) :=
  exec_invariant step (I := fun tables => Conserved tables ∧ IndexSound tables)
    (fun _ _ kept draws => step_sound kept.1 kept.2 draws) {} calls
    ⟨conserved_empty, sound_empty⟩ draws

/-! ## Deleting objects one by one -/

theorem next_of_unnamed (unnamed : tables.allocation[allocation.key]? = none) :
    Machine.next step tables (.releaseAllocation allocation) = tables := by
  rw [Machine.next, step, run, releaseCommittedAllocation, unnamed]
  rfl

/-- Deleting objects of an identity frees all its committed reservations exactly
when there is at most one: the first deletion removes the entry. -/
theorem drains_iff (conserved : Conserved tables) (sound : tables.IndexSound)
    (indexed : tables.Indexed) :
    (∃ n, ∀ id, ¬ (exec step tables
      (List.replicate n (.releaseAllocation allocation))).Holds allocation id) ↔
      tables.Sole allocation := by
  have first : ∀ {id}, tables.Holds allocation id → ∃ id' r,
      tables.allocation[allocation.key]? = some id' ∧
      Released tables id' r (Machine.next step tables (.releaseAllocation allocation)) := by
    intro id held
    obtain ⟨id', named, r, found, -⟩ := indexed allocation id held
    exact ⟨id', r, named, next_of_releases conserved named found⟩
  constructor
  · rintro ⟨n, freed⟩ id₁ id₂ held₁ held₂
    by_contra distinct
    cases n with
    | zero => exact freed id₁ held₁
    | succ n =>
      obtain ⟨id', r, named, released⟩ := first held₁
      have unnamed : (Machine.next step tables
          (.releaseAllocation allocation)).allocation[allocation.key]? = none := by
        rw [released.entry conserved sound, if_pos named]
      rw [List.replicate_succ, exec_cons,
        exec_replicate_of_fixed step (next_of_unnamed unnamed)] at freed
      -- the deletion freed one of the two, so the other is still held
      by_cases same : id' = id₁
      · exact freed id₂ ((released.holds id₂).mpr ⟨same ▸ distinct, held₂⟩)
      · exact freed id₁ ((released.holds id₁).mpr ⟨same, held₁⟩)
  · intro sole
    by_cases some : ∃ id, tables.Holds allocation id
    · obtain ⟨id, held⟩ := some
      obtain ⟨id', r, named, released⟩ := first held
      refine ⟨1, fun key held' => ?_⟩
      obtain ⟨other, held'⟩ := (released.holds key).mp held'
      exact other (sole id' key (sound allocation id' named) held')
    · exact ⟨0, fun id held => some ⟨id, held⟩⟩

/-- Over every run in which no surviving id is drawn again: the index names a
committed reservation of every identity that has one, after every call, exactly
when every call is lone; and at the end of such a run deleting objects of an
identity frees all its committed reservations exactly when there is at most
one. -/
theorem committed_quota_is_releasable_iff (calls : List QuotaCall)
    (draws : Machine.Along step QuotaCall.Draws {} calls) :
    ((∀ n, Indexed (Machine.exec step {} (calls.take n))) ↔
      Machine.Along step QuotaCall.Lone {} calls) ∧
    (Machine.Along step QuotaCall.Lone {} calls → ∀ allocation,
      (∃ n, ∀ id, ¬ (Machine.exec step {}
        (calls ++ List.replicate n (.releaseAllocation allocation))).Holds allocation id) ↔
        (Machine.exec step {} calls).Sole allocation) := by
  have always := always_iff_along step
    (J := fun tables => Conserved tables ∧ IndexSound tables) (I := Indexed)
    (fun _ _ kept draws => step_sound kept.1 kept.2 draws)
    (fun _ _ kept draws indexed => step_indexed_iff kept.1 kept.2 indexed draws)
    {} calls ⟨conserved_empty, sound_empty⟩ indexed_empty draws
  refine ⟨always, fun lone allocation => ?_⟩
  obtain ⟨conserved, sound⟩ := exec_sound calls draws
  have indexed := always.mpr lone calls.length
  rw [List.take_length] at indexed
  simp only [exec_append]
  exact drains_iff conserved sound indexed

end QuotaTables

/-- Until the second of two uploads of one file is deleted, both can be. -/
theorem committed_quota_is_releasable_twice :
    let calls : List QuotaCall := [.reserve 1 (sharedUpload 10) {}, .reserve 2 (sharedUpload 20) {},
      .commit 1, .commit 2]
    ∀ n, (Machine.exec QuotaTables.step {} (calls.take n)).Indexed := by
  intro calls
  refine (QuotaTables.committed_quota_is_releasable_iff calls ?_).1.mpr ?_
  · exact ⟨by decide +kernel, by decide +kernel, trivial, trivial, trivial⟩
  · exact ⟨nofun, nofun, nofun, nofun, trivial⟩

/-- Deleting the file frees the later upload and forgets the entry: the earlier
one stays committed and charged, and no deletion reaches it. -/
theorem committed_quota_lost_to_a_duplicate :
    let calls : List QuotaCall := [.reserve 1 (sharedUpload 10) {}, .reserve 2 (sharedUpload 20) {},
      .commit 1, .commit 2, .releaseAllocation ⟨"private", some "demo", some "1.0", "sha256:aa"⟩]
    let tables := Machine.exec QuotaTables.step {} calls
    tables.Holds ⟨"private", some "demo", some "1.0", "sha256:aa"⟩ 1 ∧ ¬ tables.Indexed ∧
      (tables.quotaUsage "private").accountedBytes = ⟨7, 0⟩ ∧
      (tables.step (.releaseAllocation ⟨"private", some "demo", some "1.0", "sha256:aa"⟩)).2 =
        .ok (.changed false) := by
  intro calls tables
  have held : tables.Holds ⟨"private", some "demo", some "1.0", "sha256:aa"⟩ 1 := by
    refine ⟨{ (sharedUpload 10).reservation 1 [] false with state := .committed }, ?_, rfl, rfl⟩
    decide +kernel
  refine ⟨held, fun indexed => ?_, by decide +kernel, by decide +kernel⟩
  obtain ⟨id', named, -⟩ := indexed _ _ held
  have unnamed : tables.allocation[QuotaAllocation.key
      ⟨"private", some "demo", some "1.0", "sha256:aa"⟩]? = none := by decide +kernel
  cases unnamed.symm.trans named

end Peryx
