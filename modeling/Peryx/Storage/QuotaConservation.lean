import Peryx.Storage.QuotaReserve

/-!
# Quota conservation

Whatever is reserved, committed, released and repaired, in whatever order and
with whatever failures, the counters of `meta/quota.rs` are what the surviving
reservation records imply.

- `Conserved.reserved`, `Conserved.committed`, `Conserved.released`: the steps.
- `quota_is_conserved`: over every run.
-/

namespace Peryx

open BTreeMap
open QuotaReservationRecord (settled)

variable {tables : QuotaTables}

namespace QuotaTables

variable {id : Uuid} {r : QuotaReservationRecord}

/-- Usage counts the reservations, and `pending` lists the open ones. -/
structure Conserved (tables : QuotaTables) : Prop where
  keyed : ∀ (id : Uuid) (r : QuotaReservationRecord),
    tables.reservation[id]? = some r → r.id = id
  counts : tables.Counts tables.records
  fits : tables.records.Fits
  pending : ∀ id : Uuid, id ∈ tables.pending ↔
    ∃ r : QuotaReservationRecord, tables.reservation[id]? = some r ∧ r.state = .reserved

theorem conserved_empty : Conserved {} := by
  have empty : ({} : QuotaTables).records = ∅ := rfl
  constructor
  case keyed =>
    intro id r found
    cases found
  case counts =>
    rw [empty]
    refine ⟨⟨fun _ => ?_, fun _ => ?_, fun _ _ => ?_, nofun⟩, fun _ => ?_, fun _ _ => ?_,
      fun _ _ _ => ?_⟩
    all_goals first
      | rw [quotaUsage, Std.ExtTreeMap.getD_empty]; rfl
      | rw [Std.ExtTreeMap.getD_empty]; rfl
  case fits =>
    rw [empty]
    constructor <;> intros <;> exact Nat.zero_le _
  case pending =>
    intro id
    simp

/-! ## The records around one of them -/

def others (tables : QuotaTables) (id : Uuid) : Ledger :=
  BTreeMap.valueSet (tables.reservation.erase id)

theorem Conserved.id_of_mem (conserved : Conserved tables) {x : QuotaReservationRecord}
    (hx : x ∈ tables.others id) : x.id ≠ id := by
  obtain ⟨key, found⟩ := BTreeMap.mem_valueSet.mp hx
  obtain ⟨same, found⟩ := of_get_erase found
  rw [conserved.keyed key x found]
  exact Ne.symm same

theorem records_of_insert {tables' : QuotaTables}
    (inserted : tables'.reservation = tables.reservation.insert id r) :
    tables'.records = insert r (tables.others id) := by
  rw [records, inserted, valueSet_insert, others]

theorem records_eq_insert (found : tables.reservation[id]? = some r) :
    tables.records = insert r (tables.others id) := by
  have whole := insert_erase found
  have split := valueSet_insert (tables.reservation.erase id) id r
  rw [whole, erase_of_absent (get_erase_self ..)] at split
  exact split

theorem others_subset (found : tables.reservation[id]? = some r) :
    tables.others id ⊆ tables.records := by
  rw [records_eq_insert found]
  exact Finset.subset_insert _ _

theorem others_of_absent (absent : tables.reservation[id]? = none) :
    tables.others id = tables.records := by
  rw [others, erase_of_absent absent, records]

theorem Conserved.id_of_absent (conserved : Conserved tables)
    (absent : tables.reservation[id]? = none) {x : QuotaReservationRecord}
    (hx : x ∈ tables.records) : x.id ≠ id := by
  rw [← others_of_absent absent] at hx
  exact conserved.id_of_mem hx

/-! ## One record changes -/

/-- `r` was released. -/
structure Released (tables : QuotaTables) (id : Uuid) (r : QuotaReservationRecord)
    (tables' : QuotaTables) : Prop where
  found : tables.reservation[id]? = some r
  counts : tables'.Counts (tables.others id)
  reservation : tables'.reservation = tables.reservation.erase id
  pending : tables'.pending = tables.pending.erase id
  allocation : tables'.allocation =
    if tables.allocation[allocationKey r]? = some r.id then
      tables.allocation.erase (allocationKey r)
    else tables.allocation

/-- `r` was committed. -/
structure Committed (tables : QuotaTables) (id : Uuid) (r : QuotaReservationRecord)
    (tables' : QuotaTables) : Prop where
  found : tables.reservation[id]? = some r
  reserved : r.state = .reserved
  counts : tables'.Counts (insert r.commit (tables.others id))
  reservation : tables'.reservation = tables.reservation.insert id r.commit
  pending : tables'.pending = tables.pending.erase id
  allocation : tables'.allocation = tables.allocation.insert (allocationKey r) id

variable {tables' : QuotaTables}

theorem Conserved.not_mem_others (conserved : Conserved tables)
    (found : tables.reservation[id]? = some r) : r ∉ tables.others id :=
  fun mem => conserved.id_of_mem mem (conserved.keyed id r found)

theorem forgetAllocation_eq (tables : QuotaTables) (r : QuotaReservationRecord) :
    tables.forgetAllocation r =
      { tables with
        allocation :=
          if tables.allocation[allocationKey r]? = some r.id then
            tables.allocation.erase (allocationKey r)
          else tables.allocation } := by
  unfold forgetAllocation
  split <;> rfl

theorem release_eq (conserved : Conserved tables) (found : tables.reservation[id]? = some r)
    {scope : ReleaseScope} (within : ¬ (r.state = .committed ∧ scope = .pending)) :
    ∃ tables', tables.release id scope = .ok (tables', true) ∧ Released tables id r tables' := by
  have split := records_eq_insert found
  obtain ⟨mid, done, counts, same⟩ := transition_release (split ▸ conserved.counts)
    (conserved.not_mem_others found) (split ▸ conserved.fits)
  unfold release
  rw [found]
  dsimp only
  rw [if_neg within]
  refine ⟨_, Except.bind_eq_ok.mpr ⟨mid, done, rfl⟩, ?_⟩
  rw [forgetAllocation_eq]
  constructor
  case found => exact found
  case counts =>
    exact ⟨counts.blobs.of_same ⟨fun _ => rfl, fun _ => rfl, rfl⟩,
      counts.resources.of_same ⟨fun _ => rfl, rfl, rfl⟩⟩
  case reservation => exact congrArg (·.erase id) same.reservation
  case pending => exact congrArg (·.erase id) same.pending
  case allocation => rw [same.allocation]

theorem yields_commitReservation (conserved : Conserved tables) (id : Uuid) :
    Yields (fun (tables', done) => if done = true then ∃ r, Committed tables id r tables'
        else tables' = tables)
      (tables.commitReservation id) := by
  unfold commitReservation
  cases found : tables.reservation[id]? with
  | none => exact rfl
  | some r =>
    dsimp only
    cases state : r.state with
    | committed =>
      exact rfl
    | reserved =>
      have split := records_eq_insert found
      have new' : r.commit ∉ tables.others id :=
        fun mem => conserved.id_of_mem mem (conserved.keyed id r found)
      refine (transition_commit (split ▸ conserved.counts) (conserved.not_mem_others found)
        (split ▸ conserved.fits) state new').bind ?_
      rintro mid ⟨counts, same⟩
      refine ⟨r, found, state, ?_, ?_, ?_, ?_⟩
      · exact ⟨counts.blobs.of_same ⟨fun _ => rfl, fun _ => rfl, rfl⟩,
          counts.resources.of_same ⟨fun _ => rfl, rfl, rfl⟩⟩
      · exact congrArg (·.insert id r.commit) same.reservation
      · exact congrArg (·.erase id) same.pending
      · exact congrArg (·.insert (allocationKey r) id) same.allocation

theorem Released.records_eq (released : Released tables id r tables') :
    tables'.records = tables.others id := by
  rw [records, released.reservation, others]

theorem Conserved.released (conserved : Conserved tables)
    (released : Released tables id r tables') : Conserved tables' := by
  have records := released.records_eq
  constructor
  case keyed =>
    intro key x found
    rw [released.reservation] at found
    obtain ⟨same, found⟩ := of_get_erase found
    exact conserved.keyed key x found
  case counts => exact records ▸ released.counts
  case fits =>
    rw [records]
    exact conserved.fits.mono (others_subset released.found)
  case pending =>
    intro key
    rw [released.pending, released.reservation, get_erase, BTreeSet.mem_erase]
    by_cases same : id = key
    · simp [same]
    · rw [if_neg same, conserved.pending, and_iff_right same]

theorem Conserved.committed (conserved : Conserved tables)
    (committed : Committed tables id r tables') : Conserved tables' := by
  have records := records_of_insert committed.reservation
  constructor
  case keyed =>
    intro key x found
    rw [committed.reservation] at found
    obtain ⟨same, rfl⟩ | ⟨same, found⟩ := of_get_insert found
    · exact (conserved.keyed id r committed.found).trans same
    · exact conserved.keyed key x found
  case counts => exact records ▸ committed.counts
  case fits =>
    have new' : r.commit ∉ tables.others id :=
      fun mem => conserved.id_of_mem mem (conserved.keyed id r committed.found)
    have fits := conserved.fits
    rw [records_eq_insert committed.found] at fits
    rw [records]
    exact fits.commit (conserved.not_mem_others committed.found) new'
  case pending =>
    intro key
    rw [committed.pending, committed.reservation, get_insert, BTreeSet.mem_erase]
    by_cases same : id = key
    · simp [same, QuotaReservationRecord.commit]
    · rw [if_neg same, conserved.pending, and_iff_right same]

theorem Conserved.reserved (conserved : Conserved tables)
    (fresh : tables.reservation[id]? = none) {request : NewQuotaReservation} {limited : Bool}
    (reserved : Reserved tables tables.records id request limited tables' r) :
    Conserved tables' := by
  have records : tables'.records = insert r tables.records := by
    rw [records_of_insert reserved.reservation, others_of_absent fresh]
  constructor
  case keyed =>
    intro key x found
    rw [reserved.reservation] at found
    obtain ⟨same, rfl⟩ | ⟨same, found⟩ := of_get_insert found
    · rw [reserved.record]
      exact same
    · exact conserved.keyed key x found
  case counts => exact records ▸ reserved.counts
  case fits => exact records ▸ reserved.fits
  case pending =>
    intro key
    rw [reserved.pending, reserved.reservation, get_insert, BTreeSet.mem_insert]
    have state : r.state = .reserved := by
      rw [reserved.record]
      rfl
    by_cases same : id = key
    · simp [same, state]
    · rw [if_neg same, conserved.pending, or_iff_right same]

/-! ## Calls -/

end QuotaTables

namespace QuotaCall

/-- `Uuid::new_v4` draws an id that no surviving reservation has. -/
def Draws (tables : QuotaTables) : QuotaCall → Prop
  | reserve id _ _ => tables.reservation[id]? = none
  | reserveResource id _ _ _ => tables.reservation[id]? = none
  | _ => True

instance (tables : QuotaTables) : (call : QuotaCall) → Decidable (Draws tables call)
  | reserve id _ _ => inferInstanceAs (Decidable (tables.reservation[id]? = none))
  | reserveResource id _ _ _ => inferInstanceAs (Decidable (tables.reservation[id]? = none))
  | commit _ => isTrue trivial
  | release _ => isTrue trivial
  | settle _ _ => isTrue trivial
  | releaseAllocation _ => isTrue trivial
  | repair _ _ => isTrue trivial
  | aborted _ => isTrue trivial

def reserving : QuotaCall → Option (Uuid × NewQuotaReservation × QuotaLimits × Option Nat)
  | reserve id request limits => some (id, request, limits, none)
  | reserveResource id request limits maxResourceArtifactBytes =>
    if request.resource.isNone then none
    else some (id, request, limits, maxResourceArtifactBytes)
  | _ => none

theorem Draws.absent {call : QuotaCall} (draws : call.Draws tables)
    {id : Uuid} {request : NewQuotaReservation} {limits : QuotaLimits} {limit : Option Nat}
    (reserving : call.reserving = some (id, request, limits, limit)) :
    tables.reservation[id]? = none := by
  cases call with
  | reserve =>
    cases reserving
    exact draws
  | reserveResource =>
    cases (Option.ite_none_left_eq_some.mp reserving).2
    exact draws
  | _ => cases reserving

def releases (tables : QuotaTables) : QuotaCall → Option Uuid
  | release id => some id
  | releaseAllocation allocation => tables.allocation[allocation.key]?
  | _ => none

end QuotaCall

namespace QuotaTables

/-- Committing and abandoning a reservation keep `I`. -/
structure Keeps (I : QuotaTables → Prop) : Prop where
  commit : ∀ {tables id r tables'}, Conserved tables → I tables →
    Committed tables id r tables' → I tables'
  abandon : ∀ {tables id r tables'}, Conserved tables → I tables → r.state = .reserved →
    Released tables id r tables' → I tables'

variable {I : QuotaTables → Prop}

variable {call : QuotaCall}

theorem yields_commit (keeps : Keeps I) (conserved : Conserved tables)
    (holds : I tables) (id : Uuid) :
    Yields (fun (tables', _) => Conserved tables' ∧ I tables') (tables.commitReservation id) := by
  refine (yields_commitReservation conserved id).mono ?_
  rintro ⟨tables', done⟩ changed
  cases done with
  | true =>
    obtain ⟨r, committed⟩ := changed
    exact ⟨conserved.committed committed, keeps.commit conserved holds committed⟩
  | false =>
    obtain rfl : tables' = tables := changed
    exact ⟨conserved, holds⟩

theorem yields_abandon (keeps : Keeps I) (conserved : Conserved tables)
    (holds : I tables) (id : Uuid) :
    Yields (fun (tables', _) => Conserved tables' ∧ I tables') (tables.release id .pending) := by
  cases found : tables.reservation[id]? with
  | none =>
    rw [release, found]
    exact ⟨conserved, holds⟩
  | some r =>
    cases state : r.state with
    | committed =>
      rw [release, found]
      dsimp only
      rw [if_pos ⟨state, rfl⟩]
      exact ⟨conserved, holds⟩
    | reserved =>
      have within : ¬ (r.state = .committed ∧ ReleaseScope.pending = .pending) := by
        rw [state]
        exact nofun
      obtain ⟨tables', done, released⟩ := release_eq conserved found within
      exact .of_ok done ⟨conserved.released released, keeps.abandon conserved holds state released⟩

theorem yields_settleReservation (keeps : Keeps I)
    (conserved : Conserved tables) (holds : I tables) (id : Uuid) (commit : Bool) :
    Yields (fun tables' => Conserved tables' ∧ I tables')
      (tables.settleReservation id commit) := by
  have settled : ∀ {x : Except QuotaStop (QuotaTables × Bool)},
      Yields (fun (tables', _) => Conserved tables' ∧ I tables') x →
        Yields (fun tables' => Conserved tables' ∧ I tables') (x >>= fun (tables', done) =>
          if done = true then .ok tables' else .error (.error (.reservationUnavailable id))) := by
    intro x kept
    refine kept.bind ?_
    rintro ⟨tables', done⟩ kept
    cases done with
    | true => exact kept
    | false => exact trivial
  cases commit with
  | true => exact settled (yields_commit keeps conserved holds id)
  | false => exact settled (yields_abandon keeps conserved holds id)

theorem yields_eligible (tables : QuotaTables) (createdBeforeUnix : Int64) :
    ∀ ids, Yields (fun _ => True) (tables.eligible createdBeforeUnix ids)
  | [] => trivial
  | id :: ids => by
    rw [eligible]
    cases tables.reservation[id]? with
    | none => exact trivial
    | some r => exact (yields_eligible tables createdBeforeUnix ids).bind fun _ _ => trivial

/-- **Step.** What every change of one record keeps, every call keeps that
makes and releases only such reservations as keep it. -/
theorem run_yields (keeps : Keeps I) (conserved : Conserved tables)
    (holds : I tables) (draws : call.Draws tables)
    (reserve : ∀ {id request limits limit tables' r},
      call.reserving = some (id, request, limits, limit) →
      tables.reserveQuotaInner id request limits limit = .ok (tables', r) →
      Reserved tables tables.records id request limit.isSome tables' r → I tables')
    (release : ∀ {id r tables'}, call.releases tables = some id → Released tables id r tables' →
      I tables') :
    Yields (fun (tables', _) => Conserved tables' ∧ I tables') (tables.run call) := by
  have answered : ∀ {α : Type} {answer : α → QuotaAnswer} {x : Except QuotaStop (QuotaTables × α)},
      Yields (fun yielded => Conserved yielded.1 ∧ I yielded.1) x →
        Yields (fun yielded => Conserved yielded.1 ∧ I yielded.1)
          (x.map (run.answered answer)) := fun kept => kept.map fun _ held => held
  have reserved : ∀ {id request limits limit},
      call.reserving = some (id, request, limits, limit) → tables.reservation[id]? = none →
        Yields (fun yielded => Conserved yielded.1 ∧ I yielded.1)
          (tables.reserveQuotaInner id request limits limit) := by
    intro id request limits limit reserving fresh
    have admitted := yields_reserveQuotaInner conserved.counts conserved.fits
      (fun _ => conserved.id_of_absent fresh) request limits limit
    refine admitted.and_eq.mono ?_
    rintro ⟨tables', r⟩ ⟨done, made⟩
    exact ⟨conserved.reserved fresh made, reserve reserving done made⟩
  have freed : ∀ {id}, call.releases tables = some id →
      Yields (fun yielded => Conserved yielded.1 ∧ I yielded.1) (tables.release id .any) := by
    intro id releases
    cases found : tables.reservation[id]? with
    | none =>
      rw [QuotaTables.release, found]
      exact ⟨conserved, holds⟩
    | some r =>
      have within : ¬ (r.state = .committed ∧ ReleaseScope.any = .pending) := by simp
      obtain ⟨tables', done, released⟩ := release_eq conserved found within
      exact .of_ok done ⟨conserved.released released, release releases released⟩
  cases call with
  | reserve id request limits => exact answered (reserved rfl draws)
  | reserveResource id request limits limit =>
    refine answered ?_
    unfold reserveResourceQuota
    by_cases unnamed : request.resource.isNone = true
    · rw [if_pos unnamed]
      exact trivial
    · rw [if_neg unnamed]
      exact reserved (if_neg unnamed) draws
  | commit id => exact answered (yields_commit keeps conserved holds id)
  | release id => exact answered (freed rfl)
  | settle reservations committed =>
    refine Yields.map (Yields.foldlM (fun tables id kept => ?_) reservations tables
      ⟨conserved, holds⟩) fun _ held => held
    exact yields_settleReservation keeps kept.1 kept.2 id _
  | releaseAllocation allocation =>
    refine answered ?_
    unfold releaseCommittedAllocation
    cases found : tables.allocation[allocation.key]? with
    | none => exact ⟨conserved, holds⟩
    | some id => exact freed found
  | repair createdBeforeUnix limit =>
    refine answered ((yields_eligible tables createdBeforeUnix _).bind fun eligible _ => ?_)
    refine Yields.bind (Yields.foldlM (fun tables id kept => ?_) (eligible.take limit) tables
      ⟨conserved, holds⟩) fun _ held => held
    exact (yields_abandon keeps kept.1 kept.2 id).map fun _ held => held
  | aborted error => exact trivial

theorem step_of_yields {P : QuotaTables → Prop}
    (yields : Yields (fun (tables', _) => P tables') (tables.run call)) (holds : P tables) :
    P (Machine.next step tables call) ∧
      Machine.answer step tables call ≠ .error .underflow := by
  unfold Machine.next Machine.answer step
  generalize tables.run call = outcome at yields
  match outcome, yields with
  | .ok (tables', answer), held => exact ⟨held, nofun⟩
  | .error (.error error), _ => exact ⟨holds, nofun⟩

/-- **Step.** Every call keeps the counters what the records imply. -/
theorem step_conserved (conserved : Conserved tables) (draws : call.Draws tables) :
    Conserved (Machine.next step tables call) ∧
      Machine.answer step tables call ≠ .error .underflow := by
  have keeps : Keeps fun _ => True := ⟨fun _ _ _ => trivial, fun _ _ _ _ => trivial⟩
  have yields := run_yields keeps conserved trivial draws (fun _ _ _ => trivial) fun _ _ => trivial
  exact step_of_yields (yields.mono fun _ kept => kept.1) conserved

/-- **Run.** The invariant holds after every call of every run. -/
theorem exec_conserved (calls : List QuotaCall)
    (draws : Machine.Along step QuotaCall.Draws {} calls) :
    Conserved (Machine.exec step {} calls) :=
  Machine.exec_invariant step (I := Conserved)
    (fun _ _ conserved draws => (step_conserved conserved draws).1) {} calls conserved_empty draws

/-- After every run of calls from an empty store in which no surviving
reservation's id is drawn again: a repository's usage, rows and references are
what the surviving records imply; its records of one digest have one size; the
pending index lists the reserved records; and the next call, whichever it is,
subtracts nothing below zero. -/
theorem quota_is_conserved (calls : List QuotaCall)
    (draws : Machine.Along step QuotaCall.Draws {} calls) :
    let tables := Machine.exec step {} calls
    (∀ repository, tables.quotaUsage repository = tables.records.usage repository) ∧
    tables.records.OneSize ∧
    (∀ repository digest, (tables.blob.getD (.blob repository digest) {}).references =
      tables.records.blobReferences repository digest) ∧
    (∀ repository resource, tables.resource.getD (.resource repository resource) {} =
      tables.records.resourceUsage repository resource) ∧
    (∀ repository resource group, tables.group.getD (.group repository resource group) {} =
      tables.records.groupReferences repository resource group) ∧
    (∀ id : Uuid, id ∈ tables.pending ↔
      ∃ r : QuotaReservationRecord, tables.reservation[id]? = some r ∧ r.state = .reserved) ∧
    ∀ call : QuotaCall, call.Draws tables → (tables.step call).2 ≠ .error .underflow := by
  intro tables
  have conserved := exec_conserved calls draws
  have blobs := conserved.counts.blobs
  have resources := conserved.counts.resources
  refine ⟨fun repository => ?_, blobs.oneSize, blobs.references, resources.resource,
    resources.group, conserved.pending, fun call draws => (step_conserved conserved draws).2⟩
  exact QuotaUsage.ext (blobs.artifactBytes repository) (blobs.accountedBytes repository)
    (resources.resources repository)

end QuotaTables

def sharedUpload (createdAtUnix : Int64) : NewQuotaReservation where
  repository := "private"
  resource := some "demo"
  group := some "1.0"
  digest := "sha256:aa"
  bytes := 7
  createdAtUnix

/-- Of two uploads of one file, the first is committed and the second released
by a repair: the file is accounted once, under what is committed. -/
theorem quota_is_conserved_shared :
    let calls : List QuotaCall := [.reserve 1 (sharedUpload 10) {}, .reserve 2 (sharedUpload 20) {},
      .commit 1, .aborted .counterOverflow, .repair 20 5]
    ((Machine.exec QuotaTables.step {} calls).quotaUsage "private").accountedBytes = ⟨7, 0⟩ ∧
      (Machine.exec QuotaTables.step {} calls).quotaUsage "private" =
        (Machine.exec QuotaTables.step {} calls).records.usage "private" := by
  intro calls
  refine ⟨by decide +kernel, (QuotaTables.quota_is_conserved calls ?_).1 "private"⟩
  exact ⟨by decide +kernel, by decide +kernel, trivial, trivial, trivial, trivial⟩

end Peryx
