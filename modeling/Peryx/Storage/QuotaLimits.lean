import Peryx.Storage.QuotaConservation

/-!
# Enforced quotas

The limits of `meta/quota.rs` are looked at only by a reservation, and only where
it brings a digest, a resource or a group that nothing held before. Over the
ledger that is enough.

- `limitViolations_eq_nil_iff`: what a reservation is held to.
- `enforced_quotas_hold`: no repository goes past its limits.
-/

namespace Peryx

open Holders Machine Tally List Peryx.Except Finset
open QuotaReservationRecord (settled)

/-! ## Bounds of a repository -/

/-- The repository's records keep `limits`, and those of each resource that were
given a limit on its bytes keep that limit. -/
structure Ledger.Within (rs : Ledger) (repository : String) (limits : QuotaLimits)
    (resourceLimit : String → Nat) : Prop where
  artifactBytes : ∀ max, limits.maxArtifactBytes = some max →
    ∀ r ∈ rs, r.repository = repository → r.bytes ≤ max
  accountedBytes : ∀ max, limits.maxAccountedBytes = some max →
    (rs.usage repository).accountedBytes.sum ≤ max
  resources : ∀ max, limits.maxResources = some max → (rs.usage repository).resources.sum ≤ max
  groups : ∀ max, limits.maxGroupsPerResource = some max →
    ∀ resource, (rs.resourceUsage repository resource).groups.sum ≤ max
  resourceArtifactBytes : ∀ resource,
    (rs.resourceUsage repository resource).artifactBytes.sum ≤ resourceLimit resource

variable {limits : QuotaLimits} {resourceLimit : String → Nat} {r : QuotaReservationRecord}

variable {repository : String}

namespace Ledger.Within

variable {rs s : Ledger}

theorem mono (within : rs.Within repository limits resourceLimit) (le : s ⊆ rs) :
    s.Within repository limits resourceLimit where
  artifactBytes max given r hr := within.artifactBytes max given r (le hr)
  accountedBytes max given := (sum_charge_mono _ _ _ le).trans (within.accountedBytes max given)
  resources max given := (sum_charge_mono _ _ _ le).trans (within.resources max given)
  groups max given resource := (sum_charge_mono _ _ _ le).trans (within.groups max given resource)
  resourceArtifactBytes resource :=
    (sum_tally_mono _ _ le).trans (within.resourceArtifactBytes resource)

theorem commit (within : Within (insert r s) repository limits resourceLimit) (new : r ∉ s)
    (new' : r.commit ∉ s) : Within (insert r.commit s) repository limits resourceLimit where
  artifactBytes max given x hx here := by
    rcases mem_insert.mp hx with rfl | hx
    · exact within.artifactBytes max given r (Finset.mem_insert_self r s) here
    · exact within.artifactBytes max given x (Finset.mem_insert_of_mem hx) here
  accountedBytes max given :=
    (sum_charge_commit (·.digestIn repository) _ rfl).trans_le (within.accountedBytes max given)
  resources max given :=
    (sum_charge_commit (·.resourceIn repository) _ rfl).trans_le (within.resources max given)
  groups max given resource :=
    (sum_charge_commit (·.groupIn repository resource) _ rfl).trans_le
      (within.groups max given resource)
  resourceArtifactBytes resource :=
    (sum_tally_commit (·.limitedIn repository resource) rfl new new').trans_le
      (within.resourceArtifactBytes resource)

theorem elsewhere (within : s.Within repository limits resourceLimit) (new : r ∉ s)
    (other : r.repository ≠ repository) : Within (insert r s) repository limits resourceLimit := by
  have after : Ledger.Around r s (insert r s) := .present rfl new
  have usage := after.usage_of_ne other
  have resource : ∀ name, (insert r s : Ledger).resourceUsage repository name =
      s.resourceUsage repository name :=
    fun name => after.resourceUsage_of_ne fun same =>
      other (QuotaReservationRecord.resourceIn_eq_some.mp same).1
  constructor
  case artifactBytes =>
    intro max given x hx here
    rcases mem_insert.mp hx with rfl | hx
    · exact absurd here other
    · exact within.artifactBytes max given x hx here
  case accountedBytes => exact fun max given => usage ▸ within.accountedBytes max given
  case resources => exact fun max given => usage ▸ within.resources max given
  case groups => exact fun max given name => resource name ▸ within.groups max given name
  case resourceArtifactBytes =>
    exact fun name => resource name ▸ within.resourceArtifactBytes name

end Ledger.Within

/-! ## A reservation against its limits -/

variable {limit : Option Nat} {request : NewQuotaReservation}

namespace ReservationRows

theorem passes_iff {t : Tally} {n : Nat}
    (fits : (t.add false n).sum ≤ Nat.u64Max) :
    passes t n limit = true ↔ ∃ max, limit = some max ∧ max < (t.add false n).sum := by
  rw [sum_add] at fits ⊢
  have total : t.total = t.sum := total_eq_sum ((Nat.le_add_right ..).trans fits)
  unfold passes
  rw [total, Nat.u64CheckedAdd, if_pos fits]
  cases limit with
  | none => simp
  | some max => simp

theorem adds_and_passes_iff {t : Tally} {n : Nat} {adds : Bool}
    (fits : (t.addIf adds n).sum ≤ Nat.u64Max)
    (before : ∀ max, limit = some max → t.sum ≤ max) :
    (adds && passes t n limit) = true ↔ ∃ max, limit = some max ∧ max < (t.addIf adds n).sum := by
  cases adds with
  | true => exact passes_iff fits
  | false =>
    refine ⟨nofun, ?_⟩
    rintro ⟨max, given, beyond⟩
    exact absurd (before max given) (Nat.not_le_of_lt beyond)

variable {bytes : Nat}

theorem resourceExcess_isSome_iff {rows : ReservationRows}
    (fits : (rows.resource.artifactBytes.addIf limit.isSome bytes).sum ≤ Nat.u64Max) :
    (rows.resourceExcess bytes limit).isSome = true ↔
      ∃ max, limit = some max ∧
        max < (rows.resource.artifactBytes.addIf limit.isSome bytes).sum := by
  cases limit with
  | none => simp [resourceExcess]
  | some max =>
    rw [Option.isSome_some, addIf_true, sum_add] at fits ⊢
    have total := total_eq_sum ((Nat.le_add_right ..).trans fits)
    simp only [resourceExcess, Option.bind_some, total]
    split <;> simp_all

variable {rows : ReservationRows} {s : Ledger}

theorem limitViolations_eq_nil {excess : Bool} :
    rows.limitViolations bytes limits excess = [] ↔
      (∀ max, limits.maxArtifactBytes = some max → bytes ≤ max) ∧ excess = false ∧
      (rows.adds.accountedBytes &&
        passes rows.usage.accountedBytes bytes limits.maxAccountedBytes) = false ∧
      (rows.adds.resource && passes rows.usage.resources 1 limits.maxResources) = false ∧
      (rows.adds.group && passes rows.resource.groups 1 limits.maxGroupsPerResource) = false := by
  have artifact : limits.maxArtifactBytes.any (bytes > ·) = false ↔
      ∀ max, limits.maxArtifactBytes = some max → bytes ≤ max := by
    cases limits.maxArtifactBytes <;> simp
  rw [← artifact]
  simp only [limitViolations, append_eq_nil_iff, ite_eq_right_iff, reduceCtorEq, imp_false,
    Bool.not_eq_true, Bool.or_eq_false_iff, and_assoc]

theorem limitViolations_eq_nil_iff (within : s.Within r.repository limits resourceLimit)
    (reads : RowsFor rows r s) (new : r ∉ s) (reserved : r.settled = false)
    (limited : r.resourceArtifactBytes = limit.isSome)
    (totals : TotalsFit (rows.plus r.bytes limit.isSome))
    (given : ∀ max, limit = some max → ∃ name, r.resource = some name ∧ max = resourceLimit name) :
    rows.limitViolations r.bytes limits (rows.resourceExcess r.bytes limit).isSome = [] ↔
      Ledger.Within (insert r s) r.repository limits resourceLimit := by
  have after : Ledger.Around r s (insert r s) := .present rfl new
  have written := limited ▸ reads.plus new reserved
  have usage := written.usage
  have accounted := adds_and_passes_iff totals.accountedBytes fun max bound =>
    reads.usage ▸ within.accountedBytes max bound
  have resources := adds_and_passes_iff totals.resources fun max bound =>
    reads.usage ▸ within.resources max bound
  have excess := resourceExcess_isSome_iff totals.resourceArtifactBytes
  have elsewhere : ∀ name, r.resource ≠ some name →
      (insert r s : Ledger).resourceUsage r.repository name =
        s.resourceUsage r.repository name := fun name other =>
    after.resourceUsage_of_ne fun same =>
      other (QuotaReservationRecord.resourceIn_eq_some.mp same).2
  have groups : (rows.adds.group &&
        passes rows.resource.groups 1 limits.maxGroupsPerResource) = true ↔
      ∃ max name, limits.maxGroupsPerResource = some max ∧ r.resource = some name ∧
        max < ((insert r s : Ledger).resourceUsage r.repository name).groups.sum := by
    cases named : r.resource with
    | none => simp [adds, reads.groupKey, named]
    | some name =>
      rw [adds_and_passes_iff totals.groups fun max bound =>
        reads.resource name named ▸ within.groups max bound name]
      simp [← written.resource name named, plus]
  rw [limitViolations_eq_nil]
  simp only [← Bool.not_eq_true, accounted, resources, excess, groups]
  constructor
  · rintro ⟨artifact, noExcess, noAccounted, noResources, noGroups⟩
    constructor
    case artifactBytes =>
      intro max bound x hx here
      rcases mem_insert.mp hx with rfl | hx
      · exact artifact max bound
      · exact within.artifactBytes max bound x hx here
    case accountedBytes =>
      intro max bound
      rw [← usage]
      exact Nat.le_of_not_lt fun beyond => noAccounted ⟨max, bound, beyond⟩
    case resources =>
      intro max bound
      rw [← usage]
      exact Nat.le_of_not_lt fun beyond => noResources ⟨max, bound, beyond⟩
    case groups =>
      intro max bound name
      by_cases named : r.resource = some name
      · exact Nat.le_of_not_lt fun beyond => noGroups ⟨max, name, bound, named, beyond⟩
      · rw [elsewhere name named]
        exact within.groups max bound name
    case resourceArtifactBytes =>
      intro name
      by_cases named : r.resource = some name
      · rw [← written.resource name named]
        cases limit with
        | none =>
          show (rows.resource.artifactBytes.addIf false r.bytes).sum ≤ _
          rw [addIf_false, reads.resource name named]
          exact within.resourceArtifactBytes name
        | some max =>
          obtain ⟨name', named', rfl⟩ := given max rfl
          cases named.symm.trans named'
          exact Nat.le_of_not_lt fun beyond => noExcess ⟨_, rfl, beyond⟩
      · rw [elsewhere name named]
        exact within.resourceArtifactBytes name
  · intro holds
    refine ⟨fun max bound => holds.artifactBytes max bound r (Finset.mem_insert_self r s) rfl,
      ?_, ?_, ?_, ?_⟩
    · rintro ⟨max, bound, beyond⟩
      obtain ⟨name, named, rfl⟩ := given max bound
      have kept := holds.resourceArtifactBytes name
      rw [← written.resource name named] at kept
      exact Nat.not_le_of_lt beyond kept
    · rintro ⟨max, bound, beyond⟩
      have kept := holds.accountedBytes max bound
      rw [← usage] at kept
      exact Nat.not_le_of_lt beyond kept
    · rintro ⟨max, bound, beyond⟩
      have kept := holds.resources max bound
      rw [← usage] at kept
      exact Nat.not_le_of_lt beyond kept
    · rintro ⟨max, name, bound, -, beyond⟩
      exact Nat.not_le_of_lt beyond (holds.groups max bound name)

end ReservationRows

/-! ## Refusals -/

/-- A reservation refused for a limit. -/
def QuotaError.isRefusal : QuotaError → Bool
  | exceeded _ => true
  | resourceExceeded _ => true
  | _ => false

def Admits {α : Type} (x : Except QuotaStop α) : Prop :=
  ∀ error, x = .error (.error error) → error.isRefusal = false

namespace Admits

variable {α β : Type}

variable {x : Except QuotaStop α}

theorem of_ok {a : α} (h : x = .ok a) : Admits x := by
  rintro error failed
  rw [h] at failed
  cases failed

theorem bind {f : α → Except QuotaStop β} (hx : Admits x)
    (hf : ∀ a, Admits (f a)) : Admits (x >>= f) := by
  intro error failed
  rcases bind_eq_error.mp failed with failed | ⟨a, -, failed⟩
  · exact hx error failed
  · exact hf a error failed

theorem checkedAdd (value amount : Nat) : Admits (checkedAdd value amount) := by
  unfold Peryx.checkedAdd
  cases value.u64CheckedAdd amount with
  | some sum => exact .of_ok rfl
  | none => rintro _ ⟨⟩; rfl

theorem addReserved (t : Tally) (n : Nat) : Admits (addReserved t n) :=
  .bind (checkedAdd _ _) fun _ => .of_ok rfl

theorem onlyIf_addReserved (condition : Bool) (t : Tally) (n : Nat) :
    Admits (onlyIf condition (Peryx.addReserved · n) t) := by
  cases condition with
  | true => exact addReserved t n
  | false => exact .of_ok rfl

theorem charged (rows : ReservationRows) (bytes : Nat) (limited : Bool) :
    Admits (rows.charged bytes limited) :=
  .bind (addReserved _ _) fun _ => .bind (onlyIf_addReserved _ _ _) fun _ =>
  .bind (onlyIf_addReserved _ _ _) fun _ => .bind (addReserved _ _) fun _ =>
  .bind (onlyIf_addReserved _ _ _) fun _ => .bind (onlyIf_addReserved _ _ _) fun _ =>
  .bind (onlyIf_addReserved _ _ _) fun _ => .bind (onlyIf_addReserved _ _ _) fun _ => .of_ok rfl

theorem ensureTotals (rows : ReservationRows) (bytes : Nat) (limited : Bool) :
    Admits (rows.ensureTotals bytes limited) := by
  have total : ∀ t n, Admits (ensureTotalAdd t n) := fun t n =>
    .bind (checkedAdd _ _) fun _ => .bind (checkedAdd _ _) fun _ => .of_ok rfl
  have totalIf : ∀ adds t n, Admits (ensureIf adds t n) := by
    intro adds t n
    cases adds with
    | true => exact total t n
    | false => exact .of_ok rfl
  exact .bind (total _ _) fun _ => .bind (totalIf _ _ _) fun _ => .bind (totalIf _ _ _) fun _ =>
    .bind (totalIf _ _ _) fun _ => totalIf _ _ _

theorem guard {c : Prop} [Decidable c] {e : QuotaError}
    (other : e.isRefusal = false) (hx : Admits x) :
    Admits (if c then .error (.error e) else x) := by
  split
  · rintro _ ⟨⟩
    exact other
  · exact hx

theorem validateRequest (request : NewQuotaReservation) : Admits (validateRequest request) := by
  have field : ∀ name value, Admits (validateField name value) :=
    fun name value => .guard rfl (.guard rfl (.of_ok rfl))
  exact .bind (field _ _) fun _ => .bind (field _ _) fun _ => .bind (field _ _) fun _ =>
    .bind (field _ _) fun _ => .guard rfl (.of_ok rfl)

theorem read (tables : QuotaTables) (request : NewQuotaReservation) :
    Admits (ReservationRows.read tables request) :=
  .guard rfl (.of_ok rfl)

end Admits

theorem ReservationRows.reserve_refused {rows : ReservationRows} (fits : TotalsFit rows)
    {bytes : Nat} {error : QuotaError}
    (failed : rows.reserve bytes limits limit = .error (.error error))
    (refusal : error.isRefusal = true) :
    TotalsFit (rows.plus bytes limit.isSome) ∧
      rows.limitViolations bytes limits (rows.resourceExcess bytes limit).isSome ≠ [] := by
  rcases bind_eq_error.mp failed with failed | ⟨_, totalled, failed⟩
  · cases refusal.symm.trans (Admits.ensureTotals _ _ _ error failed)
  have totals := (yields_ensureTotals fits bytes limit.isSome).and_eq
  rw [totalled] at totals
  refine ⟨totals.2, fun none => ?_⟩
  simp only [none, isEmpty_nil, Bool.not_true, Bool.and_false, Bool.false_eq_true,
    if_false] at failed
  have admits : Admits (rows.charged bytes limit.isSome >>= fun rows =>
      pure (rows, ([] : List QuotaLimit))) := .bind (.charged _ _ _) fun _ => .of_ok rfl
  cases refusal.symm.trans (admits error failed)

namespace QuotaTables

variable {tables tables' : QuotaTables} {id : Uuid}

theorem reserveQuotaInner_ok
    (done : tables.reserveQuotaInner id request limits limit = .ok (tables', r)) :
    ∃ rows rows', ReservationRows.read tables request = .ok rows ∧
      rows.reserve request.bytes limits limit = .ok (rows', r.violations) := by
  obtain ⟨_, -, done⟩ := bind_eq_ok.mp done
  obtain ⟨rows, read, done⟩ := bind_eq_ok.mp done
  obtain ⟨⟨rows', violations⟩, reserve, done⟩ := bind_eq_ok.mp done
  cases done
  exact ⟨rows, rows', read, reserve⟩

theorem reserveQuotaInner_refused {error : QuotaError}
    (failed : tables.reserveQuotaInner id request limits limit = .error (.error error))
    (refusal : error.isRefusal = true) :
    ∃ rows, ReservationRows.read tables request = .ok rows ∧
      rows.reserve request.bytes limits limit = .error (.error error) := by
  rcases bind_eq_error.mp failed with failed | ⟨_, -, failed⟩
  · cases refusal.symm.trans (Admits.validateRequest _ error failed)
  rcases bind_eq_error.mp failed with failed | ⟨rows, read, failed⟩
  · cases refusal.symm.trans (Admits.read _ _ error failed)
  rcases bind_eq_error.mp failed with failed | ⟨_, -, failed⟩
  · exact ⟨rows, read, failed⟩
  · cases failed

end QuotaTables

/-! ## Runs under the same limits -/

/-- A reservation of this repository is made under these limits, and with this
limit on its resource's bytes if it is made with one. -/
def QuotaCall.Under (repository : String) (limits : QuotaLimits) (resourceLimit : String → Nat)
    (call : QuotaCall) : Prop :=
  ∀ id request limits' limit, call.reserving = some (id, request, limits', limit) →
    request.repository = repository → limits' = limits ∧
      ∀ max, limit = some max → ∃ name, request.resource = some name ∧ max = resourceLimit name

namespace QuotaTables

theorem within_keeps :
    Keeps fun tables => tables.records.Within repository limits resourceLimit where
  commit {tables id r tables'} conserved within committed := by
    have new' : r.commit ∉ tables.others id :=
      fun mem => conserved.id_of_mem mem (conserved.keyed id r committed.found)
    rw [records_eq_insert committed.found] at within
    rw [records_of_insert committed.reservation]
    exact within.commit (conserved.not_mem_others committed.found) new'
  abandon _ within _ released := by
    rw [released.records_eq]
    exact within.mono (others_subset released.found)

variable {tables : QuotaTables}

variable {call : QuotaCall} {id : Uuid}

theorem within_reserved {tables' : QuotaTables} (conserved : Conserved tables)
    (within : tables.records.Within repository limits resourceLimit)
    (enforced : limits.audit = false)
    (under : call.Under repository limits resourceLimit)
    {limits' : QuotaLimits}
    (reserving : call.reserving = some (id, request, limits', limit))
    (fresh : tables.reservation[id]? = none)
    (done : tables.reserveQuotaInner id request limits' limit = .ok (tables', r))
    (reserved : Reserved tables tables.records id request limit.isSome tables' r) :
    tables'.records.Within repository limits resourceLimit := by
  have new : r ∉ tables.records := by
    rw [reserved.record]
    exact fun mem => conserved.id_of_absent fresh mem rfl
  rw [records_of_insert reserved.reservation, others_of_absent fresh]
  by_cases here : request.repository = repository
  · obtain ⟨rfl, given⟩ := under id request limits' limit reserving here
    obtain ⟨rows, rows', read, admitted⟩ := reserveQuotaInner_ok done
    have reads := ReservationRows.read_rowsFor conserved.counts read id r.violations limit.isSome
    have fits := ReservationRows.read_totalsFit conserved.counts conserved.fits read
    have yields := ReservationRows.yields_reserve fits request.bytes limits' limit
    rw [admitted] at yields
    obtain ⟨rfl, totals, violations, none⟩ := yields
    rw [none enforced] at violations
    subst here
    rw [reserved.record] at new ⊢
    exact (ReservationRows.limitViolations_eq_nil_iff within reads new rfl rfl totals given).mp
      violations.symm
  · refine within.elsewhere new ?_
    rw [reserved.record]
    exact here

theorem not_within_of_refused (conserved : Conserved tables) {error : QuotaError}
    (within : tables.records.Within request.repository limits resourceLimit)
    (given : ∀ max, limit = some max →
      ∃ name, request.resource = some name ∧ max = resourceLimit name)
    (fresh : tables.reservation[id]? = none)
    (failed : tables.reserveQuotaInner id request limits limit = .error (.error error))
    (refusal : error.isRefusal = true) :
    ¬ Ledger.Within (insert (request.reservation id [] limit.isSome) tables.records)
      request.repository limits resourceLimit := by
  have new : request.reservation id [] limit.isSome ∉ tables.records :=
    fun mem => conserved.id_of_absent fresh mem rfl
  obtain ⟨rows, read, failed⟩ := reserveQuotaInner_refused failed refusal
  have reads := ReservationRows.read_rowsFor conserved.counts read id [] limit.isSome
  have fits := ReservationRows.read_totalsFit conserved.counts conserved.fits read
  obtain ⟨totals, violations⟩ := ReservationRows.reserve_refused fits failed refusal
  exact mt (ReservationRows.limitViolations_eq_nil_iff within reads new rfl rfl totals given).mpr
    violations

theorem run_error_of_reserving {stop : QuotaStop}
    (reserving : call.reserving = some (id, request, limits, limit))
    (failed : tables.run call = .error stop) :
    tables.reserveQuotaInner id request limits limit = .error stop := by
  cases call with
  | reserve =>
    cases reserving
    exact map_eq_error.mp failed
  | reserveResource _ request' =>
    obtain ⟨named, reserving⟩ := Option.ite_none_left_eq_some.mp reserving
    cases reserving
    have failed := map_eq_error.mp failed
    rw [reserveResourceQuota, if_neg named] at failed
    exact failed
  | _ => cases reserving

/-- **Run.** The repository is within its bounds after every call of every run
whose reservations of it are made under the same enforced limits. -/
theorem exec_within (enforced : limits.audit = false) (calls : List QuotaCall)
    (draws : Along step QuotaCall.Draws {} calls)
    (under : ∀ call ∈ calls, call.Under repository limits resourceLimit) :
    (exec step {} calls).records.Within repository limits resourceLimit := by
  have along := along_and step {} calls draws
    (along_of_forall step {} calls fun call mem _ => under call mem)
  have empty : ({} : QuotaTables).records.Within repository limits resourceLimit := by
    constructor <;> intros <;> first | exact Nat.zero_le _ | contradiction
  refine (exec_invariant step
    (I := fun tables => Conserved tables ∧ tables.records.Within repository limits resourceLimit)
    ?_ {} calls ⟨conserved_empty, empty⟩ along).2
  rintro tables call ⟨conserved, within⟩ ⟨draws, under⟩
  have yields := run_yields within_keeps conserved within draws ?_ ?_
  · exact (step_of_yields
      (P := fun tables => Conserved tables ∧ tables.records.Within repository limits resourceLimit)
      yields ⟨conserved, within⟩).1
  · intro id request limits' limit tables' r reserving done reserved
    exact within_reserved conserved within enforced under reserving (draws.absent reserving) done
      reserved
  · intro id r tables' _ released
    rw [released.records_eq]
    exact within.mono (others_subset released.found)

/-- After every run in which a repository's reservations are made under the
same enforced limits, and no surviving id is drawn again: its accounted bytes
and resources, the groups and limited bytes of each of its resources and the
size of each of its records keep those limits, and a further reservation of it
that is refused for a limit would break one. -/
theorem enforced_quotas_hold (repository : String) (limits : QuotaLimits)
    (enforced : limits.audit = false) (resourceLimit : String → Nat) (calls : List QuotaCall)
    (draws : Machine.Along step QuotaCall.Draws {} calls)
    (under : ∀ call ∈ calls, call.Under repository limits resourceLimit) :
    let tables := Machine.exec step {} calls
    (∀ max, limits.maxAccountedBytes = some max →
      (tables.quotaUsage repository).accountedBytes.sum ≤ max) ∧
    (∀ max, limits.maxResources = some max → (tables.quotaUsage repository).resources.sum ≤ max) ∧
    (∀ max resource, limits.maxGroupsPerResource = some max →
      (tables.quotaResourceUsage repository resource).groups.sum ≤ max) ∧
    (∀ resource, (tables.quotaResourceUsage repository resource).artifactBytes.sum ≤
      resourceLimit resource) ∧
    (∀ (max : Nat) (id : Uuid) (r : QuotaReservationRecord), limits.maxArtifactBytes = some max →
      tables.reservation[id]? = some r → r.repository = repository → r.bytes ≤ max) ∧
    ∀ call id request limit error, call.reserving = some (id, request, limits, limit) →
      request.repository = repository → call.Under repository limits resourceLimit →
      call.Draws tables → (tables.step call).2 = .error (.error error) →
      error.isRefusal = true →
        ¬ Ledger.Within (insert (request.reservation id [] limit.isSome) tables.records)
          repository limits resourceLimit := by
  intro tables
  have conserved : Conserved tables := exec_conserved calls draws
  have within : tables.records.Within repository limits resourceLimit :=
    exec_within enforced calls draws under
  have blobs := conserved.counts.blobs
  have resources := conserved.counts.resources
  refine ⟨?_, ?_, ?_, ?_, ?_, ?_⟩
  · intro max bound
    rw [blobs.accountedBytes]
    exact within.accountedBytes max bound
  · intro max bound
    rw [resources.resources]
    exact within.resources max bound
  · intro max resource bound
    rw [quotaResourceUsage, resources.resource]
    exact within.groups max bound resource
  · intro resource
    rw [quotaResourceUsage, resources.resource]
    exact within.resourceArtifactBytes resource
  · intro max id r bound found here
    exact within.artifactBytes max bound r (BTreeMap.mem_valueSet.mpr ⟨id, found⟩) here
  · intro call id request limit error reserving here under draws failed refusal
    obtain ⟨-, given⟩ := under id request limits limit reserving here
    have failed : tables.run call = .error (.error error) := by
      unfold step at failed
      cases outcome : tables.run call with
      | ok =>
        rw [outcome] at failed
        cases failed
      | error stop =>
        rw [outcome] at failed
        cases failed
        rfl
    subst here
    exact not_within_of_refused conserved within given (draws.absent reserving)
      (run_error_of_reserving reserving failed) refusal

end QuotaTables

/-- A second file of the same release takes the repository past its bytes and
is refused. -/
theorem enforced_quotas_hold_second_file :
    let limits : QuotaLimits := { maxAccountedBytes := some 10 }
    let calls : List QuotaCall := [.reserve 1 (sharedUpload 10) limits, .commit 1]
    let second := { sharedUpload 20 with digest := "sha256:bb" }
    let tables := Machine.exec QuotaTables.step {} calls
    (tables.step (.reserve 2 second limits)).2 = .error (.error (.exceeded [.accountedBytes])) ∧
      (tables.quotaUsage "private").accountedBytes.sum ≤ 10 ∧
      ¬ Ledger.Within (insert (second.reservation 2 [] false) tables.records) "private" limits
        (fun _ => 0) := by
  intro limits calls second tables
  have refused : (tables.step (.reserve 2 second limits)).2 =
      .error (.error (.exceeded [.accountedBytes])) := by decide +kernel
  have under : ∀ id request, QuotaCall.Under "private" limits (fun _ => 0)
      (.reserve id request limits) := by
    rintro id request id' request' limits' limit ⟨⟩ _
    exact ⟨rfl, nofun⟩
  have commit : QuotaCall.Under "private" limits (fun _ => 0) (.commit 1) := nofun
  have holds := QuotaTables.enforced_quotas_hold "private" limits rfl (fun _ => 0) calls
    ⟨by decide +kernel, trivial, trivial⟩
    (List.forall_mem_cons.mpr ⟨under 1 _, by simpa using commit⟩)
  refine ⟨refused, holds.1 10 rfl, ?_⟩
  exact holds.2.2.2.2.2 (.reserve 2 second limits) 2 second none _ rfl rfl (under 2 second)
    (by decide +kernel) refused rfl

end Peryx
