import Peryx.Storage.QuotaTransition

/-!
# Reserving as a step of the ledger

`ReservationRows` of `meta/quota.rs` against the records.
-/

namespace Peryx

open Holders Ledger Tally Option
open QuotaReservationRecord (settled)

/-! ## Adding to rows -/

def Tally.addIf (condition : Bool) (t : Tally) (n : Nat) : Tally :=
  if condition = true then t.add false n else t

@[simp] theorem Tally.addIf_true (t : Tally) (n : Nat) : t.addIf true n = t.add false n := rfl

@[simp] theorem Tally.addIf_false (t : Tally) (n : Nat) : t.addIf false n = t := rfl

theorem yields_addReserved (t : Tally) (n : Nat) :
    Yields (· = t.add false n) (addReserved t n) := by
  refine (yields_checkedAdd _ _).bind ?_
  rintro _ ⟨rfl, -⟩
  exact rfl

theorem yields_onlyIf_addReserved (condition : Bool) (t : Tally) (n : Nat) :
    Yields (· = t.addIf condition n) (onlyIf condition (addReserved · n) t) := by
  cases condition with
  | true => exact yields_addReserved t n
  | false => exact rfl

variable {tables : QuotaTables}

namespace ReservationRows

/-- The rows with a reservation of `bytes` added. -/
def plus (rows : ReservationRows) (bytes : Nat) (limited : Bool) : ReservationRows :=
  { rows with
    usage :=
      { artifactBytes := rows.usage.artifactBytes.add false bytes
        accountedBytes := rows.usage.accountedBytes.addIf rows.adds.accountedBytes bytes
        resources := rows.usage.resources.addIf rows.adds.resource 1 }
    resource :=
      { references := rows.resource.references.addIf rows.resourceKey.isSome 1
        artifactBytes := rows.resource.artifactBytes.addIf limited bytes
        groups := rows.resource.groups.addIf rows.adds.group 1 }
    group := rows.group.addIf rows.groupKey.isSome 1
    blob := { rows.blob with references := rows.blob.references.add false 1 } }

theorem yields_charged (rows : ReservationRows) (bytes : Nat) (limited : Bool) :
    Yields (· = rows.plus bytes limited) (rows.charged bytes limited) := by
  refine (yields_addReserved _ _).bind ?_
  rintro _ rfl
  refine (yields_onlyIf_addReserved _ _ _).bind ?_
  rintro _ rfl
  refine (yields_onlyIf_addReserved _ _ _).bind ?_
  rintro _ rfl
  refine (yields_addReserved _ _).bind ?_
  rintro _ rfl
  refine (yields_onlyIf_addReserved _ _ _).bind ?_
  rintro _ rfl
  refine (yields_onlyIf_addReserved _ _ _).bind ?_
  rintro _ rfl
  refine (yields_onlyIf_addReserved _ _ _).bind ?_
  rintro _ rfl
  refine (yields_onlyIf_addReserved _ _ _).bind ?_
  rintro _ rfl
  exact rfl

/-! ## Rows and what a ledger implies where a record looks -/

/-- The rows hold what `s` implies of the repository, the digest, the resource
and the group of `r`. -/
structure RowsFor (rows : ReservationRows) (r : QuotaReservationRecord) (s : Ledger) : Prop where
  usage : rows.usage = s.usage r.repository
  resourceKey : rows.resourceKey = r.resource.map (.resource r.repository)
  resource : ∀ name, r.resource = some name → rows.resource = s.resourceUsage r.repository name
  groupKey : rows.groupKey = r.resource.bind fun name => r.group.map (.group r.repository name)
  group : ∀ name group, r.resource = some name → r.group = some group →
    rows.group = s.groupReferences r.repository name group
  blobKey : rows.blobKey = .blob r.repository r.digest
  bytes : rows.blob.bytes = r.bytes
  references : rows.blob.references = s.blobReferences r.repository r.digest
  one : ∀ x ∈ s, x.repository = r.repository → x.digest = r.digest → x.bytes = r.bytes

variable {rows : ReservationRows} {r : QuotaReservationRecord} {s : Ledger}

theorem addIf_charge {κ : Type} [DecidableEq κ] {key : QuotaReservationRecord → Option κ}
    {weight : κ → Nat} {k : κ} (reserved : r.settled = false) (named : key r = some k)
    {condition : Bool}
    (adds : condition = true ↔ (Holders.references settled key s k).sum = 0) :
    (charge settled key weight s).addIf condition (weight k) =
      charge settled key weight (insert r s) := by
  rw [charge_reserve weight reserved named, Tally.addIf]
  by_cases free : condition = true
  · rw [if_pos free, if_pos (adds.mp free)]
  · rw [if_neg free, if_neg (mt adds.mpr free)]

theorem RowsFor.plus (reads : RowsFor rows r s) (new : r ∉ s) (reserved : r.settled = false) :
    RowsFor (rows.plus r.bytes r.resourceArtifactBytes) r (insert r s) := by
  have one : ∀ x ∈ insert r s, x.repository = r.repository → x.digest = r.digest →
      x.bytes = r.bytes := by
    intro x hx
    rcases Finset.mem_insert.mp hx with rfl | hx
    · exact fun _ _ => rfl
    · exact reads.one x hx
  have free : rows.adds.accountedBytes = true ↔
      (Holders.references settled (·.digestIn r.repository) s (r.digest, r.bytes)).sum = 0 := by
    rw [← blobReferences_eq reads.one, ← reads.references, ← total_eq_zero]
    exact beq_iff_eq
  constructor
  case usage =>
    refine QuotaUsage.ext ?_ ?_ ?_
    · rw [artifactBytes_insert new, reserved, ← reads.usage]
      rfl
    · show rows.usage.accountedBytes.addIf rows.adds.accountedBytes r.bytes = _
      rw [reads.usage]
      exact addIf_charge reserved (if_pos rfl) free
    · show rows.usage.resources.addIf rows.adds.resource 1 = _
      rw [reads.usage]
      cases named : r.resource with
      | none =>
        have unnamed : r.resourceIn r.repository = none := (if_pos rfl).trans named
        have keyless : rows.adds.resource = false := by simp [adds, reads.resourceKey, named]
        rw [keyless, addIf_false]
        exact (charge_insert_of_none unnamed).symm
      | some name =>
        refine addIf_charge reserved (resourceIn_self named) ?_
        simp only [adds, reads.resourceKey, named, reads.resource name named, map_some,
          isSome_some, Bool.true_and, beq_iff_eq, total_eq_zero]
        rfl
  case resource =>
    intro name named
    have keyed : rows.resourceKey.isSome = true := by simp [reads.resourceKey, named]
    refine ResourceUsage.ext ?_ ?_ ?_
    · show rows.resource.references.addIf rows.resourceKey.isSome 1 = _
      rw [keyed, addIf_true, resourceReferences_insert named new, reserved,
        reads.resource name named]
    · show rows.resource.artifactBytes.addIf r.resourceArtifactBytes r.bytes = _
      rw [resourceArtifactBytes_insert named new, reserved, reads.resource name named]
      cases r.resourceArtifactBytes with
      | true => rfl
      | false => exact (add_zero ..).symm
    · show rows.resource.groups.addIf rows.adds.group 1 = _
      rw [reads.resource name named]
      cases grouped : r.group with
      | none =>
        have unnamed : r.groupIn r.repository name = none :=
          (groupIn_self named).trans grouped
        have keyless : rows.adds.group = false := by simp [adds, reads.groupKey, named, grouped]
        rw [keyless, addIf_false]
        exact (charge_insert_of_none unnamed).symm
      | some group =>
        refine addIf_charge reserved ((groupIn_self named).trans grouped) ?_
        simp only [adds, reads.groupKey, named, grouped, reads.group name group named grouped,
          bind_some, map_some, isSome_some, Bool.true_and, beq_iff_eq,
          total_eq_zero]
        rfl
  case group =>
    intro name group named grouped
    have keyed : rows.groupKey.isSome = true := by simp [reads.groupKey, named, grouped]
    show rows.group.addIf rows.groupKey.isSome 1 = _
    rw [keyed, addIf_true, groupReferences_insert named grouped new, reserved,
      reads.group name group named grouped]
  case references =>
    rw [blobReferences_insert new, reserved, ← reads.references]
    rfl
  case one => exact one
  case resourceKey => exact reads.resourceKey
  case groupKey => exact reads.groupKey
  case blobKey => exact reads.blobKey
  case bytes => exact reads.bytes

/-! ## Reading and writing -/

theorem read_rowsFor (counts : tables.Counts s) {request : NewQuotaReservation}
    (read : read tables request = .ok rows) (id : Uuid) (violations : List QuotaLimit)
    (limited : Bool) : RowsFor rows (request.reservation id violations limited) s := by
  obtain ⟨sized, read⟩ := Except.guard_eq_ok.mp read
  cases read
  constructor
  case usage =>
    exact QuotaUsage.ext (counts.blobs.artifactBytes _) (counts.blobs.accountedBytes _)
      (counts.resources.resources _)
  case resource =>
    rintro name (named : request.resource = some name)
    simp only [named, map_some, getD_some]
    exact counts.resources.resource _ _
  case group =>
    rintro name group (named : request.resource = some name) (grouped : request.group = some group)
    simp only [named, grouped, bind_some, map_some, getD_some]
    exact counts.resources.group _ _ _
  case references => exact counts.blobs.references _ _
  case one =>
    intro x hx repository digest
    have held := blobReferences_ne_zero hx
    have bytes := counts.blobs.bytes x hx
    rw [repository, digest] at held bytes
    rw [← counts.blobs.references] at held
    by_contra other
    refine sized ⟨Nat.pos_of_ne_zero (mt Tally.total_eq_zero.mp held), ?_⟩
    exact fun same => other (bytes.symm.trans same)
  all_goals rfl

theorem RowsFor.write (written : RowsFor rows r (insert r s)) (counts : tables.Counts s)
    (new : r ∉ s) : (rows.write tables r.repository).Counts (insert r s) := by
  have after : Ledger.Around r s (insert r s) := .present rfl new
  have kept : ∀ {α : Type} {table : BTreeMap IdentityKey α} {key : IdentityKey}
      {references t : References} {row : α}, references = t.add r.settled 1 →
        table.insert key row = QuotaTables.keepReferenced table key references row := by
    intro α table key references t row added
    rw [QuotaTables.keepReferenced, if_neg]
    rw [total_eq_zero, added, sum_add]
    exact Nat.succ_ne_zero _
  constructor
  case blobs =>
    have one : ∀ x ∈ s, x.repository = r.repository → x.digest = r.digest → x.bytes = r.bytes :=
      fun x hx => written.one x (Finset.mem_insert_of_mem hx)
    have counted := counts.blobs.write .absent after one rows.usage
      (congrArg (·.artifactBytes) written.usage) (congrArg (·.accountedBytes) written.usage)
      rows.blob written.bytes written.references
    refine counted.of_same ⟨fun _ => rfl, fun _ => rfl, ?_⟩
    show tables.blob.insert rows.blobKey rows.blob = _
    rw [written.blobKey]
    exact kept (written.references.trans (blobReferences_insert new))
  case resources =>
    cases named : r.resource with
    | none =>
      have counted := counts.resources.of_unnamed .absent after named
      refine counted.of_same ⟨fun repository => ?_, ?_, ?_⟩
      · show ((tables.usage.insert r.repository rows.usage).getD repository {}).resources = _
        rw [BTreeMap.getD_insert]
        by_cases here : r.repository = repository
        · rw [if_pos here, written.usage, here, counted.resources]
        · rw [if_neg here]
          rfl
      · simp [ReservationRows.write, written.resourceKey, named]
      · simp [ReservationRows.write, written.groupKey, named]
    | some name =>
      have counted := counts.resources.write .absent after named rows.usage
        (congrArg (·.resources) written.usage)
      refine counted.of_same ⟨fun _ => rfl, ?_, ?_⟩
      · show rows.resourceKey.elim tables.resource (tables.resource.insert · rows.resource) = _
        rw [written.resourceKey, named, map_some, elim_some, written.resource name named]
        exact kept (resourceReferences_insert named new)
      · show rows.groupKey.elim tables.group (tables.group.insert · rows.group) =
          tables.groupTable r name (insert r s)
        rw [written.groupKey, named, bind_some, QuotaTables.groupTable]
        cases grouped : r.group with
        | none => rfl
        | some group =>
          rw [map_some, elim_some, elim_some, written.group name group named grouped]
          exact kept (groupReferences_insert named grouped new)

/-! ## Totals -/

structure TotalsFit (rows : ReservationRows) : Prop where
  artifactBytes : rows.usage.artifactBytes.sum ≤ Nat.u64Max
  accountedBytes : rows.usage.accountedBytes.sum ≤ Nat.u64Max
  resources : rows.usage.resources.sum ≤ Nat.u64Max
  resourceArtifactBytes : rows.resource.artifactBytes.sum ≤ Nat.u64Max
  groups : rows.resource.groups.sum ≤ Nat.u64Max

theorem yields_ensureTotalAdd (t : Tally) (n : Nat) :
    Yields (fun _ => (t.add false n).sum ≤ Nat.u64Max) (ensureTotalAdd t n) := by
  refine (yields_checkedAdd _ _).bind ?_
  rintro _ ⟨rfl, -⟩
  refine (yields_checkedAdd _ _).bind ?_
  rintro _ ⟨rfl, fits⟩
  rw [← Tally.sum, ← sum_add t false] at fits
  exact fits

theorem yields_ensureIf {t : Tally} (fits : t.sum ≤ Nat.u64Max) (adds : Bool) (n : Nat) :
    Yields (fun _ => (t.addIf adds n).sum ≤ Nat.u64Max) (ensureIf adds t n) := by
  cases adds with
  | true => exact yields_ensureTotalAdd t n
  | false => exact fits

theorem yields_ensureTotals (fits : TotalsFit rows) (bytes : Nat) (limited : Bool) :
    Yields (fun _ => TotalsFit (rows.plus bytes limited)) (rows.ensureTotals bytes limited) := by
  refine (yields_ensureTotalAdd _ _).bind fun _ artifactBytes => ?_
  refine (yields_ensureIf fits.resourceArtifactBytes _ _).bind fun _ resourceArtifactBytes => ?_
  refine (yields_ensureIf fits.accountedBytes _ _).bind fun _ accountedBytes => ?_
  refine (yields_ensureIf fits.resources _ _).bind fun _ resources => ?_
  refine (yields_ensureIf fits.groups _ _).mono fun _ groups => ?_
  exact ⟨artifactBytes, accountedBytes, resources, resourceArtifactBytes, groups⟩

theorem read_totalsFit (counts : tables.Counts s) (fits : s.Fits) {request : NewQuotaReservation}
    (read : read tables request = .ok rows) : TotalsFit rows := by
  have reads := read_rowsFor counts read 0 [] false
  have resource : rows.resource = {} ∨
      ∃ name, rows.resource = s.resourceUsage request.repository name := by
    cases named : request.resource with
    | none =>
      obtain ⟨-, read⟩ := Except.guard_eq_ok.mp read
      cases read
      rw [named]
      exact .inl rfl
    | some name => exact .inr ⟨name, reads.resource name named⟩
  constructor
  case artifactBytes => exact reads.usage ▸ fits.artifactBytes _
  case accountedBytes => exact reads.usage ▸ fits.accountedBytes _
  case resources => exact reads.usage ▸ fits.resources _
  all_goals rcases resource with empty | ⟨name, implied⟩
  · rw [empty]
    exact Nat.zero_le _
  · exact implied ▸ fits.resourceArtifactBytes _ _
  · rw [empty]
    exact Nat.zero_le _
  · exact implied ▸ fits.groups _ _

theorem RowsFor.fits (reads : RowsFor rows r (insert r s)) (new : r ∉ s) (fits : s.Fits)
    (totals : TotalsFit rows) : Ledger.Fits (insert r s) := by
  have after : Ledger.Around r s (insert r s) := .present rfl new
  have usage : ∀ {f : QuotaUsage → QuotaValue}, (f rows.usage).sum ≤ Nat.u64Max →
      (∀ repository, (f (s.usage repository)).sum ≤ Nat.u64Max) →
        ∀ repository, (f ((insert r s : Ledger).usage repository)).sum ≤ Nat.u64Max := by
    intro f here elsewhere repository
    by_cases same : r.repository = repository
    · rw [← same, ← reads.usage]
      exact here
    · rw [after.usage_of_ne same]
      exact elsewhere repository
  have resource : ∀ {f : ResourceUsage → QuotaValue}, (f rows.resource).sum ≤ Nat.u64Max →
      (∀ repository name, (f (s.resourceUsage repository name)).sum ≤ Nat.u64Max) →
        ∀ repository name,
          (f ((insert r s : Ledger).resourceUsage repository name)).sum ≤ Nat.u64Max := by
    intro f here elsewhere repository name
    by_cases same : r.resourceIn repository = some name
    · obtain ⟨rfl, named⟩ := QuotaReservationRecord.resourceIn_eq_some.mp same
      rw [← reads.resource name named]
      exact here
    · rw [after.resourceUsage_of_ne same]
      exact elsewhere repository name
  constructor
  case artifactBytes => exact usage totals.artifactBytes fits.artifactBytes
  case accountedBytes => exact usage totals.accountedBytes fits.accountedBytes
  case resources => exact usage totals.resources fits.resources
  case resourceArtifactBytes =>
    exact resource totals.resourceArtifactBytes fits.resourceArtifactBytes
  case groups => exact resource totals.groups fits.groups

theorem yields_reserve (fits : TotalsFit rows) (bytes : Nat) (limits : QuotaLimits)
    (maxResourceArtifactBytes : Option Nat) :
    Yields (fun (rows', violations) =>
        rows' = rows.plus bytes maxResourceArtifactBytes.isSome ∧ TotalsFit rows' ∧
        violations = rows.limitViolations bytes limits
          (rows.resourceExcess bytes maxResourceArtifactBytes).isSome ∧
        (limits.audit = false → violations = []))
      (rows.reserve bytes limits maxResourceArtifactBytes) := by
  refine (yields_ensureTotals fits bytes maxResourceArtifactBytes.isSome).bind fun _ totals => ?_
  dsimp only
  generalize rows.resourceExcess bytes maxResourceArtifactBytes = excess
  generalize rows.limitViolations bytes limits excess.isSome = violations
  by_cases refused : (!limits.audit && !violations.isEmpty) = true
  · rw [if_pos refused]
    cases excess <;> exact trivial
  · rw [if_neg refused]
    refine (yields_charged rows bytes _).bind ?_
    rintro _ rfl
    refine ⟨rfl, totals, rfl, fun enforced => ?_⟩
    simpa [enforced] using refused

end ReservationRows

namespace QuotaTables

variable {s : Ledger}

theorem yields_validateRequest (request : NewQuotaReservation) :
    Yields (fun _ => True) (validateRequest request) := by
  have field : ∀ name value, Yields (fun _ => True) (validateField name value) := by
    intro name value
    unfold validateField
    split
    · exact trivial
    · split <;> exact trivial
  refine (field _ _).bind fun _ _ => (field _ _).bind fun _ _ => (field _ _).bind fun _ _ =>
    (field _ _).bind fun _ _ => ?_
  split <;> exact trivial

/-- What a reservation that is admitted leaves: its record, which the counters
now count. -/
structure Reserved (tables : QuotaTables) (s : Ledger) (id : Uuid) (request : NewQuotaReservation)
    (limited : Bool) (tables' : QuotaTables) (r : QuotaReservationRecord) : Prop where
  record : r = request.reservation id r.violations limited
  counts : tables'.Counts (insert r s)
  fits : Ledger.Fits (insert r s)
  reservation : tables'.reservation = tables.reservation.insert id r
  pending : tables'.pending = tables.pending.insert id
  allocation : tables'.allocation = tables.allocation

theorem yields_reserveQuotaInner (counts : tables.Counts s) (fits : s.Fits) {id : Uuid}
    (fresh : ∀ x ∈ s, x.id ≠ id) (request : NewQuotaReservation) (limits : QuotaLimits)
    (maxResourceArtifactBytes : Option Nat) :
    Yields (fun (tables', r) =>
        Reserved tables s id request maxResourceArtifactBytes.isSome tables' r)
      (tables.reserveQuotaInner id request limits maxResourceArtifactBytes) := by
  refine (yields_validateRequest request).bind fun _ _ => ?_
  have reading : Yields (fun _ => True) (ReservationRows.read tables request) := by
    unfold ReservationRows.read
    dsimp only
    split <;> exact trivial
  refine reading.and_eq.bind fun rows ⟨read, _⟩ => ?_
  refine (ReservationRows.yields_reserve (ReservationRows.read_totalsFit counts fits read) _ _
    _).bind ?_
  rintro ⟨_, violations⟩ ⟨rfl, totals, -, -⟩
  let r := request.reservation id violations maxResourceArtifactBytes.isSome
  have new : r ∉ s := fun mem => fresh r mem rfl
  have reads := ReservationRows.read_rowsFor counts read id violations
    maxResourceArtifactBytes.isSome
  have written := reads.plus new rfl
  have counted := written.write counts new
  exact {
    record := rfl
    counts := ⟨counted.blobs.of_same ⟨fun _ => rfl, fun _ => rfl, rfl⟩,
      counted.resources.of_same ⟨fun _ => rfl, rfl, rfl⟩⟩
    fits := written.fits new fits totals
    reservation := rfl
    pending := rfl
    allocation := rfl }

end QuotaTables

end Peryx
