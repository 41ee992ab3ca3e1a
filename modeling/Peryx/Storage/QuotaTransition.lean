import Peryx.Storage.QuotaLedger

/-!
# Committing and releasing as steps of the ledger

`transition` of `meta/quota.rs` against the records it is about.
-/

namespace Peryx

open Holders BTreeMap Tally Peryx.Except Finset
open QuotaReservationRecord (settled)

variable {r : QuotaReservationRecord} {name : String}

namespace Ledger

/-! ## One record more -/

variable {s : Ledger}

theorem artifactBytes_insert (new : r ∉ s) :
    ((insert r s : Ledger).usage r.repository).artifactBytes =
      (s.usage r.repository).artifactBytes.add r.settled r.bytes := by
  have bytes : r.bytesIn r.repository = r.bytes := if_pos rfl
  rw [usage, tally_insert _ new, bytes, usage]

theorem blobReferences_insert (new : r ∉ s) :
    (insert r s : Ledger).blobReferences r.repository r.digest =
      (s.blobReferences r.repository r.digest).add r.settled 1 := by
  have blob : r.blobIn r.repository r.digest = 1 := if_pos ⟨rfl, rfl⟩
  rw [blobReferences, tally_insert _ new, blob, blobReferences]

section

variable (named : r.resource = some name)

include named

theorem resourceIn_self :
    r.resourceIn r.repository = some name :=
  (if_pos rfl).trans named

theorem resourceReferences_insert (new : r ∉ s) :
    ((insert r s : Ledger).resourceUsage r.repository name).references =
      (s.resourceUsage r.repository name).references.add r.settled 1 := by
  rw [resourceUsage, references_insert new, if_pos (resourceIn_self named), resourceUsage]

theorem resourceArtifactBytes_insert (new : r ∉ s) :
    ((insert r s : Ledger).resourceUsage r.repository name).artifactBytes =
      (s.resourceUsage r.repository name).artifactBytes.add r.settled
        (if r.resourceArtifactBytes = true then r.bytes else 0) := by
  have limited : r.limitedIn r.repository name =
      if r.resourceArtifactBytes = true then r.bytes else 0 := by
    simp [QuotaReservationRecord.limitedIn, resourceIn_self named]
  rw [resourceUsage, tally_insert _ new, limited, resourceUsage]

theorem groupIn_self : r.groupIn r.repository name = r.group :=
  if_pos (resourceIn_self named)

theorem groupReferences_insert {group : String} (grouped : r.group = some group) (new : r ∉ s) :
    (insert r s : Ledger).groupReferences r.repository name group =
      (s.groupReferences r.repository name group).add r.settled 1 := by
  rw [groupReferences, references_insert new, if_pos ((groupIn_self named).trans grouped),
    groupReferences]

end

structure Fits (rs : Ledger) : Prop where
  artifactBytes : ∀ repository, (rs.usage repository).artifactBytes.sum ≤ Nat.u64Max
  accountedBytes : ∀ repository, (rs.usage repository).accountedBytes.sum ≤ Nat.u64Max
  resources : ∀ repository, (rs.usage repository).resources.sum ≤ Nat.u64Max
  resourceArtifactBytes : ∀ repository resource,
    (rs.resourceUsage repository resource).artifactBytes.sum ≤ Nat.u64Max
  groups : ∀ repository resource, (rs.resourceUsage repository resource).groups.sum ≤ Nat.u64Max

theorem sum_tally_commit (f : QuotaReservationRecord → Nat) (same : f r.commit = f r) (new : r ∉ s)
    (new' : r.commit ∉ s) :
    (tally settled f (insert r.commit s)).sum = (tally settled f (insert r s)).sum :=
  sum_tally_replace same new' new

theorem sum_charge_commit {κ : Type} [DecidableEq κ] (key : QuotaReservationRecord → Option κ)
    (weight : κ → Nat) (same : key r.commit = key r) :
    (charge settled key weight (insert r.commit s)).sum =
      (charge settled key weight (insert r s)).sum :=
  sum_charge_replace same

theorem Fits.commit (fits : Fits (insert r s)) (new : r ∉ s) (new' : r.commit ∉ s) :
    Fits (insert r.commit s) where
  artifactBytes repository :=
    (sum_tally_commit (·.bytesIn repository) rfl new new').trans_le (fits.artifactBytes repository)
  accountedBytes repository :=
    (sum_charge_commit (·.digestIn repository) _ rfl).trans_le (fits.accountedBytes repository)
  resources repository :=
    (sum_charge_commit (·.resourceIn repository) _ rfl).trans_le (fits.resources repository)
  resourceArtifactBytes repository name :=
    (sum_tally_commit (·.limitedIn repository name) rfl new new').trans_le
      (fits.resourceArtifactBytes repository name)
  groups repository name :=
    (sum_charge_commit (·.groupIn repository name) _ rfl).trans_le (fits.groups repository name)

theorem Fits.mono {rs : Ledger} (fits : rs.Fits) (le : s ⊆ rs) : s.Fits where
  artifactBytes _ := (sum_tally_mono _ _ le).trans (fits.artifactBytes _)
  accountedBytes _ := (sum_charge_mono _ _ _ le).trans (fits.accountedBytes _)
  resources _ := (sum_charge_mono _ _ _ le).trans (fits.resources _)
  resourceArtifactBytes _ _ := (sum_tally_mono _ _ le).trans (fits.resourceArtifactBytes _ _)
  groups _ _ := (sum_charge_mono _ _ _ le).trans (fits.groups _ _)

end Ledger

namespace QuotaTables

/-! ## Rows against a ledger -/

def records (tables : QuotaTables) : Ledger :=
  BTreeMap.valueSet tables.reservation

theorem getD_keepReferenced {α : Type} (table : BTreeMap IdentityKey α) (key a : IdentityKey)
    (references : References) (row d : α) :
    (keepReferenced table key references row).getD a d =
      if key = a then if references.total = 0 then d else row else table.getD a d := by
  unfold keepReferenced
  by_cases free : references.total = 0
  · rw [if_pos free, if_pos free, getD_erase]
  · rw [if_neg free, if_neg free, getD_insert]

/-- The bytes the tables count are those of `rs`. -/
structure CountsBlobs (tables : QuotaTables) (rs : Ledger) : Prop where
  artifactBytes : ∀ repository,
    (tables.quotaUsage repository).artifactBytes = (rs.usage repository).artifactBytes
  accountedBytes : ∀ repository,
    (tables.quotaUsage repository).accountedBytes = (rs.usage repository).accountedBytes
  references : ∀ repository digest,
    (tables.blob.getD (.blob repository digest) {}).references = rs.blobReferences repository digest
  bytes : ∀ r ∈ rs, (tables.blob.getD (.blob r.repository r.digest) {}).bytes = r.bytes

/-- The resources and groups the tables count are those of `rs`. -/
structure CountsResources (tables : QuotaTables) (rs : Ledger) : Prop where
  resources : ∀ repository,
    (tables.quotaUsage repository).resources = (rs.usage repository).resources
  resource : ∀ repository resource,
    tables.resource.getD (.resource repository resource) {} = rs.resourceUsage repository resource
  group : ∀ repository resource group,
    tables.group.getD (.group repository resource group) {} =
      rs.groupReferences repository resource group

variable {tables tables' : QuotaTables} {s rs rs' : Ledger}

theorem quotaUsage_writeBlob (repository digest : String) (row : QuotaUsage) (blob : BlobUsage)
    (other : String) : (tables.writeBlob repository digest row blob).quotaUsage other =
      if repository = other then row else tables.quotaUsage other :=
  getD_insert ..

theorem quotaUsage_writeResource (repository name : String) (row : QuotaUsage)
    (resource : ResourceUsage) (other : String) :
    (tables.writeResource repository name row resource).quotaUsage other =
      if repository = other then row else tables.quotaUsage other :=
  getD_insert ..

theorem CountsBlobs.write (counts : CountsBlobs tables rs) (before : Ledger.Around r s rs)
    (after : Ledger.Around r s rs')
    (one : ∀ x ∈ s, x.repository = r.repository → x.digest = r.digest → x.bytes = r.bytes)
    (row : QuotaUsage) (artifactBytes : row.artifactBytes = (rs'.usage r.repository).artifactBytes)
    (accountedBytes : row.accountedBytes = (rs'.usage r.repository).accountedBytes)
    (blob : BlobUsage) (bytes : blob.bytes = r.bytes)
    (references : blob.references = rs'.blobReferences r.repository r.digest) :
    CountsBlobs (tables.writeBlob r.repository r.digest row blob) rs' := by
  have elsewhere : ∀ {repository}, r.repository ≠ repository →
      rs'.usage repository = rs.usage repository :=
    fun other => (after.usage_of_ne other).trans (before.usage_of_ne other).symm
  constructor
  case artifactBytes =>
    intro repository
    rw [quotaUsage_writeBlob]
    by_cases here : r.repository = repository
    · rw [if_pos here, ← here, artifactBytes]
    · rw [if_neg here, elsewhere here, counts.artifactBytes]
  case accountedBytes =>
    intro repository
    rw [quotaUsage_writeBlob]
    by_cases here : r.repository = repository
    · rw [if_pos here, ← here, accountedBytes]
    · rw [if_neg here, elsewhere here, counts.accountedBytes]
  case references =>
    intro repository digest
    rw [writeBlob, getD_keepReferenced]
    by_cases here : r.repository = repository ∧ r.digest = digest
    · obtain ⟨rfl, rfl⟩ := here
      rw [if_pos rfl, ← references]
      by_cases free : blob.references.total = 0
      · rw [if_pos free]
        exact (eq_empty free).symm
      · rw [if_neg free]
    · rw [if_neg (mt IdentityKey.blob_inj.mp here), counts.references,
        after.blobReferences_of_ne here, before.blobReferences_of_ne here]
  case bytes =>
    intro x hx
    rw [writeBlob, getD_keepReferenced]
    by_cases here : r.repository = x.repository ∧ r.digest = x.digest
    · have kept : blob.references.total ≠ 0 := by
        rw [references, here.1, here.2]
        exact mt Tally.total_eq_zero.mp (Ledger.blobReferences_ne_zero hx)
      rw [if_pos (IdentityKey.blob_inj.mpr here), if_neg kept, bytes]
      rcases after.mem hx with mem | same
      · exact (one x mem here.1.symm here.2.symm).symm
      · exact (congrArg (·.bytes) same).symm
    · rw [if_neg (mt IdentityKey.blob_inj.mp here)]
      rcases after.mem hx with mem | same
      · exact counts.bytes x (before.subset mem)
      · exact absurd ⟨(congrArg (·.repository) same).symm, (congrArg (·.digest) same).symm⟩ here

/-- The group table once the rows of `r`'s group are those of `rs`. -/
def groupTable (tables : QuotaTables) (r : QuotaReservationRecord) (name : String) (rs : Ledger) :
    BTreeMap IdentityKey References :=
  r.group.elim tables.group fun group =>
    keepReferenced tables.group (.group r.repository name group)
      (rs.groupReferences r.repository name group) (rs.groupReferences r.repository name group)

theorem CountsResources.write (counts : CountsResources tables rs)
    (before : Ledger.Around r s rs) (after : Ledger.Around r s rs')
    (named : r.resource = some name) (row : QuotaUsage)
    (resources : row.resources = (rs'.usage r.repository).resources) :
    CountsResources ({ tables with group := tables.groupTable r name rs' }.writeResource
      r.repository name row (rs'.resourceUsage r.repository name)) rs' := by
  constructor
  case resources =>
    intro repository
    rw [quotaUsage_writeResource]
    by_cases here : r.repository = repository
    · rw [if_pos here, ← here, resources]
    · rw [if_neg here, after.usage_of_ne here, ← before.usage_of_ne here]
      exact counts.resources repository
  case resource =>
    intro repository other
    rw [writeResource, getD_keepReferenced]
    by_cases here : r.repository = repository ∧ name = other
    · obtain ⟨rfl, rfl⟩ := here
      rw [if_pos rfl]
      by_cases free : (rs'.resourceUsage r.repository name).references.total = 0
      · rw [if_pos free]
        exact (Ledger.resourceUsage_of_unreferenced (Tally.total_eq_zero.mp free)).symm
      · rw [if_neg free]
    · have elsewhere : r.resourceIn repository ≠ some other := fun same => by
        obtain ⟨repo, resourced⟩ := QuotaReservationRecord.resourceIn_eq_some.mp same
        exact here ⟨repo, Option.some.inj (named.symm.trans resourced)⟩
      rw [if_neg (mt IdentityKey.resource_inj.mp here), counts.resource,
        after.resourceUsage_of_ne elsewhere, before.resourceUsage_of_ne elsewhere]
  case group =>
    intro repository resource other
    have elsewhere : r.groupIn repository resource ≠ some other →
        tables.group.getD (.group repository resource other) {} =
          rs'.groupReferences repository resource other := fun ne => by
      rw [counts.group, after.groupReferences_of_ne ne, before.groupReferences_of_ne ne]
    rw [writeResource, groupTable]
    cases grouped : r.group with
    | none =>
      refine elsewhere ?_
      rw [QuotaReservationRecord.groupIn, grouped, ite_self]
      exact nofun
    | some group =>
      rw [Option.elim_some, getD_keepReferenced]
      by_cases here : r.repository = repository ∧ name = resource ∧ group = other
      · obtain ⟨rfl, rfl, rfl⟩ := here
        rw [if_pos rfl]
        by_cases free : (rs'.groupReferences r.repository name group).total = 0
        · rw [if_pos free]
          exact (eq_empty free).symm
        · rw [if_neg free]
      · rw [if_neg (mt IdentityKey.group_inj.mp here)]
        refine elsewhere fun same => here ?_
        obtain ⟨of, same⟩ := QuotaReservationRecord.groupIn_eq_some.mp same
        obtain ⟨repo, resourced⟩ := QuotaReservationRecord.resourceIn_eq_some.mp of
        exact ⟨repo, Option.some.inj (named.symm.trans resourced),
          Option.some.inj (grouped.symm.trans same)⟩

/-! ## A transition is a step of the ledger -/

/-- `tables'` counts resources and groups as `tables` does. -/
structure SameResources (tables tables' : QuotaTables) : Prop where
  resources : ∀ repository,
    (tables'.quotaUsage repository).resources = (tables.quotaUsage repository).resources
  resource : tables'.resource = tables.resource
  group : tables'.group = tables.group

/-- `tables'` counts bytes as `tables` does. -/
structure SameBlobs (tables tables' : QuotaTables) : Prop where
  artifactBytes : ∀ repository,
    (tables'.quotaUsage repository).artifactBytes = (tables.quotaUsage repository).artifactBytes
  accountedBytes : ∀ repository,
    (tables'.quotaUsage repository).accountedBytes = (tables.quotaUsage repository).accountedBytes
  blob : tables'.blob = tables.blob

structure SameRecords (tables tables' : QuotaTables) : Prop where
  reservation : tables'.reservation = tables.reservation
  pending : tables'.pending = tables.pending
  allocation : tables'.allocation = tables.allocation

theorem CountsResources.of_same (counts : CountsResources tables rs)
    (same : SameResources tables tables') : CountsResources tables' rs where
  resources repository := (same.resources repository).trans (counts.resources repository)
  resource repository resource := same.resource ▸ counts.resource repository resource
  group repository resource group := same.group ▸ counts.group repository resource group

theorem CountsBlobs.of_same (counts : CountsBlobs tables rs) (same : SameBlobs tables tables') :
    CountsBlobs tables' rs where
  artifactBytes repository :=
    (same.artifactBytes repository).trans (counts.artifactBytes repository)
  accountedBytes repository :=
    (same.accountedBytes repository).trans (counts.accountedBytes repository)
  references repository digest := same.blob ▸ counts.references repository digest
  bytes r hr := same.blob ▸ counts.bytes r hr

theorem CountsResources.of_unnamed (counts : CountsResources tables rs)
    (before : Ledger.Around r s rs) (after : Ledger.Around r s rs')
    (unnamed : r.resource = none) : CountsResources tables rs' := by
  have resource : ∀ {repository resource}, r.resourceIn repository ≠ some resource := by
    intro repository resource same
    have resourced := (QuotaReservationRecord.resourceIn_eq_some.mp same).2
    rw [unnamed] at resourced
    cases resourced
  have group : ∀ {repository resource group}, r.groupIn repository resource ≠ some group :=
    fun same => resource (QuotaReservationRecord.groupIn_eq_some.mp same).1
  constructor
  case resources =>
    intro repository
    rw [counts.resources, before.resources_of_none unnamed, after.resources_of_none unnamed]
  case resource =>
    intro repository name
    rw [counts.resource, before.resourceUsage_of_ne resource, after.resourceUsage_of_ne resource]
  case group =>
    intro repository name other
    rw [counts.group, before.groupReferences_of_ne group, after.groupReferences_of_ne group]

/-- The tables count what `rs` implies. -/
structure Counts (tables : QuotaTables) (rs : Ledger) : Prop where
  blobs : CountsBlobs tables rs
  resources : CountsResources tables rs

theorem CountsBlobs.oneSize (counts : CountsBlobs tables rs) : rs.OneSize := by
  intro r hr r' hr' repository digest
  rw [← counts.bytes r hr, ← counts.bytes r' hr', repository, digest]

theorem sameResources_writeBlob (row : QuotaUsage)
    (resources : row.resources = (tables.quotaUsage r.repository).resources) (blob : BlobUsage) :
    SameResources tables (tables.writeBlob r.repository r.digest row blob) where
  resources repository := by
    rw [quotaUsage_writeBlob]
    by_cases here : r.repository = repository
    · rw [if_pos here, resources, here]
    · rw [if_neg here]
  resource := rfl
  group := rfl

theorem sameBlobs_writeResource (row : QuotaUsage)
    (artifactBytes : row.artifactBytes = (tables.quotaUsage r.repository).artifactBytes)
    (accountedBytes : row.accountedBytes = (tables.quotaUsage r.repository).accountedBytes)
    (resource : ResourceUsage) (groups : BTreeMap IdentityKey References) :
    SameBlobs tables
      ({ tables with group := groups }.writeResource r.repository name row resource) where
  artifactBytes repository := by
    rw [quotaUsage_writeResource]
    by_cases here : r.repository = repository
    · rw [if_pos here, artifactBytes, here]
    · rw [if_neg here]
      rfl
  accountedBytes repository := by
    rw [quotaUsage_writeResource]
    by_cases here : r.repository = repository
    · rw [if_pos here, accountedBytes, here]
    · rw [if_neg here]
      rfl
  blob := rfl

section Blob

variable (counts : CountsBlobs tables (insert r s)) (new : r ∉ s) (fits : Ledger.Fits (insert r s))

include counts

theorem CountsBlobs.one : ∀ x ∈ s, x.repository = r.repository → x.digest = r.digest →
    x.bytes = r.bytes :=
  fun x hx => counts.oneSize x (mem_insert_of_mem hx) r (mem_insert_self r s)

include new

/-- The rows of the blob once they are those of `rs'`. -/
theorem CountsBlobs.written (after : Ledger.Around r s rs') :
    let tables' := tables.writeBlob r.repository r.digest
      { tables.quotaUsage r.repository with
        artifactBytes := (rs'.usage r.repository).artifactBytes
        accountedBytes := (rs'.usage r.repository).accountedBytes }
      { tables.blob.getD (.blob r.repository r.digest) {} with
        references := rs'.blobReferences r.repository r.digest }
    CountsBlobs tables' rs' ∧ SameResources tables tables' ∧ SameRecords tables tables' := by
  refine ⟨counts.write (.present rfl new) after counts.one _ ?_ ?_ _ ?bytes ?_,
    sameResources_writeBlob _ ?_ _, rfl, rfl, rfl⟩
  case bytes => exact counts.bytes r (mem_insert_self r s)
  all_goals rfl

include fits

theorem transitionBlob_release :
    ∃ tables', tables.transitionBlob r false = .ok tables' ∧ CountsBlobs tables' s ∧
      SameResources tables tables' ∧ SameRecords tables tables' := by
  have artifactBytes : subtractValue (tables.quotaUsage r.repository).artifactBytes r.state
      r.bytes = .ok (s.usage r.repository).artifactBytes := by
    rw [counts.artifactBytes, Ledger.artifactBytes_insert new]
    exact subtractValue_add ..
  have references : subtractReference
      (tables.blob.getD (.blob r.repository r.digest) {}).references r.state =
        .ok (s.blobReferences r.repository r.digest) := by
    rw [counts.references, Ledger.blobReferences_insert new]
    exact subtractValue_add ..
  have accountedBytes : rebalanceOrRemove (tables.quotaUsage r.repository).accountedBytes
      (s.blobReferences r.repository r.digest) r.state r.bytes =
        .ok (s.usage r.repository).accountedBytes := by
    rw [counts.accountedBytes, Ledger.blobReferences_eq counts.one]
    exact rebalanceOrRemove_charge Prod.snd (if_pos rfl) (fits.accountedBytes r.repository)
  refine ⟨_, ?_, counts.written new .absent⟩
  unfold transitionBlob
  refine bind_eq_ok.mpr ⟨_, artifactBytes, ?_⟩
  refine bind_eq_ok.mpr ⟨_, references, ?_⟩
  exact bind_eq_ok.mpr ⟨_, accountedBytes, rfl⟩

theorem transitionBlob_commit (reserved : r.state = .reserved) (new' : r.commit ∉ s) :
    Yields (fun tables' => CountsBlobs tables' (insert r.commit s) ∧
      SameResources tables tables' ∧ SameRecords tables tables')
      (tables.transitionBlob r true) := by
  have before : r.settled = false := by rw [settled, reserved]; rfl
  have artifactBytes : moveValue (tables.quotaUsage r.repository).artifactBytes r.bytes =
      .ok ((insert r.commit s : Ledger).usage r.repository).artifactBytes := by
    have fits := fits.artifactBytes r.repository
    have after := Ledger.artifactBytes_insert new'
    rw [counts.artifactBytes]
    rw [Ledger.artifactBytes_insert new, before] at fits ⊢
    exact (moveValue_add fits).trans (congrArg _ after.symm)
  have references : Yields (· = (insert r.commit s : Ledger).blobReferences r.repository r.digest)
      (moveReference (tables.blob.getD (.blob r.repository r.digest) {}).references) := by
    have after := Ledger.blobReferences_insert new'
    rw [counts.references, Ledger.blobReferences_insert new, before]
    exact (yields_moveReference _).mono fun _ moved => moved.trans after.symm
  have accountedBytes : moveFirst (tables.quotaUsage r.repository).accountedBytes
      (tables.blob.getD (.blob r.repository r.digest) {}).references r.bytes =
        .ok ((insert r.commit s : Ledger).usage r.repository).accountedBytes := by
    have one : ∀ x ∈ (insert r s : Ledger), x.repository = r.repository → x.digest = r.digest →
        x.bytes = r.bytes := fun x hx => counts.oneSize x hx r (mem_insert_self r s)
    rw [counts.accountedBytes, counts.references, Ledger.blobReferences_eq one]
    exact moveFirst_charge Prod.snd reserved new (if_pos rfl) (if_pos rfl)
      (fits.accountedBytes r.repository)
  unfold transitionBlob
  refine .bind_ok artifactBytes ?_
  refine .bind_ok accountedBytes ?_
  refine references.bind ?_
  rintro _ rfl
  exact counts.written new (.present rfl new')

end Blob

section Resource

variable (named : r.resource = some name)
  (counts : CountsResources tables (insert r s)) (new : r ∉ s) (fits : Ledger.Fits (insert r s))

include named counts new

/-- The rows of the resource once they are those of `rs'`. -/
theorem CountsResources.written (after : Ledger.Around r s rs') :
    let tables' :=
      ({ tables with group := tables.groupTable r name rs' } : QuotaTables).writeResource
      r.repository name
      { tables.quotaUsage r.repository with resources := (rs'.usage r.repository).resources }
      (rs'.resourceUsage r.repository name)
    CountsResources tables' rs' ∧ SameBlobs tables tables' ∧ SameRecords tables tables' := by
  refine ⟨counts.write (.present rfl new) after named _ ?_, sameBlobs_writeResource _ ?_ ?_ _ _,
    rfl, rfl, rfl⟩
  all_goals rfl

include fits

theorem transitionGroup_release (resource : ResourceUsage)
    (before : resource.groups = ((insert r s : Ledger).resourceUsage r.repository name).groups) :
    tables.transitionGroup r false resource =
      .ok ({ tables with group := tables.groupTable r name s },
        { resource with groups := (s.resourceUsage r.repository name).groups }) := by
  unfold transitionGroup groupTable
  rw [named]
  cases grouped : r.group with
  | none =>
    have unnamed : r.groupIn r.repository name = none := (Ledger.groupIn_self named).trans grouped
    have same : resource.groups = (s.resourceUsage r.repository name).groups :=
      before.trans (charge_insert_of_none unnamed)
    rw [← same]
    rfl
  | some group =>
    have references : subtractReference
        (tables.group.getD (.group r.repository name group) {}) r.state =
          .ok (s.groupReferences r.repository name group) := by
      rw [counts.group, Ledger.groupReferences_insert named grouped new]
      exact subtractValue_add ..
    have groups : rebalanceOrRemove resource.groups (s.groupReferences r.repository name group)
        r.state 1 = .ok (s.resourceUsage r.repository name).groups := by
      rw [before]
      exact rebalanceOrRemove_charge (fun _ => 1) ((Ledger.groupIn_self named).trans grouped)
        (fits.groups r.repository name)
    refine bind_eq_ok.mpr ⟨_, references, ?_⟩
    exact bind_eq_ok.mpr ⟨_, groups, rfl⟩

theorem transitionResource_release :
    ∃ tables', tables.transitionResource r false = .ok tables' ∧ CountsResources tables' s ∧
      SameBlobs tables tables' ∧ SameRecords tables tables' := by
  have resource := counts.resource r.repository name
  have artifactBytes : onlyIf r.resourceArtifactBytes (subtractValue · r.state r.bytes)
      (tables.resource.getD (.resource r.repository name) {}).artifactBytes =
        .ok (s.resourceUsage r.repository name).artifactBytes := by
    rw [resource, Ledger.resourceArtifactBytes_insert named new, onlyIf]
    by_cases limited : r.resourceArtifactBytes = true
    · rw [if_pos limited, if_pos limited]
      exact subtractValue_add ..
    · rw [if_neg limited, if_neg limited, add_zero]
  have references : subtractReference
      (tables.resource.getD (.resource r.repository name) {}).references r.state =
        .ok (s.resourceUsage r.repository name).references := by
    rw [resource, Ledger.resourceReferences_insert named new]
    exact subtractValue_add ..
  have resources : rebalanceOrRemove (tables.quotaUsage r.repository).resources
      (s.resourceUsage r.repository name).references r.state 1 =
        .ok (s.usage r.repository).resources := by
    rw [counts.resources]
    exact rebalanceOrRemove_charge (fun _ => 1) (Ledger.resourceIn_self named)
      (fits.resources r.repository)
  refine ⟨_, ?_, CountsResources.written named counts new .absent⟩
  unfold transitionResource
  rw [named]
  refine bind_eq_ok.mpr ⟨_, artifactBytes, ?_⟩
  refine bind_eq_ok.mpr ⟨_, references, ?_⟩
  refine bind_eq_ok.mpr ⟨_, resources, ?_⟩
  have group := transitionGroup_release named counts new fits
    { s.resourceUsage r.repository name with
      groups := (tables.resource.getD (.resource r.repository name) {}).groups }
    (congrArg (·.groups) resource)
  exact bind_eq_ok.mpr ⟨_, rfl, bind_eq_ok.mpr ⟨_, group, rfl⟩⟩

variable (reserved : r.state = .reserved) (new' : r.commit ∉ s)

include reserved new'

theorem transitionGroup_commit {resource : ResourceUsage}
    (before : resource.groups = ((insert r s : Ledger).resourceUsage r.repository name).groups) :
    Yields (· = ({ tables with group := tables.groupTable r name (insert r.commit s) },
        { resource with
          groups := ((insert r.commit s : Ledger).resourceUsage r.repository name).groups }))
      (tables.transitionGroup r true resource) := by
  unfold transitionGroup groupTable
  rw [named]
  cases grouped : r.group with
  | none =>
    have unnamed : r.groupIn r.repository name = none := (Ledger.groupIn_self named).trans grouped
    have unnamed' : r.commit.groupIn r.repository name = none := unnamed
    have same : resource.groups =
        ((insert r.commit s : Ledger).resourceUsage r.repository name).groups :=
      before.trans ((charge_insert_of_none unnamed).trans (charge_insert_of_none unnamed').symm)
    rw [← same]
    exact rfl
  | some group =>
    have held : r.groupIn r.repository name = some group :=
      (Ledger.groupIn_self named).trans grouped
    have uncommitted : r.settled = false := by rw [settled, reserved]; rfl
    have groups : moveFirst resource.groups (tables.group.getD (.group r.repository name group) {})
        1 = .ok ((insert r.commit s : Ledger).resourceUsage r.repository name).groups := by
      rw [before, counts.group]
      exact moveFirst_charge (fun _ => 1) reserved new held held (fits.groups r.repository name)
    have references : Yields
        (· = (insert r.commit s : Ledger).groupReferences r.repository name group)
        (moveReference (tables.group.getD (.group r.repository name group) {})) := by
      have named' : r.commit.resource = some name := named
      have after := Ledger.groupReferences_insert named' (grouped : r.commit.group = _) new'
      rw [counts.group, Ledger.groupReferences_insert named grouped new, uncommitted]
      exact (yields_moveReference _).mono fun _ moved => moved.trans after.symm
    refine .bind_ok groups ?_
    refine references.bind ?_
    rintro _ rfl
    exact rfl

theorem transitionResource_commit :
    Yields (fun tables' => CountsResources tables' (insert r.commit s) ∧
      SameBlobs tables tables' ∧ SameRecords tables tables')
      (tables.transitionResource r true) := by
  have named' : r.commit.resource = some name := named
  have uncommitted : r.settled = false := by rw [settled, reserved]; rfl
  have resource := counts.resource r.repository name
  have resources : moveFirst (tables.quotaUsage r.repository).resources
      (tables.resource.getD (.resource r.repository name) {}).references 1 =
        .ok ((insert r.commit s : Ledger).usage r.repository).resources := by
    rw [counts.resources, resource]
    exact moveFirst_charge (fun _ => 1) reserved new (Ledger.resourceIn_self named)
      (Ledger.resourceIn_self named') (fits.resources r.repository)
  have artifactBytes : onlyIf r.resourceArtifactBytes (moveValue · r.bytes)
      (tables.resource.getD (.resource r.repository name) {}).artifactBytes =
        .ok ((insert r.commit s : Ledger).resourceUsage r.repository name).artifactBytes := by
    have fits := fits.resourceArtifactBytes r.repository name
    have after := Ledger.resourceArtifactBytes_insert named' new'
    rw [Ledger.resourceArtifactBytes_insert named new, uncommitted] at fits
    rw [resource, Ledger.resourceArtifactBytes_insert named new, uncommitted, onlyIf]
    refine Eq.trans ?_ (congrArg _ after.symm)
    show (if r.resourceArtifactBytes = true then _ else _) = Except.ok (Tally.add _ true
      (if r.resourceArtifactBytes = true then r.bytes else 0))
    by_cases limited : r.resourceArtifactBytes = true
    · rw [if_pos limited] at fits
      rw [if_pos limited, if_pos limited]
      exact moveValue_add fits
    · rw [if_neg limited, if_neg limited, add_zero, add_zero]
      rfl
  have references : Yields
      (· = ((insert r.commit s : Ledger).resourceUsage r.repository name).references)
      (moveReference (tables.resource.getD (.resource r.repository name) {}).references) := by
    have after := Ledger.resourceReferences_insert named' new'
    rw [resource, Ledger.resourceReferences_insert named new, uncommitted]
    exact (yields_moveReference _).mono fun _ moved => moved.trans after.symm
  unfold transitionResource
  rw [named]
  refine .bind_ok resources ?_
  refine .bind_ok artifactBytes ?_
  refine references.bind ?_
  rintro _ rfl
  refine (transitionGroup_commit named counts new fits reserved new'
    (congrArg (·.groups) resource)).bind ?_
  rintro _ rfl
  exact CountsResources.written named counts new (.present rfl new')

end Resource

theorem SameRecords.trans {a b c : QuotaTables} (ab : SameRecords a b) (bc : SameRecords b c) :
    SameRecords a c where
  reservation := bc.reservation.trans ab.reservation
  pending := bc.pending.trans ab.pending
  allocation := bc.allocation.trans ab.allocation

theorem transition_release (counts : Counts tables (insert r s)) (new : r ∉ s)
    (fits : Ledger.Fits (insert r s)) :
    ∃ tables', tables.transition r false = .ok tables' ∧ Counts tables' s ∧
      SameRecords tables tables' := by
  obtain ⟨mid, done, blobs, same, records⟩ := transitionBlob_release counts.blobs new fits
  have resources := counts.resources.of_same same
  cases named : r.resource with
  | none =>
    have rest : mid.transitionResource r false = .ok mid := by rw [transitionResource, named]
    exact ⟨mid, bind_eq_ok.mpr ⟨mid, done, rest⟩,
      ⟨blobs, resources.of_unnamed (.present rfl new) .absent named⟩, records⟩
  | some name =>
    obtain ⟨tables', rest, resources, same, records'⟩ :=
      transitionResource_release named resources new fits
    exact ⟨tables', bind_eq_ok.mpr ⟨mid, done, rest⟩, ⟨blobs.of_same same, resources⟩,
      records.trans records'⟩

theorem transition_commit (counts : Counts tables (insert r s)) (new : r ∉ s)
    (fits : Ledger.Fits (insert r s)) (reserved : r.state = .reserved) (new' : r.commit ∉ s) :
    Yields (fun tables' => Counts tables' (insert r.commit s) ∧ SameRecords tables tables')
      (tables.transition r true) := by
  refine (transitionBlob_commit counts.blobs new fits reserved new').bind ?_
  rintro mid ⟨blobs, same, records⟩
  have resources := counts.resources.of_same same
  cases named : r.resource with
  | none =>
    rw [transitionResource, named]
    have after : Ledger.Around r s (insert r.commit s) := .present rfl new'
    exact ⟨⟨blobs, resources.of_unnamed (.present rfl new) after named⟩, records⟩
  | some name =>
    refine (transitionResource_commit named resources new fits reserved new').mono ?_
    rintro tables' ⟨resources, same, records'⟩
    exact ⟨⟨blobs.of_same same, resources⟩, records.trans records'⟩

end QuotaTables

end Peryx
