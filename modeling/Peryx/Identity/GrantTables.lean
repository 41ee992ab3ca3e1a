import Peryx.Identity.RoleGrantStore
import Peryx.Lib.TableIndex

/-!
# The tables of role grants agree

The index by reach and the table of external grants are indexes of the primary
table (`RoleGrants.Agree`), as long as ids and names can be told apart in the
keys: ids have neither a slash nor a NUL, names no NUL. Every transaction keeps
this.

- `recordKey_inj`, `storedScopeKey_inj`, `managedGrantKey_inj`: keys determine rows.
- `Agree.writeGrant`, `Agree.removeGrant`, `Agree.replaceManagedGrants`: the steps.
- `Agree.stored_replaceManagedGrants`: what a link has after a replacement.
-/

namespace Peryx.Identity

open BTreeMap List Std.ExtTreeMap String

/-! ## Keys determine their records -/

/-- An id that the separators of keys are not part of. -/
def Plain (id : String) : Prop :=
  '/' ∉ id.toList ∧ '\x00' ∉ id.toList

instance (id : String) : Decidable (Plain id) :=
  inferInstanceAs (Decidable (_ ∧ _))

/-- A grant that its keys determine. -/
def RoleGrant.Clean (grant : RoleGrant UserId) : Prop :=
  Plain grant.user ∧ grant.scope.NulFree

instance (grant : RoleGrant UserId) : Decidable grant.Clean :=
  inferInstanceAs (Decidable (_ ∧ _))

/-- What `originKey` puts behind a key. -/
def RoleGrantOrigin.suffix : RoleGrantOrigin → List Char
  | .manual => []
  | .externalIdentity linkId => '\x00' :: ("external_identity\x00".toList ++ linkId.toList)

/-- The suffix determines the origin. -/
theorem RoleGrantOrigin.suffix_inj {a b : RoleGrantOrigin} (same : a.suffix = b.suffix) :
    a = b := by
  cases a with
  | manual =>
    cases b with
    | manual => rfl
    | externalIdentity => cases same
  | externalIdentity linkId =>
    cases b with
    | manual => cases same
    | externalIdentity linkId' =>
      have tails := append_cancel_left (List.cons.inj same).2
      exact congrArg _ (toList_injective tails)

/-- It is empty, or begins with the separator. -/
theorem RoleGrantOrigin.suffix_sep (origin : RoleGrantOrigin) :
    origin.suffix = [] ∨ ∃ rest, origin.suffix = '\x00' :: rest := by
  cases origin with
  | manual => exact .inl rfl
  | externalIdentity linkId => exact .inr ⟨_, rfl⟩

theorem toList_originKey (key : String) (origin : RoleGrantOrigin) :
    (originKey key origin).toList = key.toList ++ origin.suffix := by
  cases origin <;> simp [originKey, RoleGrantOrigin.suffix]

namespace Role

theorem slash_notMem_asStr (role : Role) : '/' ∉ role.asStr.toList := by
  cases role <;> decide

theorem nul_notMem_asStr (role : Role) : '\x00' ∉ role.asStr.toList := by
  cases role <;> decide

theorem asStr_inj {a b : Role} (same : a.asStr = b.asStr) : a = b := by
  revert same
  cases a <;> cases b <;> decide

end Role

/-- The key of the primary table, part by part. -/
theorem toList_recordKey (stored : StoredRoleGrant) :
    (recordKey stored).toList = stored.grant.user.toList ++
      '/' :: (stored.grant.role.asStr.toList ++
      '/' :: ((reachKey stored.grant.scope).toList ++ stored.origin.suffix)) := by
  simp [recordKey, toList_originKey, primaryKey]

/-- The key of the index by reach, part by part. -/
theorem toList_storedScopeKey (stored : StoredRoleGrant) :
    (storedScopeKey stored).toList = (reachKey stored.grant.scope).toList ++ '\x00' ::
      (stored.grant.user.toList ++ '\x00' ::
        (stored.grant.role.asStr.toList ++ stored.origin.suffix)) := by
  simp [storedScopeKey, toList_originKey, scopeKey]

/-- The key of the table of external grants, part by part. -/
theorem toList_managedGrantKey (linkId : String) (grant : RoleGrant UserId) :
    (managedGrantKey linkId grant).toList = grant.user.toList ++ '/' :: (linkId.toList ++
      '/' :: (grant.role.asStr.toList ++ '/' :: (reachKey grant.scope).toList)) := by
  simp [managedGrantKey]

/-- Grants are equal that are spelled alike. -/
theorem RoleGrant.ext_of {a b : RoleGrant UserId} (user : a.user.toList = b.user.toList)
    (role : a.role.asStr.toList = b.role.asStr.toList)
    (scope : (reachKey a.scope).toList = (reachKey b.scope).toList) : a = b := by
  cases a
  cases b
  rw [RoleGrant.mk.injEq]
  exact ⟨toList_injective user, Role.asStr_inj (toList_injective role),
    reachKey_inj (toList_injective scope)⟩

/-- A primary key determines grant and origin. -/
theorem recordKey_inj {a b : StoredRoleGrant} (ca : a.grant.Clean) (cb : b.grant.Clean)
    (same : recordKey a = recordKey b) : a.grant = b.grant ∧ a.origin = b.origin := by
  have same := congrArg String.toList same
  rw [toList_recordKey, toList_recordKey] at same
  obtain ⟨user, same⟩ := Keys.append_cons_inj ca.1.1 cb.1.1 same
  obtain ⟨role, same⟩ := Keys.append_cons_inj (Role.slash_notMem_asStr _)
    (Role.slash_notMem_asStr _) same
  obtain ⟨scope, origin⟩ := Keys.append_inj_of_sep (nul_notMem_reachKey ca.2)
    (nul_notMem_reachKey cb.2) a.origin.suffix_sep b.origin.suffix_sep same
  exact ⟨RoleGrant.ext_of user role scope, RoleGrantOrigin.suffix_inj origin⟩

/-- So does a key of the index by reach. -/
theorem storedScopeKey_inj {a b : StoredRoleGrant} (ca : a.grant.Clean) (cb : b.grant.Clean)
    (same : storedScopeKey a = storedScopeKey b) : a.grant = b.grant ∧ a.origin = b.origin := by
  have same := congrArg String.toList same
  rw [toList_storedScopeKey, toList_storedScopeKey] at same
  obtain ⟨scope, same⟩ := Keys.append_cons_inj (nul_notMem_reachKey ca.2)
    (nul_notMem_reachKey cb.2) same
  obtain ⟨user, same⟩ := Keys.append_cons_inj ca.1.2 cb.1.2 same
  obtain ⟨role, origin⟩ := Keys.append_inj_of_sep (Role.nul_notMem_asStr _)
    (Role.nul_notMem_asStr _) a.origin.suffix_sep b.origin.suffix_sep same
  exact ⟨RoleGrant.ext_of user role scope, RoleGrantOrigin.suffix_inj origin⟩

/-- A key of an external grant determines link and grant. -/
theorem managedGrantKey_inj {a b : RoleGrant UserId} {l m : String} (ca : a.Clean) (cb : b.Clean)
    (hl : Plain l) (hm : Plain m) (same : managedGrantKey l a = managedGrantKey m b) :
    l = m ∧ a = b := by
  have same := congrArg String.toList same
  rw [toList_managedGrantKey, toList_managedGrantKey] at same
  obtain ⟨user, same⟩ := Keys.append_cons_inj ca.1.1 cb.1.1 same
  obtain ⟨link, same⟩ := Keys.append_cons_inj hl.1 hm.1 same
  obtain ⟨role, scope⟩ := Keys.append_cons_inj (Role.slash_notMem_asStr _)
    (Role.slash_notMem_asStr _) same
  exact ⟨toList_injective link, RoleGrant.ext_of user role scope⟩

/-! ## Agreement -/

namespace StoredRoleGrant

/-- The row of a record in the index by reach. -/
def scopeEntry (_ : String) (stored : StoredRoleGrant) : Option (String × StoredRoleGrant) :=
  some (storedScopeKey stored, stored)

/-- The row of a record in the table of external grants, if a link brought it. -/
def externalEntry (_ : String) (stored : StoredRoleGrant) : Option (String × RoleGrant UserId) :=
  match stored.origin with
  | .manual => none
  | .externalIdentity linkId => some (managedGrantKey linkId stored.grant, stored.grant)

/-- A record whose keys determine it; one that a link brought has nothing but its
grant and the link. -/
structure Clean (stored : StoredRoleGrant) : Prop where
  grant : stored.grant.Clean
  linked : ∀ {linkId}, stored.origin = .externalIdentity linkId →
    Plain linkId ∧ stored = external stored.grant linkId

end StoredRoleGrant

/-- Every record stands under its own key, in all the tables it belongs to. -/
structure RoleGrants.Agree (store : RoleGrants) : Prop where
  keyed : ∀ {key : String} {stored : StoredRoleGrant}, store.grants[key]? = some stored →
    key = recordKey stored ∧ stored.Clean
  scopes : Indexes StoredRoleGrant.scopeEntry store.grants store.byScope
  externals : Indexes StoredRoleGrant.externalEntry store.grants store.external
  links : ∀ {key : String} {link : ExternalIdentityLink}, store.links[key]? = some link →
    Plain link.id ∧ Plain link.userId

variable {store : RoleGrants} {stored : StoredRoleGrant}

namespace RoleGrants.Agree

section

variable (agree : store.Agree)

include agree

/-- A primary key and its key in the index by reach belong together. -/
theorem paired_scope (stored : StoredRoleGrant) (clean : stored.grant.Clean) :
    Indexes.Paired StoredRoleGrant.scopeEntry store.grants (recordKey stored)
      (storedScopeKey stored) := by
  intro key other l c found is
  obtain ⟨rfl, known⟩ := agree.keyed found
  cases is
  constructor
  · intro same
    obtain ⟨grant, origin⟩ := recordKey_inj clean known.grant same
    rw [storedScopeKey, storedScopeKey, grant, origin]
  · intro same
    obtain ⟨grant, origin⟩ := storedScopeKey_inj clean known.grant same
    rw [recordKey, recordKey, grant, origin]

/-- So do those of an external grant. -/
theorem paired_external {grant : RoleGrant UserId} {linkId : String}
    (clean : grant.Clean) (plain : Plain linkId) :
    Indexes.Paired StoredRoleGrant.externalEntry store.grants
      (recordKey (.external grant linkId)) (managedGrantKey linkId grant) := by
  intro key other l c found is
  obtain ⟨rfl, known⟩ := agree.keyed found
  unfold StoredRoleGrant.externalEntry at is
  split at is
  · cases is
  · next linkId' origin =>
    cases is
    constructor
    · intro same
      obtain ⟨same, its⟩ := recordKey_inj (a := .external grant linkId) clean known.grant same
      cases its.trans origin
      rw [← same]
      rfl
    · intro same
      obtain ⟨rfl, its⟩ := managedGrantKey_inj clean known.grant plain (known.linked origin).1 same
      rw [(known.linked origin).2, its]

/-- After a write every record stands under its own key. -/
theorem keyed_insert (new : StoredRoleGrant) (clean : new.Clean)
    {key : String}
    (found : (store.grants.insert (recordKey new) new)[key]? = some stored) :
    key = recordKey stored ∧ stored.Clean := by
  obtain ⟨same, rfl⟩ | ⟨-, found⟩ := of_get_insert found
  · exact ⟨same.symm, clean⟩
  · exact agree.keyed found

/-- And after a removal. -/
theorem keyed_erase {gone key : String} (found : (store.grants.erase gone)[key]? = some stored) :
    key = recordKey stored ∧ stored.Clean := by
  obtain ⟨-, found⟩ := of_get_erase found
  exact agree.keyed found

/-- Under the key of a manual grant there is no external one. -/
theorem externalEntry_eq_none (stored : StoredRoleGrant)
    (clean : stored.grant.Clean) (manual : stored.origin = .manual) {old : StoredRoleGrant}
    (found : store.grants[recordKey stored]? = some old) :
    old.externalEntry (recordKey stored) = none := by
  obtain ⟨same, known⟩ := agree.keyed found
  obtain ⟨-, origin⟩ := recordKey_inj clean known.grant same
  rw [StoredRoleGrant.externalEntry, ← origin, manual]

/-- **Step.** A manual grant is written. -/
theorem writeGrant (stored : StoredRoleGrant) (clean : stored.grant.Clean)
    (manual : stored.origin = .manual) : (store.writeGrant stored).Agree := by
  have key : primaryKey stored.grant = recordKey stored := by rw [recordKey, manual]; rfl
  have scope : scopeKey stored.grant = storedScopeKey stored := by
    rw [storedScopeKey, manual]
    rfl
  have known : stored.Clean := ⟨clean, fun linked => by cases manual.symm.trans linked⟩
  have entry : stored.externalEntry (recordKey stored) = none := by
    rw [StoredRoleGrant.externalEntry, manual]
  unfold RoleGrants.writeGrant
  rw [key, scope]
  exact
    { keyed := agree.keyed_insert stored known
      scopes := agree.scopes.put (agree.paired_scope stored clean) rfl
      externals := agree.externals.put_none entry fun _ found =>
        agree.externalEntry_eq_none stored clean manual found
      links := agree.links }

/-- **Step.** A manual grant is removed. -/
theorem removeGrant (grant : RoleGrant UserId) (clean : grant.Clean) :
    (store.removeGrant grant).1.Agree where
  keyed := agree.keyed_erase
  scopes := agree.scopes.drop (agree.paired_scope (.provisioned grant) clean)
  externals := agree.externals.drop_none fun _ found =>
    agree.externalEntry_eq_none (.provisioned grant) clean rfl found
  links := agree.links

end

end RoleGrants.Agree

/-! ## The grants of a link -/

namespace RoleGrants

variable (linkId : String) {row : String × RoleGrant UserId}

/-- One grant of a link, written to all tables. -/
def putManaged (store : RoleGrants) (row : String × RoleGrant UserId) :
    RoleGrants :=
  { store.writeExternalGrant linkId row.2 with external := store.external.insert row.1 row.2 }

/-- And removed from them. -/
def dropManaged (store : RoleGrants) (row : String × RoleGrant UserId) :
    RoleGrants :=
  { store.removeExternalGrant linkId row.2 with external := store.external.erase row.1 }

/-- A row of the table of external grants that belongs to the link. -/
structure Managed (linkId : String) (row : String × RoleGrant UserId) : Prop where
  key : row.1 = managedGrantKey linkId row.2
  clean : row.2.Clean
  plain : Plain linkId

namespace Agree

variable {linkId : String}

/-- **Step.** A grant of a link comes in. -/
theorem putManaged (agree : store.Agree) (managed : Managed linkId row) :
    (store.putManaged linkId row).Agree := by
  have known : (StoredRoleGrant.external row.2 linkId).Clean :=
    ⟨managed.clean, fun linked => by cases linked; exact ⟨managed.plain, rfl⟩⟩
  unfold RoleGrants.putManaged
  rw [managed.key]
  exact
    { keyed := agree.keyed_insert _ known
      scopes := agree.scopes.put (agree.paired_scope _ known.grant) rfl
      externals := agree.externals.put (agree.paired_external managed.clean managed.plain) rfl
      links := agree.links }

/-- **Step.** A grant of a link goes. -/
theorem dropManaged (agree : store.Agree) (managed : Managed linkId row) :
    (store.dropManaged linkId row).Agree := by
  unfold RoleGrants.dropManaged
  rw [managed.key]
  exact
    { keyed := agree.keyed_erase
      scopes := agree.scopes.drop (agree.paired_scope (.external row.2 linkId) managed.clean)
      externals := agree.externals.drop (agree.paired_external managed.clean managed.plain)
      links := agree.links }

end Agree

/-- The primary table holds the record. -/
def Stored (store : RoleGrants) (stored : StoredRoleGrant) : Prop :=
  store.grants[recordKey stored]? = some stored

section

variable {linkId : String}

theorem Agree.eq_external (agree : store.Agree) (is : Stored store stored)
    {grant : RoleGrant UserId}
    (clean : grant.Clean) (same : recordKey stored = recordKey (.external grant linkId)) :
    stored = .external grant linkId := by
  have known := (agree.keyed is).2
  obtain ⟨grant', origin⟩ := recordKey_inj known.grant (b := .external grant linkId) clean same
  exact (known.linked origin).2.trans (congrArg (StoredRoleGrant.external · linkId) grant')

/-- What is stored after a grant of a link came in. -/
theorem Agree.stored_putManaged (agree : store.Agree) (managed : Managed linkId row) :
    Stored (store.putManaged linkId row) stored ↔
      stored = .external row.2 linkId ∨ Stored store stored := by
  change (store.grants.insert (recordKey (.external row.2 linkId)) _)[recordKey stored]? = _ ↔ _
  rw [get_insert]
  split
  · next same =>
    rw [Option.some_inj]
    exact ⟨fun is => .inl is.symm, fun is => is.elim Eq.symm fun is =>
      (agree.eq_external is managed.clean same.symm).symm⟩
  · next other =>
    refine ⟨.inr, fun is => is.resolve_left ?_⟩
    rintro rfl
    exact other rfl

/-- What is stored after it went. -/
theorem Agree.stored_dropManaged (agree : store.Agree) (managed : Managed linkId row) :
    Stored (store.dropManaged linkId row) stored ↔
      stored ≠ .external row.2 linkId ∧ Stored store stored := by
  change (store.grants.erase (recordKey (.external row.2 linkId)))[recordKey stored]? = _ ↔ _
  rw [get_erase]
  split
  · next same =>
    exact ⟨nofun, fun ⟨other, is⟩ => absurd (agree.eq_external is managed.clean same.symm) other⟩
  · next other =>
    refine ⟨fun is => ⟨?_, is⟩, And.right⟩
    rintro rfl
    exact other rfl

/-! ### Folds -/

variable {rows : List (String × RoleGrant UserId)}

/-- **Run.** The grants of a link come in one by one. -/
theorem Agree.foldl_putManaged (managed : ∀ row ∈ rows, Managed linkId row) (agree : store.Agree) :
    (rows.foldl (RoleGrants.putManaged linkId) store).Agree ∧
      ∀ stored, Stored (rows.foldl (RoleGrants.putManaged linkId) store) stored ↔
        (∃ row ∈ rows, stored = .external row.2 linkId) ∨ Stored store stored := by
  induction rows generalizing store with
  | nil => exact ⟨agree, by simp⟩
  | cons row rows ih =>
    obtain ⟨first, rest⟩ := forall_mem_cons.mp managed
    obtain ⟨after, its⟩ := ih rest (agree.putManaged first)
    refine ⟨after, fun stored => ?_⟩
    rw [foldl_cons, its, agree.stored_putManaged first, exists_mem_cons_iff, or_left_comm, or_assoc]

/-- **Run.** The grants of a link go one by one. -/
theorem Agree.foldl_dropManaged (managed : ∀ row ∈ rows, Managed linkId row) (agree : store.Agree) :
    (rows.foldl (RoleGrants.dropManaged linkId) store).Agree ∧
      ∀ stored, Stored (rows.foldl (RoleGrants.dropManaged linkId) store) stored ↔
        (∀ row ∈ rows, stored ≠ .external row.2 linkId) ∧ Stored store stored := by
  induction rows generalizing store with
  | nil => exact ⟨agree, by simp⟩
  | cons row rows ih =>
    obtain ⟨first, rest⟩ := forall_mem_cons.mp managed
    obtain ⟨after, its⟩ := ih rest (agree.dropManaged first)
    refine ⟨after, fun stored => ?_⟩
    rw [foldl_cons, its, agree.stored_dropManaged first, forall_mem_cons]
    tauto

end

/-! ### Replacement -/

section

variable {ρ : Type} {f : RoleGrants → ρ → RoleGrants}
  {g : BTreeMap String (RoleGrant UserId) → ρ → BTreeMap String (RoleGrant UserId)}
  (frame : ∀ store row external, f { store with external } row = { f store row with external })

include frame

theorem foldl_with_external : ∀ (rows : List ρ) (store : RoleGrants)
    (external : BTreeMap String (RoleGrant UserId)),
    rows.foldl f { store with external } = { rows.foldl f store with external }
  | [], _, _ => rfl
  | row :: rows, store, external => by
    rw [foldl_cons, frame, foldl_with_external rows (f store row), foldl_cons]

/-- Changes of the external table can be made apart from the others. -/
theorem foldl_split : ∀ (rows : List ρ) (store : RoleGrants),
    rows.foldl (fun store row => { f store row with external := g store.external row }) store =
      { rows.foldl f store with external := rows.foldl g store.external }
  | [], _ => rfl
  | row :: rows, store => by
    rw [foldl_cons, foldl_split rows, foldl_with_external frame, foldl_cons, foldl_cons]

end

theorem foldl_dropManaged_eq (rows : List (String × RoleGrant UserId)) (store : RoleGrants) :
    rows.foldl (dropManaged linkId) store =
      { rows.foldl (fun store row => store.removeExternalGrant linkId row.2) store with
        external := rows.foldl (fun table row => table.erase row.1) store.external } :=
  foldl_split (g := fun table row => table.erase row.1) (fun _ _ _ => rfl) rows store

theorem foldl_putManaged_eq (rows : List (String × RoleGrant UserId)) (store : RoleGrants) :
    rows.foldl (putManaged linkId) store =
      rows.foldl (fun store row => store.writeExternalGrant linkId row.2)
        { store with
          external := rows.foldl (fun table row => table.insert row.1 row.2) store.external } := by
  have framed := foldl_with_external
    (f := fun store (row : String × RoleGrant UserId) => store.writeExternalGrant linkId row.2)
    (fun _ _ _ => rfl) rows store
  rw [framed]
  exact foldl_split
    (f := fun store (row : String × RoleGrant UserId) => store.writeExternalGrant linkId row.2)
    (g := fun table row => table.insert row.1 row.2) (fun _ _ _ => rfl) rows store

/-- A replacement drops the rows of a link and puts those that are desired. -/
theorem replaceManagedGrants_eq (store : RoleGrants) (link : ExternalIdentityLink)
    (requested : List ManagedRoleGrant) :
    (store.replaceManagedGrants link requested).1 =
      if store.managedRows link = (desiredGrants link requested).toList then store
      else (desiredGrants link requested).toList.foldl (putManaged link.id)
        ((store.managedRows link).foldl (dropManaged link.id) store) := by
  have kept : ((store.managedRows link).foldl
      (fun store row => store.removeExternalGrant link.id row.2) store).external =
        store.external :=
    List.foldlRecOn (motive := fun (kept : RoleGrants) => kept.external = store.external) _ _ rfl
      fun _ is _ _ => is
  unfold replaceManagedGrants
  dsimp only
  split
  · rfl
  · rw [foldl_putManaged_eq, foldl_dropManaged_eq, kept]

/-- The grant that a link's request stands for. -/
def linkGrant (link : ExternalIdentityLink) (managed : ManagedRoleGrant) : RoleGrant UserId where
  user := link.userId
  role := managed.role
  scope := managed.scope

section

variable {link : ExternalIdentityLink} {requested : List ManagedRoleGrant}

/-- The rows of a link are those of its stored records. -/
theorem Agree.mem_managedRows (agree : store.Agree) (id : Plain link.id)
    (userId : Plain link.userId) :
    row ∈ store.managedRows link ↔ row.1 = managedGrantKey link.id row.2 ∧
      row.2.user = link.userId ∧ Stored store (.external row.2 link.id) := by
  have bounds : ∀ key : String,
      (link.userId ++ "/" ++ link.id ++ "/" ≤ key ∧ key < link.userId ++ "/" ++ link.id ++ "0") ↔
        Keys.Under (link.userId ++ "/" ++ link.id ++ "/") key := fun key =>
    Keys.range_iff_under (link.userId ++ "/" ++ link.id) (c := '/') (by decide)
  rw [managedRows, List.mem_filter, mem_toList_iff_getElem?_eq_some,
    agree.externals.exact, decide_eq_true_iff, bounds]
  constructor
  · rintro ⟨⟨key, stored, found, is⟩, under⟩
    obtain ⟨rfl, known⟩ := agree.keyed found
    unfold StoredRoleGrant.externalEntry at is
    split at is
    · cases is
    · next linkId origin =>
      obtain ⟨hkey, hgrant⟩ := Prod.mk.inj (Option.some.inj is)
      obtain ⟨rest, split⟩ := Keys.under_iff.mp under
      have same := congrArg String.toList (hkey.trans split)
      rw [toList_managedGrantKey] at same
      simp only [toList_append, List.append_assoc] at same
      obtain ⟨user, same⟩ := Keys.append_cons_inj known.grant.1.1 userId.1 same
      obtain ⟨linked, -⟩ := Keys.append_cons_inj (known.linked origin).1.1 id.1 same
      have linked : linkId = link.id := toList_injective linked
      subst linked
      refine ⟨?_, ?_, ?_⟩
      · rw [← hgrant, hkey]
      · rw [← hgrant, toList_injective user]
      · rw [← hgrant, ← (known.linked origin).2]
        exact found
  · rintro ⟨hkey, user, is⟩
    refine ⟨⟨_, _, is, ?_⟩, ?_⟩
    · exact congrArg some (Prod.ext hkey.symm rfl)
    · refine Keys.under_iff.mpr ⟨row.2.role.asStr ++ "/" ++ reachKey row.2.scope, ?_⟩
      rw [hkey, managedGrantKey, user]
      simp only [String.append_assoc]

/-- The desired rows are those of the requests. -/
theorem mem_desiredGrants (id : Plain link.id) (userId : Plain link.userId)
    (free : ∀ managed ∈ requested, managed.scope.NulFree) :
    row ∈ (desiredGrants link requested).toList ↔
      row.1 = managedGrantKey link.id row.2 ∧ ∃ managed ∈ requested,
        row.2 = linkGrant link managed := by
  rw [mem_toList_iff_getElem?_eq_some]
  induction requested using reverseRecOn with
  | nil => simp [desiredGrants]
  | append_singleton requested last ih =>
    obtain ⟨before, final⟩ := forall_mem_append.mp free
    have clean : (linkGrant link last).Clean := ⟨userId, final last mem_cons_self⟩
    have folded : desiredGrants link (requested ++ [last]) = (desiredGrants link requested).insert
        (managedGrantKey link.id (linkGrant link last)) (linkGrant link last) := by
      rw [desiredGrants, foldl_append]
      rfl
    rw [folded, get_insert]
    simp only [mem_append, mem_singleton, or_and_right, exists_or, exists_eq_left]
    rw [and_or_left, ← ih before]
    split
    · next same =>
      rw [Option.some_inj]
      constructor
      · intro is
        exact .inr ⟨is ▸ same.symm, is.symm⟩
      · rintro (found | ⟨-, is⟩)
        · obtain ⟨key, managed, mem, is⟩ := (ih before).mp found
          have known : row.2.Clean := is ▸ ⟨userId, before managed mem⟩
          exact (managedGrantKey_inj clean known id id (same.trans key)).2
        · exact is.symm
    · next other =>
      refine ⟨.inl, fun is => is.resolve_right ?_⟩
      rintro ⟨key, is⟩
      exact other (by rw [key, is])

/-- The scopes that are asked for are spelled without NUL. -/
def NulFreeGrants (requested : List ManagedRoleGrant) : Prop :=
  ∀ managed ∈ requested, managed.scope.NulFree

instance (requested : List ManagedRoleGrant) : Decidable (NulFreeGrants requested) :=
  inferInstanceAs (Decidable (∀ managed ∈ requested, managed.scope.NulFree))

theorem managed_desiredGrants (id : Plain link.id) (userId : Plain link.userId)
    (free : NulFreeGrants requested) :
    ∀ row ∈ (desiredGrants link requested).toList, Managed link.id row := by
  intro row mem
  obtain ⟨key, managed, asked, is⟩ := (mem_desiredGrants id userId free).mp mem
  exact ⟨key, is ▸ ⟨userId, free managed asked⟩, id⟩

theorem Agree.managed_managedRows (agree : store.Agree) (id : Plain link.id)
    (userId : Plain link.userId) : ∀ row ∈ store.managedRows link, Managed link.id row := by
  intro row mem
  obtain ⟨key, -, is⟩ := (agree.mem_managedRows id userId).mp mem
  exact ⟨key, (agree.keyed is).2.grant, id⟩

/-- **A replacement keeps the tables in agreement.** -/
theorem Agree.replaceManagedGrants (agree : store.Agree) (id : Plain link.id)
    (userId : Plain link.userId) (free : NulFreeGrants requested) :
    (store.replaceManagedGrants link requested).1.Agree := by
  rw [replaceManagedGrants_eq]
  split
  · exact agree
  · obtain ⟨dropped, -⟩ := agree.foldl_dropManaged (agree.managed_managedRows id userId)
    exact (dropped.foldl_putManaged (managed_desiredGrants id userId free)).1

/-- A record that the link brought to its user. -/
def OfLink (link : ExternalIdentityLink) (stored : StoredRoleGrant) : Prop :=
  stored.origin = .externalIdentity link.id ∧ stored.grant.user = link.userId

/-- **After a replacement** a link has the grants that were requested, and all else is
as it was. -/
theorem Agree.stored_replaceManagedGrants (agree : store.Agree) (id : Plain link.id)
    (userId : Plain link.userId) (free : NulFreeGrants requested) (stored : StoredRoleGrant) :
    Stored (store.replaceManagedGrants link requested).1 stored ↔
      (∃ managed ∈ requested, stored = .external (linkGrant link managed) link.id) ∨
        ¬ OfLink link stored ∧ Stored store stored := by
  have wanted : (∃ row ∈ (desiredGrants link requested).toList,
      stored = .external row.2 link.id) ↔
        ∃ managed ∈ requested, stored = .external (linkGrant link managed) link.id := by
    constructor
    · rintro ⟨row, mem, rfl⟩
      obtain ⟨-, managed, asked, is⟩ := (mem_desiredGrants id userId free).mp mem
      exact ⟨managed, asked, by rw [is]⟩
    · rintro ⟨managed, asked, rfl⟩
      exact ⟨(managedGrantKey link.id (linkGrant link managed), linkGrant link managed),
        (mem_desiredGrants id userId free).mpr ⟨rfl, managed, asked, rfl⟩, rfl⟩
  have others : Stored store stored → ((∀ row ∈ store.managedRows link,
      stored ≠ .external row.2 link.id) ↔ ¬ OfLink link stored) := by
    intro is
    constructor
    · rintro absent ⟨origin, user⟩
      have its := ((agree.keyed is).2.linked origin).2
      refine absent (managedGrantKey link.id stored.grant, stored.grant)
        ((agree.mem_managedRows id userId).mpr ⟨rfl, user, ?_⟩) its
      rw [← its]
      exact is
    · rintro other row mem rfl
      exact other ⟨rfl, ((agree.mem_managedRows id userId).mp mem).2.1⟩
  rw [replaceManagedGrants_eq]
  split
  · next same =>
    rw [← wanted, ← same]
    constructor
    · intro is
      by_cases absent : ∀ row ∈ store.managedRows link, stored ≠ .external row.2 link.id
      · exact .inr ⟨(others is).mp absent, is⟩
      · push Not at absent
        exact .inl absent
    · rintro (⟨row, mem, rfl⟩ | ⟨-, is⟩)
      · exact ((agree.mem_managedRows id userId).mp mem).2.2
      · exact is
  · obtain ⟨dropped, its⟩ := agree.foldl_dropManaged (agree.managed_managedRows id userId)
    rw [(dropped.foldl_putManaged (managed_desiredGrants id userId free)).2, its, wanted]
    exact or_congr_right ⟨fun ⟨absent, is⟩ => ⟨(others is).mp absent, is⟩,
      fun ⟨other, is⟩ => ⟨(others is).mpr other, is⟩⟩

end

end RoleGrants

end Peryx.Identity
