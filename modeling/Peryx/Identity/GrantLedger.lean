import Peryx.Identity.GrantTables

/-!
# Runs of role grants

Every run of grants, revokes and link replacements keeps the tables in agreement.
With that, the id of a stored grant names its reach, a link has the grants it was
last given, and the pages of a filter go through the grants that match it.

- `Agree.step`, `grantsAfter_agree`: every call, and every run, keeps the agreement.
- `role_grant_tables_agree`: what the tables answer after a run.
-/

namespace Peryx.Identity

open Paging List Option Std.ExtTreeMap

/-! ## Ids -/

theorem fromStrRadix_hexByte : ∀ n : Fin 256,
    fromStrRadix (Nat.digitChar (n.val / 16)) (Nat.digitChar (n.val % 16)) =
      some (UInt8.ofNat n.val) := by
  decide +kernel

theorem unhex_flatMap_hexByte : ∀ bytes : List UInt8, unhex (bytes.flatMap hexByte) = some bytes
  | [] => rfl
  | byte :: bytes => by
    have first := fromStrRadix_hexByte ⟨byte.toNat, byte.toNat_lt⟩
    rw [UInt8.ofNat_toNat] at first
    rw [flatMap_cons, hexByte, cons_append, cons_append, nil_append, unhex,
      first, unhex_flatMap_hexByte bytes]

theorem decodeGrantId_encodeGrantId (key : String) :
    decodeGrantId (encodeGrantId key) = some key := by
  rw [decodeGrantId, encodeGrantId, stripPrefix_append, bind_some, String.toList_ofList,
    unhex_flatMap_hexByte, bind_some]
  exact dif_pos key.isValidUTF8

theorem afterFirst_append {sep : Char} : ∀ {text : List Char}, sep ∉ text → ∀ rest,
    afterFirst sep (text ++ sep :: rest) = some rest
  | [], _, _ => if_pos rfl
  | c :: text, free, rest => by
    have other : c ≠ sep := fun same => free (same ▸ mem_cons_self)
    rw [cons_append, afterFirst, if_neg other, afterFirst_append (fun mem => free (.tail _ mem))]

theorem takeWhile_append_suffix {text : List Char} (free : '\x00' ∉ text)
    (origin : RoleGrantOrigin) : (text ++ origin.suffix).takeWhile (· ≠ '\x00') = text := by
  have all : ∀ c ∈ text, (c ≠ '\x00' : Bool) = true := fun c mem => by
    simpa using fun same : c = '\x00' => free (same ▸ mem)
  rw [takeWhile_append_of_pos all]
  obtain nil | ⟨rest, cons⟩ := origin.suffix_sep
  · rw [nil, takeWhile_nil, List.append_nil]
  · rw [cons, takeWhile_cons_of_neg (by decide), List.append_nil]

theorem roleGrantReach_id {stored : StoredRoleGrant} (clean : stored.grant.Clean)
    (named : stored.grant.scope ≠ .repository "") :
    roleGrantReach stored.id = some stored.grant.scope := by
  unfold roleGrantReach
  rw [StoredRoleGrant.id, decodeGrantId_encodeGrantId, bind_some, toList_recordKey,
    afterFirst_append clean.1.1, bind_some,
    afterFirst_append (Role.slash_notMem_asStr _)]
  dsimp only
  rw [takeWhile_append_suffix (nul_notMem_reachKey clean.2), String.ofList_toList]
  cases scope : stored.grant.scope with
  | server => exact if_pos rfl
  | repository name =>
    have other : reachKey (.repository name) ≠ "server" := fun same => by
      have first := congrArg (·.toList.head?) same
      simp [reachKey] at first
    have nonempty : name ≠ "" := fun empty => named (by rw [scope, empty])
    rw [if_neg other, reachKey, stripPrefix_append]
    exact if_neg nonempty

/-! ## Calls -/

/-- `putUser` is any step of a user's life: created, disabled or active again.
`linkExternalIdentity` is given the ids a first login draws. -/
inductive GrantCall where
  | putUser (id : UserId) (state : UserState)
  | grantRole (id : UserId) (role : Role) (scope : GrantScope)
  | createManagedGrant (grant : RoleGrant UserId) (grantedBy : UserId) (now : Int64)
  | revokeRole (id : UserId) (role : Role) (scope : GrantScope)
  | deleteManagedGrant (id : String) (precondition : VersionPrecondition)
  | linkExternalIdentity (request : RoleGrants.ExternalLinkRequest) (drawn : RoleGrants.Drawn)

/-- Ids have neither a slash nor a NUL, names no NUL. -/
def GrantCall.Clean : GrantCall → Prop
  | .putUser _ _ | .deleteManagedGrant _ _ => True
  | .grantRole id _ scope | .revokeRole id _ scope => Plain id ∧ scope.NulFree
  | .createManagedGrant grant _ _ => grant.Clean
  | .linkExternalIdentity request drawn =>
    Plain drawn.userId ∧ Plain drawn.linkId ∧ RoleGrants.NulFreeGrants request.grants

instance : (call : GrantCall) → Decidable call.Clean
  | .putUser _ _ | .deleteManagedGrant _ _ => inferInstanceAs (Decidable True)
  | .grantRole .. | .revokeRole .. | .createManagedGrant .. | .linkExternalIdentity .. =>
    inferInstanceAs (Decidable (_ ∧ _))

variable (identityKey : ExternalIdentity → String)

def grantStep (store : RoleGrants) :
    GrantCall → RoleGrants × Unit
  | .putUser id state => ({ store with users := store.users.insert id state }, ())
  | .grantRole id role scope => ((store.grantRole id role scope).1, ())
  | .createManagedGrant grant grantedBy now =>
    ((store.createManagedGrant grant grantedBy now).1, ())
  | .revokeRole id role scope => ((store.revokeRole id role scope).1, ())
  | .deleteManagedGrant id precondition => ((store.deleteManagedGrant id precondition).1, ())
  | .linkExternalIdentity request drawn =>
    ((store.linkExternalIdentity identityKey request drawn).1, ())

namespace RoleGrants

variable {identityKey : ExternalIdentity → String} {store : RoleGrants}

/-- What a link call does: nothing, or it replaces the grants of a link that was
there or that it made. -/
inductive Linked (identityKey : ExternalIdentity → String) (store : RoleGrants)
    (request : ExternalLinkRequest) (drawn : Drawn) :
    RoleGrants → Except ExternalIdentityStoreError (ExternalIdentityLink × Bool × Bool) → Prop where
  | fails (error : ExternalIdentityStoreError) :
      Linked identityKey store request drawn store (.error error)
  | replaces {linked : RoleGrants} {link : ExternalIdentityLink} {created changed : Bool}
      (known : store.links[identityKey request.identity]? = some link ∧ linked = store ∨
        (linked, link) = store.createLink (identityKey request.identity) request.identity drawn) :
      Linked identityKey store request drawn (linked.replaceManagedGrants link request.grants).1
        (.ok (link, created, changed))

theorem linkExternalIdentity_linked (identityKey : ExternalIdentity → String)
    (store : RoleGrants) (request : ExternalLinkRequest) (drawn : Drawn) :
    Linked identityKey store request drawn (store.linkExternalIdentity identityKey request drawn).1
      (store.linkExternalIdentity identityKey request drawn).2 := by
  unfold linkExternalIdentity
  dsimp only
  split
  · next link found =>
    split
    · split
      · exact .fails _
      · exact .fails _
      · exact .replaces (.inl ⟨found, rfl⟩)
    · exact .fails _
  · split
    · exact .fails _
    · exact .fails _
    · exact .replaces (.inr rfl)

theorem Agree.linked (agree : store.Agree) {request : ExternalLinkRequest} {drawn : Drawn}
    (plain : Plain drawn.userId ∧ Plain drawn.linkId) {linked : RoleGrants}
    {link : ExternalIdentityLink}
    (known : store.links[identityKey request.identity]? = some link ∧ linked = store ∨
      (linked, link) = store.createLink (identityKey request.identity) request.identity drawn) :
    linked.Agree ∧ linked.grants = store.grants ∧ Plain link.id ∧ Plain link.userId := by
  obtain ⟨found, rfl⟩ | made := known
  · exact ⟨agree, rfl, agree.links found⟩
  · cases made
    refine ⟨⟨agree.keyed, agree.scopes, agree.externals, fun {key link} found => ?_⟩, rfl,
      plain.2, plain.1⟩
    obtain ⟨-, rfl⟩ | ⟨-, found⟩ := BTreeMap.of_get_insert found
    · exact ⟨plain.2, plain.1⟩
    · exact agree.links found

theorem Agree.step (agree : store.Agree) {call : GrantCall} (clean : call.Clean) :
    (Machine.next (grantStep identityKey) store call).Agree := by
  cases call with
  | putUser id state => exact ⟨agree.keyed, agree.scopes, agree.externals, agree.links⟩
  | grantRole id role scope =>
    change (store.grantRole id role scope).1.Agree
    unfold RoleGrants.grantRole
    dsimp only
    split
    · exact agree
    · split
      · exact agree.writeGrant (.provisioned { user := id, role, scope }) clean rfl
      · exact agree
  | createManagedGrant grant grantedBy now =>
    change (store.createManagedGrant grant grantedBy now).1.Agree
    unfold RoleGrants.createManagedGrant
    split
    · exact agree
    · exact agree
    · exact agree.writeGrant _ clean rfl
  | revokeRole id role scope =>
    exact agree.removeGrant { user := id, role, scope } clean
  | deleteManagedGrant id precondition =>
    change (store.deleteManagedGrant id precondition).1.Agree
    unfold RoleGrants.deleteManagedGrant
    split
    · exact agree
    · split
      · exact agree
      · next found =>
        split
        · split
          · exact agree
          · exact agree.removeGrant _ (agree.keyed found).2.grant
        · exact agree
  | linkExternalIdentity request drawn =>
    obtain ⟨userId, linkId, free⟩ := clean
    change (store.linkExternalIdentity identityKey request drawn).1.Agree
    have linked := linkExternalIdentity_linked identityKey store request drawn
    generalize store.linkExternalIdentity identityKey request drawn = result at linked ⊢
    obtain ⟨after, answer⟩ := result
    cases linked with
    | fails => exact agree
    | replaces known =>
      obtain ⟨linked, -, id, user⟩ := agree.linked ⟨userId, linkId⟩ known
      exact linked.replaceManagedGrants id user free

/-! ## Listing -/

def RoleGrantFilter.Matches : RoleGrantFilter → StoredRoleGrant → Prop
  | .all, _ => True
  | .user id, stored => stored.grant.user = id
  | .resource scope, stored => stored.grant.scope = scope

def RoleGrantFilter.Clean : RoleGrantFilter → Prop
  | .all => True
  | .user id => Plain id
  | .resource scope => scope.NulFree

def RoleGrantFilter.key : RoleGrantFilter → StoredRoleGrant → String
  | .resource _ => storedScopeKey
  | _ => recordKey

def filterRows (store : RoleGrants) (filter : RoleGrantFilter) : List StoredRoleGrant :=
  let (table, front, stop) := store.filterRange filter
  (range table front stop).map (·.2)

variable {stored : StoredRoleGrant} {filter : RoleGrantFilter}

theorem user_between_iff {id : UserId} (plain : Plain id) (clean : stored.grant.Clean) :
    id ++ "/" < recordKey stored ∧ recordKey stored < id ++ "0" ↔ stored.grant.user = id := by
  have longer : recordKey stored ≠ id.push '/' := fun same => by
    have same := congrArg String.toList same
    rw [toList_recordKey, String.toList_push] at same
    obtain ⟨-, rest⟩ := Keys.append_cons_inj clean.1.1 plain.1 same
    exact absurd rest (by simp)
  refine (Keys.between_iff_under id (c := '/') (by decide) longer).trans ?_
  rw [Keys.Under, toList_recordKey, String.toList_push]
  constructor
  · rintro ⟨rest, same⟩
    rw [append_assoc] at same
    exact String.toList_injective (Keys.append_cons_inj plain.1 clean.1.1 same).1.symm
  · rintro rfl
    exact ⟨_, append_assoc _ _ _⟩

theorem resource_between_iff {scope : GrantScope} (free : scope.NulFree)
    (clean : stored.grant.Clean) :
    reachOf scope ++ "\x00" < storedScopeKey stored ∧
        storedScopeKey stored < reachOf scope ++ "\x01" ↔ stored.grant.scope = scope := by
  have longer : storedScopeKey stored ≠ (reachOf scope).push '\x00' := fun same => by
    have same := congrArg String.toList same
    rw [toList_storedScopeKey, String.toList_push] at same
    obtain ⟨-, rest⟩ := Keys.append_cons_inj (nul_notMem_reachKey clean.2)
      (nul_notMem_reachKey free) same
    exact absurd rest (by simp)
  refine (Keys.between_iff_under (reachOf scope) (c := '\x00') (by decide) longer).trans ?_
  rw [Keys.Under, toList_storedScopeKey, String.toList_push]
  constructor
  · rintro ⟨rest, same⟩
    rw [append_assoc] at same
    exact (reachKey_inj (String.toList_injective (Keys.append_cons_inj (nul_notMem_reachKey free)
      (nul_notMem_reachKey clean.2) same).1)).symm
  · rintro rfl
    exact ⟨_, append_assoc _ _ _⟩

theorem Agree.filterTable (agree : store.Agree) (filter : RoleGrantFilter) {key : String} :
    (store.filterRange filter).1[key]? = some stored ↔
      filter.key stored = key ∧ Stored store stored := by
  have primary : store.grants[key]? = some stored ↔
      recordKey stored = key ∧ Stored store stored := by
    constructor
    · intro found
      obtain ⟨rfl, -⟩ := agree.keyed found
      exact ⟨rfl, found⟩
    · rintro ⟨rfl, is⟩
      exact is
  cases filter with
  | all => exact primary
  | user id => exact primary
  | resource scope =>
    refine agree.scopes.exact.trans ⟨?_, ?_⟩
    · rintro ⟨i, other, found, is⟩
      cases is
      obtain ⟨rfl, -⟩ := agree.keyed found
      exact ⟨rfl, found⟩
    · rintro ⟨rfl, is⟩
      exact ⟨_, _, is, rfl⟩

theorem filterRange_iff (clean : filter.Clean) (known : stored.grant.Clean) :
    ((store.filterRange filter).2.1.all (· < filter.key stored) &&
        (store.filterRange filter).2.2.all (filter.key stored < ·)) = true ↔
      filter.Matches stored := by
  cases filter with
  | all => exact iff_of_true rfl trivial
  | user id =>
    rw [Bool.and_eq_true_iff]
    simp only [filterRange, all_some, decide_eq_true_iff]
    exact user_between_iff clean known
  | resource scope =>
    rw [Bool.and_eq_true_iff]
    simp only [filterRange, all_some, decide_eq_true_iff]
    exact resource_between_iff clean known

theorem Agree.mem_filterRows (agree : store.Agree) (clean : filter.Clean) :
    stored ∈ store.filterRows filter ↔ Stored store stored ∧ filter.Matches stored := by
  have member : ∀ key, (key, stored) ∈ range (store.filterRange filter).1
      (store.filterRange filter).2.1 (store.filterRange filter).2.2 ↔
        filter.key stored = key ∧ Stored store stored ∧ filter.Matches stored := by
    intro key
    rw [range, List.mem_filter, mem_toList_iff_getElem?_eq_some, agree.filterTable, and_assoc]
    refine and_congr_right fun same => and_congr_right fun is => ?_
    subst same
    exact filterRange_iff clean (agree.keyed is).2.grant
  change stored ∈ (range (store.filterRange filter).1 (store.filterRange filter).2.1
    (store.filterRange filter).2.2).map (·.2) ↔ _
  rw [List.mem_map]
  constructor
  · rintro ⟨⟨key, other⟩, mem, rfl⟩
    exact ((member key).mp mem).2
  · intro is
    exact ⟨(filter.key stored, stored), (member _).mpr ⟨rfl, is⟩, rfl⟩

def grantListing (store : RoleGrants) (filter : RoleGrantFilter) (limit : Nat)
    (cursor : Option String) :
    Except RoleGrantQueryError (List StoredRoleGrant × Option String) :=
  (store.listManagedGrants { filter, cursor, limit }).map fun page =>
    (page.grants, page.nextCursor)

theorem range_laterStart (table : BTreeMap String StoredRoleGrant)
    (cursor front stop : Option String) :
    range table (laterStart cursor front) stop =
      Paging.after Prod.fst (range table front stop) cursor := by
  cases cursor with
  | none => rfl
  | some cursor =>
    rw [Paging.after, range, range, List.filter_filter]
    refine filter_congr fun row _ => ?_
    have above : (laterStart (some cursor) front).all (· < row.1) =
        (decide (cursor < row.1) && front.all (· < row.1)) := by
      cases front with
      | none => exact (Bool.and_true _).symm
      | some front =>
        refine Eq.trans ?_ (Bool.decide_and _ _)
        exact decide_eq_decide.mpr max_lt_iff
    have order : decide (compare cursor row.1 = .lt) = decide (cursor < row.1) :=
      decide_eq_decide.mpr compare_lt_iff_lt
    rw [above, order, Bool.and_assoc]

theorem Agree.grantListing_eq (agree : store.Agree) (filter : RoleGrantFilter) {limit : Nat}
    (valid : 1 ≤ limit ∧ limit ≤ maxLimit) (cursor : Option String) :
    store.grantListing filter limit cursor =
      .ok (Paging.cut filter.key limit
        (Paging.after filter.key (store.filterRows filter) cursor)) := by
  obtain ⟨table, front, stop, is⟩ : ∃ table front stop,
      store.filterRange filter = (table, front, stop) := ⟨_, _, _, rfl⟩
  have keyed : ∀ row ∈ range table front stop, filter.key row.2 = row.1 := by
    intro row mem
    have found := mem_toList_iff_getElem?_eq_some.mp (List.mem_filter.mp mem).1
    have table' : (store.filterRange filter).1 = table := by rw [is]
    rw [← table'] at found
    exact ((agree.filterTable filter).mp found).1
  have left : Paging.after filter.key (store.filterRows filter) cursor =
      (Paging.after Prod.fst (range table front stop) cursor).map (·.2) := by
    rw [filterRows, is]
    exact after_map keyed cursor
  have invalid : ¬ (limit = 0 ∨ maxLimit < limit) := by omega
  rw [left, grantListing, listManagedGrants, if_neg invalid]
  dsimp only
  rw [is]
  dsimp only
  split
  · next beyond =>
    -- a cursor at or after the end of the range leaves nothing
    obtain ⟨c, rfl, past⟩ := (Option.any_eq_true _ _).mp beyond
    obtain ⟨e, rfl, past⟩ := (Option.any_eq_true _ _).mp past
    have none : Paging.after Prod.fst (range table front (some e)) (some c) = [] := by
      refine filter_eq_nil_iff.mpr fun row mem => ?_
      have inside := (Bool.and_eq_true_iff.mp (List.mem_filter.mp mem).2).2
      rw [decide_eq_true_iff, compare_lt_iff_lt]
      exact not_lt.mpr ((of_decide_eq_true inside).le.trans (of_decide_eq_true past))
    rw [none, map_nil, cut_nil]
    rfl
  · rw [range_laterStart, Except.map]
    refine congrArg Except.ok (Prod.ext (map_take ..) ?_)
    dsimp only [Paging.cut]
    rw [length_map]
    split
    · next longer =>
      obtain ⟨last, nth, final⟩ := getElem?_of_longer valid.1 longer
      have mem := (after_sublist cursor).mem (mem_of_getElem? nth)
      rw [final, List.getElem?_map, nth]
      exact congrArg some (keyed last mem).symm
    · rfl

theorem Agree.ordered_filterRows (agree : store.Agree) (filter : RoleGrantFilter) :
    (store.filterRows filter).Pairwise fun a b => compare (filter.key a) (filter.key b) = .lt := by
  have keyed : ∀ {row : String × StoredRoleGrant}, row ∈ range (store.filterRange filter).1
      (store.filterRange filter).2.1 (store.filterRange filter).2.2 →
        filter.key row.2 = row.1 := fun mem =>
    ((agree.filterTable filter).mp (mem_toList_iff_getElem?_eq_some.mp
      (List.mem_filter.mp mem).1)).1
  refine pairwise_map.mpr ((ordered_keys_toList.sublist
    filter_sublist).imp_of_mem fun {a b} ha hb lt => ?_)
  rw [keyed ha, keyed hb]
  exact lt

theorem Agree.walk_grantListing (agree : store.Agree)
    (clean : filter.Clean) {limit : Nat} (valid : 1 ≤ limit ∧ limit ≤ maxLimit) {fuel : Nat}
    (enough : store.grants.size < fuel) :
    ∃ listed, Paging.walk (store.grantListing filter limit) fuel none = .ok listed ∧
      listed.Nodup ∧
      ∀ stored, stored ∈ listed ↔ Stored store stored ∧ filter.Matches stored := by
  have ordered := agree.ordered_filterRows filter
  have distinct : (store.filterRows filter).Nodup := by
    refine ordered.imp fun {a b} lt same => ?_
    exact lt_irrefl _ (compare_lt_iff_lt.mp (same ▸ lt))
  have pages : Paging.Pages (store.grantListing filter limit)
      (Paging.after filter.key (store.filterRows filter)) :=
    pages_of_cut ordered valid.1 fun {cursor answer} given =>
      Except.ok.inj (given.symm.trans (agree.grantListing_eq filter valid cursor))
  -- every row listed is a row of the primary table
  have fewer : (store.filterRows filter).length ≤ store.grants.size := by
    rw [← Std.ExtTreeMap.length_toList, ← length_map (Prod.snd (α := String))]
    refine (distinct.subperm fun stored mem => ?_).length_le
    have is := ((agree.mem_filterRows clean).mp mem).1
    exact List.mem_map.mpr ⟨(_, stored), mem_toList_iff_getElem?_eq_some.mpr is, rfl⟩
  refine ⟨_, pages.walk_eq_ok (fun cursor => ⟨_, agree.grantListing_eq filter valid cursor⟩)
    (fewer.trans_lt enough), distinct, fun stored => agree.mem_filterRows clean⟩

end RoleGrants

/-! ## Runs -/

open RoleGrants

def grantsAfter (calls : List GrantCall) : RoleGrants :=
  Machine.exec (grantStep identityKey) {} calls

theorem grantsAfter_agree (calls : List GrantCall)
    (clean : ∀ call ∈ calls, call.Clean) : (grantsAfter identityKey calls).Agree :=
  Machine.exec_invariant (grantStep identityKey) (fun _ _ agree clean => agree.step clean) _ calls
    { keyed := fun found => by cases (BTreeMap.get_empty _).symm.trans found
      scopes := Indexes.empty
      externals := Indexes.empty
      links := fun found => by cases (BTreeMap.get_empty _).symm.trans found }
    (Machine.along_of_forall _ _ calls fun call mem _ => clean call mem)

/-- **The tables of role grants agree.** After every run, the primary table and
the index by reach hold the same records, each under its own key; a link
replacement leaves its link exactly the requested grants; the id of a stored
grant finds the grant, and names its reach; and the pages of a filter yield
exactly the grants that match it, each once. -/
theorem role_grant_tables_agree (identityKey : ExternalIdentity → String) (calls : List GrantCall)
    (clean : ∀ call ∈ calls, call.Clean) :
    (∀ stored, (∃ key : String, (grantsAfter identityKey calls).grants[key]? = some stored) ↔
      ∃ key : String, (grantsAfter identityKey calls).byScope[key]? = some stored) ∧
    (∀ (key : String) (stored : StoredRoleGrant),
      (grantsAfter identityKey calls).grants[key]? = some stored → key = recordKey stored) ∧
    (∀ (key : String) (stored : StoredRoleGrant),
      (grantsAfter identityKey calls).byScope[key]? = some stored → key = storedScopeKey stored) ∧
    (∀ request drawn after link created changed,
      (GrantCall.linkExternalIdentity request drawn).Clean →
      (grantsAfter identityKey calls).linkExternalIdentity identityKey request drawn =
        (after, .ok (link, created, changed)) →
      ∀ stored, Stored after stored ↔
        (∃ managed ∈ request.grants, stored = .external (linkGrant link managed) link.id) ∨
          ¬ OfLink link stored ∧ Stored (grantsAfter identityKey calls) stored) ∧
    (∀ stored, Stored (grantsAfter identityKey calls) stored →
      (grantsAfter identityKey calls).managedGrant stored.id = some stored ∧
        (stored.grant.scope ≠ .repository "" →
          roleGrantReach stored.id = some stored.grant.scope)) ∧
    (∀ filter limit fuel, filter.Clean → 1 ≤ limit ∧ limit ≤ maxLimit →
      (grantsAfter identityKey calls).grants.size < fuel →
      ∃ listed, Paging.walk ((grantsAfter identityKey calls).grantListing filter limit) fuel none =
          .ok listed ∧ listed.Nodup ∧ ∀ stored, stored ∈ listed ↔
            Stored (grantsAfter identityKey calls) stored ∧ filter.Matches stored) := by
  have agree := grantsAfter_agree identityKey calls clean
  refine ⟨fun stored => ?_, fun key stored found => (agree.keyed found).1,
    fun key stored found => ?_, fun request drawn after link created changed clean answer stored =>
      ?_, fun stored is => ⟨?_, roleGrantReach_id (agree.keyed is).2.grant⟩,
    fun filter limit fuel clean valid enough => agree.walk_grantListing clean valid enough⟩
  · constructor
    · rintro ⟨key, found⟩
      exact ⟨_, agree.scopes.get found rfl⟩
    · rintro ⟨key, found⟩
      obtain ⟨i, other, at', is⟩ := agree.scopes.exact.mp found
      cases is
      exact ⟨i, at'⟩
  · obtain ⟨i, other, at', is⟩ := agree.scopes.exact.mp found
    cases is
    rfl
  · obtain ⟨userId, linkId, free⟩ := clean
    have linked := linkExternalIdentity_linked identityKey (grantsAfter identityKey calls) request
      drawn
    rw [answer] at linked
    generalize told : (Except.ok (link, created, changed) :
      Except ExternalIdentityStoreError _) = tells at linked
    cases linked with
    | fails => cases told
    | @replaces linked link' created' changed' known =>
      cases told
      obtain ⟨agrees, same, id, user⟩ := agree.linked ⟨userId, linkId⟩ known
      rw [agrees.stored_replaceManagedGrants id user free, Stored, same]
      rfl
  · rw [managedGrant, StoredRoleGrant.id, decodeGrantId_encodeGrantId]
    exact is

namespace Groups

/-- A user is made operator by hand, and reader by the groups of a provider. -/
def calls : List GrantCall :=
  [.putUser "usr_1" .active, .grantRole "usr_1" .operator .server,
    .linkExternalIdentity
      { identity := { provider := "idp", subject := "alice" }
        grants := [{ role := .repositoryReader, scope := .repository "root" }] }
      { userId := "usr_2", linkId := "ext_1" }]

theorem group_grants_agree :
    ∃ listed, Paging.walk ((grantsAfter (·.subject) calls).grantListing
        (.resource (.repository "root")) 1) 3 none = .ok listed ∧
      listed.Nodup ∧ .external
        { user := "usr_2", role := .repositoryReader, scope := .repository "root" } "ext_1" ∈
          listed := by
  have clean : ∀ call ∈ calls, call.Clean := by decide
  obtain ⟨-, -, -, -, -, lists⟩ := role_grant_tables_agree (·.subject) calls clean
  obtain ⟨listed, walks, distinct, members⟩ := lists (.resource (.repository "root")) 1 3
    (show GrantScope.NulFree (.repository "root") by decide) (by decide) (by decide +kernel)
  have stored : Stored (grantsAfter (·.subject) calls)
      (.external { user := "usr_2", role := .repositoryReader, scope := .repository "root" }
        "ext_1") := by
    unfold Stored
    decide +kernel
  exact ⟨listed, walks, distinct, (members _).mpr ⟨stored, rfl⟩⟩

/-- A grant at a repository without a name is stored, but its id names no reach. -/
theorem unnamed_reach_not_recovered :
    ∃ stored, Stored (grantsAfter (·.subject)
        [.putUser "usr_1" .active, .grantRole "usr_1" .operator (.repository "")]) stored ∧
      roleGrantReach stored.id ≠ some stored.grant.scope := by
  refine ⟨.provisioned { user := "usr_1", role := .operator, scope := .repository "" }, ?_, ?_⟩
  · unfold Stored
    decide +kernel
  · decide +kernel

end Groups

end Peryx.Identity
