import Peryx.Identity.ScopedToken

/-!
# Stored role grants

`meta/role_grant.rs` and the grants of `meta/external_identity.rs`. A grant is
stored under its user, role and reach, and again in an index by reach; a grant
that an external identity brought has the id of its link in both keys, and
stands in a third table by which the grants of a link are replaced.

The hash an identity is stored under, and the ids a first login draws, are
parameters.
-/

namespace Peryx.Identity

abbrev UserId := String

inductive RoleGrantOrigin where
  | manual
  | externalIdentity (linkId : String)
deriving DecidableEq

/-- Audit fields are absent for bootstrap and group-sync bindings. -/
structure StoredRoleGrant where
  grant : RoleGrant UserId
  version : Nat
  grantedBy : Option UserId
  grantedAtUnix : Option Int64
  origin : RoleGrantOrigin
deriving DecidableEq

namespace StoredRoleGrant

def provisioned (grant : RoleGrant UserId) : StoredRoleGrant where
  grant
  version := 1
  grantedBy := none
  grantedAtUnix := none
  origin := .manual

def external (grant : RoleGrant UserId) (linkId : String) : StoredRoleGrant where
  grant
  version := 0
  grantedBy := none
  grantedAtUnix := none
  origin := .externalIdentity linkId

end StoredRoleGrant

/-! ## Keys -/

abbrev reachOf (scope : GrantScope) : String :=
  reachKey scope

def primaryKey (grant : RoleGrant UserId) : String :=
  grant.user ++ "/" ++ grant.role.asStr ++ "/" ++ reachOf grant.scope

def scopeKey (grant : RoleGrant UserId) : String :=
  reachOf grant.scope ++ "\x00" ++ grant.user ++ "\x00" ++ grant.role.asStr

def originKey (key : String) : RoleGrantOrigin → String
  | .manual => key
  | .externalIdentity linkId => key ++ "\x00external_identity\x00" ++ linkId

variable (stored : StoredRoleGrant)

def recordKey : String :=
  originKey (primaryKey stored.grant) stored.origin

def storedScopeKey : String :=
  originKey (scopeKey stored.grant) stored.origin

def managedGrantKey (linkId : String) (grant : RoleGrant UserId) : String :=
  grant.user ++ "/" ++ linkId ++ "/" ++ grant.role.asStr ++ "/" ++ reachKey grant.scope

/-! ## Ids -/

/-- `{:02x}`. -/
def hexByte (byte : UInt8) : List Char :=
  [Nat.digitChar (byte.toNat / 16), Nat.digitChar (byte.toNat % 16)]

def hexDigit (c : Char) : Option Nat :=
  if '0' ≤ c ∧ c ≤ '9' then some (c.toNat - '0'.toNat)
  else if 'a' ≤ c ∧ c ≤ 'f' then some (c.toNat - 'a'.toNat + 10)
  else if 'A' ≤ c ∧ c ≤ 'F' then some (c.toNat - 'A'.toNat + 10)
  else none

/-- `u8::from_str_radix` of two characters, of which the first may be a sign. -/
def fromStrRadix (first second : Char) : Option UInt8 :=
  if first = '+' then (hexDigit second).map UInt8.ofNat
  else
    match hexDigit first, hexDigit second with
    | some high, some low => some (UInt8.ofNat (16 * high + low))
    | _, _ => none

def unhex : List Char → Option (List UInt8)
  | [] => some []
  | [_] => none
  | first :: second :: rest =>
    match fromStrRadix first second, unhex rest with
    | some byte, some bytes => some (byte :: bytes)
    | _, _ => none

def encodeGrantId (key : String) : String :=
  "rg_" ++ String.ofList (key.toByteArray.data.toList.flatMap hexByte)

def decodeGrantId (id : String) : Option String :=
  ((stripPrefix "rg_" id).bind fun hex => unhex hex.toList).bind fun bytes =>
    String.fromUTF8? ⟨bytes.toArray⟩

def StoredRoleGrant.id : String :=
  encodeGrantId (recordKey stored)

def afterFirst (sep : Char) : List Char → Option (List Char)
  | [] => none
  | c :: text => if c = sep then some text else afterFirst sep text

/-- Recovers the reach without a store read so routes can authorize before
lookup. -/
def roleGrantReach (id : String) : Option GrantScope :=
  match (decodeGrantId id).bind fun key =>
      (afterFirst '/' key.toList).bind (afterFirst '/') with
  | none => none
  | some reach =>
    let reach := String.ofList (reach.takeWhile (· ≠ '\x00'))
    if reach = "server" then some .server
    else
      match stripPrefix "repository/" reach with
      | none => none
      | some name => if name = "" then none else some (.repository name)

/-! ## Tables -/

inductive UserState where
  | active
  | disabled
deriving DecidableEq

structure ExternalIdentity where
  provider : String
  subject : String
deriving DecidableEq

structure ExternalIdentityLink where
  id : String
  identity : ExternalIdentity
  userId : UserId

/-- `USER`, `ROLE_GRANT`, `ROLE_GRANT_BY_SCOPE`, `EXTERNAL_ROLE_GRANT` and
`EXTERNAL_IDENTITY`. -/
structure RoleGrants where
  users : BTreeMap UserId UserState := ∅
  grants : BTreeMap String StoredRoleGrant := ∅
  byScope : BTreeMap String StoredRoleGrant := ∅
  external : BTreeMap String (RoleGrant UserId) := ∅
  links : BTreeMap String ExternalIdentityLink := ∅

inductive RoleGrantStoreError where
  | unknownUser (id : UserId)
  | disabledUser (id : UserId)

inductive DeleteGrantOutcome where
  | externallyManaged (linkId : String)
  | preconditionFailed (current : Option Nat)
  | removed (stored : StoredRoleGrant)

inductive VersionPrecondition where
  | exists
  | versions (versions : Finset Nat)

def VersionPrecondition.matches : VersionPrecondition → Option Nat → Bool
  | .exists, current => current.isSome
  | .versions allowed, current => current.any (· ∈ allowed)

namespace RoleGrants

variable (store : RoleGrants)

def writeGrant (stored : StoredRoleGrant) : RoleGrants :=
  { store with
    grants := store.grants.insert (primaryKey stored.grant) stored
    byScope := store.byScope.insert (scopeKey stored.grant) stored }

def writeExternalGrant (linkId : String) (grant : RoleGrant UserId) :
    RoleGrants :=
  let stored := StoredRoleGrant.external grant linkId
  { store with
    grants := store.grants.insert (recordKey stored) stored
    byScope := store.byScope.insert (storedScopeKey stored) stored }

def removeExternalGrant (linkId : String) (grant : RoleGrant UserId) :
    RoleGrants :=
  let stored := StoredRoleGrant.external grant linkId
  { store with
    grants := store.grants.erase (recordKey stored)
    byScope := store.byScope.erase (storedScopeKey stored) }

def removeGrant (grant : RoleGrant UserId) :
    RoleGrants × Option StoredRoleGrant :=
  ({ store with
      grants := store.grants.erase (primaryKey grant)
      byScope := store.byScope.erase (scopeKey grant) },
    store.grants[primaryKey grant]?)

/-- Treats an existing binding as success without changing its version or audit
fields. -/
def grantRole (id : UserId) (role : Role) (scope : GrantScope) :
    RoleGrants × Except RoleGrantStoreError (RoleGrant UserId) :=
  match store.users[id]? with
  | none => (store, .error (.unknownUser id))
  | some _ =>
    let grant : RoleGrant UserId := { user := id, role, scope }
    match store.grants[primaryKey grant]? with
    | none => (store.writeGrant (.provisioned grant), .ok grant)
    | some _ => (store, .ok grant)

/-- Reasserting a binding advances its version and refreshes audit fields. -/
def createManagedGrant (grant : RoleGrant UserId) (grantedBy : UserId)
    (now : Int64) : RoleGrants × Except RoleGrantStoreError (StoredRoleGrant × Bool) :=
  match store.users[grant.user]? with
  | none => (store, .error (.unknownUser grant.user))
  | some .disabled => (store, .error (.disabledUser grant.user))
  | some .active =>
    let existing := store.grants[primaryKey grant]?
    let record : StoredRoleGrant :=
      { grant, version := existing.elim 1 (·.version + 1), grantedBy := some grantedBy
        grantedAtUnix := some now, origin := .manual }
    (store.writeGrant record, .ok (record, existing.isNone))

def revokeRole (id : UserId) (role : Role) (scope : GrantScope) :
    RoleGrants × Bool :=
  let (store, removed) := store.removeGrant { user := id, role, scope }
  (store, removed.isSome)

def managedGrant (id : String) : Option StoredRoleGrant :=
  (decodeGrantId id).bind fun key => store.grants[key]?

/-- Removes the binding when the precondition matches, so a concurrent
reassertion wins. -/
def deleteManagedGrant (id : String) (precondition : VersionPrecondition) :
    RoleGrants × DeleteGrantOutcome :=
  match decodeGrantId id with
  | none => (store, .preconditionFailed none)
  | some key =>
    match store.grants[key]? with
    | none => (store, .preconditionFailed none)
    | some stored =>
      if precondition.matches (some stored.version) then
        match stored.origin with
        | .externalIdentity linkId => (store, .externallyManaged linkId)
        | .manual => ((store.removeGrant stored.grant).1, .removed stored)
      else (store, .preconditionFailed (some stored.version))

/-! ## Links -/

structure ManagedRoleGrant where
  role : Role
  scope : GrantScope

/-- `managed_prefix_bounds`. -/
def managedRows (link : ExternalIdentityLink) :
    List (String × RoleGrant UserId) :=
  store.external.toList.filter fun row =>
    link.userId ++ "/" ++ link.id ++ "/" ≤ row.1 ∧ row.1 < link.userId ++ "/" ++ link.id ++ "0"

def desiredGrants (link : ExternalIdentityLink) (requested : List ManagedRoleGrant) :
    BTreeMap String (RoleGrant UserId) :=
  requested.foldl (fun desired managed =>
    let grant : RoleGrant UserId :=
      { user := link.userId, role := managed.role, scope := managed.scope }
    desired.insert (managedGrantKey link.id grant) grant) ∅

/-- Answers whether the grants of the link changed. -/
def replaceManagedGrants (link : ExternalIdentityLink)
    (requested : List ManagedRoleGrant) : RoleGrants × Bool :=
  let existing := store.managedRows link
  let desired := (desiredGrants link requested).toList
  if existing = desired then (store, false)
  else
    let store := existing.foldl (fun store row => store.removeExternalGrant link.id row.2) store
    let external := existing.foldl (fun table row => table.erase row.1) store.external
    let external := desired.foldl (fun table row => table.insert row.1 row.2) external
    let store := { store with external }
    (desired.foldl (fun store row => store.writeExternalGrant link.id row.2) store, true)

inductive ExternalIdentityStoreError where
  | keyCollision
  | missingUser (id : UserId)
  | disabledUser (id : UserId)

structure ExternalLinkRequest where
  identity : ExternalIdentity
  grants : List ManagedRoleGrant

/-- The ids that `UserId::random` and `Uuid::new_v4` answer a first login. -/
structure Drawn where
  userId : UserId
  linkId : String

def createLink (key : String) (identity : ExternalIdentity) (drawn : Drawn) :
    RoleGrants × ExternalIdentityLink :=
  let link : ExternalIdentityLink := { id := drawn.linkId, identity, userId := drawn.userId }
  ({ store with
      users := store.users.insert drawn.userId .active
      links := store.links.insert key link }, link)

/-- Creates a stable local user on first login and replaces only grants owned by
this link. Answers the link, whether it was created and whether its grants
changed. -/
def linkExternalIdentity (identityKey : ExternalIdentity → String) (store : RoleGrants)
    (request : ExternalLinkRequest) (drawn : Drawn) :
    RoleGrants × Except ExternalIdentityStoreError (ExternalIdentityLink × Bool × Bool) :=
  let key := identityKey request.identity
  let resolve (linked : RoleGrants) (link : ExternalIdentityLink) (created : Bool) :
      RoleGrants × Except ExternalIdentityStoreError (ExternalIdentityLink × Bool × Bool) :=
    match linked.users[link.userId]? with
    | none => (store, .error (.missingUser link.userId))
    | some .disabled => (store, .error (.disabledUser link.userId))
    | some .active =>
      let (linked, changed) := linked.replaceManagedGrants link request.grants
      (linked, .ok (link, created, changed))
  match store.links[key]? with
  | some link =>
    if link.identity = request.identity then resolve store link false
    else (store, .error .keyCollision)
  | none =>
    let (linked, link) := store.createLink key request.identity drawn
    resolve linked link true

/-! ## Listing -/

inductive RoleGrantFilter where
  | all
  | user (id : UserId)
  | resource (scope : GrantScope)

structure RoleGrantQuery where
  filter : RoleGrantFilter
  cursor : Option String
  limit : Nat

structure RoleGrantPage where
  grants : List StoredRoleGrant
  nextCursor : Option String

inductive RoleGrantQueryError where
  | invalidLimit

def maxLimit : Nat := 100

/-- The table a filter lists, and where the range it lists starts and ends. -/
def filterRange :
    RoleGrantFilter → BTreeMap String StoredRoleGrant × Option String × Option String
  | .all => (store.grants, none, none)
  | .user id => (store.grants, some (id ++ "/"), some (id ++ "0"))
  | .resource scope =>
    (store.byScope, some (reachOf scope ++ "\x00"), some (reachOf scope ++ "\x01"))

/-- The rows strictly between the bounds there are, in key order. -/
def range (table : BTreeMap String StoredRoleGrant) (start stop : Option String) :
    List (String × StoredRoleGrant) :=
  table.toList.filter fun row => start.all (· < row.1) && stop.all (row.1 < ·)

/-- `Option::max`: none is below every text. -/
def laterStart : Option String → Option String → Option String
  | none, b => b
  | some a, none => some a
  | some a, some b => some (max a b)

def listManagedGrants (query : RoleGrantQuery) :
    Except RoleGrantQueryError RoleGrantPage :=
  if query.limit = 0 ∨ maxLimit < query.limit then .error .invalidLimit
  else
    let (table, front, stop) := store.filterRange query.filter
    if query.cursor.any fun cursor => stop.any (· ≤ cursor) then
      .ok { grants := [], nextCursor := none }
    else
      let rows := range table (laterStart query.cursor front) stop
      let page := rows.take query.limit
      .ok
        { grants := page.map (·.2)
          nextCursor := if query.limit < rows.length then page.getLast?.map (·.1) else none }

end RoleGrants

end Peryx.Identity
