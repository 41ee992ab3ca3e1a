import Peryx.Identity.Roles
import Peryx.Lib.BTreeMap
import Peryx.Lib.Keys

/-!
# Scoped tokens

`meta/scoped_token.rs`: tokens are stored under their ids, with an index from the
verifier of a secret to the token that owns it and an index of the tokens of each
reach.

A fresh id is drawn from the operating system, so a creation is given the id it
draws. A verifier is the digest of a secret; the digest is a parameter.
-/

namespace Peryx.Identity

open String

abbrev TokenId := String

abbrev TokenVerifier := String

inductive Action where
  | read
  | write
  | delete
deriving DecidableEq

structure ScopedTokenRecord where
  id : TokenId
  name : String
  reach : GrantScope
  actions : Finset Action
  createdBy : String
  createdAtUnix : Int64
  expiresAt : Option Int64
  revokedAt : Option Int64
  revision : Nat
deriving DecidableEq

def ScopedTokenRecord.isLive (record : ScopedTokenRecord) (now : Int64) : Bool :=
  record.revokedAt.isNone && record.expiresAt.all (now < ·)

structure StoredToken where
  record : ScopedTokenRecord
  verifier : TokenVerifier
deriving DecidableEq

structure NewScopedToken where
  name : String
  reach : GrantScope
  actions : Finset Action
  expiresAt : Option Int64
  verifier : TokenVerifier
  createdBy : String
  createdAtUnix : Int64

inductive RevokeScopedTokenOutcome where
  | revoked (record : ScopedTokenRecord)
  | unchanged (record : ScopedTokenRecord)

structure ScopedTokenQuery where
  reach : GrantScope
  cursor : Option TokenId
  limit : Nat

structure ScopedTokenPage where
  tokens : List ScopedTokenRecord
  nextCursor : Option TokenId

inductive ScopedTokenQueryError where
  | invalidLimit

inductive ScopedTokenWriteError where
  | verifierCollision

def maxQueryLimit : Nat := 100

/-! ## Keys of the reach index -/

def reachKey : GrantScope → String
  | .server => "server"
  | .repository name => "repository/" ++ name

/-- A NUL separator prevents repository names such as `root` and `root/child`
from sharing a prefix. -/
def reachPrefix (reach : GrantScope) : String :=
  (reachKey reach).push '\x00'

def reachIndexKey (reach : GrantScope) (id : TokenId) : String :=
  reachPrefix reach ++ id

/-- A reach that keys can be told apart by. -/
def GrantScope.NulFree : GrantScope → Prop
  | .server => True
  | .repository name => '\x00' ∉ name.toList

instance : (reach : GrantScope) → Decidable reach.NulFree
  | .server => inferInstanceAs (Decidable True)
  | .repository name => inferInstanceAs (Decidable ('\x00' ∉ name.toList))

theorem nul_notMem_reachKey {reach : GrantScope} (free : reach.NulFree) :
    '\x00' ∉ (reachKey reach).toList := by
  cases reach with
  | server => decide
  | repository name =>
    rw [reachKey, toList_append, List.mem_append]
    exact fun mem => mem.elim (by decide) free

variable {a b : GrantScope}

theorem reachKey_inj (same : reachKey a = reachKey b) : a = b := by
  cases a <;> cases b
  · rfl
  · have first := congrArg (·.toList.head?) same
    simp [reachKey] at first
  · have first := congrArg (·.toList.head?) same
    simp [reachKey] at first
  · exact congrArg _ (append_right_inj _ |>.mp same)

theorem toList_reachIndexKey (reach : GrantScope) (id : TokenId) :
    (reachIndexKey reach id).toList = (reachKey reach).toList ++ '\x00' :: id.toList := by
  simp [reachIndexKey, reachPrefix]

theorem reachIndexKey_inj {i j : TokenId} (fa : a.NulFree) (fb : b.NulFree)
    (same : reachIndexKey a i = reachIndexKey b j) : a = b ∧ i = j := by
  have same := congrArg String.toList same
  rw [toList_reachIndexKey, toList_reachIndexKey] at same
  obtain ⟨reach, id⟩ := Keys.append_cons_inj (nul_notMem_reachKey fa) (nul_notMem_reachKey fb) same
  exact ⟨reachKey_inj (toList_injective reach), toList_injective id⟩

theorem under_reachPrefix_iff {id : TokenId} (fa : a.NulFree) (fb : b.NulFree) :
    Keys.Under (reachPrefix a) (reachIndexKey b id) ↔ a = b := by
  constructor
  · intro under
    obtain ⟨rest, same⟩ := Keys.under_iff.mp under
    exact (reachIndexKey_inj fb fa same).1.symm
  · rintro rfl
    exact Keys.under_append _ _

/-! ## Operations -/

/-- `SCOPED_TOKEN`, `SCOPED_TOKEN_VERIFIER` and `SCOPED_TOKEN_REACH`. -/
structure ScopedTokens where
  tokens : BTreeMap TokenId StoredToken := ∅
  verifiers : BTreeMap TokenVerifier TokenId := ∅
  reaches : BTreeMap String TokenId := ∅

namespace ScopedTokens

variable {Secret : Type}

variable (store : ScopedTokens)

/-- The verifier index without the row of a token's verifier, if the token still
owns it. -/
def releaseVerifier (id : TokenId) (verifier : TokenVerifier) :
    BTreeMap TokenVerifier TokenId :=
  if store.verifiers[verifier]? = some id then store.verifiers.erase verifier
  else store.verifiers

def createScopedToken (id : TokenId) (request : NewScopedToken) :
    ScopedTokens × Except ScopedTokenWriteError ScopedTokenRecord :=
  let record : ScopedTokenRecord :=
    { id, name := request.name, reach := request.reach, actions := request.actions
      createdBy := request.createdBy, createdAtUnix := request.createdAtUnix
      expiresAt := request.expiresAt, revokedAt := none, revision := 1 }
  match store.verifiers[request.verifier]? with
  | some _ => (store, .error .verifierCollision)
  | none =>
    ({ tokens := store.tokens.insert id { record, verifier := request.verifier }
       verifiers := store.verifiers.insert request.verifier id
       reaches := store.reaches.insert (reachIndexKey record.reach id) id }, .ok record)

def getScopedToken (id : TokenId) : Option ScopedTokenRecord :=
  store.tokens[id]?.map (·.record)

/-- `None` for unknown, revoked, or expired tokens. -/
def verifyScopedToken (digest : Secret → TokenVerifier) (store : ScopedTokens)
    (presented : Secret) (now : Int64) : Option ScopedTokenRecord :=
  match store.verifiers[digest presented]? with
  | none => none
  | some id =>
    match store.tokens[id]? with
    | none => none
    | some stored => if stored.record.isLive now then some stored.record else none

/-- Replaces a live verifier. Missing and revoked tokens are left alone. -/
def rotateScopedToken (id : TokenId) (verifier : TokenVerifier) :
    ScopedTokens × Except ScopedTokenWriteError (Option ScopedTokenRecord) :=
  match store.tokens[id]? with
  | none => (store, .ok none)
  | some stored =>
    if stored.record.revokedAt.isSome then (store, .ok none)
    else if store.verifiers[verifier]?.any (· ≠ id) then (store, .error .verifierCollision)
    else
      let record := { stored.record with revision := stored.record.revision + 1 }
      ({ store with
          tokens := store.tokens.insert id { record, verifier }
          verifiers := (store.releaseVerifier id stored.verifier).insert verifier id },
        .ok (some record))

/-- Removes the verifier index at once; the record stays for audit. -/
def revokeScopedToken (id : TokenId) (now : Int64) :
    ScopedTokens × Option RevokeScopedTokenOutcome :=
  match store.tokens[id]? with
  | none => (store, none)
  | some stored =>
    if stored.record.revokedAt.isSome then (store, some (.unchanged stored.record))
    else
      let record :=
        { stored.record with revokedAt := some now, revision := stored.record.revision + 1 }
      ({ store with
          tokens := store.tokens.insert id { stored with record }
          verifiers := store.releaseVerifier id stored.verifier },
        some (.revoked record))

/-! ## Listing -/

/-- The records of index entries, `room` and one more at most, up to the first
entry outside the reach. An entry without a token is passed over. -/
def collect (store : ScopedTokens) (front : String) :
    Nat → List (String × TokenId) → List ScopedTokenRecord
  | _, [] => []
  | room, (key, id) :: entries =>
    if Keys.Under front key then
      match store.tokens[id]?, room with
      | none, room => store.collect front room entries
      | some stored, 0 => [stored.record]
      | some stored, room + 1 => stored.record :: store.collect front room entries
    else []

/-- Index entries from the reach's own range on, after the cursor. -/
def aboveStart (reach : GrantScope) (cursor : Option TokenId) (key : String) : Bool :=
  match cursor with
  | none => reachPrefix reach ≤ key
  | some cursor => reachIndexKey reach cursor < key

def listScopedTokens (query : ScopedTokenQuery) :
    Except ScopedTokenQueryError ScopedTokenPage :=
  if 1 ≤ query.limit ∧ query.limit ≤ maxQueryLimit then
    let entries := store.reaches.toList.filter fun row => aboveStart query.reach query.cursor row.1
    let records := store.collect (reachPrefix query.reach) query.limit entries
    .ok
      { tokens := records.take query.limit
        nextCursor :=
          if records.length > query.limit then records[query.limit - 1]?.map (·.id) else none }
  else .error .invalidLimit

end ScopedTokens

end Peryx.Identity
