import Peryx.Identity.ScopedToken
import Peryx.Lib.TableIndex

/-!
# Verification of scoped tokens is exact

A secret verifies as the token whose latest creation or rotation installed its
verifier, unless that token is revoked or expired. The rows of the verifier
index are those of the unrevoked tokens (`ScopedTokens.Consistent`), and the
tokens are what the history of successful calls says (`Tracks`).

- `tokenStep_change`: what one call does to the tables.
- `Tracks.succeeds_iff`: which calls succeed.
- `scoped_tokens_are_exact`: what secrets verify as, and what is listed, after a run.
-/

namespace Peryx.Identity

open Machine BTreeMap Paging List Option Std.ExtTreeMap

/-! ## Calls and their history -/

/-- `create` is given the id it draws. -/
inductive TokenCall where
  | create (id : TokenId) (request : NewScopedToken)
  | rotate (id : TokenId) (verifier : TokenVerifier)
  | revoke (id : TokenId) (now : Int64)

inductive TokenAnswer where
  | created (answer : Except ScopedTokenWriteError ScopedTokenRecord)
  | rotated (answer : Except ScopedTokenWriteError (Option ScopedTokenRecord))
  | revoked (answer : Option RevokeScopedTokenOutcome)

def tokenStep (store : ScopedTokens) : TokenCall → ScopedTokens × TokenAnswer
  | .create id request =>
    let (store, answer) := store.createScopedToken id request
    (store, .created answer)
  | .rotate id verifier =>
    let (store, answer) := store.rotateScopedToken id verifier
    (store, .rotated answer)
  | .revoke id now =>
    let (store, answer) := store.revokeScopedToken id now
    (store, .revoked answer)

/-- `TokenId::random` answers an id that no token has. -/
def TokenCall.Fresh (store : ScopedTokens) : TokenCall → Prop
  | .create id _ => store.tokens[id]? = none
  | _ => True

abbrev TokenEvent := TokenCall × TokenAnswer

/-- The verifier an event puts in place. -/
def installs : TokenEvent → Option (TokenId × TokenVerifier)
  | (.create id request, .created (.ok _)) => some (id, request.verifier)
  | (.rotate id verifier, .rotated (.ok (some _))) => some (id, verifier)
  | _ => none

/-- The token an event revokes. -/
def revokes : TokenEvent → Option TokenId
  | (.revoke id _, .revoked (some (.revoked _))) => some id
  | _ => none

def latestVerifier (history : List TokenEvent) (id : TokenId) : Option TokenVerifier :=
  history.reverse.findSome? fun event =>
    (installs event).bind fun (owner, verifier) => if owner = id then some verifier else none

def isRevoked (history : List TokenEvent) (id : TokenId) : Bool :=
  history.any fun event => revokes event = some id

/-- The record of a token after a call, as the call asked for it. -/
def issue (id : TokenId) (record : Option ScopedTokenRecord) :
    TokenEvent → Option ScopedTokenRecord
  | (.create owner request, .created (.ok _)) =>
    if owner = id then
      some
        { id, name := request.name, reach := request.reach, actions := request.actions
          createdBy := request.createdBy, createdAtUnix := request.createdAtUnix
          expiresAt := request.expiresAt, revokedAt := none, revision := 1 }
    else record
  | (.rotate owner _, .rotated (.ok (some _))) =>
    if owner = id then record.map fun record => { record with revision := record.revision + 1 }
    else record
  | (.revoke owner now, .revoked (some (.revoked _))) =>
    if owner = id then
      record.map fun record =>
        { record with revokedAt := some now, revision := record.revision + 1 }
    else record
  | _ => record

/-- What the requests of a history make of a token. -/
def issued (history : List TokenEvent) (id : TokenId) : Option ScopedTokenRecord :=
  history.foldl (issue id) none

/-- A token that is not revoked has the verifier. -/
def Holds (history : List TokenEvent) (id : TokenId) (verifier : TokenVerifier) : Prop :=
  latestVerifier history id = some verifier ∧ isRevoked history id = false

/-- After the history a call is granted: the verifier it installs is no other token's,
and the token it is about is there and not revoked. -/
def Granted (history : List TokenEvent) : TokenCall → Prop
  | .create _ request => ∀ owner, ¬ Holds history owner request.verifier
  | .rotate id verifier =>
    (∃ old, Holds history id old) ∧ ∀ owner, Holds history owner verifier → owner = id
  | .revoke id _ => ∃ old, Holds history id old

/-! ## What a call does -/

/-- The store a call leads to, the verifier it installs and the token it revokes. -/
inductive TokenChange (store : ScopedTokens) (call : TokenCall) :
    ScopedTokens → Option (TokenId × TokenVerifier) → Option TokenId → Prop where
  | keeps : TokenChange store call store none none
  | creates {id : TokenId} {record : ScopedTokenRecord} {verifier : TokenVerifier}
      (fresh : store.tokens[id]? = none) (unused : store.verifiers[verifier]? = none)
      (own : record.id = id) (live : record.revokedAt = none)
      (asked : ∃ request, call = .create id request ∧ record.reach = request.reach) :
      TokenChange store call
        { tokens := store.tokens.insert id { record, verifier }
          verifiers := store.verifiers.insert verifier id
          reaches := store.reaches.insert (reachIndexKey record.reach id) id }
        (some (id, verifier)) none
  | rotates {id : TokenId} {stored : StoredToken} {verifier : TokenVerifier} {revision : Nat}
      (found : store.tokens[id]? = some stored) (live : stored.record.revokedAt = none)
      (free : ∀ owner, store.verifiers[verifier]? = some owner → owner = id) :
      TokenChange store call
        { store with
          tokens := store.tokens.insert id { record := { stored.record with revision }, verifier }
          verifiers := (store.releaseVerifier id stored.verifier).insert verifier id }
        (some (id, verifier)) none
  | revokes {id : TokenId} {stored : StoredToken} {now : Int64} {revision : Nat}
      (found : store.tokens[id]? = some stored) (live : stored.record.revokedAt = none) :
      TokenChange store call
        { store with
          tokens := store.tokens.insert id
            { stored with record := { stored.record with revokedAt := some now, revision } }
          verifiers := store.releaseVerifier id stored.verifier }
        none (some id)

variable {store : ScopedTokens} {reach : GrantScope} {call : TokenCall}

theorem tokenStep_change (fresh : call.Fresh store) :
    TokenChange store call (Machine.next tokenStep store call)
      (installs (call, Machine.answer tokenStep store call))
      (revokes (call, Machine.answer tokenStep store call)) := by
  unfold Machine.next Machine.answer tokenStep
  cases call with
  | create id request =>
    dsimp only
    unfold ScopedTokens.createScopedToken
    cases used : store.verifiers[request.verifier]? with
    | some owner => exact .keeps
    | none => exact .creates fresh used rfl rfl ⟨request, rfl, rfl⟩
  | rotate id verifier =>
    dsimp only
    unfold ScopedTokens.rotateScopedToken
    cases found : store.tokens[id]? with
    | none => exact .keeps
    | some stored =>
      dsimp only
      by_cases revoked : stored.record.revokedAt.isSome
      · rw [if_pos revoked]
        exact .keeps
      rw [if_neg revoked]
      by_cases taken : store.verifiers[verifier]?.any (· ≠ id)
      · rw [if_pos taken]
        exact .keeps
      rw [if_neg taken]
      refine .rotates found (not_isSome_iff_eq_none.mp revoked) fun owner owned => ?_
      rw [owned] at taken
      simpa using taken
  | revoke id now =>
    dsimp only
    unfold ScopedTokens.revokeScopedToken
    cases found : store.tokens[id]? with
    | none => exact .keeps
    | some stored =>
      dsimp only
      by_cases revoked : stored.record.revokedAt.isSome
      · rw [if_pos revoked]
        exact .keeps
      rw [if_neg revoked]
      exact .revokes found (not_isSome_iff_eq_none.mp revoked)

/-! ## The indexes -/

def StoredToken.verifierEntry (id : TokenId) (stored : StoredToken) :
    Option (TokenVerifier × TokenId) :=
  if stored.record.revokedAt = none then some (stored.verifier, id) else none

theorem StoredToken.verifierEntry_eq_some {id owner : TokenId} {stored : StoredToken}
    {verifier : TokenVerifier} :
    stored.verifierEntry id = some (verifier, owner) ↔
      stored.record.revokedAt = none ∧ stored.verifier = verifier ∧ id = owner := by
  unfold verifierEntry
  split <;> simp [*]

def StoredToken.reachEntry (id : TokenId) (stored : StoredToken) : Option (String × TokenId) :=
  some (reachIndexKey stored.record.reach id, id)

/-- A token stands under its own id, and the verifier rows are those of the
tokens that are not revoked. -/
structure ScopedTokens.Consistent (store : ScopedTokens) : Prop where
  own : ∀ {id : TokenId} {stored : StoredToken}, store.tokens[id]? = some stored →
    stored.record.id = id
  owners : Indexes StoredToken.verifierEntry store.tokens store.verifiers

namespace ScopedTokens.Consistent

variable {store' : ScopedTokens}
  {installed : Option (TokenId × TokenVerifier)} {withdrawn : Option TokenId}

variable {id : TokenId} {stored : StoredToken}

theorem own_insert (consistent : store.Consistent) (new : StoredToken)
    (own : new.record.id = id) {id' : TokenId}
    (found : (store.tokens.insert id new)[id']? = some stored) : stored.record.id = id' := by
  obtain ⟨same, rfl⟩ | ⟨-, found⟩ := of_get_insert found
  · exact own.trans same
  · exact consistent.own found

theorem releaseVerifier_eq (consistent : store.Consistent)
    (found : store.tokens[id]? = some stored) (live : stored.record.revokedAt = none) :
    store.releaseVerifier id stored.verifier =
      TableIndex.unlink store.verifiers (stored.verifierEntry id) := by
  have is : stored.verifierEntry id = some (stored.verifier, id) := if_pos live
  rw [is]
  exact if_pos (consistent.owners.get found is)

theorem change (consistent : store.Consistent)
    (change : TokenChange store call store' installed withdrawn) : store'.Consistent := by
  cases change with
  | keeps => exact consistent
  | @creates id record verifier fresh unused own live =>
    have entry : StoredToken.verifierEntry id { record, verifier } = some (verifier, id) :=
      if_pos live
    refine ⟨consistent.own_insert { record, verifier } own, ?_⟩
    have made := consistent.owners.insert_of_absent { record, verifier } fresh fun {k b} is => by
      cases entry.symm.trans is
      exact unused
    rwa [entry] at made
  | @rotates id stored verifier revision found live free =>
    let new : StoredToken := { record := { stored.record with revision }, verifier }
    have entry : new.verifierEntry id = some (verifier, id) := if_pos live
    rw [consistent.releaseVerifier_eq found live]
    have own := consistent.own found
    refine ⟨consistent.own_insert new own, ?_⟩
    have made := consistent.owners.replace new found fun {k b j s c} is at' its => by
      cases entry.symm.trans is
      obtain ⟨-, -, rfl⟩ := StoredToken.verifierEntry_eq_some.mp its
      exact (free j (consistent.owners.get at' its)).symm
    rwa [entry] at made
  | @revokes id stored now revision found live =>
    let new : StoredToken :=
      { stored with record := { stored.record with revokedAt := some now, revision } }
    have entry : new.verifierEntry id = none := if_neg nofun
    rw [consistent.releaseVerifier_eq found live]
    have own := consistent.own found
    refine ⟨consistent.own_insert new own, ?_⟩
    have made := consistent.owners.replace new found fun {k b j s c} is _ _ => by
      cases entry.symm.trans is
    rwa [entry] at made

theorem verifyScopedToken_iff (consistent : store.Consistent) {Secret : Type}
    {digest : Secret → TokenVerifier} {presented : Secret} {now : Int64}
    {record : ScopedTokenRecord} :
    store.verifyScopedToken digest presented now = some record ↔
      ∃ (id : TokenId) (stored : StoredToken), store.tokens[id]? = some stored ∧
        stored.verifier = digest presented ∧ stored.record.isLive now = true ∧
        stored.record = record := by
  unfold verifyScopedToken
  constructor
  · intro verified
    split at verified
    · cases verified
    · next id owner =>
      obtain ⟨i, stored, found, is⟩ := consistent.owners.exact.mp owner
      obtain ⟨-, verifier, rfl⟩ := StoredToken.verifierEntry_eq_some.mp is
      rw [found] at verified
      dsimp only at verified
      split at verified
      · next live =>
        cases verified
        exact ⟨_, stored, found, verifier, live, rfl⟩
      · cases verified
  · rintro ⟨id, stored, found, verifier, live, rfl⟩
    have unrevoked : stored.record.revokedAt = none := by
      exact isNone_iff_eq_none.mp (Bool.and_eq_true_iff.mp live).1
    have owner := consistent.owners.get found (if_pos unrevoked)
    rw [← verifier, owner]
    dsimp only
    rw [found]
    exact if_pos live

end ScopedTokens.Consistent

/-! ## What the history says -/

section

variable {history : List TokenEvent} {event : TokenEvent} {id : TokenId}

theorem latestVerifier_snoc : latestVerifier (history ++ [event]) id =
    ((installs event).bind fun (owner, verifier) =>
      if owner = id then some verifier else none).or (latestVerifier history id) := by
  rw [latestVerifier, reverse_concat, findSome?_cons, latestVerifier]
  cases (installs event).bind fun (owner, verifier) =>
    if owner = id then some verifier else none <;> rfl

theorem isRevoked_snoc :
    isRevoked (history ++ [event]) id = (isRevoked history id || revokes event = some id) := by
  simp [isRevoked]

end

/-- The store says what the history says. -/
structure Tracks (history : List TokenEvent) (store : ScopedTokens) : Prop where
  verifier : ∀ id : TokenId, store.tokens[id]?.map (·.verifier) = latestVerifier history id
  revoked : ∀ id : TokenId,
    store.tokens[id]?.any (·.record.revokedAt.isSome) = isRevoked history id

theorem Tracks.change {history : List TokenEvent} {store' : ScopedTokens}
    (tracks : Tracks history store) {event : TokenEvent} {call : TokenCall}
    (change : TokenChange store call store' (installs event) (revokes event)) :
    Tracks (history ++ [event]) store' := by
  have verifier := tracks.verifier
  have revoked := tracks.revoked
  generalize installing : installs event = installed at change
  generalize revoking : revokes event = withdrawn at change
  refine ⟨fun id => ?_, fun id => ?_⟩
  · rw [latestVerifier_snoc, installing, ← verifier id]
    cases change with
    | keeps => rfl
    | creates | rotates =>
      dsimp only [bind_some]
      rw [get_insert]
      split <;> rfl
    | revokes found =>
      rw [get_insert]
      split
      · next same => rw [← same, found]; rfl
      · rfl
  · rw [isRevoked_snoc, revoking, ← revoked id]
    cases change with
    | keeps => simp
    | creates fresh unused own live =>
      rw [get_insert]
      split
      · next same => simp [← same, fresh, live]
      · simp
    | rotates found live =>
      rw [get_insert]
      split
      · next same => simp [← same, found, live]
      · simp
    | revokes found live =>
      rw [get_insert]
      split
      · next same => simp [same]
      · next other => simp [other]

/-! ## Runs -/

def tokenHistory (calls : List TokenCall) : List TokenEvent :=
  Machine.transcript tokenStep {} calls

/-- The store after the calls. -/
def tokensAfter (calls : List TokenCall) : ScopedTokens :=
  Machine.exec tokenStep {} calls

/-- No identifier is drawn twice. -/
def FreshIds (calls : List TokenCall) : Prop :=
  Machine.Along tokenStep (fun store call => call.Fresh store) {} calls

theorem tokensAfter_consistent (calls : List TokenCall) (fresh : FreshIds calls) :
    (tokensAfter calls).Consistent :=
  exec_invariant tokenStep (fun _ _ consistent fresh =>
    ScopedTokens.Consistent.change consistent (tokenStep_change fresh)) _ calls
    ⟨fun found => (by cases (get_empty _).symm.trans found), Indexes.empty⟩ fresh

theorem tracks_tokensAfter (calls : List TokenCall) (fresh : FreshIds calls) :
    Tracks (tokenHistory calls) (tokensAfter calls) := by
  induction calls using List.reverseRecOn with
  | nil => exact ⟨fun _ => rfl, fun _ => rfl⟩
  | append_singleton calls call ih =>
    obtain ⟨before, fresh, -⟩ := (along_append tokenStep {} calls [call]).mp fresh
    rw [tokenHistory, tokensAfter, transcript_append, exec_append]
    exact (ih before).change (tokenStep_change fresh)

/-! ## Requests -/

/-- **Step.** The rows of the tokens are what the requests make of them. -/
theorem getScopedToken_step (store : ScopedTokens) (call : TokenCall) (id : TokenId) :
    (Machine.next tokenStep store call).getScopedToken id =
      issue id (store.getScopedToken id) (call, Machine.answer tokenStep store call) := by
  unfold Machine.next Machine.answer tokenStep ScopedTokens.getScopedToken
  cases call with
  | create owner request =>
    dsimp only
    unfold ScopedTokens.createScopedToken
    cases store.verifiers[request.verifier]? with
    | some other => rfl
    | none =>
      dsimp only [issue]
      rw [get_insert]
      split
      · next same => rw [same]; rfl
      · rfl
  | rotate owner verifier =>
    dsimp only
    unfold ScopedTokens.rotateScopedToken
    cases found : store.tokens[owner]? with
    | none => rfl
    | some stored =>
      dsimp only
      split
      · rfl
      · split
        · rfl
        · dsimp only [issue]
          rw [get_insert]
          split
          · next same => rw [← same, found]; rfl
          · rfl
  | revoke owner now =>
    dsimp only
    unfold ScopedTokens.revokeScopedToken
    cases found : store.tokens[owner]? with
    | none => rfl
    | some stored =>
      dsimp only
      split
      · rfl
      · dsimp only [issue]
        rw [get_insert]
        split
        · next same => rw [← same, found]; rfl
        · rfl

/-- **Run.** -/
theorem getScopedToken_tokensAfter (calls : List TokenCall) (id : TokenId) :
    (tokensAfter calls).getScopedToken id = issued (tokenHistory calls) id := by
  induction calls using List.reverseRecOn with
  | nil => rfl
  | append_singleton calls call ih =>
    rw [tokensAfter, exec_append, tokenHistory, transcript_append, issued, foldl_append]
    refine (getScopedToken_step _ call id).trans ?_
    rw [← tokensAfter, ih]
    rfl

section

variable {history : List TokenEvent} {id : TokenId} {verifier : TokenVerifier}

theorem Tracks.holds_iff (tracks : Tracks history store) :
    Holds history id verifier ↔ ∃ stored, store.tokens[id]? = some stored ∧
      stored.verifier = verifier ∧ stored.record.revokedAt = none := by
  rw [Holds, ← tracks.verifier id, ← tracks.revoked id]
  cases store.tokens[id]? <;> simp

theorem Tracks.owner_iff (tracks : Tracks history store) (consistent : store.Consistent) :
    store.verifiers[verifier]? = some id ↔ Holds history id verifier := by
  rw [consistent.owners.exact, tracks.holds_iff]
  constructor
  · rintro ⟨owner, stored, found, is⟩
    obtain ⟨live, same, rfl⟩ := StoredToken.verifierEntry_eq_some.mp is
    exact ⟨stored, found, same, live⟩
  · rintro ⟨stored, found, same, live⟩
    exact ⟨id, stored, found, StoredToken.verifierEntry_eq_some.mpr ⟨live, same, rfl⟩⟩

theorem Tracks.exists_holds_iff (tracks : Tracks history store) {stored : StoredToken}
    (found : store.tokens[id]? = some stored) :
    (∃ old, Holds history id old) ↔ ¬ stored.record.revokedAt.isSome = true := by
  simp [tracks.holds_iff, found]

/-- A call succeeds exactly where it is granted. -/
theorem Tracks.succeeds_iff (tracks : Tracks history store) (consistent : store.Consistent)
    (call : TokenCall) :
    (installs (call, Machine.answer tokenStep store call)).isSome ∨
        (revokes (call, Machine.answer tokenStep store call)).isSome ↔ Granted history call := by
  unfold Machine.answer tokenStep
  cases call with
  | create id request =>
    unfold ScopedTokens.createScopedToken Granted
    simp only [← tracks.owner_iff consistent]
    cases used : store.verifiers[request.verifier]? <;> simp [installs, revokes]
  | rotate id verifier =>
    unfold ScopedTokens.rotateScopedToken Granted
    dsimp only
    cases found : store.tokens[id]? with
    | none => simp [installs, revokes, tracks.holds_iff, found]
    | some stored =>
      rw [tracks.exists_holds_iff found]
      simp only [← tracks.owner_iff consistent]
      cases used : store.verifiers[verifier]? with
      | none => by_cases gone : stored.record.revokedAt.isSome <;> simp [installs, revokes, gone]
      | some owner =>
        by_cases gone : stored.record.revokedAt.isSome <;> by_cases mine : owner = id <;>
          simp [installs, revokes, gone, mine]
  | revoke id now =>
    unfold ScopedTokens.revokeScopedToken Granted
    dsimp only
    cases found : store.tokens[id]? with
    | none => simp [installs, revokes, tracks.holds_iff, found]
    | some stored =>
      rw [tracks.exists_holds_iff found]
      by_cases gone : stored.record.revokedAt.isSome <;> simp [installs, revokes, gone]

end

/-! ## Withdrawn verifiers -/

/-- A call takes a verifier from the token that had it: the token is revoked, or
given another verifier. -/
def Withdraws (history : List TokenEvent) (event : TokenEvent) (verifier : TokenVerifier) : Prop :=
  ∃ id, latestVerifier history id = some verifier ∧
    (revokes event = some id ∨ ∃ new, new ≠ verifier ∧ installs event = some (id, new))

section

variable {store' : ScopedTokens} {verifier : TokenVerifier}

theorem ScopedTokens.releaseVerifier_absent (absent : store.verifiers[verifier]? = none)
    (id : TokenId) (old : TokenVerifier) : (store.releaseVerifier id old)[verifier]? = none := by
  unfold releaseVerifier
  split
  · rw [get_erase, absent, ite_self]
  · exact absent

theorem TokenChange.absent {installed : Option (TokenId × TokenVerifier)}
    {withdrawn : Option TokenId} (change : TokenChange store call store' installed withdrawn)
    (others : ∀ id, installed ≠ some (id, verifier))
    (absent : store.verifiers[verifier]? = none) : store'.verifiers[verifier]? = none := by
  cases change with
  | keeps => exact absent
  | @creates id record new =>
    have other : new ≠ verifier := fun same => others id (same ▸ rfl)
    exact (get_insert_of_ne _ _ other).trans absent
  | @rotates id stored new =>
    have other : new ≠ verifier := fun same => others id (same ▸ rfl)
    exact (get_insert_of_ne _ _ other).trans (store.releaseVerifier_absent absent _ _)
  | revokes => exact store.releaseVerifier_absent absent _ _

theorem absent_of_withdraws {history : List TokenEvent} {event : TokenEvent}
    (consistent : store.Consistent) (tracks : Tracks history store)
    (change : TokenChange store call store' (installs event) (revokes event))
    (withdraws : Withdraws history event verifier) : store'.verifiers[verifier]? = none := by
  obtain ⟨id, latest, taken⟩ := withdraws
  rw [← tracks.verifier id] at latest
  generalize installs event = installed at change taken
  generalize revokes event = withdrawn at change taken
  have erased : ∀ {stored : StoredToken}, store.tokens[id]? = some stored →
      stored.record.revokedAt = none →
      (store.releaseVerifier id stored.verifier)[verifier]? = none := by
    intro stored found live
    have is : stored.verifierEntry id = some (stored.verifier, id) := if_pos live
    rw [found] at latest
    obtain rfl := Option.some.inj latest
    rw [consistent.releaseVerifier_eq found live, is]
    exact get_erase_self _ _
  cases change with
  | keeps => rcases taken with taken | ⟨_, _, taken⟩ <;> cases taken
  | creates fresh =>
    rcases taken with taken | ⟨new, other, taken⟩
    · cases taken
    · cases taken
      rw [fresh] at latest
      cases latest
  | rotates found live =>
    rcases taken with taken | ⟨new, other, taken⟩
    · cases taken
    · cases taken
      exact (get_insert_of_ne _ _ other).trans (erased found live)
  | revokes found live =>
    rcases taken with taken | ⟨new, other, taken⟩
    · cases taken
      exact erased found live
    · cases taken

end

theorem absent_exec {verifier : TokenVerifier} : ∀ {store : ScopedTokens} {calls : List TokenCall},
    Along tokenStep (fun store call => call.Fresh store) store calls →
    (∀ event ∈ Machine.transcript tokenStep store calls,
      ∀ id, installs event ≠ some (id, verifier)) →
    store.verifiers[verifier]? = none →
    (exec tokenStep store calls).verifiers[verifier]? = none
  | _, [], _, _, absent => absent
  | store, call :: calls, ⟨fresh, along⟩, others, absent => by
    rw [exec_cons]
    have gone := (tokenStep_change fresh).absent (others _ mem_cons_self) absent
    exact absent_exec along (fun event mem => others event (.tail _ mem)) gone

/-! ## Listing a reach -/

def TokenCall.NulFree : TokenCall → Prop
  | .create _ request => request.reach.NulFree
  | _ => True

instance : (call : TokenCall) → Decidable call.NulFree
  | .create _ request => inferInstanceAs (Decidable request.reach.NulFree)
  | .rotate .. | .revoke .. => inferInstanceAs (Decidable True)

def ScopedTokens.reachTokens (store : ScopedTokens) (reach : GrantScope) :
    List ScopedTokenRecord :=
  (store.tokens.toList.filter fun row => row.2.record.reach = reach).map (·.2.record)

/-- The reach index holds the tokens, whose reaches can be told apart. -/
structure ScopedTokens.Listed (store : ScopedTokens) : Prop where
  free : ∀ {id : TokenId} {stored : StoredToken}, store.tokens[id]? = some stored →
    stored.record.reach.NulFree
  reaches : Indexes StoredToken.reachEntry store.tokens store.reaches

theorem ScopedTokens.collect_eq (store : ScopedTokens) (front : String) :
    ∀ (room : Nat) (entries : List (String × TokenId)),
      store.collect front room entries =
        ((entries.takeWhile fun row => Keys.Under front row.1).filterMap fun row =>
          store.getScopedToken row.2).take (room + 1)
  | _, [] => rfl
  | room, (key, id) :: entries => by
    unfold collect
    by_cases under : Keys.Under front key
    · rw [if_pos under, takeWhile_cons_of_pos (by simpa using under), filterMap_cons,
        getScopedToken]
      cases store.tokens[id]? with
      | none => exact store.collect_eq front room entries
      | some stored =>
        cases room with
        | zero => rfl
        | succ room => exact congrArg (stored.record :: ·) (store.collect_eq front room entries)
    · rw [if_neg under, takeWhile_cons_of_neg (by simpa using under)]
      rfl

namespace ScopedTokens.Listed

variable {store' : ScopedTokens}

variable {id : TokenId}

theorem free_insert (listed : store.Listed) (new : StoredToken)
    (free : new.record.reach.NulFree) {id' : TokenId} {stored : StoredToken}
    (found : (store.tokens.insert id new)[id']? = some stored) :
    stored.record.reach.NulFree := by
  obtain ⟨-, rfl⟩ | ⟨-, found⟩ := of_get_insert found
  · exact free
  · exact listed.free found

theorem absent_of_fresh (listed : store.Listed) (fresh : store.tokens[id]? = none)
    (free : reach.NulFree) :
    store.reaches[reachIndexKey reach id]? = none := by
  refine eq_none_iff_forall_ne_some.mpr fun owner held => ?_
  obtain ⟨i, stored, found, is⟩ := listed.reaches.exact.mp held
  have key := congrArg Prod.fst (Option.some.inj is)
  obtain ⟨-, rfl⟩ := reachIndexKey_inj (listed.free found) free key
  cases fresh.symm.trans found

theorem update (listed : store.Listed) {stored : StoredToken}
    (found : store.tokens[id]? = some stored) (new : StoredToken)
    (same : new.record.reach = stored.record.reach) (verifiers : BTreeMap TokenVerifier TokenId) :
    Listed { store with tokens := store.tokens.insert id new, verifiers } where
  free := listed.free_insert new (same ▸ listed.free found)
  reaches := listed.reaches.update new found (by rw [StoredToken.reachEntry, same]; rfl)

theorem change (listed : store.Listed) {call : TokenCall}
    {installed : Option (TokenId × TokenVerifier)} {withdrawn : Option TokenId}
    (change : TokenChange store call store' installed withdrawn) (free : call.NulFree) :
    store'.Listed := by
  cases change with
  | keeps => exact listed
  | @creates id record verifier fresh unused own live asked =>
    obtain ⟨request, rfl, reach⟩ := asked
    have free : record.reach.NulFree := reach ▸ free
    refine ⟨listed.free_insert { record, verifier } free, ?_⟩
    refine listed.reaches.insert_of_absent { record, verifier } fresh fun {k b} is => ?_
    cases is
    exact listed.absent_of_fresh fresh free
  | rotates found =>
    refine listed.update found _ ?_ _
    rfl
  | revokes found =>
    refine listed.update found _ ?_ _
    rfl

/-! ### Pages of a reach -/

theorem filter_under (listed : store.Listed) (free : reach.NulFree) :
    store.reaches.toList.filter (fun row => Keys.Under (reachPrefix reach) row.1) =
      (store.tokens.toList.filter fun row => row.2.record.reach = reach).map fun row =>
        (reachIndexKey reach row.1, row.1) := by
  have before : (store.tokens.toList.filter fun row => row.2.record.reach = reach).Pairwise
      fun a b => compare a.1 b.1 = .lt :=
    ordered_keys_toList.sublist filter_sublist
  refine List.Pairwise.eq_of_mem_iff (r := fun a b : String × TokenId => a.1 < b.1) ?_ ?_ ?_
  · refine (ordered_keys_toList.sublist filter_sublist).imp fun lt => ?_
    exact compare_lt_iff_lt.mp lt
  · refine pairwise_map.mpr (before.imp fun lt => ?_)
    exact (Keys.append_lt_append_left _ _ _).mpr (compare_lt_iff_lt.mp lt)
  · rintro ⟨key, owner⟩
    rw [List.mem_filter, mem_toList_iff_getElem?_eq_some, listed.reaches.exact,
      decide_eq_true_iff, List.mem_map]
    constructor
    · rintro ⟨⟨id, stored, found, is⟩, under⟩
      cases is
      obtain rfl := (under_reachPrefix_iff free (listed.free found)).mp under
      refine ⟨(owner, stored), List.mem_filter.mpr ⟨?_, decide_eq_true rfl⟩, rfl⟩
      exact mem_toList_iff_getElem?_eq_some.mpr found
    · rintro ⟨⟨id, stored⟩, mem, is⟩
      obtain ⟨mem, its⟩ := List.mem_filter.mp mem
      have its : stored.record.reach = reach := of_decide_eq_true its
      cases is
      refine ⟨⟨id, stored, mem_toList_iff_getElem?_eq_some.mp mem, ?_⟩, Keys.under_append _ _⟩
      rw [StoredToken.reachEntry, its]

theorem aboveStart_le {cursor : Option TokenId} {key : String}
    (above : aboveStart reach cursor key = true) : reachPrefix reach ≤ key := by
  cases cursor with
  | none => exact of_decide_eq_true above
  | some cursor =>
    exact (Keys.le_of_under (Keys.under_append _ cursor)).trans (of_decide_eq_true above).le

theorem aboveStart_reachIndexKey (cursor : Option TokenId) (rows : List (TokenId × StoredToken)) :
    (rows.map fun row => (reachIndexKey reach row.1, row.1)).filter
        (fun row => aboveStart reach cursor row.1) =
      (Paging.after Prod.fst rows cursor).map fun row => (reachIndexKey reach row.1, row.1) := by
  rw [List.filter_map]
  congr 1
  cases cursor with
  | none =>
    refine filter_eq_self.mpr fun row _ => ?_
    exact decide_eq_true (Keys.le_of_under (Keys.under_append _ row.1))
  | some cursor =>
    refine filter_congr fun row _ => ?_
    exact decide_eq_decide.mpr ((Keys.append_lt_append_left _ _ _).trans compare_lt_iff_lt.symm)

theorem collect_eq (listed : store.Listed) (free : reach.NulFree) (cursor : Option TokenId)
    (limit : Nat) :
    store.collect (reachPrefix reach) limit
        (store.reaches.toList.filter fun row => aboveStart reach cursor row.1) =
      ((Paging.after Prod.fst (store.tokens.toList.filter fun row => row.2.record.reach = reach)
        cursor).map (·.2.record)).take (limit + 1) := by
  have ordered : (store.reaches.toList.filter fun row =>
      aboveStart reach cursor row.1).Pairwise fun a b => a.1 < b.1 :=
    (ordered_keys_toList.sublist filter_sublist).imp fun lt =>
      compare_lt_iff_lt.mp lt
  rw [ScopedTokens.collect_eq, Keys.takeWhile_under ordered fun row mem =>
    aboveStart_le (List.mem_filter.mp mem).2, filter_comm, listed.filter_under free,
    aboveStart_reachIndexKey, filterMap_map]
  rw [← List.filterMap_eq_map]
  refine congrArg (List.take _) (filterMap_congr fun row mem => ?_)
  have stored := (List.mem_filter.mp ((after_sublist cursor).mem mem)).1
  rw [Function.comp_apply, getScopedToken, mem_toList_iff_getElem?_eq_some.mp stored]
  rfl

end ScopedTokens.Listed

def ScopedTokens.tokenListing (store : ScopedTokens) (reach : GrantScope) (limit : Nat)
    (cursor : Option TokenId) :
    Except ScopedTokenQueryError (List ScopedTokenRecord × Option TokenId) :=
  (store.listScopedTokens { reach, cursor, limit }).map fun page => (page.tokens, page.nextCursor)

variable {limit : Nat}

theorem ScopedTokens.Listed.tokenListing_eq (listed : store.Listed)
    (consistent : store.Consistent) (free : reach.NulFree)
    (valid : 1 ≤ limit ∧ limit ≤ maxQueryLimit) (cursor : Option TokenId) :
    store.tokenListing reach limit cursor =
      .ok (Paging.cut (·.id) limit (Paging.after (·.id) (store.reachTokens reach) cursor)) := by
  have same : ∀ row ∈ store.tokens.toList.filter (fun row => row.2.record.reach = reach),
      row.2.record.id = row.1 := fun row mem =>
    consistent.own (mem_toList_iff_getElem?_eq_some.mp (List.mem_filter.mp mem).1)
  rw [reachTokens, after_map same, ← cut_take valid.1, ← listed.collect_eq free,
    tokenListing, listScopedTokens, if_pos valid]
  rfl

theorem ScopedTokens.Listed.walk_eq (listed : store.Listed)
    (consistent : store.Consistent) (free : reach.NulFree)
    (valid : 1 ≤ limit ∧ limit ≤ maxQueryLimit) {fuel : Nat}
    (enough : (store.reachTokens reach).length < fuel) :
    Paging.walk (store.tokenListing reach limit) fuel none = .ok (store.reachTokens reach) := by
  have ordered : (store.reachTokens reach).Pairwise fun a b => compare a.id b.id = .lt := by
    refine pairwise_map.mpr ((ordered_keys_toList.sublist
      filter_sublist).imp_of_mem fun {a b} ha hb lt => ?_)
    rw [consistent.own (mem_toList_iff_getElem?_eq_some.mp (List.mem_filter.mp ha).1),
      consistent.own (mem_toList_iff_getElem?_eq_some.mp (List.mem_filter.mp hb).1)]
    exact lt
  have pages : Paging.Pages (store.tokenListing reach limit)
      (Paging.after (·.id) (store.reachTokens reach)) :=
    pages_of_cut ordered valid.1 fun {cursor answer} given =>
      Except.ok.inj (given.symm.trans (listed.tokenListing_eq consistent free valid cursor))
  exact pages.walk_eq_ok (fun cursor => ⟨_, listed.tokenListing_eq consistent free valid cursor⟩)
    enough

theorem tokensAfter_listed (calls : List TokenCall) (fresh : FreshIds calls)
    (free : ∀ call ∈ calls, call.NulFree) : (tokensAfter calls).Listed :=
  exec_invariant tokenStep (fun _ _ listed meets =>
    ScopedTokens.Listed.change listed (tokenStep_change meets.1) meets.2) _ calls
    ⟨fun found => (by cases (get_empty _).symm.trans found), Indexes.empty⟩
    (along_and tokenStep _ calls fresh
      (along_of_forall tokenStep _ calls fun call mem _ => free call mem))

/-! ## Exactness -/

/-- **Scoped tokens are exact.** A call succeeds where it is granted, and the record of
a token is what the successful requests say. A presented secret verifies as a
token's record exactly when the latest creation or rotation of that token
installed its verifier, and the token is neither revoked nor expired; a withdrawn
verifier does not verify until a call installs it again; and the pages of a reach
go through its tokens in id order, if names are without NUL. -/
theorem scoped_tokens_are_exact {Secret : Type} (digest : Secret → TokenVerifier)
    (calls : List TokenCall) (fresh : FreshIds calls) :
    (∀ before call later, calls = before ++ call :: later →
      ((installs (call, Machine.answer tokenStep (tokensAfter before) call)).isSome ∨
          (revokes (call, Machine.answer tokenStep (tokensAfter before) call)).isSome ↔
        Granted (tokenHistory before) call)) ∧
    (∀ id, (tokensAfter calls).getScopedToken id = issued (tokenHistory calls) id) ∧
    (∀ presented now record,
      (tokensAfter calls).verifyScopedToken digest presented now = some record ↔
        ∃ id, latestVerifier (tokenHistory calls) id = some (digest presented) ∧
          isRevoked (tokenHistory calls) id = false ∧
          (tokensAfter calls).getScopedToken id = some record ∧ record.id = id ∧
          record.expiresAt.all (now < ·) = true) ∧
    (∀ before call later presented, calls = before ++ call :: later →
      Withdraws (tokenHistory before)
        (call, Machine.answer tokenStep (tokensAfter before) call) (digest presented) →
      (∀ event ∈ Machine.transcript tokenStep (tokensAfter (before ++ [call])) later,
        ∀ id, installs event ≠ some (id, digest presented)) →
      ∀ now, (tokensAfter calls).verifyScopedToken digest presented now = none) ∧
    ((∀ call ∈ calls, call.NulFree) → ∀ reach limit fuel, reach.NulFree →
      1 ≤ limit ∧ limit ≤ maxQueryLimit →
      ((tokensAfter calls).reachTokens reach).length < fuel →
      Paging.walk ((tokensAfter calls).tokenListing reach limit) fuel none =
        .ok ((tokensAfter calls).reachTokens reach)) := by
  have consistent := tokensAfter_consistent calls fresh
  have tracks := tracks_tokensAfter calls fresh
  refine ⟨fun before call later split => ?_, getScopedToken_tokensAfter calls,
    fun presented now record => ?_, fun before call later presented split withdraws others
    now => ?_, fun free reach limit fuel listed valid enough =>
      (tokensAfter_listed calls fresh free).walk_eq consistent listed valid enough⟩
  · subst split
    have earlier := ((along_append tokenStep {} before _).mp fresh).1
    exact (tracks_tokensAfter before earlier).succeeds_iff
      (tokensAfter_consistent before earlier) call
  · rw [consistent.verifyScopedToken_iff]
    refine exists_congr fun id => ?_
    rw [← tracks.verifier id, ← tracks.revoked id, ScopedTokens.getScopedToken]
    cases found : (tokensAfter calls).tokens[id]? with
    | none => simp
    | some stored =>
      have own := consistent.own found
      simp only [Option.some.injEq, exists_eq_left', map_some, any_some]
      constructor
      · rintro ⟨verifier, live, rfl⟩
        obtain ⟨unrevoked, unexpired⟩ := Bool.and_eq_true_iff.mp live
        exact ⟨verifier, by simpa using unrevoked, rfl, own, unexpired⟩
      · rintro ⟨verifier, unrevoked, rfl, -, unexpired⟩
        exact ⟨verifier, Bool.and_eq_true_iff.mpr ⟨by simpa using unrevoked, unexpired⟩, rfl⟩
  · subst split
    obtain ⟨earlier, ⟨drawn, along⟩⟩ := (along_append tokenStep {} before _).mp fresh
    have gone := absent_of_withdraws (tokensAfter_consistent before earlier)
      (tracks_tokensAfter before earlier) (tokenStep_change drawn) withdraws
    have reached : tokensAfter (before ++ [call]) =
        Machine.next tokenStep (tokensAfter before) call := by
      rw [tokensAfter, exec_append]
      rfl
    rw [reached] at others
    have absent : (exec tokenStep (Machine.next tokenStep (tokensAfter before) call)
        later).verifiers[digest presented]? = none := absent_exec along others gone
    have whole : tokensAfter (before ++ call :: later) =
        exec tokenStep (Machine.next tokenStep (tokensAfter before) call) later := by
      rw [tokensAfter, exec_append]
      rfl
    rw [whole, ScopedTokens.verifyScopedToken, absent]

namespace Rotation

def request (name : String) (verifier : TokenVerifier) : NewScopedToken where
  name
  reach := .repository name
  actions := {.read}
  expiresAt := some 10
  verifier
  createdBy := "usr_1"
  createdAtUnix := 0

def calls : List TokenCall :=
  [.create "tok_1" (request "root" "old"), .rotate "tok_1" "new"]

/-- After a rotation the new secret verifies until the expiry, the old one does
not, and the token is listed under its repository. -/
theorem rotated_token_verifies :
    ((tokensAfter calls).verifyScopedToken id "new" 9).isSome = true ∧
      (tokensAfter calls).verifyScopedToken id "old" 9 = none ∧
      Paging.walk ((tokensAfter calls).tokenListing (.repository "root") 1) 2 none =
        .ok ((tokensAfter calls).reachTokens (.repository "root")) := by
  have fresh : FreshIds calls := ⟨get_empty _, trivial, trivial⟩
  obtain ⟨-, -, verifies, withdrawn, lists⟩ := scoped_tokens_are_exact id calls fresh
  refine ⟨?_, ?_, ?_⟩
  · obtain ⟨record, is⟩ : ∃ record, (tokensAfter calls).getScopedToken "tok_1" = some record :=
      isSome_iff_exists.mp (by decide +kernel)
    have unexpired : ∀ record, (tokensAfter calls).getScopedToken "tok_1" = some record →
        record.id = "tok_1" ∧ record.expiresAt.all (9 < ·) = true := by decide +kernel
    rw [(verifies "new" 9 record).mpr
      ⟨"tok_1", by decide +kernel, by decide +kernel, is, unexpired record is⟩]
    rfl
  · refine withdrawn [.create "tok_1" (request "root" "old")] (.rotate "tok_1" "new") [] "old" rfl
      ⟨"tok_1", by decide +kernel, .inr ⟨"new", by decide, by decide +kernel⟩⟩ ?_ 9
    exact fun _ mem => absurd mem not_mem_nil
  · exact lists (by decide) (.repository "root") 1 2 (by decide) (by decide) (by decide +kernel)

/-- A token of a repository whose name has a NUL is listed under another. -/
theorem nul_name_listed_elsewhere :
    FreshIds [.create "tok_1" (request "root\x00child" "v")] ∧
      ∃ page, (tokensAfter [.create "tok_1" (request "root\x00child" "v")]).listScopedTokens
          { reach := .repository "root", cursor := none, limit := 1 } = .ok page ∧
        ∃ record ∈ page.tokens, record.reach ≠ .repository "root" :=
  ⟨⟨get_empty _, trivial⟩, _, rfl, by decide +kernel⟩

end Rotation

end Peryx.Identity
