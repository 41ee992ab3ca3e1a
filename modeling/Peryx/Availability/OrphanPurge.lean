import Peryx.Availability.References
import Peryx.Ownership.State

/-!
# Purging orphaned blobs

A confirmed purge (`peryx-ha-distributed/src/reclaim_guard.rs`) deletes the
blobs no row references while commits go on. It owns a lock for as long as it
runs; a commit tries that lock before its transaction and, without it, is
refused any digest that has a guard.

The placement projection, which arming and disarming also write, is left out:
nothing here reads it.

- `step_moves`: what one step can do to a purge and to the store.
- `purge_spares_references`: no blob that a row references is deleted.
-/

namespace Peryx

open Machine BTreeMap List Peryx.Except Std.ExtTreeMap

variable {Bytes : Type}

def reclaimGuardLeaseSecs : Int64 := 300

/-- The expiry of every guard a purge called at `now` arms. -/
def guardExpiry (now : Int64) : Int64 := now.saturatingAdd reclaimGuardLeaseSecs

structure BlobWalk where
  digests : List String
  nodup : digests.Nodup

def BlobWalk.filter (walk : BlobWalk) (keeps : String → Bool) : BlobWalk where
  digests := walk.digests.filter keeps
  nodup := walk.nodup.filter keeps

def MetaStore.compareAndDisarmReclaimGuard (store : MetaStore Bytes) (digest : String)
    (expiresAtUnix : Int64) : MetaStore Bytes × Bool :=
  if store.reclaimGuards[digest]? = some expiresAtUnix then
    ({ store with reclaimGuards := store.reclaimGuards.erase digest }, true)
  else (store, false)

/-- `purge_orphaned_blobs` between two accesses to the store. -/
inductive PurgePhase (Bytes : Type) where
  | waiting
  | listing (scan : ReferenceScan Bytes)
  | releasing (candidates : BlobWalk)
  | disarmingExpired (candidates : BlobWalk) (left : List (String × Int64))
  | reading (candidates : BlobWalk)
  | scanning (candidates : BlobWalk) (scan : ReferenceScan Bytes)
  | deleting (selected : BlobWalk)
  | disarming (digest : String) (rest : List String) (nodup : (digest :: rest).Nodup)
  | ended

/-- Who holds `reclaim_ownership`. -/
inductive ReclaimOwner where
  | purge
  | commit (worker : Nat)
deriving DecidableEq

/-- A purge and the commits that run beside it. -/
structure Purging (Bytes : Type) where
  metadata : MetaStore Bytes
  owner : Option ReclaimOwner := none
  /-- The commits in flight, and whether each got the lock. -/
  commits : BTreeMap Nat Bool := ∅
  phase : PurgePhase Bytes := .waiting

inductive PurgeInput where
  | proceed
  | scanned (others : Finset String)
  | visited (walk : BlobWalk)

/-- What happens next: a commit tries the lock, a commit runs its transaction
(its body's calls, then its own error or the payloads it journals), the purge
goes on, or the purge fails (a scan, store or blob error). -/
inductive PurgeStep (Bytes : Type) where
  | tryLock (worker : Nat)
  | commit (worker : Nat) (ops : List (DriverOp Bytes)) (outcome : Except MetaError (List Bytes))
    (clock : Int64)
  | purge (input : PurgeInput)
  | fail

inductive PurgeEvent where
  | quiet
  | committed (worker : Nat)
  | refused (worker : Nat) (error : MetaError)
  | armed (digests : List String)
  | deleted (digest : String)
  | disarmed (digest : String)
  | failed
deriving DecidableEq

namespace Purging

def leave (state : Purging Bytes) (worker : Nat) : Purging Bytes :=
  { state with
    commits := state.commits.erase worker
    owner := if state.owner = some (.commit worker) then none else state.owner }

def enter (state : Purging Bytes) (phase : PurgePhase Bytes) : Purging Bytes :=
  { state with phase }

def finish (state : Purging Bytes) : Purging Bytes :=
  { state with phase := .ended, owner := none }

/-- Arms the candidates that a complete scan does not name. -/
def arm (now : Int64) (state : Purging Bytes) (candidates : BlobWalk)
    (scan : ReferenceScan Bytes) : Purging Bytes × PurgeEvent :=
  let digests := candidates.filter (· ∉ scan.digests)
  match state.metadata.compareAndArmReclaimGuards digests.digests scan.revision now
    (guardExpiry now) with
  | (_, .referencesMoved) => (state.enter (.reading candidates), .quiet)
  | (metadata, .armed armed) =>
    ({ state with metadata }.enter (.deleting (candidates.filter (· ∈ armed))), .armed armed)

def purgeStep (inventory : Inventory Bytes) (now : Int64) (state : Purging Bytes)
    (input : PurgeInput) : Purging Bytes × PurgeEvent :=
  match state.phase, input with
  | .waiting, .proceed =>
    match state.owner with
    | some _ => (state, .quiet)
    | none =>
      let scan := ReferenceScan.start inventory state.metadata
      ({ state with owner := some .purge }.enter (.listing scan), .quiet)
  | .listing scan, .scanned others =>
    match scan.left with
    | [] => (state, .quiet)
    | part :: left =>
      (state.enter (.listing (scan.read part left state.metadata others)), .quiet)
  | .listing scan, .visited walk =>
    match scan.left with
    | _ :: _ => (state, .quiet)
    | [] => (state.enter (.releasing (walk.filter (· ∉ scan.digests))), .quiet)
  | .releasing candidates, .proceed =>
    (state.enter (.disarmingExpired candidates state.metadata.reclaimGuards.toList), .quiet)
  | .disarmingExpired candidates [], .proceed => (state.enter (.reading candidates), .quiet)
  | .disarmingExpired candidates ((digest, expiresAtUnix) :: left), .proceed =>
    let metadata :=
      if expiresAtUnix ≤ now then
        (state.metadata.compareAndDisarmReclaimGuard digest expiresAtUnix).1
      else state.metadata
    ({ state with metadata }.enter (.disarmingExpired candidates left), .quiet)
  | .reading candidates, .proceed =>
    (state.enter (.scanning candidates (.start inventory state.metadata)), .quiet)
  | .scanning candidates scan, .scanned others =>
    match scan.left with
    | [] => (state, .quiet)
    | part :: left =>
      (state.enter (.scanning candidates (scan.read part left state.metadata others)), .quiet)
  | .scanning candidates scan, .proceed =>
    match scan.left with
    | _ :: _ => (state, .quiet)
    | [] => arm now state candidates scan
  | .deleting ⟨[], _⟩, .proceed => (state.finish, .quiet)
  | .deleting ⟨digest :: rest, nodup⟩, .proceed =>
    (state.enter (.disarming digest rest nodup), .deleted digest)
  | .disarming digest rest nodup, .proceed =>
    let (metadata, _) :=
      state.metadata.compareAndDisarmReclaimGuard digest (guardExpiry now)
    ({ state with metadata }.enter (.deleting ⟨rest, (nodup_cons.mp nodup).2⟩), .disarmed digest)
  | _, _ => (state, .quiet)

def step (inventory : Inventory Bytes) (now : Int64) (state : Purging Bytes) :
    PurgeStep Bytes → Purging Bytes × PurgeEvent
  | .tryLock worker =>
    match state.commits[worker]?, state.owner with
    | some _, _ => (state, .quiet)
    | none, none =>
      ({ state with
        commits := state.commits.insert worker true
        owner := some (.commit worker) }, .quiet)
    | none, some _ => ({ state with commits := state.commits.insert worker false }, .quiet)
  | .commit worker ops outcome clock =>
    match state.commits[worker]? with
    | none => (state, .quiet)
    | some holds =>
      match state.metadata.commitDriverTxnWithJournal id none clock (!holds) fun txn =>
        outcome.map fun payloads => (txn.performAll ops, .payloads payloads) with
      | .ok (metadata, _) => ({ state with metadata }.leave worker, .committed worker)
      | .error error => (state.leave worker, .refused worker error)
  | .purge input => purgeStep inventory now state input
  | .fail =>
    match state.phase with
    | .waiting | .ended => (state, .quiet)
    | _ => (state.finish, .failed)

end Purging

/-! ## What a commit and an arming do to guards -/

namespace DriverTxn

variable {blob : DriverBlobReference}

theorem perform_blobs (txn : DriverTxn Bytes) (op : DriverOp Bytes)
    (declared : blob ∈ txn.blobs ∨ op = .referenceBlob blob.sha256 blob.size) :
    blob ∈ (txn.perform op).blobs := by
  cases op with
  | referenceBlob sha256 size =>
    refine Std.ExtTreeSet.mem_insert.mpr ?_
    obtain declared | declared := declared
    · exact .inr declared
    · cases declared
      exact .inl Std.ReflCmp.compare_self
  | remove key =>
    obtain declared | declared := declared
    · simp only [perform, remove]
      split <;> exact declared
    · cases declared
  | put | upsert | putLocal | upsertLocal | removeLocal =>
    obtain declared | declared := declared
    · exact declared
    · cases declared

/-- **Run.** A body's transaction holds every reference the body declared. -/
theorem performAll_blobs {ops : List (DriverOp Bytes)}
    {txn : DriverTxn Bytes}
    (declared : blob ∈ txn.blobs ∨ .referenceBlob blob.sha256 blob.size ∈ ops) :
    blob ∈ (txn.performAll ops).blobs := by
  induction ops generalizing txn with
  | nil => exact declared.resolve_right not_mem_nil
  | cons op ops ih =>
    refine ih ?_
    obtain declared | declared := declared
    · exact .inl (perform_blobs txn op (.inl declared))
    · obtain here | later := mem_cons.mp declared
      · exact .inl (perform_blobs txn op (.inr here.symm))
      · exact .inr later

end DriverTxn

theorem checkBlobReclaimGuard_active {guards guards' : BTreeMap String Int64} {clock : Int64} :
    ∀ {blobs : List DriverBlobReference},
      checkBlobReclaimGuard guards none blobs clock true = .ok guards' →
        guards' = guards ∧ ∀ blob ∈ blobs, guards[blob.sha256]? = none
  | [], passed => by
    cases passed
    exact ⟨rfl, fun _ mem => absurd mem not_mem_nil⟩
  | blob :: blobs, passed => by
    obtain ⟨kept, here, passed⟩ := bind_eq_ok.mp passed
    dsimp only at here
    cases held : guards[blob.sha256]? with
    | some expiresAtUnix =>
      rw [held] at here
      cases here
    | none =>
      rw [held] at here
      cases here
      obtain ⟨same, rest⟩ := checkBlobReclaimGuard_active passed
      refine ⟨same, fun other mem => ?_⟩
      obtain rfl | mem := mem_cons.mp mem
      · exact held
      · exact rest other mem

/-- A commit: it leaves guards alone and references nothing guarded. -/
structure CommitsBeside (before : MetaStore Bytes) (ops : List (DriverOp Bytes))
    (after : MetaStore Bytes) : Prop where
  rows : after.driverKv = (before.beginWrite.performAll ops).table
  moves : RowsMove before after
  guards : after.reclaimGuards = before.reclaimGuards
  unguarded : ∀ digest size, .referenceBlob digest size ∈ ops →
    before.reclaimGuards[digest]? = none

theorem commit_beside {metadata metadata' : MetaStore Bytes} {ops : List (DriverOp Bytes)}
    {outcome : Except MetaError (List Bytes)} {clock : Int64} {serial : Option Nat}
    (committed : metadata.commitDriverTxnWithJournal id none clock true (fun txn =>
      outcome.map fun payloads => (txn.performAll ops, .payloads payloads)) =
        .ok (metadata', serial)) : CommitsBeside metadata ops metadata' := by
  cases outcome with
  | error error => cases committed
  | ok payloads =>
    have moves := rowsMove_commit committed
    obtain ⟨_, -, committed⟩ := bind_eq_ok.mp committed
    obtain ⟨_, ran, committed⟩ := bind_eq_ok.mp committed
    obtain ⟨guards, passed, committed⟩ := bind_eq_ok.mp committed
    cases ran
    cases committed
    obtain ⟨same, unguarded⟩ := checkBlobReclaimGuard_active (mapError_eq_ok.mp passed)
    refine ⟨rfl, moves, same, fun digest size declared => ?_⟩
    have staged : ⟨digest, size⟩ ∈ (metadata.beginWrite.performAll ops).blobs :=
      DriverTxn.performAll_blobs (.inr declared)
    exact unguarded ⟨digest, size⟩ (Std.ExtTreeSet.mem_toList.mpr staged)

/-- Guards are armed at a revision that stands; rows stay. -/
structure Arms (before : MetaStore Bytes) (digests : List String) (revision : Nat)
    (expiresAtUnix : Int64) (after : MetaStore Bytes) (armed : List String) : Prop where
  stands : before.referenceRevision = revision
  rows : after.driverKv = before.driverKv
  among : armed ⊆ digests
  guarded : ∀ digest ∈ armed, after.reclaimGuards[digest]? = some expiresAtUnix

theorem arm_guards (now expiresAtUnix : Int64) (digests : List String) :
    ∀ (guards : BTreeMap String Int64) (armed : List String),
      (∀ digest ∈ armed, guards[digest]? = some expiresAtUnix) →
      let result := digests.foldl (fun (guards, armed) digest =>
        match guards[digest]? with
        | none => (guards.insert digest expiresAtUnix, armed ++ [digest])
        | some held =>
          if held ≤ now then (guards.insert digest expiresAtUnix, armed ++ [digest])
          else (guards, armed)) (guards, armed)
      result.2 ⊆ armed ++ digests ∧
        ∀ digest ∈ result.2, result.1[digest]? = some expiresAtUnix := by
  induction digests with
  | nil => exact fun guards armed guarded => ⟨subset_append_left _ _, guarded⟩
  | cons digest digests ih =>
    intro guards armed guarded
    -- whichever way the digest is armed, its guard expires like the others
    have inserted : ∀ other ∈ armed ++ [digest],
        (guards.insert digest expiresAtUnix)[other]? = some expiresAtUnix := by
      intro other mem
      by_cases same : digest = other
      · rw [same, get_insert_self]
      · rw [get_insert_of_ne guards expiresAtUnix same]
        refine guarded other ((mem_append.mp mem).resolve_right fun mem => ?_)
        exact same (mem_singleton.mp mem).symm
    have arms := ih (guards.insert digest expiresAtUnix) (armed ++ [digest]) inserted
    rw [append_assoc, singleton_append] at arms
    have skips := ih guards armed guarded
    have wider : armed ++ digests ⊆ armed ++ digest :: digests :=
      append_subset.mpr ⟨subset_append_left _ _,
        List.Subset.trans (subset_cons_self _ _) (subset_append_right _ _)⟩
    rw [foldl_cons]
    dsimp only
    split
    · exact arms
    · split
      · exact arms
      · exact ⟨List.Subset.trans skips.1 wider, skips.2⟩

theorem arms_of_compareAndArm {metadata metadata' : MetaStore Bytes} {digests armed : List String}
    {revision : Nat} {now expiresAtUnix : Int64}
    (answer : metadata.compareAndArmReclaimGuards digests revision now expiresAtUnix =
      (metadata', .armed armed)) :
    Arms metadata digests revision expiresAtUnix metadata' armed := by
  unfold MetaStore.compareAndArmReclaimGuards at answer
  split at answer
  · cases answer
  · rename_i stands
    cases answer
    obtain ⟨among, guarded⟩ := arm_guards now expiresAtUnix digests metadata.reclaimGuards []
      fun _ mem => absurd mem not_mem_nil
    exact ⟨not_not.mp stands, rfl, among, guarded⟩

/-! ## The invariant -/

/-- The digests whose guards a phase holds. -/
def PurgePhase.held : PurgePhase Bytes → List String
  | .deleting selected => selected.digests
  | .disarming digest rest _ => digest :: rest
  | _ => []

def PurgePhase.Runs : PurgePhase Bytes → Prop
  | .waiting | .ended => False
  | _ => True

def PurgePhase.scan : PurgePhase Bytes → Option (ReferenceScan Bytes)
  | .scanning _ scan => some scan
  | _ => none

/-- The digest is guarded by this purge, and nothing references it. -/
structure Held (inventory : Inventory Bytes) (now : Int64) (metadata : MetaStore Bytes)
    (digest : String) : Prop where
  guarded : metadata.reclaimGuards[digest]? = some (guardExpiry now)
  unreferenced : ¬ Referenced inventory metadata.driverKv digest

/-- What a phase knows of the metadata. -/
structure PurgePhase.Sound (inventory : Inventory Bytes) (now : Int64)
    (metadata : MetaStore Bytes) (phase : PurgePhase Bytes) : Prop where
  scan : ∀ scan, phase.scan = some scan → scan.Sound inventory metadata
  held : ∀ digest ∈ phase.held, Held inventory now metadata digest

namespace Purging

structure Sound (inventory : Inventory Bytes) (now : Int64) (state : Purging Bytes) : Prop where
  phase : state.phase.Sound inventory now state.metadata
  owned : state.phase.Runs → state.owner = some .purge
  locked : ∀ worker, state.commits[worker]? = some true → state.owner = some (.commit worker)

/-- A commit declares the references it adds. -/
def Declares (inventory : Inventory Bytes) (state : Purging Bytes) : PurgeStep Bytes → Prop
  | .commit _ ops _ _ => ∀ digest,
    Referenced inventory (state.metadata.beginWrite.performAll ops).table digest →
      Referenced inventory state.metadata.driverKv digest ∨
        ∃ size, .referenceBlob digest size ∈ ops
  | _ => True

end Purging

variable {inventory : Inventory Bytes} {now : Int64} {metadata metadata' : MetaStore Bytes}

variable {phase : PurgePhase Bytes}

namespace PurgePhase

theorem sound_of_free (scan : phase.scan = none)
    (held : phase.held = []) : phase.Sound inventory now metadata where
  scan _ found := absurd (scan.symm.trans found) nofun
  held _ mem := absurd (held ▸ mem) not_mem_nil

theorem sound_of_not_runs (idle : ¬ phase.Runs) :
    phase.Sound inventory now metadata := by
  cases phase with
  | waiting | ended => exact sound_of_free rfl rfl
  | _ => exact absurd trivial idle

theorem Sound.commit (sound : phase.Sound inventory now metadata)
    {ops : List (DriverOp Bytes)} (commits : CommitsBeside metadata ops metadata')
    (declares : ∀ digest, Referenced inventory (metadata.beginWrite.performAll ops).table digest →
      Referenced inventory metadata.driverKv digest ∨ ∃ size, .referenceBlob digest size ∈ ops) :
    phase.Sound inventory now metadata' where
  scan scan found := (sound.scan scan found).move commits.moves
  held digest mem := by
    have held := sound.held digest mem
    refine ⟨commits.guards ▸ held.guarded, fun referenced => ?_⟩
    rw [commits.rows] at referenced
    obtain before | ⟨size, declared⟩ := declares digest referenced
    · exact held.unreferenced before
    · exact nomatch held.guarded.symm.trans (commits.unguarded digest size declared)

end PurgePhase

namespace Purging

variable {state : Purging Bytes}

/-- Everything a step from a sound state does that matters to a held digest. -/
structure Moves (inventory : Inventory Bytes) (now : Int64) (state : Purging Bytes)
    (result : Purging Bytes × PurgeEvent) : Prop where
  sound : result.1.Sound inventory now
  deleted : ∀ digest, result.2 = .deleted digest → digest ∈ state.phase.held
  armed : ∀ digests, result.2 = .armed digests → digests ⊆ result.1.phase.held
  kept : ∀ digest ∈ state.phase.held, result.2 ≠ .disarmed digest → result.2 ≠ .failed →
    digest ∈ result.1.phase.held
  refused : ∀ worker error, result.2 = .refused worker error →
    result.1.metadata = state.metadata

theorem Moves.quiet {after : Purging Bytes} (sound : after.Sound inventory now)
    (kept : state.phase.held ⊆ after.phase.held) :
    Moves inventory now state (after, .quiet) where
  sound := sound
  deleted _ := nofun
  armed _ := nofun
  kept _ mem _ _ := kept mem
  refused _ _ := nofun

section

variable (sound : state.Sound inventory now)

include sound

theorem Sound.quiet :
    Moves inventory now state (state, .quiet) :=
  .quiet sound (List.Subset.refl _)

theorem Sound.enter (runs : state.phase.Runs) (knows : phase.Sound inventory now metadata) :
    ({ state with metadata }.enter phase).Sound inventory now where
  phase := knows
  owned _ := sound.owned runs
  locked := sound.locked

theorem Sound.finish (runs : state.phase.Runs) :
    state.finish.Sound inventory now where
  phase := PurgePhase.sound_of_free rfl rfl
  owned := nofun
  locked worker found := nomatch (sound.owned runs).symm.trans (sound.locked worker found)

theorem arm_moves {candidates : BlobWalk}
    {scan : ReferenceScan Bytes} (scanning : state.phase = .scanning candidates scan)
    (done : scan.left = []) : Moves inventory now state (arm now state candidates scan) := by
  have runs : state.phase.Runs := by
    rw [scanning]
    trivial
  have none : state.phase.held = [] := by
    rw [scanning]
    rfl
  unfold arm
  dsimp only
  split
  · refine .quiet (sound.enter runs (PurgePhase.sound_of_free rfl rfl)) ?_
    exact none ▸ nil_subset _
  · rename_i metadata armed answer
    have arms := arms_of_compareAndArm answer
    have covers := (sound.phase.scan scan (by rw [scanning]; rfl)).covers done
    have held : ∀ digest ∈ armed, Held inventory now metadata digest := by
      intro digest mem
      have missed := (List.mem_filter.mp (arms.among mem)).2
      refine ⟨arms.guarded digest mem, arms.rows ▸ covers.referenced arms.stands ?_⟩
      exact of_decide_eq_true missed
    constructor
    case sound =>
      refine sound.enter runs ⟨nofun, fun digest mem => held digest ?_⟩
      exact of_decide_eq_true (List.mem_filter.mp mem).2
    case deleted => exact fun _ => nofun
    case armed =>
      intro digests same digest mem
      cases same
      refine List.mem_filter.mpr ⟨?_, decide_eq_true mem⟩
      exact (List.mem_filter.mp (arms.among mem)).1
    case kept =>
      rw [none]
      exact fun digest mem => absurd mem not_mem_nil
    case refused => exact fun _ _ => nofun

theorem Sound.free (metadata : MetaStore Bytes)
    (runs : state.phase.Runs) (none : state.phase.held = []) (unscanned : phase.scan = .none)
    (unheld : phase.held = []) :
    Moves inventory now state ({ state with metadata }.enter phase, .quiet) :=
  .quiet (sound.enter runs (PurgePhase.sound_of_free unscanned unheld)) (none ▸ nil_subset _)

end

variable {digest : String}

theorem Held.disarm {other : String} {expiresAtUnix : Int64}
    (held : Held inventory now metadata other) (ne : digest ≠ other) :
    Held inventory now (metadata.compareAndDisarmReclaimGuard digest expiresAtUnix).1 other := by
  unfold MetaStore.compareAndDisarmReclaimGuard
  split
  · refine ⟨?_, held.unreferenced⟩
    exact (get_erase_of_ne _ ne).trans held.guarded
  · exact held

section

variable (sound : state.Sound inventory now)

include sound

/-- **Step.** The purge itself. -/
theorem purgeStep_moves (input : PurgeInput) :
    Moves inventory now state (purgeStep inventory now state input) := by
  obtain ⟨metadata, owner, commits, phase⟩ := state
  cases phase with
  | waiting =>
    cases input with
    | proceed =>
      cases owner with
      | some owner => exact sound.quiet
      | none =>
        refine .quiet ⟨PurgePhase.sound_of_free rfl rfl, fun _ => rfl, ?_⟩ (nil_subset _)
        exact fun worker found => nomatch sound.locked worker found
    | scanned | visited => exact sound.quiet
  | listing scan =>
    cases input with
    | proceed => exact sound.quiet
    | scanned | visited =>
      unfold purgeStep
      dsimp only
      split
      · exact sound.quiet
      · exact sound.free _ trivial rfl rfl rfl
  | releasing candidates =>
    cases input with
    | proceed => exact sound.free _ trivial rfl rfl rfl
    | scanned | visited => exact sound.quiet
  | disarmingExpired candidates left =>
    cases input with
    | proceed => cases left <;> exact sound.free _ trivial rfl rfl rfl
    | scanned | visited => cases left <;> exact sound.quiet
  | reading candidates =>
    cases input with
    | proceed =>
      refine .quiet (sound.enter trivial ⟨?_, nofun⟩) (nil_subset _)
      rintro _ ⟨⟩
      exact ReferenceScan.sound_start inventory metadata
    | scanned | visited => exact sound.quiet
  | scanning candidates scan =>
    cases input with
    | proceed =>
      unfold purgeStep
      dsimp only
      split
      · exact sound.quiet
      · rename_i done
        exact arm_moves sound rfl done
    | scanned others =>
      unfold purgeStep
      dsimp only
      split
      · exact sound.quiet
      · rename_i next
        refine .quiet (sound.enter trivial ⟨?_, nofun⟩) (nil_subset _)
        rintro _ ⟨⟩
        exact (sound.phase.scan scan rfl).read next others
    | visited => exact sound.quiet
  | deleting selected =>
    obtain ⟨digests, nodup⟩ := selected
    cases input with
    | proceed =>
      cases digests with
      | nil => exact .quiet (sound.finish trivial) (nil_subset _)
      | cons digest rest =>
        constructor
        case sound => exact sound.enter trivial ⟨nofun, sound.phase.held⟩
        case deleted =>
          rintro _ ⟨⟩
          exact mem_cons_self
        case armed => exact fun _ => nofun
        case kept => exact fun _ mem _ _ => mem
        case refused => exact fun _ _ => nofun
    | scanned | visited => cases digests <;> exact sound.quiet
  | disarming digest rest nodup =>
    cases input with
    | proceed =>
      constructor
      case sound =>
        refine sound.enter trivial ⟨nofun, fun other mem => ?_⟩
        refine Held.disarm (sound.phase.held other (mem_cons_of_mem digest mem)) ?_
        rintro rfl
        exact (nodup_cons.mp nodup).1 mem
      case deleted => exact fun _ => nofun
      case armed => exact fun _ => nofun
      case kept =>
        intro other mem still _
        refine (mem_cons.mp mem).resolve_left ?_
        rintro rfl
        exact still rfl
      case refused => exact fun _ _ => nofun
    | scanned | visited => exact sound.quiet
  | ended => cases input <;> exact sound.quiet

/-! ## Commits beside the purge -/

variable {worker : Nat}

theorem Sound.idle (holds : state.commits[worker]? = some true) : ¬ state.phase.Runs := by
  intro runs
  have owner := sound.locked worker holds
  exact nomatch owner.symm.trans (sound.owned runs)

theorem Sound.leave (worker : Nat) (knows : state.phase.Sound inventory now metadata) :
    ({ state with metadata }.leave worker).Sound inventory now where
  phase := knows
  owned runs := by
    have owner := sound.owned runs
    unfold Purging.leave
    rw [owner, if_neg nofun]
  locked other found := by
    unfold Purging.leave at found ⊢
    by_cases same : worker = other
    · rw [same, get_erase_self] at found
      cases found
    · rw [get_erase_of_ne _ same] at found
      have owner := sound.locked other found
      rw [owner, if_neg]
      rintro ⟨⟩
      exact same rfl

theorem tryLock_moves (worker : Nat) :
    Moves inventory now state (step inventory now state (.tryLock worker)) := by
  obtain ⟨metadata, owner, commits, phase⟩ := state
  unfold step
  dsimp only
  split
  · exact sound.quiet
  · refine .quiet ⟨sound.phase, fun runs => absurd (sound.owned runs) nofun, ?_⟩
      (List.Subset.refl _)
    intro other found
    by_cases same : worker = other
    · rw [same]
    · rw [get_insert_of_ne _ _ same] at found
      exact nomatch sound.locked other found
  · refine .quiet ⟨sound.phase, sound.owned, ?_⟩ (List.Subset.refl _)
    intro other found
    by_cases same : worker = other
    · rw [same, get_insert_self] at found
      cases found
    · rw [get_insert_of_ne _ _ same] at found
      exact sound.locked other found

theorem commit_moves
    {ops : List (DriverOp Bytes)} {outcome : Except MetaError (List Bytes)} {clock : Int64}
    (declares : Declares inventory state (.commit worker ops outcome clock)) :
    Moves inventory now state (step inventory now state (.commit worker ops outcome clock)) := by
  unfold step
  dsimp only
  split
  · exact sound.quiet
  · rename_i holds entered
    split
    · rename_i metadata serial committed
      have knows : state.phase.Sound inventory now metadata := by
        cases holds with
        | true => exact PurgePhase.sound_of_not_runs (sound.idle entered)
        | false => exact sound.phase.commit (commit_beside committed) declares
      exact
        { sound := sound.leave worker knows
          deleted := fun _ => nofun
          armed := fun _ => nofun
          kept := fun _ mem _ _ => mem
          refused := fun _ _ => nofun }
    · exact
        { sound := sound.leave worker sound.phase
          deleted := fun _ => nofun
          armed := fun _ => nofun
          kept := fun _ mem _ _ => mem
          refused := fun _ _ _ => rfl }

theorem fail_moves :
    Moves inventory now state (step inventory now state .fail) := by
  have failed (runs : state.phase.Runs) : Moves inventory now state (state.finish, .failed) :=
    { sound := sound.finish runs
      deleted := fun _ => nofun
      armed := fun _ => nofun
      kept := fun _ _ _ stays => absurd rfl stays
      refused := fun _ _ => nofun }
  unfold step
  dsimp only
  split
  · exact sound.quiet
  · exact sound.quiet
  · rename_i idle ended
    refine failed ?_
    cases phase : state.phase with
    | waiting => exact absurd phase idle
    | ended => exact absurd phase ended
    | _ => trivial

/-- **Step.** Any step keeps the purge sound. -/
theorem step_moves {next : PurgeStep Bytes} (declares : Declares inventory state next) :
    Moves inventory now state (step inventory now state next) := by
  cases next with
  | tryLock worker => exact tryLock_moves sound worker
  | commit worker ops outcome clock => exact commit_moves sound declares
  | purge input => exact purgeStep_moves sound input
  | fail => exact fail_moves sound

/-- **Run.** -/
theorem sound_of_declares {steps : List (PurgeStep Bytes)}
    (declares : Along (step inventory now) (Declares inventory) state steps) :
    (exec (step inventory now) state steps).Sound inventory now := by
  refine exec_invariant (step inventory now) ?_ state steps sound declares
  intro state next sound declares
  exact (step_moves sound declares).sound

end

/-- **Run.** A held digest is held until it is disarmed or the purge fails. -/
theorem held_until {steps : List (PurgeStep Bytes)} :
    ∀ {state : Purging Bytes}, state.Sound inventory now →
      Along (step inventory now) (Declares inventory) state steps →
      digest ∈ state.phase.held →
      .disarmed digest ∉ Machine.answers (step inventory now) state steps →
      .failed ∉ Machine.answers (step inventory now) state steps →
      digest ∈ (exec (step inventory now) state steps).phase.held := by
  induction steps with
  | nil => exact fun _ _ held _ _ => held
  | cons first steps ih =>
    intro state sound declares held armed runs
    have moves := step_moves sound declares.1
    have kept := moves.kept digest held (ne_of_not_mem_cons armed).symm
      (ne_of_not_mem_cons runs).symm
    exact ih moves.sound declares.2 kept (not_mem_of_not_mem_cons armed)
      (not_mem_of_not_mem_cons runs)

theorem Sound.refuses (sound : state.Sound inventory now)
    (held : digest ∈ state.phase.held) (worker : Nat) {ops : List (DriverOp Bytes)} {size : Nat}
    (declared : .referenceBlob digest size ∈ ops) (outcome : Except MetaError (List Bytes))
    (clock : Int64) :
    Machine.answer (step inventory now) state (.commit worker ops outcome clock) ≠
      .committed worker := by
  have runs : state.phase.Runs := by
    cases phase : state.phase with
    | deleting | disarming => trivial
    | _ =>
      rw [phase] at held
      exact absurd held not_mem_nil
  unfold Machine.answer step
  dsimp only
  split
  · exact nofun
  · rename_i holds entered
    split
    · rename_i metadata serial committed
      cases holds with
      | true => exact absurd runs (sound.idle entered)
      | false =>
        have unguarded := (commit_beside committed).unguarded digest size declared
        exact nomatch (sound.phase.held digest held).guarded.symm.trans unguarded
    · exact nofun

/-- One confirmed purge beside any number of commits that declare what they make
rows reference: when the purge deletes a digest no committed row references it,
and while the digest's guard is armed no commit that declares it succeeds. A
purge that fails leaves its guards armed and deletes nothing more. A refused
commit leaves the store as it was. -/
theorem purge_spares_references (inventory : Inventory Bytes) (now : Int64)
    (metadata : MetaStore Bytes) (steps : List (PurgeStep Bytes)) (next : PurgeStep Bytes)
    (declares : Machine.Along (step inventory now) (Declares inventory) { metadata }
      (steps ++ [next])) :
    let start : Purging Bytes := { metadata }
    let state := Machine.exec (step inventory now) start steps
    (∀ digest, Machine.answer (step inventory now) state next = .deleted digest →
      ¬ Referenced inventory state.metadata.driverKv digest) ∧
    (∀ before arming between armed digest, steps = before ++ arming :: between →
      Machine.answer (step inventory now) (Machine.exec (step inventory now) start before) arming =
        .armed armed → digest ∈ armed →
      let since := Machine.answers (step inventory now)
        (Machine.exec (step inventory now) start (before ++ [arming])) between
      .disarmed digest ∉ since → .failed ∉ since →
      ∀ worker ops outcome clock size, next = .commit worker ops outcome clock →
        .referenceBlob digest size ∈ ops →
        Machine.answer (step inventory now) state next ≠ .committed worker) ∧
    ∀ worker error, Machine.answer (step inventory now) state next = .refused worker error →
      (Machine.next (step inventory now) state next).metadata = state.metadata := by
  intro start state
  have idle : start.Sound inventory now :=
    { phase := PurgePhase.sound_of_free rfl rfl
      owned := nofun
      locked := fun worker found => absurd (found.symm.trans (get_empty worker)) nofun }
  obtain ⟨before, last⟩ := (along_append _ _ _ _).mp declares
  have sound : state.Sound inventory now := sound_of_declares idle before
  have moves := step_moves sound last.1
  refine ⟨?_, ?_, moves.refused⟩
  · intro digest deleted
    exact (sound.phase.held digest (moves.deleted digest deleted)).unreferenced
  · rintro earlier arming between armed digest split answer mem since still runs worker ops outcome
      clock size rfl declared
    rw [split, append_cons] at before
    obtain ⟨upTo, rest⟩ := (along_append _ _ _ _).mp before
    obtain ⟨first, here⟩ := (along_append _ _ _ _).mp upTo
    have arms := step_moves (sound_of_declares idle first) here.1
    have armedHere : digest ∈ (exec (step inventory now) start
        (earlier ++ [arming])).phase.held := by
      rw [exec_append]
      exact arms.armed armed answer mem
    have held := held_until (sound_of_declares idle upTo) rest armedHere still runs
    rw [← exec_append, ← append_cons, ← split] at held
    exact sound.refuses held worker declared outcome clock

end Purging

def rowKeys (rows : BTreeMap String Unit) : Finset String := rows.keys.toFinset

theorem declares_put (state : Purging Unit) (worker : Nat) (digest : String) (clock : Int64) :
    state.Declares [rowKeys]
      (.commit worker [.put digest (), .referenceBlob digest 1] (.ok []) clock) := by
  rintro other ⟨part, mem, found⟩
  cases mem_singleton.mp mem
  rw [rowKeys, mem_toFinset, Std.ExtTreeMap.mem_keys] at found
  obtain same | before := mem_insert.mp found
  · cases Std.LawfulEqCmp.eq_of_compare same
    exact .inr ⟨1, mem_cons_of_mem _ mem_cons_self⟩
  · refine .inl ⟨rowKeys, mem_singleton_self _, ?_⟩
    rw [rowKeys, mem_toFinset, Std.ExtTreeMap.mem_keys]
    exact before

/-- A commit of `a`, and a purge that has armed `b`, the only orphan, when another
commit begins. -/
def purgeOfOne : List (PurgeStep Unit) :=
  [.tryLock 0, .commit 0 [.put "a" (), .referenceBlob "a" 1] (.ok []) 0, .purge .proceed,
    .purge (.scanned ∅), .purge (.visited ⟨["a", "b"], by decide⟩), .purge .proceed,
    .purge .proceed, .purge .proceed, .purge (.scanned ∅), .purge .proceed, .tryLock 1]

theorem declares_purgeOfOne {next : PurgeStep Unit}
    (declares : ∀ state : Purging Unit, state.Declares [rowKeys] next) :
    Along (Purging.step [rowKeys] 0) (Purging.Declares [rowKeys]) { metadata := {} }
      (purgeOfOne ++ [next]) := by
  refine ⟨trivial, declares_put _ 0 "a" 0, trivial, trivial, trivial, trivial, trivial, trivial,
    trivial, trivial, trivial, declares _, trivial⟩

theorem purge_spares_references_of_one :
    let state := Machine.exec (Purging.step [rowKeys] 0) { metadata := {} } purgeOfOne
    (Machine.answer (Purging.step [rowKeys] 0) state (.purge .proceed) = .deleted "b" ∧
      ¬ Referenced [rowKeys] state.metadata.driverKv "b") ∧
    Machine.answer (Purging.step [rowKeys] 0) state
      (.commit 1 [.put "b" (), .referenceBlob "b" 1] (.ok []) 301) ≠ .committed 1 := by
  intro state
  have deletes : Machine.answer (Purging.step [rowKeys] 0) state (.purge .proceed) =
      .deleted "b" := by
    decide +kernel
  refine ⟨⟨deletes, ?_⟩, ?_⟩
  · exact (Purging.purge_spares_references [rowKeys] 0 {} purgeOfOne (.purge .proceed)
      (declares_purgeOfOne fun _ => trivial)).1 "b" deletes
  · refine (Purging.purge_spares_references [rowKeys] 0 {} purgeOfOne _
      (declares_purgeOfOne fun state => declares_put state 1 "b" 301)).2.1 (purgeOfOne.take 9)
      (.purge .proceed) [.tryLock 1] ["b"] "b" rfl ?_ (by decide) ?_ ?_ 1 _ _ 301 1 rfl (by decide)
    all_goals decide +kernel

end Peryx
