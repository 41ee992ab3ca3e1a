import Peryx.Availability.Placement
import Peryx.Lib.Except
import Peryx.Lib.WriteChain

/-!
# Placements are fenced

Workers race for the rows of `BLOB_PLACEMENT`, but a row is written one decision
after another: a compare-and-put succeeds only over the very row the decision
was made from (`writes_chain`). So what holds of a decision holds of any
interleaving.

- `leads_step`: what one step can do to a row.
- `placement_is_fenced`: generations rise, and what is settled stays.
-/

namespace Peryx

open Machine BTreeMap List Option Peryx.Except String

/-! ## Keys -/

theorem cut_at_first {α : Type} {a : α} : ∀ {x y s t : List α}, a ∉ x → a ∉ y →
    x ++ a :: s = y ++ a :: t → x = y ∧ s = t
  | [], [], _, _, _, _, same => ⟨rfl, (List.cons.inj same).2⟩
  | [], _ :: _, _, _, _, hy, same => absurd ((List.cons.inj same).1 ▸ mem_cons_self) hy
  | _ :: _, [], _, _, hx, _, same => absurd ((List.cons.inj same).1 ▸ mem_cons_self) hx
  | _ :: _, _ :: _, _, _, hx, hy, same => by
    obtain ⟨head, tail⟩ := List.cons.inj same
    obtain ⟨rest, same⟩ := cut_at_first (fun mem => hx (.tail _ mem)) (fun mem => hy (.tail _ mem))
      tail
    exact ⟨by rw [head, rest], same⟩

theorem KeyComponent.noNul {field : String} (part : KeyComponent field) :
    '\x00' ∉ part.text.toList := by
  intro nul
  have valid := part.valid
  unfold component at valid
  split at valid
  · cases valid
  split at valid
  · cases valid
  · cases valid

theorem ArtifactDigest.noNul (digest : ArtifactDigest) : '\x00' ∉ digest.canonical.toList := by
  intro nul
  rw [ArtifactDigest.canonical, toList_append, mem_append] at nul
  obtain nul | nul := nul
  · exact absurd nul (by decide)
  · have valid := digest.valid
    rw [isSha256Hex, Bool.and_eq_true, List.all_eq_true] at valid
    exact absurd (valid.2 _ nul) (by decide)

theorem encodedKey_toList (key : BlobPlacementKey) :
    (encodedKey key).toList = key.digest.canonical.toList ++ '\x00' :: (key.backend.text.toList ++
      '\x00' :: (key.dataCenter.text.toList ++ '\x00' :: key.location.text.toList)) := by
  have nul : ("\x00" : String).toList = ['\x00'] := by decide
  simp [encodedKey, nul]

theorem encodedKey_injective : Function.Injective encodedKey := by
  intro a b same
  have text := congrArg String.toList same
  rw [encodedKey_toList, encodedKey_toList] at text
  obtain ⟨digest, text⟩ := cut_at_first a.digest.noNul b.digest.noNul text
  obtain ⟨backend, text⟩ := cut_at_first a.backend.noNul b.backend.noNul text
  obtain ⟨dataCenter, location⟩ := cut_at_first a.dataCenter.noNul b.dataCenter.noNul text
  have digest := ArtifactDigest.canonical_injective (toList_injective digest)
  obtain ⟨_, ⟨_, _⟩, ⟨_, _⟩, ⟨_, _⟩⟩ := a
  obtain ⟨_, ⟨_, _⟩, ⟨_, _⟩, ⟨_, _⟩⟩ := b
  cases digest
  cases toList_injective backend
  cases toList_injective dataCenter
  cases toList_injective location
  rfl

/-! ## Decisions -/

/-- What a write that went through has checked. -/
structure PlacementWrite.Applied (write : PlacementWrite) : Prop where
  owned : checkOwnership write.before write.call.transition write.call.fence = .ok ()
  next : nextBlobPlacement write.call.key write.before write.call.transition write.call.fence =
    .ok (.applied write.after.state)
  attempt : nextTransferAttempt write.before write.call.transition = .ok write.after.transferAttempt
  fence : write.after.fence =
    write.before.elim write.call.fence fun record => max record.fence write.call.fence
  generation : write.after.generation =
    write.before.elim 1 fun record => record.generation.u64WrappingAdd 1
  key : write.after.key = write.call.key

theorem PlacementCall.decide_applied {call : PlacementCall} {prior : Option BlobPlacementRecord}
    {replacement : BlobPlacementRecord} (decided : call.decide prior = .ok (.applied replacement)) :
    (PlacementWrite.mk call prior replacement).Applied := by
  obtain ⟨_, owned, decided⟩ := bind_eq_ok.mp decided
  obtain ⟨next, found, decided⟩ := bind_eq_ok.mp decided
  cases next with
  | unchanged record => cases decided
  | applied state =>
    obtain ⟨attempt, opened, same⟩ := bind_eq_ok.mp decided
    cases same
    exact ⟨owned, found, opened, rfl, rfl, rfl⟩

/-- Which transition brings a row of some state to which state. -/
inductive Moves (key : BlobPlacementKey) (state : BlobPlacementState) :
    BlobPlacementTransition → BlobPlacementState → Prop
  | stage : Moves key state .stage .pending
  | checkpoint (attempt : Nat) (pending : state = .pending) :
    Moves key state (.checkpoint attempt) .pending
  | verify (attempt size : Nat) (pending : state = .pending) :
    Moves key state (.verify attempt key.digest size) (.verified size)
  | mismatch (attempt : Nat) (observed : ArtifactDigest) (size : Nat) (pending : state = .pending) :
    Moves key state (.verify attempt observed size) (.failed .digestMismatch)
  | fail (attempt : Nat) (failure : BlobPlacementFailure) (pending : state = .pending) :
    Moves key state (.fail attempt failure) (.failed failure)
  | publish (size : Nat) : Moves key state (.publish size) (.verified size)
  | invalidate : Moves key state .invalidate (.failed .digestMismatch)
  | revoke : Moves key state .revoke .revoked

theorem moves_of_next {key : BlobPlacementKey} {record : BlobPlacementRecord}
    {transition : BlobPlacementTransition} {fence : Nat} {state : BlobPlacementState}
    (next : nextBlobPlacement key (some record) transition fence = .ok (.applied state)) :
    Moves key record.state transition state := by
  unfold nextBlobPlacement at next
  cases transition with
  | stage =>
    cases found : record.state <;> simp only [found] at next
    · split at next
      · cases next
        exact .stage
      · cases next
    · cases next
    · cases next
      exact .stage
    · cases next
      exact .stage
  | checkpoint attempt =>
    cases found : record.state <;> simp only [found] at next <;> cases next
    exact .checkpoint attempt rfl
  | verify attempt observed size =>
    cases found : record.state <;> simp only [found] at next <;> cases next
    split
    next same => exact same ▸ .verify attempt size rfl
    · exact .mismatch attempt observed size rfl
  | fail attempt failure =>
    cases found : record.state <;> simp only [found] at next <;> cases next
    exact .fail attempt failure rfl
  | publish size =>
    dsimp only at next
    split at next
    · cases next
    · cases next
      exact .publish size
  | invalidate =>
    cases found : record.state <;> simp only [found] at next <;> cases next
    exact .invalidate
  | revoke =>
    dsimp only at next
    split at next
    · cases next
    · cases next
      exact .revoke

variable {record : BlobPlacementRecord} {write : PlacementWrite}

namespace PlacementWrite.Applied

section

variable (applied : write.Applied)

include applied

section

variable (found : write.before = some record)

include found

theorem current :
    record.fence ≤ write.call.fence ∧
      ∀ attempt, write.call.transition.attempt = some attempt →
        write.call.fence = record.fence ∧ attempt = record.transferAttempt := by
  have owned := applied.owned
  rw [found, checkOwnership] at owned
  split at owned
  · cases owned
  next newer =>
    refine ⟨not_lt.mp newer, fun attempt carried => ?_⟩
    rw [carried] at owned
    dsimp only at owned
    split at owned
    · cases owned
    next sameFence =>
      split at owned
      · cases owned
      next sameAttempt => exact ⟨not_not.mp sameFence, not_not.mp sameAttempt⟩

theorem attempt_cases :
    (write.call.transition = .stage ∧
      write.after.transferAttempt = record.transferAttempt + 1) ∨
    (write.call.transition ≠ .stage ∧ write.after.transferAttempt = record.transferAttempt) := by
  have attempt := applied.attempt
  rw [found] at attempt
  cases taken : write.call.transition with
  | stage =>
    rw [taken, nextTransferAttempt, Nat.u64CheckedAdd] at attempt
    split at attempt
    next next fits =>
      cases attempt
      split at fits
      · exact .inl ⟨rfl, (Option.some.inj fits).symm⟩
      · cases fits
    · cases attempt
  | _ =>
    rw [taken] at attempt
    exact .inr ⟨nofun, (Except.ok.inj attempt).symm⟩

theorem moves :
    Moves write.call.key record.state write.call.transition write.after.state := by
  have next := applied.next
  rw [found] at next
  exact moves_of_next next

theorem attempt_le :
    record.transferAttempt ≤ write.after.transferAttempt := by
  obtain ⟨-, next⟩ | ⟨-, same⟩ := applied.attempt_cases found
  · omega
  · omega

theorem fence_le :
    record.fence ≤ write.after.fence := by
  rw [applied.fence, found]
  exact le_max_left _ _

theorem generation_lt_iff :
    record.generation < write.after.generation ↔ record.generation < Nat.u64Max := by
  rw [applied.generation, found, elim_some]
  constructor
  · intro grows
    have bound : record.generation.u64WrappingAdd 1 ≤ Nat.u64Max :=
      Nat.le_of_lt_succ (Nat.mod_lt _ (by decide))
    omega
  · intro fits
    rw [Nat.u64WrappingAdd_of_le fits]
    exact Nat.lt_succ_self _

end

end

end PlacementWrite.Applied

/-! ## Interleavings -/

namespace PlacementWorkers

variable {state : PlacementWorkers}

/-- A write under way is what the call decided on what it read. -/
def Decided (state : PlacementWorkers) : Prop :=
  ∀ (worker : Nat) (call : PlacementCall) (prior : Option BlobPlacementRecord)
    (replacement : BlobPlacementRecord),
    state.workers[worker]? = some (.writing call prior replacement) →
      call.decide prior = .ok (.applied replacement)

section

variable (decided : state.Decided)

include decided

theorem Decided.leave (worker : Nat) : (state.leave worker).Decided := by
  intro other call prior replacement found
  refine decided other call prior replacement ?_
  obtain ⟨-, found⟩ := of_get_erase found
  exact found

theorem Decided.become (worker : Nat) {phase : PlacementWorker}
    (sound : ∀ call prior replacement, phase = .writing call prior replacement →
      call.decide prior = .ok (.applied replacement)) :
    (state.become worker phase).Decided := by
  intro other call prior replacement found
  rw [PlacementWorkers.become, get_insert] at found
  split at found
  · exact sound _ _ _ (Option.some.inj found)
  · exact decided other call prior replacement found

/-- What a step leads to: the table as it was, or one write, decided over the
row it replaces. -/
inductive Leads (state : PlacementWorkers) : PlacementWorkers × PlacementEvent → Prop
  | same {after : PlacementWorkers} {event : PlacementEvent} (decided : after.Decided)
    (table : after.table = state.table) (unwritten : ∀ write, event ≠ .written write) :
    Leads state (after, event)
  | written {after : PlacementWorkers} (write : PlacementWrite) (decided : after.Decided)
    (applied : write.Applied) (before : state.table[encodedKey write.call.key]? = write.before)
    (table : after.table = state.table.insert (encodedKey write.call.key) write.after) :
    Leads state (after, .written write)

theorem leads_read (worker : Nat) (call : PlacementCall) :
    Leads state (state.read worker call) := by
  unfold read
  dsimp only
  split
  · exact .same (decided.leave worker) rfl fun _ => nofun
  · exact .same (decided.leave worker) rfl fun _ => nofun
  next replacement applied =>
    refine .same (decided.become worker ?_) rfl fun _ => nofun
    rintro _ _ _ ⟨⟩
    exact applied

theorem leads_write (worker : Nat) {call : PlacementCall}
    {prior : Option BlobPlacementRecord} {replacement : BlobPlacementRecord}
    (replaces : call.decide prior = .ok (.applied replacement)) :
    Leads state (state.write worker call prior replacement) := by
  have applied := PlacementCall.decide_applied replaces
  have key : replacement.key = call.key := applied.key
  unfold write PlacementTable.compareAndPutBlobPlacement
  rw [key]
  by_cases moved : state.table[encodedKey call.key]? ≠ prior
  · rw [if_pos moved]
    exact .same (decided.become worker fun _ _ _ => nofun) rfl fun _ => nofun
  · rw [if_neg moved]
    by_cases full : prior = none ∧
        state.table.placementCount call.key.digest ≥ maxPlacementsPerDigest
    · rw [if_pos full]
      exact .same (decided.leave worker) rfl fun _ => nofun
    · rw [if_neg full]
      refine .written _ ?_ applied (not_not.mp moved) rfl
      exact decided.leave worker

/-- **Step.** The table stays, or takes a write that was applied. -/
theorem leads_step (taken : PlacementStep) :
    Leads state (step state taken) := by
  unfold step
  cases taken with
  | call worker call =>
    dsimp only
    split
    · exact .same (decided.become worker fun _ _ _ => nofun) rfl fun _ => nofun
    · exact .same decided rfl fun _ => nofun
  | lose worker => exact .same (decided.leave worker) rfl fun _ => nofun
  | read worker =>
    dsimp only
    split
    · exact leads_read decided worker _
    · exact .same decided rfl fun _ => nofun
  | write worker =>
    dsimp only
    split
    next found => exact leads_write decided worker (decided worker _ _ _ found)
    · exact .same decided rfl fun _ => nofun

end

def writeAt (key : BlobPlacementKey) : PlacementEvent → Option PlacementWrite
  | .written write => if write.call.key = key then some write else none
  | .quiet | .returned _ => none

theorem writeAt_own (write : PlacementWrite) :
    writeAt write.call.key (.written write) = some write :=
  if_pos rfl

def writesAt (key : BlobPlacementKey) (events : List PlacementEvent) : List PlacementWrite :=
  events.filterMap (writeAt key)

/-- **Run.** Whatever the workers do, a placement goes from row to row by
applied decisions, each over what the one before left. -/
theorem writes_chain (key : BlobPlacementKey)
    (steps : List PlacementStep) (decided : state.Decided) :
    let writes := writesAt key (Machine.answers step state steps)
    Chain PlacementWrite.before PlacementWrite.after (state.table.blobPlacement key) writes
        ((exec step state steps).table.blobPlacement key) ∧
      ∀ write ∈ writes, write.Applied ∧ write.call.key = key := by
  refine Chain.of_run (I := Decided) (·.table.blobPlacement key) (writeAt key)
    (fun state taken decided => ?_) steps decided
  have leads := leads_step decided taken
  generalize step state taken = result at leads
  cases leads with
  | @same after event decided' table unwritten =>
    refine ⟨decided', .inl ⟨?_, congrArg (·[encodedKey key]?) table⟩⟩
    cases event with
    | written write => exact absurd rfl (unwritten write)
    | _ => rfl
  | @written after write decided' applied before table =>
    refine ⟨decided', ?_⟩
    rw [PlacementTable.blobPlacement, PlacementTable.blobPlacement, table]
    by_cases own : write.call.key = key
    · subst own
      exact .inr ⟨write, writeAt_own write, before, get_insert_self .., applied, rfl⟩
    · have other := get_insert_of_ne state.table write.after fun same =>
        own (encodedKey_injective same)
      exact .inl ⟨if_neg own, other⟩

end PlacementWorkers

/-! ## What holds of every interleaving -/

namespace PlacementWrite

/-- The write ends a transfer attempt: a pending row is verified or failed. -/
def settles (attempt : Nat) (write : PlacementWrite) : Bool :=
  write.after.transferAttempt = attempt ∧ write.before.any (·.state = .pending) ∧
    (write.after.state.status = .verified ∨ write.after.state.status = .failed)

/-- How a row may become verified: bytes published by the current owner, or
bytes with the right digest received in the current attempt. -/
def Verifies (write : PlacementWrite) : Prop :=
  (∃ size, write.call.transition = .publish size ∧
    ∀ record, write.before = some record → record.fence ≤ write.call.fence) ∨
  ∃ record size, write.before = some record ∧ write.call.fence = record.fence ∧
    write.call.transition = .verify record.transferAttempt write.call.key.digest size

/-- The record is past the attempt, or ended it. -/
def Settled (attempt : Nat) (record : BlobPlacementRecord) : Prop :=
  attempt < record.transferAttempt ∨
    attempt = record.transferAttempt ∧ record.state ≠ .pending

variable {attempt : Nat}

theorem settled_of_settles (settles : write.settles attempt = true) :
    Settled attempt write.after := by
  obtain ⟨same, -, ended⟩ := of_decide_eq_true settles
  refine .inr ⟨same.symm, fun pending => ?_⟩
  rw [pending] at ended
  obtain ended | ended := ended <;> cases ended

theorem Applied.stays_settled (applied : write.Applied) (found : write.before = some record)
    (settled : Settled attempt record) :
    Settled attempt write.after ∧ ¬ write.settles attempt := by
  have notYet : attempt = write.after.transferAttempt → record.state ≠ .pending := by
    intro same
    obtain later | ⟨-, ended⟩ := settled
    · exact absurd (applied.attempt_le found) (by omega)
    · exact ended
  refine ⟨?_, fun settles => ?_⟩
  · obtain later | ⟨same, ended⟩ := settled
    · exact .inl (lt_of_lt_of_le later (applied.attempt_le found))
    · obtain ⟨-, next⟩ | ⟨unstaged, kept⟩ := applied.attempt_cases found
      · exact .inl (by omega)
      · refine .inr ⟨same.trans kept.symm, fun pending => ?_⟩
        have moves := applied.moves found
        rw [pending] at moves
        generalize taken : write.call.transition = transition at moves
        cases moves with
        | stage => exact unstaged taken
        | checkpoint _ was => exact ended was
  · obtain ⟨same, was, -⟩ := of_decide_eq_true settles
    rw [found, any_some, decide_eq_true_iff] at was
    exact notYet same.symm was

theorem Applied.found (applied : write.Applied)
    (carried : write.call.transition.attempt = some attempt) :
    ∃ record, write.before = some record ∧ write.call.fence = record.fence ∧
      attempt = record.transferAttempt := by
  cases found : write.before with
  | none =>
    have next := applied.next
    rw [found] at next
    generalize write.call.transition = transition at carried next
    cases transition <;> cases carried <;> cases next
  | some record => exact ⟨record, rfl, (applied.current found).2 attempt carried⟩

theorem Applied.settles (applied : write.Applied)
    (carried : write.call.transition.attempt = some attempt)
    (ended : write.after.state ≠ .pending) : write.settles attempt = true := by
  obtain ⟨record, found, -, rfl⟩ := applied.found carried
  have kept : write.after.transferAttempt = record.transferAttempt := by
    obtain ⟨staged, -⟩ | ⟨-, kept⟩ := applied.attempt_cases found
    · rw [staged] at carried
      cases carried
    · exact kept
  have moves := applied.moves found
  have pending : record.state = .pending ∧
      (write.after.state.status = .verified ∨ write.after.state.status = .failed) := by
    generalize write.call.transition = transition at carried moves
    generalize write.after.state = state at ended moves ⊢
    cases moves with
    | stage => exact absurd rfl ended
    | checkpoint => exact absurd rfl ended
    | verify _ _ pending => exact ⟨pending, .inl rfl⟩
    | mismatch _ _ _ pending => exact ⟨pending, .inr rfl⟩
    | fail _ _ pending => exact ⟨pending, .inr rfl⟩
    | publish => cases carried
    | invalidate => cases carried
    | revoke => cases carried
  refine decide_eq_true ⟨kept, ?_, pending.2⟩
  rw [found, any_some]
  exact decide_eq_true pending.1

theorem Applied.verifies (applied : write.Applied)
    (verified : write.after.state.status = .verified) : write.Verifies := by
  cases found : write.before with
  | none =>
    have next := applied.next
    rw [found] at next
    unfold nextBlobPlacement at next
    cases taken : write.call.transition with
    | stage =>
      simp only [taken, Except.ok.injEq, NextBlobPlacement.applied.injEq] at next
      rw [← next] at verified
      cases verified
    | publish size => exact .inl ⟨size, taken, fun _ present => nomatch found.symm.trans present⟩
    | _ =>
      simp only [taken] at next
      cases next
  | some record =>
    have current := applied.current found
    have moves := applied.moves found
    generalize taken : write.call.transition = transition at moves current
    generalize write.after.state = state at verified moves
    cases moves with
    | verify attempt size =>
      obtain ⟨fence, rfl⟩ := current.2 attempt rfl
      exact .inr ⟨record, size, found, fence, taken⟩
    | publish size =>
      refine .inl ⟨size, taken, fun _ present => ?_⟩
      cases found.symm.trans present
      exact current.1
    | _ => cases verified

end PlacementWrite

open PlacementWorkers in
/-- Any number of workers write one placement in turn, and fence, attempt and
generation only ever grow, the generation unless it is the last one. No write
is an older owner's or of an older attempt, an attempt is settled once, and a
row is verified by its current owner only. -/
theorem placement_is_fenced (start : PlacementTable) (steps : List PlacementStep)
    (key : BlobPlacementKey) :
    let writes := writesAt key (Machine.answers step { table := start } steps)
    let ends := (Machine.exec step { table := start } steps).table
    let rows := Chain.rows PlacementWrite.after (start.blobPlacement key) writes
    Chain PlacementWrite.before PlacementWrite.after (start.blobPlacement key) writes
      (ends.blobPlacement key) ∧
    rows.Pairwise (fun earlier later =>
      earlier.fence ≤ later.fence ∧ earlier.transferAttempt ≤ later.transferAttempt) ∧
    (rows.Pairwise (fun earlier later => earlier.generation < later.generation) ↔
      ∀ write ∈ writes, ∀ record, write.before = some record →
        record.generation < Nat.u64Max) ∧
    (∀ write ∈ writes, ∀ record, write.before = some record →
      record.fence ≤ write.call.fence ∧
        ∀ attempt, write.call.transition.attempt = some attempt →
          record.transferAttempt ≤ attempt) ∧
    (∀ attempt, (writes.filter (·.settles attempt)).length ≤ 1) ∧
    (∀ write ∈ writes, ∀ attempt, write.call.transition.attempt = some attempt →
      write.after.state ≠ .pending → write.settles attempt = true) ∧
    ∀ write ∈ writes, write.after.state.status = .verified → write.Verifies := by
  intro writes ends rows
  have idle : ({ table := start } : PlacementWorkers).Decided := by
    intro worker call prior replacement found
    rw [get_empty] at found
    cases found
  obtain ⟨chain, each⟩ := writes_chain key steps idle
  have applied := fun write mem => (each write mem).1
  refine ⟨chain, ?_, ?_, fun write mem record found => ?_, fun attempt => ?_, ?_, ?_⟩
  · refine (chain.pairwise_iff fun ab bc => ⟨ab.1.trans bc.1, ab.2.trans bc.2⟩).mpr ?_
    exact fun write mem record found =>
      ⟨(applied write mem).fence_le found, (applied write mem).attempt_le found⟩
  · rw [chain.pairwise_iff fun ab bc => ab.trans bc]
    refine forall₂_congr fun write mem => forall₂_congr fun record found => ?_
    exact (applied write mem).generation_lt_iff found
  · obtain ⟨fence, carried⟩ := (applied write mem).current found
    exact ⟨fence, fun attempt is => (carried attempt is).2.ge⟩
  · exact chain.once (fun write _ => PlacementWrite.settled_of_settles)
      fun write mem record found => (applied write mem).stays_settled found
  · exact fun write mem attempt => (applied write mem).settles
  · exact fun write mem => (applied write mem).verifies

/-! ## The generation wraps -/

namespace PlacementWorkers

def pendingRow (key : BlobPlacementKey) (generation : Nat) : BlobPlacementRecord :=
  { key, state := .pending, fence := 1, transferAttempt := 1, generation, updatedAtUnix := 0 }

def callOnce (call : PlacementCall) : List PlacementStep :=
  [.call 0 call, .read 0, .write 0]

theorem callOnce_writes {state : PlacementWorkers} (call : PlacementCall)
    {prior : Option BlobPlacementRecord} {replacement : BlobPlacementRecord}
    (idle : state.workers[0]? = none)
    (found : state.table.blobPlacement call.key = prior)
    (room : prior = none → state.table.placementCount call.key.digest < maxPlacementsPerDigest)
    (decided : call.decide prior = .ok (.applied replacement)) :
    let after := exec step state (callOnce call)
    after.workers[0]? = none ∧ after.table.blobPlacement call.key = some replacement ∧
      .written ⟨call, prior, replacement⟩ ∈ Machine.answers step state (callOnce call) := by
  have key : replacement.key = call.key := (PlacementCall.decide_applied decided).key
  have fits : ¬ (prior = none ∧
      maxPlacementsPerDigest ≤ state.table.placementCount call.key.digest) :=
    fun full => absurd (room full.1) (not_lt.mpr full.2)
  rw [PlacementTable.blobPlacement] at found
  simp [callOnce, Machine.answers, Machine.next, Machine.answer, step, idle, become, leave, read,
    write, PlacementTable.blobPlacement, PlacementTable.compareAndPutBlobPlacement, found, decided,
    key, fits]

def checkpointCall (key : BlobPlacementKey) : PlacementCall :=
  { key, transition := .checkpoint 1, fence := 1, now := 0 }

theorem checkpoint_writes {state : PlacementWorkers} {key : BlobPlacementKey} {generation : Nat}
    (idle : state.workers[0]? = none)
    (found : state.table.blobPlacement key = some (pendingRow key generation)) :
    let after := exec step state (callOnce (checkpointCall key))
    let next := pendingRow key (generation.u64WrappingAdd 1)
    after.workers[0]? = none ∧ after.table.blobPlacement key = some next ∧
      .written ⟨checkpointCall key, some (pendingRow key generation), next⟩ ∈
        Machine.answers step state (callOnce (checkpointCall key)) := by
  refine callOnce_writes (checkpointCall key) idle found (fun absent => ?_) rfl
  cases absent

theorem checkpoints_count {key : BlobPlacementKey} : ∀ (n : Nat) {state : PlacementWorkers}
    {generation : Nat}, generation + n ≤ Nat.u64Max → state.workers[0]? = none →
    state.table.blobPlacement key = some (pendingRow key generation) →
    let after := exec step state (List.replicate n (callOnce (checkpointCall key))).flatten
    after.workers[0]? = none ∧
      after.table.blobPlacement key = some (pendingRow key (generation + n))
  | 0, _, _, _, idle, found => ⟨idle, found⟩
  | n + 1, state, generation, fits, idle, found => by
    obtain ⟨idle', found', -⟩ := checkpoint_writes idle found
    rw [Nat.u64WrappingAdd_of_le (by omega)] at found'
    have rest := checkpoints_count n (by omega) idle' found'
    rw [replicate_succ, flatten_cons, exec_append, ← Nat.add_assoc, Nat.add_right_comm]
    exact rest

end PlacementWorkers

def onePlacement : BlobPlacementKey where
  digest := ⟨String.ofList (List.replicate 64 'a'), by decide⟩
  backend := ⟨"filesystem", by decide⟩
  dataCenter := ⟨"east", by decide⟩
  location := ⟨"a", by decide⟩

open PlacementWorkers in
/-- From an empty table, a worker that stages a placement and checkpoints its
transfer often enough brings the generation from the last one back to zero. -/
theorem placement_generation_wraps :
    ∃ steps : List PlacementStep,
      ∃ write ∈ writesAt onePlacement (Machine.answers step {} steps),
        (∃ record, write.before = some record ∧ record.generation = Nat.u64Max) ∧
          write.after.generation = 0 := by
  let stage : PlacementCall := { key := onePlacement, transition := .stage, fence := 1, now := 0 }
  let checkpoint := callOnce (checkpointCall onePlacement)
  let rounds := (List.replicate (Nat.u64Max - 1) checkpoint).flatten
  have staged : stage.decide none = .ok (.applied (pendingRow onePlacement 1)) := rfl
  have start : ({} : PlacementWorkers).table.blobPlacement onePlacement = none :=
    get_empty _
  obtain ⟨idle, found, -⟩ := callOnce_writes stage (get_empty _) start
    (fun _ => by decide) staged
  obtain ⟨idle', found'⟩ := checkpoints_count (Nat.u64Max - 1) (by decide) idle found
  obtain ⟨-, -, written⟩ := checkpoint_writes idle' found'
  let last : PlacementWrite := ⟨checkpointCall onePlacement,
    some (pendingRow onePlacement Nat.u64Max), pendingRow onePlacement 0⟩
  have mem : .written last ∈
      Machine.answers step {} (callOnce stage ++ (rounds ++ checkpoint)) := by
    rw [answers_append, answers_append]
    exact mem_append_right _ (mem_append_right _ written)
  have own : writeAt onePlacement (.written last) = some last := writeAt_own last
  exact ⟨_, last, mem_filterMap.mpr ⟨_, mem, own⟩, ⟨_, rfl, rfl⟩, rfl⟩

end Peryx
