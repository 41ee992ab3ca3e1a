import Peryx.Availability.Reclamation
import Peryx.Lib.WriteChain

/-!
# Readiness is proved

Passes of any number and term, commits and placement workers interleave; the
tombstone of a digest still goes from row to row by decisions over a snapshot
and an inventory that hold at the moment of the write (`updates_chain`).

- `leads_step`: what one step can do to a tombstone.
- `readiness_is_proved`: what holds at the moment a tombstone turns ready.
-/

namespace Peryx

open Peryx.Except

variable {Bytes : Type} {inventory : Inventory Bytes} {task : PassTask} {call : PassCall}

/-! ## Decisions -/

/-- All that a decision which writes `after` over a snapshot says. -/
structure PassTask.Decides (task : PassTask) (call : PassCall) (digest : ArtifactDigest)
    (referenced : Bool) (snapshot : ReclamationSnapshot) (after : ReclamationTombstone) :
    Prop where
  fence : ∀ prior, snapshot.tombstone = some prior → prior.fence ≤ call.fence
  grows : ∀ prior, snapshot.tombstone = some prior → after.digest = prior.digest ∧
    prior.fence ≤ after.fence ∧ prior.requiredFrontier ≤ after.requiredFrontier
  fresh : snapshot.tombstone = none → after.digest = digest
  ready : after.state = .ready → ∃ observed, task = .mark observed ∧ referenced = false ∧
    (∀ record ∈ snapshot.placements, record.state.status ≠ .verified) ∧
    observed.covers after.requiredFrontier = true

theorem guardFence_eq_ok {existing : Option ReclamationTombstone} {fence : Nat}
    (passed : guardFence existing fence = .ok ()) :
    ∀ prior, existing = some prior → prior.fence ≤ fence := by
  rintro prior rfl
  rw [guardFence, ReclamationTombstone.validateFence] at passed
  split at passed
  · cases passed
  next current => exact not_lt.mp current

theorem skipReason_eq_none {snapshot : ReclamationSnapshot} {referenced : Bool}
    (none : skipReason snapshot referenced = none) :
    referenced = false ∧ ∀ record ∈ snapshot.placements, record.state.status ≠ .verified := by
  unfold skipReason at none
  split at none
  · cases none
  next unreferenced =>
    split at none
    · cases none
    next unserved =>
      refine ⟨Bool.eq_false_of_not_eq_true unreferenced, fun record mem verified => ?_⟩
      exact unserved (List.any_eq_true.mpr ⟨record, mem, decide_eq_true verified⟩)

theorem ObservedFrontier.le_of_covers {observed : ObservedFrontier} {required frontier : Nat}
    (covers : observed.covers required = true)
    (seen : some frontier ∈ [observed.replica, observed.backup]) : required ≤ frontier := by
  rw [ObservedFrontier.covers, Bool.and_eq_true] at covers
  obtain seen | seen := List.mem_pair.mp seen
  · rw [← seen, Option.all_some] at covers
    exact of_decide_eq_true covers.1
  · rw [← seen, Option.all_some] at covers
    exact of_decide_eq_true covers.2

section

variable {digest : ArtifactDigest} {referenced : Bool}
  {snapshot : ReclamationSnapshot} {after prior : ReclamationTombstone}

theorem PassTask.decides_advance (found : snapshot.tombstone = some prior)
    (owned : prior.fence ≤ call.fence) {state : ReclamationState} {required : Nat}
    (higher : prior.requiredFrontier ≤ required)
    (ready : state = .ready → ∃ observed, task = .mark observed ∧ referenced = false ∧
      (∀ record ∈ snapshot.placements, record.state.status ≠ .verified) ∧
      observed.covers required = true) :
    task.Decides call digest referenced snapshot
      (prior.advance state required call.fence call.now) where
  fence other same := by
    cases found.symm.trans same
    exact owned
  grows other same := by
    cases found.symm.trans same
    exact ⟨rfl, le_max_left _ _, higher⟩
  fresh absent := nomatch found.symm.trans absent
  ready := ready

theorem decides_select {required : Nat} {outcome : SelectOutcome}
    (decided : decideReclamationSelection digest snapshot referenced required call.fence call.now =
      .ok outcome) (writes : outcome.replacement = some after) :
    (PassTask.select required).Decides call digest referenced snapshot after := by
  obtain ⟨_, passed, decided⟩ := bind_eq_ok.mp decided
  have owned := guardFence_eq_ok passed
  cases decided
  cases found : snapshot.tombstone with
  | none =>
    cases skip : skipReason snapshot referenced <;> rw [found, skip] at writes <;> cases writes
    exact ⟨owned, fun _ present => (nomatch found.symm.trans present), fun _ => rfl, nofun⟩
  | some prior =>
    cases skip : skipReason snapshot referenced <;> rw [found, skip] at writes <;> cases writes
    · exact PassTask.decides_advance found (owned prior found) (le_max_left _ _) nofun
    · exact PassTask.decides_advance found (owned prior found) (Nat.le_refl _) nofun

theorem decides_mark {observed : ObservedFrontier} {outcome : ReadyOutcome}
    (decided : decideReclamationReadiness snapshot referenced observed call.fence call.now =
      .ok outcome) (changed : snapshot.tombstone ≠ some outcome.replacement) :
    (PassTask.mark observed).Decides call digest referenced snapshot outcome.replacement := by
  unfold decideReclamationReadiness at decided
  cases found : snapshot.tombstone with
  | none =>
    rw [found] at decided
    cases decided
  | some prior =>
    rw [found] at decided changed
    obtain ⟨_, passed, decided⟩ := bind_eq_ok.mp decided
    have owned := guardFence_eq_ok passed prior rfl
    cases decided
    cases stands : prior.state with
    | ready =>
      rw [stands] at changed
      exact absurd rfl changed
    | skipped reason =>
      rw [stands] at changed
      exact absurd rfl changed
    | pending =>
      cases skip : skipReason snapshot referenced with
      | some reason => exact PassTask.decides_advance found owned (Nat.le_refl _) nofun
      | none =>
        obtain ⟨unreferenced, unserved⟩ := skipReason_eq_none skip
        dsimp only
        split
        next covers =>
          refine PassTask.decides_advance found owned (Nat.le_refl _) fun _ => ?_
          exact ⟨observed, rfl, unreferenced, unserved, covers⟩
        · exact PassTask.decides_advance found owned (Nat.le_refl _) nofun

theorem PassTask.decides_of_decide {changes : Bool}
    (decided : task.decide call digest referenced snapshot = .ok ⟨changes, some after⟩) :
    task.Decides call digest referenced snapshot after := by
  cases task with
  | select required =>
    obtain ⟨outcome, chosen, same⟩ := map_eq_ok.mp decided
    exact decides_select chosen (congrArg PassDecision.replacement same)
  | mark observed =>
    obtain ⟨outcome, chosen, same⟩ := map_eq_ok.mp decided
    have writes := congrArg PassDecision.replacement same
    dsimp only at writes
    split at writes
    · cases writes
    next changed =>
      cases writes
      exact decides_mark chosen changed

end

/-! ## What a pass knows -/

namespace PassPhase

def Sound (inventory : Inventory Bytes) (metadata : MetaStore Bytes) (call : PassCall) :
    PassPhase Bytes → Prop
  | .starting | .proving _ | .observing => True
  | .scanning _ scan => scan.Sound inventory metadata
  | .paging _ proved | .taking _ proved _ | .deciding _ proved _ _ =>
    ScanCovers inventory metadata proved.revision proved.digests
  | .writing task proved digest _ snapshot replacement _ =>
    ScanCovers inventory metadata proved.revision proved.digests ∧
      task.Decides call digest (digest.sha256 ∈ proved.digests) snapshot replacement ∧
      replacement.digest = digest

variable {metadata metadata' : MetaStore Bytes}

theorem Sound.move {phase : PassPhase Bytes} (sound : phase.Sound inventory metadata call)
    (move : RowsMove metadata metadata') : phase.Sound inventory metadata' call := by
  cases phase with
  | starting | proving | observing => trivial
  | scanning => exact ReferenceScan.Sound.move sound move
  | paging | taking | deciding => exact ScanCovers.move sound move
  | writing => exact ⟨ScanCovers.move sound.1 move, sound.2⟩

end PassPhase

/-! ## Interleavings -/

namespace Reclaiming

variable {state : Reclaiming Bytes}

def Sound (inventory : Inventory Bytes) (state : Reclaiming Bytes) : Prop :=
  ∀ (id : Nat) (pass : ReclamationPass Bytes), state.passes[id]? = some pass →
    pass.phase.Sound inventory state.metadata pass.call

/-- A write to a tombstone: decided over what the store holds at that moment,
by a pass whose inventory still stands. -/
structure Commits (inventory : Inventory Bytes) (state : Reclaiming Bytes)
    (update : TombstoneUpdate Bytes) : Prop where
  store : update.store = state.metadata
  stands : update.store.referenceRevision = update.proved.revision
  covers : ScanCovers inventory update.store update.proved.revision update.proved.digests
  decides : update.task.Decides update.call update.digest
    (update.digest.sha256 ∈ update.proved.digests) update.snapshot update.after
  digest : update.after.digest = update.digest
  snapshot : state.reclamationSnapshot update.digest = update.snapshot

/-- What a step leads to: the tombstones as they were, or one write. -/
inductive Leads (inventory : Inventory Bytes) (state : Reclaiming Bytes) :
    Reclaiming Bytes × ReclamationEvent Bytes → Prop
  | same {after : Reclaiming Bytes} {event : ReclamationEvent Bytes}
    (sound : after.Sound inventory) (tombstones : after.tombstones = state.tombstones)
    (unwritten : ∀ update, event ≠ .written update) : Leads inventory state (after, event)
  | written {after : Reclaiming Bytes} (update : TombstoneUpdate Bytes)
    (sound : after.Sound inventory) (commits : Commits inventory state update)
    (tombstones : after.tombstones = state.tombstones.insert update.after) :
    Leads inventory state (after, .written update)

theorem Sound.drop (sound : state.Sound inventory) (id : Nat) :
    (state.drop id).Sound inventory := by
  intro other pass found
  refine sound other pass ?_
  obtain ⟨-, found⟩ := BTreeMap.of_get_erase found
  exact found

variable {pass : ReclamationPass Bytes} {proved : ProvedReferences}
    {page : PassPage}

section

variable (sound : state.Sound inventory)

include sound

theorem Sound.put (id : Nat) (holds : pass.phase.Sound inventory state.metadata pass.call) :
    (state.put id pass).Sound inventory := by
  intro other stored found
  obtain ⟨-, rfl⟩ | ⟨-, found⟩ := BTreeMap.of_get_insert found
  · exact holds
  · exact sound other stored found

theorem Sound.move {metadata : MetaStore Bytes}
    (move : RowsMove state.metadata metadata) : { state with metadata }.Sound inventory :=
  fun id pass found => (sound id pass found).move move

theorem Leads.goes (id : Nat) (holds : pass.phase.Sound inventory state.metadata pass.call) :
    Leads inventory state (state.put id pass, .quiet) :=
  .same (sound.put id holds) rfl fun _ => nofun

theorem Leads.ends (id : Nat) (result : PassResult) :
    Leads inventory state (state.drop id, .returned result) :=
  .same (sound.drop id) rfl fun _ => nofun

theorem Sound.advanceCursor (task : PassTask)
    (cursor : Option String) : (state.advanceCursor task cursor).Sound inventory := by
  cases task <;> exact sound

theorem leads_take (id : Nat)
    (covers : ScanCovers inventory state.metadata proved.revision proved.digests) :
    Leads inventory state (state.take id pass task proved page) := by
  unfold take
  split
  · exact .same ((sound.advanceCursor _ _).put id trivial) rfl fun _ => nofun
  · exact .same ((sound.advanceCursor _ _).drop id) rfl fun _ => nofun
  · split
    · exact .goes sound id covers
    · exact .goes sound id covers
  · exact .goes sound id covers

theorem leads_decide (id : Nat) {digest : ArtifactDigest}
    (covers : ScanCovers inventory state.metadata proved.revision proved.digests) :
    Leads inventory state (state.decide id pass task proved digest page) := by
  unfold decide
  dsimp only
  split
  · exact .ends sound id _
  · exact .goes sound id covers
  next changes replacement decided =>
    have decides := PassTask.decides_of_decide decided
    refine .goes sound id ⟨covers, decides, ?_⟩
    cases found : state.tombstones.find digest with
    | none => exact decides.fresh found
    | some prior =>
      rw [(decides.grows prior found).1]
      exact ArtifactDigest.canonical_injective (state.tombstones.keyed _ _ found)

theorem leads_write (id : Nat) {digest : ArtifactDigest}
    {snapshot : ReclamationSnapshot} {replacement : ReclamationTombstone} (changes : Bool)
    (covers : ScanCovers inventory state.metadata proved.revision proved.digests)
    (decides : task.Decides pass.call digest (digest.sha256 ∈ proved.digests) snapshot replacement)
    (own : replacement.digest = digest) :
    Leads inventory state
      (state.write id pass task proved digest page snapshot replacement changes) := by
  unfold write compareAndPutReclamationTombstone
  by_cases moved : state.metadata.referenceRevision ≠ proved.revision
  · rw [if_pos moved]
    exact .ends sound id _
  · rw [if_neg moved]
    by_cases matches' : state.reclamationSnapshot replacement.digest = snapshot
    · rw [if_pos matches']
      have kept : { state with tombstones := state.tombstones.insert replacement }.Sound
          inventory := sound
      exact .written _ (kept.put id covers)
        ⟨rfl, not_not.mp moved, covers, decides, own, own ▸ matches'⟩ rfl
    · rw [if_neg matches']
      exact .goes sound id covers

theorem leads_passStep {id : Nat} (found : state.passes[id]? = some pass) (input : PassInput) :
    Leads inventory state (state.passStep inventory id pass input) := by
  have holds : ∀ {phase}, pass.phase = phase → phase.Sound inventory state.metadata pass.call :=
    fun is => is ▸ sound id pass found
  unfold passStep
  split
  next started =>
    split
    · exact .ends sound id _
    · exact .goes sound id trivial
  next => exact .goes sound id (ReferenceScan.sound_start inventory state.metadata)
  next scan others phase =>
    split
    · exact .same sound rfl fun _ => nofun
    next part left next => exact .goes sound id (ReferenceScan.Sound.read (holds phase) next others)
  next scan phase =>
    split
    · exact .same sound rfl fun _ => nofun
    next done =>
      split
      · exact .goes sound id (ReferenceScan.Sound.covers (holds phase) done)
      · exact .ends sound id _
  iterate 2
    next phase =>
      have proved := holds phase
      exact .goes sound id proved
  next phase => exact leads_take sound id (holds phase)
  next phase => exact leads_decide sound id (holds phase)
  next phase =>
    obtain ⟨scanned, taken, decided⟩ := holds phase
    exact leads_write sound id _ scanned taken decided
  next => exact .ends sound id _
  next => exact .goes sound id trivial
  next => exact .same sound rfl fun _ => nofun

theorem leads_step (taken : ReclamationStep Bytes) :
    Leads inventory state (step inventory state taken) := by
  unfold step
  cases taken with
  | commit expectedSerial ops journal now collectorActive =>
    dsimp only
    split
    next metadata serial committed =>
      exact .same (sound.move (rowsMove_commit committed)) rfl fun _ => nofun
    · exact .same sound rfl fun _ => nofun
  | placement step => exact .same sound rfl fun _ => nofun
  | start id call =>
    dsimp only
    split
    · exact .goes sound id trivial
    · exact .same sound rfl fun _ => nofun
  | pass id input =>
    dsimp only
    split
    next found => exact leads_passStep sound found input
    · exact .same sound rfl fun _ => nofun
  | stop id => exact .same (sound.drop id) rfl fun _ => nofun

end

def updateOf (digest : ArtifactDigest) : ReclamationEvent Bytes → Option (TombstoneUpdate Bytes)
  | .written update => if update.digest = digest then some update else none
  | .quiet | .returned _ => none

def updatesOf (digest : ArtifactDigest) (events : List (ReclamationEvent Bytes)) :
    List (TombstoneUpdate Bytes) :=
  events.filterMap (updateOf digest)

structure Proved (inventory : Inventory Bytes) (update : TombstoneUpdate Bytes) : Prop where
  stands : update.store.referenceRevision = update.proved.revision
  covers : ScanCovers inventory update.store update.proved.revision update.proved.digests
  decides : update.task.Decides update.call update.digest
    (update.digest.sha256 ∈ update.proved.digests) update.snapshot update.after

theorem updates_chain (inventory : Inventory Bytes) (digest : ArtifactDigest)
    (steps : List (ReclamationStep Bytes))
    (sound : state.Sound inventory) :
    let updates := updatesOf digest (Machine.answers (step inventory) state steps)
    Chain TombstoneUpdate.before TombstoneUpdate.after (state.tombstones.find digest) updates
        ((Machine.exec (step inventory) state steps).tombstones.find digest) ∧
      ∀ update ∈ updates, update.digest = digest ∧ Proved inventory update := by
  refine Chain.of_run (I := Sound inventory) (·.tombstones.find digest) (updateOf digest)
    (fun state taken sound => ?_) steps sound
  have leads := leads_step sound taken
  generalize step inventory state taken = result at leads
  cases leads with
  | @same after event sound' tombstones unwritten =>
    refine ⟨sound', .inl ⟨?_, congrArg (·.find digest) tombstones⟩⟩
    cases event with
    | written update => exact absurd rfl (unwritten update)
    | _ => rfl
  | @written after update sound' commits tombstones =>
    refine ⟨sound', ?_⟩
    rw [tombstones, TombstoneTable.find_insert, commits.digest]
    by_cases own : update.digest = digest
    · subst own
      have before : state.tombstones.find update.digest = update.before :=
        congrArg ReclamationSnapshot.tombstone commits.snapshot
      exact .inr ⟨update, if_pos rfl, before, if_pos rfl, rfl, commits.stands,
        commits.covers, commits.decides⟩
    · exact .inl ⟨if_neg own, if_neg own⟩

end Reclaiming

open Reclaiming in
/-- Passes of any term, batch and number, beside commits and placement writes:
fence and required frontier of a tombstone only grow, an older term writes
nothing, and a tombstone is written ready only in a transaction in which the
revision its pass proved still stands, so that no row references the digest, no
placement of it is verified, and every observed frontier is at the required one.
-/
theorem readiness_is_proved (inventory : Inventory Bytes) (start : Reclaiming Bytes)
    (steps : List (ReclamationStep Bytes)) (digest : ArtifactDigest) :
    let idle : Reclaiming Bytes := { start with passes := ∅ }
    let updates := updatesOf digest (Machine.answers (step inventory) idle steps)
    let ends := (Machine.exec (step inventory) idle steps).tombstones
    let rows := Chain.rows TombstoneUpdate.after (start.tombstones.find digest) updates
    Chain TombstoneUpdate.before TombstoneUpdate.after (start.tombstones.find digest) updates
      (ends.find digest) ∧
    rows.Pairwise (fun earlier later =>
      earlier.fence ≤ later.fence ∧ earlier.requiredFrontier ≤ later.requiredFrontier) ∧
    (∀ update ∈ updates, ∀ prior, update.before = some prior → prior.fence ≤ update.call.fence) ∧
    ∀ update ∈ updates, update.after.state = .ready →
      update.store.referenceRevision = update.proved.revision ∧
      digest.sha256 ∉ update.proved.digests ∧
      ¬ Referenced inventory update.store.driverKv digest.sha256 ∧
      (∀ record ∈ update.snapshot.placements, record.state.status ≠ .verified) ∧
      ∃ observed, update.task = .mark observed ∧
        ∀ frontier, some frontier ∈ [observed.replica, observed.backup] →
          update.after.requiredFrontier ≤ frontier := by
  intro idle updates ends rows
  have sound : idle.Sound inventory := by
    intro id pass found
    rw [BTreeMap.get_empty] at found
    cases found
  obtain ⟨chain, each⟩ := updates_chain inventory digest steps sound
  refine ⟨chain, ?_, ?_, ?_⟩
  · refine (chain.pairwise_iff fun ab bc => ⟨ab.1.trans bc.1, ab.2.trans bc.2⟩).mpr ?_
    exact fun update mem prior found => ((each update mem).2.decides.grows prior found).2
  · exact fun update mem => (each update mem).2.decides.fence
  · intro update mem ready
    obtain ⟨rfl, proved⟩ := each update mem
    obtain ⟨observed, marks, unreferenced, unserved, covers⟩ := proved.decides.ready ready
    have absent : update.digest.sha256 ∉ update.proved.digests := of_decide_eq_false unreferenced
    refine ⟨proved.stands, absent, proved.covers.referenced proved.stands absent, unserved,
      observed, marks, fun frontier seen => ?_⟩
    exact ObservedFrontier.le_of_covers covers seen

end Peryx
