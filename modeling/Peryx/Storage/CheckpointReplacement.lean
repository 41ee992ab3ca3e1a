import Peryx.Storage.CheckpointTransfer

/-!
# Installing a checkpoint, all or nothing

`install_staged_checkpoint` of `meta/checkpoint_transfer.rs` as the
transactions it runs: two that read, one that replaces the node's state, and
one that drops what was staged, any of which the database may fail.

- `install_is_all_or_nothing`: what each fault leaves behind.
-/

namespace Peryx

open List Peryx.Except

variable {Bytes : Type}

inductive InstallFault where
  | readHeader
  | readStaged
  | replace
  | discard
deriving DecidableEq

namespace MetaStore

def installOn (canonical : CanonicalBytes Bytes) (fault : Option InstallFault)
    (store : MetaStore Bytes) (cursorKey : String) (cursorValue : Bytes) :
    MetaStore Bytes × Except CheckpointInstallError CheckpointManifest :=
  let failed := .error (.store .storage)
  if fault = some .readHeader then
    (store, failed)
  else
    match store.stagedCheckpoint with
    | none => (store, .error .notStaged)
    | some staged =>
      if staged.received ≠ staged.manifest.bytes then
        (store, .error (.incomplete staged.received staged.manifest.bytes))
      else if fault = some .readStaged then
        (store, failed)
      else
        match store.decodeStaged canonical with
        | .error error => (store, .error error)
        | .ok decoded =>
          match verifyDecoded staged.manifest decoded with
          | .error error => (store, .error (.verify error))
          | .ok () =>
            if fault = some .replace then
              (store, failed)
            else
              let replaced := store.replaceState decoded staged.manifest cursorKey cursorValue
              -- the state is in place before what was staged is dropped
              if fault = some .discard then
                (replaced, failed)
              else
                (replaced.discardStagedCheckpoint, .ok staged.manifest)

end MetaStore

/-! ## What a receiver can do -/

inductive ReceiverCall (Bytes : Type) where
  | begin (manifest : CheckpointManifest)
  | stage (manifest : CheckpointManifest) (offset : Nat) (bytes : List UInt8) (cursor : String)
  | discard
  | install (fault : Option InstallFault) (cursorKey : String) (cursorValue : Bytes)

def MetaStore.receive (canonical : CanonicalBytes Bytes) (store : MetaStore Bytes) :
    ReceiverCall Bytes → MetaStore Bytes × Unit
  | .begin manifest => (store.beginCheckpointTransfer manifest, ())
  | .stage manifest offset bytes cursor =>
    (store.settled (store.stageCheckpointChunk manifest offset bytes cursor), ())
  | .discard => (store.discardStagedCheckpoint, ())
  | .install fault cursorKey cursorValue =>
    ((store.installOn canonical fault cursorKey cursorValue).1, ())

/-! ## What a replacement leaves behind -/

def DecodedCheckpoint.state (decoded : DecodedCheckpoint Bytes) : CheckpointState Bytes :=
  ⟨decoded.rows, decoded.revocations, decoded.blobs⟩

def MetaStore.stagedBytes (store : MetaStore Bytes) : List UInt8 :=
  (store.staging.toList.map (·.2)).flatten

/-- `store'` is `store` with its replicated state replaced by `decoded`, what
`store` had staged under `manifest`. -/
structure Installed (codec : CanonicalCodec Bytes) (store store' : MetaStore Bytes)
    (manifest : CheckpointManifest) (cursorKey : String) (cursorValue : Bytes)
    (decoded : DecodedCheckpoint Bytes) : Prop where
  staged : store.stagedHeader.map (·.manifest) = some manifest
  decodes : store.decodeStaged codec.toCanonicalBytes = .ok decoded
  rows : store'.driverKv = decoded.rows.insert cursorKey cursorValue
  revocations : store'.revocations = replaceDigestRevocations decoded.revocations
  journal : store'.journal = .standingAt manifest.serial
  floor : store'.retainedFloor = some (manifest.serial.u64SaturatingAdd 1)
  published : store'.published = .ofState decoded.state manifest
  blobRecovery : store'.blobRecovery = some ""
  length : store.stagedBytes.length = manifest.bytes
  counts : manifest.rows = decoded.rows.size ∧
    manifest.revocations = decoded.revocations.size ∧ manifest.blobs = decoded.blobs.size
  digest : decoded.digest = manifest.digest

namespace MetaStore

variable {decoded : DecodedCheckpoint Bytes}

theorem verifyDecoded_eq_ok {manifest : CheckpointManifest}
    (h : verifyDecoded manifest decoded = .ok ()) :
    (manifest.rows = decoded.rows.size ∧ manifest.revocations = decoded.revocations.size ∧
      manifest.blobs = decoded.blobs.size) ∧ decoded.digest = manifest.digest := by
  obtain ⟨rows, h⟩ := guard_eq_ok.mp h
  obtain ⟨revocations, h⟩ := guard_eq_ok.mp h
  obtain ⟨blobs, h⟩ := guard_eq_ok.mp h
  obtain ⟨digest, -⟩ := guard_eq_ok.mp h
  exact ⟨⟨not_not.mp rows, not_not.mp revocations, not_not.mp blobs⟩, not_not.mp digest⟩

theorem length_stagedBytes (store : MetaStore Bytes) :
    store.stagedBytes.length = (store.staging.toList.map fun (_, bytes) => bytes.length).sum := by
  rw [stagedBytes, length_flatten, map_map]
  rfl

theorem replaceState_installed {codec : CanonicalCodec Bytes} {store : MetaStore Bytes}
    {staged : StagedCheckpoint}
    (header : store.stagedCheckpoint = some staged)
    (whole : staged.received = staged.manifest.bytes)
    (decodes : store.decodeStaged codec.toCanonicalBytes = .ok decoded)
    (verified : verifyDecoded staged.manifest decoded = .ok ()) (cursorKey : String)
    (cursorValue : Bytes) :
    Installed codec store (store.replaceState decoded staged.manifest cursorKey cursorValue)
      staged.manifest cursorKey cursorValue decoded := by
  obtain ⟨counts, digest⟩ := verifyDecoded_eq_ok verified
  obtain ⟨held, stored, rfl⟩ := Option.map_eq_some_iff.mp header
  constructor
  case staged => rw [stored, Option.map_some]
  case decodes => exact decodes
  case length => exact (store.length_stagedBytes).trans whole
  case counts => exact counts
  case digest => exact digest
  all_goals rfl

/-- **Step.** An install changes nothing, or replaces the state and either
answers with the manifest or fails to drop what was staged. -/
theorem installOn_cases (codec : CanonicalCodec Bytes) (fault : Option InstallFault)
    (store : MetaStore Bytes) (cursorKey : String) (cursorValue : Bytes) :
    let (store', answer) := store.installOn codec.toCanonicalBytes fault cursorKey cursorValue
    (store' = store ∧ ∃ error, answer = .error error) ∨
      ∃ manifest decoded, Installed codec store store' manifest cursorKey cursorValue decoded ∧
        ((fault = some .discard ∧ answer = .error (.store .storage)) ∨ answer = .ok manifest) := by
  have unchanged : ∀ error : CheckpointInstallError,
      (store = store ∧ ∃ error', (.error error : Except CheckpointInstallError CheckpointManifest) =
        .error error') := fun error => ⟨rfl, error, rfl⟩
  unfold installOn
  by_cases readHeader : fault = some .readHeader
  · rw [if_pos readHeader]
    exact .inl (unchanged _)
  rw [if_neg readHeader]
  cases header : store.stagedCheckpoint with
  | none => exact .inl (unchanged _)
  | some staged =>
    dsimp only
    by_cases short : staged.received ≠ staged.manifest.bytes
    · rw [if_pos short]
      exact .inl (unchanged _)
    rw [if_neg short]
    by_cases readStaged : fault = some .readStaged
    · rw [if_pos readStaged]
      exact .inl (unchanged _)
    rw [if_neg readStaged]
    cases decodes : store.decodeStaged codec.toCanonicalBytes with
    | error error => exact .inl (unchanged _)
    | ok decoded =>
      dsimp only
      cases verified : verifyDecoded staged.manifest decoded with
      | error error => exact .inl (unchanged _)
      | ok =>
        by_cases replace : fault = some .replace
        · rw [if_pos replace]
          exact .inl (unchanged _)
        rw [if_neg replace]
        have installed := replaceState_installed header (not_not.mp short) decodes verified
          cursorKey cursorValue
        by_cases discard : fault = some .discard
        · rw [if_pos discard]
          exact .inr ⟨_, _, installed, .inl ⟨discard, rfl⟩⟩
        · rw [if_neg discard]
          exact .inr ⟨_, _, { installed with }, .inr rfl⟩

end MetaStore

/-! ## What was decoded is what the manifest signs -/

variable {state : CheckpointState Bytes}

theorem CheckpointTables.state_ofState (one : state.OneSize)
    (manifest : CheckpointManifest) : (CheckpointTables.ofState state manifest).state = state := by
  refine CheckpointState.ext rfl rfl ?_
  unfold CheckpointTables.state
  rw [blobs_ofState one, foldl_map]
  exact BTreeSet.foldl_insert_toList state.blobs

theorem MetaStore.decodeStaged_canonical {codec : CanonicalCodec Bytes} {store : MetaStore Bytes}
    (sized : state.Sized codec)
    (canonical : store.stagedBytes = state.canonical codec) :
    store.decodeStaged codec.toCanonicalBytes = .ok
      { rows := state.rows
        revocations := state.revocations
        blobs := state.blobs
        digest := hexEncode (codec.sha256 (state.canonical codec)) } := by
  obtain ⟨decoder, pushed, finished⟩ := CanonicalDecoder.pushAll_canonical sized canonical
  rw [foldlM_map] at pushed
  exact bind_eq_ok.mpr ⟨decoder, pushed, finished⟩

/-- After any calls of a receiver, whichever transactions fail, an install
answers with an error and leaves the whole store as it was, unless all that
failed was dropping what it had staged once the new state was in place; or it
answers with the manifest. In these two cases the state is what was staged,
which has the length, the counts and the digest the manifest declares; staged
canonical bytes of a state are decoded as that state. -/
theorem install_is_all_or_nothing (codec : CanonicalCodec Bytes) (start : MetaStore Bytes)
    (calls : List (ReceiverCall Bytes)) (fault : Option InstallFault) (cursorKey : String)
    (cursorValue : Bytes) :
    let store := Machine.exec (MetaStore.receive codec.toCanonicalBytes) start calls
    let (store', answer) := store.installOn codec.toCanonicalBytes fault cursorKey cursorValue
    ((∃ error, answer = .error error) ∧ store' = store) ∨
    ∃ manifest decoded,
      (answer = .ok manifest ∨ fault = some .discard ∧ answer = .error (.store .storage)) ∧
      store.decodeStaged codec.toCanonicalBytes = .ok decoded ∧
      store'.driverKv = decoded.rows.insert cursorKey cursorValue ∧
      store'.revocations.records = decoded.revocations ∧
      store'.journal.records = [] ∧ store'.currentSerial = manifest.serial ∧
      store'.retainedFloor = some (min (manifest.serial + 1) Nat.u64Max) ∧
      store'.published.manifest = some manifest ∧
      store'.published.rows = decoded.rows ∧
      store'.published.revocations = decoded.revocations ∧
      (decoded.state.OneSize → store'.published.state = decoded.state) ∧
      manifest.rows = decoded.rows.size ∧ manifest.revocations = decoded.revocations.size ∧
      manifest.blobs = decoded.blobs.size ∧ manifest.digest = decoded.digest ∧
      ∀ state : CheckpointState Bytes, state.Sized codec →
        store.stagedBytes = state.canonical codec →
          decoded.state = state ∧ (decoded.state.canonical codec).length = manifest.bytes ∧
          hexEncode (codec.sha256 (decoded.state.canonical codec)) = manifest.digest := by
  intro store
  rcases store.installOn_cases codec fault cursorKey cursorValue with
    ⟨same, failed⟩ | ⟨manifest, decoded, installed, answered⟩
  · exact .inl ⟨failed, same⟩
  refine .inr ⟨manifest, decoded, answered.symm, installed.decodes, installed.rows, ?_, ?_, ?_,
    installed.floor, ?_, ?_, ?_, ?_, installed.counts.1, installed.counts.2.1,
    installed.counts.2.2, installed.digest.symm, ?_⟩
  · rw [installed.revocations]
    rfl
  · rw [installed.journal]
    rfl
  · rw [MetaStore.currentSerial, installed.journal]
    rfl
  · rw [installed.published]
    rfl
  · rw [installed.published]
    rfl
  · rw [installed.published]
    rfl
  · intro one
    rw [installed.published, CheckpointTables.state_ofState one]
  · intro state sized canonical
    have decodes := installed.decodes
    rw [MetaStore.decodeStaged_canonical sized canonical] at decodes
    cases decodes
    exact ⟨rfl, canonical ▸ installed.length, installed.digest⟩

namespace PlainVec

def twoSizes : CheckpointState (List UInt8) where
  blobs := Std.ExtTreeSet.ofList [⟨"bb", 1⟩, ⟨"bb", 2⟩] compare

/-- The install of an empty node that was sent `state` in one chunk. -/
def installSent (state : CheckpointState (List UInt8)) (serial : Nat)
    (fault : Option InstallFault) :
    MetaStore (List UInt8) × Except CheckpointInstallError CheckpointManifest :=
  let manifest := manifestOf state 1 serial 1
  let calls := [.begin manifest, .stage manifest 0 (state.canonical codec) ""]
  (Machine.exec (MetaStore.receive codec.toCanonicalBytes) {} calls).installOn
    codec.toCanonicalBytes fault "replication/peer" []

end PlainVec

/-- The published blobs keep one size of a digest that was sent with two, the
floor above the last serial is that serial, and an install that cannot drop
what it staged answers with an error although the new state is in place. -/
theorem install_loses_a_size_a_floor_or_an_answer :
    ((PlainVec.installSent PlainVec.twoSizes 1 none).2 =
        .ok (PlainVec.manifestOf PlainVec.twoSizes 1 1 1) ∧
      (PlainVec.installSent PlainVec.twoSizes 1 none).1.published.state ≠ PlainVec.twoSizes) ∧
    ((PlainVec.installSent {} Nat.u64Max none).2 = .ok (PlainVec.manifestOf {} 1 Nat.u64Max 1) ∧
      (PlainVec.installSent {} Nat.u64Max none).1.retainedFloor ≠ some (Nat.u64Max + 1)) ∧
    (PlainVec.installSent PlainVec.released 1 (some .discard)).2 = .error (.store .storage) ∧
      (PlainVec.installSent PlainVec.released 1 (some .discard)).1.driverKv ≠ ∅ := by
  have size : ∀ state : CheckpointState (List UInt8), state.blobs.size = 1 →
      state ≠ PlainVec.twoSizes := by
    rintro _ one rfl
    exact absurd one (by decide +kernel)
  refine ⟨⟨by decide +kernel, size _ (by decide +kernel)⟩, ?_, by decide +kernel, ?_⟩
  · exact ⟨by decide +kernel, by decide +kernel⟩
  · intro empty
    have rows := congrArg Std.ExtTreeMap.size empty
    exact absurd rows (by decide +kernel)

end Peryx
