import Peryx.Storage.Canonical
import Peryx.Storage.Replicated

/-!
# The state a checkpoint publishes

`CheckpointState` of `meta/checkpoint.rs`: the replicated state at one serial,
folded from the journal record by record, and the bytes its manifest signs.
-/

namespace Peryx

open Peryx.Except

variable {Bytes : Type}

@[ext]
structure CheckpointState (Bytes : Type) where
  rows : BTreeMap String Bytes := ∅
  revocations : BTreeMap String DigestRevocation := ∅
  blobs : Std.ExtTreeSet DriverBlobReference compare := ∅

/-- The most digests one missing-size error names. -/
def missingBlobSizeBatch : Nat := 256

namespace CheckpointState

/-! ## Folding the journal -/

/-- Folds one journal record in. A payload that carries no core operation
contributes only through the mutations beside it. -/
def apply (json : SerdeJson Bytes) (state : CheckpointState Bytes) (entry : JournalEntry Bytes) :
    Except MetaError (CheckpointState Bytes) :=
  let rows := entry.mutations.foldl DriverMutation.write state.rows
  (ServerMutation.decode json entry.payload).map fun server =>
    { rows
      revocations := Replicated.absorbServer state.revocations server
      blobs := entry.blobs.foldl (·.insert ·) state.blobs }

def foldAll (json : SerdeJson Bytes) (state : CheckpointState Bytes)
    (entries : List (JournalEntry Bytes)) : Except MetaError (CheckpointState Bytes) :=
  entries.foldlM (apply json) state

/-- Keeps the live blobs the journal named, and takes the sizes of the other
live ones from `supplemental`. -/
def retainBlobs (state : CheckpointState Bytes) (digests : Std.ExtTreeSet String compare)
    (supplemental : BTreeMap String Nat) : Except MetaError (CheckpointState Bytes) :=
  let retained := state.blobs.filter (·.sha256 ∈ digests)
  let found := retained.toList.map (·.sha256)
  let absent := digests.toList.filter (· ∉ found)
  let missing := absent.filter (supplemental[·]?.isNone)
  if missing.isEmpty then
    .ok { state with
      blobs := absent.foldl (fun blobs digest =>
        match supplemental[digest]? with
        | some size => blobs.insert ⟨digest, size⟩
        | none => blobs) retained }
  else
    .error (.checkpointBlobSizesMissing (missing.take missingBlobSizeBatch))

end CheckpointState

/-! ## The canonical bytes -/

/-- What the encoder takes from other crates, beside what the decoder does: a
row is the bytes it was made from, and a revocation's JSON reads back. -/
structure CanonicalCodec (Bytes : Type) extends CanonicalBytes Bytes where
  toVec : Bytes → List UInt8
  ofVec_toVec : ∀ bytes, ofVec (toVec bytes) = bytes
  /-- `serde_json::to_vec` at a revocation. -/
  toJson : DigestRevocation → List UInt8
  fromSlice_toJson : ∀ record, fromSlice (toJson record) = some record

/-- The low `width` bytes of a number, least significant first. -/
def leBytes : Nat → Nat → List UInt8
  | 0, _ => []
  | width + 1, n => UInt8.ofNat (n % 256) :: leBytes width (n / 256)

/-- `u64::to_le_bytes`. -/
def toLeBytes (n : Nat) : List UInt8 :=
  leBytes 8 n

/-- `str::as_bytes`. -/
def asBytes (s : String) : List UInt8 :=
  s.toUTF8.data.toList

def pushBytes (encoded bytes : List UInt8) : List UInt8 :=
  encoded ++ toLeBytes bytes.length ++ bytes

def pushField (encoded : List UInt8) (tag : UInt8) (key : List UInt8) : List UInt8 :=
  pushBytes (encoded ++ [tag]) key

namespace CheckpointState

variable (codec : CanonicalCodec Bytes)

def pushRow (encoded : List UInt8) (row : String × Bytes) : List UInt8 :=
  pushBytes (pushField encoded rowTag (asBytes row.1)) (codec.toVec row.2)

def pushRevocation (encoded : List UInt8) (row : String × DigestRevocation) : List UInt8 :=
  pushBytes (pushField encoded revocationTag (asBytes row.1)) (codec.toJson row.2)

def pushBlob (encoded : List UInt8) (sha256 : String) (size : Nat) : List UInt8 :=
  pushField encoded blobTag (asBytes sha256) ++ toLeBytes size

def canonical (state : CheckpointState Bytes) : List UInt8 :=
  let encoded := state.rows.toList.foldl (pushRow codec) []
  let encoded := state.revocations.toList.foldl (pushRevocation codec) encoded
  state.blobs.toList.foldl (fun encoded blob => pushBlob encoded blob.sha256 blob.size) encoded

/-- Names this state at `serial`. -/
def manifest (state : CheckpointState Bytes) (identity : CheckpointIdentity) (serial : Nat) :
    CheckpointManifest where
  generation := 0
  identity := identity
  serial := serial
  rows := state.rows.size
  revocations := state.revocations.size
  blobs := state.blobs.size
  bytes := (state.canonical codec).length
  digest := hexEncode (codec.sha256 (state.canonical codec))

/-! ## Rows and revocations fold on their own -/

/-- The same rows and revocations, whatever the blobs. -/
def SameRows (a b : CheckpointState Bytes) : Prop :=
  a.rows = b.rows ∧ a.revocations = b.revocations

theorem SameRows.symm {a b : CheckpointState Bytes} (h : SameRows a b) : SameRows b a :=
  ⟨h.1.symm, h.2.symm⟩

theorem SameRows.trans {a b c : CheckpointState Bytes} (h : SameRows a b) (h' : SameRows b c) :
    SameRows a c :=
  ⟨h.1.trans h'.1, h.2.trans h'.2⟩

variable {json : SerdeJson Bytes}

theorem apply_congr {a b a' : CheckpointState Bytes} (h : SameRows a b)
    {entry : JournalEntry Bytes} (ran : a.apply json entry = .ok a') :
    ∃ b', b.apply json entry = .ok b' ∧ SameRows a' b' := by
  obtain ⟨server, decoded, rfl⟩ := map_eq_ok.mp ran
  refine ⟨_, map_eq_ok.mpr ⟨server, decoded, rfl⟩, ?_, ?_⟩
  · show entry.mutations.foldl DriverMutation.write a.rows = _
    rw [h.1]
  · show Replicated.absorbServer a.revocations server = _
    rw [h.2]

theorem foldAll_congr {a b a' : CheckpointState Bytes} (h : SameRows a b)
    {entries : List (JournalEntry Bytes)} (ran : a.foldAll json entries = .ok a') :
    ∃ b', b.foldAll json entries = .ok b' ∧ SameRows a' b' := by
  induction entries generalizing a b with
  | nil =>
    cases ran
    exact ⟨b, rfl, h⟩
  | cons entry entries ih =>
    obtain ⟨next, first, rest⟩ := bind_eq_ok.mp ran
    obtain ⟨next', first', same⟩ := apply_congr h first
    obtain ⟨b', rest', same'⟩ := ih same rest
    exact ⟨b', bind_eq_ok.mpr ⟨next', first', rest'⟩, same'⟩

theorem foldAll_append {state middle last : CheckpointState Bytes}
    {entries more : List (JournalEntry Bytes)} (first : state.foldAll json entries = .ok middle)
    (rest : middle.foldAll json more = .ok last) :
    state.foldAll json (entries ++ more) = .ok last := by
  unfold foldAll at first rest ⊢
  rw [List.foldlM_append, first]
  exact rest

theorem retainBlobs_sameRows {state state' : CheckpointState Bytes}
    {digests : Std.ExtTreeSet String compare} {supplemental : BTreeMap String Nat}
    (h : state.retainBlobs digests supplemental = .ok state') : SameRows state state' := by
  unfold retainBlobs at h
  dsimp only at h
  split at h
  · cases h
    exact ⟨rfl, rfl⟩
  · cases h

end CheckpointState

end Peryx
