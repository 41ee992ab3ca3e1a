import Peryx.Lib.Except
import Peryx.Storage.Tables

/-!
# Reading a checkpoint's canonical bytes

The decoder of `meta/checkpoint_transfer.rs`: it reads tagged, length-prefixed
entries out of a byte stream that arrives in arbitrary pieces, and holds only
the entry it is part-way through.

A row's bytes are whatever the store keeps, a revocation is JSON, and the
digest is SHA-256: these three are parameters (`CanonicalBytes`).
-/

namespace Peryx

variable {Bytes : Type}

inductive CheckpointVerifyError where
  | truncated (unit : String) (declared actual : Nat)
  | digest (declared actual : String)
deriving DecidableEq

inductive CheckpointInstallError where
  | notStaged
  | incomplete (received declared : Nat)
  | verify (error : CheckpointVerifyError)
  | malformed (offset : Nat)
  | store (error : MetaError)
deriving DecidableEq

structure DecodedCheckpoint (Bytes : Type) where
  rows : BTreeMap String Bytes
  revocations : BTreeMap String DigestRevocation
  blobs : Std.ExtTreeSet DriverBlobReference compare
  digest : String

structure CanonicalBytes (Bytes : Type) where
  ofVec : List UInt8 → Bytes
  /-- `serde_json::from_slice` at a revocation. -/
  fromSlice : List UInt8 → Option DigestRevocation
  sha256 : List UInt8 → List UInt8

/-! ## Fields -/

variable (bytes : List UInt8)

/-- `hex::encode`: two lowercase hexadecimal digits for each byte. -/
def hexEncode : String :=
  String.ofList (bytes.flatMap fun byte =>
    [Nat.digitChar (byte.toNat / 16), Nat.digitChar (byte.toNat % 16)])

/-- `u64::from_le_bytes`. -/
def fromLeBytes : Nat :=
  bytes.foldr (fun byte rest => byte.toNat + 256 * rest) 0

/-- `split_first_chunk::<8>`. -/
def splitFirstChunk : Option (List UInt8 × List UInt8) :=
  if 8 ≤ bytes.length then some (bytes.splitAt 8) else none

/-- Splits off one length-prefixed field, or reports that the buffer does not
hold a whole one yet. -/
def takeField : Option (List UInt8 × List UInt8) :=
  (splitFirstChunk bytes).bind fun (length, rest) =>
    if fromLeBytes length ≤ rest.length then some (rest.splitAt (fromLeBytes length)) else none

def rowTag : UInt8 := 'r'.toUInt8

def revocationTag : UInt8 := 'v'.toUInt8

def blobTag : UInt8 := 'b'.toUInt8

/-! ## The decoder -/

structure CanonicalDecoder (Bytes : Type) where
  buffer : List UInt8 := []
  consumed : Nat := 0
  /-- What the hasher was fed. -/
  hashed : List UInt8 := []
  rows : BTreeMap String Bytes := ∅
  revocations : BTreeMap String DigestRevocation := ∅
  blobs : Std.ExtTreeSet DriverBlobReference compare := ∅

namespace CanonicalDecoder

variable (canonical : CanonicalBytes Bytes)

variable (decoder : CanonicalDecoder Bytes)

def takeValue (tag : UInt8) (rest : List UInt8) :
    Except CheckpointInstallError (Option (List UInt8 × List UInt8)) :=
  if tag = rowTag ∨ tag = revocationTag then
    .ok (takeField rest)
  else if tag = blobTag then
    .ok (splitFirstChunk rest)
  else
    .error (.malformed decoder.consumed)

def file (tag : UInt8) (key : String) (value : List UInt8) :
    Except CheckpointInstallError (CanonicalDecoder Bytes) :=
  if tag = rowTag then
    .ok { decoder with rows := decoder.rows.insert key (canonical.ofVec value) }
  else if tag = revocationTag then
    match canonical.fromSlice value with
    | none => .error (.malformed decoder.consumed)
    | some record => .ok { decoder with revocations := decoder.revocations.insert key record }
  else
    .ok { decoder with blobs := decoder.blobs.insert ⟨key, fromLeBytes value⟩ }

/-- Decodes one entry when the buffer holds a whole one; nothing when it does
not. -/
def takeEntry :
    Except CheckpointInstallError (Option (CanonicalDecoder Bytes)) :=
  match decoder.buffer with
  | [] => .ok none
  | tag :: rest =>
    match takeField rest with
    | none => .ok none
    | some (key, rest) => do
      match ← decoder.takeValue tag rest with
      | none => return none
      | some (value, rest) =>
        match String.fromUTF8? ⟨key.toArray⟩ with
        | none => .error (.malformed decoder.consumed)
        | some key =>
          let filed ← decoder.file canonical tag key value
          return some
            { filed with
              consumed := decoder.consumed + (decoder.buffer.length - rest.length)
              buffer := rest }

/-- `while self.take_entry()? {}`. Every entry takes at least its tag out of
the buffer, so the buffer's length is enough `fuel` (`push_settled`). -/
def takeEntries (fuel : Nat) (decoder : CanonicalDecoder Bytes) :
    Except CheckpointInstallError (CanonicalDecoder Bytes) :=
  match fuel with
  | 0 => .ok decoder
  | fuel + 1 => do
    match ← decoder.takeEntry canonical with
    | none => return decoder
    | some decoder => takeEntries fuel decoder

def push (bytes : List UInt8) :
    Except CheckpointInstallError (CanonicalDecoder Bytes) :=
  takeEntries canonical (decoder.buffer.length + bytes.length)
    { decoder with hashed := decoder.hashed ++ bytes, buffer := decoder.buffer ++ bytes }

def finish :
    Except CheckpointInstallError (DecodedCheckpoint Bytes) :=
  if !decoder.buffer.isEmpty then
    .error (.malformed decoder.consumed)
  else
    .ok
      { rows := decoder.rows
        revocations := decoder.revocations
        blobs := decoder.blobs
        digest := hexEncode (canonical.sha256 decoder.hashed) }

end CanonicalDecoder

end Peryx
