import Peryx.Lib.CrashFs
import Peryx.Lib.Interleaving

/-!
# The blob store on disk

`blob/mod.rs` and `blob/store.rs` of `peryx-storage`: blobs at
`sha256/ab/cd/<digest>`, upload sessions at `uploads/<session>`, and temporary
stages. Every call is a program over the operations of the file system, so that
calls interleave at each of them; each may fail, and a call may be abandoned
before any of them.
-/

namespace Peryx.Blob

open CrashFs Interleaving

abbrev Bytes := List UInt8

/-- A name in a directory; stages have names of their own. -/
inductive Name where
  | text (name : String)
  | stage (number : Nat)
deriving DecidableEq

abbrev BlobPath := Path Name

/-- Where the store lies, and its digest. -/
structure BlobStore where
  root : BlobPath
  digestOf : Bytes → String

namespace BlobStore

variable (store : BlobStore)

def parentFor (digest : String) : BlobPath :=
  .text (String.ofList ((digest.toList.drop 2).take 2)) ::
    .text (String.ofList (digest.toList.take 2)) :: .text "sha256" :: store.root

def pathFor (digest : String) : BlobPath :=
  .text digest :: store.parentFor digest

def uploadDir : BlobPath :=
  .text "uploads" :: store.root

def uploadPath (session : String) : BlobPath :=
  .text session :: store.uploadDir

end BlobStore

/-! ## Shared state -/

/-- Whose a file is. -/
inductive Role where
  | free
  | held (call : Nat)
  | published
deriving DecidableEq

/-- A success that was returned: a blob, or the bytes of a session up to an
offset. -/
inductive Ack where
  | blob (digest : String)
  | upload (session : String) (bytes : Bytes)
deriving DecidableEq

/-- The disk, what its files are in use for, and the successes that were returned.
One is taken back by the removal of its blob, by the discard of its session, by a
truncation of it to a lower offset and by a publication of its bytes, and by
nothing else: where a publication fails and drops the stage, it is `lost`. -/
structure State where
  fs : Fs Name UInt8
  role : Nat → Role
  acks : List Ack
  lost : List Ack := []

/-! ## Operations -/

/-- What a call asks of the disk. -/
inductive Op where
  | exists (path : BlobPath)
  | isFile (path : BlobPath)
  | mkdir (path : BlobPath)
  | syncDir (path : BlobPath)
  | createTemp (dir : BlobPath)
  | writeAt (file offset : Nat) (bytes : Bytes)
  | syncFile (file : Nat)
  | renameNoclobber (source dest : BlobPath)
  | rename (source dest : BlobPath)
  | resident (path : BlobPath)
  | stat (path : BlobPath)
  | createNew (path : BlobPath)
  | openStage (path : BlobPath)
  | length (file : Nat)
  | setLen (file : Nat) (length : Nat)
  | readStage (path : BlobPath)
  | drop (path : BlobPath)
  | cleanup (path : BlobPath)
  | unlink (path : BlobPath)
  | rmdir (path : BlobPath)
  | ackBlob (digest : String)
  | ackUpload (session : String) (file : Nat)

abbrev Op.Ans : Op → Type
  | .exists _ | .isFile _ | .unlink _ => Bool
  | .createTemp _ => BlobPath × Nat
  | .resident _ => Bytes
  | .stat _ | .openStage _ | .length _ => Nat
  | .createNew _ => Option Nat
  | .readStage _ => Option Bytes
  | _ => Unit

namespace State

variable (store : BlobStore)

def ackPath : Ack → BlobPath
  | .blob digest => store.pathFor digest
  | .upload session _ => store.uploadPath session

variable (s : State)

/-- The successes that were returned and not taken back since. -/
def answered : List Ack :=
  s.acks ++ s.lost

/-- Some acknowledgements are taken back. -/
def takeBack (back : Ack → Bool) : State :=
  { s with acks := s.acks.filter (!back ·), lost := s.lost.filter (!back ·) }

/-- What was acknowledged at a path is taken back. -/
def forget (path : BlobPath) : State :=
  s.takeBack (ackPath store · = path)

/-- So are the uploads past a length. -/
def forgetPast (file length : Nat) : State :=
  s.takeBack fun ack =>
    match ack with
    | .blob _ => false
    | .upload session bytes =>
      s.fs.node (store.uploadPath session) = some (.file file) ∧ length < bytes.length

/-- A success that was lost and is returned again is not lost any more. -/
def acknowledge (ack : Ack) : State :=
  { s with acks := ack :: s.acks, lost := s.lost.filter (· ≠ ack) }

def setRole (file : Nat) (role : Role) : State :=
  { s with role := fun f => if f = file then role else s.role f }

@[simp] theorem role_setRole (file : Nat) (role : Role) (f : Nat) :
    (s.setRole file role).role f = if f = file then role else s.role f := rfl

def mkdir (path : BlobPath) : Option Unit × State :=
  match path with
  | [] => (some (), s)
  | _ :: parent =>
    if s.fs.node parent = some .dir then
      match s.fs.node path with
      | none => (some (), { s with fs := s.fs.put path (some .dir) })
      | some .dir => (some (), s)
      | some (.file _) => (none, s)
    else (none, s)

def create (s : State) (call : Nat) (path : BlobPath) : State :=
  { s with fs := s.fs.create path }.setRole s.fs.next (.held call)

/-- The rename that publishes a file. -/
def move (source dest : BlobPath) (file : Nat) : State :=
  ({ s with fs := (s.fs.put source none).put dest (some (.file file)) }.setRole file
    .published).forget store source

/-- Bytes are written over those that are there, past the end after zeros. What
was synced of those is not any more. -/
def writeAt (file offset : Nat) (bytes : Bytes) : State :=
  let old := s.fs.file file
  { s with
    fs := s.fs.setFile file
      ⟨old.data.take offset ++ List.replicate (offset - old.data.length) 0 ++ bytes ++
          old.data.drop (offset + bytes.length),
        old.synced.take offset⟩ }

def setLen (file length : Nat) : State :=
  let old := s.fs.file file
  { s with
    fs := s.fs.setFile file
      ⟨old.data.take length ++ List.replicate (length - old.data.length) 0,
        old.synced.take length⟩ }.forgetPast store file length

def syncFile (file : Nat) : State :=
  { s with fs := s.fs.setFile file ⟨(s.fs.file file).data, (s.fs.file file).data⟩ }

def unlink (path : BlobPath) : State :=
  { s with fs := s.fs.put path none }.forget store path

/-- What the drop of a `TempPath` does that was not published. Nobody asked for it,
so that the successes which the stage was returned for are lost. -/
def cleanup (path : BlobPath) : State :=
  { s.unlink store path with
    lost := s.acks.filter (ackPath store · = path) ++ s.lost }

/-- One operation of a call. A fault leaves the state as it was, but for a write,
of which some bytes may have been written. -/
def exec (call : Nat) (op : Op) (fault : Option Nat) (s : State) : Option op.Ans × State :=
  match op, fault with
  | .writeAt file offset bytes, some written =>
    (none, s.writeAt file offset (bytes.take written))
  | _, some _ => (none, s)
  | .exists path, none => (some (s.fs.node path).isSome, s)
  | .isFile path, none =>
    (some (match s.fs.node path with | some (.file _) => true | _ => false), s)
  | .mkdir path, none => s.mkdir path
  | .syncDir path, none =>
    if s.fs.node path = some .dir then (some (), { s with fs := s.fs.syncDir path }) else (none, s)
  | .createTemp dir, none =>
    let path := .stage s.fs.next :: dir
    if s.fs.node dir = some .dir ∧ s.fs.node path = none then
      (some (path, s.fs.next), s.create call path)
    else (none, s)
  | .writeAt file offset bytes, none => (some (), s.writeAt file offset bytes)
  | .syncFile file, none => (some (), s.syncFile file)
  | .renameNoclobber source dest, none =>
    match s.fs.node source, s.fs.node dest with
    | some (.file file), none =>
      if s.fs.node dest.tail = some .dir then (some (), s.move store source dest file)
      else (none, s)
    | _, _ => (none, s)
  | .rename source dest, none =>
    match s.fs.node source, s.fs.node dest with
    | some (.file _), some .dir => (none, s)
    | some (.file file), _ =>
      if s.fs.node dest.tail = some .dir then (some (), s.move store source dest file)
      else (none, s)
    | _, _ => (none, s)
  | .resident path, none =>
    match s.fs.node path with
    | some (.file file) => (some (s.fs.file file).data, s)
    | _ => (none, s)
  | .stat path, none =>
    match s.fs.node path with
    | some (.file file) => (some (s.fs.file file).data.length, s)
    | _ => (none, s)
  | .createNew path, none =>
    if s.fs.node path.tail = some .dir then
      match s.fs.node path with
      | none => (some (some s.fs.next), s.create call path)
      | some _ => (some none, s)
    else (none, s)
  | .openStage path, none =>
    match s.fs.node path with
    | some (.file file) => (some file, s.setRole file (.held call))
    | _ => (none, s)
  | .length file, none => (some (s.fs.file file).data.length, s)
  | .setLen file length, none => (some (), s.setLen store file length)
  | .readStage path, none =>
    match s.fs.node path with
    | some (.file file) => (some (some (s.fs.file file).data), s.setRole file (.held call))
    | some .dir => (none, s)
    | none => (some none, s)
  | .drop path, none =>
    match s.fs.node path with
    | some (.file _) => (some (), s.unlink store path)
    | _ => (none, s)
  | .cleanup path, none =>
    match s.fs.node path with
    | some (.file _) => (some (), s.cleanup store path)
    | _ => (none, s)
  | .unlink path, none =>
    match s.fs.node path with
    | some (.file _) => (some true, s.unlink store path)
    | some .dir => (none, s)
    | none => (some false, s)
  | .rmdir path, none =>
    if s.fs.isEmptyDir path then (some (), { s with fs := s.fs.put path none }) else (none, s)
  | .ackBlob digest, none => (some (), s.acknowledge (.blob digest))
  | .ackUpload session file, none =>
    (some (), s.acknowledge (.upload session (s.fs.file file).data))

/-- A call that ends lets go of its files. -/
def close (call : Nat) (s : State) : State :=
  { s with role := fun f => if s.role f = .held call then .free else s.role f }

end State

def disk (store : BlobStore) : Shared State Op Op.Ans Nat (Option Nat) where
  exec := State.exec store
  close := State.close

/-! ## Calls -/

abbrev Call := Prog Op Op.Ans

abbrev perform (op : Op) : Call op.Ans :=
  Prog.perform op

abbrev attempt (op : Op) : Call (Option op.Ans) :=
  Prog.attempt op

/-- The levels, from a directory up, that do not exist. -/
def countMissing : List BlobPath → Call Nat
  | [] => pure 0
  | level :: levels => do
    match ← attempt (.exists level) with
    | some true => pure 0
    | _ => return (← countMissing levels) + 1

def createDirAll (dir : BlobPath) : Call Unit :=
  dir.tails.reverse.forM fun level => perform (.mkdir level)

def syncParent : BlobPath → Call Unit
  | [] => .fail
  | _ :: parent => perform (.syncDir parent)

def createDirDurable (dir : BlobPath) : Call Unit := do
  let missing ← countMissing dir.tails
  createDirAll dir
  (dir.tails.take missing).forM syncParent

section Store

variable (store : BlobStore)

def residentMatches (dest : BlobPath) (digest : String) (length : Nat) : Call Bool := do
  let data : Bytes ← perform (.resident dest)
  return data.length = length ∧ store.digestOf data = digest

/-- A `TempPath` that goes out of scope. -/
def discard (stage : BlobPath) : Call Unit := do
  let _ ← attempt (.cleanup stage)

/-- Where the blob is there already, `discard_stage` takes the stage out of the way:
the bytes are published, so that the success of their session is taken back. -/
def reconcile (dest source : BlobPath) (digest : String) (length : Nat) : Call Unit := do
  if ← (residentMatches store dest digest length).onFail (discard source) then
    perform (.drop source)
  else
    (perform (.rename source dest)).onFail (discard source)
  syncParent dest

/-- Renames into place, or finds the blob there. -/
def publish (dest source : BlobPath) (digest : String) (length : Nat) : Call Unit := do
  match ← attempt (.renameNoclobber source dest) with
  | some _ => syncParent dest
  | none => reconcile store dest source digest length

/-- Stages the bytes, syncs them and publishes. -/
def writeThrough (bytes : Bytes) : Call Unit := do
  let digest := store.digestOf bytes
  createDirDurable (store.parentFor digest)
  let (stage, file) ← perform (.createTemp (store.parentFor digest))
  (do perform (.writeAt file 0 bytes)
      perform (.syncFile file)).onFail (discard stage)
  publish store (store.pathFor digest) stage digest bytes.length
  perform (.ackBlob digest)

/-- Writes through, unless the blob is there. -/
def write (bytes : Bytes) : Call Unit := do
  let digest := store.digestOf bytes
  let dest := store.pathFor digest
  match ← attempt (.isFile dest) with
  | some true =>
    if ← residentMatches store dest digest bytes.length then
      syncParent dest
      perform (.ackBlob digest)
    else writeThrough store bytes
  | _ => writeThrough store bytes

def writeChunks (file : Nat) : Nat → List Bytes → Call Unit
  | _, [] => pure ()
  | offset, chunk :: chunks => do
    perform (.writeAt file offset chunk)
    writeChunks file (offset + chunk.length) chunks

/-- `begin`, the writes, `finish` and `commit`: the stage is in the root until
the digest of what was streamed is the one expected. -/
def commit (chunks : List Bytes) (expected : String) : Call Unit := do
  createDirAll store.root
  let (stage, file) ← perform (.createTemp store.root)
  (do writeChunks file 0 chunks
      perform (.syncFile file)).onFail (discard stage)
  let digest := store.digestOf chunks.flatten
  if digest = expected then
    (createDirDurable (store.parentFor digest)).onFail (discard stage)
    publish store (store.pathFor digest) stage digest chunks.flatten.length
    perform (.ackBlob digest)
  else
    discard stage
    .fail

/-- The stage of a session, and whether this call made it. -/
def openSession (path : BlobPath) : Call (Nat × Bool) := do
  match ← perform (.createNew path) with
  | some file => return (file, true)
  | none => return (← perform (.openStage path), false)

def stageUploadChunk (session : String) (offset : Nat) (chunk : Bytes) : Call Unit := do
  createDirDurable store.uploadDir
  let (file, created) ← openSession (store.uploadPath session)
  let length : Nat ← perform (.length file)
  if length < offset then .fail
  else
    perform (.setLen file offset)
    perform (.writeAt file offset chunk)
    perform (.syncFile file)
    if created then syncParent (store.uploadPath session)
    perform (.ackUpload session file)

def finishUpload (session expected : String) : Call Unit := do
  let dest := store.pathFor expected
  match ← perform (.readStage (store.uploadPath session)) with
  | none =>
    match ← attempt (.isFile dest) with
    | some true =>
      let _ ← perform (.stat dest)
      syncParent dest
      perform (.ackBlob expected)
    | _ => .fail
  | some data =>
    if store.digestOf data = expected then
      createDirDurable (store.parentFor expected)
      publish store dest (store.uploadPath session) expected data.length
      perform (.ackBlob expected)
    else .fail

def discardUpload (session : String) : Call Unit := do
  let _ ← perform (.unlink (store.uploadPath session))

/-- Ends at the first directory that is not empty, and at `sha256`. -/
def pruneEmptyParents : List BlobPath → Call Unit
  | [] => pure ()
  | dir :: dirs => do
    match ← attempt (.rmdir dir) with
    | some _ => pruneEmptyParents dirs
    | none => pure ()

def remove (digest : String) : Call Unit := do
  if ← perform (.unlink (store.pathFor digest)) then
    pruneEmptyParents [store.parentFor digest, (store.parentFor digest).tail]

/-- What a client may ask for. -/
inductive Request where
  | write (bytes : Bytes)
  | commit (chunks : List Bytes) (expected : String)
  | stageUploadChunk (session : String) (offset : Nat) (chunk : Bytes)
  | finishUpload (session expected : String)
  | discardUpload (session : String)
  | remove (digest : String)

def Request.program : Request → Call Unit
  | .write bytes => Blob.write store bytes
  | .commit chunks expected => Blob.commit store chunks expected
  | .stageUploadChunk session offset chunk => Blob.stageUploadChunk store session offset chunk
  | .finishUpload session expected => Blob.finishUpload store session expected
  | .discardUpload session => Blob.discardUpload store session
  | .remove digest => Blob.remove store digest

end Store

end Peryx.Blob
