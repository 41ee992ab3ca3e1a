import Peryx.Lib.Framing
import Peryx.Storage.CheckpointState

/-!
# The canonical bytes read back

`CheckpointState::canonical` writes a state as a stream of tagged entries, and
`CanonicalDecoder` reads such a stream in whatever pieces it arrives.

- `takeEntries_eq_drain`: a piece is read as far as its entries are whole.
- `canonical_decodes`: in whatever pieces, the state comes back.
-/

namespace Peryx

open List Option

variable {Bytes : Type}

/-! ## Numbers and fields -/

@[simp] theorem length_leBytes (width n : Nat) : (leBytes width n).length = width := by
  induction width generalizing n with
  | zero => rfl
  | succ width ih => rw [leBytes, length_cons, ih]

theorem fromLeBytes_leBytes (width n : Nat) : fromLeBytes (leBytes width n) = n % 256 ^ width := by
  induction width generalizing n with
  | zero => rw [Nat.pow_zero, Nat.mod_one]; rfl
  | succ width ih =>
    have byte : (UInt8.ofNat (n % 256)).toNat = n % 256 := by
      rw [UInt8.toNat_ofNat', Nat.mod_mod]
    show (UInt8.ofNat (n % 256)).toNat + 256 * fromLeBytes (leBytes width (n / 256)) = _
    rw [byte, ih, Nat.pow_succ', Nat.mod_mul]

@[simp] theorem length_toLeBytes (n : Nat) : (toLeBytes n).length = 8 :=
  length_leBytes 8 n

theorem fromLeBytes_toLeBytes {n : Nat} (small : n < 2 ^ 64) : fromLeBytes (toLeBytes n) = n := by
  rw [toLeBytes, fromLeBytes_leBytes]
  exact Nat.mod_eq_of_lt small

theorem fromUTF8_asBytes (s : String) : String.fromUTF8? ⟨(asBytes s).toArray⟩ = some s := by
  have same : (⟨(asBytes s).toArray⟩ : ByteArray) = s.toUTF8 := by
    rw [asBytes, Array.toArray_toList]
  rw [same, String.fromUTF8?, String.toUTF8_eq_toByteArray, dif_pos s.isValidUTF8]
  rfl

theorem splitFirstChunk_append {chunk : List UInt8} (eight : chunk.length = 8)
    (rest : List UInt8) : splitFirstChunk (chunk ++ rest) = some (chunk, rest) := by
  unfold splitFirstChunk
  rw [if_pos (by simp [eight]), splitAt_eq, take_left' eight, drop_left' eight]

theorem splitFirstChunk_part {held chunk : List UInt8} (eight : chunk.length = 8)
    (part : Framing.Part held chunk) : splitFirstChunk held = none := by
  have short := part.length_lt
  unfold splitFirstChunk
  rw [if_neg (by omega)]

theorem takeField_append {bytes : List UInt8} (small : bytes.length < 2 ^ 64)
    (rest : List UInt8) : takeField (pushBytes [] bytes ++ rest) = some (bytes, rest) := by
  rw [pushBytes, nil_append, append_assoc, takeField,
    splitFirstChunk_append (length_toLeBytes _), bind_some]
  dsimp only
  rw [fromLeBytes_toLeBytes small, if_pos (by simp), splitAt_eq, take_left' rfl, drop_left' rfl]

theorem takeField_part {held bytes : List UInt8} (small : bytes.length < 2 ^ 64)
    (part : Framing.Part held (pushBytes [] bytes)) : takeField held = none := by
  rw [pushBytes, nil_append] at part
  unfold takeField
  rcases part.append with short | ⟨rest, rfl, short⟩
  · rw [splitFirstChunk_part (length_toLeBytes _) short]
    rfl
  · have missing := short.length_lt
    rw [splitFirstChunk_append (length_toLeBytes _), bind_some]
    dsimp only
    rw [fromLeBytes_toLeBytes small, if_neg (by omega)]

/-! ## Entries -/

inductive CanonicalEntry (Bytes : Type) where
  | row (key : String) (value : Bytes)
  | revocation (digest : String) (record : DigestRevocation)
  | blob (reference : DriverBlobReference)

namespace CanonicalEntry

def tag : CanonicalEntry Bytes → UInt8
  | .row .. => rowTag
  | .revocation .. => revocationTag
  | .blob _ => blobTag

def key : CanonicalEntry Bytes → String
  | .row key _ => key
  | .revocation digest _ => digest
  | .blob reference => reference.sha256

variable (codec : CanonicalCodec Bytes)

def value : CanonicalEntry Bytes → List UInt8
  | .row _ value => codec.toVec value
  | .revocation _ record => codec.toJson record
  | .blob reference => toLeBytes reference.size

variable (entry : CanonicalEntry Bytes)

/-- A blob's size has a fixed width; the other values say how long they are. -/
def body : List UInt8 :=
  match entry with
  | .row .. | .revocation .. => pushBytes [] (entry.value codec)
  | .blob _ => entry.value codec

def encode : List UInt8 :=
  entry.tag :: (pushBytes [] (asBytes entry.key) ++ entry.body codec)

theorem encode_ne_nil : entry.encode codec ≠ [] :=
  cons_ne_nil _ _

/-- What the source's types bound: a key and a value are as long as a `usize`
says, and a blob's size is a `u64`. -/
def Sized : Prop :=
  (asBytes entry.key).length < 2 ^ 64 ∧
    match entry with
    | .row _ value => (codec.toVec value).length < 2 ^ 64
    | .revocation _ record => (codec.toJson record).length < 2 ^ 64
    | .blob reference => reference.size < 2 ^ 64

instance (entry : CanonicalEntry Bytes) : Decidable (entry.Sized codec) :=
  match entry with
  | .row key value => inferInstanceAs (Decidable ((asBytes key).length < 2 ^ 64 ∧
      (codec.toVec value).length < 2 ^ 64))
  | .revocation digest record => inferInstanceAs (Decidable ((asBytes digest).length < 2 ^ 64 ∧
      (codec.toJson record).length < 2 ^ 64))
  | .blob reference => inferInstanceAs (Decidable ((asBytes reference.sha256).length < 2 ^ 64 ∧
      reference.size < 2 ^ 64))

end CanonicalEntry

namespace CheckpointState

variable (state : CheckpointState Bytes)

def entries : List (CanonicalEntry Bytes) :=
  state.rows.toList.map (fun row => .row row.1 row.2) ++
    state.revocations.toList.map (fun row => .revocation row.1 row.2) ++
    state.blobs.toList.map .blob

def insertEntry : CanonicalEntry Bytes → CheckpointState Bytes
  | .row key value => { state with rows := state.rows.insert key value }
  | .revocation digest record =>
    { state with revocations := state.revocations.insert digest record }
  | .blob reference => { state with blobs := state.blobs.insert reference }

/-- Every entry is as the source's types bound it. -/
def Sized (codec : CanonicalCodec Bytes) (state : CheckpointState Bytes) : Prop :=
  ∀ entry ∈ state.entries, entry.Sized codec

instance (codec : CanonicalCodec Bytes) (state : CheckpointState Bytes) :
    Decidable (state.Sized codec) :=
  inferInstanceAs (Decidable (∀ entry ∈ state.entries, entry.Sized codec))

theorem foldl_row (rows : List (String × Bytes)) (state : CheckpointState Bytes) :
    rows.foldl (fun state row => state.insertEntry (.row row.1 row.2)) state =
      { state with rows := rows.foldl (fun rows row => rows.insert row.1 row.2) state.rows } :=
  foldl_hom (fun rows => { state with rows }) fun _ _ => rfl

theorem foldl_revocation (revocations : List (String × DigestRevocation))
    (state : CheckpointState Bytes) :
    revocations.foldl (fun state row => state.insertEntry (.revocation row.1 row.2)) state =
      { state with
        revocations :=
          revocations.foldl (fun rows row => rows.insert row.1 row.2) state.revocations } :=
  foldl_hom (fun revocations => { state with revocations }) fun _ _ => rfl

theorem foldl_blob (blobs : List DriverBlobReference) (state : CheckpointState Bytes) :
    blobs.foldl (fun state blob => state.insertEntry (.blob blob)) state =
      { state with blobs := blobs.foldl (·.insert ·) state.blobs } :=
  foldl_hom (fun blobs => { state with blobs }) fun _ _ => rfl

theorem foldl_insertEntry :
    state.entries.foldl insertEntry {} = state := by
  rw [entries, foldl_append, foldl_append, foldl_map, foldl_map,
    foldl_map, foldl_row, foldl_revocation, foldl_blob, BTreeMap.foldl_insert_toList,
    BTreeMap.foldl_insert_toList, BTreeSet.foldl_insert_toList]

open CanonicalEntry

variable (codec : CanonicalCodec Bytes)

theorem pushRow_eq_append (encoded : List UInt8) (row : String × Bytes) :
    pushRow codec encoded row = encoded ++ encode codec (.row row.1 row.2) := by
  simp [pushRow, pushField, pushBytes, encode, body, key, value, tag]

theorem pushRevocation_eq_append (encoded : List UInt8) (row : String × DigestRevocation) :
    pushRevocation codec encoded row = encoded ++ encode codec (.revocation row.1 row.2) := by
  simp [pushRevocation, pushField, pushBytes, encode, body, key, value, tag]

theorem pushBlob_eq_append (encoded : List UInt8) (blob : DriverBlobReference) :
    pushBlob encoded blob.sha256 blob.size = encoded ++ encode codec (.blob blob) := by
  simp [pushBlob, pushField, pushBytes, encode, body, key, value, tag]

theorem canonical_eq_writeAll :
    state.canonical codec = Framing.writeAll (·.encode codec) state.entries := by
  unfold canonical
  dsimp only
  rw [Framing.foldl_eq_append_writeAll (pushRow_eq_append codec),
    Framing.foldl_eq_append_writeAll (pushRevocation_eq_append codec),
    Framing.foldl_eq_append_writeAll (pushBlob_eq_append codec)]
  simp [entries, Framing.writeAll]

end CheckpointState

/-! ## The decoder reads entries -/

namespace CanonicalDecoder

def state (decoder : CanonicalDecoder Bytes) : CheckpointState Bytes :=
  ⟨decoder.rows, decoder.revocations, decoder.blobs⟩

def fileEntry (codec : CanonicalCodec Bytes) (decoder : CanonicalDecoder Bytes)
    (entry : CanonicalEntry Bytes) : CanonicalDecoder Bytes :=
  let state := decoder.state.insertEntry entry
  { decoder with
    rows := state.rows
    revocations := state.revocations
    blobs := state.blobs
    consumed := decoder.consumed + (entry.encode codec).length
    buffer := decoder.buffer.drop (entry.encode codec).length }

variable {codec : CanonicalCodec Bytes} {entry : CanonicalEntry Bytes}

theorem takeValue_append (decoder : CanonicalDecoder Bytes) (sized : entry.Sized codec)
    (rest : List UInt8) : decoder.takeValue entry.tag (entry.body codec ++ rest) =
      .ok (some (entry.value codec, rest)) := by
  cases entry with
  | row key value => exact congrArg Except.ok (takeField_append sized.2 rest)
  | revocation digest record => exact congrArg Except.ok (takeField_append sized.2 rest)
  | blob reference =>
    exact congrArg Except.ok (splitFirstChunk_append (length_toLeBytes _) rest)

theorem takeValue_part (decoder : CanonicalDecoder Bytes) (sized : entry.Sized codec)
    {held : List UInt8} (part : Framing.Part held (entry.body codec)) :
    decoder.takeValue entry.tag held = .ok none := by
  cases entry with
  | row key value => exact congrArg Except.ok (takeField_part sized.2 part)
  | revocation digest record => exact congrArg Except.ok (takeField_part sized.2 part)
  | blob reference => exact congrArg Except.ok (splitFirstChunk_part (length_toLeBytes _) part)

theorem file_value (decoder : CanonicalDecoder Bytes) (sized : entry.Sized codec) :
    decoder.file codec.toCanonicalBytes entry.tag entry.key (entry.value codec) = .ok { decoder with
        rows := (decoder.state.insertEntry entry).rows
        revocations := (decoder.state.insertEntry entry).revocations
        blobs := (decoder.state.insertEntry entry).blobs } := by
  cases entry with
  | row key value =>
    simp only [file, CanonicalEntry.tag, CanonicalEntry.value, codec.ofVec_toVec, if_true]
    rfl
  | revocation digest record =>
    have tag : revocationTag ≠ rowTag := by decide
    simp only [file, CanonicalEntry.tag, CanonicalEntry.value, codec.fromSlice_toJson, if_neg tag,
      if_true]
    rfl
  | blob reference =>
    have tag : blobTag ≠ rowTag ∧ blobTag ≠ revocationTag := by decide
    simp only [file, CanonicalEntry.tag, CanonicalEntry.value, fromLeBytes_toLeBytes sized.2,
      if_neg tag.1, if_neg tag.2]
    rfl

variable {decoder : CanonicalDecoder Bytes}

/-- **Step.** A whole entry is filed and leaves what follows it. -/
theorem takeEntry_whole (sized : entry.Sized codec)
    {rest : List UInt8} (held : decoder.buffer = entry.encode codec ++ rest) :
    decoder.takeEntry codec.toCanonicalBytes = .ok (some (decoder.fileEntry codec entry)) := by
  have fields : decoder.buffer =
      entry.tag :: (pushBytes [] (asBytes entry.key) ++ (entry.body codec ++ rest)) := by
    rw [held, CanonicalEntry.encode, cons_append, append_assoc]
  unfold takeEntry
  simp only [fields, takeField_append sized.1, takeValue_append decoder sized, fromUTF8_asBytes,
    file_value decoder sized, bind, Except.bind, pure, Except.pure]
  have width : (entry.encode codec ++ rest).length - rest.length = (entry.encode codec).length := by
    rw [length_append, Nat.add_sub_cancel]
  rw [← fields, held, width, fileEntry, held, drop_left' rfl]

/-- **Step.** A part of an entry stays. -/
theorem takeEntry_part (sized : entry.Sized codec)
    (part : Framing.Part decoder.buffer (entry.encode codec)) :
    decoder.takeEntry codec.toCanonicalBytes = .ok none := by
  unfold takeEntry
  cases held : decoder.buffer with
  | nil => rfl
  | cons tag rest =>
    rw [held, CanonicalEntry.encode] at part
    obtain ⟨rfl, begins⟩ := cons_prefix_cons.mp part.1
    have inner : Framing.Part rest (pushBytes [] (asBytes entry.key) ++ entry.body codec) := by
      refine ⟨begins, ?_⟩
      rintro rfl
      exact part.2 rfl
    dsimp only
    rcases inner.append with short | ⟨body, rfl, short⟩
    · rw [takeField_part sized.1 short]
    · rw [takeField_append sized.1]
      dsimp only
      rw [takeValue_part decoder sized short]
      rfl

theorem reads_entries (codec : CanonicalCodec Bytes) :
    Framing.Reads buffer (takeEntry codec.toCanonicalBytes) (·.encode codec) (fileEntry codec)
      (·.Sized codec) where
  whole sized held := by
    refine ⟨takeEntry_whole sized held, ?_⟩
    show List.drop _ _ = _
    rw [held, drop_left' rfl]
  part sized part := takeEntry_part sized part
  empty none := by
    unfold takeEntry
    rw [none]

theorem takeEntries_eq_drain (canonical : CanonicalBytes Bytes) (fuel : Nat)
    (decoder : CanonicalDecoder Bytes) :
    takeEntries canonical fuel decoder = Framing.drain (takeEntry canonical) fuel decoder := by
  induction fuel generalizing decoder with
  | zero => rfl
  | succ fuel ih =>
    refine congrArg _ (funext fun entry => ?_)
    cases entry with
    | none => rfl
    | some decoder => exact ih decoder

theorem state_foldl_fileEntry (entries : List (CanonicalEntry Bytes))
    (decoder : CanonicalDecoder Bytes) :
    (entries.foldl (fileEntry codec) decoder).state =
      entries.foldl CheckpointState.insertEntry decoder.state :=
  (foldl_hom state fun _ _ => rfl).symm

theorem hashed_foldl_fileEntry (entries : List (CanonicalEntry Bytes))
    (decoder : CanonicalDecoder Bytes) :
    (entries.foldl (fileEntry codec) decoder).hashed = decoder.hashed := by
  induction entries generalizing decoder with
  | nil => rfl
  | cons entry entries ih => exact ih _

/-! ## Pieces -/

/-- The decoder has read `whole`, and holds a part of what begins `rest`. -/
structure Received (codec : CanonicalCodec Bytes) (whole rest : List (CanonicalEntry Bytes))
    (decoder : CanonicalDecoder Bytes) : Prop where
  state : decoder.state = whole.foldl CheckpointState.insertEntry {}
  pending : Framing.Pending (·.encode codec) rest decoder.buffer
  hashed : decoder.hashed = Framing.writeAll (·.encode codec) whole ++ decoder.buffer

/-- **Step.** A piece of the stream moves whole entries over. -/
theorem Received.push {whole rest : List (CanonicalEntry Bytes)}
    (h : Received codec whole rest decoder)
    (sized : ∀ entry ∈ whole ++ rest, entry.Sized codec) {piece : List UInt8}
    (arrives : decoder.hashed ++ piece <+: Framing.writeAll (·.encode codec) (whole ++ rest)) :
    ∃ whole' rest' decoder', decoder.push codec.toCanonicalBytes piece = .ok decoder' ∧
      whole ++ rest = whole' ++ rest' ∧ Received codec whole' rest' decoder' ∧
      decoder'.hashed = decoder.hashed ++ piece := by
  have begins : decoder.buffer ++ piece <+: Framing.writeAll (·.encode codec) rest := by
    rw [h.hashed, Framing.writeAll_append, append_assoc] at arrives
    exact (prefix_append_right_inj _).mp arrives
  obtain ⟨more, rest, held, rfl, arrived, pending⟩ := Framing.cut _ begins
  have legible : ∀ entry ∈ more ++ rest, entry.Sized codec :=
    fun entry he => sized entry (mem_append_right whole he)
  have enough : more.length ≤ decoder.buffer.length + piece.length := by
    have bytes := Framing.length_le_writeAll (CanonicalEntry.encode_ne_nil codec) more
    rw [← length_append, arrived, length_append]
    exact bytes.trans (Nat.le_add_right _ _)
  obtain ⟨drained, left⟩ := (reads_entries codec).drain_eq legible pending
    (s := { decoder with hashed := decoder.hashed ++ piece, buffer := decoder.buffer ++ piece })
    arrived enough
  refine ⟨whole ++ more, rest, _, (takeEntries_eq_drain _ _ _).trans drained,
    (append_assoc ..).symm, ⟨?_, ?_, ?_⟩, hashed_foldl_fileEntry _ _⟩
  · rw [state_foldl_fileEntry, foldl_append, ← h.state]
    rfl
  · rw [left]
    exact pending
  · rw [left, hashed_foldl_fileEntry, Framing.writeAll_append, append_assoc, ← arrived,
      ← append_assoc, ← h.hashed]

/-- **Run.** Whatever pieces of the stream have arrived, the decoder has read
the whole entries among them. -/
theorem pushAll_received {entries : List (CanonicalEntry Bytes)}
    (sized : ∀ entry ∈ entries, entry.Sized codec) {pieces : List (List UInt8)}
    (arrives : pieces.flatten <+: Framing.writeAll (·.encode codec) entries) :
    ∃ whole rest decoder, pieces.foldlM (CanonicalDecoder.push codec.toCanonicalBytes) {} =
        .ok decoder ∧ entries = whole ++ rest ∧ Received codec whole rest decoder ∧
      decoder.hashed = pieces.flatten := by
  induction pieces using reverseRecOn with
  | nil =>
    have pending := Framing.Pending.start (CanonicalEntry.encode_ne_nil codec) entries
    exact ⟨[], entries, {}, rfl, rfl, ⟨rfl, pending, rfl⟩, rfl⟩
  | append_singleton pieces piece ih =>
    rw [flatten_append, flatten_singleton] at arrives
    obtain ⟨whole, rest, decoder, pushed, rfl, received, hashed⟩ :=
      ih ((prefix_append _ _).trans arrives)
    obtain ⟨whole', rest', decoder', next, same, received', hashed'⟩ :=
      received.push sized (hashed ▸ arrives)
    refine ⟨whole', rest', decoder', ?_, same, received', ?_⟩
    · rw [foldlM_append, pushed]
      exact Except.bind_eq_ok.mpr ⟨decoder, rfl, Except.bind_eq_ok.mpr ⟨decoder', next, rfl⟩⟩
    · rw [hashed', hashed, flatten_append, flatten_singleton]

theorem Received.not_begins {whole rest : List (CanonicalEntry Bytes)}
    (h : Received codec whole rest decoder)
    (sized : ∀ entry ∈ whole ++ rest, entry.Sized codec) {entry : CanonicalEntry Bytes}
    (legible : entry.Sized codec) : ¬ entry.encode codec <+: decoder.buffer := by
  have settled := (reads_entries codec).pending
    (fun entry he => sized entry (mem_append_right whole he)) h.pending
  exact (reads_entries codec).not_begins settled legible

theorem pushAll_canonical {state : CheckpointState Bytes} (sized : state.Sized codec)
    {pieces : List (List UInt8)} (cut : pieces.flatten = state.canonical codec) :
    ∃ decoder, pieces.foldlM (CanonicalDecoder.push codec.toCanonicalBytes) {} = .ok decoder ∧
      decoder.finish codec.toCanonicalBytes = .ok
        { rows := state.rows
          revocations := state.revocations
          blobs := state.blobs
          digest := hexEncode (codec.sha256 (state.canonical codec)) } := by
  have stream := cut.trans (state.canonical_eq_writeAll codec)
  obtain ⟨whole, rest, decoder, pushed, split, received, hashed⟩ :=
    pushAll_received sized (by rw [stream])
  -- nothing is left over: what is held is all that was still to come
  have held : decoder.buffer = Framing.writeAll (·.encode codec) rest := by
    have all := received.hashed
    rw [hashed, stream, split, Framing.writeAll_append] at all
    exact (append_cancel_left all).symm
  obtain rfl := (held ▸ received.pending).eq_nil
  have read : decoder.state = state := by
    rw [received.state, ← List.append_nil whole, ← split, CheckpointState.foldl_insertEntry]
  refine ⟨decoder, pushed, ?_⟩
  unfold finish
  rw [held, hashed, cut, ← read]
  rfl

end CanonicalDecoder

theorem CheckpointState.canonical_injective {codec : CanonicalCodec Bytes}
    {a b : CheckpointState Bytes} (sizedA : a.Sized codec) (sizedB : b.Sized codec)
    (same : a.canonical codec = b.canonical codec) : a = b := by
  have whole : [a.canonical codec].flatten = a.canonical codec := flatten_singleton
  obtain ⟨decoderA, pushedA, finishedA⟩ := CanonicalDecoder.pushAll_canonical sizedA whole
  obtain ⟨decoderB, pushedB, finishedB⟩ :=
    CanonicalDecoder.pushAll_canonical sizedB (whole.trans same)
  cases pushedA.symm.trans pushedB
  have decoded := Except.ok.inj (finishedA.symm.trans finishedB)
  exact CheckpointState.ext (congrArg (·.rows) decoded) (congrArg (·.revocations) decoded)
    (congrArg (·.blobs) decoded)

/-- Every cut of a state's canonical bytes into pieces, empty ones included,
decodes to that state, with the digest of those bytes; between two pushes the
buffer holds no whole entry; and no other state has the same bytes. -/
theorem canonical_decodes (codec : CanonicalCodec Bytes) (state : CheckpointState Bytes)
    (sized : state.Sized codec) (pieces : List (List UInt8))
    (cut : pieces.flatten = state.canonical codec) :
    (∃ decoder, pieces.foldlM (CanonicalDecoder.push codec.toCanonicalBytes) {} = .ok decoder ∧
      decoder.finish codec.toCanonicalBytes = .ok
        { rows := state.rows
          revocations := state.revocations
          blobs := state.blobs
          digest := hexEncode (codec.sha256 (state.canonical codec)) }) ∧
    (∀ arrived, arrived <+: pieces →
      ∃ decoder, arrived.foldlM (CanonicalDecoder.push codec.toCanonicalBytes) {} = .ok decoder ∧
        ∀ entry : CanonicalEntry Bytes, entry.Sized codec →
          ¬ entry.encode codec <+: decoder.buffer) ∧
    ∀ other : CheckpointState Bytes, other.Sized codec →
      other.canonical codec = state.canonical codec → other = state := by
  refine ⟨CanonicalDecoder.pushAll_canonical sized cut, ?_, ?_⟩
  · rintro arrived ⟨later, rfl⟩
    have begins : arrived.flatten <+: Framing.writeAll (·.encode codec) state.entries := by
      rw [← state.canonical_eq_writeAll, ← cut, flatten_append]
      exact prefix_append _ _
    obtain ⟨whole, rest, decoder, pushed, split, received, -⟩ :=
      CanonicalDecoder.pushAll_received sized begins
    exact ⟨decoder, pushed, fun entry => received.not_begins (split ▸ sized)⟩
  · exact fun other sizedOther same => CheckpointState.canonical_injective sizedOther sized same

/-! ## A store of plain bytes

Rows are byte lists, and a revocation is written field by field: a byte `b` of
a field as `1, b`, its end as `0`. -/

namespace PlainVec

def writeField : List UInt8 → List UInt8
  | [] => [0]
  | byte :: bytes => 1 :: byte :: writeField bytes

def readField : List UInt8 → Option (List UInt8 × List UInt8)
  | 0 :: rest => some ([], rest)
  | 1 :: byte :: rest => (readField rest).map fun (bytes, rest) => (byte :: bytes, rest)
  | _ => none

theorem readField_append (bytes rest : List UInt8) :
    readField (writeField bytes ++ rest) = some (bytes, rest) := by
  induction bytes with
  | nil => rfl
  | cons byte bytes ih =>
    show (readField (writeField bytes ++ rest)).map _ = _
    rw [ih]
    rfl

def writeTime (time : Int64) : List UInt8 :=
  writeField (toLeBytes time.toUInt64.toNat)

variable (bytes : List UInt8)

def readTime : Int64 :=
  (UInt64.ofNat (fromLeBytes bytes)).toInt64

theorem readTime_toLeBytes (time : Int64) : readTime (toLeBytes time.toUInt64.toNat) = time := by
  unfold readTime
  rw [fromLeBytes_toLeBytes time.toUInt64.toNat_lt, UInt64.ofNat_toNat, Int64.toInt64_toUInt64]

def writeText (text : String) : List UInt8 :=
  writeField (asBytes text)

def readText : Option String :=
  String.fromUTF8? ⟨bytes.toArray⟩

def writeRevocation (record : DigestRevocation) : List UInt8 :=
  writeText record.digest.sha256 ++ writeText record.reason ++ writeText record.createdBy ++
    writeTime record.createdAtUnix ++ writeField (List.replicate record.revision 0) ++
    match record.state with
    | .active => []
    | .lifted liftedBy liftedAtUnix => writeText liftedBy ++ writeTime liftedAtUnix

def readState : Option DigestRevocationState :=
  match readField bytes with
  | none => some .active
  | some (liftedBy, rest) => do
    let (liftedAtUnix, _) ← readField rest
    return .lifted (← readText liftedBy) (readTime liftedAtUnix)

def readRevocation : Option DigestRevocation := do
  let (digest, rest) ← readField bytes
  let (reason, rest) ← readField rest
  let (createdBy, rest) ← readField rest
  let (createdAtUnix, rest) ← readField rest
  let (revision, rest) ← readField rest
  let sha256 ← readText digest
  if valid : isSha256Hex sha256 = true then
    return {
      digest := ⟨sha256, valid⟩
      reason := ← readText reason
      createdBy := ← readText createdBy
      createdAtUnix := readTime createdAtUnix
      state := ← readState rest
      revision := revision.length }
  else none

theorem readRevocation_writeRevocation (record : DigestRevocation) :
    readRevocation (writeRevocation record) = some record := by
  obtain ⟨⟨sha256, valid⟩, reason, createdBy, createdAtUnix, state, revision⟩ := record
  have text : ∀ text, readText (asBytes text) = some text := fromUTF8_asBytes
  have lifted : ∀ liftedBy liftedAtUnix,
      readState (writeText liftedBy ++ writeTime liftedAtUnix) =
        some (.lifted liftedBy liftedAtUnix) := by
    intro liftedBy liftedAtUnix
    unfold readState writeText writeTime
    rw [readField_append, ← List.append_nil (writeField (toLeBytes _))]
    simp only [readField_append, text, readTime_toLeBytes, bind_eq_bind, bind_some]
    rfl
  unfold readRevocation writeRevocation
  cases state with
  | active =>
    simp only [writeText, writeTime, append_assoc, readField_append, bind_eq_bind,
      bind_some, text, readTime_toLeBytes, dif_pos valid, length_replicate]
    rfl
  | lifted liftedBy liftedAtUnix =>
    have state := lifted liftedBy liftedAtUnix
    unfold writeText writeTime at state ⊢
    simp only [append_assoc, readField_append, bind_eq_bind, bind_some, text,
      readTime_toLeBytes, dif_pos valid, length_replicate, state]
    rfl

def json : SerdeJson (List UInt8) where
  Value := ServerMutation
  fromSlice bytes := (readRevocation bytes).map .digestRevocation
  hasMember _ member := member == serverOpTag
  fromValue := some
  toVec
    | .digestRevocation record => writeRevocation record
  reads_back
    | .digestRevocation record => by
      refine ⟨.digestRevocation record, ?_, beq_self_eq_true _, rfl⟩
      rw [readRevocation_writeRevocation, map_some]

/-- The digest is the bytes themselves: as good as a hash gets. -/
def codec : CanonicalCodec (List UInt8) where
  ofVec := id
  fromSlice := readRevocation
  sha256 := id
  toVec := id
  ofVec_toVec _ := rfl
  toJson := writeRevocation
  fromSlice_toJson := readRevocation_writeRevocation

end PlainVec

theorem released_valid :
    isSha256Hex "aaaaaaaaaaaaaaaaaaaaaaaaaaaaaaaaaaaaaaaaaaaaaaaaaaaaaaaaaaaaaaaa" = true := by
  decide +kernel

def releaseState : CheckpointState (List UInt8) where
  rows := Std.ExtTreeMap.ofList [("pypi/demo", [49, 46, 48])] compare
  revocations := Std.ExtTreeMap.ofList [("sha256:aa", {
    digest := ⟨_, released_valid⟩
    reason := "malware", createdBy := "ops", createdAtUnix := 7, state := .active
    revision := 1 })] compare
  blobs := Std.ExtTreeSet.ofList [⟨"bb", 12⟩] compare

/-- The bytes of `releaseState` one by one. -/
theorem canonical_decodes_byte_by_byte :
    ∃ decoder, ((releaseState.canonical PlainVec.codec).map ([·])).foldlM
        (CanonicalDecoder.push PlainVec.codec.toCanonicalBytes) {} = .ok decoder ∧
      decoder.finish PlainVec.codec.toCanonicalBytes = .ok
        { rows := releaseState.rows
          revocations := releaseState.revocations
          blobs := releaseState.blobs
          digest := hexEncode (releaseState.canonical PlainVec.codec) } := by
  refine (canonical_decodes PlainVec.codec releaseState (by decide +kernel) _ ?_).1
  rw [← flatMap_def, flatMap_singleton']

end Peryx
