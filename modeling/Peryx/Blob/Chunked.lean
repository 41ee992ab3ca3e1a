import Peryx.Lib.Saturating

/-!
# Chunk digests of a blob

`blob/chunked.rs` of `peryx-storage`: the digest of each chunk of a blob, taken
from the whole blob (`ChunkedDigest.of`) or while it arrives, and the byte range
that a chunk covers. The builder comes to the digests of the whole however the
bytes are split into updates, and the ranges tile the blob.

- `digests_of_any_split`: both, for every split of the bytes.
-/

namespace Peryx.Chunked

open List

structure NonZeroU64 where
  get : Nat
  pos : 0 < get
  le : get ≤ Nat.u64Max

variable {α : Type*} (span : NonZeroU64)

/-- `slice::chunks`. -/
def chunks (items : List α) : List (List α) :=
  if items = [] then [] else items.take span.get :: chunks (items.drop span.get)
termination_by items.length
decreasing_by
  have := length_pos_iff.mpr ‹items ≠ []›
  have := span.pos
  simp only [length_drop]
  omega

@[simp] theorem chunks_nil : chunks span ([] : List α) = [] := by
  rw [chunks, if_pos rfl]

theorem chunks_of_ne_nil {items : List α} (some : items ≠ []) :
    chunks span items = items.take span.get :: chunks span (items.drop span.get) := by
  rw [chunks, if_neg some]

variable {span}

theorem chunks_append {chunk : List α} (full : chunk.length = span.get) (rest : List α) :
    chunks span (chunk ++ rest) = chunk :: chunks span rest := by
  have some : chunk ++ rest ≠ [] := by
    have := span.pos
    rintro none
    simp_all
  rw [chunks_of_ne_nil span some, ← full, take_left, drop_left]

theorem chunks_of_le {chunk : List α} (some : chunk ≠ []) (short : chunk.length ≤ span.get) :
    chunks span chunk = [chunk] := by
  rw [chunks_of_ne_nil span some, take_of_length_le short, drop_of_length_le short, chunks_nil]

def toHex (bytes : List UInt8) : String :=
  bytes.foldl (fun out (byte : UInt8) =>
    (out.push (Nat.digitChar (byte >>> 4).toNat)).push (Nat.digitChar (byte &&& 0x0f).toNat)) ""

structure ChunkedDigest where
  chunkSize : Nat
  digests : List String
deriving DecidableEq

/-- A hasher in progress is the bytes it took; what it comes to is `sha256` of them. -/
structure ChunkedDigestBuilder where
  chunkSize : NonZeroU64
  filled : Nat
  current : List UInt8
  digests : List String
  counted : current.length = filled
  room : filled < chunkSize.get

section Build

variable (sha256 : List UInt8 → List UInt8)

def ChunkedDigest.of (bytes : List UInt8) (chunkSize : NonZeroU64) : ChunkedDigest :=
  ⟨chunkSize.get, (chunks chunkSize bytes).map fun chunk => toHex (sha256 chunk)⟩

namespace ChunkedDigestBuilder

def new (chunkSize : NonZeroU64) : ChunkedDigestBuilder :=
  ⟨chunkSize, 0, [], [], rfl, chunkSize.pos⟩

/-- With `current` as the whole chunk. -/
def closeChunk (b : ChunkedDigestBuilder) (current : List UInt8) : ChunkedDigestBuilder :=
  { new b.chunkSize with digests := b.digests ++ [toHex (sha256 current)] }

def update (b : ChunkedDigestBuilder) (bytes : List UInt8) : ChunkedDigestBuilder :=
  if bytes = [] then b
  else
    let take := min (b.chunkSize.get - b.filled) bytes.length
    let current := b.current ++ bytes.take take
    if full : b.filled + take = b.chunkSize.get then
      update (closeChunk sha256 b current) (bytes.drop take)
    else
      update ⟨b.chunkSize, b.filled + take, current, b.digests, by
        simp [current, take, b.counted], by have := b.room; omega⟩ (bytes.drop take)
termination_by bytes.length
decreasing_by
  all_goals
    have := length_pos_iff.mpr ‹bytes ≠ []›
    have := b.room
    simp only [length_drop]
    omega

def finish (b : ChunkedDigestBuilder) : ChunkedDigest :=
  let b' := if 0 < b.filled then closeChunk sha256 b b.current else b
  ⟨b'.chunkSize.get, b'.digests⟩

/-- The digests of the whole if `rest` is still to come. -/
def digestsWith (b : ChunkedDigestBuilder) (rest : List UInt8) : ChunkedDigest :=
  ⟨b.chunkSize.get, b.digests ++ (ChunkedDigest.of sha256 (b.current ++ rest) b.chunkSize).digests⟩

variable {sha256} {b : ChunkedDigestBuilder}

theorem digestsWith_closeChunk {current : List UInt8} (full : current.length = b.chunkSize.get)
    (rest : List UInt8) :
    digestsWith sha256 (closeChunk sha256 b current) rest = ⟨b.chunkSize.get, b.digests ++
        (ChunkedDigest.of sha256 (current ++ rest) b.chunkSize).digests⟩ := by
  simp [digestsWith, closeChunk, new, ChunkedDigest.of, chunks_append full]

theorem moved {current bytes rest : List UInt8} {take : Nat} :
    current ++ bytes.take take ++ (bytes.drop take ++ rest) = current ++ (bytes ++ rest) := by
  rw [append_assoc, ← append_assoc (bytes.take take), take_append_drop]

-- each turn of the loop moves bytes from what is to come to the open chunk
theorem digestsWith_update (bytes rest : List UInt8) :
    digestsWith sha256 (update sha256 b bytes) rest = digestsWith sha256 b (bytes ++ rest) := by
  fun_induction update sha256 b bytes with
  | case1 b => rfl
  | case2 b bytes some take current full ih =>
    have length : current.length = b.chunkSize.get := by
      simp only [current, length_append, b.counted, length_take]
      omega
    rw [ih, digestsWith_closeChunk length, digestsWith, moved]
  | case3 b bytes some take current short ih =>
    rw [ih, digestsWith, digestsWith, moved]

theorem finish_eq : finish sha256 b = digestsWith sha256 b [] := by
  have counted := b.counted
  have size := b.room
  by_cases some : 0 < b.filled
  · have one : chunks b.chunkSize b.current = [b.current] :=
      chunks_of_le (length_pos_iff.mp (by omega)) (by omega)
    simp [finish, digestsWith, ChunkedDigest.of, some, one, closeChunk, new]
  · have none : b.current = [] := length_eq_zero_iff.mp (by omega)
    simp [finish, digestsWith, ChunkedDigest.of, some, none]

theorem digestsWith_foldl (parts : List (List UInt8)) :
    digestsWith sha256 (parts.foldl (update sha256) b) [] = digestsWith sha256 b parts.flatten := by
  induction parts generalizing b with
  | nil => rfl
  | cons part parts ih => rw [foldl_cons, ih, digestsWith_update, flatten_cons]

end ChunkedDigestBuilder

end Build

namespace ChunkedDigest

def len (digest : ChunkedDigest) : Nat :=
  digest.digests.length

def range (digest : ChunkedDigest) (index total : Nat) : Option (Nat × Nat) :=
  if digest.len ≤ index then none
  else
    let start := digest.chunkSize.u64SaturatingMul index
    some (start, min (start.u64SaturatingAdd digest.chunkSize) total)

/-- Non-empty ranges, each from where the one before it ends. -/
def Tiles (start stop : Nat) : List (Nat × Nat) → Prop
  | [] => start = stop
  | (first, last) :: ranges => first = start ∧ start < last ∧ Tiles last stop ranges

theorem range_eq {digest : ChunkedDigest} {index total : Nat} (present : index < digest.len)
    (inside : digest.chunkSize * index < total) (fits : total ≤ Nat.u64Max) :
    digest.range index total =
      some (digest.chunkSize * index, min (digest.chunkSize * (index + 1)) total) := by
  have next := Nat.mul_add_one digest.chunkSize index
  simp only [range, if_neg (by omega : ¬digest.len ≤ index), Nat.u64SaturatingMul,
    Nat.u64SaturatingAdd, Option.some.injEq, Prod.mk.injEq]
  omega

-- over the bytes from chunk `k` on, of which the last may be short
theorem tiles_from {digest : ChunkedDigest} {total : Nat} (size : digest.chunkSize = span.get)
    (fits : total ≤ Nat.u64Max) (bytes : List α) (k : Nat)
    (rest : bytes.length = total - span.get * k)
    (count : k + (chunks span bytes).length = digest.len) :
    ∃ ranges, (List.range' k (chunks span bytes).length).map (digest.range · total) =
        ranges.map some ∧
      Tiles (min (span.get * k) total) total ranges := by
  fun_induction chunks span bytes generalizing k with
  | case1 =>
    refine ⟨[], rfl, ?_⟩
    simp only [length_nil] at rest
    show min _ _ = _
    omega
  | case2 bytes more ih =>
    have inside : span.get * k < total := by
      have := length_pos_iff.mpr more
      omega
    have pos := span.pos
    have next := Nat.mul_add_one span.get k
    rw [length_cons] at count ⊢
    obtain ⟨ranges, eq, tiles⟩ := ih (k + 1) (by rw [length_drop]; omega) (by omega)
    refine ⟨(span.get * k, min (span.get * (k + 1)) total) :: ranges, ?_, ?_, ?_, tiles⟩
    · rw [range'_succ, map_cons, map_cons, eq, range_eq (by omega) (by rwa [size]) fits, size]
    · omega
    · omega

/-- The chunks of a whole cover it. -/
theorem tiles_of (sha256 : List UInt8 → List UInt8) {bytes : List UInt8}
    (fits : bytes.length ≤ Nat.u64Max) :
    let digest := of sha256 bytes span
    ∃ ranges, (List.range digest.len).map (digest.range · bytes.length) = ranges.map some ∧
      Tiles 0 bytes.length ranges := by
  intro digest
  have count : (chunks span bytes).length = digest.len := (length_map _).symm
  obtain ⟨ranges, eq, tiles⟩ :=
    tiles_from (show digest.chunkSize = _ from rfl) fits bytes 0 rfl (by omega)
  refine ⟨ranges, ?_, by simpa using tiles⟩
  rw [range_eq_range', ← count]
  exact eq

end ChunkedDigest

open ChunkedDigest ChunkedDigestBuilder in
/-- However the bytes are split into updates, the builder comes to the digests of
the whole, and the ranges of the chunks tile it. -/
theorem digests_of_any_split (sha256 : List UInt8 → List UInt8) (chunkSize : NonZeroU64)
    (parts : List (List UInt8)) (fits : parts.flatten.length ≤ Nat.u64Max) :
    let bytes := parts.flatten
    let digest := ChunkedDigest.of sha256 bytes chunkSize
    finish sha256 (parts.foldl (update sha256) (new chunkSize)) = digest ∧
      ∃ ranges, (List.range digest.len).map (digest.range · bytes.length) = ranges.map some ∧
        Tiles 0 bytes.length ranges := by
  refine ⟨?_, tiles_of sha256 fits⟩
  rw [finish_eq, digestsWith_foldl]
  rfl

theorem digests_of_any_split_sample :
    ChunkedDigestBuilder.finish id ([[1, 2, 3], [], [4, 5, 6, 7]].foldl
        (ChunkedDigestBuilder.update id) (.new ⟨2, by decide, by decide⟩)) =
      ChunkedDigest.of id [1, 2, 3, 4, 5, 6, 7] ⟨2, by decide, by decide⟩ :=
  (digests_of_any_split id ⟨2, by decide, by decide⟩ [[1, 2, 3], [], [4, 5, 6, 7]] (by decide)).1

end Peryx.Chunked
