import Peryx.Storage.CheckpointReplacement

/-!
# What is staged is what the transfer accepted

The chunks of `CHECKPOINT_STAGING` beside a ghost of the transfer they are for:
every byte accepted for the staged manifest since its transfer was opened.

- `Staged.call`: what one call stages.
- `staged_chunks_are_the_transfer`: over every run.
-/

namespace Peryx

open List Std.ExtTreeMap

variable {Bytes : Type}

/-! ## Chunks that follow on each other -/

/-- The first chunk starts at `offset`, each later one where the last ends. -/
def Contiguous : Nat → List (Nat × List UInt8) → Prop
  | _, [] => True
  | offset, chunk :: chunks => chunk.1 = offset ∧ Contiguous (offset + chunk.2.length) chunks

namespace Contiguous

variable {chunks : List (Nat × List UInt8)} {offset : Nat}

theorem append (h : Contiguous offset chunks) (bytes : List UInt8) :
    Contiguous offset (chunks ++ [(offset + (chunks.map (·.2)).flatten.length, bytes)]) := by
  induction chunks generalizing offset with
  | nil => simp [Contiguous]
  | cons chunk chunks ih =>
    refine ⟨h.1, ?_⟩
    simpa [Nat.add_assoc] using ih h.2

theorem mem_le (h : Contiguous offset chunks) {chunk : Nat × List UInt8} (mem : chunk ∈ chunks) :
    chunk.1 + chunk.2.length ≤ offset + (chunks.map (·.2)).flatten.length := by
  induction chunks generalizing offset with
  | nil => cases mem
  | cons head chunks ih =>
    simp only [map_cons, flatten_cons, length_append]
    rcases mem_cons.mp mem with rfl | later
    · have := h.1
      omega
    · have := ih h.2 later
      omega

/-- Empty chunks can be left out. -/
theorem filter (h : Contiguous offset chunks) {p : Nat × List UInt8 → Bool}
    (empty : ∀ chunk ∈ chunks, p chunk = false → chunk.2 = []) :
    Contiguous offset (chunks.filter p) ∧
      ((chunks.filter p).map (·.2)).flatten = (chunks.map (·.2)).flatten := by
  induction chunks generalizing offset with
  | nil => exact ⟨trivial, rfl⟩
  | cons head chunks ih =>
    have rest := ih h.2 fun chunk mem => empty chunk (mem_cons_of_mem _ mem)
    cases kept : p head with
    | true => simpa [kept, Contiguous, h.1] using rest
    | false =>
      have none := empty head mem_cons_self kept
      simpa [kept, none] using rest

end Contiguous

theorem toList_insert_last {staging : BTreeMap Nat (List UInt8)} {offset : Nat}
    (last : ∀ chunk ∈ staging.toList, chunk.1 ≤ offset) (bytes : List UInt8) :
    (staging.insert offset bytes).toList =
      staging.toList.filter (·.1 ≠ offset) ++ [(offset, bytes)] := by
  apply BTreeMap.toList_eq_of_ordered
  · refine pairwise_append.mpr ⟨ordered_keys_toList.sublist filter_sublist, by simp, ?_⟩
    intro chunk mem new isNew
    obtain ⟨mem, ne⟩ := List.mem_filter.mp mem
    have := last chunk mem
    rw [mem_singleton.mp isNew, Nat.compare_eq_lt]
    simp only [ne_eq, decide_not, Bool.not_eq_true', decide_eq_false_iff_not] at ne
    omega
  · intro k v
    rw [BTreeMap.get_insert]
    by_cases same : k = offset
    · subst same
      simp [eq_comm]
    · simp [same, Ne.symm same, mem_toList_iff_getElem?_eq_some]

/-! ## The transfer beside the store -/

structure Receiver (Bytes : Type) where
  store : MetaStore Bytes := {}
  /-- What was accepted for the staged manifest since its transfer was opened. -/
  accepted : List UInt8 := []

namespace Receiver

def call (canonical : CanonicalBytes Bytes) (receiver : Receiver Bytes)
    (call : ReceiverCall Bytes) : Receiver Bytes × Unit :=
  let store := (receiver.store.receive canonical call).1
  let accepted :=
    match call with
    | .begin _ | .discard => []
    | .stage manifest offset bytes cursor =>
      match receiver.store.stageCheckpointChunk manifest offset bytes cursor with
      | .error _ => receiver.accepted
      | .ok _ =>
        if receiver.store.stagedHeader.map (·.manifest) = some manifest then
          receiver.accepted ++ bytes
        else bytes
    | .install .. => store.stagedHeader.elim [] fun _ => receiver.accepted
  (⟨store, accepted⟩, ())

structure Staged (receiver : Receiver Bytes) : Prop where
  bytes : receiver.store.stagedBytes = receiver.accepted
  contiguous : Contiguous 0 receiver.store.staging.toList
  bounded : receiver.accepted.length ≤ (receiver.store.stagedHeader.map (·.manifest.bytes)).getD 0

/-- A chunk that starts another manifest's transfer finds nothing staged past
offset 0. -/
def Continues (receiver : Receiver Bytes) : ReceiverCall Bytes → Prop
  | .stage manifest 0 bytes _ =>
    receiver.store.stagedHeader.map (·.manifest) = some manifest ∨
      manifest.bytes < bytes.length ∨ ∀ chunk ∈ receiver.store.staging.toList, chunk.1 = 0
  | _ => True

/-! ## Every call keeps the prefix -/

theorem installOn_staging (canonical : CanonicalBytes Bytes) (fault : Option InstallFault)
    (store : MetaStore Bytes) (cursorKey : String) (cursorValue : Bytes) :
    let store' := (store.installOn canonical fault cursorKey cursorValue).1
    store'.staging = store.staging ∧ store'.stagedHeader = store.stagedHeader ∨
      store'.staging = ∅ ∧ store'.stagedHeader = none := by
  intro store'
  simp only [store', MetaStore.installOn]
  -- only the last branch drops what is staged
  repeat' split
  all_goals first | exact .inl ⟨rfl, rfl⟩ | exact .inr ⟨rfl, rfl⟩

variable {store : MetaStore Bytes} {manifest : CheckpointManifest}

theorem Staged.landed (got bytes : List UInt8) (cursor : String)
    (last : ∀ chunk ∈ store.staging.toList, chunk.1 ≤ got.length)
    (kept : Contiguous 0 (store.staging.toList.filter (·.1 ≠ got.length)))
    (whole : ((store.staging.toList.filter (·.1 ≠ got.length)).map (·.2)).flatten = got)
    (room : got.length + bytes.length ≤ manifest.bytes) :
    Staged ⟨{ store with
        staging := store.staging.insert got.length bytes
        stagedHeader := some { manifest, cursor } }, got ++ bytes⟩ := by
  have rows := toList_insert_last last bytes
  constructor
  · rw [MetaStore.stagedBytes, rows, map_append, flatten_append, whole]
    simp
  · have ends := kept.append bytes
    rwa [whole, Nat.zero_add, ← rows] at ends
  · simpa using room

theorem Staged.stage {receiver : Receiver Bytes} (staged : receiver.Staged)
    {offset : Nat} {bytes : List UInt8} {cursor : String}
    (continues : receiver.Continues (.stage manifest offset bytes cursor))
    {answer : StagedCheckpoint}
    (accepted : receiver.store.stageCheckpointChunk manifest offset bytes cursor =
      .ok (store, answer)) :
    Staged ⟨store, if receiver.store.stagedHeader.map (·.manifest) = some manifest then
      receiver.accepted ++ bytes else bytes⟩ := by
  obtain ⟨start, accepted⟩ := Except.guard_eq_ok.mp accepted
  obtain ⟨room, accepted⟩ := Except.guard_eq_ok.mp accepted
  cases accepted
  rw [not_not] at start
  rw [start, not_lt] at room
  rw [MetaStore.stagedCheckpoint, ← MetaStore.length_stagedBytes, staged.bytes] at start
  by_cases same : receiver.store.stagedHeader.map (·.manifest) = some manifest
  · -- the chunk starts where the staged ones end, past all but empty ones
    obtain ⟨held, stored, rfl⟩ := Option.map_eq_some_iff.mp same
    have ends : receiver.accepted.length = offset := by simpa [stored, Option.filter] using start
    subst ends
    have inside : ∀ chunk ∈ receiver.store.staging.toList,
        chunk.1 + chunk.2.length ≤ receiver.accepted.length := by
      intro chunk mem
      simpa [← staged.bytes, MetaStore.stagedBytes] using staged.contiguous.mem_le mem
    obtain ⟨kept, flat⟩ := staged.contiguous.filter (p := (·.1 ≠ receiver.accepted.length))
      fun chunk mem gone => by
        have := inside chunk mem
        simp only [ne_eq, decide_not, Bool.not_eq_false', decide_eq_true_eq] at gone
        exact eq_nil_of_length_eq_zero (by omega)
    rw [if_pos same]
    exact Staged.landed _ _ _ (fun chunk mem => by have := inside chunk mem; omega) kept
      (flat.trans staged.bytes) room
  · -- the first chunk of a transfer, which replaces the only one there can be
    have first : offset = 0 := by
      rw [← start]
      cases stored : receiver.store.stagedHeader with
      | none => rfl
      | some held =>
        have other : held.manifest ≠ manifest := by simpa [stored] using same
        simp [Option.filter, other]
    subst first
    have only := (continues.resolve_left same).resolve_left (by omega)
    have none : receiver.store.staging.toList.filter (·.1 ≠ 0) = [] := by
      simpa [filter_eq_nil_iff] using fun k v mem => only (k, v) mem
    rw [if_neg same]
    exact Staged.landed [] _ _ (fun chunk mem => (only chunk mem).le) (none ▸ trivial)
      (none ▸ rfl) room

theorem Staged.call (canonical : CanonicalBytes Bytes) {receiver : Receiver Bytes}
    (staged : receiver.Staged) {call : ReceiverCall Bytes} (continues : receiver.Continues call) :
    (receiver.call canonical call).1.Staged := by
  cases call with
  | begin manifest => exact ⟨rfl, trivial, Nat.zero_le _⟩
  | discard => exact ⟨rfl, trivial, Nat.zero_le _⟩
  | stage manifest offset bytes cursor =>
    simp only [Receiver.call, MetaStore.receive]
    cases answer : receiver.store.stageCheckpointChunk manifest offset bytes cursor with
    | error error => exact staged
    | ok accepted => exact staged.stage continues answer
  | install fault cursorKey cursorValue =>
    obtain ⟨bytes, contiguous, bounded⟩ := staged
    simp only [Receiver.call, MetaStore.receive]
    rcases installOn_staging canonical fault receiver.store cursorKey cursorValue with
      ⟨chunks, header⟩ | ⟨chunks, header⟩
    · have known : (receiver.store.stagedHeader.elim [] fun _ => receiver.accepted) =
          receiver.accepted := by
        cases stored : receiver.store.stagedHeader with
        | none => simpa [stored, eq_comm] using bounded
        | some _ => rfl
      rw [header, known]
      exact ⟨by rwa [MetaStore.stagedBytes, chunks], by rwa [chunks], by rwa [header]⟩
    · rw [header]
      exact ⟨by rw [MetaStore.stagedBytes, chunks]; rfl, by rw [chunks]; trivial, Nat.zero_le _⟩

/-- Over any calls of a receiver, whatever their manifests, offsets, bytes and
failures: if every chunk accepted for another manifest than the staged one finds
nothing staged past offset 0, then the staged chunks are, in order from 0
without gap or overlap, the bytes accepted for the staged manifest since its
transfer was opened, and their length is what is reported. -/
theorem staged_chunks_are_the_transfer (canonical : CanonicalBytes Bytes)
    (calls : List (ReceiverCall Bytes))
    (continues : Machine.Along (call canonical) Continues {} calls) :
    let receiver := Machine.exec (call canonical) {} calls
    receiver.store.stagedBytes = receiver.accepted ∧
    Contiguous 0 receiver.store.staging.toList ∧
    ∀ staged ∈ receiver.store.stagedCheckpoint,
      staged.received = receiver.accepted.length ∧ staged.received ≤ staged.manifest.bytes := by
  intro receiver
  have staged : receiver.Staged :=
    Machine.exec_invariant (call canonical) (I := Staged)
      (fun _ _ staged ok => staged.call canonical ok) {} calls ⟨rfl, trivial, Nat.zero_le _⟩
      continues
  refine ⟨staged.bytes, staged.contiguous, ?_⟩
  intro held found
  obtain ⟨header, stored, rfl⟩ := Option.map_eq_some_iff.mp found
  have bounded := staged.bounded
  rw [stored] at bounded
  rw [← MetaStore.length_stagedBytes, staged.bytes]
  exact ⟨rfl, bounded⟩

end Receiver

namespace PlainVec

def twoBytes (serial : Nat) : CheckpointManifest :=
  { manifestOf {} 1 serial 1 with bytes := 2 }

/-- A chunk that is repeated and continued, and another manifest's after the
transfer is dropped. -/
def restarted : List (ReceiverCall (List UInt8)) :=
  [.begin (twoBytes 1), .stage (twoBytes 1) 0 [1] "", .stage (twoBytes 1) 0 [1] "",
    .stage (twoBytes 1) 1 [2] "", .discard, .stage (twoBytes 2) 0 [9] ""]

/-- The same without dropping the first transfer. -/
def overtaken : List (ReceiverCall (List UInt8)) :=
  [.begin (twoBytes 1), .stage (twoBytes 1) 0 [1] "", .stage (twoBytes 1) 1 [2] "",
    .stage (twoBytes 2) 0 [9] ""]

end PlainVec

theorem staged_chunks_are_the_transfer_restarted :
    (Machine.exec (Receiver.call PlainVec.codec.toCanonicalBytes) {}
      PlainVec.restarted).store.stagedBytes = [9] := by
  have staged := Receiver.staged_chunks_are_the_transfer PlainVec.codec.toCanonicalBytes
    PlainVec.restarted ⟨trivial, .inl rfl, .inl rfl, trivial, trivial, ?_, trivial⟩
  · exact staged.1
  · exact .inr (.inr (by decide +kernel))

/-- The first manifest's second byte is left under the second manifest, whose
transfer then counts as whole after one byte of two. -/
theorem staged_chunks_mix_two_transfers :
    let receiver := Machine.exec (Receiver.call PlainVec.codec.toCanonicalBytes) {}
      PlainVec.overtaken
    receiver.accepted = [9] ∧ receiver.store.stagedBytes = [9, 2] ∧
      receiver.store.stagedCheckpoint.map (·.received) = some (PlainVec.twoBytes 2).bytes := by
  decide +kernel

end Peryx
