import Peryx.Storage.CursorToken
import Peryx.Storage.Publication

/-!
# Serving a checkpoint in chunks

`checkpoint_chunk_at_generation` of `meta/checkpoint_transfer.rs`, and a
receiver that follows its cursors while the primary goes on committing,
publishing and pruning. A request is two transactions, one that renews the
generation's lease and one that reads; anything may happen between them.

- `Delivering.step`: what one event does to a transfer.
- `transfer_delivers_the_manifest`: the bytes served are those of the manifest.
-/

namespace Peryx

open BTreeMap List Std.ExtTreeMap

variable {Bytes : Type}

/-! ## One chunk -/

structure CheckpointChunk where
  bytes : List UInt8
  next : CheckpointCursor
deriving DecidableEq

/-- One section's entries until the budget is reached, and the key the section
stopped after. -/
def chunkSection {α : Type} (push : List UInt8 → String × α → List UInt8) (budget : Nat) :
    List UInt8 → List (String × α) → List UInt8 × Option String
  | bytes, [] => (bytes, none)
  | bytes, entry :: entries =>
    let bytes := push bytes entry
    if budget ≤ bytes.length then (bytes, some entry.1)
    else chunkSection push budget bytes entries

namespace CheckpointTables

variable (codec : CanonicalCodec Bytes) (tables : CheckpointTables Bytes) (budget : Nat)

def chunkBlobs (bytes : List UInt8) (after : Option String) : CheckpointChunk :=
  let (bytes, stopped) := chunkSection
    (fun bytes (row : String × Nat) => CheckpointState.pushBlob bytes row.1 row.2) budget bytes
    (tables.blobs.rangeAfter after)
  { bytes, next := (stopped.map fun after => .blobs (some after)).getD .done }

def chunkRevocations (bytes : List UInt8) (after : Option String) : CheckpointChunk :=
  match chunkSection (CheckpointState.pushRevocation codec) budget bytes
    (tables.revocations.rangeAfter after) with
  | (bytes, some after) => { bytes, next := .revocations (some after) }
  | (bytes, none) => tables.chunkBlobs budget bytes none

def chunkRows (bytes : List UInt8) (after : Option String) : CheckpointChunk :=
  match chunkSection (CheckpointState.pushRow codec) budget bytes
    (tables.rows.rangeAfter after) with
  | (bytes, some after) => { bytes, next := .rows (some after) }
  | (bytes, none) => tables.chunkRevocations codec budget bytes none

def chunk : CheckpointCursor → CheckpointChunk
  | .rows after => tables.chunkRows codec budget [] after
  | .revocations after => tables.chunkRevocations codec budget [] after
  | .blobs after => tables.chunkBlobs budget [] after
  | .done => { bytes := [], next := .done }

end CheckpointTables

namespace MetaStore

def checkpointChunkFromGeneration (codec : CanonicalCodec Bytes) (store : MetaStore Bytes)
    (cursor : CheckpointCursor) (budget : Nat) (generation : Option Nat) :
    Except MetaError CheckpointChunk :=
  match generation.filter (· ≠ store.currentGeneration) with
  | some generation => .error (.staleCheckpointGeneration generation store.currentGeneration)
  | none => .ok (store.published.chunk codec budget cursor)

end MetaStore

/-! ## What is left after a cursor -/

namespace CheckpointTables

def remaining (tables : CheckpointTables Bytes) : CheckpointCursor → List (CanonicalEntry Bytes)
  | .rows after => (tables.rows.rangeAfter after).map (fun row => .row row.1 row.2) ++
      (tables.revocations.rangeAfter none).map (fun row => .revocation row.1 row.2) ++
      (tables.blobs.rangeAfter none).map fun row => .blob ⟨row.1, row.2⟩
  | .revocations after =>
    (tables.revocations.rangeAfter after).map (fun row => .revocation row.1 row.2) ++
      (tables.blobs.rangeAfter none).map fun row => .blob ⟨row.1, row.2⟩
  | .blobs after => (tables.blobs.rangeAfter after).map fun row => .blob ⟨row.1, row.2⟩
  | .done => []

end CheckpointTables

theorem chunkSection_cases {α : Type} {write : CanonicalEntry Bytes → List UInt8}
    {push : List UInt8 → String × α → List UInt8} {item : String × α → CanonicalEntry Bytes}
    (h : ∀ bytes entry, push bytes entry = bytes ++ write (item entry)) (budget : Nat)
    (bytes : List UInt8) (entries : List (String × α)) :
    chunkSection push budget bytes entries =
        (bytes ++ Framing.writeAll write (entries.map item), none) ∨
      ∃ taken last rest, entries = taken ++ last :: rest ∧
        chunkSection push budget bytes entries =
          (bytes ++ Framing.writeAll write ((taken ++ [last]).map item), some last.1) := by
  induction entries generalizing bytes with
  | nil => exact .inl (by simp [chunkSection, Framing.writeAll])
  | cons entry entries ih =>
    rw [chunkSection, h]
    by_cases full : budget ≤ (bytes ++ write (item entry)).length
    · rw [if_pos full]
      exact .inr ⟨[], entry, entries, rfl, by simp [Framing.writeAll]⟩
    · rw [if_neg full]
      rcases ih (bytes ++ write (item entry)) with whole | ⟨taken, last, rest, rfl, stopped⟩
      · refine .inl (whole.trans ?_)
        simp [Framing.writeAll]
      · refine .inr ⟨entry :: taken, last, rest, rfl, stopped.trans ?_⟩
        simp [Framing.writeAll]

namespace CheckpointTables

variable (codec : CanonicalCodec Bytes) (tables : CheckpointTables Bytes)

/-- A chunk writes the entries between its cursor and the next, at least one
unless it is the last. -/
def Advances (bytes : List UInt8) (cursor : CheckpointCursor) (chunk : CheckpointChunk) : Prop :=
  ∃ taken, tables.remaining cursor = taken ++ tables.remaining chunk.next ∧
    chunk.bytes = bytes ++ Framing.writeAll (·.encode codec) taken ∧
    (chunk.next = .done ∨ taken ≠ [])

theorem chunkBlobs_advances (budget : Nat) (bytes : List UInt8) (after : Option String) :
    tables.Advances codec bytes (.blobs after) (tables.chunkBlobs budget bytes after) := by
  have push : ∀ bytes (row : String × Nat), CheckpointState.pushBlob bytes row.1 row.2 =
      bytes ++ CanonicalEntry.encode codec (.blob ⟨row.1, row.2⟩) :=
    fun bytes row => CheckpointState.pushBlob_eq_append codec bytes ⟨row.1, row.2⟩
  unfold chunkBlobs
  rcases chunkSection_cases push budget bytes (tables.blobs.rangeAfter after) with
    whole | ⟨taken, last, rest, cut, stopped⟩
  · rw [whole]
    exact ⟨_, (List.append_nil _).symm, rfl, .inl rfl⟩
  · rw [stopped]
    refine ⟨(taken ++ [last]).map _, ?_, rfl, .inr (by simp)⟩
    show (tables.blobs.rangeAfter after).map _ = _ ++ (tables.blobs.rangeAfter (some last.1)).map _
    rw [rangeAfter_resume cut, cut, ← map_append, append_assoc]
    rfl

variable {codec tables}

theorem Advances.after {bytes : List UInt8} {before : List (CanonicalEntry Bytes)}
    {cursor cursor' : CheckpointCursor} {chunk : CheckpointChunk}
    (h : tables.Advances codec (bytes ++ Framing.writeAll (·.encode codec) before) cursor' chunk)
    (split : tables.remaining cursor = before ++ tables.remaining cursor') :
    tables.Advances codec bytes cursor chunk := by
  obtain ⟨taken, left, written, ended⟩ := h
  refine ⟨before ++ taken, ?_, ?_, ?_⟩
  · rw [split, left, append_assoc]
  · rw [written, Framing.writeAll_append, append_assoc]
  · refine ended.imp_right fun some none => some ?_
    exact (append_eq_nil_iff.mp none).2

variable (codec tables)

theorem chunkRevocations_advances (budget : Nat) (bytes : List UInt8) (after : Option String) :
    tables.Advances codec bytes (.revocations after)
      (tables.chunkRevocations codec budget bytes after) := by
  unfold chunkRevocations
  rcases chunkSection_cases (CheckpointState.pushRevocation_eq_append codec) budget bytes
    (tables.revocations.rangeAfter after) with whole | ⟨taken, last, rest, cut, stopped⟩
  · rw [whole]
    exact (tables.chunkBlobs_advances codec budget _ none).after rfl
  · rw [stopped]
    refine ⟨(taken ++ [last]).map _, ?_, rfl, .inr (by simp)⟩
    show (tables.revocations.rangeAfter after).map _ ++ _ =
      _ ++ ((tables.revocations.rangeAfter (some last.1)).map _ ++ _)
    rw [rangeAfter_resume cut, cut]
    simp

theorem chunkRows_advances (budget : Nat) (bytes : List UInt8) (after : Option String) :
    tables.Advances codec bytes (.rows after) (tables.chunkRows codec budget bytes after) := by
  unfold chunkRows
  rcases chunkSection_cases (CheckpointState.pushRow_eq_append codec) budget bytes
    (tables.rows.rangeAfter after) with whole | ⟨taken, last, rest, cut, stopped⟩
  · rw [whole]
    exact (tables.chunkRevocations_advances codec budget _ none).after (append_assoc ..)
  · rw [stopped]
    refine ⟨(taken ++ [last]).map _, ?_, rfl, .inr (by simp)⟩
    show (tables.rows.rangeAfter after).map _ ++ _ ++ _ =
      _ ++ ((tables.rows.rangeAfter (some last.1)).map _ ++ _ ++ _)
    rw [rangeAfter_resume cut, cut]
    simp

/-- **Step.** Every chunk continues where its cursor stands. -/
theorem chunk_advances (budget : Nat) (cursor : CheckpointCursor) :
    tables.Advances codec [] cursor (tables.chunk codec budget cursor) := by
  cases cursor with
  | rows after => exact tables.chunkRows_advances codec budget [] after
  | revocations after => exact tables.chunkRevocations_advances codec budget [] after
  | blobs after => exact tables.chunkBlobs_advances codec budget [] after
  | done => exact ⟨[], rfl, rfl, .inl rfl⟩

end CheckpointTables

/-! ## What the tables are the tables of -/

def CheckpointState.OneSize (state : CheckpointState Bytes) : Prop :=
  ∀ a ∈ state.blobs, ∀ b ∈ state.blobs, a.sha256 = b.sha256 → a.size = b.size

theorem CheckpointTables.blobs_ofState {state : CheckpointState Bytes} (one : state.OneSize)
    (manifest : CheckpointManifest) :
    (CheckpointTables.ofState state manifest).blobs.toList =
      state.blobs.toList.map fun blob => (blob.sha256, blob.size) := by
  have ordered : (state.blobs.toList.map fun blob => (blob.sha256, blob.size)).Pairwise
      fun a b => compare a.1 b.1 = .lt := by
    refine pairwise_map.mpr (Std.ExtTreeSet.ordered_toList.imp_of_mem ?_)
    intro a b ha hb lt
    have lex : (compare a.sha256 b.sha256).then (compare a.size b.size) = .lt := lt
    cases first : compare a.sha256 b.sha256 with
    | lt => rfl
    | gt =>
      rw [first] at lex
      cases lex
    | eq =>
      -- one digest twice would be one size twice
      have same := one a (Std.ExtTreeSet.mem_toList.mp ha) b (Std.ExtTreeSet.mem_toList.mp hb)
        (Std.LawfulEqCmp.eq_of_compare first)
      have self : compare b.size b.size = .eq := Std.ReflCmp.compare_self
      rw [first, same, self] at lex
      cases lex
  have table : (CheckpointTables.ofState state manifest).blobs =
      (state.blobs.toList.map fun blob => (blob.sha256, blob.size)).foldl
        (fun blobs row => blobs.insert row.1 row.2) ∅ := by
    rw [foldl_map]
    rfl
  rw [table, toList_foldl_insert ordered]

theorem CheckpointTables.remaining_start {state : CheckpointState Bytes} (one : state.OneSize)
    (manifest : CheckpointManifest) :
    (CheckpointTables.ofState state manifest).remaining .start = state.entries := by
  unfold remaining CheckpointCursor.start CheckpointState.entries BTreeMap.rangeAfter
  rw [blobs_ofState one, List.map_map]
  rfl

/-- `manifest` names `state`, and the published tables are theirs. -/
structure Attests (codec : CanonicalCodec Bytes) (store : MetaStore Bytes)
    (state : CheckpointState Bytes) (manifest : CheckpointManifest) : Prop where
  published : store.published = .ofState state manifest
  bytes : manifest.bytes = (state.canonical codec).length
  digest : manifest.digest = hexEncode (codec.sha256 (state.canonical codec))

namespace PrimaryStep

variable {config : PrimaryConfig Bytes} {store store' : MetaStore Bytes}

theorem published_cases (h : PrimaryStep config store store') :
    store'.published = store.published ∨
      ∃ state manifest, Publishes config store store' state manifest := by
  cases h with
  | appends h => exact .inl h.published
  | publishes h => exact .inr ⟨_, _, h⟩
  | prunes h =>
    obtain ⟨serials, rfl, -⟩ := h
    exact .inl rfl

theorem attests (h : PrimaryStep config store store')
    (attested : ∀ manifest, store.published.manifest = some manifest →
      ∃ state, Attests config.codec store state manifest) {manifest : CheckpointManifest}
    (published : store'.published.manifest = some manifest) :
    ∃ state, Attests config.codec store' state manifest := by
  rcases h.published_cases with same | ⟨state, signed, step⟩
  · rw [same] at published
    obtain ⟨state, h⟩ := attested manifest published
    exact ⟨state, same.trans h.published, h.bytes, h.digest⟩
  · rw [step.published] at published
    cases published
    obtain ⟨identity, signs⟩ := step.signed
    exact ⟨state, step.published, by rw [signs]; rfl, by rw [signs]; rfl⟩

end PrimaryStep

theorem PrimaryHistory.attested (config : PrimaryConfig Bytes) (calls : List (PrimaryCall Bytes)) :
    ∀ manifest, (after config calls).store.published.manifest = some manifest →
      ∃ state, Attests config.codec (after config calls).store state manifest :=
  Machine.exec_invariant_always (step config) (I := fun history => ∀ manifest,
    history.store.published.manifest = some manifest →
      ∃ state, Attests config.codec history.store state manifest)
    (fun history call attested _ published =>
      (history.store.run_step config call).attests attested published) {} calls nofun

/-! ## A receiver beside the primary -/

/-- How a transfer stands: a refused request ends it. -/
inductive TransferStatus where
  | running
  | done
  | unreadableCursor
  | refused (error : MetaError)
deriving DecidableEq

/-- A primary and one receiver: the token of its next request, and the bytes it
was given so far. -/
structure Transfer (Bytes : Type) where
  store : MetaStore Bytes
  token : String
  bytes : List UInt8 := []
  status : TransferStatus := .running

/-- A call of anyone else, or a request of the receiver: the lease is renewed
at `now`, `between` runs, and then the chunk is read. -/
inductive TransferEvent (Bytes : Type) where
  | call (call : PrimaryCall Bytes)
  | request (now : Int64) (between : List (PrimaryCall Bytes)) (budget : Nat)

def TransferEvent.isRequest : TransferEvent Bytes → Bool
  | .call _ => false
  | .request .. => true

namespace Transfer

variable (config : PrimaryConfig Bytes)

def start (store : MetaStore Bytes) (manifest : CheckpointManifest) : Transfer Bytes where
  store := store
  token := CheckpointCursor.start.generationToken manifest.generation

/-- `serve_checkpoint_chunk` between its two transactions and at the receiver. -/
def request (transfer : Transfer Bytes) (now : Int64) (between : List (PrimaryCall Bytes))
    (budget : Nat) : Transfer Bytes :=
  match CheckpointCursor.fromGenerationToken transfer.token with
  | none =>
    { transfer with
      store := between.foldl (·.run config) transfer.store
      status := .unreadableCursor }
  | some (generation, cursor) =>
    match transfer.store.renewPin generation now with
    | .error error =>
      { transfer with
        store := between.foldl (·.run config) transfer.store
        status := .refused error }
    | .ok pinned =>
      let store := between.foldl (·.run config) pinned
      match store.checkpointChunkFromGeneration config.codec cursor budget (some generation) with
      | .error error => { transfer with store, status := .refused error }
      | .ok chunk =>
        { store
          token := chunk.next.generationToken generation
          bytes := transfer.bytes ++ chunk.bytes
          status := if chunk.next = .done then .done else .running }

def step (transfer : Transfer Bytes) : TransferEvent Bytes → Transfer Bytes × Unit
  | .call call => ({ transfer with store := transfer.store.run config call }, ())
  | .request now between budget =>
    if transfer.status = .running then
      (transfer.request config now between budget, ())
    else
      ({ transfer with store := between.foldl (·.run config) transfer.store }, ())

end Transfer

/-! ## The generation fences the tables -/

/-- The tables the transfer began with are published, or the generation has
moved past theirs. -/
def Fenced (tables : CheckpointTables Bytes) (generation : Nat) (store : MetaStore Bytes) : Prop :=
  store.published = tables ∨ generation < store.currentGeneration

namespace Fenced

variable {tables : CheckpointTables Bytes} {generation : Nat} {store : MetaStore Bytes}

/-- **Step.** Below the largest generation a publication moves on to a new
one, and no call goes back. -/
theorem run (config : PrimaryConfig Bytes) (h : Fenced tables generation store)
    (stands : tables.manifest.map (·.generation) = some generation)
    (room : generation < Nat.u64Max) (call : PrimaryCall Bytes) :
    Fenced tables generation (store.run config call) := by
  rcases (store.run_step config call).published_cases with same | ⟨state, manifest, step⟩
  · unfold Fenced MetaStore.currentGeneration
    rw [same]
    exact h
  · obtain ⟨identity, signed⟩ := step.signed
    refine .inr ?_
    unfold MetaStore.currentGeneration
    rw [step.published]
    show generation < manifest.generation
    rw [signed]
    cases before : store.published.manifest with
    | none =>
      -- a transfer has something to begin with
      rcases h with same | moved
      · rw [← same, before] at stands
        cases stands
      · rw [MetaStore.currentGeneration, before] at moved
        cases moved
    | some held =>
      have reached : generation ≤ held.generation := by
        rcases h with same | moved
        · rw [← same, before] at stands
          exact Nat.le_of_eq (Option.some.inj stands).symm
        · rw [MetaStore.currentGeneration, before] at moved
          exact Nat.le_of_lt moved
      exact Nat.lt_u64SaturatingAdd_one reached room

theorem runAll (config : PrimaryConfig Bytes) (h : Fenced tables generation store)
    (stands : tables.manifest.map (·.generation) = some generation)
    (room : generation < Nat.u64Max) (calls : List (PrimaryCall Bytes)) :
    Fenced tables generation (calls.foldl (·.run config) store) := by
  induction calls generalizing store with
  | nil => exact h
  | cons call calls ih => exact ih (h.run config stands room call)

theorem published (h : Fenced tables generation store)
    (current : store.currentGeneration = generation) : store.published = tables := by
  rcases h with same | moved
  · exact same
  · omega

end Fenced

/-! ## What a receiver has been given -/

/-- Why a transfer of `generation` can end early. -/
def Outlived (generation : Nat) (error : MetaError) : Prop :=
  error = .checkpointGenerationExpired generation ∨
    ∃ current, error = .staleCheckpointGeneration generation current

theorem MetaStore.renewPin_error {store : MetaStore Bytes} {generation : Nat} {now : Int64}
    {error : MetaError} (h : store.renewPin generation now = .error error) :
    Outlived generation error := by
  rcases Except.guard_eq_error.mp h with ⟨-, rfl⟩ | ⟨-, h⟩
  · exact .inr ⟨_, rfl⟩
  · rcases Except.guard_eq_error.mp h with ⟨-, rfl⟩ | ⟨-, h⟩
    · exact .inl rfl
    · cases h

namespace Transfer

variable (config : PrimaryConfig Bytes) (tables : CheckpointTables Bytes) (generation : Nat)
  (entries : List (CanonicalEntry Bytes))

/-- What a transfer's status says after `requests` requests: running, it has
been given an entry for each of them. -/
def Standing (requests : Nat) (transfer : Transfer Bytes) : Prop :=
  match transfer.status with
  | .running => ∃ cursor taken, transfer.token = cursor.generationToken generation ∧
      entries = taken ++ tables.remaining cursor ∧
      transfer.bytes = Framing.writeAll (·.encode config.codec) taken ∧
      requests ≤ taken.length
  | .done => transfer.bytes = Framing.writeAll (·.encode config.codec) entries
  | .unreadableCursor => False
  | .refused error => Outlived generation error

/-- The receiver holds the beginning of the stream of `entries`, and nothing
else. -/
structure Delivering (requests : Nat) (transfer : Transfer Bytes) : Prop where
  fenced : Fenced tables generation transfer.store
  begins : transfer.bytes <+: Framing.writeAll (·.encode config.codec) entries
  standing : transfer.Standing config tables generation entries requests

variable {config tables generation entries}

variable {requests : Nat} {transfer : Transfer Bytes}

section

variable (h : transfer.Delivering config tables generation entries requests)
  (stands : tables.manifest.map (·.generation) = some generation)
  (room : generation < Nat.u64Max)

include h stands room

/-- **Step.** A request that is answered is answered from the tables the
transfer began with. -/
theorem Delivering.request (running : transfer.status = .running) (now : Int64)
    (between : List (PrimaryCall Bytes)) (budget : Nat) :
    (transfer.request config now between budget).Delivering config tables generation entries
      (requests + 1) := by
  have standing := h.standing
  unfold Standing at standing
  rw [running] at standing
  obtain ⟨cursor, taken, token, split, given, enough⟩ := standing
  unfold Transfer.request
  rw [token, CheckpointCursor.fromGenerationToken_generationToken cursor (Nat.le_of_lt room)]
  dsimp only
  cases renewed : transfer.store.renewPin generation now with
  | error error =>
    exact ⟨h.fenced.runAll config stands room between, h.begins, MetaStore.renewPin_error renewed⟩
  | ok pinned =>
    have kept : Fenced tables generation pinned := by
      have same := (MetaStore.renewPin_appends renewed).published
      unfold Fenced MetaStore.currentGeneration
      rw [same]
      exact h.fenced
    have fenced := kept.runAll config stands room between
    dsimp only
    unfold MetaStore.checkpointChunkFromGeneration
    by_cases current : (between.foldl (·.run config) pinned).currentGeneration = generation
    · -- the tables read are the tables the transfer began with
      have fresh : (some generation).filter
          (· ≠ (between.foldl (·.run config) pinned).currentGeneration) = none := by
        simp [current]
      rw [fresh, fenced.published current]
      obtain ⟨more, left, written, ended⟩ := tables.chunk_advances config.codec budget cursor
      rw [nil_append] at written
      have bytes : transfer.bytes ++ (tables.chunk config.codec budget cursor).bytes =
          Framing.writeAll (·.encode config.codec) (taken ++ more) := by
        rw [given, written, Framing.writeAll_append]
      rw [left, ← append_assoc] at split
      refine ⟨fenced, ?_, ?_⟩
      · dsimp only
        rw [bytes, split, Framing.writeAll_append _ (taken ++ more)]
        exact prefix_append _ _
      · unfold Standing
        dsimp only
        by_cases last : (tables.chunk config.codec budget cursor).next = .done
        · rw [if_pos last]
          rw [bytes, split, last, CheckpointTables.remaining, List.append_nil]
        · rw [if_neg last]
          have one := length_pos_iff.mpr (ended.resolve_left last)
          refine ⟨_, taken ++ more, rfl, split, bytes, ?_⟩
          rw [length_append]
          omega
    · have stale : (some generation).filter
          (· ≠ (between.foldl (·.run config) pinned).currentGeneration) = some generation := by
        simp [Ne.symm current]
      rw [stale]
      exact ⟨fenced, h.begins, .inr ⟨_, rfl⟩⟩

theorem Delivering.step (event : TransferEvent Bytes) :
    (Machine.next (Transfer.step config) transfer event).Delivering config tables generation
      entries (requests + if event.isRequest then 1 else 0) := by
  cases event with
  | call call => exact ⟨h.fenced.run config stands room call, h.begins, h.standing⟩
  | request now between budget =>
    unfold Machine.next Transfer.step
    dsimp only
    by_cases running : transfer.status = .running
    · rw [if_pos running]
      exact h.request stands room running now between budget
    · rw [if_neg running]
      refine ⟨h.fenced.runAll config stands room between, h.begins, ?_⟩
      have standing := h.standing
      unfold Standing at standing ⊢
      cases status : transfer.status with
      | running => exact absurd status running
      | done | unreadableCursor | refused =>
        rw [status] at standing
        exact standing

theorem Delivering.exec (events : List (TransferEvent Bytes)) :
    (Machine.exec (Transfer.step config) transfer events).Delivering config tables generation
      entries (requests + events.countP (·.isRequest)) := by
  induction events generalizing transfer requests with
  | nil => exact h
  | cons event events ih =>
    have rest := ih (h.step stands room event)
    rwa [Nat.add_assoc, Nat.add_comm (if event.isRequest then 1 else 0), ← countP_cons] at rest

end

end Transfer

/-- Any published checkpoint that records each digest with one size and is not
of the largest generation, and a receiver that follows its cursors from the
start while anything else happens on the primary: what it holds is always the
beginning of the canonical bytes of that checkpoint's state; done, it holds them
all, with the length and digest of the manifest; after more requests than
entries it is done or has ended; and only a stale or an expired generation ends
it early. -/
theorem transfer_delivers_the_manifest (config : PrimaryConfig Bytes)
    (calls : List (PrimaryCall Bytes)) (manifest : CheckpointManifest)
    (published : (PrimaryHistory.after config calls).store.published.manifest = some manifest)
    (room : manifest.generation < Nat.u64Max) :
    let store := (PrimaryHistory.after config calls).store
    (∃ state, Attests config.codec store state manifest) ∧
    ∀ state, Attests config.codec store state manifest → state.OneSize →
      ∀ events : List (TransferEvent Bytes),
        let transfer := Machine.exec (Transfer.step config) (Transfer.start store manifest) events
        transfer.bytes <+: state.canonical config.codec ∧
        (transfer.status = .done → transfer.bytes = state.canonical config.codec ∧
          transfer.bytes.length = manifest.bytes ∧
          hexEncode (config.codec.sha256 transfer.bytes) = manifest.digest) ∧
        (state.entries.length < events.countP (·.isRequest) → transfer.status ≠ .running) ∧
        transfer.status ≠ .unreadableCursor ∧
        ∀ error, transfer.status = .refused error → Outlived manifest.generation error := by
  intro store
  refine ⟨PrimaryHistory.attested config calls manifest published, ?_⟩
  intro state attests one events transfer
  have stands : (CheckpointTables.ofState state manifest).manifest.map (·.generation) =
      some manifest.generation := rfl
  have initial : (Transfer.start store manifest).Delivering config
      (CheckpointTables.ofState state manifest) manifest.generation state.entries 0 := by
    refine ⟨.inl attests.published, nil_prefix, .start, [], rfl, ?_, rfl, Nat.le_refl _⟩
    rw [CheckpointTables.remaining_start one]
    rfl
  have delivering := initial.exec stands room events
  have standing := delivering.standing
  unfold Transfer.Standing at standing
  rw [state.canonical_eq_writeAll config.codec]
  refine ⟨delivering.begins, ?_, ?_, ?_, ?_⟩
  · intro done
    rw [done] at standing
    have all : transfer.bytes = state.canonical config.codec :=
      standing.trans (state.canonical_eq_writeAll config.codec).symm
    rw [all]
    exact ⟨state.canonical_eq_writeAll config.codec, attests.bytes.symm, attests.digest.symm⟩
  · intro many running
    rw [running] at standing
    obtain ⟨cursor, taken, -, split, -, enough⟩ := standing
    rw [split, length_append] at many
    omega
  · intro unreadable
    rw [unreadable] at standing
    exact standing
  · intro error refused
    rw [refused] at standing
    exact standing

/-! ## Runs -/

namespace PlainVec

/-- The manifest a publication of `state` leaves. -/
def manifestOf (state : CheckpointState (List UInt8)) (version serial generation : Nat) :
    CheckpointManifest :=
  { state.manifest codec ⟨"primary-a", version, 1⟩ serial with generation }

def released : CheckpointState (List UInt8) where
  rows := Std.ExtTreeMap.ofList [("pypi/demo", [49])] compare

theorem attests_released :
    Attests codec (PrimaryHistory.after config checkpointed).store released
      (manifestOf released 1 1 1) where
  published := by
    refine CheckpointTables.ext (toList_inj.mp ?_) (toList_inj.mp ?_) (toList_inj.mp ?_) ?_
    all_goals decide +kernel
  bytes := rfl
  digest := rfl

end PlainVec

/-- One row, a byte at a time, while another publication is turned away by the
lease. -/
theorem transfer_delivers_the_manifest_leased :
    (Machine.exec (Transfer.step PlainVec.config)
      (Transfer.start (PrimaryHistory.after PlainVec.config PlainVec.checkpointed).store
        (PlainVec.manifestOf PlainVec.released 1 1 1))
      [.request 0 [PlainVec.publishAs 2 10] 1, .call (.prune 5), .request 1 [] 1]).bytes =
        PlainVec.released.canonical PlainVec.codec := by
  have one : PlainVec.released.OneSize := by
    intro a ha
    simp [PlainVec.released] at ha
  obtain ⟨-, done, -⟩ := (transfer_delivers_the_manifest PlainVec.config PlainVec.checkpointed
    (PlainVec.manifestOf PlainVec.released 1 1 1) (by decide +kernel) (by decide)).2
      PlainVec.released PlainVec.attests_released one
      [.request 0 [PlainVec.publishAs 2 10] 1, .call (.prune 5), .request 1 [] 1]
  exact (done (by decide +kernel)).1

namespace PlainVec

/-- A primary that has published `generation` times and holds nothing. -/
def idle (version generation : Nat) : MetaStore (List UInt8) where
  published := .ofState {} (manifestOf {} version 0 generation)
  retainedFloor := some 1

theorem run_publishAs {version version' : Nat} (other : version ≠ version') (generation : Nat)
    (now : Int64) : (idle version generation).run config (publishAs version' now) =
      idle version' (generation.u64SaturatingAdd 1) := by
  have standing : (idle version generation).standingManifest ⟨"primary-a", version', 1⟩ = none := by
    refine Option.filter_eq_none_iff.mpr ?_
    rintro manifest ⟨⟩
    simp [manifestOf, CheckpointState.manifest, other]
  show (idle version generation).settled (MetaStore.publishCheckpointWithSizes codec json _
    ⟨"primary-a", version', 1⟩ ∅ (fun _ => .ok ∅) now) = _
  unfold MetaStore.publishCheckpointWithSizes
  rw [standing]
  rfl

theorem run_publishes {count : Nat} (room : count + 1 ≤ Nat.u64Max) :
    ((List.range (count + 1)).map (publishAs · 0)).foldl (·.run config) {} =
      idle count (count + 1) := by
  induction count with
  | zero => rfl
  | succ count ih =>
    have next : (count + 1).u64SaturatingAdd 1 = count + 1 + 1 := Nat.min_eq_left room
    rw [range_succ, map_append, foldl_append, ih (Nat.le_of_succ_le room)]
    show (idle count (count + 1)).run config (publishAs (count + 1) 0) = _
    rw [run_publishAs (Nat.ne_of_lt (Nat.lt_succ_self count)), next]

/-- One publication before the last. -/
def lastVersion : Nat := 2 ^ 64 - 2

def twoRows (value : UInt8) : CheckpointState (List UInt8) where
  rows := Std.ExtTreeMap.ofList [("a", [value]), ("b", [value])] compare

def putTwoRows (value : UInt8) (now : Int64) : List (PrimaryCall (List UInt8)) :=
  [putRow "a" [value], putRow "b" [value], publishAs value.toNat now]

end PlainVec

theorem PrimaryHistory.store_after (config : PrimaryConfig Bytes)
    (calls : List (PrimaryCall Bytes)) :
    (after config calls).store = calls.foldl (·.run config) {} := by
  have from' : ∀ history : PrimaryHistory Bytes,
      (Machine.exec (step config) history calls).store =
        calls.foldl (·.run config) history.store := by
    induction calls with
    | nil => exact fun _ => rfl
    | cons call calls ih => exact fun history => ih (step config history call).1
  exact from' {}

/-- A primary that has used up its generations publishes the last one again: a
receiver is given the row `a` of one checkpoint and the row `b` of the next. -/
theorem last_generation_mixes_two_checkpoints :
    ∃ calls manifest state events,
      Attests PlainVec.codec (PrimaryHistory.after PlainVec.config calls).store state manifest ∧
      state.OneSize ∧ manifest.generation = Nat.u64Max ∧
      (Machine.exec (Transfer.step PlainVec.config) (Transfer.start
        (PrimaryHistory.after PlainVec.config calls).store manifest) events).status = .done ∧
      (Machine.exec (Transfer.step PlainVec.config) (Transfer.start
        (PrimaryHistory.after PlainVec.config calls).store manifest) events).bytes ≠
          state.canonical PlainVec.codec := by
  have used : PlainVec.lastVersion + 1 ≤ Nat.u64Max := by decide
  have store : (PrimaryHistory.after PlainVec.config
      ((List.range (PlainVec.lastVersion + 1)).map (PlainVec.publishAs · 0) ++
        PlainVec.putTwoRows 1 0)).store =
      (PlainVec.putTwoRows 1 0).foldl (·.run PlainVec.config)
        (PlainVec.idle PlainVec.lastVersion (PlainVec.lastVersion + 1)) := by
    rw [PrimaryHistory.store_after, foldl_append, PlainVec.run_publishes used]
  refine ⟨(List.range (PlainVec.lastVersion + 1)).map (PlainVec.publishAs · 0) ++
      PlainVec.putTwoRows 1 0,
    PlainVec.manifestOf (PlainVec.twoRows 1) 1 2 Nat.u64Max, PlainVec.twoRows 1,
    .request 0 [] 1 :: (PlainVec.putTwoRows 2 100).map .call ++
      [.request 100 [] 1, .request 100 [] 1], ?_⟩
  rw [store]
  refine ⟨⟨?_, rfl, rfl⟩, ?_, rfl, ?_, ?_⟩
  · refine CheckpointTables.ext (toList_inj.mp ?_) (toList_inj.mp ?_) (toList_inj.mp ?_) ?_
    all_goals decide +kernel
  · intro a ha
    simp [PlainVec.twoRows] at ha
  · decide +kernel
  · decide +kernel

end Peryx
