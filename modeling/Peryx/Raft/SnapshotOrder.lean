import Peryx.Raft.SnapshotStore

/-!
# Snapshots are published in order

Whatever the interleaving of builds, installs, commits, publications, applied
entries and restarts, the stored and the current snapshot only ever give way to
one of a higher rank.
-/

namespace Peryx

open Option

/-! ## Positions and names -/

/-- A log position in log order, nothing applied being the least. -/
def position (lastLogId : Option LogId) : WithBot LogId := lastLogId

variable {Bytes : Type} {a b : SnapshotRank} {node : SnapshotNode Bytes}

theorem SnapshotRank.lt_iff :
    a < b ↔ position a.lastLogId < position b.lastLogId ∨
      a.lastLogId = b.lastLogId ∧ a.publication < b.publication :=
  Prod.Lex.lt_iff

theorem SnapshotRank.le_iff :
    a ≤ b ↔ position a.lastLogId < position b.lastLogId ∨
      a.lastLogId = b.lastLogId ∧ a.publication ≤ b.publication :=
  Prod.Lex.le_iff

theorem SnapshotRank.position_lt (h : a ≤ b) (later : b.publication < a.publication) :
    position a.lastLogId < position b.lastLogId := by
  rcases SnapshotRank.le_iff.mp h with lt | ⟨-, le⟩
  · exact lt
  · omega

section LogOrder

variable {Log : LogId → Prop} (ordered : ∀ a b, Log a → Log b → a < b → a.index < b.index)
  {a b : Option LogId}

include ordered

theorem lastIndex_le (ha : ∀ id, a = some id → Log id) (hb : ∀ id, b = some id → Log id)
    (h : position a ≤ position b) : lastIndex a ≤ lastIndex b := by
  cases a with
  | none => exact Nat.zero_le _
  | some x =>
    cases b with
    | none => exact absurd h (WithBot.not_coe_le_bot x)
    | some y =>
      rcases (WithBot.coe_le_coe.mp h).eq_or_lt with rfl | lt
      · exact le_rfl
      · exact (ordered x y (ha x rfl) (hb y rfl) lt).le

theorem lastIndex_lt (ha : ∀ id, a = some id → Log id) (hb : ∀ id, b = some id → Log id)
    (h : position a < position b) (zero : a = none → lastIndex b ≠ 0) :
    lastIndex a < lastIndex b := by
  cases a with
  | none => exact Nat.pos_of_ne_zero (zero rfl)
  | some x =>
    cases b with
    | none => exact absurd h (WithBot.not_lt_bot _)
    | some y => exact ordered x y (ha x rfl) (hb y rfl) (WithBot.coe_lt_coe.mp h)

end LogOrder

/-! ## What one event can do -/

inductive SnapshotStep {Bytes : Type} (codec : Codec OwnershipState Bytes)
    (node : SnapshotNode Bytes) :
    SnapshotEvent Bytes → SnapshotNode Bytes → Option SnapshotMeta → Prop
  | idle (event : SnapshotEvent Bytes) : SnapshotStep codec node event node none
  | applied (entry : Entry) :
      SnapshotStep codec node (.apply entry)
        { node with inner := (node.inner.apply entry).1 } none
  | built : SnapshotStep codec node .build (node.build codec) none
  | asked (snapshot : StoredSnapshot Bytes) :
      SnapshotStep codec node (.install snapshot) (node.install snapshot) none
  | failed (p : Nat) (written : Bool) (call : SnapshotCall Bytes)
      (inFlight : node.calls[p]? = some call) (uncommitted : call.stage.committed = false) :
      SnapshotStep codec node (.commit p written) (node.endCall p) none
  | superseded (p : Nat) (written : Bool) (call : SnapshotCall Bytes) (stage : CallStage)
      (inFlight : node.calls[p]? = some call) (uncommitted : call.stage.committed = false)
      (committed : stage.committed = true) (kind : stage.ofBuild = call.stage.ofBuild)
      (high : SnapshotRank) (durable : node.durable = some high) (behind : call.rank ≤ high) :
      SnapshotStep codec node (.commit p written) (node.putCall { call with stage }) none
  | stored (p : Nat) (written : Bool) (call : SnapshotCall Bytes) (stage : CallStage)
      (inFlight : node.calls[p]? = some call) (uncommitted : call.stage.committed = false)
      (committed : stage.committed = true) (kind : stage.ofBuild = call.stage.ofBuild)
      (ahead : ∀ high, node.durable = some high → high < call.rank) :
      SnapshotStep codec node (.commit p written)
        { node.putCall { call with stage } with
          durable := some call.rank
          store := { snapshot := some call.snapshot, generation := call.generation } } none
  | handed (p : Nat) (call : SnapshotCall Bytes) (inFlight : node.calls[p]? = some call)
      (ready : call.stage = .built) :
      SnapshotStep codec node (.publish p)
        { node.endCall p with inner := node.inner.publish call.rank call.snapshot }
        (some call.snapshot.snapshotMeta)
  | adopted (p : Nat) (call : SnapshotCall Bytes) (state : OwnershipState)
      (inFlight : node.calls[p]? = some call) (ready : call.stage = .restored state) :
      SnapshotStep codec node (.publish p)
        { node.endCall p with
          inner := (node.inner.adopt state call.snapshot.snapshotMeta).publish call.rank
            call.snapshot } none
  | restarted (inner : Inner Bytes) (loaded : Inner.load codec node.store = .ok inner) :
      SnapshotStep codec node .restart { inner, store := node.store } none

section Inversion

variable {codec : Codec OwnershipState Bytes}

variable {call : SnapshotCall Bytes}

theorem commitCall_step {p : Nat} {written : Bool}
    {stage : CallStage} (inFlight : node.calls[p]? = some call)
    (uncommitted : call.stage.committed = false) (committed : stage.committed = true)
    (kind : stage.ofBuild = call.stage.ofBuild) :
    SnapshotStep codec node (.commit p written) (node.commitCall call stage) none := by
  unfold SnapshotNode.commitCall
  split
  case isTrue behind =>
    rw [any_eq_true] at behind
    obtain ⟨high, durable, behind⟩ := behind
    exact .superseded p written call stage inFlight uncommitted committed kind high durable
      (of_decide_eq_true behind)
  case isFalse ahead =>
    refine .stored p written call stage inFlight uncommitted committed kind
      fun high durable => lt_of_not_ge fun behind => ahead ?_
    rw [durable]
    exact decide_eq_true behind

theorem step_snapshotStep (event : SnapshotEvent Bytes) :
    SnapshotStep codec node event (node.step codec event).1 (node.step codec event).2 := by
  cases event with
  | apply entry => exact .applied entry
  | build => exact .built
  | install snapshot => exact .asked snapshot
  | commit p written =>
    show SnapshotStep codec node _ (node.commit codec p written) none
    unfold SnapshotNode.commit
    split
    · exact .idle _
    case h_2 call inFlight =>
      split
      case h_1 building =>
        have uncommitted : call.stage.committed = false := by rw [building]; rfl
        split
        · exact commitCall_step inFlight uncommitted rfl (by rw [building]; rfl)
        · exact .failed p written call inFlight uncommitted
      case h_2 installing =>
        have uncommitted : call.stage.committed = false := by rw [installing]; rfl
        split
        · split
          · exact commitCall_step inFlight uncommitted rfl (by rw [installing]; rfl)
          · exact .failed p written call inFlight uncommitted
        · exact .failed p written call inFlight uncommitted
      · exact .idle _
      · exact .idle _
  | publish p =>
    show SnapshotStep codec node _ (node.publish p).1 (node.publish p).2
    unfold SnapshotNode.publish
    split
    · exact .idle _
    case h_2 call inFlight =>
      split
      · exact .idle _
      · exact .idle _
      case h_3 ready => exact .handed p call inFlight ready
      case h_4 state ready => exact .adopted p call state inFlight ready
  | restart =>
    show SnapshotStep codec node _ (node.restart codec) none
    unfold SnapshotNode.restart
    split
    case h_1 inner loaded => exact .restarted inner loaded
    · exact .idle _

theorem of_mem_putCall {put : SnapshotCall Bytes} {p : Nat}
    (h : (node.putCall put).calls[p]? = some call) :
    p = put.rank.publication ∧ call = put ∨ node.calls[p]? = some call := by
  rw [SnapshotNode.putCall, BTreeMap.get_insert] at h
  split at h
  case isTrue eq =>
    cases h
    exact .inl ⟨eq.symm, rfl⟩
  · exact .inr h

theorem of_mem_endCall {p q : Nat} (h : (node.endCall q).calls[p]? = some call) :
    p ≠ q ∧ node.calls[p]? = some call := by
  rw [SnapshotNode.endCall, BTreeMap.get_erase] at h
  split at h
  · cases h
  case isFalse ne => exact ⟨Ne.symm ne, h⟩

variable (inner : Inner Bytes)

theorem apply_frame (entry : Entry) :
    (inner.apply entry).1.lastApplied = some entry.logId ∧
      (inner.apply entry).1.publications = inner.publications ∧
      (inner.apply entry).1.snapshotGeneration = inner.snapshotGeneration ∧
      (inner.apply entry).1.published = inner.published ∧
      (inner.apply entry).1.currentSnapshot = inner.currentSnapshot := by
  obtain ⟨logId, payload⟩ := entry
  cases payload <;> exact ⟨rfl, rfl, rfl, rfl, rfl⟩

theorem publish_cases (rank : SnapshotRank) (snapshot : StoredSnapshot Bytes) :
    inner.publish rank snapshot = inner ∨
      (∀ r, inner.published = some r → r < rank) ∧
        inner.publish rank snapshot =
          { inner with published := some rank, currentSnapshot := some snapshot } := by
  unfold Inner.publish
  split
  · exact .inl rfl
  case isFalse ahead =>
    refine .inr ⟨fun r published => lt_of_not_ge fun behind => ahead ?_, rfl⟩
    rw [published]
    exact decide_eq_true behind

@[simp] theorem publish_lastApplied (rank : SnapshotRank) (snapshot : StoredSnapshot Bytes) :
    (inner.publish rank snapshot).lastApplied = inner.lastApplied := by
  rcases publish_cases inner rank snapshot with same | ⟨-, same⟩ <;> rw [same]

@[simp] theorem publish_snapshotGeneration (rank : SnapshotRank) (snapshot : StoredSnapshot Bytes) :
    (inner.publish rank snapshot).snapshotGeneration = inner.snapshotGeneration := by
  rcases publish_cases inner rank snapshot with same | ⟨-, same⟩ <;> rw [same]

theorem load_cases {store : SnapshotStore Bytes} {inner : Inner Bytes}
    (loaded : Inner.load codec store = .ok inner) :
    inner.snapshotGeneration = store.generation ∧ inner.publications = 0 ∧
      inner.lastApplied = (store.snapshot.bind (·.snapshotMeta.lastLogId)) ∧
      inner.published = (store.snapshot.map fun stored =>
        ⟨stored.snapshotMeta.lastLogId, 0⟩) ∧
      inner.currentSnapshot = store.snapshot := by
  unfold Inner.load at loaded
  split at loaded
  case h_1 empty =>
    cases loaded
    rw [empty]
    exact ⟨rfl, rfl, rfl, rfl, rfl⟩
  case h_2 stored kept =>
    rw [kept]
    cases restored : Inner.restoreSnapshot codec stored with
    | error e =>
      rw [restored] at loaded
      cases loaded
    | ok state =>
      rw [restored] at loaded
      cases loaded
      exact ⟨rfl, rfl, rfl, rfl, rfl⟩

end Inversion

/-! ## Ranks only rise -/

/-- What `snapshot_publication_order` takes from the raft library: entries are
applied in log order, and an installed snapshot is never older than the applied
position, neither when it takes its rank nor when it replaces the state. -/
def InLogOrder {Bytes : Type} (Log : LogId → Prop) (node : SnapshotNode Bytes) :
    SnapshotEvent Bytes → Prop
  | .apply entry =>
    Log entry.logId ∧ position node.inner.lastApplied < position (some entry.logId)
  | .install snapshot =>
    (∀ id, snapshot.snapshotMeta.lastLogId = some id → Log id) ∧
      position node.inner.lastApplied ≤ position snapshot.snapshotMeta.lastLogId
  | .publish p =>
    ∀ call state, node.calls[p]? = some call → call.stage = .restored state →
      position node.inner.lastApplied ≤ position call.rank.lastLogId
  | _ => True

/-- The ranks of a node: calls are numbered, the stored rank is that of the
stored snapshot, and nothing is committed or published above it. -/
structure Ranked {Bytes : Type} (node : SnapshotNode Bytes) : Prop where
  numbered : ∀ (p : Nat) (call : SnapshotCall Bytes), node.calls[p]? = some call →
    call.rank.publication = p ∧ 0 < p ∧ p ≤ node.inner.publications
  placed : ∀ (p : Nat) (call : SnapshotCall Bytes), node.calls[p]? = some call →
    call.snapshot.snapshotMeta.lastLogId = call.rank.lastLogId
  storedAt : node.storedRank.map (·.lastLogId) = node.store.snapshot.map (·.snapshotMeta.lastLogId)
  storedNumber : ∀ r, node.storedRank = some r → r.publication ≤ node.inner.publications
  base : node.durable = none → ∀ r, node.storedRank = some r →
    r.publication = 0 ∧ position r.lastLogId ≤ position node.inner.lastApplied ∧
      ∀ (p : Nat) (call : SnapshotCall Bytes), node.calls[p]? = some call →
        position r.lastLogId ≤ position call.rank.lastLogId
  behind : ∀ (p : Nat) (call : SnapshotCall Bytes), node.calls[p]? = some call →
    call.stage.committed = true → ∃ r, node.storedRank = some r ∧ call.rank ≤ r
  publishedAt : node.inner.published.map (·.lastLogId) =
    node.inner.currentSnapshot.map (·.snapshotMeta.lastLogId)
  published : ∀ r, node.inner.published = some r → ∃ s, node.storedRank = some s ∧ r ≤ s

namespace Ranked

variable {codec : Codec OwnershipState Bytes}

theorem empty : Ranked ({} : SnapshotNode Bytes) where
  numbered p call h := by simp at h
  placed p call h := by simp at h
  storedAt := rfl
  storedNumber r h := by cases h
  base _ r h := by cases h
  behind p call h := by simp at h
  publishedAt := rfl
  published r h := by cases h

theorem storedSnapshot (h : Ranked node) {r : SnapshotRank} (kept : node.storedRank = some r) :
    ∃ snapshot, node.store.snapshot = some snapshot ∧
      snapshot.snapshotMeta.lastLogId = r.lastLogId := by
  have place := h.storedAt
  rw [kept] at place
  exact map_eq_some_iff.mp place.symm

theorem storedRank (h : Ranked node) {snapshot : StoredSnapshot Bytes}
    (stored : node.store.snapshot = some snapshot) :
    ∃ r, node.storedRank = some r ∧ r.lastLogId = snapshot.snapshotMeta.lastLogId := by
  have place := h.storedAt
  rw [stored] at place
  exact map_eq_some_iff.mp place

variable {call : SnapshotCall Bytes} {inner : Inner Bytes}

section

variable (h : Ranked node)

include h

variable {p : Nat}

theorem ahead (inFlight : node.calls[p]? = some call)
    (above : ∀ high, node.durable = some high → high < call.rank) :
    ∀ r, node.storedRank = some r → r < call.rank := by
  intro r stored
  cases durable : node.durable with
  | some high =>
    have same : node.storedRank = some high := by
      rw [SnapshotNode.storedRank, durable]
      rfl
    rw [same] at stored
    cases stored
    exact above r durable
  | none =>
    -- the first write of a process: the loaded snapshot has publication zero
    obtain ⟨zero, -, below⟩ := h.base durable r stored
    obtain ⟨number, positive, -⟩ := h.numbered p call inFlight
    rw [SnapshotRank.lt_iff]
    rcases (below p call inFlight).lt_or_eq with lt | eq
    · exact .inl lt
    · exact .inr ⟨eq, by omega⟩

theorem putNew (publications : inner.publications = node.inner.publications + 1)
    (lastApplied : inner.lastApplied = node.inner.lastApplied)
    (published : inner.published = node.inner.published)
    (current : inner.currentSnapshot = node.inner.currentSnapshot)
    (number : call.rank.publication = node.inner.publications + 1)
    (placed : call.snapshot.snapshotMeta.lastLogId = call.rank.lastLogId)
    (uncommitted : call.stage.committed = false)
    (past : position node.inner.lastApplied ≤ position call.rank.lastLogId) :
    Ranked ({ node with inner }.putCall call) where
  numbered p c hc := by
    rcases of_mem_putCall hc with ⟨rfl, rfl⟩ | old
    · exact ⟨rfl, by omega, by show _ ≤ inner.publications; omega⟩
    · obtain ⟨rfl, pos, le⟩ := h.numbered p c old
      exact ⟨rfl, pos, by show _ ≤ inner.publications; omega⟩
  placed p c hc := by
    rcases of_mem_putCall hc with ⟨rfl, rfl⟩ | old
    · exact placed
    · exact h.placed p c old
  storedAt := h.storedAt
  storedNumber r stored := by
    have := h.storedNumber r stored
    show _ ≤ inner.publications
    omega
  base durable r stored := by
    obtain ⟨zero, applied, below⟩ := h.base durable r stored
    refine ⟨zero, by show _ ≤ position inner.lastApplied; rw [lastApplied]; exact applied, ?_⟩
    intro p c hc
    rcases of_mem_putCall hc with ⟨rfl, rfl⟩ | old
    · exact applied.trans past
    · exact below p c old
  behind p c hc committed := by
    rcases of_mem_putCall hc with ⟨rfl, rfl⟩ | old
    · rw [uncommitted] at committed
      cases committed
    · exact h.behind p c old committed
  publishedAt := by
    show inner.published.map _ = inner.currentSnapshot.map _
    rw [published, current]
    exact h.publishedAt
  published r hr := h.published r (published ▸ hr)

theorem endCall (p : Nat) : Ranked (node.endCall p) where
  numbered q c hc := h.numbered q c (of_mem_endCall hc).2
  placed q c hc := h.placed q c (of_mem_endCall hc).2
  storedAt := h.storedAt
  storedNumber := h.storedNumber
  base durable r stored := by
    obtain ⟨zero, applied, below⟩ := h.base durable r stored
    exact ⟨zero, applied, fun q c hc => below q c (of_mem_endCall hc).2⟩
  behind q c hc := h.behind q c (of_mem_endCall hc).2
  publishedAt := h.publishedAt
  published := h.published

theorem publish {rank stored : SnapshotRank}
    {snapshot : StoredSnapshot Bytes} (placed : snapshot.snapshotMeta.lastLogId = rank.lastLogId)
    (below : node.storedRank = some stored) (le : rank ≤ stored) :
    Ranked { node with inner := node.inner.publish rank snapshot } := by
  rcases publish_cases node.inner rank snapshot with same | ⟨-, moved⟩
  · rw [same]
    exact h
  · rw [moved]
    refine ⟨h.numbered, h.placed, h.storedAt, h.storedNumber, h.base, h.behind, ?_, ?_⟩
    · exact congrArg some placed.symm
    · rintro r hr
      cases hr
      exact ⟨stored, below, le⟩

theorem advance (publications : inner.publications = node.inner.publications)
    (published : inner.published = node.inner.published)
    (current : inner.currentSnapshot = node.inner.currentSnapshot)
    (forward : position node.inner.lastApplied ≤ position inner.lastApplied) :
    Ranked { node with inner } where
  numbered p c hc := by
    show _ ∧ _ ∧ p ≤ inner.publications
    rw [publications]
    exact h.numbered p c hc
  placed := h.placed
  storedAt := h.storedAt
  storedNumber r stored := by
    show _ ≤ inner.publications
    rw [publications]
    exact h.storedNumber r stored
  base durable r stored := by
    obtain ⟨zero, applied, below⟩ := h.base durable r stored
    exact ⟨zero, applied.trans forward, below⟩
  behind := h.behind
  publishedAt := by
    show inner.published.map _ = inner.currentSnapshot.map _
    rw [published, current]
    exact h.publishedAt
  published r hr := h.published r (published ▸ hr)

theorem supersede (stage : CallStage) (inFlight : node.calls[p]? = some call) {high : SnapshotRank}
    (durable : node.durable = some high) (le : call.rank ≤ high) :
    Ranked (node.putCall { call with stage }) := by
  obtain ⟨number, positive, bound⟩ := h.numbered p call inFlight
  refine ⟨?_, ?_, h.storedAt, h.storedNumber, ?_, ?_, h.publishedAt, h.published⟩
  · intro q c hc
    rcases of_mem_putCall hc with ⟨rfl, rfl⟩ | old
    · exact ⟨rfl, number ▸ positive, number ▸ bound⟩
    · exact h.numbered q c old
  · intro q c hc
    rcases of_mem_putCall hc with ⟨rfl, rfl⟩ | old
    · exact h.placed p call inFlight
    · exact h.placed q c old
  · intro none
    rw [show node.durable = _ from none] at durable
    cases durable
  · intro q c hc committed
    rcases of_mem_putCall hc with ⟨rfl, rfl⟩ | old
    · refine ⟨high, ?_, le⟩
      show node.storedRank = some high
      rw [SnapshotNode.storedRank, durable]
      rfl
    · exact h.behind q c old committed

theorem write (stage : CallStage) (inFlight : node.calls[p]? = some call)
    (above : ∀ r, node.storedRank = some r → r < call.rank) :
    Ranked { node.putCall { call with stage } with
      durable := some call.rank
      store := { snapshot := some call.snapshot, generation := call.generation } } := by
  obtain ⟨number, positive, bound⟩ := h.numbered p call inFlight
  refine ⟨?_, ?_, ?_, ?_, nofun, ?_, h.publishedAt, ?_⟩
  · intro q c hc
    rcases of_mem_putCall hc with ⟨rfl, rfl⟩ | old
    · exact ⟨rfl, number ▸ positive, number ▸ bound⟩
    · exact h.numbered q c old
  · intro q c hc
    rcases of_mem_putCall hc with ⟨rfl, rfl⟩ | old
    · exact h.placed p call inFlight
    · exact h.placed q c old
  · exact congrArg some (h.placed p call inFlight).symm
  · rintro r stored
    cases stored
    rw [number]
    exact bound
  · intro q c hc committed
    rcases of_mem_putCall hc with ⟨rfl, rfl⟩ | old
    · exact ⟨call.rank, rfl, le_rfl⟩
    · obtain ⟨r, stored, le⟩ := h.behind q c old committed
      exact ⟨call.rank, rfl, le.trans (above r stored).le⟩
  · intro r hr
    obtain ⟨s, stored, le⟩ := h.published r hr
    exact ⟨call.rank, rfl, le.trans (above s stored).le⟩

end

theorem restart {store : SnapshotStore Bytes} (loaded : Inner.load codec store = .ok inner) :
    Ranked ({ inner, store } : SnapshotNode Bytes) := by
  obtain ⟨-, -, lastApplied, published, current⟩ := load_cases loaded
  have stored : ({ inner, store } : SnapshotNode Bytes).storedRank =
      store.snapshot.map fun stored => ⟨stored.snapshotMeta.lastLogId, 0⟩ := rfl
  refine ⟨fun p c hc => by simp at hc, fun p c hc => by simp at hc, ?_, ?_, ?_,
    fun p c hc => by simp at hc, ?_, ?_⟩
  · rw [stored, map_map]
    rfl
  · intro r hr
    rw [stored, map_eq_some_iff] at hr
    obtain ⟨_, _, rfl⟩ := hr
    exact Nat.zero_le _
  · intro _ r hr
    rw [stored, map_eq_some_iff] at hr
    obtain ⟨snapshot, kept, rfl⟩ := hr
    refine ⟨rfl, ?_, fun p c hc => by simp at hc⟩
    show position _ ≤ position inner.lastApplied
    rw [lastApplied, kept]
    exact le_rfl
  · show inner.published.map _ = inner.currentSnapshot.map _
    rw [published, current, map_map]
    rfl
  · intro r hr
    exact ⟨r, stored.trans (published.symm.trans hr), le_rfl⟩

/-- **Step.** Every event in log order keeps a node's ranks in order. -/
theorem step (h : Ranked node) {Log : LogId → Prop} {event : SnapshotEvent Bytes}
    {node' : SnapshotNode Bytes} {answer : Option SnapshotMeta}
    (inOrder : InLogOrder Log node event)
    (step : SnapshotStep codec node event node' answer) : Ranked node' := by
  cases step with
  | idle => exact h
  | applied entry =>
    obtain ⟨lastApplied, publications, -, published, current⟩ := apply_frame node.inner entry
    refine h.advance publications published current ?_
    rw [lastApplied]
    exact inOrder.2.le
  | built => exact h.putNew rfl rfl rfl rfl rfl rfl rfl le_rfl
  | asked snapshot => exact h.putNew rfl rfl rfl rfl rfl rfl rfl inOrder.2
  | failed p => exact h.endCall p
  | superseded p written call stage inFlight _ _ _ high durable behind =>
    exact h.supersede stage inFlight durable behind
  | stored p written call stage inFlight _ _ _ ahead =>
    exact h.write stage inFlight (h.ahead inFlight ahead)
  | handed p call inFlight ready =>
    obtain ⟨r, stored, le⟩ := h.behind p call inFlight (by rw [ready]; rfl)
    exact (h.endCall p).publish (h.placed p call inFlight) stored le
  | adopted p call state inFlight ready =>
    obtain ⟨r, stored, le⟩ := h.behind p call inFlight (by rw [ready]; rfl)
    have placed := h.placed p call inFlight
    have adopted : Ranked { node.endCall p with
        inner := node.inner.adopt state call.snapshot.snapshotMeta } := by
      refine (h.endCall p).advance rfl rfl rfl ?_
      show _ ≤ position call.snapshot.snapshotMeta.lastLogId
      rw [placed]
      exact inOrder call state inFlight ready
    exact adopted.publish placed stored le
  | restarted inner loaded => exact restart loaded

end Ranked

/-- A step replaces snapshots only by higher-ranked ones: in the store, in
memory within one process, and in memory by what a new process loads. -/
structure RanksRise {Bytes : Type} (event : SnapshotEvent Bytes)
    (node node' : SnapshotNode Bytes) : Prop where
  stored : node'.store.snapshot ≠ node.store.snapshot →
    ∃ new, node'.storedRank = some new ∧ ∀ old, node.storedRank = some old → old < new
  current : event ≠ .restart → node'.inner.currentSnapshot ≠ node.inner.currentSnapshot →
    ∃ new, node'.inner.published = some new ∧
      ∀ old, node.inner.published = some old → old < new
  reloaded : event = .restart → node'.inner.currentSnapshot ≠ node.inner.currentSnapshot →
    node'.inner.currentSnapshot = node.store.snapshot ∧
      ∀ old, node.inner.published = some old →
        ∃ new, node.storedRank = some new ∧ old ≤ new

variable {event : SnapshotEvent Bytes}

theorem RanksRise.of_publish
    {node' : SnapshotNode Bytes} {inner : Inner Bytes} {rank : SnapshotRank}
    {snapshot : StoredSnapshot Bytes} (running : event ≠ .restart)
    (store : node'.store = node.store) (published : inner.published = node.inner.published)
    (current : inner.currentSnapshot = node.inner.currentSnapshot)
    (after : node'.inner = inner.publish rank snapshot) : RanksRise event node node' where
  stored h := absurd (by rw [store]) h
  reloaded h := absurd h running
  current _ changed := by
    rw [after] at changed ⊢
    rcases publish_cases inner rank snapshot with same | ⟨above, moved⟩
    · rw [same, current] at changed
      exact absurd rfl changed
    · rw [moved]
      exact ⟨rank, rfl, fun old hold => above old (published.trans hold)⟩

theorem RanksRise.of_same
    {node' : SnapshotNode Bytes} (store : node'.store = node.store)
    (current : node'.inner.currentSnapshot = node.inner.currentSnapshot) :
    RanksRise event node node' where
  stored h := absurd (by rw [store]) h
  current _ h := absurd current h
  reloaded _ h := absurd current h

theorem Ranked.rise {codec : Codec OwnershipState Bytes}
    {node' : SnapshotNode Bytes}
    {answer : Option SnapshotMeta} (h : Ranked node)
    (step : SnapshotStep codec node event node' answer) : RanksRise event node node' := by
  cases step with
  | idle | built | asked | failed | superseded => exact .of_same rfl rfl
  | applied entry => exact .of_same rfl (apply_frame node.inner entry).2.2.2.2
  | stored p written call stage inFlight _ _ _ ahead =>
    exact ⟨fun _ => ⟨call.rank, rfl, h.ahead inFlight ahead⟩, fun _ changed => absurd rfl changed,
      nofun⟩
  | handed p call => exact .of_publish nofun rfl rfl rfl rfl
  | adopted p call state =>
    exact .of_publish nofun rfl
      (show (node.inner.adopt state call.snapshot.snapshotMeta).published = _ from rfl) rfl rfl
  | restarted inner loaded =>
    obtain ⟨-, -, -, -, current⟩ := load_cases loaded
    exact ⟨fun changed => absurd rfl changed, fun running => absurd rfl running,
      fun _ _ => ⟨current, h.published⟩⟩

end Peryx
