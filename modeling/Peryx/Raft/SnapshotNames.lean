import Peryx.Raft.SnapshotOrder

/-!
# No two builds share a name

A build is named after its log index and its generation. A snapshot is stored
with the generation its call read when it took its rank, and the build with the
higher generation may be the one that is not stored. A name still never comes
back: whatever snapshot a process can load is at least as far in generation or
strictly further in the log.

The exception is an empty machine, whose index is read as zero: an install at
index zero that took its rank before an empty build saves an older generation,
and the next process repeats the name (`empty_build_renamed_after_restart`).

- `ranked_after`, `named_after`: ranks and names over a run.
- `snapshot_publication_order`: both, for the stored and the current snapshot.
-/

namespace Peryx

open Machine BTreeMap List Nat

/-! ## Names -/

theorem dash_notMem_toDigits (n : Nat) : '-' ∉ Nat.toDigits 10 n := by
  intro h
  have digit := isDigit_of_mem_toDigits (by decide) (by decide) h
  exact absurd digit (by decide)

theorem snapshotName_inj {l l' : Option LogId} {g g' : Nat}
    (h : snapshotName l g = snapshotName l' g') : lastIndex l = lastIndex l' ∧ g = g' := by
  have chars := congrArg String.toList h
  simp only [snapshotName, String.toList_append, toString_eq_ofList_toDigits,
    String.toList_ofList, append_assoc] at chars
  obtain ⟨index, -, generation⟩ := (append_cons_inj_of_notMem
    (dash_notMem_toDigits _) (dash_notMem_toDigits _)).mp chars
  have generation : Nat.toDigits 10 g = Nat.toDigits 10 g' := generation
  refine ⟨repr_injective ?_, repr_injective ?_⟩
  · rw [repr_eq_ofList_toDigits, repr_eq_ofList_toDigits, index]
  · rw [repr_eq_ofList_toDigits, repr_eq_ofList_toDigits, generation]

structure BuildName where
  lastLogId : Option LogId
  generation : Nat

def BuildName.id (name : BuildName) : String :=
  snapshotName name.lastLogId name.generation

def SnapshotCall.name {Bytes : Type} (call : SnapshotCall Bytes) : BuildName :=
  ⟨call.rank.lastLogId, call.generation⟩

/-! ## Slots -/

variable {Bytes : Type} {call : SnapshotCall Bytes} {handed : List BuildName} {Log : LogId → Prop}

section Slots

/-- A rank and generation that are in the store, or that an uncommitted call
may still put there. -/
inductive Slot (node : SnapshotNode Bytes) : SnapshotRank → Nat → Prop
  | stored {r : SnapshotRank} (kept : node.storedRank = some r) :
      Slot node r node.store.generation
  | pending {p : Nat} {call : SnapshotCall Bytes} (inFlight : node.calls[p]? = some call)
      (uncommitted : call.stage.committed = false) : Slot node call.rank call.generation

/-- A process that loads this position and generation never repeats the
build's name: its generations are higher, or its indices are. -/
def Covers (lastLogId : Option LogId) (generation : Nat) (name : BuildName) : Prop :=
  name.generation ≤ generation ∨ lastIndex name.lastLogId < lastIndex lastLogId

/-- Every slot at or above `rank` covers the build. -/
def Guards (node : SnapshotNode Bytes) (rank : SnapshotRank) (name : BuildName) : Prop :=
  ∀ r g, Slot node r g → rank ≤ r → Covers r.lastLogId g name

theorem Guards.mono {node node' : SnapshotNode Bytes} {rank rank' : SnapshotRank}
    {name : BuildName} (h : Guards node rank name) (le : rank ≤ rank')
    (slots : ∀ r g, Slot node' r g → Slot node r g) : Guards node' rank' name :=
  fun r g slot above => h r g (slots r g slot) (le.trans above)

theorem Guards.add {node node' : SnapshotNode Bytes} {rank new : SnapshotRank}
    {generation : Nat} {name : BuildName} (h : Guards node rank name)
    (covers : Covers new.lastLogId generation name)
    (slots : ∀ r g, Slot node' r g → Slot node r g ∨ r = new ∧ g = generation) :
    Guards node' rank name := by
  intro r g slot above
  rcases slots r g slot with old | ⟨rfl, rfl⟩
  · exact h r g old above
  · exact covers

variable {node : SnapshotNode Bytes}

variable {r : SnapshotRank} {g : Nat}

theorem slot_putNew {inner : Inner Bytes} (h : Slot ({ node with inner }.putCall call) r g) :
    Slot node r g ∨ r = call.rank ∧ g = call.generation := by
  cases h with
  | stored kept => exact .inl (.stored kept)
  | pending inFlight uncommitted =>
    rcases of_mem_putCall inFlight with ⟨rfl, rfl⟩ | old
    · exact .inr ⟨rfl, rfl⟩
    · exact .inl (.pending old uncommitted)

end Slots

/-! ## The naming invariant -/

/-- Which names are out, and that none comes twice. -/
structure Named {Bytes : Type} (Log : LogId → Prop) (node : SnapshotNode Bytes)
    (handed : List BuildName) : Prop where
  applied : ∀ id, node.inner.lastApplied = some id → Log id
  slots : ∀ r g, Slot node r g →
    (∀ id, r.lastLogId = some id → Log id) ∧ g ≤ node.inner.snapshotGeneration
  builds : ∀ (p : Nat) (call : SnapshotCall Bytes), node.calls[p]? = some call →
    call.stage.ofBuild = true →
    call.generation ≤ node.inner.snapshotGeneration ∧
      position call.rank.lastLogId ≤ position node.inner.lastApplied ∧
      call.snapshot.snapshotMeta.snapshotId = call.name.id
  reached : ∀ r, node.storedRank = some r →
    position r.lastLogId ≤ position node.inner.lastApplied ∨
      ∃ (p : Nat) (call : SnapshotCall Bytes), node.calls[p]? = some call ∧
        call.stage.committed = true ∧ call.stage.ofBuild = false ∧
        call.rank.lastLogId = r.lastLogId
  logged : ∀ (p : Nat) (call : SnapshotCall Bytes), node.calls[p]? = some call →
    ∀ id, call.rank.lastLogId = some id → Log id
  pending : ∀ (p : Nat) (call : SnapshotCall Bytes), node.calls[p]? = some call →
    call.stage = .building → Guards node call.rank call.name
  built : ∀ (p : Nat) (call : SnapshotCall Bytes), node.calls[p]? = some call →
    call.stage = .built → ∃ r, node.storedRank = some r ∧ Guards node r call.name
  covered : ∀ name ∈ handed, ∃ r, node.storedRank = some r ∧ Guards node r name
  fresh : ∀ name ∈ handed,
    Covers node.inner.lastApplied node.inner.snapshotGeneration name
  apart : ∀ (p q : Nat) (call call' : SnapshotCall Bytes), node.calls[p]? = some call →
    node.calls[q]? = some call' → call.stage.ofBuild = true → call'.stage.ofBuild = true →
    p ≠ q → call.generation ≠ call'.generation
  unhanded : ∀ (p : Nat) (call : SnapshotCall Bytes), node.calls[p]? = some call →
    call.stage.ofBuild = true → call.name.id ∉ handed.map BuildName.id
  once : (handed.map BuildName.id).Nodup

/-- A step that settles calls: it opens no slot, lowers no rank, moves calls at
most from their rank to their commit, and hands out the names `new` of built calls
that it ends. -/
structure Settles {Bytes : Type} (Log : LogId → Prop) (node node' : SnapshotNode Bytes)
    (new : List BuildName) : Prop where
  generation : node'.inner.snapshotGeneration = node.inner.snapshotGeneration
  forward : position node.inner.lastApplied ≤ position node'.inner.lastApplied
  logged : ∀ id, node'.inner.lastApplied = some id → Log id
  stored : ∀ r, node'.storedRank = some r → Slot node r node'.store.generation
  rises : ∀ r, node.storedRank = some r → ∃ r', node'.storedRank = some r' ∧ r ≤ r'
  reached : ∀ r, node'.storedRank = some r →
    position r.lastLogId ≤ position node'.inner.lastApplied ∨
      ∃ (p : Nat) (call : SnapshotCall Bytes), node'.calls[p]? = some call ∧
        call.stage.committed = true ∧ call.stage.ofBuild = false ∧
        call.rank.lastLogId = r.lastLogId
  calls : ∀ (p : Nat) (call' : SnapshotCall Bytes), node'.calls[p]? = some call' →
    ∃ call, node.calls[p]? = some call ∧ call'.rank = call.rank ∧
      call'.generation = call.generation ∧ call'.snapshot = call.snapshot ∧
      call'.stage.ofBuild = call.stage.ofBuild ∧
      (call'.stage = call.stage ∨ call.stage.committed = false ∧
        call'.stage.committed = true ∧ ∃ r, node'.storedRank = some r ∧ call.rank ≤ r)
  own : ∀ name ∈ new, ∃ (p : Nat) (call : SnapshotCall Bytes), node.calls[p]? = some call ∧
    call.stage = .built ∧ node'.calls[p]? = none ∧ name = call.name
  one : new.length ≤ 1

theorem Settles.slots {node node' : SnapshotNode Bytes}
    {new : List BuildName} (settles : Settles Log node node' new) {r : SnapshotRank} {g : Nat}
    (slot : Slot node' r g) : Slot node r g := by
  cases slot with
  | stored kept => exact settles.stored r kept
  | pending inFlight uncommitted =>
    obtain ⟨call, old, rank, generation, -, -, same | ⟨-, committed, -⟩⟩ :=
      settles.calls _ _ inFlight
    · rw [rank, generation]
      exact .pending old (same ▸ uncommitted)
    · cases uncommitted.symm.trans committed

namespace Named

variable {node : SnapshotNode Bytes}

theorem empty : Named Log ({} : SnapshotNode Bytes) [] := by
  refine ⟨nofun, fun r g slot => ?_, fun p c hc => by simp at hc, nofun,
    fun p c hc => by simp at hc, fun p c hc => by simp at hc, fun p c hc => by simp at hc,
    nofun, nofun, fun p q c c' hc => by simp at hc, fun p c hc => by simp at hc, nodup_nil⟩
  cases slot with
  | stored kept => cases kept
  | pending inFlight => simp at inFlight

theorem settle (ordered : ∀ a b, Log a → Log b → a < b → a.index < b.index)
    (h : Named Log node handed) {node' : SnapshotNode Bytes} {new : List BuildName}
    (settles : Settles Log node node' new) : Named Log node' (handed ++ new) := by
  have guards : ∀ name, (∃ r, node.storedRank = some r ∧ Guards node r name) →
      ∃ r', node'.storedRank = some r' ∧ Guards node' r' name := by
    rintro name ⟨r, kept, guard⟩
    obtain ⟨r', kept', le⟩ := settles.rises r kept
    exact ⟨r', kept', guard.mono le fun _ _ => settles.slots⟩
  constructor
  case applied => exact settles.logged
  case slots =>
    intro r g slot
    rw [settles.generation]
    exact h.slots r g (settles.slots slot)
  case builds =>
    intro p call' hc build
    obtain ⟨call, old, rank, generation, snapshot, kind, -⟩ := settles.calls p call' hc
    obtain ⟨le, below, id⟩ := h.builds p call old (kind ▸ build)
    rw [settles.generation, SnapshotCall.name, rank, generation, snapshot]
    exact ⟨le, below.trans settles.forward, id⟩
  case reached => exact settles.reached
  case logged =>
    intro p call' hc
    obtain ⟨call, old, rank, -⟩ := settles.calls p call' hc
    rw [rank]
    exact h.logged p call old
  case pending =>
    intro p call' hc building
    obtain ⟨call, old, rank, generation, -, -, same | ⟨-, committed, -⟩⟩ :=
      settles.calls p call' hc
    · rw [SnapshotCall.name, rank, generation]
      exact (h.pending p call old (same.symm.trans building)).mono le_rfl fun _ _ => settles.slots
    · rw [building] at committed
      cases committed
  case built =>
    intro p call' hc built
    obtain ⟨call, old, rank, generation, -, kind, same | ⟨uncommitted, -, r, kept, le⟩⟩ :=
      settles.calls p call' hc
    all_goals rw [SnapshotCall.name, rank, generation]
    · exact guards call.name (h.built p call old (same.symm.trans built))
    · have building : call.stage = .building := by
        rw [built] at kind
        cases stage : call.stage <;> rw [stage] at kind uncommitted <;> trivial
      exact ⟨r, kept, (h.pending p call old building).mono le fun _ _ => settles.slots⟩
  case covered =>
    intro name mem
    refine guards name ?_
    rcases mem_append.mp mem with old | mine
    · exact h.covered name old
    · obtain ⟨p, call, inFlight, built, -, rfl⟩ := settles.own name mine
      exact h.built p call inFlight built
  case fresh =>
    intro name mem
    rw [settles.generation]
    rcases mem_append.mp mem with old | mine
    · exact (h.fresh name old).imp_right fun lt =>
        lt.trans_le (lastIndex_le ordered h.applied settles.logged settles.forward)
    · obtain ⟨p, call, inFlight, built, -, rfl⟩ := settles.own name mine
      exact .inl (h.builds p call inFlight (by rw [built]; rfl)).1
  case apart =>
    intro p q call' call'' hp hq buildp buildq ne
    obtain ⟨c, oldp, -, generationp, -, kindp, -⟩ := settles.calls p call' hp
    obtain ⟨c', oldq, -, generationq, -, kindq, -⟩ := settles.calls q call'' hq
    rw [generationp, generationq]
    exact h.apart p q c c' oldp oldq (kindp ▸ buildp) (kindq ▸ buildq) ne
  case unhanded =>
    intro p call' hc build mem
    obtain ⟨call, old, rank, generation, -, kind, -⟩ := settles.calls p call' hc
    rw [SnapshotCall.name, rank, generation, map_append, mem_append] at mem
    rcases mem with before | mine
    · exact h.unhanded p call old (kind ▸ build) before
    · obtain ⟨name, mine, same⟩ := mem_map.mp mine
      obtain ⟨q, ended, inFlight, built, gone, rfl⟩ := settles.own name mine
      refine h.apart p q call ended old inFlight (kind ▸ build) (by rw [built]; rfl) ?_
        (snapshotName_inj same).2.symm
      rintro rfl
      cases gone.symm.trans hc
  case once =>
    rw [map_append, nodup_append]
    refine ⟨h.once, ?_, ?_⟩
    · match new, settles.one with
      | [], _ => exact nodup_nil
      | [name], _ => exact nodup_singleton _
    · rintro id mem id' mine rfl
      obtain ⟨name, mine, same⟩ := mem_map.mp mine
      obtain ⟨p, call, inFlight, built, -, rfl⟩ := settles.own name mine
      exact h.unhanded p call inFlight (by rw [built]; rfl) (same ▸ mem)

variable {p : Nat} {inner : Inner Bytes}

/-- A call ends: it fails uncommitted, is handed out, or is adopted. -/
theorem endCall (h : Named Log node handed) (inFlight : node.calls[p]? = some call)
    (generation : inner.snapshotGeneration = node.inner.snapshotGeneration)
    (forward : position node.inner.lastApplied ≤ position inner.lastApplied)
    (logged : ∀ id, inner.lastApplied = some id → Log id)
    (adopted : call.stage.committed = true → call.stage.ofBuild = false →
      position call.rank.lastLogId ≤ position inner.lastApplied)
    (new : List BuildName) (own : ∀ name ∈ new, call.stage = .built ∧ name = call.name)
    (one : new.length ≤ 1) : Settles Log node ({ node with inner }.endCall p) new := by
  refine ⟨generation, forward, logged, fun r kept => .stored kept,
    fun r kept => ⟨r, kept, le_rfl⟩, fun r kept => ?_,
    fun q c hc => ⟨c, (of_mem_endCall hc).2, rfl, rfl, rfl, rfl, .inl rfl⟩,
    fun name mem => ⟨p, call, inFlight, (own name mem).1, get_erase_self _ p,
      (own name mem).2⟩, one⟩
  rcases h.reached r kept with below | ⟨q, c, hc, done, install, same⟩
  · exact .inl (below.trans forward)
  · by_cases eq : q = p
    · -- the install that held the stored snapshot up has been adopted
      subst eq
      rw [inFlight] at hc
      cases hc
      exact .inl (same ▸ adopted done install)
    · refine .inr ⟨q, c, ?_, done, install, same⟩
      rw [SnapshotNode.endCall, get_erase_of_ne _ (Ne.symm eq)]
      exact hc

/-- A call commits: the store stays, or takes the call's snapshot. -/
theorem commit (h : Named Log node handed) (ranked : Ranked node) {stage : CallStage}
    (inFlight : node.calls[p]? = some call) (uncommitted : call.stage.committed = false)
    (committed : stage.committed = true) (kind : stage.ofBuild = call.stage.ofBuild)
    {node' : SnapshotNode Bytes} (inner : node'.inner = node.inner)
    (calls : node'.calls = (node.putCall { call with stage }).calls)
    (stored : ∀ r, node'.storedRank = some r →
      node.storedRank = some r ∧ node'.store.generation = node.store.generation ∨
        r = call.rank ∧ node'.store.generation = call.generation)
    (rises : ∀ r, node.storedRank = some r → ∃ r', node'.storedRank = some r' ∧ r ≤ r')
    (behind : ∃ r, node'.storedRank = some r ∧ call.rank ≤ r) : Settles Log node node' [] := by
  have number := (ranked.numbered p call inFlight).1
  refine ⟨by rw [inner], by rw [inner], by rw [inner]; exact h.applied, fun r kept => ?_, rises,
    fun r kept => ?_, fun q c hc => ?_, by simp, Nat.zero_le _⟩
  · rcases stored r kept with ⟨old, same⟩ | ⟨rfl, same⟩ <;> rw [same]
    · exact .stored old
    · exact .pending inFlight uncommitted
  · rw [inner, calls, SnapshotNode.putCall]
    rcases stored r kept with ⟨old, -⟩ | ⟨rfl, -⟩
    · refine (h.reached r old).imp_right ?_
      rintro ⟨q, c, hc, done, rest⟩
      refine ⟨q, c, ?_, done, rest⟩
      rw [get_insert_of_ne _ _ ?_]
      · exact hc
      · rintro rfl
        rw [number, inFlight] at hc
        cases hc
        cases uncommitted.symm.trans done
    · cases build : call.stage.ofBuild with
      | true => exact .inl (h.builds p call inFlight build).2.1
      | false =>
        refine .inr ⟨p, { call with stage }, ?_, committed, kind.trans build, rfl⟩
        rw [number, get_insert_self]
  · rw [calls] at hc
    rcases of_mem_putCall hc with ⟨rfl, rfl⟩ | old
    · exact ⟨call, number ▸ inFlight, rfl, rfl, rfl, kind, .inr ⟨uncommitted, committed, behind⟩⟩
    · exact ⟨c, old, rfl, rfl, rfl, rfl, .inl rfl⟩

theorem newest (ordered : ∀ a b, Log a → Log b → a < b → a.index < b.index)
    (h : Named Log node handed) (ranked : Ranked node) {rank : SnapshotRank}
    (number : rank.publication = node.inner.publications + 1)
    (logged : ∀ id, rank.lastLogId = some id → Log id)
    (zero : rank.lastLogId = none → ∀ r g, Slot node r g → r.lastLogId ≠ none →
      lastIndex r.lastLogId ≠ 0) {r : SnapshotRank} {g : Nat} (slot : Slot node r g)
    (above : rank ≤ r) : lastIndex rank.lastLogId < lastIndex r.lastLogId := by
  have earlier : r.publication ≤ node.inner.publications := by
    cases slot with
    | stored kept => exact ranked.storedNumber r kept
    | pending inFlight =>
      obtain ⟨rfl, -, le⟩ := ranked.numbered _ _ inFlight
      exact le
  have lt := SnapshotRank.position_lt above (by omega)
  refine lastIndex_lt ordered logged (h.slots r g slot).1 lt fun none => ?_
  refine zero none r g slot fun empty => ?_
  rw [none, empty] at lt
  exact lt_irrefl _ lt

/-- A new call: numbered next, with a generation at least as high as every one
before it, and a build strictly higher, over the applied position. -/
theorem putNew (ordered : ∀ a b, Log a → Log b → a < b → a.index < b.index)
    (h : Named Log node handed) (ranked : Ranked node)
    (lastApplied : inner.lastApplied = node.inner.lastApplied)
    (grows : node.inner.snapshotGeneration ≤ call.generation)
    (generation : call.generation ≤ inner.snapshotGeneration)
    (number : call.rank.publication = node.inner.publications + 1)
    (uncommitted : call.stage.committed = false)
    (past : position node.inner.lastApplied ≤ position call.rank.lastLogId)
    (logged : ∀ id, call.rank.lastLogId = some id → Log id)
    (build : call.stage.ofBuild = true → node.inner.snapshotGeneration < call.generation ∧
      call.rank.lastLogId = node.inner.lastApplied ∧
      call.snapshot.snapshotMeta.snapshotId = call.name.id ∧
      (node.inner.lastApplied = none → ∀ r g, Slot node r g → r.lastLogId ≠ none →
        lastIndex r.lastLogId ≠ 0)) :
    Named Log ({ node with inner }.putCall call) handed := by
  have slots : ∀ r g, Slot ({ node with inner }.putCall call) r g →
      Slot node r g ∨ r = call.rank ∧ g = call.generation := fun r g slot => slot_putNew slot
  have covers : ∀ name, Covers node.inner.lastApplied node.inner.snapshotGeneration name →
      Covers call.rank.lastLogId call.generation name := by
    rintro name (le | lt)
    · exact .inl (le.trans grows)
    · exact .inr (lt.trans_le (lastIndex_le ordered h.applied logged past))
  have guards : ∀ rank name, Guards node rank name →
      Covers node.inner.lastApplied node.inner.snapshotGeneration name →
      Guards ({ node with inner }.putCall call) rank name :=
    fun rank name guard covered => guard.add (covers name covered) slots
  constructor
  case applied =>
    show ∀ id, inner.lastApplied = some id → Log id
    rw [lastApplied]
    exact h.applied
  case slots =>
    intro r g slot
    rcases slots r g slot with old | ⟨rfl, rfl⟩
    · exact ⟨(h.slots r g old).1, ((h.slots r g old).2.trans grows).trans generation⟩
    · exact ⟨logged, generation⟩
  case builds =>
    intro p c hc isBuild
    show _ ≤ inner.snapshotGeneration ∧ _ ≤ position inner.lastApplied ∧ _
    rw [lastApplied]
    rcases of_mem_putCall hc with ⟨rfl, rfl⟩ | old
    · obtain ⟨-, same, id, -⟩ := build isBuild
      exact ⟨generation, same ▸ le_rfl, id⟩
    · obtain ⟨le, rest⟩ := h.builds p c old isBuild
      exact ⟨(le.trans grows).trans generation, rest⟩
  case reached =>
    intro r kept
    show _ ≤ position inner.lastApplied ∨ _
    rw [lastApplied]
    rcases h.reached r kept with below | ⟨q, c, hc, rest⟩
    · exact .inl below
    · refine .inr ⟨q, c, ?_, rest⟩
      have ne : call.rank.publication ≠ q := by
        have := (ranked.numbered q c hc).2.2
        omega
      rw [SnapshotNode.putCall, get_insert_of_ne _ _ ne]
      exact hc
  case logged =>
    intro p c hc
    rcases of_mem_putCall hc with ⟨rfl, rfl⟩ | old
    · exact logged
    · exact h.logged p c old
  case pending =>
    intro p c hc building
    rcases of_mem_putCall hc with ⟨rfl, rfl⟩ | old
    · obtain ⟨-, same, -, zero⟩ := build (by rw [building]; rfl)
      intro r g slot above
      rcases slots r g slot with old | ⟨rfl, rfl⟩
      · exact .inr (h.newest ordered ranked number logged (fun none => zero (same ▸ none)) old
          above)
      · exact .inl le_rfl
    · exact guards _ _ (h.pending p c old building)
        (.inl (h.builds p c old (by rw [building]; rfl)).1)
  case built =>
    intro p c hc built
    rcases of_mem_putCall hc with ⟨rfl, rfl⟩ | old
    · rw [built] at uncommitted
      cases uncommitted
    · obtain ⟨r, kept, guard⟩ := h.built p c old built
      exact ⟨r, kept, guards r _ guard (.inl (h.builds p c old (by rw [built]; rfl)).1)⟩
  case covered =>
    intro name mem
    obtain ⟨r, kept, guard⟩ := h.covered name mem
    exact ⟨r, kept, guards r name guard (h.fresh name mem)⟩
  case fresh =>
    intro name mem
    show Covers inner.lastApplied inner.snapshotGeneration name
    rw [lastApplied]
    exact (h.fresh name mem).imp_left fun le => (le.trans grows).trans generation
  case apart =>
    intro p q c c' hc hc' isBuild isBuild' ne
    rcases of_mem_putCall hc with ⟨rfl, rfl⟩ | old
    · rcases of_mem_putCall hc' with ⟨rfl, rfl⟩ | old'
      · exact absurd rfl ne
      · have := (h.builds q c' old' isBuild').1
        have := (build isBuild).1
        omega
    · rcases of_mem_putCall hc' with ⟨rfl, rfl⟩ | old'
      · have := (h.builds p c old isBuild).1
        have := (build isBuild').1
        omega
      · exact h.apart p q c c' old old' isBuild isBuild' ne
  case unhanded =>
    intro p c hc isBuild mem
    rcases of_mem_putCall hc with ⟨rfl, rfl⟩ | old
    · obtain ⟨higher, same, -, -⟩ := build isBuild
      obtain ⟨name, handed, id⟩ := mem_map.mp mem
      obtain ⟨index, eq⟩ := snapshotName_inj id
      have index : lastIndex name.lastLogId = lastIndex node.inner.lastApplied := by
        rw [← same]
        exact index
      have eq : name.generation = c.generation := eq
      rcases h.fresh name handed with le | lt <;> omega
    · exact h.unhanded p c old isBuild mem
  case once => exact h.once

theorem restart (h : Named Log node handed) (ranked : Ranked node)
    {codec : Codec OwnershipState Bytes}
    (loaded : Inner.load codec node.store = .ok inner) :
    Named Log ({ inner, store := node.store } : SnapshotNode Bytes) handed := by
  obtain ⟨generation, -, lastApplied, -, -⟩ := load_cases loaded
  -- the loaded position is the one the store was written at
  have same : ∀ r, node.storedRank = some r → r.lastLogId = inner.lastApplied := by
    intro r kept
    obtain ⟨snapshot, stored, place⟩ := ranked.storedSnapshot kept
    rw [lastApplied, stored]
    exact place.symm
  have stored : ∀ r, ({ inner, store := node.store } : SnapshotNode Bytes).storedRank =
      some r → r.lastLogId = inner.lastApplied := by
    intro r kept
    obtain ⟨snapshot, stored, rfl⟩ := Option.map_eq_some_iff.mp kept
    rw [lastApplied, stored]
    rfl
  have slot : ∀ r g, Slot ({ inner, store := node.store } : SnapshotNode Bytes) r g →
      r.lastLogId = inner.lastApplied ∧ g = node.store.generation := by
    intro r g slot
    cases slot with
    | stored kept => exact ⟨stored r kept, rfl⟩
    | pending inFlight => simp at inFlight
  have covers : ∀ name ∈ handed, Covers inner.lastApplied node.store.generation name := by
    intro name mem
    obtain ⟨r, kept, guard⟩ := h.covered name mem
    rw [← same r kept]
    exact guard r _ (.stored kept) le_rfl
  have logged : ∀ id, inner.lastApplied = some id → Log id := by
    intro id applied
    rw [lastApplied] at applied
    obtain ⟨snapshot, stored, -⟩ := Option.bind_eq_some_iff.mp applied
    obtain ⟨r, kept, -⟩ := ranked.storedRank stored
    refine (h.slots r _ (.stored kept)).1 id ?_
    rw [same r kept, lastApplied]
    exact applied
  constructor
  case applied => exact logged
  case slots =>
    intro r g hslot
    obtain ⟨place, rfl⟩ := slot r g hslot
    rw [place]
    exact ⟨logged, generation.symm.le⟩
  case builds => exact fun p c hc => by simp at hc
  case reached =>
    intro r kept
    rw [stored r kept]
    exact .inl le_rfl
  case logged => exact fun p c hc => by simp at hc
  case pending => exact fun p c hc => by simp at hc
  case built => exact fun p c hc => by simp at hc
  case covered =>
    intro name mem
    obtain ⟨r, kept, -⟩ := h.covered name mem
    obtain ⟨snapshot, stored, -⟩ := ranked.storedSnapshot kept
    refine ⟨⟨snapshot.snapshotMeta.lastLogId, 0⟩, ?_, fun r' g hslot _ => ?_⟩
    · show (node.store.snapshot.map _) = _
      rw [stored]
      rfl
    · obtain ⟨place, rfl⟩ := slot r' g hslot
      rw [place]
      exact covers name mem
  case fresh =>
    intro name mem
    show Covers inner.lastApplied inner.snapshotGeneration name
    rw [generation]
    exact covers name mem
  case apart => exact fun p q c c' hc => by simp at hc
  case unhanded => exact fun p c hc => by simp at hc
  case once => exact h.once

end Named

/-! ## Over every interleaving -/

/-- When a build is taken before anything has been applied, no call in flight
stands at log index zero. -/
def NoEmptyBuildOverZero {Bytes : Type} (node : SnapshotNode Bytes) :
    SnapshotEvent Bytes → Prop
  | .build => node.inner.lastApplied = none →
    ∀ (p : Nat) (call : SnapshotCall Bytes), node.calls[p]? = some call →
      ∀ id, call.rank.lastLogId = some id → id.index ≠ 0
  | _ => True

section Runs

variable {codec : Codec OwnershipState Bytes}
  {node : SnapshotNode Bytes}

theorem Named.slot_index (h : Named Log node handed)
    (condition : NoEmptyBuildOverZero node .build) (empty : node.inner.lastApplied = none) :
    ∀ r g, Slot node r g → r.lastLogId ≠ none → lastIndex r.lastLogId ≠ 0 := by
  intro r g slot some
  obtain ⟨id, place⟩ := Option.ne_none_iff_exists'.mp some
  rw [place]
  cases slot with
  | pending inFlight => exact condition empty _ _ inFlight id place
  | stored kept =>
    rcases h.reached r kept with below | ⟨p, call, inFlight, -, -, same⟩
    · rw [empty, place] at below
      exact absurd below (WithBot.not_coe_le_bot id)
    · exact condition empty p call inFlight id (same.trans place)

/-- **Step.** One event in log order keeps the names, and hands out at most
one new one. -/
theorem Named.step (ordered : ∀ a b, Log a → Log b → a < b → a.index < b.index)
    (h : Named Log node handed) (ranked : Ranked node) {event : SnapshotEvent Bytes}
    {node' : SnapshotNode Bytes} {answer : Option SnapshotMeta}
    (inOrder : InLogOrder Log node event) (condition : NoEmptyBuildOverZero node event)
    (step : SnapshotStep codec node event node' answer) :
    ∃ new : List BuildName,
      (answer.map (·.snapshotId)).toList = new.map BuildName.id ∧
        Named Log node' (handed ++ new) := by
  -- all but a handed build answer nothing, and of those all but a new call and a restart settle
  have silent : Named Log node' handed → answer = none → ∃ new : List BuildName,
      (answer.map (·.snapshotId)).toList = new.map BuildName.id ∧ Named Log node' (handed ++ new) :=
    fun named none => ⟨[], by rw [none]; rfl, by rwa [List.append_nil]⟩
  have settled : Settles Log node node' [] → answer = none → _ :=
    fun settles => silent (List.append_nil handed ▸ h.settle ordered settles)
  cases step with
  | idle => exact silent h rfl
  | applied entry =>
    obtain ⟨lastApplied, -, generation, -, -⟩ := apply_frame node.inner entry
    have forward : position node.inner.lastApplied ≤
        position (node.inner.apply entry).1.lastApplied := by
      rw [lastApplied]
      exact inOrder.2.le
    refine settled ⟨generation, forward, ?_, fun r kept => .stored kept,
      fun r kept => ⟨r, kept, le_rfl⟩,
      fun r kept => (h.reached r kept).imp_left fun below => below.trans forward,
      fun q c hc => ⟨c, hc, rfl, rfl, rfl, rfl, .inl rfl⟩, nofun, Nat.zero_le _⟩ rfl
    rw [lastApplied]
    rintro id ⟨⟩
    exact inOrder.1
  | built =>
    exact silent (h.putNew ordered ranked rfl (le_succ _) le_rfl rfl rfl le_rfl h.applied
      fun _ => ⟨lt_succ_self _, rfl, rfl, h.slot_index condition⟩) rfl
  | asked snapshot =>
    exact silent (h.putNew ordered ranked rfl le_rfl le_rfl rfl rfl inOrder.2 inOrder.1 nofun) rfl
  | failed p written call inFlight uncommitted =>
    exact settled (h.endCall inFlight rfl le_rfl h.applied
      (fun committed => absurd committed (by simp [uncommitted])) [] nofun (Nat.zero_le _)) rfl
  | superseded p written call stage inFlight uncommitted committed kind high durable behind =>
    exact settled (h.commit ranked inFlight uncommitted committed kind rfl rfl
      (fun r kept => .inl ⟨kept, rfl⟩) (fun r kept => ⟨r, kept, le_rfl⟩)
      ⟨high, by simp [SnapshotNode.storedRank, SnapshotNode.putCall, durable], behind⟩) rfl
  | stored p written call stage inFlight uncommitted committed kind ahead =>
    exact settled (h.commit ranked inFlight uncommitted committed kind rfl rfl
      (fun r kept => .inr ⟨(Option.some.inj kept).symm, rfl⟩)
      (fun r kept => ⟨call.rank, rfl, (ranked.ahead inFlight ahead r kept).le⟩)
      ⟨call.rank, rfl, le_rfl⟩) rfl
  | handed p call inFlight ready =>
    have build : call.stage.ofBuild = true := by rw [ready]; rfl
    refine ⟨[call.name], congrArg (fun id => [id]) (h.builds p call inFlight build).2.2,
      h.settle ordered (h.endCall inFlight (publish_snapshotGeneration ..) ?_ ?_ ?_ [call.name]
        (fun name mem => ⟨ready, mem_singleton.mp mem⟩) le_rfl)⟩
    · rw [publish_lastApplied]
    · rw [publish_lastApplied]
      exact h.applied
    · intro _ install
      cases build.symm.trans install
  | adopted p call state inFlight ready =>
    have place : (node.inner.adopt state call.snapshot.snapshotMeta).lastApplied =
        call.rank.lastLogId := ranked.placed p call inFlight
    have generation := publish_snapshotGeneration
      (node.inner.adopt state call.snapshot.snapshotMeta) call.rank call.snapshot
    refine settled (h.endCall inFlight generation ?_ ?_ ?_ [] nofun (Nat.zero_le _)) rfl <;>
      rw [publish_lastApplied, place]
    · exact inOrder call state inFlight ready
    · exact h.logged p call inFlight
    · exact fun _ _ => le_rfl
  | restarted inner loaded => exact silent (h.restart ranked loaded) rfl

open SnapshotNode

variable (events : List (SnapshotEvent Bytes))

theorem SnapshotNode.after_concat (event : SnapshotEvent Bytes) :
    after codec (events ++ [event]) = ((after codec events).step codec event).1 :=
  exec_append (step codec) {} events [event]

theorem SnapshotNode.handed_concat (event : SnapshotEvent Bytes) :
    SnapshotNode.handed codec (events ++ [event]) = SnapshotNode.handed codec events ++
      (((after codec events).step codec event).2.map (·.snapshotId)).toList := by
  rw [SnapshotNode.handed, answers_append, filterMap_append]
  congr 1

/-- **Run, ranks.** -/
theorem ranked_after (inOrder : Along (step codec) (InLogOrder Log) {} events) :
    Ranked (after codec events) :=
  exec_invariant (step codec)
    (fun _ event ranked order => ranked.step order (step_snapshotStep event)) {} events
    Ranked.empty inOrder

/-- **Run, names.** -/
theorem named_after (ordered : ∀ a b, Log a → Log b → a < b → a.index < b.index)
    (events : List (SnapshotEvent Bytes))
    (inOrder : Along (step codec) (InLogOrder Log) {} events)
    (condition : Along (step codec) NoEmptyBuildOverZero {} events) :
    ∃ names : List BuildName, SnapshotNode.handed codec events = names.map BuildName.id ∧
      Named Log (after codec events) names := by
  induction events using reverseRecOn with
  | nil => exact ⟨[], rfl, Named.empty⟩
  | append_singleton events event ih =>
    obtain ⟨orderBefore, orderLast, -⟩ := (along_append _ _ _ _).mp inOrder
    obtain ⟨conditionBefore, conditionLast, -⟩ := (along_append _ _ _ _).mp condition
    obtain ⟨names, handed, named⟩ := ih orderBefore conditionBefore
    obtain ⟨new, answer, named⟩ := named.step ordered (ranked_after events orderBefore) orderLast
      conditionLast (step_snapshotStep event)
    refine ⟨names ++ new, ?_, ?_⟩
    · rw [handed_concat, handed, answer, map_append]
    · rw [after_concat]
      exact named

end Runs

/-- **Snapshot publication order.** Over every interleaving of builds, installs,
applied entries and restarts in log order: the stored and the current snapshot
are only ever replaced by one of a higher rank, these being the ranks of the
snapshots they stand for. If no empty build is taken while a call at log index
zero is in flight, no two builds are handed out under one name. -/
theorem snapshot_publication_order {Bytes : Type} (codec : Codec OwnershipState Bytes)
    (Log : LogId → Prop) (ordered : ∀ a b, Log a → Log b → a < b → a.index < b.index)
    (events : List (SnapshotEvent Bytes))
    (inOrder : Machine.Along (SnapshotNode.step codec) (InLogOrder Log) {} events) :
    (∀ before event, events = before ++ [event] →
      RanksRise event (SnapshotNode.after codec before) (SnapshotNode.after codec events)) ∧
    ((SnapshotNode.after codec events).storedRank.map (·.lastLogId) =
        (SnapshotNode.after codec events).store.snapshot.map (·.snapshotMeta.lastLogId) ∧
      (SnapshotNode.after codec events).inner.published.map (·.lastLogId) =
        (SnapshotNode.after codec events).inner.currentSnapshot.map (·.snapshotMeta.lastLogId)) ∧
    (Machine.Along (SnapshotNode.step codec) NoEmptyBuildOverZero {} events →
      (SnapshotNode.handed codec events).Nodup) := by
  have ranked := ranked_after events inOrder
  refine ⟨?_, ⟨ranked.storedAt, ranked.publishedAt⟩, ?_⟩
  · rintro before event rfl
    have orderBefore := ((along_append _ _ _ _).mp inOrder).1
    rw [SnapshotNode.after_concat]
    exact (ranked_after before orderBefore).rise (step_snapshotStep event)
  · intro condition
    obtain ⟨names, handed, named⟩ := named_after ordered events inOrder condition
    rw [handed]
    exact named.once

def zeroSnapshot : StoredSnapshot OwnershipState :=
  { snapshotMeta := { lastLogId := some ⟨0, 0, 0⟩, lastMembership := {}, snapshotId := "0-9" }
    data := OwnershipState.new }

def rebuilt : List (SnapshotEvent OwnershipState) :=
  [.apply ⟨⟨0, 0, 0⟩, .blank⟩, .build, .commit 1 true, .publish 1, .restart, .build,
    .commit 1 true, .publish 1]

theorem snapshot_publication_order_rebuilt :
    SnapshotNode.handed (Codec.id OwnershipState) rebuilt = ["0-1", "0-2"] ∧
      (SnapshotNode.handed (Codec.id OwnershipState) rebuilt).Nodup := by
  refine ⟨by decide +kernel, ?_⟩
  have built : ∀ n ∈ [3, 7], ((SnapshotNode.after (Codec.id OwnershipState)
      (rebuilt.take n)).calls[1]?.map (·.stage)) = some .built := by decide +kernel
  have applied : ∀ n ∈ [1, 5], (SnapshotNode.after (Codec.id OwnershipState)
      (rebuilt.take n)).inner.lastApplied ≠ none := by decide +kernel
  refine (snapshot_publication_order (Codec.id OwnershipState) (· = ⟨0, 0, 0⟩) ?_ rebuilt ?_).2.2 ?_
  · rintro a b rfl rfl lt
    exact absurd lt (lt_irrefl _)
  · refine ⟨⟨rfl, by decide +kernel⟩, trivial, trivial, fun call state inFlight ready => ?_,
      trivial, trivial, trivial, fun call state inFlight ready => ?_, trivial⟩
    · have stage := (congrArg (Option.map (·.stage)) inFlight).symm.trans (built 3 (by simp))
      cases ready.symm.trans (Option.some.inj stage)
    · have stage := (congrArg (Option.map (·.stage)) inFlight).symm.trans (built 7 (by simp))
      cases ready.symm.trans (Option.some.inj stage)
  · exact ⟨trivial, fun empty => absurd empty (applied 1 (by simp)), trivial, trivial, trivial,
      fun empty => absurd empty (applied 5 (by simp)), trivial, trivial, trivial⟩

/-- An install of a snapshot at log index zero takes its rank on an empty
machine, an empty build is taken, committed and handed out, and the install
commits after it with the generation it read before. Then the process is
replaced, and builds. -/
def zeroInstallRace : List (SnapshotEvent OwnershipState) :=
  [.install zeroSnapshot, .build, .commit 2 true, .publish 2, .commit 1 true, .restart,
    .build, .commit 1 true, .publish 1]

/-- In log order, and yet the next process starts at the older generation and
hands out the same name again. -/
theorem empty_build_renamed_after_restart :
    Machine.Along (SnapshotNode.step (Codec.id OwnershipState)) (InLogOrder (· = ⟨0, 0, 0⟩)) {}
      zeroInstallRace ∧
    SnapshotNode.handed (Codec.id OwnershipState) zeroInstallRace = ["0-1", "0-1"] := by
  refine ⟨?_, by decide +kernel⟩
  have first : ((SnapshotNode.after (Codec.id OwnershipState)
      (zeroInstallRace.take 3)).calls[2]?.map (·.stage)) = some .built := by decide +kernel
  have second : ((SnapshotNode.after (Codec.id OwnershipState)
      (zeroInstallRace.take 8)).calls[1]?.map (·.stage)) = some .built := by decide +kernel
  refine ⟨⟨fun id h => (Option.some.inj h).symm, by decide +kernel⟩, trivial, trivial,
    fun call state inFlight ready => ?_, trivial, trivial, trivial, trivial,
    fun call state inFlight ready => ?_, trivial⟩
  · have stage := (congrArg (Option.map (·.stage)) inFlight).symm.trans first
    cases ready.symm.trans (Option.some.inj stage)
  · have stage := (congrArg (Option.map (·.stage)) inFlight).symm.trans second
    cases ready.symm.trans (Option.some.inj stage)

end Peryx
