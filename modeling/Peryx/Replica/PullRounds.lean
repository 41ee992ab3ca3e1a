import Peryx.Replica.Cycle

/-!
# Pulling without gaps or repeats

`multi_pull.rs` over many rounds, with any transports and any `apply` that
reports the serial it committed.

A peer is drained and committed by name, so a second member of the same name is
fetched and never drained (`second_upstream_stays_buffered`).

- `drainRound_drains`, `commitAll_commits`: what a round takes and records.
- `pull_rounds_chain`: over all rounds, no serial is skipped or applied twice.
-/

namespace Peryx

open Machine List Option

variable {Bytes : Type} {set : PeerSet Bytes} {source : String}

/-! ## Rounds and their calls -/

structure Puller (σ Bytes : Type) where
  set : PeerSet Bytes
  store : σ

/-- The clock of a round, the source the store is bound to, and what each
member's transport answers. -/
structure PullInput (Bytes : Type) where
  now : Duration
  committed : Option String
  fetch : Nat → BatchRequest → Except TransportError (ChangePage Bytes)

/-- A page handed to `apply`, and its answer. -/
abbrev Call (Bytes E : Type) := ChangePage Bytes × Except E Nat

section

variable {σ E : Type} (apply : σ → ChangePage Bytes → σ × Except E Nat) (serialOf : σ → Nat)
  (hash : String → Nat → Nat)

/-- `apply`, with every call written down. -/
def recording (recorded : σ × List (Call Bytes E)) (page : ChangePage Bytes) :
    (σ × List (Call Bytes E)) × Except E Nat :=
  let (store, answer) := apply recorded.1 page
  ((store, recorded.2 ++ [(page, answer)]), answer)

namespace Puller

variable (puller : Puller σ Bytes)

def round (input : PullInput Bytes) :
    Puller σ Bytes × Except E PullRound :=
  let (set, store, answer) := pullRound apply hash puller.set input.fetch input.now
    (serialOf puller.store) input.committed puller.store
  ({ set, store }, answer)

/-- Every call of `apply` in a run of rounds. -/
def calls (inputs : List (PullInput Bytes)) : List (Call Bytes E) :=
  (Machine.exec (round (recording apply) (serialOf ·.1) hash)
    { set := puller.set, store := (puller.store, []) } inputs).store.2

def drained (input : PullInput Bytes) : List String :=
  (drainRound hash puller.set input.fetch input.now input.committed).2.2.map (·.1)

end Puller

variable {apply serialOf}

theorem recording_advances (advances : Advances apply serialOf) :
    Advances (recording apply) (serialOf ·.1) where
  ok recorded page recorded' reached h := by
    obtain ⟨left, answer⟩ := Prod.mk.inj h
    subst left
    exact advances.ok _ page _ reached (Prod.ext rfl answer)
  error recorded page recorded' error h := by
    obtain ⟨left, answer⟩ := Prod.mk.inj h
    subst left
    exact advances.error _ page _ error (Prod.ext rfl answer)

theorem applyBatches_recording (batches : List (BufferedBatch Bytes))
    (recorded : σ × List (Call Bytes E)) (serial : Nat) :
    applyBatches apply recorded.1 serial batches =
      ((applyBatches (recording apply) recorded serial batches).1.1,
        (applyBatches (recording apply) recorded serial batches).2) := by
  induction batches generalizing recorded serial with
  | nil => rfl
  | cons batch batches ih =>
    unfold applyBatches
    dsimp only
    split
    · exact ih recorded serial
    · generalize ({ version := batch.version, source := batch.source, .. } :
        ChangePage Bytes) = page
      cases ran : apply recorded.1 page with
      | mk store answer =>
        have step : recording apply recorded page =
            ((store, recorded.2 ++ [(page, answer)]), answer) := by
          unfold recording
          rw [ran]
        rw [step]
        cases answer with
        | error error => rfl
        | ok reached =>
          have rest := ih (store, recorded.2 ++ [(page, .ok reached)]) reached
          dsimp only at rest ⊢
          rw [rest]

def Puller.forget (puller : Puller (σ × List (Call Bytes E)) Bytes) : Puller σ Bytes where
  set := puller.set
  store := puller.store.1

theorem Puller.round_recording (puller : Puller (σ × List (Call Bytes E)) Bytes)
    (input : PullInput Bytes) :
    (Machine.next (round (recording apply) (serialOf ·.1) hash) puller input).forget =
      Machine.next (round apply serialOf hash) puller.forget input := by
  obtain ⟨set, store⟩ := pullRound_parts apply hash puller.set input.fetch input.now
    (serialOf puller.store.1) input.committed puller.store.1
  obtain ⟨set', store'⟩ := pullRound_parts (recording apply) hash puller.set input.fetch input.now
    (serialOf puller.store.1) input.committed puller.store
  have applied : ∀ report drained,
      applyRound apply report drained (serialOf puller.store.1) puller.store.1 =
        (applyRound (recording apply) report drained (serialOf puller.store.1)
          puller.store).map Prod.fst id := by
    intro report drained
    unfold applyRound
    split
    · exact applyBatches_recording _ puller.store _
    · rfl
  rw [applied] at set store
  exact congrArg₂ Puller.mk (set'.trans set.symm) ((congrArg Prod.fst store').trans store.symm)

/-! ## Chains of calls -/

def reached (serial : Nat) (call : Call Bytes E) : Nat :=
  match call.2 with
  | .ok serial => serial
  | .error _ => serial

def standing (serial : Nat) (calls : List (Call Bytes E)) : Nat :=
  calls.foldl reached serial

/-- Every page starts where the calls before it left off, and carries the
serials from the next one on. -/
def Chained : Nat → List (Call Bytes E) → Prop
  | _, [] => True
  | serial, call :: calls =>
    call.1.after = serial ∧ Follows serial call.1.changes ∧ Chained (reached serial call) calls

def appliedSerials (calls : List (Call Bytes E)) : List Nat :=
  calls.flatMap fun call =>
    match call.2 with
    | .ok _ => call.1.changes.map (·.serial)
    | .error _ => []

variable {calls : List (Call Bytes E)}

theorem Chained.concat {serial : Nat} (h : Chained serial calls)
    {call : Call Bytes E} (start : call.1.after = standing serial calls)
    (follows : Follows (standing serial calls) call.1.changes) :
    Chained serial (calls ++ [call]) := by
  induction calls generalizing serial with
  | nil => exact ⟨start, follows, trivial⟩
  | cons first calls ih => exact ⟨h.1, h.2.1, ih h.2.2 start follows⟩

theorem Chained.appliedSerials {serial : Nat} (h : Chained serial calls)
    (whole : ∀ call ∈ calls, ∀ last, call.2 = .ok last →
      last = call.1.after + call.1.changes.length) :
    serial ≤ standing serial calls ∧
      appliedSerials calls = List.range' (serial + 1) (standing serial calls - serial) := by
  induction calls generalizing serial with
  | nil => simp [standing, Peryx.appliedSerials]
  | cons call calls ih =>
    obtain ⟨start, follows, rest⟩ := h
    obtain ⟨this, later⟩ := forall_mem_cons.mp whole
    obtain ⟨forward, serials⟩ := ih rest later
    obtain ⟨page, error | last⟩ := call
    · exact ⟨forward, serials⟩
    · have end_ : last = serial + page.changes.length := start ▸ this last rfl
      have further : serial + page.changes.length ≤ standing last calls := end_ ▸ forward
      refine ⟨(Nat.le_add_right _ _).trans further, ?_⟩
      have joined : page.changes.length + (standing last calls - last) =
          standing last calls - serial := by
        omega
      calc Peryx.appliedSerials ((page, Except.ok last) :: calls)
          = page.changes.map (·.serial) ++ Peryx.appliedSerials calls := rfl
        _ = List.range' (serial + 1) page.changes.length ++
            List.range' (last + 1) (standing last calls - last) := by
          rw [show page.changes.map (·.serial) = _ from follows]
          exact congrArg _ serials
        _ = List.range' (serial + 1) (standing last calls - serial) := by
          rw [end_, Nat.add_right_comm, range'_append_1, ← end_, joined]

/-! ## Batches that leave no gap -/

theorem Follows.filter_lt {n serial : Nat} {changes : List (Change Bytes)} (h : Follows n changes)
    (le : n ≤ serial) : Follows serial (changes.filter (serial < ·.serial)) := by
  unfold Follows at h ⊢
  rw [(SerialLog.filter_consecutive Change.serial h _).1, map_drop, h, drop_range', length_drop]
  by_cases beyond : changes.length ≤ serial - n
  · have none : changes.length - (serial + 1 - (n + 1)) = 0 := by omega
    rw [none]
    rfl
  · congr 1
    omega

theorem Follows.append {n : Nat} {changes later : List (Change Bytes)} (h : Follows n changes)
    (rest : Follows (n + changes.length) later) : Follows n (changes ++ later) := by
  unfold Follows at h rest ⊢
  rw [map_append, h, rest, Nat.add_right_comm, range'_append_1, length_append]

/-- A batch that starts at or below `serial`, without gaps. -/
def Gapless (serial : Nat) (batch : BufferedBatch Bytes) : Prop :=
  ∃ n ≤ serial, Follows n batch.changes

/-- **Run.** Applying gapless batches one after the other extends the chain of
calls. -/
theorem applyBatches_chained (advances : Advances apply serialOf) {start : Nat}
    {batches : List (BufferedBatch Bytes)} {store : σ}
    (gapless : ∀ batch ∈ batches, Gapless (serialOf store) batch) (h : Chained start calls)
    (stands : standing start calls = serialOf store) :
    let after := (applyBatches (recording apply) (store, calls) (serialOf store) batches).1
    Chained start after.2 ∧ standing start after.2 = serialOf after.1 := by
  induction batches generalizing store calls with
  | nil => exact ⟨h, stands⟩
  | cons batch batches ih =>
    obtain ⟨⟨n, below, follows⟩, later⟩ := forall_mem_cons.mp gapless
    unfold applyBatches
    dsimp only
    split
    · exact ih later h stands
    · generalize made : ({ version := batch.version, source := batch.source, .. } :
        ChangePage Bytes) = page
      have from_ : page.after = standing start calls := by
        rw [← made]
        exact stands.symm
      have continues : Follows (standing start calls) page.changes := by
        rw [← made, stands]
        exact follows.filter_lt below
      cases ran : apply store page with
      | mk store' answer =>
        have step : recording apply (store, calls) page =
            ((store', calls ++ [(page, answer)]), answer) := by
          unfold recording
          rw [ran]
        have chained : Chained start (calls ++ [(page, answer)]) := h.concat from_ continues
        have moved : standing start (calls ++ [(page, answer)]) =
            reached (serialOf store) (page, answer) := by
          rw [← stands]
          exact foldl_concat ..
        rw [step]
        cases answer with
        | error error =>
          exact ⟨chained, moved.trans (advances.error store page store' error ran).symm⟩
        | ok last =>
          obtain ⟨standing', forward⟩ := advances.ok store page store' last ran
          subst standing'
          refine ih ?_ chained moved
          intro batch hb
          obtain ⟨n, below, follows⟩ := later batch hb
          exact ⟨n, below.trans forward, follows⟩

end

/-! ## Members through a round -/

namespace PeerSet

/-- What every channel holds continues its member's frontier. -/
def Contiguous (set : PeerSet Bytes) : Prop :=
  ∀ member ∈ set.members, Follows member.frontier member.channel.queue

def Emptied (set : PeerSet Bytes) (source : String) : Prop :=
  ∀ member, set.member source = some member → member.channel.queue = []

theorem Contiguous.join (h : Contiguous set) (source : String) (frontier : Nat) :
    Contiguous (set.join source frontier) := by
  intro member hm
  rcases mem_append.mp hm with old | new
  · exact h member old
  · rw [mem_singleton.mp new]
    rfl

variable {f : Member Bytes → Member Bytes}

theorem find?_modifyMember {other : String}
    (keeps : ∀ member, (f member).source = member.source) (members : List (Member Bytes)) :
    (modifyMember source f members).find? (·.source = other) =
      (members.find? (·.source = other)).map fun member =>
        if other = source then f member else member := by
  induction members with
  | nil => rfl
  | cons first members ih =>
    unfold modifyMember
    by_cases named : first.source = source
    · by_cases same : other = source
      · simp [named, same, keeps]
      · simp [named, same, keeps, Ne.symm same]
    · by_cases found : first.source = other
      · simp [named, ← found]
      · simp only [named, if_false, found, decide_false, Bool.false_eq_true, not_false_eq_true,
          find?_cons_of_neg, ih]

theorem modifyMember_sources
    (keeps : ∀ member, (f member).source = member.source) (members : List (Member Bytes)) :
    (modifyMember source f members).map (·.source) = members.map (·.source) := by
  induction members with
  | nil => rfl
  | cons first members ih =>
    unfold modifyMember
    split
    · simp [keeps]
    · simp [ih]

theorem settleAll_sources (hash : String → Nat → Nat) (now : Duration)
    (results : List (Nat × Except TransportError (ChangePage Bytes))) (set : PeerSet Bytes) :
    (set.settleAll hash now results).1.sources = set.sources := by
  induction results generalizing set with
  | nil => rfl
  | cons first results ih =>
    unfold settleAll
    split
    · exact ih set
    · rename_i member present
      obtain ⟨member', members, settles⟩ :=
        settle_members hash set first.1 member first.2 now
      refine (ih _).trans ?_
      unfold sources
      obtain ⟨bound, here⟩ := List.getElem?_eq_some_iff.mp present
      have kept : set.members.set first.1 member = set.members := by
        rw [← here, set_getElem_self]
      rw [members, map_set, settles.source, ← map_set (f := fun m : Member Bytes => m.source), kept]

theorem sources_advance (hash : String → Nat → Nat) (set : PeerSet Bytes)
    (fetch : Fetch Bytes) (now : Duration) :
    (set.advance hash fetch now).1.sources = set.sources := by
  refine (settleAll_sources hash now _ (set.select now).1).trans ?_
  unfold sources
  rw [select_members]

/-! ### Draining -/

theorem drainBatch_member (set : PeerSet Bytes) (source other : String) :
    ∃ draining, (set.drainBatch source).1.member other = (set.member other).map fun member =>
      if other = source then { member with channel := .new member.channel.capacity, draining }
      else member := by
  obtain ⟨draining, members⟩ := drainBatch_members set source
  refine ⟨draining, ?_⟩
  unfold member
  rw [members]
  refine find?_modifyMember ?_ set.members
  exact fun _ => rfl

theorem sources_drainBatch (set : PeerSet Bytes) (source : String) :
    (set.drainBatch source).1.sources = set.sources := by
  obtain ⟨draining, members⟩ := drainBatch_members set source
  unfold sources
  rw [members]
  refine modifyMember_sources ?_ set.members
  exact fun _ => rfl

theorem drainBatch_emptied (set : PeerSet Bytes) (source : String) :
    (set.drainBatch source).1.Emptied source := by
  intro member found
  obtain ⟨draining, after⟩ := drainBatch_member set source source
  rw [after] at found
  obtain ⟨before, -, rfl⟩ := map_eq_some_iff.mp found
  rw [if_pos rfl]
  rfl

theorem Emptied.drainBatch {peer : String} (h : set.Emptied peer) (source : String) :
    (set.drainBatch source).1.Emptied peer := by
  intro member found
  obtain ⟨draining, after⟩ := drainBatch_member set source peer
  rw [after] at found
  obtain ⟨before, present, rfl⟩ := map_eq_some_iff.mp found
  split
  · rfl
  · exact h before present

theorem Contiguous.drainBatch (h : Contiguous set) (source : String) :
    Contiguous (set.drainBatch source).1 :=
  drainBatch_forall (fun _ _ _ => rfl) h source

theorem drainBatch_gapless {bound : Nat} (h : Contiguous set) (within : Within bound set)
    {batch : BufferedBatch Bytes}
    (drained : (set.drainBatch source).2 = some batch) :
    source ∈ set.sources ∧ Gapless bound batch := by
  unfold PeerSet.drainBatch at drained
  split at drained
  · cases drained
  · rename_i member found
    dsimp only at drained
    split at drained
    · cases drained
    · cases drained
      have present := mem_of_find?_eq_some found
      have named : member.source = source := by simpa using find?_some found
      exact ⟨List.mem_map.mpr ⟨member, present, named⟩,
        member.frontier, within member present, h member present⟩

end PeerSet

structure PeerSet.Drains (bound : Nat) (set : PeerSet Bytes) (peers : List String)
    (drained : PeerSet Bytes × List (String × BufferedBatch Bytes)) : Prop where
  sources : drained.1.sources = set.sources
  contiguous : drained.1.Contiguous
  emptied : ∀ peer, peer ∈ peers ∨ set.Emptied peer → drained.1.Emptied peer
  known : ∀ entry ∈ drained.2, entry.1 ∈ peers ∧ entry.1 ∈ set.sources
  gapless : ∀ entry ∈ drained.2, Gapless bound entry.2

variable {bound : Nat}

theorem drainAll_drains (h : set.Contiguous) (within : set.Within bound) (peers : List String) :
    PeerSet.Drains bound set peers (drainAll set peers) := by
  induction peers generalizing set with
  | nil =>
    constructor
    case sources => rfl
    case contiguous => exact h
    case emptied => exact fun peer before => before.resolve_left not_mem_nil
    case known => exact fun entry none => absurd none not_mem_nil
    case gapless => exact fun entry none => absurd none not_mem_nil
  | cons peer peers ih =>
    have still : (set.drainBatch peer).1.Within bound := by
      refine PeerSet.drainBatch_forall ?_ within peer
      exact fun _ _ below => below
    have rest := ih (h.drainBatch peer) still
    have same := set.sources_drainBatch peer
    have first : ∀ entry ∈ ((set.drainBatch peer).2.map (peer, ·)).toList,
        entry.1 = peer ∧ entry.1 ∈ set.sources ∧ Gapless bound entry.2 := by
      intro entry hm
      obtain ⟨batch, drained, rfl⟩ := map_eq_some_iff.mp (mem_toList.mp hm)
      exact ⟨rfl, PeerSet.drainBatch_gapless h within drained⟩
    constructor
    case sources => exact rest.sources.trans same
    case contiguous => exact rest.contiguous
    case emptied =>
      intro other before
      refine rest.emptied other ?_
      rcases before with named | earlier
      · rcases mem_cons.mp named with rfl | later
        · exact .inr (set.drainBatch_emptied other)
        · exact .inl later
      · exact .inr (earlier.drainBatch peer)
    case known =>
      intro entry hm
      rcases mem_append.mp hm with this | later
      · obtain ⟨named, known, -⟩ := first entry this
        exact ⟨named ▸ mem_cons_self, known⟩
      · obtain ⟨named, known⟩ := rest.known entry later
        exact ⟨mem_cons_of_mem peer named, same ▸ known⟩
    case gapless =>
      intro entry hm
      rcases mem_append.mp hm with this | later
      · exact (first entry this).2.2
      · exact rest.gapless entry later

/-! ### Committing -/

namespace PeerSet

variable {through : Nat}

theorem commit_member (set : PeerSet Bytes) (source other : String) (through : Nat) :
    (set.commit source through).member other = (set.member other).map fun member =>
      if other = source then
        { member with frontier := max member.frontier through, draining := false }
      else member := by
  refine find?_modifyMember ?_ set.members
  exact fun _ => rfl

theorem sources_commit (set : PeerSet Bytes) (source : String) (through : Nat) :
    (set.commit source through).sources = set.sources := by
  refine modifyMember_sources ?_ set.members
  exact fun _ => rfl

theorem Emptied.commit {peer : String} (h : set.Emptied peer) (source : String) :
    (set.commit source through).Emptied peer := by
  intro member found
  rw [commit_member] at found
  obtain ⟨before, present, rfl⟩ := map_eq_some_iff.mp found
  split <;> exact h before present

theorem Contiguous.commit (h : Contiguous set) (empty : set.Emptied source)
    (through : Nat) : Contiguous (set.commit source through) := by
  refine modifyMember_forall ?_ h
  intro member found _
  rw [empty member found]
  rfl

theorem member_of_known (known : source ∈ set.sources) :
    ∃ member ∈ set.members, member.source = source ∧ set.member source = some member := by
  obtain ⟨named, present, rfl⟩ := List.mem_map.mp known
  have some_ : (set.member named.source).isSome :=
    find?_isSome.mpr ⟨named, present, by simp⟩
  obtain ⟨member, found⟩ := isSome_iff_exists.mp some_
  exact ⟨member, mem_of_find?_eq_some found, by simpa using find?_some found, found⟩

theorem commit_frontier (within : set.Within through) (known : source ∈ set.sources) :
    (set.commit source through).frontier source = some through := by
  obtain ⟨member, present, -, found⟩ := member_of_known known
  have below := within member present
  unfold frontier
  rw [commit_member, found]
  simp [below]

theorem commit_frontier_keep {peer : String} (h : set.frontier peer = some through)
    (source : String) : (set.commit source through).frontier peer = some through := by
  unfold frontier at h ⊢
  rw [commit_member]
  obtain ⟨member, found, rfl⟩ := map_eq_some_iff.mp h
  rw [found]
  simp only [map_some, Option.some.injEq]
  split
  · exact Nat.max_self _
  · rfl

theorem member_of_nodup (distinct : set.sources.Nodup) {member : Member Bytes}
    (hm : member ∈ set.members) : set.member member.source = some member := by
  obtain ⟨first, present, named, found⟩ := member_of_known (List.mem_map_of_mem hm)
  rw [found, inj_on_of_nodup_map distinct present hm named]

end PeerSet

structure PeerSet.Commits (through : Nat) (set : PeerSet Bytes)
    (drained : List (String × BufferedBatch Bytes)) (set' : PeerSet Bytes) : Prop where
  sources : set'.sources = set.sources
  contiguous : set'.Contiguous
  emptied : ∀ peer, set.Emptied peer → set'.Emptied peer
  frontier : ∀ peer, peer ∈ drained.map (·.1) ∨ set.frontier peer = some through →
    set'.frontier peer = some through

theorem commitAll_commits {through : Nat} (h : set.Contiguous)
    (within : set.Within through) {drained : List (String × BufferedBatch Bytes)}
    (empty : ∀ entry ∈ drained, set.Emptied entry.1)
    (known : ∀ entry ∈ drained, entry.1 ∈ set.sources) :
    PeerSet.Commits through set drained
      (drained.foldl (fun set (peer, _) => set.commit peer through) set) := by
  induction drained generalizing set with
  | nil =>
    constructor
    case sources => rfl
    case contiguous => exact h
    case emptied => exact fun peer before => before
    case frontier => exact fun peer before => before.resolve_left not_mem_nil
  | cons entry drained ih =>
    obtain ⟨this, later⟩ := forall_mem_cons.mp empty
    obtain ⟨here, others⟩ := forall_mem_cons.mp known
    have same := set.sources_commit entry.1 through
    have rest := ih (h.commit this through) (within.commit (Nat.le_refl _) entry.1)
      (fun entry' hm => (later entry' hm).commit entry.1)
      (fun entry' hm => same ▸ others entry' hm)
    constructor
    case sources => exact rest.sources.trans same
    case contiguous => exact rest.contiguous
    case emptied => exact fun peer before => rest.emptied peer (before.commit entry.1)
    case frontier =>
      intro peer before
      refine rest.frontier peer ?_
      rcases before with named | earlier
      · rcases mem_cons.mp named with rfl | rest
        · exact .inr (PeerSet.commit_frontier within here)
        · exact .inl rest
      · exact .inr (PeerSet.commit_frontier_keep earlier entry.1)

/-! ## Runs of rounds -/

theorem PeerSet.Contiguous.advance (hash : String → Nat → Nat) (h : set.Contiguous)
    (fetch : Fetch Bytes) (now : Duration) :
    (set.advance hash fetch now).1.Contiguous := by
  refine advance_forall ?_ hash fetch now h
  intro member member' settles follows
  obtain ⟨buffered, queue, continues⟩ := settles.queue
  rw [queue, settles.frontier]
  exact follows.append continues

theorem PeerSet.sources_fetched (hash : String → Nat → Nat) (set : PeerSet Bytes)
    (fetch : Fetch Bytes) (now : Duration) (committed : Option String) :
    ((set.bound committed).advance hash fetch now).1.sources = set.sources := by
  rw [sources_advance]
  unfold sources
  rw [bound_members]

theorem drainRound_drains (hash : String → Nat → Nat)
    (h : set.Contiguous) (within : set.Within bound)
    (fetch : Fetch Bytes) (now : Duration) (committed : Option String) :
    PeerSet.Drains bound ((set.bound committed).advance hash fetch now).1 set.sources
      (drainRound hash set fetch now committed).2 := by
  have contiguous : (set.bound committed).Contiguous := by
    unfold PeerSet.Contiguous
    rw [PeerSet.bound_members]
    exact h
  have below : (set.bound committed).Within bound := by
    unfold PeerSet.Within
    rw [PeerSet.bound_members]
    exact within
  have drains := drainAll_drains (contiguous.advance hash fetch now)
    (below.advance hash fetch now) ((set.bound committed).advance hash fetch now).1.sources
  rw [PeerSet.sources_fetched] at drains
  have drained : (drainRound hash set fetch now committed).2 =
      drainAll ((set.bound committed).advance hash fetch now).1 set.sources := by
    rw [← PeerSet.sources_fetched hash set fetch now committed]
    rfl
  rw [drained]
  exact drains

section

variable {σ E : Type} {apply : σ → ChangePage Bytes → σ × Except E Nat} {serialOf : σ → Nat}

/-- What every round of a recorded run starts from: the members are ready to
continue, and the calls so far lead to where the store stands. -/
structure PullReady (serialOf : σ → Nat) (start : Nat)
    (puller : Puller (σ × List (Call Bytes E)) Bytes) : Prop where
  contiguous : puller.set.Contiguous
  within : puller.set.Within (serialOf puller.store.1)
  chained : Chained start puller.store.2
  stands : standing start puller.store.2 = serialOf puller.store.1

structure PullSettled (set : PeerSet Bytes) (drained : List String) (serial : Nat)
    (set' : PeerSet Bytes) : Prop where
  sources : set'.sources = set.sources
  frontier : ∀ peer ∈ drained, set'.frontier peer = some serial
  emptied : ∀ peer ∈ set'.sources, set'.buffered peer = some 0

theorem PullSettled.queues_empty {set set' : PeerSet Bytes} {drained : List String} {serial : Nat}
    (h : PullSettled set drained serial set') (distinct : set.sources.Nodup) :
    ∀ member ∈ set'.members, member.channel.queue = [] := by
  intro member hm
  have found := PeerSet.member_of_nodup (h.sources ▸ distinct) hm
  have empty := h.emptied member.source (List.mem_map_of_mem hm)
  unfold PeerSet.buffered at empty
  rw [found] at empty
  exact length_eq_zero_iff.mp (Option.some.inj empty)

/-- **Step.** One round of a recorded run. -/
theorem Puller.round_ready (advances : Advances apply serialOf) (hash : String → Nat → Nat)
    {start : Nat} {puller : Puller (σ × List (Call Bytes E)) Bytes}
    (h : PullReady serialOf start puller) (input : PullInput Bytes) :
    let after := Machine.next (round (recording apply) (serialOf ·.1) hash) puller input
    PullReady serialOf start after ∧
      PullSettled puller.set (puller.drained hash input) (serialOf after.store.1) after.set := by
  intro after
  have parts := pullRound_parts (recording apply) hash puller.set input.fetch input.now
    (serialOf puller.store.1) input.committed puller.store
  have drains := drainRound_drains hash h.contiguous h.within input.fetch input.now input.committed
  have within := drainRound_within hash h.within input.fetch input.now input.committed
  unfold drained
  generalize drainRound hash puller.set input.fetch input.now input.committed = drained
    at parts drains within
  obtain ⟨report, set, batches⟩ := drained
  have known := puller.set.sources_fetched hash input.fetch input.now input.committed
  have serial := applyRound_serial (recording_advances advances) report batches puller.store
  have calls :
      let applied :=
        applyRound (recording apply) report batches (serialOf puller.store.1) puller.store
      Chained start applied.1.2 ∧ standing start applied.1.2 = serialOf applied.1.1 := by
    unfold applyRound
    split
    · refine applyBatches_chained advances ?_ h.chained h.stands
      intro batch hb
      obtain ⟨entry, hm, rfl⟩ := List.mem_map.mp hb
      exact drains.gapless entry hm
    · exact ⟨h.chained, h.stands⟩
  have is : after = _ := congrArg₂ Puller.mk parts.1 parts.2
  rw [is]
  generalize applyRound (recording apply) report batches (serialOf puller.store.1) puller.store =
    applied at serial calls
  obtain ⟨stands, forward⟩ := serial
  rw [stands]
  have commits := commitAll_commits drains.contiguous (within.mono forward)
    (fun entry hm => drains.emptied entry.1 (.inl (drains.known entry hm).1))
    (fun entry hm => drains.sources ▸ (drains.known entry hm).2)
  have sources := commits.sources.trans (drains.sources.trans known)
  refine ⟨?_, ?_⟩
  · constructor
    case contiguous => exact commits.contiguous
    case within => exact (within.mono forward).commitAll (Nat.le_refl _) batches
    case chained => exact calls.1
    case stands => exact calls.2
  · constructor
    case sources => exact sources
    case frontier => exact fun peer hm => commits.frontier peer (.inl hm)
    case emptied =>
      intro peer hm
      obtain ⟨member, -, -, found⟩ := PeerSet.member_of_known hm
      have empty := commits.emptied peer (drains.emptied peer (.inl (sources ▸ hm))) member found
      unfold PeerSet.buffered
      rw [found]
      exact congrArg (some ·.length) empty

/-- Over any run of rounds, each given the serial the store stands at, whatever
the transports answer: every page handed to `apply` starts where the calls
before it left off, so that pages that are applied whole apply every serial on
the way exactly once. After every round the drained peers' frontiers are the
serial reached, no frontier is beyond it, and nothing waits under any name: in a
set without two members of one name, in no channel. -/
theorem pull_rounds_chain (advances : Advances apply serialOf) (hash : String → Nat → Nat)
    (puller : Puller σ Bytes) (contiguous : puller.set.Contiguous)
    (behind : ∀ member ∈ puller.set.members, member.frontier ≤ serialOf puller.store)
    (before : List (PullInput Bytes)) (input : PullInput Bytes) :
    let last := Machine.exec (Puller.round apply serialOf hash) puller before
    let after := (last.round apply serialOf hash input).1
    let calls := puller.calls apply serialOf hash (before ++ [input])
    Chained (serialOf puller.store) calls ∧
    standing (serialOf puller.store) calls = serialOf after.store ∧
    ((∀ call ∈ calls, ∀ serial, call.2 = .ok serial →
        serial = call.1.after + call.1.changes.length) →
      appliedSerials calls = List.range' (serialOf puller.store + 1)
        (serialOf after.store - serialOf puller.store)) ∧
    (∀ peer ∈ last.drained hash input, after.set.frontier peer = some (serialOf after.store)) ∧
    (∀ member ∈ after.set.members, member.frontier ≤ serialOf after.store) ∧
    (∀ peer ∈ after.set.sources, after.set.buffered peer = some 0) ∧
    (puller.set.sources.Nodup → ∀ member ∈ after.set.members, member.channel.queue = []) := by
  intro last after calls
  let recorded : Puller (σ × List (Call Bytes E)) Bytes :=
    { set := puller.set, store := (puller.store, []) }
  let step := Puller.round (recording apply) (serialOf ·.1) hash
  have ready : PullReady serialOf (serialOf puller.store) recorded :=
    ⟨contiguous, behind, trivial, rfl⟩
  have invariant : PullReady serialOf (serialOf puller.store) (exec step recorded before) ∧
      (exec step recorded before).set.sources = puller.set.sources := by
    refine exec_invariant_always (I := fun p : Puller (σ × List (Call Bytes E)) Bytes =>
      PullReady serialOf (serialOf puller.store) p ∧ p.set.sources = puller.set.sources) step ?_
      recorded before ⟨ready, rfl⟩
    rintro p input ⟨h, same⟩
    obtain ⟨h', settled⟩ := Puller.round_ready advances hash h input
    exact ⟨h', settled.sources.trans same⟩
  obtain ⟨ready, same⟩ := Puller.round_ready advances hash invariant.1 input
  have forgotten : (exec step recorded before).forget = last :=
    exec_map step (Puller.round_recording hash) recorded before
  have here : (Machine.next step (exec step recorded before) input).forget = after := by
    rw [Puller.round_recording, forgotten]
    rfl
  have called : calls = (Machine.next step (exec step recorded before) input).store.2 := by
    show (exec step recorded (before ++ [input])).store.2 = _
    rw [exec_append]
    rfl
  rw [called, ← here, ← forgotten]
  refine ⟨ready.chained, ready.stands, ?_, same.frontier, ready.within, same.emptied, ?_⟩
  · intro whole
    have serials := (ready.chained.appliedSerials whole).2
    rw [ready.stands] at serials
    exact serials
  · intro distinct
    exact same.queues_empty (invariant.2 ▸ distinct)

end

open ReplicaLoop PlainBytes

def PlainBytes.bothServe : PullInput PlainBytes where
  now := 0
  committed := none
  fetch _ request := fetchFrom (fun _ => 100) "primary-a" follower request

def PlainBytes.freshPuller (peers : List String) : Puller (MetaStore PlainBytes) PlainBytes where
  set := (start limits policy {} peers).metadata
  store := {}

/-- The replica's own `apply`, two peers and one round: the second peer's pages
are skipped, and both stand at the serial reached. -/
theorem pull_rounds_chain_fresh :
    let after := ((freshPuller ["upstream", "follower"]).round (apply config)
      MetaStore.currentSerial config.hash bothServe).1
    after.store.currentSerial = 3 ∧
      (∀ member ∈ after.set.members, member.channel.queue = []) := by
  have contiguous : (freshPuller ["upstream", "follower"]).set.Contiguous := by
    have none : ({ limits, policy } : PeerSet PlainBytes).Contiguous :=
      fun member hm => absurd hm not_mem_nil
    exact (none.join "upstream" 0).join "follower" 0
  have advances : Advances (apply config) MetaStore.currentSerial := apply_advances
  have chain := pull_rounds_chain advances config.hash (freshPuller ["upstream", "follower"])
    contiguous (behind_start limits policy {} ["upstream", "follower"]) [] bothServe
  refine ⟨by decide +kernel, ?_⟩
  exact chain.2.2.2.2.2.2 (by decide +kernel)

/-- Two members of one name: the second is fetched, and what it sent is never
drained. -/
theorem second_upstream_stays_buffered :
    let after := ((freshPuller ["upstream", "upstream"]).round (apply config)
      MetaStore.currentSerial config.hash bothServe).1
    after.store.currentSerial = 3 ∧
      after.set.members.map (fun member => (member.source, member.frontier, member.channel.len)) =
        [("upstream", 3, 0), ("upstream", 0, 3)] := by
  decide +kernel

end Peryx
