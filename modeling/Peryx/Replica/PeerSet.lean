import Peryx.Replica.ApplyPage

/-!
# The peers a replica pulls from

`multi_peer.rs` and `multi_pull.rs`, with the bounded channel, the reconnect
policy and the contiguity check they rest on. A peer's answers are whatever its
transport returned: they come in as arguments, so nothing is assumed of them.

Durations are nanoseconds. The hash behind the jitter is a parameter.
-/

namespace Peryx

open List Peryx.Except

variable {Bytes : Type}

abbrev Duration := Nat

/-! ## Retry policy -/

namespace TransportError

/-- A stable machine token for an error no retry revises. -/
def terminalReason : TransportError → Option String
  | .disconnected | .timeout | .serverError .. | .atCapacity => none
  | .unauthenticated => some "unauthenticated"
  | .badStatus _ => some "bad_status"
  | .checkpointRequired => some "checkpoint_required"
  | .checkpointUnavailable => some "checkpoint_unavailable"
  | .malformed => some "malformed"
  | .frameTooLarge .. => some "frame_too_large"
  | .recordTooLarge .. => some "record_too_large"
  | .tooManyOperations .. => some "too_many_operations"
  | .sourceChanged .. => some "source_changed"
  | .frontierGap .. => some "frontier_gap"
  | .emptyBatch .. => some "empty_batch"

/-- Protocol violations an operator has to restore trust after. -/
def requiresExplicitRearm : TransportError → Bool
  | .sourceChanged .. | .frontierGap .. | .emptyBatch .. => true
  | _ => false

end TransportError

inductive Retry where
  | after (delay : Duration)
  | giveUp (reason : String)
deriving DecidableEq

def retryExhausted : String := "retry_exhausted"

structure ReconnectPolicy where
  base : Duration
  multiplier : ℕ+
  maxDelay : Duration
  maxAttempts : ℕ+

/-- The largest `std::time::Duration`. -/
def durationMax : Duration := (2 ^ 64 - 1) * 1000000000 + 999999999

namespace ReconnectPolicy

variable (policy : ReconnectPolicy)

/-- `base * multiplier^(attempt - 1)`, capped; an overflow is the cap too. -/
def delayFor (attempt : Nat) : Duration :=
  grow (attempt - 1) policy.base
where
  grow : Nat → Duration → Duration
    | 0, delay => min delay policy.maxDelay
    | steps + 1, delay =>
      if delay * policy.multiplier > durationMax then policy.maxDelay
      else grow steps (delay * policy.multiplier)

/-- Terminal errors fail closed on the first attempt. -/
def onError (error : TransportError) (attempt : Nat) : Retry :=
  match error.terminalReason with
  | some reason => .giveUp reason
  | none =>
    if attempt ≥ policy.maxAttempts then .giveUp retryExhausted
    else .after (policy.delayFor attempt)

def quarantineDelay : Duration :=
  policy.delayFor policy.maxAttempts

end ReconnectPolicy

def jitter (hash : String → Nat → Nat) (source : String) (attempt : Nat) (window : Duration) :
    Duration :=
  let span := min window (2 ^ 64 - 1)
  if span = 0 then 0 else hash source attempt % span

/-! ## Bounded backlog -/

/-- Changes waiting between fetch and apply, never more than the capacity. -/
structure BoundedChannel (Bytes : Type) where
  queue : List (Change Bytes)
  capacity : ℕ+
  fits : queue.length ≤ capacity

namespace BoundedChannel

def new (capacity : ℕ+) : BoundedChannel Bytes where
  queue := []
  capacity := capacity
  fits := Nat.zero_le _

def len (channel : BoundedChannel Bytes) : Nat :=
  channel.queue.length

def isFull (channel : BoundedChannel Bytes) : Bool :=
  channel.queue.length == channel.capacity

/-- `none` is `ChannelFull`. -/
def tryPush (channel : BoundedChannel Bytes) (change : Change Bytes) :
    Option (BoundedChannel Bytes) :=
  if room : channel.queue.length < channel.capacity then
    some
      { queue := channel.queue ++ [change]
        capacity := channel.capacity
        fits := by simpa using room }
  else
    none

/-- Queues leading changes up to the first rejection; returns how many, and
whether one was rejected. -/
def bufferBatch (channel : BoundedChannel Bytes) :
    List (Change Bytes) → BoundedChannel Bytes × Nat × Bool
  | [] => (channel, 0, false)
  | change :: changes =>
    match channel.tryPush change with
    | none => (channel, 0, true)
    | some channel =>
      let (channel, accepted, backPressure) := channel.bufferBatch changes
      (channel, accepted + 1, backPressure)

end BoundedChannel

structure BatchRequest where
  after : Nat
  maxOperations : ℕ+
deriving DecidableEq

/-- Requires the requested start, consecutive serials, and a nonempty page
while the advertised frontier is ahead. -/
def validateContiguous (start : Nat) (page : ChangePage Bytes) :
    Except TransportError (Nat × Bool) :=
  if page.after ≠ start then
    .error (.frontierGap start page.after)
  else if page.changes.isEmpty ∧ start < page.currentSerial then
    .error (.emptyBatch page.currentSerial start)
  else
    (walk start page.changes).map fun reached => (reached, page.currentSerial ≤ reached)
where
  walk : Nat → List (Change Bytes) → Except TransportError Nat
    | reached, [] => .ok reached
    | reached, change :: changes =>
      if change.serial ≠ reached + 1 then .error (.frontierGap (reached + 1) change.serial)
      else walk change.serial changes

/-! ## Members -/

structure SetLimits where
  maxConcurrent : ℕ+
  requestSize : ℕ+
  perPeerBudget : ℕ+
  jitter : Duration

inductive Health where
  | ready
  | backingOff (until_ : Duration)
  | quarantined (until_ : Duration) (reason : String)
  | retired (reason : String)
deriving DecidableEq

inductive MemberOutcome where
  | progressed (source : String) (buffered through : Nat) (caughtUp : Bool)
  | backPressured (source : String) (buffered through : Nat)
  | retryAfter (source : String) (delay : Duration)
  | quarantined (source : String) (reason : String) (delay : Duration)
  | gaveUp (source : String) (reason : String)
deriving DecidableEq

structure RetiredPeer where
  source : String
  reason : String
deriving DecidableEq

structure Member (Bytes : Type) where
  source : String
  frontier : Nat
  attempt : Nat := 0
  channel : BoundedChannel Bytes
  requestSize : ℕ+
  health : Health := .ready
  /-- Set between drain and commit, so that no fetch replays drained changes. -/
  draining : Bool := false

namespace Member

def nextSerial (member : Member Bytes) : Nat :=
  member.frontier + member.channel.len

def isDue (member : Member Bytes) (now : Duration) : Bool :=
  !member.channel.isFull && !member.draining &&
    match member.health with
    | .ready => true
    | .backingOff until_ | .quarantined until_ _ => until_ ≤ now
    | .retired _ => false

/-- A quarantined peer counts as retired here, whether or not it is due. -/
def retirement (member : Member Bytes) : Option RetiredPeer :=
  match member.health with
  | .quarantined _ reason | .retired reason => some ⟨member.source, reason⟩
  | .ready | .backingOff _ => none

end Member

structure RoundReport where
  outcomes : List MemberOutcome
  retired : List RetiredPeer
  fullyRetired : Bool
  incompatible : Option Nat

structure BufferedBatch (Bytes : Type) where
  source : String
  version : Nat
  changes : List (Change Bytes)

structure PeerSet (Bytes : Type) where
  members : List (Member Bytes) := []
  limits : SetLimits
  policy : ReconnectPolicy
  cursor : Nat := 0
  source : Option String := none
  head : Nat := 0

namespace PeerSet

variable (set : PeerSet Bytes)

/-- Resumes the peer from its durable frontier. -/
def join (source : String) (frontier : Nat) : PeerSet Bytes :=
  { set with
    members := set.members ++
      [{ source, frontier
         channel := .new set.limits.perPeerBudget
         requestSize := set.limits.requestSize }] }

def member (set : PeerSet Bytes) (source : String) : Option (Member Bytes) :=
  set.members.find? (·.source = source)

def frontier (set : PeerSet Bytes) (source : String) : Option Nat :=
  (set.member source).map (·.frontier)

def buffered (source : String) : Option Nat :=
  (set.member source).map (·.channel.len)

def sources : List String :=
  set.members.map (·.source)

/-- `member_mut` and an update: the first member of that name. -/
def modifyMember (source : String) (f : Member Bytes → Member Bytes) :
    List (Member Bytes) → List (Member Bytes)
  | [] => []
  | member :: members =>
    if member.source = source then f member :: members
    else member :: modifyMember source f members

def bindSource (source : String) : PeerSet Bytes :=
  if set.source.isNone then { set with source := some source } else set

def commit (source : String) (through : Nat) : PeerSet Bytes :=
  { set with
    members := modifyMember source (fun member =>
      { member with frontier := max member.frontier through, draining := false }) set.members }

/-- Re-arms a retired peer; a quarantined one is left as it is. -/
def rearm (source : String) : PeerSet Bytes × Bool :=
  match set.members.find? (·.source = source) with
  | none => (set, false)
  | some member =>
    match member.health with
    | .retired _ =>
      ({ set with
          members := modifyMember source (fun member =>
            { member with attempt := 0, health := .ready }) set.members }, true)
    | _ => (set, false)

/-- Returns buffered changes in serial order and suspends fetching until
`commit`. Changes are buffered only once the set has a source. -/
def drainBatch (source : String) :
    PeerSet Bytes × Option (BufferedBatch Bytes) :=
  match set.members.find? (·.source = source) with
  | none => (set, none)
  | some member =>
    let changes := member.channel.queue
    let set := { set with
      members := modifyMember source (fun member =>
        { member with channel := .new member.channel.capacity, draining := !changes.isEmpty })
        set.members }
    if changes.isEmpty then
      (set, none)
    else
      (set, some { source := set.source.getD "", version := protocolVersion, changes })

/-! ### One round -/

/-- Due peers in round-robin order, at most `maxConcurrent` of them. -/
def select (now : Duration) : PeerSet Bytes × List Nat :=
  let count := set.members.length
  let due := (List.range count).map (fun offset => (set.cursor + offset) % count) |>.filter
    fun index => (set.members[index]?.map (·.isDue now)).getD false
  let selected := due.take set.limits.maxConcurrent
  match selected.getLast? with
  | some last => ({ set with cursor := last + 1 }, selected)
  | none => (set, selected)

def setMember (index : Nat) (member : Member Bytes) : PeerSet Bytes :=
  { set with members := set.members.set index member }

def retire (set : PeerSet Bytes) (index : Nat) (member : Member Bytes) (reason : String) :
    PeerSet Bytes × MemberOutcome :=
  (set.setMember index { member with health := .retired reason }, .gaveUp member.source reason)

variable (hash : String → Nat → Nat)

/-- Halves this peer's next request, or nothing when it already asks for one. -/
def halveRequest (set : PeerSet Bytes) (index : Nat)
    (member : Member Bytes) (now : Duration) : Option (PeerSet Bytes × MemberOutcome) :=
  if half : 0 < member.requestSize.val / 2 then
    let delay := jitter hash member.source member.attempt set.limits.jitter
    some (set.setMember index
        { member with
          requestSize := ⟨member.requestSize.val / 2, half⟩
          health := .backingOff (now + delay) },
      .retryAfter member.source delay)
  else
    none

def backOff (set : PeerSet Bytes) (index : Nat)
    (member : Member Bytes) (error : TransportError) (now : Duration) :
    PeerSet Bytes × MemberOutcome :=
  -- `attempt` is a saturating `u32`
  let attempt := min (member.attempt + 1) (2 ^ 32 - 1)
  let spread := jitter hash member.source attempt set.limits.jitter
  match set.policy.onError error attempt with
  | .after base =>
    (set.setMember index { member with attempt, health := .backingOff (now + (base + spread)) },
      .retryAfter member.source (base + spread))
  | .giveUp reason =>
    -- every other terminal error, `checkpoint_required` included, is retried
    -- once the quarantine is over
    if error.requiresExplicitRearm then
      (set.setMember index { member with attempt, health := .retired reason },
        .gaveUp member.source reason)
    else
      let delay := set.policy.quarantineDelay + spread
      (set.setMember index { member with attempt, health := .quarantined (now + delay) reason },
        .quarantined member.source reason delay)

def accept (index : Nat) (member : Member Bytes) (page : ChangePage Bytes)
    (reached : Nat) (caughtUp : Bool) : PeerSet Bytes × MemberOutcome :=
  let (channel, accepted, backPressure) := member.channel.bufferBatch page.changes
  let outcome :=
    if backPressure then
      .backPressured member.source accepted (member.nextSerial + accepted)
    else
      .progressed member.source accepted reached caughtUp
  ({ set with
      source := some (set.source.getD page.source)
      head := max set.head page.currentSerial
      members := set.members.set index
        { member with
          attempt := 0
          health := .ready
          requestSize := set.limits.requestSize
          channel } }, outcome)

def settle (set : PeerSet Bytes) (index : Nat)
    (member : Member Bytes) (result : Except TransportError (ChangePage Bytes))
    (now : Duration) : PeerSet Bytes × MemberOutcome :=
  match result with
  | .error (.frameTooLarge limit actual) =>
    (set.halveRequest hash index member now).getD
      (set.backOff hash index member (.frameTooLarge limit actual) now)
  | .error error => set.backOff hash index member error now
  | .ok page =>
    if page.version ≠ protocolVersion then
      set.retire index member "unsupported_version"
    else if page.source.isEmpty then
      set.retire index member "source_changed"
    else
      match set.source.filter (· ≠ page.source) with
      | some source =>
        set.backOff hash index member (.sourceChanged source page.source) now
      | none =>
        match validateContiguous member.nextSerial page with
        | .error error => set.backOff hash index member error now
        | .ok (reached, caughtUp) => set.accept index member page reached caughtUp

def report (outcomes : List MemberOutcome) (incompatible : Option Nat) :
    RoundReport :=
  let retired := set.members.filterMap (·.retirement)
  { outcomes
    retired
    fullyRetired := !set.members.isEmpty && retired.length == set.members.length
    incompatible }

def settleAll (hash : String → Nat → Nat) (now : Duration) (set : PeerSet Bytes) :
    List (Nat × Except TransportError (ChangePage Bytes)) → PeerSet Bytes × List MemberOutcome
  | [] => (set, [])
  | (index, result) :: results =>
    match set.members[index]? with
    -- `select` only hands out members
    | none => settleAll hash now set results
    | some member =>
      let (set, outcome) := set.settle hash index member result now
      let (set, outcomes) := settleAll hash now set results
      (set, outcome :: outcomes)

/-- Fetches the due peers and settles what they answered. `fetch` is what each
member's transport returned to its request. -/
def advance (set : PeerSet Bytes)
    (fetch : Nat → BatchRequest → Except TransportError (ChangePage Bytes)) (now : Duration) :
    PeerSet Bytes × RoundReport :=
  let (set, selected) := set.select now
  let results := selected.filterMap fun index =>
    set.members[index]?.map fun member =>
      (index, fetch index { after := member.nextSerial, maxOperations := member.requestSize })
  let incompatible := results.findSome? fun (_, result) =>
    match result with
    | .ok page => if page.version ≠ protocolVersion then some page.version else none
    | .error _ => none
  let (set, outcomes) := set.settleAll hash now results
  (set, set.report outcomes incompatible)

end PeerSet

/-! ## A pull round -/

structure PullRound where
  serial : Nat
  applied : Nat
  caughtUp : Bool
  answered : Bool
  head : Nat
  incompatible : Option Nat
  retired : List RetiredPeer
  fullyRetired : Bool

def drainAll (set : PeerSet Bytes) :
    List String → PeerSet Bytes × List (String × BufferedBatch Bytes)
  | [] => (set, [])
  | peer :: peers =>
    let (set, batch) := set.drainBatch peer
    let (set, drained) := drainAll set peers
    (set, (batch.map (peer, ·)).toList ++ drained)

section

variable {σ E : Type} (apply : σ → ChangePage Bytes → σ × Except E Nat)

/-- Applies what is fresh of each batch until one fails. Returns the store, the
last committed serial, how many changes were applied, and the failure. -/
def applyBatches : σ → Nat → List (BufferedBatch Bytes) → σ × Nat × Nat × Option E
  | store, serial, [] => (store, serial, 0, none)
  | store, serial, batch :: batches =>
    -- two peers may have sent the same stretch: what is committed is skipped
    let fresh := batch.changes.filter (serial < ·.serial)
    match fresh.getLast? with
    | none => applyBatches store serial batches
    | some last =>
      match apply store
          { version := batch.version, source := batch.source, after := serial
            currentSerial := last.serial, changes := fresh } with
      | (store, .ok reached) =>
        let (store, serial, applied, failure) := applyBatches store reached batches
        (store, serial, fresh.length + applied, failure)
      | (store, .error error) => (store, serial, 0, some error)

/-- Applies pages from the current serial, then advances each drained peer to
the serial that was committed. -/
def pullRound (hash : String → Nat → Nat) (set : PeerSet Bytes)
    (fetch : Nat → BatchRequest → Except TransportError (ChangePage Bytes)) (now : Duration)
    (after : Nat) (committed : Option String) (store : σ) :
    PeerSet Bytes × σ × Except E PullRound :=
  let set := match committed with
    | some source => set.bindSource source
    | none => set
  let (set, report) := set.advance hash fetch now
  let answered := report.outcomes.any fun
    | .progressed .. | .backPressured .. => true
    | _ => false
  let caughtUp := answered && report.outcomes.all fun
    | .progressed _ _ _ caughtUp => caughtUp
    | _ => false
  let (set, drained) := drainAll set (set.members.map (·.source))
  -- an unsupported version must not reach `apply`; drained peers still reset below
  let (store, serial, applied, failure) :=
    if report.incompatible.isNone then applyBatches apply store after (drained.map (·.2))
    else (store, after, 0, none)
  let set := drained.foldl (fun set (peer, _) => set.commit peer serial) set
  match failure with
  | some error => (set, store, .error error)
  | none =>
    (set, store, .ok
      { serial, applied, caughtUp, answered, head := set.head
        incompatible := report.incompatible
        retired := report.retired
        fullyRetired := report.fullyRetired })

end

/-! ## What an answer does to a member -/

/-- Serials one after the other, from the one after `n`. -/
def Follows (n : Nat) (changes : List (Change Bytes)) : Prop :=
  changes.map (·.serial) = List.range' (n + 1) changes.length

theorem validateContiguous.walk_follows {start reached : Nat} {changes : List (Change Bytes)}
    (h : walk start changes = .ok reached) : Follows start changes := by
  induction changes generalizing start with
  | nil => rfl
  | cons change changes ih =>
    obtain ⟨next, rest⟩ := guard_eq_ok.mp h
    have serial : change.serial = start + 1 := not_not.mp next
    simp [Follows, range'_succ, serial, show changes.map (·.serial) = _ from ih rest]

theorem validateContiguous_follows {start : Nat} {page : ChangePage Bytes}
    {progress : Nat × Bool} (h : validateContiguous start page = .ok progress) :
    Follows start page.changes := by
  obtain ⟨-, h⟩ := guard_eq_ok.mp h
  obtain ⟨-, h⟩ := guard_eq_ok.mp h
  obtain ⟨reached, walked, -⟩ := map_eq_ok.mp h
  exact validateContiguous.walk_follows walked

theorem BoundedChannel.bufferBatch_queue (channel : BoundedChannel Bytes)
    (changes : List (Change Bytes)) :
    ∃ buffered, buffered <+: changes ∧
      (channel.bufferBatch changes).1.queue = channel.queue ++ buffered := by
  induction changes generalizing channel with
  | nil => exact ⟨[], nil_prefix, (List.append_nil _).symm⟩
  | cons change changes ih =>
    unfold bufferBatch
    cases pushed : channel.tryPush change with
    | none => exact ⟨[], nil_prefix, (List.append_nil _).symm⟩
    | some channel' =>
      have queued : channel'.queue = channel.queue ++ [change] := by
        unfold tryPush at pushed
        split at pushed
        · cases pushed
          rfl
        · cases pushed
      obtain ⟨buffered, first, queue⟩ := ih channel'
      refine ⟨change :: buffered, (prefix_cons_inj change).mpr first, ?_⟩
      show (channel'.bufferBatch changes).1.queue = _
      rw [queue, queued, append_assoc]
      rfl

theorem Follows.truncate {n : Nat} {first changes : List (Change Bytes)}
    (h : Follows n changes) (le : first <+: changes) : Follows n first := by
  have serials := prefix_iff_eq_take.mp (le.map (·.serial))
  rw [h, length_map, take_range'_of_length_ge le.length_le] at serials
  exact serials

/-- The same peer at the same frontier; what its channel gained continues what
it held. -/
structure Member.Settles (member member' : Member Bytes) : Prop where
  source : member'.source = member.source
  frontier : member'.frontier = member.frontier
  queue : ∃ buffered, member'.channel.queue = member.channel.queue ++ buffered ∧
    Follows member.nextSerial buffered

theorem Member.Settles.unmoved {member member' : Member Bytes}
    (source : member'.source = member.source) (frontier : member'.frontier = member.frontier)
    (channel : member'.channel = member.channel) : Member.Settles member member' :=
  ⟨source, frontier, [], by rw [channel, List.append_nil], rfl⟩

/-- What each member's transport returns to its request. -/
abbrev Fetch (Bytes : Type) := Nat → BatchRequest → Except TransportError (ChangePage Bytes)

namespace PeerSet

variable {set : PeerSet Bytes}

theorem backOff_members (hash : String → Nat → Nat) (set : PeerSet Bytes) (index : Nat)
    (member : Member Bytes) (error : TransportError) (now : Duration) :
    ∃ member', (set.backOff hash index member error now).1.members =
      set.members.set index member' ∧ Member.Settles member member' := by
  unfold backOff
  dsimp only
  split
  · exact ⟨_, rfl, .unmoved rfl rfl rfl⟩
  · split <;> exact ⟨_, rfl, .unmoved rfl rfl rfl⟩

theorem settle_members (hash : String → Nat → Nat) (set : PeerSet Bytes) (index : Nat)
    (member : Member Bytes) (result : Except TransportError (ChangePage Bytes)) (now : Duration) :
    ∃ member', (set.settle hash index member result now).1.members =
      set.members.set index member' ∧ Member.Settles member member' := by
  cases result with
  | error error =>
    cases error with
    | frameTooLarge limit actual =>
      simp only [settle, halveRequest]
      split
      · exact ⟨_, rfl, .unmoved rfl rfl rfl⟩
      · rw [Option.getD_none]
        exact backOff_members hash set index member _ now
    | _ => exact backOff_members hash set index member _ now
  | ok page =>
    simp only [settle]
    split
    · exact ⟨_, rfl, .unmoved rfl rfl rfl⟩
    split
    · exact ⟨_, rfl, .unmoved rfl rfl rfl⟩
    split
    · exact backOff_members hash set index member _ now
    split
    · exact backOff_members hash set index member _ now
    · -- an accepted page waits in the channel until it is drained and committed
      rename_i reached caughtUp valid
      obtain ⟨buffered, first, queue⟩ := member.channel.bufferBatch_queue page.changes
      exact ⟨_, rfl, rfl, rfl, buffered, queue,
        (validateContiguous_follows valid).truncate first⟩

section Forall

variable {P : Member Bytes → Prop}

variable {source : String} {f : Member Bytes → Member Bytes} {members : List (Member Bytes)}

theorem modifyMember_forall
    (keeps : ∀ member, members.find? (·.source = source) = some member →
      P member → P (f member))
    (h : ∀ member ∈ members, P member) :
    ∀ member ∈ modifyMember source f members, P member := by
  induction members with
  | nil => exact h
  | cons first members ih =>
    obtain ⟨head, tail⟩ := forall_mem_cons.mp h
    unfold modifyMember
    split
    · rename_i named
      exact forall_mem_cons.mpr
        ⟨keeps first (find?_cons_of_pos (by simpa using named)) head, tail⟩
    · rename_i other
      refine forall_mem_cons.mpr ⟨head, ih (fun member found => ?_) tail⟩
      exact keeps member ((find?_cons_of_neg (by simpa using other)).trans found)

/-- **Run.** What settling an answer keeps of a member, a whole round of
answers keeps of all of them. -/
theorem settleAll_forall
    (keeps : ∀ member member', Member.Settles member member' → P member → P member')
    (hash : String → Nat → Nat) (now : Duration)
    (results : List (Nat × Except TransportError (ChangePage Bytes)))
    (h : ∀ member ∈ set.members, P member) :
    ∀ member ∈ (set.settleAll hash now results).1.members, P member := by
  induction results generalizing set with
  | nil => exact h
  | cons first results ih =>
    unfold settleAll
    split
    · exact ih h
    · rename_i member present
      refine ih ?_
      obtain ⟨member', members, settles⟩ :=
        settle_members hash set first.1 member first.2 now
      rw [members]
      intro other hm
      rcases mem_or_eq_of_mem_set hm with old | rfl
      · exact h other old
      · exact keeps member _ settles (h member (mem_of_getElem? present))

@[simp] theorem select_members (set : PeerSet Bytes) (now : Duration) :
    (set.select now).1.members = set.members := by
  unfold select
  dsimp only
  split <;> rfl

theorem advance_forall
    (keeps : ∀ member member', Member.Settles member member' → P member → P member')
    (hash : String → Nat → Nat) (fetch : Fetch Bytes) (now : Duration)
    (h : ∀ member ∈ set.members, P member) :
    ∀ member ∈ (set.advance hash fetch now).1.members, P member := by
  have selected : ∀ member ∈ (set.select now).1.members, P member := by
    rw [select_members]
    exact h
  exact settleAll_forall keeps hash now _ selected

theorem modifyMember_of_absent
    (absent : members.find? (·.source = source) = none) :
    modifyMember source f members = members := by
  induction members with
  | nil => rfl
  | cons first members ih =>
    obtain ⟨other, rest⟩ := forall_mem_cons.mp (find?_eq_none.mp absent)
    unfold modifyMember
    rw [if_neg (by simpa using other), ih (find?_eq_none.mpr rest)]

theorem drainBatch_members (set : PeerSet Bytes) (source : String) :
    ∃ draining, (set.drainBatch source).1.members = modifyMember source (fun member =>
      { member with channel := .new member.channel.capacity, draining }) set.members := by
  unfold drainBatch
  split
  · rename_i absent
    exact ⟨false, (modifyMember_of_absent absent).symm⟩
  · dsimp only
    split <;> exact ⟨_, rfl⟩

theorem drainBatch_forall (keeps : ∀ member : Member Bytes, ∀ draining, P member →
      P { member with channel := .new member.channel.capacity, draining })
    (h : ∀ member ∈ set.members, P member) (source : String) :
    ∀ member ∈ (set.drainBatch source).1.members, P member := by
  obtain ⟨draining, members⟩ := drainBatch_members set source
  rw [members]
  exact modifyMember_forall (fun member _ => keeps member draining) h

end Forall

/-! ## Frontiers -/

/-- Every member's recorded frontier is at most `bound`. -/
def Within (bound : Nat) (set : PeerSet Bytes) : Prop :=
  ∀ member ∈ set.members, member.frontier ≤ bound

variable {bound : Nat}

section

variable (h : Within bound set)

include h

theorem Within.mono {bound' : Nat} (le : bound ≤ bound') :
    Within bound' set :=
  fun member hm => (h member hm).trans le

theorem Within.commit {through : Nat} (le : through ≤ bound)
    (source : String) : Within bound (set.commit source through) :=
  modifyMember_forall (fun _ _ within => Nat.max_le.mpr ⟨within, le⟩) h

theorem Within.commitAll {through : Nat} (le : through ≤ bound)
    (drained : List (String × BufferedBatch Bytes)) :
    Within bound (drained.foldl (fun set (peer, _) => set.commit peer through) set) := by
  induction drained generalizing set with
  | nil => exact h
  | cons first drained ih => exact ih (h.commit le first.1)

theorem Within.rearm (source : String) :
    Within bound (set.rearm source).1 := by
  unfold PeerSet.rearm
  split
  · exact h
  · split
    · refine modifyMember_forall ?_ h
      exact fun _ _ within => within
    · exact h

omit h in
theorem Within.drainAll (h : Within bound set) (peers : List String) :
    Within bound (drainAll set peers).1 := by
  induction peers generalizing set with
  | nil => exact h
  | cons peer peers ih =>
    refine ih (drainBatch_forall ?_ h peer)
    exact fun _ _ within => within

omit h in
theorem Within.advance (hash : String → Nat → Nat) (h : Within bound set)
    (fetch : Fetch Bytes) (now : Duration) :
    Within bound (set.advance hash fetch now).1 :=
  advance_forall (fun _ _ settles within => settles.frontier.le.trans within) hash fetch now h

theorem Within.join (source : String) :
    Within bound (set.join source bound) := by
  intro member hm
  rcases mem_append.mp hm with old | new
  · exact h member old
  · rw [mem_singleton.mp new]

end

end PeerSet

/-! ## Rounds -/

section

variable {σ E : Type} {apply : σ → ChangePage Bytes → σ × Except E Nat} {serialOf : σ → Nat}

/-- An `apply` that reports where it left the store: never behind where it
found it, and where it found it if it fails. -/
structure Advances (apply : σ → ChangePage Bytes → σ × Except E Nat) (serialOf : σ → Nat) :
    Prop where
  ok : ∀ store page store' reached, apply store page = (store', .ok reached) →
    serialOf store' = reached ∧ serialOf store ≤ reached
  error : ∀ store page store' error, apply store page = (store', .error error) →
    serialOf store' = serialOf store

theorem applyBatches_serial (advances : Advances apply serialOf)
    (batches : List (BufferedBatch Bytes)) (store : σ) :
    (applyBatches apply store (serialOf store) batches).2.1 =
        serialOf (applyBatches apply store (serialOf store) batches).1 ∧
      serialOf store ≤ serialOf (applyBatches apply store (serialOf store) batches).1 := by
  induction batches generalizing store with
  | nil => exact ⟨rfl, Nat.le_refl _⟩
  | cons batch batches ih =>
    unfold applyBatches
    dsimp only
    split
    · exact ih store
    · split
      · rename_i store' reached applied
        obtain ⟨standing, forward⟩ := advances.ok _ _ _ _ applied
        obtain ⟨same, further⟩ := ih store'
        rw [standing] at same further
        exact ⟨same, forward.trans further⟩
      · rename_i store' error applied
        have standing := advances.error _ _ _ _ applied
        exact ⟨standing.symm, standing.ge⟩

def PeerSet.bound (set : PeerSet Bytes) (committed : Option String) : PeerSet Bytes :=
  match committed with
  | some source => set.bindSource source
  | none => set

@[simp] theorem PeerSet.bound_members (set : PeerSet Bytes) (committed : Option String) :
    (set.bound committed).members = set.members := by
  cases committed with
  | none => rfl
  | some source =>
    unfold bound bindSource
    dsimp only
    split <;> rfl

def drainRound (hash : String → Nat → Nat) (set : PeerSet Bytes)
    (fetch : Nat → BatchRequest → Except TransportError (ChangePage Bytes)) (now : Duration)
    (committed : Option String) :
    RoundReport × PeerSet Bytes × List (String × BufferedBatch Bytes) :=
  let (set, report) := (set.bound committed).advance hash fetch now
  (report, drainAll set (set.members.map (·.source)))

/-- The second half: the drained batches, applied unless a peer was
incompatible. -/
def applyRound (apply : σ → ChangePage Bytes → σ × Except E Nat) (report : RoundReport)
    (drained : List (String × BufferedBatch Bytes)) (after : Nat) (store : σ) :
    σ × Nat × Nat × Option E :=
  if report.incompatible.isNone then applyBatches apply store after (drained.map (·.2))
  else (store, after, 0, none)

theorem pullRound_parts (apply : σ → ChangePage Bytes → σ × Except E Nat)
    (hash : String → Nat → Nat) (set : PeerSet Bytes) (fetch : Fetch Bytes) (now : Duration)
    (after : Nat) (committed : Option String) (store : σ) :
    let drained := drainRound hash set fetch now committed
    let applied := applyRound apply drained.1 drained.2.2 after store
    (pullRound apply hash set fetch now after committed store).1 =
        drained.2.2.foldl (fun set (peer, _) => set.commit peer applied.2.1) drained.2.1 ∧
      (pullRound apply hash set fetch now after committed store).2.1 = applied.1 := by
  unfold pullRound
  dsimp only
  split <;> exact ⟨rfl, rfl⟩

variable {set : PeerSet Bytes}

theorem drainRound_within (hash : String → Nat → Nat) {bound : Nat}
    (h : set.Within bound) (fetch : Fetch Bytes) (now : Duration) (committed : Option String) :
    (drainRound hash set fetch now committed).2.1.Within bound := by
  have bound : (set.bound committed).Within bound := by
    unfold PeerSet.Within
    rw [PeerSet.bound_members]
    exact h
  exact (bound.advance hash fetch now).drainAll _

theorem applyRound_serial (advances : Advances apply serialOf) (report : RoundReport)
    (drained : List (String × BufferedBatch Bytes)) (store : σ) :
    (applyRound apply report drained (serialOf store) store).2.1 =
        serialOf (applyRound apply report drained (serialOf store) store).1 ∧
      serialOf store ≤ serialOf (applyRound apply report drained (serialOf store) store).1 := by
  unfold applyRound
  split
  · exact applyBatches_serial advances _ store
  · exact ⟨rfl, Nat.le_refl _⟩

theorem pullRound_within (advances : Advances apply serialOf) (hash : String → Nat → Nat)
    {store : σ} (h : set.Within (serialOf store))
    (fetch : Fetch Bytes) (now : Duration) (committed : Option String) :
    (pullRound apply hash set fetch now (serialOf store) committed store).1.Within
        (serialOf (pullRound apply hash set fetch now (serialOf store) committed store).2.1) ∧
      serialOf store ≤
        serialOf (pullRound apply hash set fetch now (serialOf store) committed store).2.1 := by
  obtain ⟨members, moved⟩ :=
    pullRound_parts apply hash set fetch now (serialOf store) committed store
  have drained := drainRound_within hash h fetch now committed
  obtain ⟨standing, forward⟩ := applyRound_serial advances
    (drainRound hash set fetch now committed).1 (drainRound hash set fetch now committed).2.2 store
  rw [members, moved]
  -- what is committed to the members is where the store stands
  exact ⟨(drained.mono forward).commitAll standing.le _, forward⟩

end

end Peryx
