import Peryx.Availability.Analytics

/-!
# Analytics do not depend on the order of delivery

A receiver may meet the batches of its producers in any order and any number of
times, be reloaded from its snapshot anywhere, and compact what its frontier
covers, as long as nothing it releases is delivered again.

- `tracks_of_run`: what a receiver holds, from the steps alone.
- `analytics_of_distinct_batches`: totals, cursors and positions of a whole run.
-/

namespace Peryx

open BTreeMap List Std.ExtTreeMap Machine

/-! ## Saturating sums -/

variable (deltas : List AggregateDelta) {Bytes : Type}

/-- The sum of the deltas, each counter clamped once at the end. -/
def saturatingSum : AggregateDelta where
  downloads := min (deltas.map (·.downloads)).sum Nat.u64Max
  bytes := min (deltas.map (·.bytes)).sum Nat.u64Max

theorem saturatingSum_cons (delta : AggregateDelta) (deltas : List AggregateDelta) :
    saturatingSum (delta :: deltas) = (saturatingSum deltas).saturatingAdd delta := by
  ext <;>
  · simp only [saturatingSum, AggregateDelta.saturatingAdd, Nat.u64SaturatingAdd, map_cons,
      sum_cons]
    omega

theorem saturatingSum_perm {deltas deltas' : List AggregateDelta} (perm : deltas.Perm deltas') :
    saturatingSum deltas = saturatingSum deltas' := by
  unfold saturatingSum
  rw [(perm.map _).sum_eq, (perm.map _).sum_eq]

theorem saturatingSum_concat (delta : AggregateDelta) :
    saturatingSum (deltas ++ [delta]) = (saturatingSum deltas).saturatingAdd delta := by
  rw [saturatingSum_perm (perm_append_singleton delta deltas), saturatingSum_cons]

theorem foldl_saturatingAdd :
    deltas.foldl AggregateDelta.saturatingAdd {} = saturatingSum deltas := by
  induction deltas using reverseRecOn with
  | nil => rfl
  | append_singleton deltas delta ih =>
    rw [foldl_append, ih, saturatingSum_concat]
    rfl

theorem AggregateDelta.saturatingAdd_right_comm (a b c : AggregateDelta) :
    (a.saturatingAdd b).saturatingAdd c = (a.saturatingAdd c).saturatingAdd b := by
  ext <;>
  · simp only [saturatingAdd, Nat.u64SaturatingAdd]
    omega

theorem addDelta_right_comm (total : Option AggregateDelta) (a b : AggregateDelta) :
    addDelta (some (addDelta total a)) b = addDelta (some (addDelta total b)) a :=
  AggregateDelta.saturatingAdd_right_comm ..

def totalOf : Option AggregateDelta :=
  if deltas = [] then none else some (saturatingSum deltas)

theorem foldl_addDelta :
    deltas.foldl (fun total delta => some (addDelta total delta)) none = totalOf deltas := by
  induction deltas using reverseRecOn with
  | nil => rfl
  | append_singleton deltas delta ih =>
    rw [foldl_append, ih, totalOf, totalOf, if_neg (append_ne_nil_of_right_ne_nil _
      (cons_ne_nil _ _)), saturatingSum_concat]
    split
    · rename_i none
      rw [none]
      rfl
    · rfl

/-! ## Totals across producers -/

def deltasOf (entries : List (AcceptedKey × AggregateDelta)) (key : AggregateKey) :
    List AggregateDelta :=
  (entries.filter (·.1.dimension = key)).map (·.2)

theorem deltasOf_cons (entry : AcceptedKey × AggregateDelta)
    (entries : List (AcceptedKey × AggregateDelta)) (key : AggregateKey) :
    deltasOf (entry :: entries) key =
      if entry.1.dimension = key then entry.2 :: deltasOf entries key
      else deltasOf entries key := by
  unfold deltasOf
  by_cases same : entry.1.dimension = key
  · rw [if_pos same, filter_cons_of_pos (by simpa using same), map_cons]
  · rw [if_neg same, filter_cons_of_neg (by simpa using same)]

theorem ApplyState.total_eq (state : ApplyState) (key : AggregateKey) :
    state.total key = saturatingSum (deltasOf state.totals.toList key) := by
  rw [total, deltasOf, ← foldl_saturatingAdd, foldl_map]

theorem sum_absorb (totals : BTreeMap AcceptedKey AggregateDelta)
    (entry : AcceptedKey × AggregateDelta) (key : AggregateKey) :
    saturatingSum (deltasOf (absorb addDelta totals entry).toList key) =
      saturatingSum (deltasOf (entry :: totals.toList) key) := by
  have deltas_perm : ∀ {a b : List (AcceptedKey × AggregateDelta)}, a.Perm b →
      saturatingSum (deltasOf a key) = saturatingSum (deltasOf b key) :=
    fun perm => saturatingSum_perm ((perm.filter _).map _)
  obtain ⟨accepted, delta⟩ := entry
  rw [absorb, deltas_perm (toList_insert_perm totals accepted _), deltasOf_cons, deltasOf_cons]
  cases found : totals[accepted]? with
  | none =>
    rw [erase_of_absent found]
    split
    · rw [saturatingSum_cons, saturatingSum_cons]
      ext <;> simp [addDelta, AggregateDelta.saturatingAdd, Nat.u64SaturatingAdd] <;> omega
    · rfl
  | some total =>
    split
    · rename_i same
      rw [saturatingSum_cons, saturatingSum_cons, deltas_perm (toList_erase_perm found),
        deltasOf_cons, if_pos same, saturatingSum_cons]
      ext <;> simp [addDelta, AggregateDelta.saturatingAdd, Nat.u64SaturatingAdd] <;> omega
    · rename_i differs
      rw [deltas_perm (toList_erase_perm found), deltasOf_cons, if_neg differs]

theorem sum_foldl_absorb (entries : List (AcceptedKey × AggregateDelta)) (key : AggregateKey) :
    saturatingSum (deltasOf (entries.foldl (absorb addDelta) ∅).toList key) =
      saturatingSum (deltasOf entries key) := by
  induction entries using reverseRecOn with
  | nil => rfl
  | append_singleton entries entry ih =>
    rw [foldl_append, foldl_cons, foldl_nil, sum_absorb, deltasOf_cons]
    rw [show deltasOf (entries ++ [entry]) key = deltasOf entries key ++ deltasOf [entry] key by
      simp only [deltasOf, filter_append, map_append], deltasOf_cons]
    split
    · rw [saturatingSum_cons, ih]
      exact (saturatingSum_concat _ _).symm
    · rw [ih]
      exact congrArg saturatingSum (List.append_nil _).symm

/-! ## What a frontier covers -/

def FrontierAck.Covers (ack : FrontierAck) (interval : IntervalId) : Prop :=
  ack.producer = interval.producer ∧ ack.epoch = interval.epoch ∧
    interval.sequence ≤ ack.sequence

namespace Frontier

theorem find_acknowledge (frontier : Frontier) (ack : FrontierAck) (producer : ProducerId)
    (epoch : AuthorityEpoch) :
    (frontier.acknowledge ack).find producer epoch =
      if ack.producer = producer ∧ ack.epoch = epoch then
        some (max ((frontier.find producer epoch).getD 0) ack.sequence)
      else frontier.find producer epoch := by
  unfold find acknowledge
  rw [get_insert]
  by_cases here : ack.producer = producer
  · rw [if_pos here, here, Option.bind_some, get_insert]
    have epochs : (frontier.acknowledged.getD producer ∅)[epoch]? =
        frontier.acknowledged[producer]?.bind (·[epoch]?) := by
      rw [getD_eq_getD_getElem?]
      cases frontier.acknowledged[producer]? with
      | none => exact get_empty epoch
      | some epochs => rfl
    by_cases same : ack.epoch = epoch
    · rw [if_pos same, if_pos ⟨rfl, same⟩, same, getD_eq_getD_getElem?, epochs]
    · rw [if_neg same, if_neg fun both => same both.2, epochs]
  · rw [if_neg here, if_neg fun both => here both.1]

theorem covers_iff {frontier : Frontier} {interval : IntervalId} :
    frontier.covers interval = true ↔
      ∃ sequence, frontier.find interval.producer interval.epoch = some sequence ∧
        interval.sequence ≤ sequence := by
  rw [covers, Option.any_eq_true]
  simp only [decide_eq_true_eq]

theorem covers_acknowledge (frontier : Frontier) (ack : FrontierAck) (interval : IntervalId) :
    (frontier.acknowledge ack).covers interval = true ↔
      frontier.covers interval = true ∨ ack.Covers interval := by
  rw [covers_iff, covers_iff, find_acknowledge]
  by_cases here : ack.producer = interval.producer ∧ ack.epoch = interval.epoch
  · cases found : frontier.find interval.producer interval.epoch with
    | none => simp [FrontierAck.Covers, here]
    | some sequence => simp [FrontierAck.Covers, here]
  · rw [if_neg here]
    have elsewhere : ¬ ack.Covers interval := fun covers => here ⟨covers.1, covers.2.1⟩
    exact (or_iff_left elsewhere).symm

theorem covers_foldl (acks : List FrontierAck) (frontier : Frontier) (interval : IntervalId) :
    (acks.foldl acknowledge frontier).covers interval = true ↔
      frontier.covers interval = true ∨ ∃ ack ∈ acks, ack.Covers interval := by
  induction acks generalizing frontier with
  | nil => simp
  | cons ack acks ih =>
    rw [foldl_cons, ih, covers_acknowledge, or_assoc]
    simp only [mem_cons, exists_eq_or_imp]

theorem mem_acknowledgements {frontier : Frontier} {ack : FrontierAck} :
    ack ∈ frontier.acknowledgements ↔ frontier.find ack.producer ack.epoch = some ack.sequence := by
  unfold acknowledgements find
  simp only [mem_flatMap, List.mem_map, Prod.exists, Option.bind_eq_some_iff,
    mem_toList_iff_getElem?_eq_some]
  constructor
  · rintro ⟨producer, epochs, found, epoch, sequence, held, rfl⟩
    exact ⟨epochs, found, held⟩
  · rintro ⟨epochs, found, held⟩
    exact ⟨ack.producer, epochs, found, ack.epoch, ack.sequence, held, rfl⟩

theorem covers_restore (frontier : Frontier) (interval : IntervalId) :
    (frontier.acknowledgements.foldl acknowledge {}).covers interval =
      frontier.covers interval := by
  rw [Bool.eq_iff_iff, covers_foldl]
  constructor
  · rintro (empty | ⟨ack, mem, producer, epoch, le⟩)
    · simp [covers, find] at empty
    · rw [mem_acknowledgements, producer, epoch] at mem
      exact covers_iff.mpr ⟨ack.sequence, mem, le⟩
  · intro covers
    obtain ⟨sequence, found, le⟩ := covers_iff.mp covers
    refine .inr ⟨⟨interval.producer, interval.epoch, sequence⟩, ?_, rfl, rfl, le⟩
    exact mem_acknowledgements.mpr found

end Frontier

/-! ## Reloading -/

section Reload

variable (json : AnalyticsJson Bytes)

theorem ApplyState.restore_encode (state : ApplyState) :
    restore json (state.encode json) state.limits = .ok state := by
  unfold restore encode
  rw [json.state.decode_encode]
  dsimp only
  rw [if_neg (not_not.mpr rfl), List.map_map]
  have totals : (fun (row : AcceptedSnapshotRow) => ((⟨row.producer, row.key⟩ : AcceptedKey),
      row.delta)) ∘ (fun (entry : AcceptedKey × AggregateDelta) =>
        { producer := entry.1.producer, key := entry.1.dimension, delta := entry.2 }) = id := rfl
  rw [totals, List.map_id, foldl_insert_toList, BTreeSet.foldl_insert_toList]

theorem AnalyticsReceiver.restore_encode (receiver : AnalyticsReceiver) :
    restore json (receiver.encode json) receiver.state.limits = .ok { receiver with
        frontier := receiver.frontier.acknowledgements.foldl Frontier.acknowledge {} } := by
  unfold restore encode
  rw [json.receiver.decode_encode]
  dsimp only
  rw [if_neg (not_not.mpr rfl), ApplyState.restore_encode, List.map_map]
  have accepted : (fun (ack : FrontierAck) => (ack.producer, ack.epoch, ack.sequence)) ∘
      (fun (entry : ProducerId × AuthorityEpoch × Nat) =>
        { producer := entry.1, epoch := entry.2.1, sequence := entry.2.2 }) = id := rfl
  rw [accepted, List.map_id, Except.map, foldl_insert_toList, foldl_insert_toList]

end Reload

/-! ## The run -/

variable (steps : List ReceiverStep)

def deliveries : List AnalyticsBatch :=
  steps.filterMap fun
    | .deliver batch => some batch
    | _ => none

/-- A compaction of the run came after an acknowledgement that covers the
interval. -/
def Released (interval : IntervalId) : Prop :=
  ∃ before after ack, steps = before ++ .compact :: after ∧ .acknowledge ack ∈ before ∧
    ack.Covers interval

/-- Nothing that was released is delivered again. -/
def Retires : Prop :=
  ∀ before batch after, steps = before ++ .deliver batch :: after →
    ¬ Released before batch.interval

theorem deliveries_append (steps steps' : List ReceiverStep) :
    deliveries (steps ++ steps') = deliveries steps ++ deliveries steps' :=
  filterMap_append

def taken : List AnalyticsBatch :=
  firsts (·.interval) (deliveries steps)

theorem taken_quiet {step : ReceiverStep}
    (quiet : deliveries [step] = []) : taken (steps ++ [step]) = taken steps := by
  rw [taken, deliveries_append, quiet, List.append_nil, taken]

theorem taken_deliver (batch : AnalyticsBatch) :
    taken (steps ++ [.deliver batch]) =
      if batch.interval ∈ (taken steps).map (·.interval) then taken steps
      else taken steps ++ [batch] := by
  rw [taken, deliveries_append]
  exact firsts_concat _ _ _

theorem Retires.before {steps steps' : List ReceiverStep} (retires : Retires (steps ++ steps')) :
    Retires steps := by
  rintro before batch after rfl
  exact retires before batch (after ++ steps') (append_assoc _ _ _)

theorem released_concat {steps : List ReceiverStep} {step : ReceiverStep} {interval : IntervalId} :
    Released (steps ++ [step]) interval ↔ Released steps interval ∨
      step = .compact ∧ ∃ ack, .acknowledge ack ∈ steps ∧ ack.Covers interval := by
  constructor
  · rintro ⟨before, after, ack, split, mem, covers⟩
    obtain rfl | ⟨after, last, rfl⟩ := after.eq_nil_or_concat
    · obtain ⟨rfl, last⟩ := append_inj' split rfl
      exact .inr ⟨singleton_inj.mp last, ack, mem, covers⟩
    · rw [concat_eq_append, ← cons_append, ← append_assoc] at split
      obtain ⟨rfl, -⟩ := append_inj' split rfl
      exact .inl ⟨before, after, ack, rfl, mem, covers⟩
  · rintro (⟨before, after, ack, rfl, mem, covers⟩ | ⟨rfl, ack, mem, covers⟩)
    · exact ⟨before, after ++ [step], ack, append_assoc _ _ _, mem, covers⟩
    · exact ⟨steps, [], ack, rfl, mem, covers⟩

def totalsFrom (batches : List AnalyticsBatch) : BTreeMap AcceptedKey AggregateDelta :=
  (batches.flatMap AnalyticsBatch.entries).foldl (absorb addDelta) ∅

def cursorsFrom (intervals : List IntervalId) : BTreeMap ProducerId Int64 :=
  (intervals.map fun interval => (interval.producer, interval.day)).foldl (absorb advanceCursor) ∅

def acceptedFrom (intervals : List IntervalId) : BTreeMap ProducerId (AuthorityEpoch × Nat) :=
  (intervals.map fun interval => (interval.producer, interval.epoch, interval.sequence)).foldl
    (absorb advancePosition) ∅

/-- What the receiver holds after the steps: everything the first batch of each
interval brought, and of the intervals those that were not released. -/
structure Tracks (steps : List ReceiverStep) (receiver : AnalyticsReceiver) : Prop where
  totals : receiver.state.totals = totalsFrom (taken steps)
  cursors : receiver.cursors = cursorsFrom ((taken steps).map (·.interval))
  accepted : receiver.accepted = acceptedFrom ((taken steps).map (·.interval))
  applied : ∀ interval, interval ∈ receiver.state.applied ↔
    interval ∈ (taken steps).map (·.interval) ∧ ¬ Released steps interval
  frontier : ∀ interval, receiver.frontier.covers interval = true ↔
    ∃ ack, .acknowledge ack ∈ steps ∧ ack.Covers interval

def AnalyticsReceiver.taking (receiver : AnalyticsReceiver) (batch : AnalyticsBatch) :
    AnalyticsReceiver :=
  { receiver with
    state := { receiver.state with
      totals := batch.entries.foldl (absorb addDelta) receiver.state.totals
      applied := receiver.state.applied.insert batch.interval }
    cursors := absorb advanceCursor receiver.cursors (batch.interval.producer, batch.interval.day)
    accepted := absorb advancePosition receiver.accepted
      (batch.interval.producer, batch.interval.epoch, batch.interval.sequence) }

theorem AnalyticsReceiver.apply_eq_ok {receiver receiver' : AnalyticsReceiver}
    {batch : AnalyticsBatch} {outcome : ApplyOutcome}
    (applied : receiver.apply batch = .ok (receiver', outcome)) :
    receiver' = if batch.interval ∈ receiver.state.applied then receiver
      else receiver.taking batch := by
  unfold apply at applied
  fun_cases ApplyState.apply receiver.state batch with
  | case1 large =>
    rw [ApplyState.apply, if_pos large] at applied
    cases applied
  | case2 fits known =>
    rw [ApplyState.apply, if_neg fits, if_pos known] at applied
    cases applied
    rw [if_pos known]
  | case3 fits new full =>
    rw [ApplyState.apply, if_neg fits, if_neg new, if_pos full] at applied
    cases applied
  | case4 fits new room =>
    rw [ApplyState.apply, if_neg fits, if_neg new, if_neg room] at applied
    cases applied
    rw [if_neg new]
    rfl

namespace Tracks

variable {steps : List ReceiverStep} {receiver : AnalyticsReceiver}

theorem deliver (tracks : Tracks steps receiver) {batch : AnalyticsBatch}
    (kept : ¬ Released steps batch.interval) {receiver' : AnalyticsReceiver}
    {outcome : ApplyOutcome} (applied : receiver.apply batch = .ok (receiver', outcome)) :
    Tracks (steps ++ [.deliver batch]) receiver' := by
  have known_iff : batch.interval ∈ receiver.state.applied ↔
      batch.interval ∈ (taken steps).map (·.interval) := by
    rw [tracks.applied]
    exact and_iff_left kept
  have released : ∀ interval,
      Released (steps ++ [.deliver batch]) interval ↔ Released steps interval := by
    intro interval
    rw [released_concat]
    exact or_iff_left fun last => nomatch last.1
  have acknowledged : ∀ interval, receiver.frontier.covers interval = true ↔
      ∃ ack, .acknowledge ack ∈ steps ++ [.deliver batch] ∧ ack.Covers interval := by
    simpa using tracks.frontier
  cases AnalyticsReceiver.apply_eq_ok applied
  split
  · rename_i known
    have same : taken (steps ++ [.deliver batch]) = taken steps := by
      rw [taken_deliver, if_pos (known_iff.mp known)]
    refine ⟨same ▸ tracks.totals, same ▸ tracks.cursors, same ▸ tracks.accepted, ?_, acknowledged⟩
    intro interval
    rw [tracks.applied, released, same]
  · rename_i new
    have grown : taken (steps ++ [.deliver batch]) = taken steps ++ [batch] := by
      rw [taken_deliver, if_neg (known_iff.not.mp new)]
    constructor
    case totals =>
      rw [grown, totalsFrom, flatMap_append, foldl_append, flatMap_singleton]
      exact congrArg (fun totals => batch.entries.foldl (absorb addDelta) totals) tracks.totals
    case cursors =>
      rw [grown, map_append, cursorsFrom, map_append, foldl_append]
      exact congrArg (absorb advanceCursor · _) tracks.cursors
    case accepted =>
      rw [grown, map_append, acceptedFrom, map_append, foldl_append]
      exact congrArg (absorb advancePosition · _) tracks.accepted
    case applied =>
      intro interval
      rw [released, grown, map_append, mem_append, map_singleton, mem_singleton]
      refine BTreeSet.mem_insert.trans ?_
      rw [tracks.applied]
      by_cases same : batch.interval = interval
      · subst same
        exact ⟨fun _ => ⟨.inr rfl, kept⟩, fun _ => .inl rfl⟩
      · rw [or_iff_right same, or_iff_left (Ne.symm same)]
    case frontier => exact acknowledged

/-- A step that brings nothing and releases nothing. -/
theorem quiet (tracks : Tracks steps receiver) (step : ReceiverStep)
    (brings : deliveries [step] = []) (stays : step ≠ .compact) {frontier : Frontier}
    (acknowledged : ∀ interval, frontier.covers interval = true ↔
      ∃ ack, .acknowledge ack ∈ steps ++ [step] ∧ ack.Covers interval) :
    Tracks (steps ++ [step]) { receiver with frontier } := by
  have same := taken_quiet steps brings
  refine ⟨same ▸ tracks.totals, same ▸ tracks.cursors, same ▸ tracks.accepted, ?_, acknowledged⟩
  intro interval
  rw [released_concat, or_iff_left (stays ·.1), same]
  exact tracks.applied interval

theorem acknowledge (tracks : Tracks steps receiver) (ack : FrontierAck) :
    Tracks (steps ++ [.acknowledge ack]) (receiver.acknowledge ack) := by
  refine tracks.quiet (.acknowledge ack) rfl nofun fun interval => ?_
  rw [Frontier.covers_acknowledge, tracks.frontier]
  simp [or_and_right, exists_or]

theorem compact (tracks : Tracks steps receiver) :
    Tracks (steps ++ [.compact]) receiver.compact := by
  have same : taken (steps ++ [.compact]) = taken steps := taken_quiet steps rfl
  refine ⟨same ▸ tracks.totals, same ▸ tracks.cursors, same ▸ tracks.accepted, ?_, ?_⟩
  · intro interval
    rw [released_concat, same, ← tracks.frontier, not_or, ← and_assoc, ← tracks.applied]
    simp [AnalyticsReceiver.compact, ApplyState.compact]
  · simpa [AnalyticsReceiver.compact] using tracks.frontier

theorem reload {Bytes : Type} (json : AnalyticsJson Bytes) (tracks : Tracks steps receiver) :
    Tracks (steps ++ [.reload]) (Machine.next (AnalyticsReceiver.step json) receiver .reload) := by
  unfold Machine.next AnalyticsReceiver.step
  rw [AnalyticsReceiver.restore_encode]
  refine tracks.quiet .reload rfl nofun fun interval => ?_
  rw [Frontier.covers_restore]
  simpa using tracks.frontier interval

end Tracks

theorem tracks_new (limits : ApplyLimits) : Tracks [] (.new limits) := by
  refine ⟨rfl, rfl, rfl, fun interval => ?_, fun interval => ?_⟩
  · simp [AnalyticsReceiver.new, ApplyState.new, taken, deliveries, firsts]
  · simp [AnalyticsReceiver.new, Frontier.covers, Frontier.find]

section Runs

variable {json : AnalyticsJson Bytes} {limits : ApplyLimits}
  {steps steps' : List ReceiverStep}

/-- There is room for a batch after the steps: it has no more rows than a batch may
have and, if its interval is new, fewer distinct intervals than may be retained
were delivered and not released. -/
def Fits (limits : ApplyLimits) (steps : List ReceiverStep) (batch : AnalyticsBatch) : Prop :=
  batch.rows.length ≤ limits.maxRowsPerBatch ∧
    (batch.interval ∉ (deliveries steps).map (·.interval) →
      ∀ retained : List IntervalId, retained.Nodup →
        (∀ interval ∈ retained,
          interval ∈ (deliveries steps).map (·.interval) ∧ ¬ Released steps interval) →
        retained.length < limits.maxRetainedIntervals)

/-- No batch that is delivered meets a bound. -/
def Unlimited (limits : ApplyLimits) (steps : List ReceiverStep) : Prop :=
  ∀ before batch after, steps = before ++ .deliver batch :: after → Fits limits before batch

theorem Unlimited.before (unlimited : Unlimited limits (steps ++ steps')) :
    Unlimited limits steps := by
  rintro before batch after rfl
  exact unlimited before batch (after ++ steps') (append_assoc _ _ _)

/-- A receiver accepts a batch that there is room for. -/
theorem Tracks.accepts {receiver : AnalyticsReceiver} (tracks : Tracks steps receiver)
    {batch : AnalyticsBatch} (kept : ¬ Released steps batch.interval)
    (fits : Fits receiver.state.limits steps batch) :
    ∃ result, receiver.apply batch = .ok result := by
  unfold AnalyticsReceiver.apply
  fun_cases ApplyState.apply receiver.state batch with
  | case1 large => exact absurd fits.1 (Nat.not_le.mpr large)
  | case2 => exact ⟨_, rfl⟩
  | case3 _ new full =>
    rw [tracks.applied, taken, mem_names_firsts] at new
    have once : receiver.state.applied.toList.Nodup := by
      refine Std.ExtTreeSet.distinct_toList.imp ?_
      rintro a _ differ rfl
      exact differ Std.ReflCmp.compare_self
    refine absurd (fits.2 (fun known => new ⟨known, kept⟩) _ once fun interval mem => ?_)
      (Nat.not_lt.mpr ?_)
    · rw [Std.ExtTreeSet.mem_toList, tracks.applied, taken, mem_names_firsts] at mem
      exact mem
    · rwa [Std.ExtTreeSet.length_toList]
  | case4 => exact ⟨_, rfl⟩

theorem Tracks.step {receiver : AnalyticsReceiver} (tracks : Tracks steps receiver)
    {step : ReceiverStep} (retires : Retires (steps ++ [step]))
    (unlimited : Unlimited receiver.state.limits (steps ++ [step])) :
    Tracks (steps ++ [step]) (Machine.next (AnalyticsReceiver.step json) receiver step) := by
  cases step with
  | acknowledge ack => exact tracks.acknowledge ack
  | compact => exact tracks.compact
  | reload => exact tracks.reload json
  | deliver batch =>
    have kept := retires steps batch [] rfl
    obtain ⟨result, applied⟩ := tracks.accepts kept (unlimited steps batch [] rfl)
    unfold Machine.next AnalyticsReceiver.step
    dsimp only
    rw [applied]
    exact tracks.deliver kept applied

theorem limits_step (receiver : AnalyticsReceiver) (step : ReceiverStep) :
    (Machine.next (AnalyticsReceiver.step json) receiver step).state.limits =
      receiver.state.limits := by
  unfold Machine.next AnalyticsReceiver.step
  cases step with
  | acknowledge ack => rfl
  | compact => rfl
  | reload =>
    rw [AnalyticsReceiver.restore_encode]
  | deliver batch =>
    dsimp only
    split
    · next applied =>
      rw [AnalyticsReceiver.apply_eq_ok applied]
      split <;> rfl
    · rfl

theorem limits_run (json : AnalyticsJson Bytes) (limits : ApplyLimits)
    (steps : List ReceiverStep) :
    (Machine.exec (AnalyticsReceiver.step json) (.new limits) steps).state.limits = limits :=
  exec_invariant_always (I := fun receiver => receiver.state.limits = limits) _
    (fun receiver step is => (limits_step receiver step).trans is) _ steps rfl

theorem tracks_of_run (json : AnalyticsJson Bytes) (retires : Retires steps)
    (unlimited : Unlimited limits steps) :
    Tracks steps (Machine.exec (AnalyticsReceiver.step json) (.new limits) steps) := by
  induction steps using reverseRecOn with
  | nil => exact tracks_new limits
  | append_singleton steps step ih =>
    rw [exec_append]
    refine (ih retires.before unlimited.before).step retires ?_
    rwa [limits_run]

theorem advanceCursor_right_comm (cursor : Option Int64) (a b : Int64) :
    advanceCursor (some (advanceCursor cursor a)) b =
      advanceCursor (some (advanceCursor cursor b)) a :=
  Int64.max_right_comm _ _ _

theorem advancePosition_right_comm (accepted : Option (AuthorityEpoch × Nat))
    (a b : AuthorityEpoch × Nat) :
    advancePosition (some (advancePosition accepted a)) b =
      advancePosition (some (advancePosition accepted b)) a := by
  cases accepted <;> unfold advancePosition maxPosition <;> grind

/-- The batches of producers reach a receiver in any order, any number of times,
with reloads anywhere and compactions that release nothing delivered later, and
no bound is met. The totals are the saturating sums over the first batch of each
interval; the intervals it knows are those delivered and not released; cursors
and accepted positions depend only on which intervals were delivered, and so do
totals where an interval names one batch. A refused batch changes nothing, and a
snapshot always reads back. -/
theorem analytics_of_distinct_batches (json : AnalyticsJson Bytes) (limits : ApplyLimits)
    (steps : List ReceiverStep) (retires : Retires steps)
    (unlimited : Unlimited limits steps) :
    let ends := Machine.exec (AnalyticsReceiver.step json) (.new limits)
    let batches := taken steps
    let entries := batches.flatMap AnalyticsBatch.entries
    (∀ key, (ends steps).state.totals[key]? =
      totalOf ((entries.filter (·.1 = key)).map (·.2))) ∧
    (∀ key, (ends steps).state.total key = saturatingSum (deltasOf entries key)) ∧
    (∀ interval, interval ∈ (ends steps).state.applied ↔
      interval ∈ (deliveries steps).map (·.interval) ∧ ¬ Released steps interval) ∧
    (∀ steps', Retires steps' → Unlimited limits steps' →
      (∀ interval, interval ∈ (deliveries steps).map (·.interval) ↔
        interval ∈ (deliveries steps').map (·.interval)) →
      (ends steps).cursors = (ends steps').cursors ∧
      (ends steps).accepted = (ends steps').accepted ∧
      ((∀ interval, Released steps interval ↔ Released steps' interval) →
        (ends steps).state.applied = (ends steps').state.applied) ∧
      ((∀ batch, batch ∈ deliveries steps ↔ batch ∈ deliveries steps') →
        (∀ a ∈ deliveries steps, ∀ b ∈ deliveries steps, a.interval = b.interval → a = b) →
        (ends steps).state.totals = (ends steps').state.totals)) ∧
    ∀ receiver,
      (∀ error, Machine.answer (AnalyticsReceiver.step json) receiver .reload ≠
        .unreadable error) ∧
      ∀ batch error, Machine.answer (AnalyticsReceiver.step json) receiver (.deliver batch) =
        .refused error →
      Machine.next (AnalyticsReceiver.step json) receiver (.deliver batch) = receiver := by
  intro ends batches entries
  have tracks := tracks_of_run json retires unlimited
  refine ⟨?_, ?_, ?_, ?_, fun receiver => ⟨?_, ?_⟩⟩
  · intro key
    rw [tracks.totals, totalsFrom, get_foldl_absorb, get_empty]
    exact foldl_addDelta _
  · intro key
    rw [ApplyState.total_eq, tracks.totals]
    exact sum_foldl_absorb entries key
  · intro interval
    rw [tracks.applied, taken, mem_names_firsts]
  · intro steps' retires' unlimited' same
    have tracks' := tracks_of_run json retires' unlimited'
    have names : ((taken steps).map (·.interval)).Perm ((taken steps').map (·.interval)) :=
      names_firsts_perm same
    refine ⟨?_, ?_, ?_, ?_⟩
    · rw [tracks.cursors, tracks'.cursors]
      exact foldl_absorb_perm advanceCursor_right_comm (names.map _) ∅
    · rw [tracks.accepted, tracks'.accepted]
      exact foldl_absorb_perm advancePosition_right_comm (names.map _) ∅
    · intro released
      refine Std.ExtTreeSet.ext_mem fun interval => ?_
      rw [tracks.applied, tracks'.applied, released, names.mem_iff]
    · intro all one
      rw [tracks.totals, tracks'.totals]
      exact foldl_absorb_perm addDelta_right_comm ((firsts_perm all one).flatMap_right _) ∅
  · intro error
    unfold Machine.answer AnalyticsReceiver.step
    rw [AnalyticsReceiver.restore_encode]
    exact nofun
  · intro batch error
    unfold Machine.answer Machine.next AnalyticsReceiver.step
    dsimp only
    split
    · exact nofun
    · exact fun _ => rfl

end Runs

inductive AnalyticsDoc where
  | state (snapshot : ApplyStateSnapshot)
  | receiver (schema : Nat) (state : AnalyticsDoc) (cursors : List (ProducerId × Int64))
    (accepted frontier : List FrontierAck)

def AnalyticsDoc.json : AnalyticsJson AnalyticsDoc where
  state :=
    { encode := .state
      decode := fun
        | .state snapshot => some snapshot
        | .receiver .. => none
      decode_encode := fun _ => rfl }
  receiver :=
    { encode := fun snapshot => .receiver snapshot.schema snapshot.state snapshot.cursors
        snapshot.accepted snapshot.frontier
      decode := fun
        | .state _ => none
        | .receiver schema encoded cursors accepted frontier =>
          some { schema, state := encoded, cursors, accepted, frontier }
      decode_encode := fun _ => rfl }

def sampleKey : AggregateKey := ⟨1, "alpha", "resource", "1.0", ""⟩

def sampleBatch (sequence downloads : Nat) : AnalyticsBatch where
  interval := ⟨"east", 1, sequence⟩
  rows := [⟨sampleKey, { downloads, bytes := 10 * downloads }⟩]

/-- The second interval twice with a reload between, then the first, the second
released, and the third. -/
def sampleRun : List ReceiverStep :=
  [.deliver (sampleBatch 2 5), .reload, .deliver (sampleBatch 2 5), .deliver (sampleBatch 1 3),
    .acknowledge ⟨"east", 1, 2⟩, .compact, .deliver (sampleBatch 3 4)]

theorem retires_sampleRun : Retires sampleRun := by
  rintro before batch after split ⟨early, late, ack, rfl, mem, covers⟩
  rw [append_assoc, sampleRun] at split
  -- the compaction is the sixth step, and only the third interval comes after it
  rcases early with _ | ⟨_, _ | ⟨_, _ | ⟨_, _ | ⟨_, _ | ⟨_, _ | ⟨_, _ | ⟨_, early⟩⟩⟩⟩⟩⟩⟩ <;>
    simp only [nil_append, cons_append, List.cons.injEq, reduceCtorEq, false_and,
      and_false, nil_eq, append_eq_nil_iff, and_false] at split
  obtain ⟨rfl, rfl, rfl, rfl, rfl, -, split⟩ := split
  obtain ⟨rfl, here⟩ | ⟨_, _, later⟩ := cons_eq_append_iff.mp split
  · cases here
    have only : ack = ⟨"east", 1, 2⟩ := by simpa using mem
    rw [only] at covers
    exact absurd covers.2.2 (by decide)
  · simp at later

theorem unlimited_sampleRun : Unlimited {} sampleRun := by
  intro before batch after split
  have mem : batch ∈ deliveries sampleRun := by
    rw [split, deliveries_append]
    exact mem_append_right _ mem_cons_self
  have one : ∀ batch ∈ deliveries sampleRun, batch.rows.length = 1 := by decide
  refine ⟨(one batch mem).trans_le (by decide), fun _ retained once known => ?_⟩
  have few : retained.length ≤ ((deliveries before).map (·.interval)).length :=
    (once.subperm fun interval mem => (known interval mem).1).length_le
  have short := congrArg List.length split
  rw [length_append, sampleRun] at short
  rw [length_map] at few
  have fewer : (deliveries before).length ≤ before.length := length_filterMap_le _ _
  simp only [length_cons, length_nil] at short
  change _ < 65536
  omega

theorem analytics_of_distinct_batches_sample :
    Retires sampleRun ∧ Unlimited {} sampleRun ∧
    (Machine.exec (AnalyticsReceiver.step AnalyticsDoc.json) (.new {}) sampleRun).state.total
      sampleKey = { downloads := 12, bytes := 120 } := by
  refine ⟨retires_sampleRun, unlimited_sampleRun, ?_⟩
  rw [(analytics_of_distinct_batches AnalyticsDoc.json {} sampleRun retires_sampleRun
    unlimited_sampleRun).2.1 sampleKey]
  decide +kernel

end Peryx
