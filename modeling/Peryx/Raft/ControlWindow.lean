import Peryx.Raft.SnapshotEquivalence

/-!
# The idempotency window

A keyed control command commits at most once while its key stands in the
window.

- `keyed_control_at_most_once`: no second commit, and the same answer again.
-/

namespace Peryx

open OwnershipState Machine Option

/-! ## Consistency through restarts -/

namespace Inner

variable {Bytes : Type} {inner : Inner Bytes} (codec : Codec OwnershipState Bytes)

theorem Consistent.of_agree {other : Inner Bytes} (h : inner.Consistent)
    (agree : Agree other inner) : other.Consistent where
  epochs := by rw [agree.state]; exact h.epochs
  roster := by rw [agree.state, agree.lastMembership]; exact h.roster
  controls := by rw [agree.state]; exact h.controls

theorem Consistent.restart (h : inner.Consistent) :
    Agree (inner.event codec .restart).1 inner := by
  obtain ⟨loaded, load, hs, ha, hm⟩ := h.load codec "restart" inner.snapshotGeneration
  have step : (inner.event codec .restart).1 = loaded := by
    unfold Inner.event
    rw [load]
  rw [step]
  exact ⟨hs, ha, hm⟩

theorem Consistent.event (h : inner.Consistent) (event : ReplicaEvent) :
    (inner.event codec event).1.Consistent := by
  cases event with
  | entry entry => exact h.apply entry
  | restart => exact h.of_agree (h.restart codec)

theorem consistent_history (events : List ReplicaEvent) :
    (history codec events).Consistent :=
  exec_invariant_always (Inner.event codec) (fun _ e h => h.event codec e) {} events
    consistent_empty

end Inner

/-- What one event may do to the control record of `key` on a replica. -/
inductive RecordEvent (key : String) (inner : OwnershipState) :
    ReplicaEvent → Option ControlRecord → Option ControlRecord → Prop
  | same (event : ReplicaEvent) (r : Option ControlRecord) : RecordEvent key inner event r r
  | decision (logId : LogId) (command : OwnershipCommand) (r r' : Option ControlRecord)
      (step : ControlStep key inner command logId.applied r r') :
      RecordEvent key inner (.entry ⟨logId, .normal command⟩) r r'
  | membership (logId : LogId) (membership : Membership) (r : Option ControlRecord) :
      RecordEvent key inner (.entry ⟨logId, .membership membership⟩) r
        (r.map (reproject (auditProjectors ⟨some logId, membership⟩)))

variable {Bytes : Type} {key : String} {command : ControlCommand} {receipt : CommandReceipt}

variable {inner : Inner Bytes} {record : ControlRecord} {s : OwnershipState} {c : Int64}
  {applied : AppliedMeta}

theorem Inner.Consistent.recordEvent
    (h : inner.Consistent) (codec : Codec OwnershipState Bytes) (event : ReplicaEvent)
    (key : String) :
    RecordEvent key inner.state event inner.state.controls[key]?
      (inner.event codec event).1.state.controls[key]? := by
  cases event with
  | restart =>
    rw [(h.restart codec).state]
    exact .same ..
  | entry entry =>
    obtain ⟨logId, payload⟩ := entry
    cases payload with
    | blank => exact .same ..
    | normal command =>
      exact .decision logId command _ _ ((apply_takes inner.state command _).control key)
    | membership membership =>
      show RecordEvent key _ _ _ (inner.state.controls.map _)[key]?
      rw [BTreeMap.get_map]
      exact .membership logId membership _

/-- **Run.** What each event that meets `A` keeps of the record of `key`, a run of
them keeps. -/
theorem Inner.Consistent.record_exec {P : ControlRecord → Prop} {A : ReplicaEvent → Prop}
    (keeps : ∀ {s event record r}, A event → record.Sealed s.auditProjectors → P record →
      RecordEvent key s event (some record) r → ∃ record', r = some record' ∧ P record')
    (codec : Codec OwnershipState Bytes) (consistent : inner.Consistent)
    (present : inner.state.controls[key]? = some record) (h : P record)
    (events : List ReplicaEvent) (meets : ∀ e ∈ events, A e) :
    ∃ record', (exec (Inner.event codec) inner events).state.controls[key]? =
        some record' ∧ P record' := by
  refine (exec_invariant (Inner.event codec)
    (I := fun inner => inner.Consistent ∧ ∃ record, inner.state.controls[key]? = some record ∧
      P record) (A := fun _ => A) ?_ inner events ⟨consistent, record, present, h⟩
    (along_of_forall _ inner events fun e he _ => meets e he)).2
  rintro inner event ⟨consistent, record, present, h⟩ meets
  exact ⟨consistent.event codec event, keeps meets (consistent.controls key record present) h
    (present ▸ consistent.recordEvent codec event key)⟩

def ReplicaEvent.controlTime : ReplicaEvent → Option Int64
  | .entry ⟨_, .normal command⟩ => command.controlTime
  | _ => none

/-- The event that attempts `command` under `key`. -/
def attemptEvent (key : String) (command : ControlCommand) (nowUnix : Int64)
    (logId : LogId) : ReplicaEvent :=
  .entry ⟨logId, .normal (.attemptControl key command nowUnix)⟩

theorem answer_attemptEvent {codec : Codec OwnershipState Bytes}
    {nowUnix : Int64}
    {logId : LogId} {resolution : ControlResolution}
    (h : Machine.answer (Inner.event codec) inner (attemptEvent key command nowUnix logId) =
      some (.applied (.control resolution))) :
    (inner.state.attemptControl key command nowUnix logId.applied).2 = resolution := by
  simpa [Machine.answer, Inner.event, Inner.apply, attemptEvent, OwnershipState.apply] using h

/-! ## At most once -/

/-- The record answers for `command`, decided at `c` with `receipt`. -/
structure ControlRecord.Answers (command : ControlCommand) (c : Int64)
    (receipt : CommandReceipt) (record : ControlRecord) : Prop where
  command : record.command = command
  claimed : record.claimedAtUnix = c
  settled : record.receipt = some receipt

namespace ControlRecord.Answers

section

variable (h : record.Answers command c receipt)

include h

theorem retained {t : Int64} (inside : t.toInt < c.toInt + 900) : record.retained t = true := by
  have window : controlIdempotencySecs.toInt = 900 := rfl
  have young : t.saturatingSub record.claimedAtUnix < controlIdempotencySecs := by
    rw [h.claimed, Int64.lt_iff_toInt_lt, Int64.toInt_saturatingSub]
    omega
  rw [ControlRecord.retained, decide_eq_true young, Bool.or_true]

/-- **Step, decisions.** -/
theorem controlStep
    {decided : OwnershipCommand}
    {r : Option ControlRecord}
    (step : ControlStep key s decided applied (some record) r)
    (inside : ∀ t, decided.controlTime = some t → t.toInt < c.toInt + 900) :
    ∃ record', r = some record' ∧ record'.Answers command c receipt := by
  obtain rfl | ⟨projector, -, rfl⟩ :=
    step.of_settled h.settled fun t timed => h.retained (inside t timed)
  · exact ⟨record, rfl, h⟩
  · exact ⟨_, rfl, h.command, h.claimed, h.settled⟩

/-- **Step, rosters.** -/
theorem reproject {roster : Finset String}
    (sealed : record.Sealed roster) (projectors : Finset String) :
    (OwnershipState.reproject projectors record).Answers command c receipt := by
  obtain ⟨command, claimed, settled⟩ := sealed.reproject_answer projectors
  exact ⟨command.trans h.command, claimed.trans h.claimed, settled.trans h.settled⟩

end

end ControlRecord.Answers

theorem answers_of_committed
    (committed : (s.attemptControl key command c applied).2 = .committed receipt) :
    ∃ record, (s.attemptControl key command c applied).1.controls[key]? = some record ∧
      record.Answers command c receipt := by
  have h := attemptControl_attempted s key command c applied
  generalize s.attemptControl key command c applied = r at h committed ⊢
  cases h with
  | keyReuse | running | replayed | claimed | rejected => cases committed
  | decided p' effect outcome unbound carried succeeded =>
    cases committed
    exact ⟨_, BTreeMap.get_insert_self .., rfl, rfl, rfl⟩

theorem attemptControl_of_answers
    {command' : ControlCommand} {t : Int64}
    (present : s.controls[key]? = some record) (h : record.Answers command c receipt)
    (inside : t.toInt < c.toInt + 900) :
    s.attemptControl key command' t applied =
      (s.pruneControls t, if command' = command then .replayed receipt else .keyReuse) := by
  have kept : (s.pruneControls t).controls[key]? = some record := by
    rw [get_pruneControls, present, filter_some, if_pos (h.retained inside)]
  unfold attemptControl
  dsimp only
  rw [kept]
  dsimp only
  rw [h.settled, h.command]
  by_cases same : command' = command
  · rw [if_neg (not_not.mpr same.symm), if_pos same]
  · rw [if_pos (Ne.symm same), if_neg same]

/-- **Run.** A record that answers keeps answering until an event carries a
time past its window. -/
theorem answers_exec (codec : Codec OwnershipState Bytes) (consistent : inner.Consistent)
    (present : inner.state.controls[key]? = some record)
    (h : record.Answers command c receipt) (events : List ReplicaEvent)
    (inside : ∀ e ∈ events, ∀ t, e.controlTime = some t → t.toInt < c.toInt + 900) :
    ∃ record', (exec (Inner.event codec) inner events).state.controls[key]? =
        some record' ∧ record'.Answers command c receipt := by
  refine consistent.record_exec (fun inside sealed h step => ?_) codec present h events inside
  cases step with
  | same => exact ⟨_, rfl, h⟩
  | decision logId command' _ _ step => exact h.controlStep step inside
  | membership logId membership => exact ⟨_, rfl, h.reproject sealed _⟩

/-- **At-most-once keyed control.** Let an attempt under `key` commit `receipt`
at time `c`. Whatever entries and restarts follow, until one of them carries a
control time at or past `c + 900`, a further attempt under the key leaves
every authority record as it is and is answered with that receipt, or with
key reuse when it carries another command. -/
theorem keyed_control_at_most_once {Bytes : Type} (codec : Codec OwnershipState Bytes)
    (before between : List ReplicaEvent) (key : String) (command again : ControlCommand)
    (c t : Int64) (logId logId' : LogId) (receipt : CommandReceipt)
    (committed : Machine.answer (Inner.event codec) (Inner.history codec before)
      (attemptEvent key command c logId) = some (.applied (.control (.committed receipt))))
    (inside : ∀ e ∈ between, ∀ t, e.controlTime = some t →
      t.toInt < c.toInt + controlIdempotencySecs.toInt)
    (early : t.toInt < c.toInt + controlIdempotencySecs.toInt) :
    let later := Inner.history codec (before ++ attemptEvent key command c logId :: between)
    let attempt := attemptEvent key again t logId'
    (Machine.next (Inner.event codec) later attempt).state.authorities = later.state.authorities ∧
      Machine.answer (Inner.event codec) later attempt = some (.applied (.control
          (if again = command then .replayed receipt else .keyReuse))) := by
  intro later attempt
  obtain ⟨record, present, h⟩ := answers_of_committed (answer_attemptEvent committed)
  have consistent := (Inner.consistent_history codec before).event codec
    (attemptEvent key command c logId)
  obtain ⟨record', present', h'⟩ := answers_exec codec consistent present h between inside
  have reached : later.state.controls[key]? = some record' := by
    show (Inner.history codec _).state.controls[key]? = _
    rw [Inner.history, exec_append]
    exact present'
  have replay : later.state.attemptControl key again t logId'.applied =
      (later.state.pruneControls t,
        if again = command then .replayed receipt else .keyReuse) :=
    attemptControl_of_answers reached h' early
  constructor
  · show (later.state.attemptControl key again t logId'.applied).1.authorities = _
    rw [replay]
    rfl
  · show some (OwnershipResponse.applied (.control
      (later.state.attemptControl key again t logId'.applied).2)) = _
    rw [replay]

/-- A membership of the one datacenter `east`, committed at index `n`. -/
def eastRoster (n : Nat) : ReplicaEvent :=
  .entry ⟨⟨1, 1, n⟩, .membership
    { configs := [{1}], nodes := (∅ : BTreeMap Nat PeryxNode).insert 1 ⟨"east", "e"⟩ }⟩

/-- An authority homed at `east`. -/
def eastHomed : List ReplicaEvent :=
  [eastRoster 1, .entry ⟨⟨1, 1, 2⟩, .normal (.assignHome "pypi" "east" .firstPublish)⟩]

theorem keyed_control_at_most_once_transfer :
    Machine.answer (Inner.event (Codec.id _)) (Inner.history (Codec.id _) (eastHomed ++
          attemptEvent "k" (.transferAuthority "pypi" "west" none) 100 ⟨1, 1, 3⟩ ::
          [.restart, .entry ⟨⟨1, 1, 4⟩, .normal (.releaseControl "k" (.advanceEpoch "pypi") 999)⟩]))
        (attemptEvent "k" (.transferAuthority "pypi" "west" none) 998 ⟨1, 1, 5⟩) =
      some (.applied (.control (.replayed (decisionReceipt ⟨1, 3⟩ .committed none)))) := by
  refine (keyed_control_at_most_once (Codec.id _) eastHomed
    [.restart, .entry ⟨⟨1, 1, 4⟩, .normal (.releaseControl "k" (.advanceEpoch "pypi") 999)⟩]
    "k" (.transferAuthority "pypi" "west" none) (.transferAuthority "pypi" "west" none)
    100 998 ⟨1, 1, 3⟩ ⟨1, 1, 5⟩ _ (by decide +kernel) ?_ (by decide)).2
  intro e he t timed
  simp only [List.mem_cons, List.not_mem_nil, or_false] at he
  rcases he with rfl | rfl
  · cases timed
  · cases timed
    decide

end Peryx
