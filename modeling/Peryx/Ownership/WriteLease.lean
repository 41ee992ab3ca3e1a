import Peryx.Ownership.Decisions

/-!
# Write leases exclude ownership changes

From its grant on, a write lease pins home and epoch of its authority until it
is finished or a command on the same authority carries a time at which the
lease, skew included, has run out.

A deadline is compared after `i64::saturating_add`, so a lease granted within
five seconds of the end of time lapses early
(`writeLease_lapses_early_at_end_of_time`).

- `writeLease_excludes`: what a standing lease holds off.
- `epoch_names_home`: an epoch never changes its home.
-/

namespace Peryx

open OwnershipState Machine BTreeMap List

/-! ## Leases carry their record's epoch -/

def AuthorityRecord.LeasesCurrent (record : AuthorityRecord) : Prop :=
  ∀ (id : String) (lease : WriteLeaseRecord),
    record.writes[id]? = some lease → lease.epoch = record.epoch

def OwnershipState.LeasesCurrent (s : OwnershipState) : Prop :=
  ∀ (authority : AuthorityKey) (record : AuthorityRecord),
    s.authorities[authority]? = some record → record.LeasesCurrent

theorem AuthorityRecord.get_expireWrites (record : AuthorityRecord) (t : Int64) (id : String) :
    (record.expireWrites t).writes[id]? = record.writes[id]?.filter (·.standing t) :=
  get_filter ..

theorem AuthorityRecord.LeasesCurrent.expireWrites {record : AuthorityRecord}
    (h : record.LeasesCurrent) (t : Int64) : (record.expireWrites t).LeasesCurrent := by
  intro id lease hl
  rw [record.get_expireWrites, Option.filter_eq_some_iff] at hl
  exact h id lease hl.1

theorem AuthorityRecord.leasesCurrent_of_isEmpty {record : AuthorityRecord}
    (h : record.writes.isEmpty = true) : record.LeasesCurrent := by
  intro id lease hl
  rw [get_of_isEmpty h] at hl
  cases hl

variable {authority : AuthorityKey} {record : AuthorityRecord}

theorem OwnershipState.AuthorityStep.leasesCurrent
    {command : OwnershipCommand} {r r' : Option AuthorityRecord}
    (step : AuthorityStep authority command r r')
    (h : ∀ record, r = some record → record.LeasesCurrent) :
    ∀ record, r' = some record → record.LeasesCurrent := by
  rintro record' rfl
  cases step with
  | same => exact h record' rfl
  | assigned _ first unwritten =>
    refine AuthorityRecord.leasesCurrent_of_isEmpty ?_
    rw [unwritten]
    rfl
  | expired record t => exact (h record rfl).expireWrites t
  | moved record t home timed quiet =>
    exact AuthorityRecord.leasesCurrent_of_isEmpty quiet
  | leased record id t expires begun =>
    intro id' lease hl
    simp only [get_insert] at hl
    split at hl
    · cases hl
      rfl
    · exact (h record rfl).expireWrites t id' lease hl
  | finished record epoch id ended owned =>
    intro id' lease hl
    simp only [get_erase] at hl
    split at hl
    · cases hl
    · exact h record rfl id' lease hl

/-- **Run.** Every lease is of the current epoch. -/
theorem leasesCurrent_run (log : List Decision) : (run log).LeasesCurrent := by
  refine exec_invariant_always step ?_ new log ?_
  · intro s d h authority record
    exact ((apply_takes s d.1 d.2).authority authority).leasesCurrent
      (fun record hr => h authority record hr) record
  · intro authority record h
    simp [new] at h

/-! ## A standing lease pins its record -/

/-- The record stands at `home` and `epoch`, with the lease `id` on it. -/
structure LeaseHeld (home : DatacenterId) (epoch : AuthorityEpoch) (id : String)
    (expires : Int64) (record : AuthorityRecord) : Prop where
  homed : record.home = home
  current : record.epoch = epoch
  leased : record.writes[id]? = some ⟨epoch, expires⟩

/-- The two ways a lease may end: its own finish, or a command on its
authority carrying a time past the skewed deadline. -/
def OwnershipCommand.EndsLease (authority : AuthorityKey) (epoch : AuthorityEpoch)
    (id : String) (expires : Int64) (command : OwnershipCommand) : Prop :=
  command = .finishEpochWrite authority epoch id ∨
    ∃ t, command.timed = some (authority, t) ∧
      expires.saturatingAdd authorityClockSkewSecs ≤ t

def OwnershipCommand.leaseId : OwnershipCommand → Option String
  | .beginEpochWrite _ _ id _ _ => some id
  | _ => none

/-- No two `BeginEpochWrite` commands of the log ask for the same id. -/
def LeaseIdsNeverReused (log : List Decision) : Prop :=
  (log.filterMap (·.1.leaseId)).Nodup

instance : DecidablePred LeaseIdsNeverReused :=
  fun log => inferInstanceAs (Decidable (log.filterMap (·.1.leaseId)).Nodup)

section Held

variable {command : OwnershipCommand} {home : DatacenterId}
  {epoch : AuthorityEpoch} {id : String} {expires : Int64}

theorem lease_standing_of_not_ends {t : Int64}
    (keeps : ¬ command.EndsLease authority epoch id expires)
    (timed : command.timed = some (authority, t)) :
    WriteLeaseRecord.standing ⟨epoch, expires⟩ t = true := by
  have early : ¬ expires.saturatingAdd authorityClockSkewSecs ≤ t :=
    fun late => keeps (.inr ⟨t, timed, late⟩)
  rw [WriteLeaseRecord.standing, decide_eq_true_iff]
  exact Int64.not_le.mp early

theorem LeaseHeld.expireWrites {t : Int64} (h : LeaseHeld home epoch id expires record)
    (standing : WriteLeaseRecord.standing ⟨epoch, expires⟩ t = true) :
    LeaseHeld home epoch id expires (record.expireWrites t) := by
  refine ⟨h.homed, h.current, ?_⟩
  rw [record.get_expireWrites, h.leased, Option.filter_some, if_pos standing]

theorem LeaseHeld.busy {t : Int64} (h : LeaseHeld home epoch id expires record)
    (standing : WriteLeaseRecord.standing ⟨epoch, expires⟩ t = true) :
    (record.expireWrites t).writes.isEmpty = false :=
  isEmpty_eq_false_of_get (h.expireWrites standing).leased

/-- **Step.** A decision that neither ends the lease nor asks for its id again
leaves the record held. -/
theorem LeaseHeld.step {r : Option AuthorityRecord} (h : LeaseHeld home epoch id expires record)
    (step : AuthorityStep authority command (some record) r)
    (keeps : ¬ command.EndsLease authority epoch id expires)
    (fresh : command.leaseId ≠ some id) :
    ∃ record', r = some record' ∧ LeaseHeld home epoch id expires record' := by
  cases step with
  | same => exact ⟨record, rfl, h⟩
  | expired _ t timed =>
    exact ⟨_, rfl, h.expireWrites (lease_standing_of_not_ends keeps timed)⟩
  | moved _ t home timed quiet =>
    rw [h.busy (lease_standing_of_not_ends keeps timed)] at quiet
    cases quiet
  | forgotten _ t timed quiet =>
    rw [h.busy (lease_standing_of_not_ends keeps timed)] at quiet
    cases quiet
  | leased _ id' t expires' begun =>
    have timed : command.timed = some (authority, t) := by rw [begun]; rfl
    have other : id' ≠ id := by
      rintro rfl
      exact fresh (by rw [begun]; rfl)
    have held := h.expireWrites (lease_standing_of_not_ends keeps timed)
    exact ⟨_, rfl, held.homed, held.current, (get_insert_of_ne _ _ other).trans held.leased⟩
  | finished _ epoch' id' ended owned =>
    have other : id' ≠ id := by
      rintro rfl
      -- finishing this very lease takes its own epoch, which ends it
      have : epoch = epoch' := owned _ h.leased
      exact keeps (.inl (by rw [ended, this]))
    exact ⟨_, rfl, h.homed, h.current, (get_erase_of_ne _ other).trans h.leased⟩

end Held

/-- The command changes who owns `authority`, directly or under a key. -/
def OwnershipCommand.ChangesOwner (authority : AuthorityKey) : OwnershipCommand → Prop
  | .advanceAuthorityEpoch a _ => a = authority
  | .recordTransfer a _ _ => a = authority
  | .forgetAuthority a _ => a = authority
  | .attemptControl _ command _ => command.target = some authority
  | _ => False

/-- The effect of a change of owner that took place. A keyed attempt that
committed as a no-op is not one. -/
def OwnershipEffect.changedOwner : OwnershipEffect → Bool
  | .epochAdvanced _ => true
  | .transferred _ _ _ => true
  | .forgotten _ => true
  | .control (.committed receipt) => receipt.outcome == .committed
  | _ => false

section Refusals

variable {s : OwnershipState}
  {nowUnix : Int64} (present : s.authorities[authority]? = some record)
  (busy : (record.expireWrites nowUnix).writes.isEmpty = false)

include present busy

theorem advanceEpoch_busy :
    (s.advanceEpoch authority nowUnix).2 = .rejected .writesInFlight := by
  simp [advanceEpoch, present, busy]

theorem transfer_busy (newHome : DatacenterId) :
    (s.transfer authority newHome nowUnix).2 = .rejected .sameHome ∨
      (s.transfer authority newHome nowUnix).2 = .rejected .writesInFlight := by
  by_cases same : record.home = newHome
  · simp [transfer, present, same]
  · simp [transfer, present, same, busy]

theorem forget_busy :
    (s.forget authority nowUnix).2 = .rejected .writesInFlight := by
  simp [forget, present, busy]

theorem applyControl_busy {command : ControlCommand}
    {r : OwnershipState × OwnershipEffect} (named : command.target = some authority)
    (carried : s.applyControl command nowUnix = some r) :
    controlOutcome r.2 ≠ .ok .committed := by
  cases command with
  | transferAuthority a newHome intent =>
    cases named
    cases carried
    rcases transfer_busy present busy newHome with h | h <;> rw [h] <;> exact nofun
  | advanceEpoch a =>
    cases named
    cases carried
    rw [advanceEpoch_busy present busy]
    exact nofun
  | forgetAuthority a =>
    cases named
    cases carried
    rw [forget_busy present busy]
    exact nofun
  | addLearner | promoteVoter | removeVoter | replaceVoter => cases named

theorem apply_busy {command : OwnershipCommand} (applied : AppliedMeta)
    (changes : command.ChangesOwner authority)
    (timed : command.timed = some (authority, nowUnix)) :
    (s.apply command applied).2.changedOwner = false := by
  cases command with
  | advanceAuthorityEpoch a t =>
    cases timed
    rw [apply, advanceEpoch_busy present busy]
    rfl
  | recordTransfer a newHome t =>
    cases timed
    rw [apply]
    rcases transfer_busy present busy newHome with h | h <;> rw [h] <;> rfl
  | forgetAuthority a t =>
    cases timed
    rw [apply, forget_busy present busy]
    rfl
  | attemptControl key command t =>
    have named : command.target = some authority := changes
    obtain rfl : t = nowUnix := by
      simpa [OwnershipCommand.timed, named] using timed
    have h := attemptControl_attempted s key command t applied
    rw [apply]
    generalize s.attemptControl key command t applied = r at h ⊢
    cases h with
    | keyReuse | running | replayed | claimed | rejected => rfl
    | decided p' effect outcome unbound carried succeeded =>
      have idle := applyControl_busy (s := s.pruneControls t) present busy named carried
      cases outcome with
      | committed => exact absurd succeeded idle
      | noChange => rfl
  | assignHome | beginEpochWrite | finishEpochWrite | acquireSingletonLease
  | renewSingletonLease | releaseSingletonLease | settleControl | releaseControl
  | completeTransferAudit => exact changes.elim

end Refusals

theorem OwnershipCommand.ChangesOwner.timed
    {command : OwnershipCommand} (h : command.ChangesOwner authority) :
    ∃ t, command.timed = some (authority, t) := by
  cases command with
  | advanceAuthorityEpoch a t => exact ⟨t, by cases h; rfl⟩
  | recordTransfer a newHome t => exact ⟨t, by cases h; rfl⟩
  | forgetAuthority a t => exact ⟨t, by cases h; rfl⟩
  | attemptControl key command t =>
    have named : command.target = some authority := h
    exact ⟨t, by simp [OwnershipCommand.timed, named]⟩
  | assignHome | beginEpochWrite | finishEpochWrite | acquireSingletonLease
  | renewSingletonLease | releaseSingletonLease | settleControl | releaseControl
  | completeTransferAudit => exact h.elim

/-! ## Over a whole log -/

/-- The record of `authority` is held. -/
def HeldAt (authority : AuthorityKey) (home : DatacenterId) (epoch : AuthorityEpoch)
    (id : String) (expires : Int64) (s : OwnershipState) : Prop :=
  ∃ record, s.authorities[authority]? = some record ∧
    LeaseHeld home epoch id expires record

/-- **Run.** A held record stays held across every run of decisions that
neither end the lease nor ask for its id again. -/
theorem heldAt_exec {home : DatacenterId}
    {epoch : AuthorityEpoch} {id : String} {expires : Int64} {s : OwnershipState}
    (h : HeldAt authority home epoch id expires s) (log : List Decision)
    (keeps : ∀ d ∈ log, ¬ d.1.EndsLease authority epoch id expires)
    (fresh : ∀ d ∈ log, d.1.leaseId ≠ some id) :
    HeldAt authority home epoch id expires (exec step s log) := by
  refine exec_invariant step (A := fun _ d =>
    ¬ d.1.EndsLease authority epoch id expires ∧ d.1.leaseId ≠ some id) ?_ s log h
    (along_of_forall step s log fun d hd _ => ⟨keeps d hd, fresh d hd⟩)
  rintro s d ⟨record, present, held⟩ ⟨keep, other⟩
  have hstep := (apply_takes s d.1 d.2).authority authority
  rw [present] at hstep
  exact held.step hstep keep other

theorem heldAt_of_granted {s : OwnershipState}
    {epoch e : AuthorityEpoch} {id i : String} {issued expires E : Int64}
    {applied : AppliedMeta}
    (granted : (s.apply (.beginEpochWrite authority epoch id issued expires) applied).2 =
      .writeLeased e i E) :
    ∃ home, s.home authority = some home ∧ s.epoch authority = e ∧ id = i ∧
      HeldAt authority home e i E
        (s.apply (.beginEpochWrite authority epoch id issued expires) applied).1 := by
  rw [apply] at granted ⊢
  unfold beginWrite at granted ⊢
  split at granted
  · cases granted
  case h_2 record present =>
    dsimp only at granted ⊢
    split at granted
    · cases granted
    case isFalse current =>
      split at granted
      · cases granted
      case isFalse bounded =>
        cases granted
        have same : record.epoch = epoch := not_not.mp current
        refine ⟨record.home, by simp [OwnershipState.home, present],
          by simp [OwnershipState.epoch, present, same], rfl, ?_⟩
        rw [if_neg current, if_neg bounded]
        exact ⟨_, get_insert_self .., rfl, same, get_insert_self ..⟩

theorem LeaseIdsNeverReused.fresh {before after : List Decision} {grant : Decision}
    {id : String} (unique : LeaseIdsNeverReused (before ++ grant :: after))
    (asked : grant.1.leaseId = some id) : ∀ d ∈ after, d.1.leaseId ≠ some id := by
  intro d hd again
  rw [LeaseIdsNeverReused, filterMap_append,
    filterMap_cons_some (f := fun d : Decision => d.1.leaseId) asked,
    nodup_append] at unique
  exact (nodup_cons.mp unique.2.1).1 (mem_filterMap.mpr ⟨d, hd, again⟩)

/-- **Write-lease exclusion.** Over every log with lease ids never reused: from
a grant on, until the lease is finished or a command on its authority carries
a time at or past its saturated deadline, the authority keeps the home and the
epoch it had at the grant, and no command changes its owner. Every stored
lease carries its record's epoch. -/
theorem writeLease_excludes (log : List Decision) (unique : LeaseIdsNeverReused log) :
    (∀ (before after : List Decision) (authority : AuthorityKey)
        (asked epoch : AuthorityEpoch) (askedId id : String)
        (issued askedUntil expires : Int64) (applied : AppliedMeta),
      let grant : Decision :=
        (.beginEpochWrite authority asked askedId issued askedUntil, applied)
      log = before ++ grant :: after →
      effectAfter before grant = .writeLeased epoch id expires →
      (∀ d ∈ after, ¬ d.1.EndsLease authority epoch id expires) →
      ((run log).home authority = (run before).home authority ∧
        ((run before).home authority).isSome = true ∧
        (run log).epoch authority = epoch ∧ (run before).epoch authority = epoch) ∧
      ∀ next : Decision,
        next.1.ChangesOwner authority → ¬ next.1.EndsLease authority epoch id expires →
        (effectAfter log next).changedOwner = false) ∧
    (run log).LeasesCurrent := by
  refine ⟨?_, leasesCurrent_run log⟩
  intro before after authority asked epoch askedId id issued askedUntil expires applied
    grant hlog granted keeps
  obtain ⟨home, homed, current, rfl, held⟩ := heldAt_of_granted granted
  subst hlog
  have fresh : ∀ d ∈ after, d.1.leaseId ≠ some askedId := unique.fresh rfl
  obtain ⟨record, present, pinned⟩ := heldAt_exec held after keeps fresh
  have reached : (run (before ++ grant :: after)).authorities[authority]? = some record := by
    rw [run, exec_append]
    exact present
  refine ⟨⟨?_, by rw [homed]; rfl, ?_, current⟩, ?_⟩
  · rw [OwnershipState.home, reached, homed, ← pinned.homed]
    rfl
  · rw [OwnershipState.epoch, reached, ← pinned.current]
    rfl
  · intro next changes keep
    obtain ⟨t, timed⟩ := changes.timed
    exact apply_busy reached (pinned.busy (lease_standing_of_not_ends keep timed)) next.2 changes
      timed

def leasedLog (issued expires : Int64) : List Decision :=
  [(.assignHome "pypi" "east" .firstPublish, ⟨1, 1⟩),
    (.beginEpochWrite "pypi" 1 "w1" issued expires, ⟨1, 2⟩)]

theorem writeLease_excludes_leasedLog :
    effectAfter (leasedLog 100 130) (.recordTransfer "pypi" "west" 134, ⟨1, 4⟩) =
        .rejected .writesInFlight ∧
      (effectAfter (leasedLog 100 130)
        (.recordTransfer "pypi" "west" 134, ⟨1, 4⟩)).changedOwner = false := by
  refine ⟨by decide +kernel, ?_⟩
  refine ((writeLease_excludes (leasedLog 100 130) (by decide +kernel)).1
    [(.assignHome "pypi" "east" .firstPublish, ⟨1, 1⟩)] [] "pypi" 1 1 "w1" "w1" 100 130 130
    ⟨1, 2⟩ rfl (by decide +kernel) (by simp)).2 _ rfl ?_
  rintro (h | ⟨t, timed, late⟩)
  · cases h
  · cases timed
    exact absurd late (by decide +kernel)

/-- A lease that expires at `i64::MAX` is over at `i64::MAX`, although that is
before its deadline plus the skew: the authority is forgotten while the lease
stands. A keyed transfer to the current home also commits, as a no-op. -/
theorem writeLease_lapses_early_at_end_of_time :
    effectAfter ((leasedLog (Int64.maxValue - 10) Int64.maxValue).take 1)
        (.beginEpochWrite "pypi" 1 "w1" (Int64.maxValue - 10) Int64.maxValue, ⟨1, 2⟩) =
      .writeLeased 1 "w1" Int64.maxValue ∧
    Int64.maxValue.toInt < Int64.maxValue.toInt + authorityClockSkewSecs.toInt ∧
    effectAfter (leasedLog (Int64.maxValue - 10) Int64.maxValue)
        (.forgetAuthority "pypi" Int64.maxValue, ⟨1, 3⟩) = .forgotten 1 ∧
    effectAfter (leasedLog 100 130)
        (.attemptControl "k" (.transferAuthority "pypi" "east" none) 101, ⟨1, 3⟩) =
      .control (.committed (decisionReceipt ⟨1, 3⟩ .noChange none)) := by
  decide +kernel

/-- **An epoch names one home.** Between two moments of a history an authority has no
home at some moment, or its epoch has risen, or epoch and home are what they were. -/
theorem epoch_names_home (start log : List Decision) :
    let s := exec step OwnershipState.new start
    let s' := exec step s log
    (∃ before, before <+: log ∧ (exec step s before).home authority = none) ∨
      s.epoch authority < s'.epoch authority ∨
      s'.epoch authority = s.epoch authority ∧ s'.home authority = s.home authority := by
  intro s
  clear_value s
  intro s'
  induction log generalizing s with
  | nil => exact .inr (.inr ⟨rfl, rfl⟩)
  | cons d log ih =>
    have first := (apply_takes s d.1 d.2).authority authority
    obtain ⟨before, le, gone⟩ | fenced := ih (s.apply d.1 d.2).1
    · exact .inl ⟨d :: before, cons_prefix_cons.mpr ⟨rfl, le⟩, gone⟩
    simp only [epoch, home] at fenced ⊢
    generalize was : s.authorities[authority]? = r at first
    generalize now : (s.apply d.1 d.2).1.authorities[authority]? = r' at first fenced
    cases first with
    | same => exact .inr fenced
    | assigned => exact .inl ⟨[], nil_prefix, Option.map_eq_none_iff.mpr was⟩
    | moved => exact .inr (.inl (fenced.elim Nat.le_of_lt (·.1.ge)))
    | forgotten => exact .inl ⟨[d], prefix_append [d] log, Option.map_eq_none_iff.mpr now⟩
    | expired | leased | finished => exact .inr fenced

end Peryx
