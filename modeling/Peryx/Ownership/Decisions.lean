import Peryx.Ownership.State

/-!
# What one decision can do

Inversion of `OwnershipState.apply`, once per kind of record. Every invariant
of the ownership state is a case analysis over these relations and never
unfolds the state machine again.
-/

namespace Peryx

open BTreeMap Option

/-! ## What a command names -/

def ControlCommand.target : ControlCommand → Option AuthorityKey
  | .transferAuthority authority _ _ => some authority
  | .advanceEpoch authority => some authority
  | .forgetAuthority authority => some authority
  | .addLearner .. | .promoteVoter .. | .removeVoter .. | .replaceVoter .. => none

namespace OwnershipCommand

/-- The authority a command addresses and the time it carries for it: the
moment up to which its leases are expired. -/
def timed : OwnershipCommand → Option (AuthorityKey × Int64)
  | .advanceAuthorityEpoch authority nowUnix => some (authority, nowUnix)
  | .beginEpochWrite authority _ _ issuedAtUnix _ => some (authority, issuedAtUnix)
  | .recordTransfer authority _ nowUnix => some (authority, nowUnix)
  | .forgetAuthority authority nowUnix => some (authority, nowUnix)
  | .attemptControl _ command nowUnix => command.target.map (·, nowUnix)
  | _ => none

def job : OwnershipCommand → Option String
  | .acquireSingletonLease job _ _ _ => some job
  | .renewSingletonLease job _ _ _ _ _ => some job
  | .releaseSingletonLease job _ _ _ _ => some job
  | _ => none

def controlTime : OwnershipCommand → Option Int64
  | .attemptControl _ _ nowUnix => some nowUnix
  | .settleControl _ _ _ nowUnix => some nowUnix
  | .releaseControl _ _ nowUnix => some nowUnix
  | _ => none

end OwnershipCommand

namespace OwnershipState

@[simp] theorem get_pruneControls (s : OwnershipState) (nowUnix : Int64) (key : String) :
    (s.pruneControls nowUnix).controls[key]? = s.controls[key]?.filter (·.retained nowUnix) := by
  simp [pruneControls]

/-! ## Authority records -/

/-- What a decision carrying `command` may do to the record of `authority`. -/
inductive AuthorityStep (authority : AuthorityKey) (command : OwnershipCommand) :
    Option AuthorityRecord → Option AuthorityRecord → Prop
  | same (r : Option AuthorityRecord) : AuthorityStep authority command r r
  | assigned (record : AuthorityRecord) (first : record.epoch = 1)
      (unwritten : record.writes = ∅) :
      AuthorityStep authority command none (some record)
  | expired (record : AuthorityRecord) (t : Int64)
      (timed : command.timed = some (authority, t)) :
      AuthorityStep authority command (some record) (some (record.expireWrites t))
  | moved (record : AuthorityRecord) (t : Int64) (home : DatacenterId)
      (timed : command.timed = some (authority, t))
      (quiet : (record.expireWrites t).writes.isEmpty = true) :
      AuthorityStep authority command (some record)
        (some { record.expireWrites t with home, epoch := record.epoch + 1 })
  | forgotten (record : AuthorityRecord) (t : Int64)
      (timed : command.timed = some (authority, t))
      (quiet : (record.expireWrites t).writes.isEmpty = true) :
      AuthorityStep authority command (some record) none
  | leased (record : AuthorityRecord) (id : String) (t expires : Int64)
      (begun : command = .beginEpochWrite authority record.epoch id t expires) :
      AuthorityStep authority command (some record) (some { record.expireWrites t with
          writes := (record.expireWrites t).writes.insert id ⟨record.epoch, expires⟩ })
  | finished (record : AuthorityRecord) (epoch : AuthorityEpoch) (id : String)
      (ended : command = .finishEpochWrite authority epoch id)
      (owned : ∀ lease, record.writes[id]? = some lease → lease.epoch = epoch) :
      AuthorityStep authority command (some record)
        (some { record with writes := record.writes.erase id })

/-- The two states differ in the record of `authority` at most. -/
structure OnlyAuthority (authority : AuthorityKey) (s s' : OwnershipState) : Prop where
  others : ∀ a, authority ≠ a → s'.authorities[a]? = s.authorities[a]?
  singletons : s'.singletons = s.singletons
  controls : s'.controls = s.controls
  auditProjectors : s'.auditProjectors = s.auditProjectors

/-- The record of `authority` takes a step of `command` and nothing else changes. -/
structure EditsAuthority (authority : AuthorityKey) (command : OwnershipCommand)
    (s s' : OwnershipState) : Prop extends OnlyAuthority authority s s' where
  step : AuthorityStep authority command s.authorities[authority]? s'.authorities[authority]?

variable {command : OwnershipCommand} {nowUnix : Int64} {applied : AppliedMeta}

section AuthorityEdits

variable {s s' : OwnershipState} {authority : AuthorityKey}

theorem EditsAuthority.refl : EditsAuthority authority command s s :=
  ⟨⟨fun _ _ => rfl, rfl, rfl, rfl⟩, .same _⟩

theorem EditsAuthority.put {r : Option AuthorityRecord} {record : AuthorityRecord}
    (found : s.authorities[authority]? = r)
    (step : AuthorityStep authority command r (some record)) :
    EditsAuthority authority command s (s.putAuthority authority record) := by
  refine ⟨⟨fun _ h => get_insert_of_ne _ _ h, rfl, rfl, rfl⟩, ?_⟩
  rw [found, putAuthority, get_insert_self]
  exact step

theorem EditsAuthority.authorityStep (edits : EditsAuthority authority command s s')
    (a : AuthorityKey) : AuthorityStep a command s.authorities[a]? s'.authorities[a]? := by
  by_cases h : authority = a
  · subst h
    exact edits.step
  · rw [edits.others a h]
    exact .same _

theorem assignHome_edits (home : DatacenterId) (cause : AssignmentCause) (applied : AppliedMeta) :
    EditsAuthority authority command s (s.assignHome authority home cause applied).1 := by
  unfold assignHome
  split
  · exact .refl
  case h_2 absent => exact .put absent (.assigned _ rfl rfl)

variable {epoch : AuthorityEpoch} {id : String}

theorem finishWrite_edits (ended : command = .finishEpochWrite authority epoch id) :
    EditsAuthority authority command s (s.finishWrite authority epoch id).1 := by
  unfold finishWrite
  split
  · exact .refl
  case h_2 record present =>
    split
    · exact .refl
    case isFalse owned =>
      refine .put present (.finished record epoch id ended fun lease hlease => ?_)
      simpa [hlease] using owned

theorem beginWrite_edits {issued expires : Int64}
    (begun : command = .beginEpochWrite authority epoch id issued expires) :
    EditsAuthority authority command s (s.beginWrite authority epoch id issued expires).1 := by
  have timed : command.timed = some (authority, issued) := by rw [begun]; rfl
  unfold beginWrite
  split
  · exact .refl
  case h_2 record present =>
    dsimp only
    split
    · exact .put present (.expired record issued timed)
    case isFalse current =>
      obtain rfl : record.epoch = epoch := not_not.mp current
      split
      · exact .put present (.expired record issued timed)
      · exact .put present (.leased record id issued expires begun)

section

variable (timed : command.timed = some (authority, nowUnix))

include timed

theorem advanceEpoch_edits :
    EditsAuthority authority command s (s.advanceEpoch authority nowUnix).1 := by
  unfold advanceEpoch
  split
  · exact .refl
  case h_2 record present =>
    dsimp only
    split
    · exact .put present (.expired record nowUnix timed)
    case isFalse quiet =>
      exact .put present (.moved record nowUnix record.home timed (by simpa using quiet))

theorem transfer_edits {newHome : DatacenterId} :
    EditsAuthority authority command s (s.transfer authority newHome nowUnix).1 := by
  unfold transfer
  split
  · exact .refl
  case h_2 record present =>
    split
    · exact .refl
    · dsimp only
      split
      · exact .put present (.expired record nowUnix timed)
      case isFalse quiet =>
        exact .put present (.moved record nowUnix newHome timed (by simpa using quiet))

theorem forget_edits : EditsAuthority authority command s (s.forget authority nowUnix).1 := by
  unfold forget
  split
  · exact .refl
  case h_2 record present =>
    dsimp only
    split
    · exact .put present (.expired record nowUnix timed)
    case isFalse quiet =>
      refine ⟨⟨fun _ h => get_erase_of_ne _ h, rfl, rfl, rfl⟩, ?_⟩
      rw [present, get_erase_self]
      exact .forgotten record nowUnix timed (by simpa using quiet)

end

theorem applyControl_edits {command : ControlCommand} {r : OwnershipState × OwnershipEffect}
    (key : String) (h : s.applyControl command nowUnix = some r) :
    ∃ authority, EditsAuthority authority (.attemptControl key command nowUnix) s r.1 := by
  cases command with
  | transferAuthority authority newHome intent =>
    cases h
    exact ⟨authority, transfer_edits rfl⟩
  | advanceEpoch authority =>
    cases h
    exact ⟨authority, advanceEpoch_edits rfl⟩
  | forgetAuthority authority =>
    cases h
    exact ⟨authority, forget_edits rfl⟩
  | addLearner | promoteVoter | removeVoter | replaceVoter => cases h

end AuthorityEdits

/-! ## Keyed attempts -/

/-- The ways an attempt to bind `key` to `command` resolves, over the state
`p` left by the prune. -/
inductive Attempted (p : OwnershipState) (key : String) (command : ControlCommand)
    (nowUnix : Int64) (applied : AppliedMeta) : OwnershipState × ControlResolution → Prop
  | keyReuse (record : ControlRecord) (bound : p.controls[key]? = some record)
      (other : record.command ≠ command) : Attempted p key command nowUnix applied (p, .keyReuse)
  | running (record : ControlRecord) (bound : p.controls[key]? = some record)
      (same : record.command = command) (unsettled : record.receipt = none) :
      Attempted p key command nowUnix applied (p, .claimed)
  | replayed (record : ControlRecord) (receipt : CommandReceipt)
      (bound : p.controls[key]? = some record) (same : record.command = command)
      (settled : record.receipt = some receipt) :
      Attempted p key command nowUnix applied (p, .replayed receipt)
  | claimed (unbound : p.controls[key]? = none)
      (membership : p.applyControl command nowUnix = none) :
      Attempted p key command nowUnix applied
        (p.bindControl key command nowUnix none none ∅, .claimed)
  | rejected (p' : OwnershipState) (effect : OwnershipEffect) (rejection : ControlRejection)
      (unbound : p.controls[key]? = none)
      (carried : p.applyControl command nowUnix = some (p', effect))
      (failed : controlOutcome effect = .error rejection) :
      Attempted p key command nowUnix applied (p', .rejected rejection)
  | decided (p' : OwnershipState) (effect : OwnershipEffect) (outcome : CommandOutcome)
      (unbound : p.controls[key]? = none)
      (carried : p.applyControl command nowUnix = some (p', effect))
      (succeeded : controlOutcome effect = .ok outcome) :
      Attempted p key command nowUnix applied (p'.bindControl key command nowUnix
          (some (decisionReceipt applied outcome (p'.sealTransferAudit command applied)))
          (p'.sealTransferAudit command applied)
          (if (p'.sealTransferAudit command applied).isSome then p'.auditProjectors else ∅),
        .committed (decisionReceipt applied outcome (p'.sealTransferAudit command applied)))

theorem attemptControl_attempted (s : OwnershipState) (key : String)
    (command : ControlCommand) (nowUnix : Int64) (applied : AppliedMeta) :
    Attempted (s.pruneControls nowUnix) key command nowUnix applied
      (s.attemptControl key command nowUnix applied) := by
  unfold attemptControl
  dsimp only
  split
  case h_1 record bound =>
    by_cases same : record.command = command
    · rw [if_neg (not_not.mpr same)]
      split
      case h_1 unsettled => exact .running record bound same unsettled
      case h_2 receipt settled => exact .replayed record receipt bound same settled
    · rw [if_pos same]
      exact .keyReuse record bound same
  case h_2 unbound =>
    split
    case h_1 membership => exact .claimed unbound membership
    case h_2 p' effect carried =>
      split
      case h_1 rejection failed => exact .rejected p' effect rejection unbound carried failed
      case h_2 outcome succeeded => exact .decided p' effect outcome unbound carried succeeded

/-! ## Singleton decisions -/

/-- The record of `job`; a missing one reads as never granted. -/
def singleton (s : OwnershipState) (job : String) : SingletonRecord :=
  s.singletons[job]?.getD {}

/-- The two states differ in the record of `job` at most. -/
structure OnlySingleton (job : String) (s s' : OwnershipState) : Prop where
  others : ∀ j, job ≠ j → s'.singleton j = s.singleton j
  authorities : s'.authorities = s.authorities
  controls : s'.controls = s.controls
  auditProjectors : s'.auditProjectors = s.auditProjectors

inductive SingletonStep (job : String) (command : OwnershipCommand) (applied : AppliedMeta) :
    SingletonRecord → SingletonRecord → OwnershipEffect → Prop
  | elsewhere (record : SingletonRecord) (effect : OwnershipEffect)
      (other : command.job ≠ some job) :
      SingletonStep job command applied record record effect
  | held (record : SingletonRecord) (holder : String) :
      SingletonStep job command applied record record (.singletonHeld holder)
  | refused (record : SingletonRecord) (rejection : Rejection) :
      SingletonStep job command applied record record (.rejected rejection)
  | acquired (record : SingletonRecord) (holder : String) (nowUnix expires : Int64)
      (asked : command = .acquireSingletonLease job holder nowUnix expires)
      (bounded : boundedSingletonLease nowUnix expires = true)
      (free : ∀ hold, record.held = some hold → hold.lapsed nowUnix = true) :
      SingletonStep job command applied record
        ⟨record.generation + 1, some ⟨holder, applied.term, expires⟩⟩
        (.singletonAcquired holder applied.term (record.generation + 1) expires)
  | renewed (record : SingletonRecord) (holder : String) (term : Nat)
      (nowUnix expires : Int64)
      (asked : command = .renewSingletonLease job holder term record.generation nowUnix expires)
      (bounded : boundedSingletonLease nowUnix expires = true)
      (hold : SingletonHold) (standing : record.held = some hold)
      (owned : hold.ownedBy holder term = true) (live : hold.lapsed nowUnix = false) :
      SingletonStep job command applied record
        ⟨record.generation, some ⟨holder, term, expires⟩⟩ (.singletonRenewed expires)
  | released (record : SingletonRecord) (holder : String) (term : Nat) (nowUnix : Int64)
      (asked : command = .releaseSingletonLease job holder term record.generation nowUnix)
      (hold : SingletonHold) (standing : record.held = some hold)
      (owned : hold.ownedBy holder term = true) (live : hold.lapsed nowUnix = false) :
      SingletonStep job command applied record ⟨record.generation, none⟩ .singletonReleased

/-- The record of `job` takes a step of `command` and nothing else changes. -/
structure EditsSingleton (job : String) (command : OwnershipCommand) (applied : AppliedMeta)
    (s : OwnershipState) (r : OwnershipState × OwnershipEffect) : Prop
    extends OnlySingleton job s r.1 where
  step : SingletonStep job command applied (s.singleton job) (r.1.singleton job) r.2

section SingletonEdits

variable {s : OwnershipState} {job holder : String} {generation term : Nat} {expires : Int64}

theorem EditsSingleton.refused (rejection : Rejection) :
    EditsSingleton job command applied s (s, .rejected rejection) :=
  ⟨⟨fun _ _ => rfl, rfl, rfl, rfl⟩, .refused _ _⟩

theorem singleton_putSingleton (record : SingletonRecord) :
    (s.putSingleton job record).singleton job = record := by
  rw [singleton, putSingleton, get_insert_self]
  rfl

variable {record : SingletonRecord}

theorem EditsSingleton.put {effect : OwnershipEffect}
    (step : SingletonStep job command applied (s.singleton job) record effect) :
    EditsSingleton job command applied s (s.putSingleton job record, effect) := by
  refine ⟨⟨fun j h => ?_, rfl, rfl, rfl⟩, ?_⟩
  · rw [singleton, singleton, putSingleton, get_insert_of_ne _ _ h]
  · show SingletonStep job command applied _ ((s.putSingleton job record).singleton job) effect
    rw [singleton_putSingleton]
    exact step

theorem ownedSingleton_eq_some
    (h : s.ownedSingleton job holder term generation nowUnix = some record) :
    s.singleton job = record ∧ record.generation = generation ∧
      ∃ hold, record.held = some hold ∧ hold.ownedBy holder term = true ∧
        hold.lapsed nowUnix = false := by
  obtain ⟨present, owned⟩ := filter_eq_some_iff.mp h
  rw [Bool.and_eq_true, beq_iff_eq, any_eq_true] at owned
  obtain ⟨same, hold, standing, live⟩ := owned
  rw [Bool.and_eq_true, Bool.not_eq_true'] at live
  refine ⟨?_, same, hold, standing, live.1, live.2⟩
  rw [singleton, present]
  rfl

theorem acquireSingleton_edits
    (asked : command = .acquireSingletonLease job holder nowUnix expires) :
    EditsSingleton job command applied s
      (s.acquireSingleton job holder nowUnix expires applied) := by
  unfold acquireSingleton
  split
  · exact .refused _
  case isFalse bounded =>
    have bounded : boundedSingletonLease nowUnix expires = true := by simpa using bounded
    dsimp only
    split
    case h_1 hold standing => exact .put (.held _ _)
    case h_2 free =>
      refine .put (.acquired _ holder nowUnix expires asked bounded fun hold standing => ?_)
      have standing : (s.singletons[job]?.getD {}).held = some hold := standing
      simpa [standing] using free

theorem renewSingleton_edits
    (asked : command = .renewSingletonLease job holder term generation nowUnix expires) :
    EditsSingleton job command applied s
      (s.renewSingleton job holder term generation nowUnix expires) := by
  unfold renewSingleton
  split
  · exact .refused _
  case isFalse bounded =>
    have bounded : boundedSingletonLease nowUnix expires = true := by simpa using bounded
    split
    · exact .refused _
    case h_2 record owned =>
      obtain ⟨rfl, rfl, hold, standing, mine, live⟩ := ownedSingleton_eq_some owned
      exact .put (.renewed _ holder term nowUnix expires asked bounded hold standing mine live)

theorem releaseSingleton_edits
    (asked : command = .releaseSingletonLease job holder term generation nowUnix) :
    EditsSingleton job command applied s
      (s.releaseSingleton job holder term generation nowUnix) := by
  unfold releaseSingleton
  split
  · exact .refused _
  case h_2 record owned =>
    obtain ⟨rfl, rfl, hold, standing, mine, live⟩ := ownedSingleton_eq_some owned
    exact .put (.released _ holder term nowUnix asked hold standing mine live)

end SingletonEdits

/-! ## Control records -/

/-- The two states differ in their control records at most. -/
structure OnlyControls (s s' : OwnershipState) : Prop where
  authorities : s'.authorities = s.authorities
  singletons : s'.singletons = s.singletons
  auditProjectors : s'.auditProjectors = s.auditProjectors

/-- What a decision taken at `s` may do to the control record of `key`. The
prune comes first, so the later cases see the record only if it is retained. -/
inductive ControlStep (key : String) (s : OwnershipState) (command : OwnershipCommand)
    (applied : AppliedMeta) : Option ControlRecord → Option ControlRecord → Prop
  | untouched (r : Option ControlRecord) (untimed : command.controlTime = none) :
      ControlStep key s command applied r r
  | pruned (r : Option ControlRecord) (t : Int64) (timed : command.controlTime = some t) :
      ControlStep key s command applied r (r.filter (·.retained t))
  | claimed (r : Option ControlRecord) (bound : ControlCommand) (t : Int64)
      (asked : command = .attemptControl key bound t)
      (unbound : r.filter (·.retained t) = none) (membership : bound.target = none) :
      ControlStep key s command applied r (some ⟨bound, t, none, none, ∅⟩)
  | decided (r : Option ControlRecord) (bound : ControlCommand) (t : Int64)
      (p' : OwnershipState) (effect : OwnershipEffect) (outcome : CommandOutcome)
      (asked : command = .attemptControl key bound t)
      (unbound : r.filter (·.retained t) = none)
      (carried : (s.pruneControls t).applyControl bound t = some (p', effect))
      (succeeded : controlOutcome effect = .ok outcome) :
      ControlStep key s command applied r (some ⟨bound, t,
          some (decisionReceipt applied outcome (p'.sealTransferAudit bound applied)),
          p'.sealTransferAudit bound applied,
          if (p'.sealTransferAudit bound applied).isSome then s.auditProjectors else ∅⟩)
  | settledNew (r : Option ControlRecord) (bound : ControlCommand)
      (receipt : CommandReceipt) (t : Int64)
      (asked : command = .settleControl key bound receipt t)
      (unbound : r.filter (·.retained t) = none) :
      ControlStep key s command applied r (some ⟨bound, t, some receipt, none, ∅⟩)
  | settledBound (record : ControlRecord) (bound : ControlCommand)
      (receipt : CommandReceipt) (t : Int64)
      (asked : command = .settleControl key bound receipt t)
      (retained : record.retained t = true) :
      ControlStep key s command applied (some record)
        (some { record with receipt := some (record.receipt.getD receipt) })
  | released (record : ControlRecord) (t : Int64)
      (asked : command = .releaseControl key record.command t)
      (unsettled : record.receipt = none) :
      ControlStep key s command applied (some record) none
  | completed (record : ControlRecord) (projector : String)
      (asked : command = .completeTransferAudit key projector) :
      ControlStep key s command applied (some record) (some (completeRecord record projector))

/-- A settled record that the time of the decision retains is left or completed. -/
theorem ControlStep.of_settled {key : String} {s : OwnershipState} {command : OwnershipCommand}
    {applied : AppliedMeta} {record : ControlRecord} {r : Option ControlRecord}
    {receipt : CommandReceipt} (step : ControlStep key s command applied (some record) r)
    (settled : record.receipt = some receipt)
    (retained : ∀ t, command.controlTime = some t → record.retained t = true) :
    r = some record ∨ ∃ projector, command = .completeTransferAudit key projector ∧
      r = some (completeRecord record projector) := by
  have bound : ∀ {t}, command.controlTime = some t →
      (some record).filter (·.retained t) = some record :=
    fun timed => by rw [Option.filter_some, if_pos (retained _ timed)]
  cases step with
  | untouched => exact .inl rfl
  | pruned _ t timed => exact .inl (bound timed)
  | claimed _ _ t asked unbound => cases (bound (by rw [asked]; rfl)).symm.trans unbound
  | decided _ _ t _ _ _ asked unbound => cases (bound (by rw [asked]; rfl)).symm.trans unbound
  | settledNew _ _ _ t asked unbound => cases (bound (by rw [asked]; rfl)).symm.trans unbound
  | settledBound => exact .inl (by rw [settled, Option.getD_some, ← settled])
  | released _ t asked unsettled => cases settled.symm.trans unsettled
  | completed _ projector asked => exact .inr ⟨projector, asked, rfl⟩

theorem applyControl_eq_none {s : OwnershipState} {command : ControlCommand} :
    s.applyControl command nowUnix = none ↔ command.target = none := by
  cases command <;> simp [applyControl, ControlCommand.target]

/-! ## `apply` only takes such steps -/

/-- What a decision may do to every part of the state. -/
structure Takes (s : OwnershipState) (command : OwnershipCommand) (applied : AppliedMeta)
    (r : OwnershipState × OwnershipEffect) : Prop where
  authority : ∀ a, AuthorityStep a command s.authorities[a]? r.1.authorities[a]?
  singleton : ∀ job,
    SingletonStep job command applied (s.singleton job) (r.1.singleton job) r.2
  control : ∀ key, ControlStep key s command applied s.controls[key]? r.1.controls[key]?
  auditProjectors : r.1.auditProjectors = s.auditProjectors

section Takes

variable {s s' : OwnershipState}
  {r : OwnershipState × OwnershipEffect}

theorem singletonStep_of_eq {effect : OwnershipEffect} (h : s'.singletons = s.singletons)
    (unaddressed : command.job = none) (job : String) :
    SingletonStep job command applied (s.singleton job) (s'.singleton job) effect := by
  have same : s'.singleton job = s.singleton job := by rw [singleton, singleton, h]
  rw [same]
  exact .elsewhere _ _ (by rw [unaddressed]; exact nofun)

theorem controlStep_of_eq (h : s'.controls = s.controls)
    (untimed : command.controlTime = none) (key : String) :
    ControlStep key s command applied s.controls[key]? s'.controls[key]? := by
  rw [h]
  exact .untouched _ untimed

theorem EditsAuthority.takes {authority : AuthorityKey}
    (edits : EditsAuthority authority command s r.1) (unaddressed : command.job = none)
    (untimed : command.controlTime = none) : Takes s command applied r where
  authority := edits.authorityStep
  singleton := singletonStep_of_eq edits.singletons unaddressed
  control := controlStep_of_eq edits.controls untimed
  auditProjectors := edits.auditProjectors

theorem EditsSingleton.takes {job : String} (edits : EditsSingleton job command applied s r)
    (addressed : command.job = some job) (untimed : command.controlTime = none) :
    Takes s command applied r where
  authority a := by
    rw [edits.authorities]
    exact .same _
  singleton j := by
    by_cases h : job = j
    · subst h
      exact edits.step
    · rw [edits.others j h]
      exact .elsewhere _ _ fun hj => h (Option.some.inj (addressed.symm.trans hj))
  control := controlStep_of_eq edits.controls untimed
  auditProjectors := edits.auditProjectors

theorem OnlyControls.takes (only : OnlyControls s r.1) (unaddressed : command.job = none)
    (control : ∀ key, ControlStep key s command applied s.controls[key]? r.1.controls[key]?) :
    Takes s command applied r where
  authority a := by
    rw [only.authorities]
    exact .same _
  singleton := singletonStep_of_eq only.singletons unaddressed
  control := control
  auditProjectors := only.auditProjectors

section Control

variable {p : OwnershipState} (timed : command.controlTime = some nowUnix)
  (rest : p.controls = (s.pruneControls nowUnix).controls)

include timed rest

theorem controlStep_of_pruned (key : String) :
    ControlStep key s command applied s.controls[key]? p.controls[key]? := by
  rw [rest, get_pruneControls]
  exact .pruned _ nowUnix timed

theorem ControlStep.put {key : String} {record : ControlRecord}
    (named : ControlStep key s command applied s.controls[key]? (some record)) (k : String) :
    ControlStep k s command applied s.controls[k]? (p.putControl key record).controls[k]? := by
  rw [putControl, get_insert]
  split
  case isTrue hk =>
    subst hk
    exact named
  · exact controlStep_of_pruned timed rest k

end Control

theorem attemptControl_takes (s : OwnershipState) (key : String) (command : ControlCommand)
    (nowUnix : Int64) (applied : AppliedMeta) :
    Takes s (.attemptControl key command nowUnix) applied
      (s.apply (.attemptControl key command nowUnix) applied) := by
  have h := attemptControl_attempted s key command nowUnix applied
  dsimp only [apply]
  generalize s.attemptControl key command nowUnix applied = r at h ⊢
  cases h with
  | keyReuse | running | replayed =>
    exact OnlyControls.takes ⟨rfl, rfl, rfl⟩ rfl (controlStep_of_pruned rfl rfl)
  | claimed unbound membership =>
    rw [get_pruneControls] at unbound
    exact OnlyControls.takes ⟨rfl, rfl, rfl⟩ rfl (ControlStep.put rfl rfl
      (.claimed _ command nowUnix rfl unbound (applyControl_eq_none.mp membership)))
  | rejected p' effect rejection unbound carried failed =>
    obtain ⟨_, edits⟩ := applyControl_edits key carried
    exact ⟨edits.authorityStep, singletonStep_of_eq edits.singletons rfl,
      controlStep_of_pruned rfl edits.controls, edits.auditProjectors⟩
  | decided p' effect outcome unbound carried succeeded =>
    obtain ⟨_, edits⟩ := applyControl_edits key carried
    rw [get_pruneControls] at unbound
    have same : p'.auditProjectors = s.auditProjectors := edits.auditProjectors
    refine ⟨edits.authorityStep, singletonStep_of_eq edits.singletons rfl,
      ControlStep.put rfl edits.controls ?_, same⟩
    rw [same]
    exact .decided _ command nowUnix p' effect outcome rfl unbound carried succeeded

theorem settleControl_takes (key : String) (command : ControlCommand) (receipt : CommandReceipt)
    (nowUnix : Int64) : Takes s (.settleControl key command receipt nowUnix) applied
      (s.apply (.settleControl key command receipt nowUnix) applied) := by
  refine OnlyControls.takes ⟨rfl, rfl, rfl⟩ rfl (ControlStep.put rfl rfl ?_)
  rw [get_pruneControls]
  cases hr : s.controls[key]?.filter (·.retained nowUnix) with
  | none => exact .settledNew _ command receipt nowUnix rfl hr
  | some record =>
    obtain ⟨present, retained⟩ := filter_eq_some_iff.mp hr
    rw [present]
    exact .settledBound record command receipt nowUnix rfl retained

theorem releaseControl_takes (key : String) (command : ControlCommand) (nowUnix : Int64) :
    Takes s (.releaseControl key command nowUnix) applied
      (s.apply (.releaseControl key command nowUnix) applied) := by
  dsimp only [apply, releaseControl]
  split
  case isFalse => exact OnlyControls.takes ⟨rfl, rfl, rfl⟩ rfl (controlStep_of_pruned rfl rfl)
  case isTrue hfree =>
    refine OnlyControls.takes ⟨rfl, rfl, rfl⟩ rfl fun k => ?_
    rw [get_erase]
    split
    case isFalse => exact controlStep_of_pruned rfl rfl k
    case isTrue hk =>
      subst hk
      rw [get_pruneControls, any_eq_true] at hfree
      obtain ⟨record, kept, free⟩ := hfree
      rw [Bool.and_eq_true, isNone_iff_eq_none, beq_iff_eq] at free
      obtain ⟨unsettled, rfl⟩ := free
      rw [(filter_eq_some_iff.mp kept).1]
      exact .released record nowUnix rfl unsettled

theorem completeTransferAudit_takes (key projector : String) :
    Takes s (.completeTransferAudit key projector) applied
      (s.apply (.completeTransferAudit key projector) applied) := by
  dsimp only [apply, completeTransferAudit]
  split
  · exact OnlyControls.takes ⟨rfl, rfl, rfl⟩ rfl (controlStep_of_eq rfl rfl)
  case h_2 record present =>
    refine OnlyControls.takes ⟨rfl, rfl, rfl⟩ rfl fun k => ?_
    simp only [putControl, get_insert]
    split
    case isFalse => exact .untouched _ rfl
    case isTrue hk =>
      subst hk
      rw [present]
      exact .completed record projector rfl

end Takes

/-- **Step.** Every decision takes such a step, in each part of the state. -/
theorem apply_takes (s : OwnershipState) (command : OwnershipCommand) (applied : AppliedMeta) :
    Takes s command applied (s.apply command applied) := by
  cases command with
  | assignHome authority home cause => exact (assignHome_edits ..).takes rfl rfl
  | advanceAuthorityEpoch authority nowUnix => exact (advanceEpoch_edits rfl).takes rfl rfl
  | beginEpochWrite authority epoch id issued expires =>
    exact (beginWrite_edits rfl).takes rfl rfl
  | finishEpochWrite authority epoch id => exact (finishWrite_edits rfl).takes rfl rfl
  | recordTransfer authority newHome nowUnix => exact (transfer_edits rfl).takes rfl rfl
  | forgetAuthority authority nowUnix => exact (forget_edits rfl).takes rfl rfl
  | acquireSingletonLease job holder nowUnix expires =>
    exact (acquireSingleton_edits rfl).takes rfl rfl
  | renewSingletonLease job holder term generation nowUnix expires =>
    exact (renewSingleton_edits rfl).takes rfl rfl
  | releaseSingletonLease job holder term generation nowUnix =>
    exact (releaseSingleton_edits rfl).takes rfl rfl
  | attemptControl key command nowUnix => exact attemptControl_takes ..
  | settleControl key command receipt nowUnix => exact settleControl_takes ..
  | releaseControl key command nowUnix => exact releaseControl_takes ..
  | completeTransferAudit key projector => exact completeTransferAudit_takes ..

end OwnershipState

end Peryx
