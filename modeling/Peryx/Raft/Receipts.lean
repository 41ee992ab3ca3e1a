import Peryx.Raft.ControlWindow

/-!
# Where receipts and audits come from

A control record keeps a receipt and, for a transfer, a sealed audit; both are
traced back to the log.

A settlement looks its key up without comparing commands, so one that arrives
after its key was bound anew leaves its receipt with the other command
(`late_settlement_lands_on_another_command`). An audit copies its source from
the request, and a transfer to the current home seals one too
(`audit_of_a_move_that_did_not_happen`).

- `receipts_belong_to_their_command`: whose receipt a record keeps.
- `audits_describe_their_decision`: what a sealed audit says.
-/

namespace Peryx

open OwnershipState List Option Machine

/-! ## Answered receipts are stored -/

def OwnershipEffect.receipt : OwnershipEffect → Option CommandReceipt
  | .control (.committed receipt) => some receipt
  | .control (.replayed receipt) => some receipt
  | .controlSettled receipt => some receipt
  | _ => none

/-- The event that settles `command` under `key`. -/
def settleEvent (key : String) (command : ControlCommand) (receipt : CommandReceipt)
    (nowUnix : Int64) (logId : LogId) : ReplicaEvent :=
  .entry ⟨logId, .normal (.settleControl key command receipt nowUnix)⟩

theorem attemptControl_receipt_stored {s : OwnershipState} {key : String}
    {command : ControlCommand} {t : Int64} {applied : AppliedMeta} {receipt : CommandReceipt}
    (h : (OwnershipEffect.control (s.attemptControl key command t applied).2).receipt =
      some receipt) :
    ∃ record, (s.attemptControl key command t applied).1.controls[key]? = some record ∧
      record.command = command ∧ record.receipt = some receipt := by
  have attempted := attemptControl_attempted s key command t applied
  generalize s.attemptControl key command t applied = r at attempted h ⊢
  cases attempted with
  | keyReuse | running | claimed | rejected => cases h
  | replayed record receipt' bound same settled =>
    cases h
    exact ⟨record, bound, same, settled⟩
  | decided p' effect outcome unbound carried succeeded =>
    cases h
    exact ⟨_, BTreeMap.get_insert_self .., rfl, rfl⟩

theorem settleControl_receipt_stored (s : OwnershipState) (key : String)
    (command : ControlCommand) (given : CommandReceipt) (t : Int64) :
    ∃ record, (s.settleControl key command given t).1.controls[key]? = some record ∧
      record.receipt = some (s.settleControl key command given t).2 ∧
      ((∀ bound, s.controls[key]? = some bound → bound.retained t = true →
        bound.command = command) → record.command = command) := by
  refine ⟨_, BTreeMap.get_insert_self .., rfl, fun own => ?_⟩
  rw [get_pruneControls]
  cases kept : s.controls[key]?.filter (·.retained t) with
  | none => rfl
  | some bound =>
    obtain ⟨present, retained⟩ := filter_eq_some_iff.mp kept
    exact own bound present retained

/-! ## Receipts -/

variable {events : List ReplicaEvent}

section Receipts

variable {Bytes : Type} (codec : Codec OwnershipState Bytes)

/-- Some decision of the history attempted `command` and committed `receipt`. -/
def Decided (events : List ReplicaEvent) (command : ControlCommand)
    (receipt : CommandReceipt) : Prop :=
  ∃ before after key t logId, events = before ++ attemptEvent key command t logId :: after ∧
    Machine.answer (Inner.event codec) (Inner.history codec before)
      (attemptEvent key command t logId) = some (.applied (.control (.committed receipt)))

/-- The receipt was produced by executing `command`: outside the log, as a
settlement says, or by a decision of the history. -/
def Produced (executed : ControlCommand → CommandReceipt → Prop)
    (events : List ReplicaEvent) (command : ControlCommand) (receipt : CommandReceipt) :
    Prop :=
  executed command receipt ∨ Decided codec events command receipt

def ReplicaEvent.SettlesExecuted (executed : ControlCommand → CommandReceipt → Prop) :
    ReplicaEvent → Prop
  | .entry ⟨_, .normal (.settleControl _ command receipt _)⟩ => executed command receipt
  | _ => True

/-- A settlement whose key is bound, and stays bound through the prune at its
own time, finds it bound to the command it carries. -/
def SettlesOwnCommand (inner : Inner Bytes) : ReplicaEvent → Prop
  | .entry ⟨_, .normal (.settleControl key command _ t)⟩ =>
    ∀ record, inner.state.controls[key]? = some record → record.retained t = true →
      record.command = command
  | _ => True

variable {codec}

variable {command : ControlCommand}

theorem Decided.append {receipt : CommandReceipt} (h : Decided codec events command receipt)
    (event : ReplicaEvent) : Decided codec (events ++ [event]) command receipt := by
  obtain ⟨before, after, key, t, logId, rfl, answered⟩ := h
  exact ⟨before, after ++ [event], key, t, logId, by simp, answered⟩

variable {key : String} {event : ReplicaEvent}

theorem attemptControl_of_decided {s p' : OwnershipState}
    {t : Int64} {applied : AppliedMeta}
    {effect : OwnershipEffect} {outcome : CommandOutcome}
    (unbound : s.controls[key]?.filter (·.retained t) = none)
    (carried : (s.pruneControls t).applyControl command t = some (p', effect))
    (succeeded : controlOutcome effect = .ok outcome) :
    (s.attemptControl key command t applied).2 =
      .committed (decisionReceipt applied outcome (p'.sealTransferAudit command applied)) := by
  unfold attemptControl
  dsimp only
  rw [get_pruneControls, unbound]
  rw [carried]
  dsimp only
  rw [succeeded]

/-- How a key came to the record it has after one more event: it had it
before, perhaps with its audit since completed; the event claimed it; a
decision committed it; or a settlement handed its receipt in, under its own
command or under the one the key was bound to. -/
inductive RecordOrigin (codec : Codec OwnershipState Bytes) (events : List ReplicaEvent)
    (event : ReplicaEvent) (key : String) (record' : ControlRecord) : Prop
  | kept (record : ControlRecord)
      (present : (Inner.history codec events).state.controls[key]? = some record)
      (command : record'.command = record.command) (receipt : record'.receipt = record.receipt)
      (audit : ∀ audit, record'.audit = some audit → record.audit = some audit)
  | claimed (receipt : record'.receipt = none) (audit : record'.audit = none)
  | decided (t : Int64) (logId : LogId) (receipt : CommandReceipt)
      (asked : event = attemptEvent key record'.command t logId)
      (answered : Machine.answer (Inner.event codec) (Inner.history codec events) event =
        some (.applied (.control (.committed receipt))))
      (settled : record'.receipt = some receipt) (audit : record'.audit = receipt.transferAudit)
  | settled (bound : ControlCommand) (given : CommandReceipt) (t : Int64) (logId : LogId)
      (asked : event = settleEvent key bound given t logId)
      (settled : record'.receipt = some given)
      (found : record'.command = bound ∨ ∃ record : ControlRecord,
        (Inner.history codec events).state.controls[key]? = some record ∧
          record.retained t = true ∧ record.command = record'.command)
      (audit : ∀ audit, record'.audit = some audit → ∃ record : ControlRecord,
        (Inner.history codec events).state.controls[key]? = some record ∧
          record.audit = some audit)

theorem audit_of_completeRecord {projector : String} {record : ControlRecord}
    {audit : TransferAudit} (pending : (completeRecord record projector).audit = some audit) :
    record.audit = some audit := by
  unfold completeRecord at pending
  dsimp only at pending
  split at pending
  · cases pending
  · exact pending

/-- **Step.** Every record after an event has an origin. -/
theorem recordOrigin {record' : ControlRecord}
    (after : (Inner.history codec (events ++ [event])).state.controls[key]? = some record') :
    RecordOrigin codec events event key record' := by
  have consistent := Inner.consistent_history codec events
  have step := consistent.recordEvent codec event key
  rw [Inner.history_concat] at after
  rw [after] at step
  generalize before : (Inner.history codec events).state.controls[key]? = r at step
  generalize hr' : some record' = r' at step
  cases step with
  | same => exact .kept record' (before.trans hr'.symm) rfl rfl fun _ pending => pending
  | membership logId membership =>
    obtain ⟨record, present, rfl⟩ := map_eq_some_iff.mp hr'.symm
    subst present
    have sealed := consistent.controls key record before
    obtain ⟨command, -, receipt⟩ := sealed.reproject_answer
      (auditProjectors ⟨some logId, membership⟩)
    exact .kept record before command receipt fun _ => sealed.audit_of_reproject
  | decision logId command _ _ step =>
    cases step with
    | untouched => exact .kept record' (before.trans hr'.symm) rfl rfl fun _ pending => pending
    | pruned =>
      have present := (filter_eq_some_iff.mp hr'.symm).1
      exact .kept record' (before.trans present) rfl rfl fun _ pending => pending
    | claimed =>
      cases hr'
      exact .claimed rfl rfl
    | decided _ bound t p' effect outcome asked unbound carried succeeded =>
      cases hr'
      subst asked
      rw [← before] at unbound
      exact .decided t logId _ rfl
        (congrArg (fun resolution => some (OwnershipResponse.applied (.control resolution)))
          (attemptControl_of_decided unbound carried succeeded)) rfl rfl
    | settledNew _ bound receipt t asked =>
      cases hr'
      subst asked
      exact .settled bound receipt t logId rfl rfl (.inl rfl) nofun
    | settledBound record bound receipt t asked retained =>
      cases hr'
      subst asked
      cases standing : record.receipt with
      | some first => exact .kept record before rfl (by rw [standing]; rfl) fun _ pending => pending
      | none =>
        -- the first receipt under this claim: the settlement's own
        exact .settled bound receipt t logId rfl rfl
          (.inr ⟨record, before, retained, rfl⟩) fun _ pending => ⟨record, before, pending⟩
    | released => cases hr'
    | completed record projector =>
      cases hr'
      exact .kept record before rfl rfl fun _ => audit_of_completeRecord

/-- Every receipt stored after `events` meets `Q` at its record's command. -/
def StoredReceipts (codec : Codec OwnershipState Bytes)
    (Q : List ReplicaEvent → ControlCommand → CommandReceipt → Prop)
    (events : List ReplicaEvent) : Prop :=
  ∀ (key : String) (record : ControlRecord) (receipt : CommandReceipt),
    (Inner.history codec events).state.controls[key]? = some record →
      record.receipt = some receipt → Q events record.command receipt

theorem StoredReceipts.append
    {Q : List ReplicaEvent → ControlCommand → CommandReceipt → Prop}
    (h : StoredReceipts codec Q events)
    (mono : ∀ command receipt, Q events command receipt →
      Q (events ++ [event]) command receipt)
    (decided : ∀ key command t logId receipt, event = attemptEvent key command t logId →
      Machine.answer (Inner.event codec) (Inner.history codec events) event =
        some (.applied (.control (.committed receipt))) →
      Q (events ++ [event]) command receipt)
    (settles : ∀ key bound given t logId command,
      event = settleEvent key bound given t logId →
      (command = bound ∨ ∃ record : ControlRecord,
        (Inner.history codec events).state.controls[key]? = some record ∧
          record.retained t = true ∧ record.command = command) →
      Q (events ++ [event]) command given) :
    StoredReceipts codec Q (events ++ [event]) := by
  intro key record' receipt' after settled
  cases recordOrigin after with
  | kept record present command receipt =>
    rw [command]
    exact mono _ _ (h key record receipt' present (receipt.symm.trans settled))
  | claimed unsettled => cases unsettled.symm.trans settled
  | decided t logId receipt asked answered stored =>
    cases stored.symm.trans settled
    exact decided key record'.command t logId _ asked answered
  | settled bound given t logId asked stored found =>
    cases stored.symm.trans settled
    exact settles key bound _ t logId record'.command asked found

theorem storedReceipts_nil (Q : List ReplicaEvent → ControlCommand → CommandReceipt → Prop) :
    StoredReceipts codec Q [] := by
  intro key record receipt present
  simp [Inner.history, new] at present

end Receipts

/-- **A receipt belongs to its command.** Over every history whose settlements
carry receipts of executing their own command and find their key, if it is
still bound, bound to that command: every stored receipt was produced for its
record's command, and so is every receipt a later attempt or settlement under
that key and command answers. -/
theorem receipts_belong_to_their_command {Bytes : Type} (codec : Codec OwnershipState Bytes)
    (executed : ControlCommand → CommandReceipt → Prop) (events : List ReplicaEvent)
    (settlements : ∀ e ∈ events, e.SettlesExecuted executed)
    (own : Machine.Along (Inner.event codec) SettlesOwnCommand {} events) :
    StoredReceipts codec (Produced codec executed) events ∧
    ∀ (before : List ReplicaEvent) (key : String) (command : ControlCommand) (t : Int64)
        (logId : LogId) (receipt : CommandReceipt),
      (events = before ++ [attemptEvent key command t logId] →
        Machine.answer (Inner.event codec) (Inner.history codec before)
          (attemptEvent key command t logId) = some (.applied (.control (.replayed receipt))) →
        Produced codec executed events command receipt) ∧
      ∀ given, events = before ++ [settleEvent key command given t logId] →
        Machine.answer (Inner.event codec) (Inner.history codec before)
          (settleEvent key command given t logId) = some (.applied (.controlSettled receipt)) →
        Produced codec executed events command receipt := by
  have receipted : StoredReceipts codec (Produced codec executed) events := by
    induction events using reverseRecOn with
    | nil => exact storedReceipts_nil _
    | append_singleton events event ih =>
      obtain ⟨ownBefore, ownLast, -⟩ := (along_append _ _ _ _).mp own
      refine (ih (fun e he => settlements e (mem_append_left _ he)) ownBefore).append
        (fun _ _ produced => produced.imp id (·.append event)) ?_ ?_
      · rintro key command t logId receipt rfl committed
        exact .inr ⟨events, [], key, t, logId, rfl, committed⟩
      · rintro key bound given t logId command rfl found
        have executed : executed bound given :=
          settlements (settleEvent key bound given t logId) (by simp)
        rcases found with rfl | ⟨record, present, retained, rfl⟩
        · exact .inl executed
        · rw [ownLast record present retained]
          exact .inl executed
  refine ⟨receipted, fun before key command t logId receipt => ⟨?_, ?_⟩⟩
  · rintro rfl answered
    obtain ⟨record, present, rfl, settled⟩ :=
      attemptControl_receipt_stored (by rw [answer_attemptEvent answered]; rfl)
    refine receipted key record receipt ?_ settled
    rw [Inner.history_concat]
    exact present
  · rintro given rfl answered
    have standing : ((Inner.history codec before).state.settleControl key command given t).2 =
        receipt := by
      simpa [Machine.answer, Inner.event, Inner.apply, settleEvent, OwnershipState.apply]
        using answered
    obtain ⟨record, present, settled, same⟩ :=
      settleControl_receipt_stored (Inner.history codec before).state key command given t
    obtain ⟨-, ownLast, -⟩ := (along_append _ _ _ _).mp own
    rw [standing] at settled
    have reached : (Inner.history codec
        (before ++ [settleEvent key command given t logId])).state.controls[key]? =
          some record := by
      rw [Inner.history_concat]
      exact present
    have belongs := receipted key record receipt reached settled
    rwa [same ownLast] at belongs

/-- What adding the learner `a` answered. -/
def learnerReceipt : CommandReceipt :=
  { term := 1, index := 2, outcome := .committed, oldVoters := ["east"],
    newVoters := ["east"], transferAudit := none }

theorem receipts_belong_to_their_command_learner :
    Produced (Codec.id OwnershipState)
      (fun command receipt => command = .addLearner "a" "url" ∧ receipt = learnerReceipt)
      [attemptEvent "k" (.addLearner "a" "url") 0 ⟨1, 1, 1⟩,
        settleEvent "k" (.addLearner "a" "url") learnerReceipt 1 ⟨1, 1, 2⟩]
      (.addLearner "a" "url") learnerReceipt := by
  refine ((receipts_belong_to_their_command (Codec.id OwnershipState)
    (fun command receipt => command = .addLearner "a" "url" ∧ receipt = learnerReceipt)
    [attemptEvent "k" (.addLearner "a" "url") 0 ⟨1, 1, 1⟩,
      settleEvent "k" (.addLearner "a" "url") learnerReceipt 1 ⟨1, 1, 2⟩] ?_ ?_).2
    [attemptEvent "k" (.addLearner "a" "url") 0 ⟨1, 1, 1⟩] "k" (.addLearner "a" "url") 1
    ⟨1, 1, 2⟩ learnerReceipt).2 learnerReceipt rfl (by decide +kernel)
  · intro e he
    simp only [mem_cons, not_mem_nil, or_false] at he
    rcases he with rfl | rfl
    · exact trivial
    · exact ⟨rfl, rfl⟩
  · refine ⟨trivial, fun record present _ => ?_, trivial⟩
    have stored : (Inner.history (Codec.id OwnershipState)
        [attemptEvent "k" (.addLearner "a" "url") 0 ⟨1, 1, 1⟩]).state.controls["k"]? =
          some ⟨.addLearner "a" "url", 0, none, none, ∅⟩ := by decide +kernel
    cases stored.symm.trans present
    rfl

/-- A claim for the learner `a` fails and is released, its key is bound to a
promotion of `b`, and then the settlement of the first claim arrives. -/
def lateSettlement : List ReplicaEvent :=
  [attemptEvent "k" (.addLearner "a" "url") 0 ⟨1, 1, 1⟩,
    .entry ⟨⟨1, 1, 2⟩, .normal (.releaseControl "k" (.addLearner "a" "url") 1)⟩,
    attemptEvent "k" (.promoteVoter "b") 2 ⟨1, 1, 3⟩,
    settleEvent "k" (.addLearner "a" "url") learnerReceipt 3 ⟨1, 1, 4⟩]

/-- The late settlement is stored under the promotion, and a retry of the
promotion is answered with the learner's receipt. -/
theorem late_settlement_lands_on_another_command :
    (∀ e ∈ lateSettlement, e.SettlesExecuted
      (fun command receipt => command = .addLearner "a" "url" ∧ receipt = learnerReceipt)) ∧
    (Inner.history (Codec.id OwnershipState) lateSettlement).state.controls["k"]? =
      some ⟨.promoteVoter "b", 2, some learnerReceipt, none, ∅⟩ ∧
    Machine.answer (Inner.event (Codec.id OwnershipState))
        (Inner.history (Codec.id OwnershipState) lateSettlement)
        (attemptEvent "k" (.promoteVoter "b") 4 ⟨1, 1, 5⟩) =
      some (.applied (.control (.replayed learnerReceipt))) ∧
    ¬ Produced (Codec.id OwnershipState)
      (fun command receipt => command = .addLearner "a" "url" ∧ receipt = learnerReceipt)
      lateSettlement (.promoteVoter "b") learnerReceipt := by
  refine ⟨?_, by decide +kernel, by decide +kernel, ?_⟩
  · intro e he
    simp only [lateSettlement, mem_cons, not_mem_nil, or_false] at he
    rcases he with rfl | rfl | rfl | rfl
    · exact trivial
    · exact trivial
    · exact trivial
    · exact ⟨rfl, rfl⟩
  · rintro (⟨h, -⟩ | ⟨before, after, key, t, logId, split, committed⟩)
    · cases h
    · have said := answer_mem_answers (Inner.event (Codec.id OwnershipState)) {}
        before after (attemptEvent key (.promoteVoter "b") t logId)
      rw [← split] at said
      have never : some (.applied (.control (.committed learnerReceipt))) ∉
          Machine.answers (Inner.event (Codec.id OwnershipState)) {} lateSettlement := by
        decide +kernel
      exact never (committed ▸ said)

/-! ## Audits -/

theorem transfer_cases (s : OwnershipState) (authority : AuthorityKey)
    (newHome : DatacenterId) (t : Int64) :
    (s.transfer authority newHome t).2 = .rejected .notAssigned ∨
    (s.transfer authority newHome t).2 = .rejected .writesInFlight ∨
    (s.home authority = some newHome ∧
      s.transfer authority newHome t = (s, .rejected .sameHome)) ∨
    ∃ home, s.home authority = some home ∧ home ≠ newHome ∧
      (s.transfer authority newHome t).2 =
        .transferred home newHome ((s.transfer authority newHome t).1.epoch authority) := by
  unfold transfer
  split
  · exact .inl rfl
  case h_2 record present =>
    by_cases same : record.home = newHome
    · refine .inr (.inr (.inl ⟨?_, by rw [if_pos same]⟩))
      rw [OwnershipState.home, present, ← same]
      rfl
    · rw [if_neg same]
      dsimp only
      split
      · exact .inr (.inl rfl)
      · refine .inr (.inr (.inr ⟨record.home, ?_, same, ?_⟩))
        · rw [OwnershipState.home, present]
          rfl
        · simp [OwnershipState.epoch, AuthorityRecord.expireWrites]

theorem transfer_pruneControls (s : OwnershipState) (authority : AuthorityKey)
    (newHome : DatacenterId) (now t : Int64) :
    ((s.pruneControls now).transfer authority newHome t).2 =
      (s.transfer authority newHome t).2 := by
  unfold transfer
  rw [show (s.pruneControls now).authorities = s.authorities from rfl]
  split
  · rfl
  · split
    · rfl
    · dsimp only
      split <;> rfl

section Audits

variable {Bytes : Type} (codec : Codec OwnershipState Bytes)

/-- The audit was sealed by a decision of the history on a keyed transfer. It
copies the request, it is stamped with the decision's log position, and it
names the epoch the decision left the authority at, the target being where it
moved it or where it stood already. -/
def AuditSealed (events : List ReplicaEvent) (audit : TransferAudit) : Prop :=
  ∃ before after key authority newHome intent t logId receipt,
    let attempt := attemptEvent key (.transferAuthority authority newHome (some intent)) t logId
    let s := (Inner.history codec before).state
    events = before ++ attempt :: after ∧
    Machine.answer (Inner.event codec) (Inner.history codec before) attempt =
      some (.applied (.control (.committed receipt))) ∧
    receipt.transferAudit = some audit ∧
    (audit.authority = authority ∧ audit.source = intent.source ∧ audit.target = newHome ∧
      audit.actor = intent.actor ∧ audit.reason = intent.reason ∧
      audit.barrier = intent.barrier ∧
      audit.commitTerm = logId.term ∧ audit.commitIndex = logId.index) ∧
    ((∃ home, s.home authority = some home ∧ home ≠ newHome ∧
        (s.transfer authority newHome t).2 = .transferred home newHome audit.epoch ∧
        receipt.outcome = .committed) ∨
      ((s.transfer authority newHome t).2 = .rejected .sameHome ∧
        s.home authority = some newHome ∧ s.epoch authority = audit.epoch ∧
        receipt.outcome = .noChange))

def AuditCarried (events : List ReplicaEvent) (audit : TransferAudit) : Prop :=
  ∃ key command given t logId, settleEvent key command given t logId ∈ events ∧
    given.transferAudit = some audit

def AuditSourced (events : List ReplicaEvent) (_ : ControlCommand)
    (receipt : CommandReceipt) : Prop :=
  ∀ audit, receipt.transferAudit = some audit →
    AuditSealed codec events audit ∨ AuditCarried events audit

variable {codec}

variable {audit : TransferAudit}

theorem AuditSealed.append (h : AuditSealed codec events audit) (event : ReplicaEvent) :
    AuditSealed codec (events ++ [event]) audit := by
  obtain ⟨before, after, key, authority, newHome, intent, t, logId, receipt, rfl, rest⟩ := h
  exact ⟨before, after ++ [event], key, authority, newHome, intent, t, logId, receipt,
    by simp, rest⟩

theorem AuditSourced.append {command : ControlCommand}
    {receipt : CommandReceipt} (h : AuditSourced codec events command receipt)
    (event : ReplicaEvent) : AuditSourced codec (events ++ [event]) command receipt := by
  intro audit carried
  rcases h audit carried with sealed | ⟨key, command, given, t, logId, mem, rest⟩
  · exact .inl (sealed.append event)
  · exact .inr ⟨key, command, given, t, logId, mem_append_left _ mem, rest⟩

theorem auditSealed_of_committed {key : String}
    {command : ControlCommand} {t : Int64} {logId : LogId} {receipt : CommandReceipt}
    (committed : Machine.answer (Inner.event codec) (Inner.history codec events)
      (attemptEvent key command t logId) = some (.applied (.control (.committed receipt))))
    (carries : receipt.transferAudit = some audit) :
    AuditSealed codec (events ++ [attemptEvent key command t logId]) audit := by
  have answered := answer_attemptEvent committed
  generalize hs : (Inner.history codec events).state = s at answered
  have attempted := attemptControl_attempted s key command t logId.applied
  generalize s.attemptControl key command t logId.applied = r at attempted answered
  cases attempted with
  | keyReuse | running | replayed | claimed | rejected => cases answered
  | decided p' effect outcome unbound carried succeeded =>
    cases answered
    -- only a transfer that states its intent is sealed
    cases command with
    | addLearner | promoteVoter | removeVoter | replaceVoter => cases carries
    | advanceEpoch | forgetAuthority => cases carries
    | transferAuthority authority newHome intent =>
      cases intent with
      | none => cases carries
      | some intent =>
        cases carries
        refine ⟨events, [], key, authority, newHome, intent, t, logId, _, rfl,
          committed, rfl, ⟨rfl, rfl, rfl, rfl, rfl, rfl, rfl, rfl⟩, ?_⟩
        have moved : (s.pruneControls t).transfer authority newHome t = (p', effect) :=
          Option.some.inj carried
        have answer : effect = (s.transfer authority newHome t).2 := by
          rw [← transfer_pruneControls s authority newHome t t, moved]
        have cases := transfer_cases (s.pruneControls t) authority newHome t
        rw [moved] at cases
        dsimp only at cases
        rw [hs]
        rcases cases with rfl | rfl | ⟨homed, same⟩ | ⟨home, homed, other, rfl⟩
        · cases succeeded
        · cases succeeded
        · cases same
          cases succeeded
          exact .inr ⟨answer.symm, homed, rfl, rfl⟩
        · cases succeeded
          exact .inl ⟨home, homed, other, answer.symm, rfl⟩

theorem auditSourced_history (events : List ReplicaEvent) :
    StoredReceipts codec (AuditSourced codec) events := by
  induction events using reverseRecOn with
  | nil => exact storedReceipts_nil _
  | append_singleton events event ih =>
    refine ih.append (fun _ _ sourced => sourced.append event) ?_ ?_
    · rintro key command t logId receipt rfl committed audit carries
      exact .inl (auditSealed_of_committed committed carries)
    · rintro key bound given t logId command rfl - audit carries
      exact .inr ⟨key, bound, given, t, logId, by simp, carries⟩

theorem auditSealed_history (events : List ReplicaEvent) :
    ∀ (key : String) (record : ControlRecord) (audit : TransferAudit),
      (Inner.history codec events).state.controls[key]? = some record →
      record.audit = some audit → AuditSealed codec events audit := by
  induction events using reverseRecOn with
  | nil =>
    intro key record audit present
    simp [Inner.history, new] at present
  | append_singleton events event ih =>
    intro key record' audit after pending
    cases recordOrigin after with
    | kept record present _ _ audits =>
      exact (ih key record audit present (audits audit pending)).append event
    | claimed _ unsealed => cases unsealed.symm.trans pending
    | decided t logId receipt asked answered _ carried =>
      subst asked
      exact auditSealed_of_committed answered (carried.symm.trans pending)
    | settled _ _ _ _ _ _ _ audits =>
      obtain ⟨record, present, sealed⟩ := audits audit pending
      exact (ih key record audit present sealed).append event

end Audits

/-- **An audit describes its decision.** After every history, a record's
pending audit was sealed by a decision as `AuditSealed` says; so was an audit
in a stored receipt, or in a receipt an attempt or a settlement answers,
unless it came with a settlement's own receipt. -/
theorem audits_describe_their_decision {Bytes : Type} (codec : Codec OwnershipState Bytes)
    (events : List ReplicaEvent) :
    (∀ (key : String) (record : ControlRecord) (audit : TransferAudit),
      (Inner.history codec events).state.controls[key]? = some record →
      (record.audit = some audit → AuditSealed codec events audit) ∧
      ∀ receipt, record.receipt = some receipt → receipt.transferAudit = some audit →
        AuditSealed codec events audit ∨ AuditCarried events audit) ∧
    (∀ (before : List ReplicaEvent) (key : String) (command : ControlCommand) (t : Int64)
        (logId : LogId) (effect : OwnershipEffect) (receipt : CommandReceipt)
        (audit : TransferAudit) (last : ReplicaEvent),
      (last = attemptEvent key command t logId ∨
        ∃ given, last = settleEvent key command given t logId) →
      events = before ++ [last] →
      Machine.answer (Inner.event codec) (Inner.history codec before) last =
        some (.applied effect) →
      effect.receipt = some receipt → receipt.transferAudit = some audit →
      AuditSealed codec events audit ∨ AuditCarried events audit) := by
  refine ⟨fun key record audit present => ⟨auditSealed_history events key record audit present,
    fun receipt settled => auditSourced_history events key record receipt present settled audit⟩,
    ?_⟩
  rintro before key command t logId effect receipt audit last asked rfl answered handed carries
  have stored : ∃ record : ControlRecord,
      (Inner.history codec (before ++ [last])).state.controls[key]? = some record ∧
        record.receipt = some receipt := by
    rw [Inner.history_concat]
    rcases asked with rfl | ⟨given, rfl⟩
    · cases answered
      obtain ⟨record, present, -, settled⟩ := attemptControl_receipt_stored handed
      exact ⟨record, present, settled⟩
    · cases answered
      cases handed
      obtain ⟨record, present, settled, -⟩ :=
        settleControl_receipt_stored (Inner.history codec before).state key command given t
      exact ⟨record, present, settled⟩
  obtain ⟨record, present, settled⟩ := stored
  exact auditSourced_history _ key record receipt present settled audit carries

/-- An operator names `south` as the source of an authority homed at `east`,
and then asks to move it to `west`, where it stands already. -/
def misnamedTransfers : List ReplicaEvent :=
  eastHomed ++
    [attemptEvent "k1" (.transferAuthority "pypi" "west" (some ⟨"south", "op", "drill", 7⟩))
        100 ⟨1, 1, 3⟩,
      attemptEvent "k2" (.transferAuthority "pypi" "west" (some ⟨"south", "op", "drill", 7⟩))
        101 ⟨1, 1, 4⟩]

theorem audits_describe_their_decision_misnamed :
    AuditSealed (Codec.id OwnershipState) misnamedTransfers
      ⟨"pypi", "south", "west", "op", "drill", 7, 2, 1, 3⟩ :=
  ((audits_describe_their_decision (Codec.id OwnershipState) misnamedTransfers).1 "k1"
    ⟨.transferAuthority "pypi" "west" (some ⟨"south", "op", "drill", 7⟩), 100,
      some (decisionReceipt ⟨1, 3⟩ .committed
        (some ⟨"pypi", "south", "west", "op", "drill", 7, 2, 1, 3⟩)),
      some ⟨"pypi", "south", "west", "op", "drill", 7, 2, 1, 3⟩, {"east"}⟩ _
    (by decide +kernel)).1 rfl

/-- Both attempts seal an audit. The first moved the authority, but from `east`
and not from the audit's source; the second moved nothing. -/
theorem audit_of_a_move_that_did_not_happen :
    ((Inner.history (Codec.id OwnershipState) (misnamedTransfers.take 2)).state.transfer
        "pypi" "west" 100).2 = .transferred "east" "west" 2 ∧
    ((Inner.history (Codec.id OwnershipState) misnamedTransfers).state.controls["k1"]?.bind
        (·.audit)) = some ⟨"pypi", "south", "west", "op", "drill", 7, 2, 1, 3⟩ ∧
    ((Inner.history (Codec.id OwnershipState) (misnamedTransfers.take 3)).state.transfer
        "pypi" "west" 101).2 = .rejected .sameHome ∧
    ((Inner.history (Codec.id OwnershipState) misnamedTransfers).state.controls["k2"]?.bind
        (·.audit)) = some ⟨"pypi", "south", "west", "op", "drill", 7, 2, 1, 4⟩ := by
  decide +kernel

end Peryx
