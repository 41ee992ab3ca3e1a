import Peryx.Raft.Receipts

/-!
# No transfer audit is lost

An audit sealed for a roster of voters is owed by each of them until that
voter reports it stored or leaves the roster.

- `transfer_audit_never_lost`: who owes a sealed audit, along every run.
-/

namespace Peryx

open OwnershipState List Option Finset

/-- The record holds `audit`, which `projector` has not reported storing. -/
structure ControlRecord.Owes (projector : String) (audit : TransferAudit)
    (record : ControlRecord) : Prop where
  pending : record.audit = some audit
  owed : projector ∈ record.auditProjectors

variable {key projector : String} {audit : TransferAudit}

theorem mem_pendingTransferAudits {s : OwnershipState} :
    { id := key, audit } ∈ s.pendingTransferAudits projector ↔
      ∃ record, s.controls[key]? = some record ∧ record.Owes projector audit := by
  unfold pendingTransferAudits
  rw [List.mem_filterMap]
  constructor
  · rintro ⟨⟨key', record⟩, mem, listed⟩
    obtain ⟨audit', pending, rest⟩ := bind_eq_some_iff.mp listed
    split at rest
    case isFalse => cases rest
    case isTrue owed =>
      cases rest
      exact ⟨record, Std.ExtTreeMap.mem_toList_iff_getElem?_eq_some.mp mem, pending, owed⟩
  · rintro ⟨record, present, pending, owed⟩
    refine ⟨(key, record), Std.ExtTreeMap.mem_toList_iff_getElem?_eq_some.mpr present, ?_⟩
    dsimp only
    rw [pending, bind_some, if_pos owed]

/-- The events that may end what `projector` owes under `key`: its own
completion, or a non-empty roster it is not in. -/
def ReplicaEvent.Clears (key projector : String) : ReplicaEvent → Prop
  | .entry ⟨_, .normal (.completeTransferAudit k p)⟩ => k = key ∧ p = projector
  | .entry ⟨logId, .membership membership⟩ =>
    auditProjectors ⟨some logId, membership⟩ ≠ ∅ ∧
      projector ∉ auditProjectors ⟨some logId, membership⟩
  | _ => False

namespace ControlRecord.Owes

variable {record : ControlRecord}

section

variable (h : record.Owes projector audit)

include h

theorem retained (t : Int64) :
    record.retained t = true := by
  rw [ControlRecord.retained, h.pending]
  rfl

theorem restrict {left : Finset String} (mem : projector ∈ left) :
    ControlRecord.Owes projector audit
      { record with
        auditProjectors := left
        audit := if left = ∅ then none else record.audit } where
  pending := by
    rw [if_neg (ne_empty_of_mem mem)]
    exact h.pending
  owed := mem

/-- **Step, decisions.** Pruning, attempts, settlements, releases and other
projectors' completions leave the debt. -/
theorem controlStep
    {s : OwnershipState} {command : OwnershipCommand} {applied : AppliedMeta}
    {r : Option ControlRecord} (sealed : record.Sealed s.auditProjectors)
    (step : ControlStep key s command applied (some record) r)
    (kept : command ≠ .completeTransferAudit key projector) :
    ∃ record', r = some record' ∧ record'.Owes projector audit := by
  -- a sealed record has its receipt, so it is never an unfinished claim
  obtain ⟨receipt, settled, -⟩ := sealed.copied audit h.pending
  obtain rfl | ⟨other, asked, rfl⟩ := step.of_settled settled fun t _ => h.retained t
  · exact ⟨record, rfl, h⟩
  · have ne : projector ≠ other := by
      rintro rfl
      exact kept asked
    exact ⟨_, rfl, h.restrict (mem_erase.mpr ⟨ne, h.owed⟩)⟩

/-- **Step, rosters.** An empty roster, or one with the projector in it,
leaves the debt. -/
theorem reproject {roster projectors : Finset String}
    (sealed : record.Sealed roster) (kept : projectors ≠ ∅ → projector ∈ projectors) :
    (OwnershipState.reproject projectors record).Owes projector audit := by
  unfold OwnershipState.reproject
  rw [sealed.copyAudit_eq]
  split
  · exact h
  case isFalse some =>
    rw [if_neg fun unbound => ne_empty_of_mem h.owed unbound.2]
    exact h.restrict (mem_inter.mpr ⟨h.owed, kept some⟩)

end

end ControlRecord.Owes

/-- **Run.** A debt outlives every run of events that do not clear it. -/
theorem owes_exec {Bytes : Type} (codec : Codec OwnershipState Bytes) {inner : Inner Bytes}
    {record : ControlRecord}
    (consistent : inner.Consistent) (present : inner.state.controls[key]? = some record)
    (h : record.Owes projector audit) (events : List ReplicaEvent)
    (kept : ∀ e ∈ events, ¬ e.Clears key projector) :
    ∃ record', (Machine.exec (Inner.event codec) inner events).state.controls[key]? =
        some record' ∧ record'.Owes projector audit := by
  refine consistent.record_exec (fun kept sealed h step => ?_) codec present h events kept
  cases step with
  | same => exact ⟨_, rfl, h⟩
  | decision logId command _ _ step =>
    refine h.controlStep sealed step ?_
    rintro rfl
    exact kept ⟨rfl, rfl⟩
  | membership logId membership =>
    refine ⟨_, rfl, h.reproject sealed fun some => ?_⟩
    by_contra gone
    exact kept ⟨some, gone⟩

theorem owes_of_committed {s : OwnershipState}
    {command : ControlCommand} {t : Int64} {applied : AppliedMeta} {receipt : CommandReceipt}
    (committed : (s.attemptControl key command t applied).2 = .committed receipt)
    (carries : receipt.transferAudit = some audit) (voter : projector ∈ s.auditProjectors) :
    ∃ record, (s.attemptControl key command t applied).1.controls[key]? = some record ∧
      record.Owes projector audit := by
  have attempted := attemptControl_attempted s key command t applied
  generalize s.attemptControl key command t applied = r at attempted committed ⊢
  cases attempted with
  | keyReuse | running | replayed | claimed | rejected => cases committed
  | decided p' effect outcome unbound carried succeeded =>
    cases committed
    obtain ⟨_, edits⟩ := applyControl_edits key carried
    have sealed : p'.sealTransferAudit command applied = some audit := carries
    refine ⟨_, BTreeMap.get_insert_self .., sealed, ?_⟩
    rw [sealed, isSome_some, if_pos rfl, edits.auditProjectors]
    exact voter

/-- **No transfer audit is lost.** Let an attempt seal an audit while the voter
roster is not empty. Over every later history of entries and restarts, each
voter of that roster has it in its pending list until its own completion of
that key, or a non-empty roster without it, is applied. -/
theorem transfer_audit_never_lost {Bytes : Type} (codec : Codec OwnershipState Bytes)
    (before after : List ReplicaEvent) (key projector : String) (command : ControlCommand)
    (t : Int64) (logId : LogId) (receipt : CommandReceipt) (audit : TransferAudit)
    (committed : Machine.answer (Inner.event codec) (Inner.history codec before)
      (attemptEvent key command t logId) = some (.applied (.control (.committed receipt))))
    (carries : receipt.transferAudit = some audit)
    (voter : projector ∈ auditProjectors (Inner.history codec before).lastMembership)
    (kept : ∀ e ∈ after, ¬ e.Clears key projector) :
    { id := key, audit } ∈ (Inner.history codec
      (before ++ attemptEvent key command t logId :: after)).state.pendingTransferAudits
        projector := by
  have consistent := Inner.consistent_history codec before
  obtain ⟨record, present, owes⟩ := owes_of_committed (answer_attemptEvent committed) carries
    (consistent.roster ▸ voter)
  rw [mem_pendingTransferAudits, Inner.history, Machine.exec_append]
  exact owes_exec codec (consistent.event codec (attemptEvent key command t logId)) present
    owes after kept

theorem transfer_audit_never_lost_east :
    { id := "k1", audit := ⟨"pypi", "south", "west", "op", "drill", 7, 2, 1, 3⟩ } ∈
      (Inner.history (Codec.id OwnershipState) (eastHomed ++
        attemptEvent "k1" (.transferAuthority "pypi" "west" (some ⟨"south", "op", "drill", 7⟩))
          100 ⟨1, 1, 3⟩ ::
        [.restart, attemptEvent "k2" (.promoteVoter "b") 9000 ⟨1, 1, 4⟩,
          .entry ⟨⟨1, 1, 5⟩, .normal (.completeTransferAudit "k1" "north")⟩])
        ).state.pendingTransferAudits "east" := by
  refine transfer_audit_never_lost (Codec.id OwnershipState) eastHomed _ "k1" "east"
    (.transferAuthority "pypi" "west" (some ⟨"south", "op", "drill", 7⟩)) 100 ⟨1, 1, 3⟩
    (decisionReceipt ⟨1, 3⟩ .committed
      (some ⟨"pypi", "south", "west", "op", "drill", 7, 2, 1, 3⟩)) _
    (by decide +kernel) rfl (by decide +kernel) ?_
  intro e he
  simp only [List.mem_cons, not_mem_nil, or_false] at he
  rcases he with rfl | rfl | rfl
  · exact id
  · exact id
  · rintro ⟨-, other⟩
    exact absurd other (by decide)

end Peryx
