import Peryx.Storage.OperationOutcome

/-!
# Finalization happens once per attempt

The outcome of an operation is checked in the transaction that would write it
(`meta/finalize.rs`), so whoever calls, in whatever order, one body commits. An
attempt lasts until its record is pruned or a restart finds it terminal.

- `exec_final`: a final record stays while its attempt lasts.
- `finalized_once_per_attempt`: how often a body commits.
-/

namespace Peryx

open Machine BTreeMap List

variable {Bytes E : Type} {record : OperationOutcomeRecord} {operation : String}

/-! ## The ledger, one operation at a time -/

namespace Outcomes

variable {outcomes : Outcomes}

section

variable (final : outcomes.Final operation record)

include final

theorem Final.pending :
    outcomes.pending operation = .error (.alreadyFinal operation) := by
  rw [Outcomes.pending, final.1]
  exact if_pos final.2

theorem Final.insert {other : String} (ne : other ≠ operation) (written : OperationOutcomeRecord) :
    Final (outcomes.insert other written) operation record :=
  ⟨(get_insert_of_ne _ _ ne).trans final.1, final.2⟩

theorem Final.of_pending {other : String}
    {r : OperationOutcomeRecord} (pending : outcomes.pending other = .ok r)
    (written : OperationOutcomeRecord) :
    Final (outcomes.insert other written) operation record := by
  refine final.insert ?_ written
  rintro rfl
  rw [final.pending] at pending
  cases pending

theorem Final.checkpoint (call : BodyCall Bytes) :
    Final (WriteBody.checkpoint outcomes call) operation record := by
  cases call with
  | driver op => exact final
  | checkpoint other response now =>
    rw [WriteBody.checkpoint]
    cases done : outcomes.checkpointPendingOperation other response now with
    | error => exact final
    | ok outcomes' =>
      obtain ⟨r, pending, written⟩ := Except.bind_eq_ok.mp done
      cases written
      exact final.of_pending pending _

end

/-- **Run.** The same for all the checkpoints of a body. -/
theorem Final.checkpoints (calls : List (BodyCall Bytes))
    (final : outcomes.Final operation record) :
    Final (calls.foldl WriteBody.checkpoint outcomes) operation record := by
  induction calls generalizing outcomes with
  | nil => exact final
  | cons call calls ih => exact ih (final.checkpoint call)

theorem get_foldl_erase (keys : List String) (outcomes : Outcomes) :
    operation ∉ keys → (keys.foldl (·.erase ·) outcomes)[operation]? = outcomes[operation]? := by
  induction keys generalizing outcomes with
  | nil => exact fun _ => rfl
  | cons key keys ih =>
    intro kept
    obtain ⟨other, kept⟩ := not_or.mp (mt mem_cons.mpr kept)
    rw [foldl_cons, ih _ kept]
    exact get_erase_of_ne _ (Ne.symm other)

end Outcomes

/-! ## Attempts -/

/-- The call ends the operation's attempt: a prune that removes its record, or a
restart that finds it final. -/
def OperationCall.Ends (operation : String) (store : OperationStore Bytes) :
    OperationCall Bytes E → Prop
  | restart other _ _ =>
    other = operation ∧
      (store.outcomes[operation]?.any fun record => record.state.isTerminal) = true
  | prune now limit => operation ∈ store.outcomes.doomed now limit
  | _ => False

namespace OperationStore

variable {fromMeta : MetaError → E} {store : OperationStore Bytes}

/-- **Step.** A final record is kept by every call that does not end its
attempt. -/
theorem step_final (final : store.outcomes.Final operation record) {call : OperationCall Bytes E}
    (goesOn : ¬ call.Ends operation store) :
    Outcomes.Final (Machine.next (step fromMeta) store call).outcomes operation record := by
  cases call with
  | claim other expiryUnix now =>
    show Outcomes.Final (store.outcomes.claimOperation other expiryUnix now).1 operation record
    unfold Outcomes.claimOperation
    cases found : store.outcomes[other]? with
    | some => exact final
    | none =>
      refine final.insert ?_ _
      rintro rfl
      rw [final.1] at found
      cases found
  | restart other expiryUnix now =>
    show Outcomes.Final (store.outcomes.restartOperation other expiryUnix now).1 operation record
    have ne : other ≠ operation := by
      rintro rfl
      exact goesOn ⟨rfl, by rw [final.1]; exact final.2⟩
    unfold Outcomes.restartOperation
    split
    · exact final
    · exact final.insert ne _
  | finalize other result response now =>
    rw [Machine.next, step]
    cases done : store.outcomes.finalizeOperation other result response now with
    | error => exact final
    | ok =>
      obtain ⟨r, pending, written⟩ := Except.bind_eq_ok.mp done
      cases written
      exact final.of_pending pending _
  | commitFinalized write body clock collectorActive =>
    show Outcomes.Final
      (store.commitFinalizedWrite fromMeta write body clock collectorActive).1.outcomes _ _
    obtain ⟨error, -, done⟩ | ⟨staged, ran, ⟨r, -, done⟩ | ⟨fresh, done⟩⟩ :=
      commitFinalizedWrite_cases fromMeta store write body clock collectorActive
    · rw [done]
      exact final
    · rw [done]
      exact final
    · have kept := final.checkpoints body.calls
      rw [← (runBody_eq_ok ran).1] at kept
      rw [done]
      refine kept.insert ?_ _
      rintro rfl
      exact fresh ⟨record, kept⟩
  | driver body clock collectorActive =>
    rw [Machine.next, step]
    cases ran : store.runBody fromMeta body clock collectorActive with
    | error => exact final
    | ok staged =>
      show Outcomes.Final staged.outcomes operation record
      rw [(runBody_eq_ok ran).1]
      exact final.checkpoints body.calls
  | prune now limit =>
    exact ⟨(Outcomes.get_foldl_erase _ _ goesOn).trans final.1, final.2⟩
  | intent call => exact final
  | aborted error => exact final

variable (calls : List (OperationCall Bytes E))

theorem exec_final (final : store.outcomes.Final operation record)
    (goesOn : Along (step fromMeta) (fun store call => ¬ call.Ends operation store) store calls) :
    Outcomes.Final (exec (step fromMeta) store calls).outcomes operation record :=
  exec_invariant (step fromMeta) (I := fun store => store.outcomes.Final operation record)
    (fun _ _ final goesOn => step_final final goesOn) store calls final goesOn

/-! ## Publications -/

def publishes (operation : String) : OperationCall Bytes E × OperationAnswer E → Bool
  | (.commitFinalized write _ _ _, .committed (.ok .published)) => write.operation == operation
  | _ => false

def publications (fromMeta : MetaError → E) (operation : String) (store : OperationStore Bytes)
    (calls : List (OperationCall Bytes E)) : Nat :=
  (calls.zip (Machine.answers (step fromMeta) store calls)).countP (publishes operation)

theorem final_of_publishes {call : OperationCall Bytes E}
    (published : publishes operation (call, Machine.answer (step fromMeta) store call) = true) :
    (¬ ∃ record, store.outcomes.Final operation record) ∧
      ∃ record, Outcomes.Final (Machine.next (step fromMeta) store call).outcomes operation
        record := by
  cases call with
  | commitFinalized write body clock collectorActive =>
    have answer : Machine.answer (step fromMeta) store (.commitFinalized write body clock
        collectorActive) = .committed
          (store.commitFinalizedWrite fromMeta write body clock collectorActive).2 := rfl
    have next : Machine.next (step fromMeta) store (.commitFinalized write body clock
        collectorActive) =
          (store.commitFinalizedWrite fromMeta write body clock collectorActive).1 := rfl
    obtain ⟨error, -, done⟩ | ⟨staged, ran, ⟨r, -, done⟩ | ⟨fresh, done⟩⟩ :=
      commitFinalizedWrite_cases fromMeta store write body clock collectorActive
    · rw [answer, done] at published
      cases published
    · rw [answer, done] at published
      cases published
    · rw [answer, done] at published
      obtain rfl : write.operation = operation := beq_iff_eq.mp published
      constructor
      · rintro ⟨record, final⟩
        have kept := final.checkpoints body.calls
        rw [← (runBody_eq_ok ran).1] at kept
        exact fresh ⟨record, kept⟩
      · rw [next, done]
        exact ⟨publishedRecord write, get_insert_self .., rfl⟩
  | _ => cases published

theorem publications_of_final (final : store.outcomes.Final operation record)
    (goesOn : Along (step fromMeta) (fun store call => ¬ call.Ends operation store) store
      calls) : publications fromMeta operation store calls = 0 := by
  induction calls generalizing store with
  | nil => rfl
  | cons call calls ih =>
    have rest := ih (step_final final goesOn.1) goesOn.2
    have here : ¬ publishes operation (call, Machine.answer (step fromMeta) store call) = true :=
      fun published => (final_of_publishes published).1 ⟨record, final⟩
    rw [publications, Machine.answers, zip_cons_cons, countP_cons_of_neg here]
    exact rest

/-- **Run.** Within an attempt at most one body commits. -/
theorem publications_le_one (store : OperationStore Bytes)
    (goesOn : Along (step fromMeta) (fun store call => ¬ call.Ends operation store) store
      calls) : publications fromMeta operation store calls ≤ 1 := by
  induction calls generalizing store with
  | nil => exact Nat.zero_le _
  | cons call calls ih =>
    rw [publications, Machine.answers, zip_cons_cons]
    by_cases here : publishes operation (call, Machine.answer (step fromMeta) store call) = true
    · obtain ⟨record, final⟩ := (final_of_publishes here).2
      have rest := publications_of_final calls final goesOn.2
      rw [publications] at rest
      rw [countP_cons_of_pos here, rest]
    · rw [countP_cons_of_neg here]
      exact ih _ goesOn.2

/-! ## The intent a write names -/

theorem advanceIntentToAdmitted_settles {intents : IntentTables} {intentKey : String} {now : Int64}
    (named : intentKey ≠ "") {intent : StagedIntent}
    (found : (advanceIntentToAdmitted intents intentKey now).intents[intentKey]? = some intent) :
    intent.phase ≠ .pending := by
  rw [advanceIntentToAdmitted, if_neg named] at found
  split at found
  · rw [IntentTables.settleIntent, get_insert_self] at found
    cases found
    exact nofun
  next none =>
    have settled := Option.filter_eq_none_iff.mp none intent found
    intro pending
    rw [pending] at settled
    exact settled (by decide)

/-- From any store, over every run of calls none of which ends the operation's
attempt: at most one body commits; a final record stays the record, and a claim
answers it, a finalize is refused and a finalized write changes nothing and
answers it, unless its own body fails; and whatever a finalized write answers,
it published with its named intent settled, or it changed nothing. -/
theorem finalized_once_per_attempt (fromMeta : MetaError → E) (store : OperationStore Bytes)
    (operation : String) (calls : List (OperationCall Bytes E))
    (goesOn : Machine.Along (step fromMeta) (fun store call => ¬ call.Ends operation store) store
      calls) :
    let later := Machine.exec (step fromMeta) store calls
    publications fromMeta operation store calls ≤ 1 ∧
    (∀ record, store.outcomes[operation]? = some record → record.state.isTerminal = true →
      later.outcomes[operation]? = some record ∧
      (∀ expiryUnix now, step fromMeta later (.claim operation expiryUnix now) =
        (later, .claimed (.existing record))) ∧
      (∀ result response now, step fromMeta later (.finalize operation result response now) =
        (later, .finalized (.error (.alreadyFinal operation)))) ∧
      ∀ write body clock collectorActive, write.operation = operation →
        ∃ outcome, step fromMeta later (.commitFinalized write body clock collectorActive) =
            (later, .committed outcome) ∧
          (outcome = .ok (.replayed record) ∨ ∃ error, outcome = .error error ∧
            later.runBody fromMeta body clock collectorActive = .error error)) ∧
    ∀ write body clock collectorActive,
      let (after, answer) := step fromMeta later (.commitFinalized write body clock collectorActive)
      (answer = .committed (.ok .published) ∧
        after.outcomes[write.operation]? = some (publishedRecord write) ∧
        (write.intentKey ≠ "" → ∀ intent, after.intents.intents[write.intentKey]? = some intent →
          intent.phase ≠ .pending)) ∨
      (answer ≠ .committed (.ok .published) ∧ after = later) := by
  intro later
  refine ⟨publications_le_one calls store goesOn, ?_, ?_⟩
  · intro record found terminal
    have final : later.outcomes.Final operation record :=
      exec_final calls ⟨found, terminal⟩ goesOn
    refine ⟨final.1, ?_, ?_, ?_⟩
    · intro expiryUnix now
      simp only [step, Outcomes.claimOperation, final.1]
    · intro result response now
      rw [step, Outcomes.finalizeOperation, final.pending]
      rfl
    · rintro write body clock collectorActive rfl
      obtain ⟨error, ran, done⟩ | ⟨staged, ran, ⟨r, replay, done⟩ | ⟨fresh, done⟩⟩ :=
        commitFinalizedWrite_cases fromMeta later write body clock collectorActive
      · exact ⟨.error error, by rw [step, done], .inr ⟨error, rfl, ran⟩⟩
      all_goals
        have kept := final.checkpoints body.calls
        rw [← (runBody_eq_ok ran).1] at kept
      · cases kept.1.symm.trans replay.1
        exact ⟨.ok (.replayed record), by rw [step, done], .inl rfl⟩
      · exact absurd ⟨record, kept⟩ fresh
  · intro write body clock collectorActive
    obtain ⟨error, -, done⟩ | ⟨staged, ran, ⟨r, -, done⟩ | ⟨-, done⟩⟩ :=
      commitFinalizedWrite_cases fromMeta later write body clock collectorActive
    · rw [step, done]
      exact .inr ⟨nofun, rfl⟩
    · rw [step, done]
      exact .inr ⟨nofun, rfl⟩
    · rw [step, done]
      refine .inl ⟨rfl, get_insert_self .., fun named intent found => ?_⟩
      exact advanceIntentToAdmitted_settles named found

end OperationStore

def publishFile (response : List UInt8) : OperationCall (List UInt8) MetaError :=
  .commitFinalized
    { operation := "upload", intentKey := "", response, expiryUnix := none, now := 5 }
    { calls := [.driver (.put "file/demo" response)], result := .ok [response] } 5 false

/-- A retry after the upload replays it. -/
theorem finalized_once_per_attempt_retried :
    let calls := [OperationCall.claim "upload" none 1, publishFile [1], publishFile [2]]
    OperationStore.publications id "upload" {} calls ≤ 1 := by
  intro calls
  refine (OperationStore.finalized_once_per_attempt id {} "upload" calls ?_).1
  exact ⟨nofun, nofun, nofun, trivial⟩

/-- A restart lets a second body commit while the record stays, with another
outcome; and a retry whose body fails is answered that failure, not the
record. -/
theorem finalized_twice_by_restart :
    let calls := [publishFile [1], .restart "upload" none 6, publishFile [2]]
    let failing : OperationCall (List UInt8) MetaError := .commitFinalized
      { operation := "upload", intentKey := "", response := [3], expiryUnix := none, now := 7 }
      { calls := [], result := .error (.driverPrecondition "no such project") } 7 false
    let after (n : Nat) := Machine.exec (OperationStore.step id) {} (calls.take n)
    OperationStore.publications id "upload" {} calls = 2 ∧
      ((after 1).outcomes["upload"]?.map (·.response)) = some [1] ∧
      ((after 2).outcomes["upload"]?.map (·.response)) = some [] ∧
      ((after 3).outcomes["upload"]?.map (·.response)) = some [2] ∧
      ((after 1).step id failing).2 =
        .committed (.error (.driverPrecondition "no such project")) := by
  refine ⟨by decide +kernel, by decide +kernel, by decide +kernel, by decide +kernel, rfl⟩

end Peryx
