import Peryx.Webhook.OutboxExact

/-!
# Runs of the webhook outbox

Every run of transactions keeps the tables those of the ledger, wherever a crash
cuts a fan-out.

- `run_outbox`: what a run leaves, from the transactions.
- `recoverWebhookEvents_spec`: recovery is a run of fan-outs, after which no delivery
  waits.
- `mem_step_finished`: only a terminal attempt finishes a delivery.
- `webhook_outbox_is_exact`: the whole, with what attempts and scans answer.
-/

namespace Peryx.Webhook

open WebhookTables BTreeMap List Option Machine

/-! ## Transactions -/

/-- An attempt that does not end a delivery carries the time of the next one. -/
def WebhookStep.Carries : WebhookStep → Prop
  | .attempt _ made => made.status = .pending → made.nextAttemptAtUnix.isSome = true
  | _ => True

variable {ledger : Ledger} {tables : WebhookTables}

/-- How many deliveries wait, with whatever event. -/
def Ledger.backlog (ledger : Ledger) : Nat :=
  ledger.countP fun entry => entry.place ≠ .queued ∧ entry.place ≠ .finished

/-- One transaction of a fan-out: false where no delivery waits with the event, and
else there is one less to move. -/
theorem Outbox.enqueueNext (outbox : Outbox ledger tables) (event : String) :
    (ledger.waiting event = [] ∧ ledger.fanOut event = ledger ∧
      tables.enqueueNextWebhookEventDelivery event = .ok (false, tables)) ∨
    ∃ tables', tables.enqueueNextWebhookEventDelivery event = .ok (true, tables') ∧
      Outbox (ledger.fanOut event) tables' ∧
      (ledger.waiting event).length = ((ledger.fanOut event).waiting event).length + 1 ∧
      ledger.backlog = (ledger.fanOut event).backlog + 1 := by
  unfold enqueueNextWebhookEventDelivery
  obtain ⟨none, same⟩ | ⟨before, entry, after, rfl, waits, first, same⟩ :=
    ledger.fanOut_cases event
  · have absent : tables.events[event]? = Option.none := by
      refine eq_none_iff_forall_ne_some.mpr fun records found => ?_
      obtain ⟨some, is⟩ := outbox.events.mp found
      exact some (is.symm.trans none)
    rw [absent]
    exact .inl ⟨none, same, rfl⟩
  · rw [outbox.get_waits waits first, same]
    refine .inr ⟨_, rfl, outbox.fanOut waits first, ?_, ?_⟩
    · rw [Ledger.waiting_append, Ledger.waiting_append, Ledger.waiting_cons_queued,
        Ledger.waiting_cons, if_pos waits, first]
      rfl
    · rw [Ledger.backlog, Ledger.backlog, countP_append, countP_append, countP_cons_of_pos,
        countP_cons_of_neg] <;> simp [waits, Nat.add_assoc]

/-- **Step.** Every transaction leaves the tables those of the ledger after it. -/
theorem step_outbox (outbox : Outbox ledger tables) {step : WebhookStep} (carries : step.Carries) :
    Outbox (ledger.step step) (Machine.next WebhookTables.step tables step) := by
  unfold Machine.next WebhookTables.step Ledger.step
  cases step with
  | enqueue delivery =>
    unfold enqueueWebhookDelivery Ledger.enqueue
    rw [outbox.serial]
    dsimp only
    split
    · next room => exact outbox.enqueue room delivery
    · exact outbox
  | insertEvents events =>
    have taken := outbox.insertEvents events
    dsimp only
    split at taken
    · next made =>
      obtain ⟨tables', done, outbox'⟩ := taken
      rw [made, done]
      exact outbox'
    · next refused =>
      obtain ⟨error, done⟩ := taken
      rw [refused, done]
      exact outbox
  | fanOut event =>
    dsimp only
    obtain ⟨-, same, done⟩ | ⟨tables', done, outbox', -⟩ := outbox.enqueueNext event
    · rw [done, same]
      exact outbox
    · rw [done]
      exact outbox'
  | attempt id made => exact outbox.attempt id carries
  | listDue now limit excluded =>
    dsimp only
    rw [outbox.listDue]
    exact outbox

/-- **Run.** -/
theorem run_outbox {steps : List WebhookStep} (outbox : Outbox ledger tables)
    (carries : ∀ step ∈ steps, step.Carries) :
    Outbox (steps.foldl Ledger.step ledger) (Machine.exec WebhookTables.step tables steps) := by
  induction steps generalizing ledger tables with
  | nil => exact outbox
  | cons step rest ih =>
    obtain ⟨first, others⟩ := forall_mem_cons.mp carries
    exact ih (step_outbox outbox first) others

/-! ## Recovery -/

def fanOuts (events : List String) : List WebhookStep :=
  events.map .fanOut

theorem carries_fanOuts (events : List String) : ∀ step ∈ fanOuts events, step.Carries := by
  intro step mem
  obtain ⟨event, -, rfl⟩ := List.mem_map.mp mem
  trivial

theorem fanOutWebhookEvent_spec {fuel : Nat} {event : String} (outbox : Outbox ledger tables)
    (enough : (ledger.waiting event).length < fuel) :
    ∃ n, let steps := fanOuts (replicate n event)
      fanOutWebhookEvent event fuel tables = .ok (Machine.exec WebhookTables.step tables steps) ∧
      Ledger.backlog (steps.foldl Ledger.step ledger) + (ledger.waiting event).length =
        ledger.backlog := by
  induction fuel generalizing ledger tables with
  | zero => cases enough
  | succ fuel ih =>
    unfold fanOutWebhookEvent
    obtain ⟨none, -, done⟩ | ⟨tables', done, outbox', left, fewer⟩ := outbox.enqueueNext event
    · rw [done, none]
      exact ⟨0, rfl, rfl⟩
    · obtain ⟨n, others, rest⟩ := ih outbox' (by omega)
      have next : Machine.next WebhookTables.step tables (.fanOut event) = tables' := by
        change (tables.commit .moved (tables.enqueueNextWebhookEventDelivery event)).1 = tables'
        rw [done]
        rfl
      refine ⟨n + 1, ?_, ?_⟩
      · change _ = Except.ok (exec _ (Machine.next WebhookTables.step tables (.fanOut event)) _)
        rw [done, next]
        exact others
      · rw [left, fewer, ← rest]
        rfl

theorem Outbox.backlog_eq_zero (outbox : Outbox ledger tables) (none : tables.events.toList = []) :
    ledger.backlog = 0 := by
  refine countP_eq_zero.mpr fun entry mem => ?_
  cases place : entry.place with
  | waits event =>
    have held : tables.events[event]? = some (ledger.waiting event) := by
      refine outbox.events.mpr ⟨fun is => ?_, rfl⟩
      have there : entry.record ∈ ledger.waiting event :=
        mem_map_of_mem (mem_filter.mpr ⟨mem, by simp [place]⟩)
      rw [is] at there
      cases there
    have row := Std.ExtTreeMap.mem_toList_iff_getElem?_eq_some.mpr held
    rw [none] at row
    cases row
  | queued => simp
  | finished => simp

theorem recoverWebhookEvents_spec {fuel : Nat} (outbox : Outbox ledger tables)
    (enough : ledger.backlog < fuel) :
    ∃ events, recoverWebhookEvents fuel tables =
        .ok (Machine.exec WebhookTables.step tables (fanOuts events)) ∧
      Ledger.backlog ((fanOuts events).foldl Ledger.step ledger) = 0 := by
  induction fuel generalizing ledger tables with
  | zero => cases enough
  | succ fuel ih =>
    unfold recoverWebhookEvents nextWebhookEventId
    cases first : tables.events.toList.head? with
    | none => exact ⟨[], rfl, outbox.backlog_eq_zero (head?_eq_none_iff.mp first)⟩
    | some row =>
      obtain ⟨event, records⟩ := row
      have found : tables.events[event]? = some records :=
        Std.ExtTreeMap.mem_toList_iff_getElem?_eq_some.mp (mem_of_head? first)
      obtain ⟨some, is⟩ := outbox.events.mp found
      have pos : 0 < (ledger.waiting event).length := is ▸ length_pos_iff.mpr some
      have most : (ledger.waiting event).length ≤ ledger.backlog := by
        rw [Ledger.waiting, length_map, ← countP_eq_length_filter]
        refine countP_mono_left fun entry _ waits => ?_
        simp [of_decide_eq_true waits]
      have inner : (ledger.waiting event).length < fuel + 1 := by omega
      obtain ⟨n, fanned, rest⟩ := fanOutWebhookEvent_spec outbox inner
      obtain ⟨events, done, none⟩ :=
        ih (run_outbox outbox (carries_fanOuts (replicate n event))) (by omega)
      have both : fanOuts (replicate n event ++ events) =
          fanOuts (replicate n event) ++ fanOuts events := map_append
      refine ⟨replicate n event ++ events, ?_, ?_⟩
      · rw [map_some]
        dsimp only
        rw [fanned, both, exec_append]
        exact done
      · rw [both, foldl_append]
        exact none

/-! ## Finished deliveries -/

theorem mem_insertEvents_finished {events : List EventIntent} {ledger' : Ledger} {entry : Entry}
    (made : events.foldlM Ledger.insertEvent ledger = some ledger') (mem : entry ∈ ledger')
    (finished : entry.place = .finished) : entry ∈ ledger := by
  induction events generalizing ledger with
  | nil =>
    cases made
    exact mem
  | cons event rest ih =>
    obtain ⟨first, taken, others⟩ := bind_eq_some_iff.mp made
    have before := ih others
    unfold Ledger.insertEvent at taken
    split at taken
    · cases taken
      refine (mem_append.mp before).resolve_right fun new => ?_
      cases finished.symm.trans (Outbox.mem_inserted new).1
    · cases taken

/-- Only a terminal attempt finishes a delivery, and then the one of its id. -/
theorem mem_step_finished {step : WebhookStep} {entry : Entry} (mem : entry ∈ ledger.step step)
    (finished : entry.place = .finished) :
    entry ∈ ledger ∨ ∃ made, step = .attempt entry.record.id made ∧ made.status ≠ .pending := by
  cases step with
  | enqueue delivery =>
    unfold Ledger.step Ledger.enqueue at mem
    dsimp only at mem
    split at mem
    · obtain old | rfl := (mem_append.mp mem).imp_right mem_singleton.mp
      · exact .inl old
      · cases finished
    · exact .inl mem
  | insertEvents events =>
    unfold Ledger.step at mem
    dsimp only at mem
    cases made : events.foldlM Ledger.insertEvent ledger with
    | none => exact .inl (by rwa [made] at mem)
    | some ledger' => exact .inl (mem_insertEvents_finished made (by rwa [made] at mem) finished)
  | fanOut event =>
    change entry ∈ ledger.fanOut event at mem
    obtain ⟨-, same⟩ | ⟨before, moved, after, rfl, -, -, same⟩ := ledger.fanOut_cases event
    · exact .inl (same ▸ mem)
    · rw [same, mem_append, mem_cons] at mem
      obtain mem | rfl | mem := mem
      · exact .inl (mem_append_left _ mem)
      · cases finished
      · exact .inl (mem_append_right _ (mem_cons_of_mem _ mem))
  | attempt id made =>
    obtain ⟨old, mem', rfl⟩ := List.mem_map.mp mem
    unfold Entry.attempt at finished ⊢
    split at finished
    · next reached =>
      rw [if_pos reached]
      refine .inr ⟨made, by rw [← reached.1]; rfl, fun pending => ?_⟩
      rw [if_pos pending] at finished
      cases finished
    · next other =>
      rw [if_neg other]
      exact .inl mem'
  | listDue => exact .inl mem

/-! ## Turns -/

theorem firsts_unseen : ∀ (seen : List (String × String)) (queue : List DeliveryRecord),
    ((firsts seen queue).map DeliveryRecord.key).Nodup ∧
      ∀ record ∈ firsts seen queue, record.key ∉ seen
  | _, [] => ⟨nodup_nil, nofun⟩
  | seen, record :: rest => by
    rw [firsts]
    split
    · exact firsts_unseen seen rest
    · next fresh =>
      obtain ⟨nodup, unseen⟩ := firsts_unseen (record.key :: seen) rest
      refine ⟨nodup_cons.mpr ⟨fun mem => ?_, nodup⟩, forall_mem_cons.mpr ⟨fresh, ?_⟩⟩
      · obtain ⟨other, at', same⟩ := List.mem_map.mp mem
        exact unseen other at' (same ▸ mem_cons_self)
      · exact fun other mem inside => unseen other mem (mem_cons_of_mem _ inside)

theorem exists_firsts : ∀ {seen : List (String × String)} {queue : List DeliveryRecord},
    queue.Pairwise Before → ∀ record ∈ queue, record.key ∉ seen →
    ∃ chosen ∈ firsts seen queue, chosen.key = record.key ∧ (chosen = record ∨ Before chosen record)
  | seen, first :: rest, ordered, record, mem, fresh => by
    obtain ⟨before, ordered⟩ := pairwise_cons.mp ordered
    rw [firsts]
    obtain rfl | mem := mem_cons.mp mem
    · rw [if_neg fresh]
      exact ⟨record, mem_cons_self, rfl, .inl rfl⟩
    · split
      · exact exists_firsts ordered record mem fresh
      · by_cases same : first.key = record.key
        · exact ⟨first, mem_cons_self, same, .inr (before record mem)⟩
        · have fresh' : record.key ∉ first.key :: seen :=
            not_mem_cons_of_ne_of_not_mem (Ne.symm same) fresh
          obtain ⟨chosen, at', key, earlier⟩ := exists_firsts ordered record mem fresh'
          exact ⟨chosen, mem_cons_of_mem _ at', key, earlier⟩

/-! ## Runs -/

def after (steps : List WebhookStep) : WebhookTables :=
  Machine.exec WebhookTables.step {} steps

def ledgerOf (steps : List WebhookStep) : Ledger :=
  steps.foldl Ledger.step []

theorem exists_attempt_of_finished {steps : List WebhookStep} {entry : Entry}
    (mem : entry ∈ ledgerOf steps) (finished : entry.place = .finished) :
    ∃ made, .attempt entry.record.id made ∈ steps ∧ made.status ≠ .pending := by
  induction steps using reverseRecOn with
  | nil => cases mem
  | append_singleton steps last ih =>
    rw [ledgerOf, foldl_append] at mem
    obtain old | ⟨made, rfl, terminal⟩ := mem_step_finished mem finished
    · obtain ⟨made, at', terminal⟩ := ih old
      exact ⟨made, mem_append_left _ at', terminal⟩
    · exact ⟨made, mem_append_right _ mem_cons_self, terminal⟩

theorem updateWebhookDelivery_answer (id : String) (made : DeliveryAttempt)
    (tables : WebhookTables) :
    (tables.updateWebhookDelivery id made).1 = tables.deliveries[id]?.map (attempted · made) := by
  unfold updateWebhookDelivery
  cases tables.deliveries[id]? with
  | none => rfl
  | some old =>
    dsimp only
    split <;> rfl

/-- What a scan of the queue answers: of the deliveries in the order they are due,
those due by now and not excluded, the first of each index and target, up to the
limit. -/
structure Scans (tables : WebhookTables) (queue : List DeliveryRecord) (now : Int64) (limit : Nat)
    (excluded : List (String × String)) : Prop where
  whole : queue.Perm (tables.deliveries.toList.map Prod.snd)
  ordered : queue.Pairwise Before
  answer : tables.listDueWebhookDeliveries now limit excluded =
    ((firsts [] (queue.filter (eligible now excluded))).take limit, tables)
  /-- At most one per index and target. -/
  apart : ((firsts [] (queue.filter (eligible now excluded))).map DeliveryRecord.key).Nodup
  /-- And none is passed over but for an earlier one. -/
  covers : ∀ record ∈ queue.filter (eligible now excluded),
    ∃ chosen ∈ firsts [] (queue.filter (eligible now excluded)),
      chosen.key = record.key ∧ (chosen = record ∨ Before chosen record)

theorem Outbox.scans (outbox : Outbox ledger tables) (now : Int64) (limit : Nat)
    (excluded : List (String × String)) :
    Scans tables (named tables.deliveries tables.due.toList) now limit excluded where
  whole := outbox.named_perm
  ordered := outbox.named_ordered
  answer := outbox.listDue now excluded
  apart := (firsts_unseen [] _).1
  covers record mem := by
    refine exists_firsts ?_ record mem not_mem_nil
    exact outbox.named_ordered.sublist filter_sublist

/-- **The outbox is exact**: in every run whose attempts carry a next time where
they are not terminal, the tables hold the ledger of the run, with every delivery
that was asked for in one place under an id of its own. A delivery is finished only
by a terminal attempt, an attempt answers the delivery it leaves, recovery enqueues
what still waits, and scans answer in the order of time and id. -/
theorem webhook_outbox_is_exact (steps : List WebhookStep)
    (carries : ∀ step ∈ steps, step.Carries) :
    Outbox (ledgerOf steps) (after steps) ∧
    (issued (ledgerOf steps).length).Nodup ∧
    (∀ entry ∈ ledgerOf steps, entry.place = .finished →
      ∃ made, .attempt entry.record.id made ∈ steps ∧ made.status ≠ .pending) ∧
    (∀ id made, ((after steps).updateWebhookDelivery id made).1 =
      (after steps).deliveries[id]?.map (attempted · made)) ∧
    (∀ fuel, (ledgerOf steps).backlog < fuel → ∃ events,
      recoverWebhookEvents fuel (after steps) = .ok (after (steps ++ fanOuts events)) ∧
        (ledgerOf (steps ++ fanOuts events)).backlog = 0) ∧
    (∀ t u i j, dueKey t i < dueKey u j ↔ t < u ∨ t = u ∧ i < j) ∧
    ∃ queue, ∀ now limit excluded, Scans (after steps) queue now limit excluded := by
  have outbox : Outbox (ledgerOf steps) (after steps) := run_outbox Outbox.empty carries
  refine ⟨outbox, nodup_issued outbox.small, fun entry mem => exists_attempt_of_finished mem,
    fun id made => updateWebhookDelivery_answer id made _, fun fuel enough => ?_,
    fun _ _ _ _ => dueKey_lt_iff, _, fun now limit excluded => outbox.scans now limit excluded⟩
  obtain ⟨events, done, none⟩ := recoverWebhookEvents_spec outbox enough
  refine ⟨events, ?_, ?_⟩
  · rw [done, after, after, exec_append]
  · rw [ledgerOf, foldl_append]
    exact none

namespace Sample

def upload : EventIntent :=
  ⟨"hosted", ["audit", "deploy"], "upload", "payload", 10⟩

/-- A crash comes after the first delivery was enqueued and attempted in vain. -/
def steps : List WebhookStep :=
  [.insertEvents [upload], .fanOut (eventId 1),
    .attempt (deliveryId 1) ⟨.pending, 11, some (-5), none, some "timeout"⟩]

theorem interrupted_fan_out_is_exact :
    (ledgerOf steps).map Entry.place = [.queued, .waits (eventId 1)] ∧
    (after steps).due.toList = [(dueKey (-5) (deliveryId 1), deliveryId 1)] ∧
    ∃ events, recoverWebhookEvents 2 (after steps) = .ok (after (steps ++ fanOuts events)) ∧
      (ledgerOf (steps ++ fanOuts events)).backlog = 0 := by
  have carries : ∀ step ∈ steps, step.Carries := by
    simp [steps, WebhookStep.Carries]
  obtain ⟨-, -, -, -, recovers, -, -⟩ := webhook_outbox_is_exact steps carries
  exact ⟨by decide +kernel, by decide +kernel, recovers 2 (by decide +kernel)⟩

end Sample

end Peryx.Webhook
