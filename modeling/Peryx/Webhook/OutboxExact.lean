import Peryx.Lib.Except
import Peryx.Webhook.DueOrder

/-!
# The outbox keeps a ledger

`Ledger` is what the outbox is for, read off the transactions alone: every delivery
that was asked for, in the order of the ids, with the place it is in. It waits with
its event, is in the queue, or was finished by a terminal attempt. `Outbox` says
that the four tables hold such a ledger.

- `Outbox.enqueue`, `Outbox.insertEvents`, `Outbox.fanOut`, `Outbox.attempt`: each
  transaction leaves the tables those of the ledger after it.
- `Outbox.listDue`: a scan answers from the queue in the order of time and id, and
  finds no damaged row.
-/

namespace Peryx.Webhook

open WebhookTables BTreeMap List Option Std.ExtTreeMap

/-! ## Ids -/

theorem deliveryId_inj {m n : Nat} (small : m < 2 ^ 64) (small' : n < 2 ^ 64)
    (same : deliveryId m = deliveryId n) : m = n :=
  Keys.tagged_inj "wd_" small small' same

/-- The identifiers given out so far. -/
def issued (n : Nat) : List String :=
  (List.range n).map fun k => deliveryId (k + 1)

theorem mem_issued {n : Nat} {id : String} : id ∈ issued n ↔ ∃ k < n, id = deliveryId (k + 1) := by
  simp [issued, eq_comm]

theorem issued_add (n m : Nat) :
    issued (n + m) = issued n ++ (List.range m).map fun k => deliveryId (n + k + 1) := by
  rw [issued, range_add, map_append, List.map_map]
  rfl

theorem nodup_issued {n : Nat} (small : n < 2 ^ 64) : (issued n).Nodup := by
  refine nodup_range.map_on ?_
  intro a ha b hb same
  rw [mem_range] at ha hb
  have := deliveryId_inj (by omega) (by omega) same
  omega

/-! ## The ledger -/

/-- Where a delivery is. -/
inductive Place where
  | waits (event : String)
  | queued
  | finished
deriving DecidableEq

/-- A delivery, as the last attempt left it. -/
structure Entry where
  record : DeliveryRecord
  place : Place
deriving DecidableEq

/-- Every delivery that was asked for: the first has the id `deliveryId 1`, and so on. -/
abbrev Ledger := List Entry

/-- What an attempt makes of a delivery. -/
def attempted (old : DeliveryRecord) (made : DeliveryAttempt) : DeliveryRecord :=
  { old with
    status := made.status
    attempts := old.attempts + 1
    updatedAtUnix := made.updatedAtUnix
    nextAttemptAtUnix := made.nextAttemptAtUnix
    responseStatus := made.responseStatus
    lastError := made.lastError }

/-- An attempt reaches the delivery of its id while that is in the queue, and a
terminal one finishes it. -/
def Entry.attempt (id : String) (made : DeliveryAttempt) (entry : Entry) : Entry :=
  if entry.record.id = id ∧ entry.place = .queued then
    ⟨attempted entry.record made, if made.status = .pending then .queued else .finished⟩
  else entry

namespace Ledger

/-- The deliveries of an event that are still to be enqueued. -/
def waiting (event : String) (ledger : Ledger) : List DeliveryRecord :=
  (ledger.filter (·.place = .waits event)).map Entry.record

def enqueue (delivery : NewDelivery) (ledger : Ledger) : Ledger :=
  if ledger.length + 1 < 2 ^ 64 then
    ledger ++ [⟨newRecord (deliveryId (ledger.length + 1)) delivery, .queued⟩]
  else ledger

/-- One delivery for each target, under the next ids. -/
def inserted (event : EventIntent) (serial : Nat) : Ledger :=
  (event.deliveries.zipIdx serial).map fun (delivery, n) =>
    ⟨newRecord (deliveryId n) delivery, .waits (eventId serial)⟩

def insertEvent (ledger : Ledger) (event : EventIntent) : Option Ledger :=
  if event.targets ≠ [] ∧ ledger.length + 1 + event.targets.length < 2 ^ 64 then
    some (ledger ++ inserted event (ledger.length + 1))
  else none

/-- The first delivery that waits with the event comes into the queue. -/
def fanOut (event : String) : Ledger → Ledger
  | [] => []
  | entry :: rest =>
    if entry.place = .waits event then { entry with place := .queued } :: rest
    else entry :: fanOut event rest

def attempt (id : String) (made : DeliveryAttempt) (ledger : Ledger) : Ledger :=
  ledger.map (Entry.attempt id made)

/-- Events come in together or not at all; a scan changes nothing. -/
def step (ledger : Ledger) : WebhookStep → Ledger
  | .enqueue delivery => ledger.enqueue delivery
  | .insertEvents events => (events.foldlM insertEvent ledger).getD ledger
  | .fanOut event => ledger.fanOut event
  | .attempt id made => ledger.attempt id made
  | .listDue _ _ _ => ledger

variable {event : String} {ledger : Ledger}

theorem waiting_nil (event : String) : waiting event [] = [] := rfl

theorem waiting_append (event : String) (ledger more : Ledger) :
    waiting event (ledger ++ more) = waiting event ledger ++ waiting event more := by
  rw [waiting, filter_append, map_append]
  rfl

theorem waiting_cons (event : String) (entry : Entry) (ledger : Ledger) :
    waiting event (entry :: ledger) =
      if entry.place = .waits event then entry.record :: waiting event ledger
      else waiting event ledger := by
  rw [waiting, filter_cons]
  by_cases waits : entry.place = .waits event <;> simp [waits, waiting]

theorem waiting_cons_queued (event : String) (record : DeliveryRecord) (ledger : Ledger) :
    waiting event (⟨record, .queued⟩ :: ledger) = waiting event ledger := by
  rw [waiting_cons, if_neg Place.noConfusion]

/-- A fan-out finds nothing that waits, or moves the first that does. -/
theorem fanOut_cases (event : String) (ledger : Ledger) :
    (ledger.waiting event = [] ∧ ledger.fanOut event = ledger) ∨
      ∃ before entry after, ledger = before ++ entry :: after ∧ entry.place = .waits event ∧
        waiting event before = [] ∧
        ledger.fanOut event = before ++ { entry with place := .queued } :: after := by
  induction ledger with
  | nil => exact .inl ⟨rfl, rfl⟩
  | cons entry rest ih =>
    rw [fanOut, waiting_cons]
    split
    · next waits => exact .inr ⟨[], entry, rest, rfl, waits, rfl, rfl⟩
    · next other =>
      obtain ⟨none, same⟩ | ⟨before, moved, after, is, waits, none, same⟩ := ih
      · exact .inl ⟨none, congrArg _ same⟩
      · refine .inr ⟨entry :: before, moved, after, congrArg _ is, waits, ?_, congrArg _ same⟩
        rw [waiting_cons, if_neg other, none]

theorem id_attempt (id : String) (made : DeliveryAttempt) (entry : Entry) :
    (entry.attempt id made).record.id = entry.record.id := by
  unfold Entry.attempt
  split <;> rfl

theorem attempt_eq_self {id : String} {made : DeliveryAttempt}
    (absent : ∀ entry ∈ ledger, entry.record.id = id → entry.place ≠ .queued) :
    ledger.attempt id made = ledger := by
  refine (map_congr_left fun entry mem => ?_).trans (map_id ledger)
  exact if_neg fun ⟨its, queued⟩ => absent entry mem its queued

theorem waiting_attempt (event id : String) (made : DeliveryAttempt) (ledger : Ledger) :
    waiting event (ledger.attempt id made) = waiting event ledger := by
  induction ledger with
  | nil => rfl
  | cons entry rest ih =>
    rw [attempt, map_cons, waiting_cons, waiting_cons, ← attempt, ih]
    unfold Entry.attempt
    split
    · next reached =>
      rw [reached.2, if_neg, if_neg Place.noConfusion]
      dsimp only
      split <;> exact Place.noConfusion
    · rfl

end Ledger

/-! ## The tables of a ledger -/

/-- The tables hold the ledger. -/
structure Outbox (ledger : Ledger) (tables : WebhookTables) : Prop where
  serial : tables.serial.getD 0 = ledger.length
  small : ledger.length < 2 ^ 64
  /-- Every delivery has an id of its own. -/
  ids : ledger.map (·.record.id) = issued ledger.length
  /-- An event's row holds its deliveries that wait, and goes with the last of them. -/
  events : ∀ {event records}, tables.events[event]? = some records ↔
    records ≠ [] ∧ ledger.waiting event = records
  waits : ∀ {entry event}, entry ∈ ledger → entry.place = .waits event →
    (∃ k < ledger.length, event = eventId (k + 1)) ∧ entry.record.status = .pending ∧
      entry.record.nextAttemptAtUnix = some entry.record.createdAtUnix
  /-- The queue holds the deliveries that are in it, under their ids. -/
  deliveries : ∀ {id record}, tables.deliveries[id]? = some record ↔
    record.id = id ∧ ⟨record, .queued⟩ ∈ ledger
  pending : ∀ {record}, ⟨record, .queued⟩ ∈ ledger →
    record.status = .pending ∧ record.nextAttemptAtUnix.isSome = true
  /-- The table by due time has one row for each delivery in the queue. -/
  due : Indexes dueEntry tables.deliveries tables.due

theorem dueEntry_inj {i j : String} {r s : DeliveryRecord} {k b c : String}
    (first : dueEntry i r = some (k, b)) (second : dueEntry j s = some (k, c)) : i = j := by
  obtain ⟨t, -, is⟩ := map_eq_some_iff.mp first
  obtain ⟨u, -, is'⟩ := map_eq_some_iff.mp second
  cases is
  have same := (Prod.mk.inj is').1
  exact (dueKey_inj same).2.symm

namespace Outbox

variable {ledger ledger' : Ledger} {tables tables' : WebhookTables} {id event : String}
  {record : DeliveryRecord} {entry : Entry}

theorem empty : Outbox [] {} where
  serial := rfl
  small := by decide
  ids := rfl
  events := by
    intro event records
    rw [get_empty]
    exact ⟨nofun, fun ⟨nonempty, is⟩ => absurd is.symm nonempty⟩
  waits := nofun
  deliveries := by
    intro id record
    rw [get_empty]
    exact ⟨nofun, nofun⟩
  pending := nofun
  due := Indexes.empty

section

variable (outbox : Outbox ledger tables)

include outbox

theorem eq_of_id {other : Entry} (mem : entry ∈ ledger) (mem' : other ∈ ledger)
    (same : entry.record.id = other.record.id) : entry = other := by
  have distinct : (ledger.map (·.record.id)).Nodup := outbox.ids ▸ nodup_issued outbox.small
  exact inj_on_of_nodup_map distinct mem mem' same

theorem holds (found : tables.deliveries[id]? = some record) :
    record.id = id ∧ record.status = .pending ∧ record.nextAttemptAtUnix.isSome = true := by
  obtain ⟨its, mem⟩ := outbox.deliveries.mp found
  exact ⟨its, outbox.pending mem⟩

theorem absent_of_waits (mem : entry ∈ ledger) (waits : entry.place = .waits event) :
    tables.deliveries[entry.record.id]? = none := by
  refine eq_none_iff_forall_ne_some.mpr fun record found => ?_
  obtain ⟨same, queued⟩ := outbox.deliveries.mp found
  have is : entry = ⟨record, .queued⟩ := outbox.eq_of_id mem queued same.symm
  rw [is] at waits
  cases waits

theorem deliveries_insert (absent : tables.deliveries[record.id]? = none)
    (more : ∀ r, ⟨r, .queued⟩ ∈ ledger' ↔ r = record ∨ ⟨r, .queued⟩ ∈ ledger) {r : DeliveryRecord} :
    (tables.deliveries.insert record.id record)[id]? = some r ↔
      r.id = id ∧ ⟨r, .queued⟩ ∈ ledger' := by
  rw [get_insert, more]
  by_cases same : record.id = id
  · subst same
    rw [if_pos rfl, some_inj]
    refine ⟨fun is => is ▸ ⟨rfl, .inl rfl⟩, fun ⟨same, is⟩ => is.elim Eq.symm fun mem => ?_⟩
    cases absent.symm.trans (outbox.deliveries.mpr ⟨same, mem⟩)
  · rw [if_neg same, outbox.deliveries]
    refine and_congr_right fun its => (or_iff_right ?_).symm
    rintro rfl
    exact same its

theorem due_insert (absent : tables.deliveries[record.id]? = none)
    (next : record.nextAttemptAtUnix = some record.createdAtUnix) :
    Indexes dueEntry (tables.deliveries.insert record.id record)
      (tables.due.insert (dueKey record.createdAtUnix record.id) record.id) := by
  have entry : dueEntry record.id record =
      some (dueKey record.createdAtUnix record.id, record.id) := by
    rw [dueEntry, next]
    rfl
  have made := outbox.due.insert_of_absent record absent fun {k b} is => by
    refine eq_none_iff_forall_ne_some.mpr fun c held => ?_
    obtain ⟨j, s, found, its⟩ := outbox.due.exact.mp held
    cases dueEntry_inj is its
    cases absent.symm.trans found
  rwa [entry] at made

/-! ## Coming in -/

theorem enqueue (room : ledger.length + 1 < 2 ^ 64) (delivery : NewDelivery) :
    Outbox (ledger ++ [⟨newRecord (deliveryId (ledger.length + 1)) delivery, .queued⟩])
      (({ tables with serial := some (ledger.length + 1) }).insertDelivery
        (newRecord (deliveryId (ledger.length + 1)) delivery)) := by
  generalize made : newRecord (deliveryId (ledger.length + 1)) delivery = record
  have its : record.id = deliveryId (ledger.length + 1) := by rw [← made]; rfl
  have fresh : record.status = .pending ∧
      record.nextAttemptAtUnix = some record.createdAtUnix := by
    rw [← made]
    exact ⟨rfl, rfl⟩
  have absent : tables.deliveries[record.id]? = none := by
    refine eq_none_iff_forall_ne_some.mpr fun old found => ?_
    obtain ⟨same, mem⟩ := outbox.deliveries.mp found
    have old : old.id ∈ issued ledger.length := outbox.ids ▸ mem_map_of_mem mem
    obtain ⟨k, less, is⟩ := mem_issued.mp (same ▸ old)
    have := deliveryId_inj room (by omega) (its.symm.trans is)
    omega
  refine ⟨?_, ?_, ?_, fun {event records} => ?_, fun {entry event} mem waits => ?_,
    outbox.deliveries_insert absent fun r => ?_, fun {r} mem => ?_,
    outbox.due_insert absent fresh.2⟩
  · rw [length_append]
    rfl
  · rwa [length_append, length_singleton]
  · rw [map_append, length_append, length_singleton, issued_add, outbox.ids]
    exact congrArg (_ ++ [·]) its
  · rw [Ledger.waiting_append, Ledger.waiting_cons_queued, Ledger.waiting_nil, List.append_nil]
    exact outbox.events
  · obtain old | rfl := (mem_append.mp mem).imp_right mem_singleton.mp
    · obtain ⟨⟨k, less, is⟩, same⟩ := outbox.waits old waits
      exact ⟨⟨k, by rw [length_append]; omega, is⟩, same⟩
    · cases waits
  · rw [mem_append, mem_singleton, or_comm, Entry.mk.injEq]
    exact or_congr_left (and_iff_left rfl)
  · obtain old | new := (mem_append.mp mem).imp_right mem_singleton.mp
    · exact outbox.pending old
    · cases new
      exact ⟨fresh.1, by rw [fresh.2]; rfl⟩

omit outbox in
theorem ids_inserted (event : String) : ∀ (n : Nat) (deliveries : List NewDelivery),
    ((deliveries.zipIdx (n + 1)).map fun (delivery, serial) =>
      (⟨newRecord (deliveryId serial) delivery, .waits event⟩ : Entry)).map (·.record.id) =
        (List.range deliveries.length).map fun k => deliveryId (n + k + 1)
  | _, [] => rfl
  | n, delivery :: rest => by
    rw [zipIdx_cons, map_cons, map_cons, ids_inserted event (n + 1) rest, length_cons,
      range_succ_eq_map, map_cons, List.map_map]
    refine congrArg₂ List.cons rfl (map_congr_left fun k _ => ?_)
    exact congrArg deliveryId (by omega)

omit outbox in
theorem mem_inserted {event : EventIntent} {serial : Nat}
    (mem : entry ∈ Ledger.inserted event serial) :
    entry.place = .waits (eventId serial) ∧ entry.record.status = .pending ∧
      entry.record.nextAttemptAtUnix = some entry.record.createdAtUnix := by
  obtain ⟨⟨delivery, n⟩, -, rfl⟩ := List.mem_map.mp mem
  exact ⟨rfl, rfl, rfl⟩

omit outbox in
theorem waiting_inserted (event : EventIntent) (serial : Nat) (other : String) :
    Ledger.waiting other (Ledger.inserted event serial) =
      if eventId serial = other then
        (event.deliveries.zipIdx serial).map fun (delivery, n) => newRecord (deliveryId n) delivery
      else [] := by
  split
  · next same =>
    rw [Ledger.waiting, filter_eq_self.mpr fun entry mem => ?_, Ledger.inserted, List.map_map]
    · rfl
    · rw [(mem_inserted mem).1, same, decide_eq_true_iff]
  · next apart =>
    rw [Ledger.waiting, filter_eq_nil_iff.mpr fun entry mem => ?_, map_nil]
    rw [(mem_inserted mem).1, decide_eq_true_iff]
    exact fun same => apart (Place.waits.inj same)

theorem unused (room : ledger.length + 1 < 2 ^ 64) :
    ledger.waiting (eventId (ledger.length + 1)) = [] := by
  rw [Ledger.waiting, filter_eq_nil_iff.mpr fun entry mem => ?_, map_nil]
  rw [decide_eq_true_iff]
  intro waits
  obtain ⟨⟨k, less, same⟩, -⟩ := outbox.waits mem waits
  have := Keys.tagged_inj "we_" (by omega) (by omega) same
  omega

theorem inserted {event : EventIntent} (targets : event.targets ≠ [])
    (room : ledger.length + 1 + event.targets.length < 2 ^ 64) :
    Outbox (ledger ++ Ledger.inserted event (ledger.length + 1))
      { tables with
        serial := some (ledger.length + 1 + event.targets.length - 1)
        events := tables.events.insert (eventId (ledger.length + 1))
          ((event.deliveries.zipIdx (ledger.length + 1)).map fun (delivery, serial) =>
            newRecord (deliveryId serial) delivery) } := by
  have length : (Ledger.inserted event (ledger.length + 1)).length = event.targets.length := by
    rw [Ledger.inserted, length_map, length_zipIdx, EventIntent.deliveries, length_map]
  have old : ∀ r, ⟨r, .queued⟩ ∈ ledger ++ Ledger.inserted event (ledger.length + 1) ↔
      ⟨r, .queued⟩ ∈ ledger := fun r => by
    rw [mem_append]
    exact or_iff_left fun mem => nomatch (mem_inserted mem).1
  refine ⟨?_, ?_, ?_, fun {other records} => ?_, fun {entry other} mem waits => ?_,
    outbox.deliveries.trans (and_congr_right fun _ => (old _).symm),
    fun mem => outbox.pending ((old _).mp mem), outbox.due⟩
  · change ledger.length + 1 + event.targets.length - 1 = _
    rw [length_append]
    omega
  · rw [length_append]
    omega
  · rw [map_append, length_append, issued_add, outbox.ids, length, Ledger.inserted, ids_inserted,
      EventIntent.deliveries, length_map]
  · rw [Ledger.waiting_append, waiting_inserted, get_insert]
    split
    · next same =>
      rw [← same, outbox.unused (by omega), nil_append, some_inj]
      refine ⟨fun is => ⟨fun none => targets ?_, is⟩, And.right⟩
      have lengths := congrArg List.length (is.trans none)
      rw [length_map, length_zipIdx, EventIntent.deliveries, length_map] at lengths
      exact length_eq_zero_iff.mp lengths
    · rw [List.append_nil]
      exact outbox.events
  · rw [length_append, length]
    obtain mem | mem := mem_append.mp mem
    · obtain ⟨⟨k, less, is⟩, same⟩ := outbox.waits mem waits
      exact ⟨⟨k, by omega, is⟩, same⟩
    · obtain ⟨is, fresh⟩ := mem_inserted mem
      have some := length_pos_iff.mpr targets
      exact ⟨⟨ledger.length, by omega, Place.waits.inj (waits.symm.trans is)⟩, fresh⟩

/-- An event comes in where the ledger takes it, and is refused otherwise. -/
theorem insertEvent (event : EventIntent) :
    match ledger.insertEvent event with
    | some ledger' => ∃ tables',
        tables.insertWebhookEvent event = .ok tables' ∧ Outbox ledger' tables'
    | none => ∃ error, tables.insertWebhookEvent event = .error error := by
  unfold Ledger.insertEvent insertWebhookEvent
  dsimp only
  rw [outbox.serial]
  by_cases none : event.targets = []
  · rw [if_neg fun takes => takes.1 none, if_pos none]
    exact ⟨_, rfl⟩
  by_cases room : ledger.length + 1 + event.targets.length < 2 ^ 64
  · rw [if_pos ⟨none, room⟩, if_neg none, if_pos room]
    exact ⟨_, rfl, outbox.inserted none room⟩
  · rw [if_neg fun takes => room takes.2, if_neg none, if_neg room]
    exact ⟨_, rfl⟩

end

theorem insertEvents (outbox : Outbox ledger tables) (events : List EventIntent) :
    match events.foldlM Ledger.insertEvent ledger with
    | some ledger' => ∃ tables', tables.enqueueWebhookEvents events = .ok tables' ∧
        Outbox ledger' tables'
    | none => ∃ error, tables.enqueueWebhookEvents events = .error error := by
  induction events generalizing ledger tables with
  | nil => exact ⟨tables, rfl, outbox⟩
  | cons event rest ih =>
    have first := outbox.insertEvent event
    unfold enqueueWebhookEvents at ih ⊢
    rw [foldlM_cons, foldlM_cons]
    cases taken : ledger.insertEvent event with
    | none =>
      rw [taken] at first
      obtain ⟨error, refused⟩ := first
      rw [refused]
      exact ⟨error, rfl⟩
    | some ledger' =>
      rw [taken] at first
      obtain ⟨tables', done, outbox'⟩ := first
      rw [done]
      exact ih outbox'

/-! ## Moving on -/

section

variable {before after : Ledger} (outbox : Outbox (before ++ entry :: after) tables)
  (waits : entry.place = .waits event) (first : Ledger.waiting event before = [])

include outbox waits first

theorem get_waits :
    tables.events[event]? = some (entry.record :: Ledger.waiting event after) := by
  refine outbox.events.mpr ⟨cons_ne_nil _ _, ?_⟩
  rw [Ledger.waiting_append, first, nil_append, Ledger.waiting_cons, if_pos waits]

theorem fanOut :
    Outbox (before ++ { entry with place := .queued } :: after) (({ tables with
      events := if Ledger.waiting event after = [] then tables.events.erase event
        else tables.events.insert event (Ledger.waiting event after) }).insertDelivery
          entry.record) := by
  have mem : entry ∈ before ++ entry :: after := mem_append_right _ mem_cons_self
  obtain ⟨-, status, next⟩ := outbox.waits mem waits
  have absent := outbox.absent_of_waits mem waits
  have queued : ∀ r, ⟨r, .queued⟩ ∈ before ++ { entry with place := .queued } :: after ↔
      r = entry.record ∨ ⟨r, .queued⟩ ∈ before ++ entry :: after := by
    intro r
    have apart : (⟨r, .queued⟩ : Entry) ≠ entry := by
      rintro rfl
      cases waits
    rw [mem_append, mem_cons, mem_append, mem_cons, or_iff_right apart, Entry.mk.injEq,
      and_iff_left rfl, or_left_comm]
  have length : (before ++ { entry with place := .queued } :: after).length =
      (before ++ entry :: after).length := by rw [length_append, length_append]; rfl
  refine ⟨?_, ?_, ?_, fun {other records} => ?_, fun {moved other} mem' waits' => ?_,
    outbox.deliveries_insert absent queued, fun {r} mem' => ?_, outbox.due_insert absent next⟩
  · rw [length]
    exact outbox.serial
  · exact length ▸ outbox.small
  · rw [length, ← outbox.ids, map_append, map_append]
    rfl
  · change (if Ledger.waiting event after = [] then tables.events.erase event
      else tables.events.insert event (Ledger.waiting event after))[other]? = some records ↔ _
    rw [Ledger.waiting_append, Ledger.waiting_cons_queued]
    by_cases same : event = other
    · rw [← same, first, nil_append]
      split
      · next none =>
        rw [get_erase_self, none]
        exact ⟨nofun, fun ⟨nonempty, is⟩ => absurd is.symm nonempty⟩
      · next some =>
        rw [get_insert_self, some_inj]
        exact ⟨fun is => ⟨is ▸ some, is⟩, And.right⟩
    · have kept : (if Ledger.waiting event after = [] then tables.events.erase event
          else tables.events.insert event (Ledger.waiting event after))[other]? =
            tables.events[other]? := by
        split
        · exact get_erase_of_ne _ same
        · exact get_insert_of_ne _ _ same
      rw [kept, outbox.events, Ledger.waiting_append, Ledger.waiting_cons, if_neg]
      rw [waits]
      exact fun is => same (Place.waits.inj is)
  · rw [length]
    obtain mem' | mem' := mem_append.mp mem'
    · exact outbox.waits (mem_append_left _ mem') waits'
    · obtain rfl | mem' := mem_cons.mp mem'
      · cases waits'
      · exact outbox.waits (mem_append_right _ (mem_cons_of_mem _ mem')) waits'
  · obtain rfl | mem' := (queued r).mp mem'
    · exact ⟨status, by rw [next]; rfl⟩
    · exact outbox.pending mem'

end

/-! ## Attempts -/

section

variable (outbox : Outbox ledger tables) {old : DeliveryRecord} {made : DeliveryAttempt}

include outbox

/-- Whatever an attempt does to a delivery in the queue, it concerns no other one. -/
theorem mem_attempt (found : tables.deliveries[id]? = some old) {r : DeliveryRecord} :
    ⟨r, .queued⟩ ∈ ledger.attempt id made ↔
      made.status = .pending ∧ r = attempted old made ∨ r.id ≠ id ∧ ⟨r, .queued⟩ ∈ ledger := by
  obtain ⟨its, mem⟩ := outbox.deliveries.mp found
  rw [Ledger.attempt, List.mem_map]
  constructor
  · rintro ⟨entry, mem', is⟩
    unfold Entry.attempt at is
    split at is
    · next reached =>
      have same : entry = ⟨old, .queued⟩ :=
        outbox.eq_of_id mem' mem (reached.1.trans its.symm)
      obtain ⟨is, queued⟩ := Entry.mk.inj is
      split at queued
      · next pending => exact .inl ⟨pending, by rw [← is, same]⟩
      · cases queued
    · next other =>
      subst is
      exact .inr ⟨fun its => other ⟨its, rfl⟩, mem'⟩
  · rintro (⟨pending, rfl⟩ | ⟨other, mem'⟩)
    · refine ⟨_, mem, ?_⟩
      rw [Entry.attempt, if_pos ⟨its, rfl⟩, if_pos pending]
    · exact ⟨_, mem', if_neg fun reached => other reached.1⟩

theorem of_attempt (found : tables.deliveries[id]? = some old)
    (carries : made.status = .pending → made.nextAttemptAtUnix.isSome = true)
    (deliveries : ∀ {id' record}, tables'.deliveries[id']? = some record ↔
      record.id = id' ∧ ⟨record, .queued⟩ ∈ ledger.attempt id made)
    (serial : tables'.serial = tables.serial) (events : tables'.events = tables.events)
    (due : Indexes dueEntry tables'.deliveries tables'.due) :
    Outbox (ledger.attempt id made) tables' := by
  have length : (ledger.attempt id made).length = ledger.length := length_map _
  refine ⟨?_, length ▸ outbox.small, ?_, fun {event records} => ?_,
    fun {entry event} mem waits => ?_,
    deliveries, fun {r} mem => ?_, due⟩
  · rw [serial, length, outbox.serial]
  · rw [length, ← outbox.ids, Ledger.attempt, List.map_map]
    exact map_congr_left fun entry _ => Ledger.id_attempt id made entry
  · rw [events, Ledger.waiting_attempt]
    exact outbox.events
  · obtain ⟨entry, mem', rfl⟩ := List.mem_map.mp mem
    rw [length]
    unfold Entry.attempt at waits ⊢
    split at waits
    · split at waits <;> cases waits
    · next other =>
      rw [if_neg other]
      exact outbox.waits mem' waits
  · obtain ⟨pending, rfl⟩ | ⟨-, mem⟩ := (outbox.mem_attempt found).mp mem
    · exact ⟨pending, carries pending⟩
    · exact outbox.pending mem

theorem attempt (id : String)
    (carries : made.status = .pending → made.nextAttemptAtUnix.isSome = true) :
    Outbox (ledger.attempt id made) (tables.updateWebhookDelivery id made).2 := by
  unfold updateWebhookDelivery
  cases found : tables.deliveries[id]? with
  | none =>
    rw [Ledger.attempt_eq_self fun entry mem its queued => ?_]
    · exact outbox
    · have held : tables.deliveries[id]? = some entry.record :=
        outbox.deliveries.mpr ⟨its, by rw [← queued]; exact mem⟩
      cases found.symm.trans held
  | some old =>
    obtain ⟨rfl, -, next⟩ := outbox.holds found
    obtain ⟨was, at'⟩ := isSome_iff_exists.mp next
    dsimp only
    rw [at']
    split
    · next pending =>
      obtain ⟨time, again⟩ := isSome_iff_exists.mp (carries pending)
      have moved := outbox.due.replace (attempted old made) found fun is _ its =>
        dueEntry_inj is its
      rw [dueEntry, dueEntry, at', attempted, again] at moved
      refine outbox.of_attempt found carries (fun {id' r} => ?_) rfl rfl ?_
      · change (tables.deliveries.insert old.id (attempted old made))[id']? = some r ↔ _
        rw [outbox.mem_attempt found, get_insert]
        by_cases same : old.id = id'
        · rw [if_pos same, some_inj]
          refine ⟨fun is => is ▸ ⟨same, .inl ⟨pending, rfl⟩⟩, fun ⟨here, is⟩ => ?_⟩
          exact is.elim (fun is => is.2.symm) fun is => absurd (here.trans same.symm) is.1
        · rw [if_neg same, outbox.deliveries]
          refine and_congr_right fun here => ⟨fun mem => .inr ⟨?_, mem⟩, ?_⟩
          · exact fun is => same (is.symm.trans here)
          · rintro (⟨-, rfl⟩ | ⟨-, mem⟩)
            · exact absurd here same
            · exact mem
      · dsimp only
        rw [again]
        exact moved
    · next terminal =>
      have left := outbox.due.erase old.id
      rw [found, bind_some, dueEntry, at'] at left
      refine outbox.of_attempt found carries (fun {id' r} => ?_) rfl rfl left
      change (tables.deliveries.erase old.id)[id']? = some r ↔ _
      rw [outbox.mem_attempt found, get_erase]
      by_cases same : old.id = id'
      · rw [if_pos same]
        refine ⟨nofun, fun ⟨here, is⟩ => is.elim (fun is => absurd is.1 terminal) fun is => ?_⟩
        exact absurd (here.trans same.symm) is.1
      · rw [if_neg same, outbox.deliveries]
        refine and_congr_right fun here => ⟨fun mem => .inr ⟨?_, mem⟩, fun is => ?_⟩
        · exact fun is => same (is.symm.trans here)
        · exact is.elim (fun is => absurd is.1 terminal) And.right

/-! ## The scan -/

theorem sound :
    ∀ row ∈ tables.due.toList, Sound tables.deliveries row := by
  rintro ⟨key, id⟩ mem
  have held := mem_toList_iff_getElem?_eq_some.mp mem
  obtain ⟨i, record, found, is⟩ := outbox.due.exact.mp held
  obtain ⟨next, at', row⟩ := map_eq_some_iff.mp is
  cases row
  exact ⟨record, next, found, at', rfl⟩

theorem listDue {limit : Nat} (now : Int64) (excluded : List (String × String)) :
    tables.listDueWebhookDeliveries now limit excluded =
      ((firsts [] ((named tables.deliveries tables.due.toList).filter
        (eligible now excluded))).take limit, tables) := by
  unfold listDueWebhookDeliveries
  split
  · next none => rw [none, take_zero]
  · next some =>
    have ordered : tables.due.toList.Pairwise fun a b => a.1 < b.1 :=
      ordered_keys_toList.imp fun less => compare_lt_iff_lt.mp less
    have room : ({} : Scan).records.length < limit := Nat.pos_of_ne_zero some
    obtain ⟨records, clean⟩ :
        (scan now limit excluded tables.deliveries tables.due.toList {}).records = _ ∧ _ :=
      scan_eq outbox.sound ordered room
    dsimp only
    rw [records, clean]
    rfl

theorem named_ordered :
    (named tables.deliveries tables.due.toList).Pairwise Before := by
  refine List.Pairwise.filterMap _ ?_ (List.Pairwise.and_mem.mp ordered_keys_toList)
  rintro ⟨k, i⟩ ⟨l, j⟩ ⟨mem, mem', less⟩ r found s found'
  obtain ⟨r', t, its, next, key⟩ := outbox.sound _ mem
  obtain ⟨s', u, its', next', key'⟩ := outbox.sound _ mem'
  dsimp only at found found' its its' less key key'
  subst key key'
  cases found.symm.trans its
  cases found'.symm.trans its'
  obtain ⟨rfl, -⟩ := outbox.holds found
  obtain ⟨rfl, -⟩ := outbox.holds found'
  exact ⟨t, u, next, next', dueKey_lt_iff.mp (compare_lt_iff_lt.mp less)⟩

theorem named_perm :
    (named tables.deliveries tables.due.toList).Perm (tables.deliveries.toList.map Prod.snd) := by
  have distinct : (tables.deliveries.toList.map Prod.snd).Nodup := by
    refine List.Nodup.map_on ?_ (nodup_toList _)
    rintro ⟨i, r⟩ mem ⟨j, s⟩ mem' (rfl : r = s)
    have first := outbox.holds (mem_toList_iff_getElem?_eq_some.mp mem)
    have second := outbox.holds (mem_toList_iff_getElem?_eq_some.mp mem')
    rw [← first.1, ← second.1]
  have apart : (named tables.deliveries tables.due.toList).Nodup := by
    refine outbox.named_ordered.imp fun before same => ?_
    obtain ⟨t, u, next, next', less⟩ := before
    subst same
    cases next.symm.trans next'
    obtain less | ⟨-, less⟩ := less
    · exact Int64.lt_irrefl less
    · exact lt_irrefl _ less
  refine (perm_ext_iff_of_nodup apart distinct).mpr fun record => ?_
  rw [named, List.mem_filterMap, List.mem_map]
  constructor
  · rintro ⟨⟨key, id⟩, -, found⟩
    exact ⟨(id, record), mem_toList_iff_getElem?_eq_some.mpr found, rfl⟩
  · rintro ⟨⟨id, _⟩, mem, rfl⟩
    have found := mem_toList_iff_getElem?_eq_some.mp mem
    obtain ⟨next, at'⟩ := isSome_iff_exists.mp (outbox.holds found).2.2
    have entry : dueEntry id _ = some (dueKey next id, id) := congrArg (Option.map _) at'
    exact ⟨(dueKey next id, id), mem_toList_iff_getElem?_eq_some.mpr
      (outbox.due.get found entry), found⟩

end

end Outbox

end Peryx.Webhook
