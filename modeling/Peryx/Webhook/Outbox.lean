import Peryx.Lib.BTreeMap
import Peryx.Lib.Digits
import Peryx.Lib.Machine

/-!
# The webhook outbox

`meta/webhook.rs`: an event is stored with a delivery for each of its targets, and
its fan-out moves the deliveries one by one into the queue. A second table orders
the queue by the time of the next attempt.

Rows are kept as they are decoded. A serial that does not fit 64 bits panics, and
the transaction is abandoned; a count of attempts wraps, as in a release build.
-/

namespace Peryx.Webhook

inductive DeliveryStatus where
  | pending
  | delivered
  | failed
deriving DecidableEq

structure NewDelivery where
  index : String
  target : String
  event : String
  payload : String
  createdAtUnix : Int64
deriving DecidableEq

structure DeliveryRecord extends NewDelivery where
  id : String
  status : DeliveryStatus
  attempts : UInt16
  updatedAtUnix : Int64
  nextAttemptAtUnix : Option Int64
  responseStatus : Option Nat
  lastError : Option String
deriving DecidableEq

structure EventIntent where
  index : String
  targets : List String
  event : String
  payload : String
  createdAtUnix : Int64

structure DeliveryAttempt where
  status : DeliveryStatus
  updatedAtUnix : Int64
  nextAttemptAtUnix : Option Int64
  responseStatus : Option Nat
  lastError : Option String

inductive WebhookError where
  | driverPrecondition (message : String)
  /-- A panic: a number does not fit. -/
  | overflow
  /-- A panic: an event without deliveries. -/
  | noDelivery
deriving DecidableEq

structure WebhookTables where
  /-- The row of the serial table under `webhook_delivery`. -/
  serial : Option Nat := none
  /-- The deliveries of each event that are still to be enqueued. -/
  events : BTreeMap String (List DeliveryRecord) := ∅
  deliveries : BTreeMap String DeliveryRecord := ∅
  due : BTreeMap String String := ∅

/-! ## Keys -/

/-- `wd_{serial:016x}`. -/
def deliveryId (serial : Nat) : String :=
  "wd_" ++ String.ofList (digits 16 16 serial)

/-- `we_{serial:016x}`. -/
def eventId (serial : Nat) : String :=
  "we_" ++ String.ofList (digits 16 16 serial)

/-- `{sortable:020}/{id}`, where the sign bit of the time is flipped. -/
def dueKey (timestamp : Int64) (id : String) : String :=
  String.ofList (digits 10 20 (biased timestamp).toNat) ++ "/" ++ id

def dueKeyTime (key : String) : Option Int64 := do
  let (raw, _) ← splitOnce '/' key.toList
  let raw ← parseU64 raw
  return (UInt64.ofNat raw ^^^ ((1 : UInt64) <<< 63)).toInt64

def newRecord (id : String) (delivery : NewDelivery) : DeliveryRecord :=
  { delivery with
    id
    status := .pending
    attempts := 0
    updatedAtUnix := delivery.createdAtUnix
    nextAttemptAtUnix := some delivery.createdAtUnix
    responseStatus := none
    lastError := none }

def EventIntent.deliveries (event : EventIntent) : List NewDelivery :=
  event.targets.map fun target =>
    { index := event.index, target, event := event.event, payload := event.payload
      createdAtUnix := event.createdAtUnix }

namespace WebhookTables

/-! ## Writes -/

def insertDelivery (record : DeliveryRecord) (tables : WebhookTables) : WebhookTables :=
  { tables with
    deliveries := tables.deliveries.insert record.id record
    due := tables.due.insert (dueKey record.createdAtUnix record.id) record.id }

def enqueueWebhookDelivery (delivery : NewDelivery) (tables : WebhookTables) :
    Except WebhookError (String × WebhookTables) :=
  let next := tables.serial.getD 0 + 1
  if next < 2 ^ 64 then
    let id := deliveryId next
    .ok (id, ({ tables with serial := some next }).insertDelivery (newRecord id delivery))
  else .error .overflow

def insertWebhookEvent (event : EventIntent) (tables : WebhookTables) :
    Except WebhookError WebhookTables :=
  if event.targets = [] then
    .error (.driverPrecondition "webhook event requires at least one target")
  else
    let firstDelivery := tables.serial.getD 0 + 1
    if firstDelivery + event.targets.length < 2 ^ 64 then
      let deliveries := (event.deliveries.zipIdx firstDelivery).map fun (delivery, serial) =>
        newRecord (deliveryId serial) delivery
      .ok { tables with
        serial := some (firstDelivery + event.targets.length - 1)
        events := tables.events.insert (eventId firstDelivery) deliveries }
    else .error .overflow

def enqueueWebhookEvents (events : List EventIntent) (tables : WebhookTables) :
    Except WebhookError WebhookTables :=
  events.foldlM (fun tables event => tables.insertWebhookEvent event) tables

/-- Moves one target out of the outbox record and into the queue; false when the
event is not there. -/
def enqueueNextWebhookEventDelivery (event : String) (tables : WebhookTables) :
    Except WebhookError (Bool × WebhookTables) :=
  match tables.events[event]? with
  | none => .ok (false, tables)
  | some [] => .error .noDelivery
  | some (delivery :: rest) =>
    let events := if rest = [] then tables.events.erase event else tables.events.insert event rest
    .ok (true, ({ tables with events }).insertDelivery delivery)

/-- Records an attempt; a terminal one drops the row. -/
def updateWebhookDelivery (id : String) (attempt : DeliveryAttempt) (tables : WebhookTables) :
    Option DeliveryRecord × WebhookTables :=
  match tables.deliveries[id]? with
  | none => (none, tables)
  | some old =>
    let due :=
      match old.nextAttemptAtUnix with
      | some next => tables.due.erase (dueKey next old.id)
      | none => tables.due
    let record : DeliveryRecord :=
      { old with
        status := attempt.status
        attempts := old.attempts + 1
        updatedAtUnix := attempt.updatedAtUnix
        nextAttemptAtUnix := attempt.nextAttemptAtUnix
        responseStatus := attempt.responseStatus
        lastError := attempt.lastError }
    if record.status = .pending then
      let due :=
        match record.nextAttemptAtUnix with
        | some next => due.insert (dueKey next id) id
        | none => due
      (some record, { tables with deliveries := tables.deliveries.insert id record, due })
    else (some record, { tables with deliveries := tables.deliveries.erase id, due })

/-! ## The scan -/

instance : LawfulBEq (String × String) := inferInstance

structure Scan where
  records : List DeliveryRecord := []
  seen : List (String × String) := []
  damagedDueKeys : List String := []

def scan (now : Int64) (limit : Nat) (excluded : List (String × String))
    (deliveries : BTreeMap String DeliveryRecord) : List (String × String) → Scan → Scan
  | [], found => found
  | (key, id) :: rest, found =>
    match dueKeyTime key with
    | none =>
      scan now limit excluded deliveries rest
        { found with damagedDueKeys := found.damagedDueKeys ++ [key] }
    | some dueAt =>
      if now < dueAt then found
      else
        match deliveries[id]? with
        | none =>
          scan now limit excluded deliveries rest
            { found with damagedDueKeys := found.damagedDueKeys ++ [key] }
        | some record =>
          if record.nextAttemptAtUnix ≠ some dueAt then
            scan now limit excluded deliveries rest
              { found with damagedDueKeys := found.damagedDueKeys ++ [key] }
          else
            let target := (record.index, record.target)
            if target ∈ excluded ∨ target ∈ found.seen then
              scan now limit excluded deliveries rest found
            else
              let found :=
                { found with records := found.records ++ [record], seen := target :: found.seen }
              if found.records.length = limit then found
              else scan now limit excluded deliveries rest found

/-- Due deliveries in due-time order, at most one per index and target. -/
def listDueWebhookDeliveries (now : Int64) (limit : Nat) (excluded : List (String × String))
    (tables : WebhookTables) : List DeliveryRecord × WebhookTables :=
  if limit = 0 then ([], tables)
  else
    let found := scan now limit excluded tables.deliveries tables.due.toList {}
    (found.records,
      { tables with due := found.damagedDueKeys.foldl (fun due key => due.erase key) tables.due })

def nextWebhookEventId (tables : WebhookTables) : Option String :=
  tables.events.toList.head?.map Prod.fst

end WebhookTables

/-! ## Transactions -/

/-- One transaction each: a crash between two of them leaves the tables as the
first one did. -/
inductive WebhookStep where
  | enqueue (delivery : NewDelivery)
  | insertEvents (events : List EventIntent)
  | fanOut (event : String)
  | attempt (id : String) (attempt : DeliveryAttempt)
  | listDue (now : Int64) (limit : Nat) (excluded : List (String × String))

inductive WebhookAnswer where
  | enqueued (id : String)
  | inserted
  | moved (existed : Bool)
  | attempted (record : Option DeliveryRecord)
  | found (records : List DeliveryRecord)

namespace WebhookTables

def commit {α : Type} (tables : WebhookTables) (answer : α → WebhookAnswer)
    (result : Except WebhookError (α × WebhookTables)) :
    WebhookTables × Except WebhookError WebhookAnswer :=
  match result with
  | .ok (a, tables') => (tables', .ok (answer a))
  | .error error => (tables, .error error)

def step (tables : WebhookTables) :
    WebhookStep → WebhookTables × Except WebhookError WebhookAnswer
  | .enqueue delivery => tables.commit .enqueued (tables.enqueueWebhookDelivery delivery)
  | .insertEvents events =>
    tables.commit (fun _ => .inserted) ((tables.enqueueWebhookEvents events).map ((), ·))
  | .fanOut event => tables.commit .moved (tables.enqueueNextWebhookEventDelivery event)
  | .attempt id attempt =>
    let (record, tables') := tables.updateWebhookDelivery id attempt
    (tables', .ok (.attempted record))
  | .listDue now limit excluded =>
    let (records, tables') := tables.listDueWebhookDeliveries now limit excluded
    (tables', .ok (.found records))

/-- Repeats the fan-out of an event until the event is gone. -/
def fanOutWebhookEvent (event : String) : Nat → WebhookTables → Except WebhookError WebhookTables
  | 0, tables => .ok tables
  | fuel + 1, tables => do
    let (moved, tables) ← tables.enqueueNextWebhookEventDelivery event
    if moved then fanOutWebhookEvent event fuel tables else return tables

def recoverWebhookEvents : Nat → WebhookTables → Except WebhookError WebhookTables
  | 0, tables => .ok tables
  | fuel + 1, tables =>
    match tables.nextWebhookEventId with
    | none => .ok tables
    | some event => do
      let tables ← fanOutWebhookEvent event (fuel + 1) tables
      recoverWebhookEvents fuel tables

end WebhookTables

end Peryx.Webhook
