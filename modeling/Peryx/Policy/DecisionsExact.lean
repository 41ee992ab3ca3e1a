import Peryx.Policy.DecisionTables

/-!
# The tables of policy decisions are what was recorded

`Exact` compares the tables with the list of the decisions that were recorded:
the history is its end, and the current tables hold the latest decision of each
subject. It determines the tables (`Exact.history_eq` and so on), so two ways to
record the same decisions leave the same tables.
-/

namespace Peryx

open DecisionTables BTreeMap List Std.ExtTreeMap String

/-! ## Ids -/

theorem historyId_inj {m n : Nat} (small : m < 2 ^ 64) (small' : n < 2 ^ 64)
    (same : historyId m = historyId n) : m = n :=
  Keys.tagged_inj "pd_" small small' same

theorem utf8Len_of_ascii : ∀ {text : List Char}, (∀ c ∈ text, c.utf8Size = 1) →
    String.utf8Len text = text.length
  | [], _ => rfl
  | c :: text, ascii => by
    rw [utf8Len_cons, ascii c mem_cons_self,
      utf8Len_of_ascii fun c mem => ascii c (.tail _ mem), length_cons]

theorem validCursor_historyId {n : Nat} (small : n < 2 ^ 64) :
    validCursor (historyId n) = true := by
  have small : n < 16 ^ 16 := by simpa using small
  have each : ∀ c ∈ digits 16 16 n, isAsciiHexdigit c = true ∧ c.utf8Size = 1 := by
    intro c mem
    obtain ⟨d, digit, rfl⟩ := mem_digits small mem
    have all : ∀ d < 16,
      isAsciiHexdigit (Nat.digitChar d) = true ∧ (Nat.digitChar d).utf8Size = 1 := by decide
    exact all d digit
  have letters : (historyId n).toList = ['p', 'd', '_'] ++ digits 16 16 n := by
    rw [historyId, toList_append]
    exact congrArg (['p', 'd', '_'] ++ ·) toList_ofList
  have size : (historyId n).utf8ByteSize = 19 := by
    rw [historyId, utf8ByteSize_append, utf8ByteSize_ofList,
      utf8ByteSize_ofList, utf8Len_of_ascii fun c mem => (each c mem).2, length_digits]
    rfl
  rw [validCursor, size, letters, Bool.and_eq_true, Bool.and_eq_true]
  exact ⟨⟨rfl, rfl⟩, all_eq_true.mpr fun c mem => (each c mem).1⟩

/-! ## The log -/

abbrev Log := List PolicyDecisionRecord

namespace Log

/-- The history rows of a log. -/
def rows (log : Log) : List (String × PolicyDecisionRecord) :=
  (log.zipIdx 1).map fun (record, serial) => (historyId serial, record)

/-- The last decision on a subject, with its serial. -/
def latest (log : Log) (subject : PolicyDecisionSubject) : Option (PolicyDecisionRecord × Nat) :=
  (log.zipIdx 1).reverse.find? fun row => row.1.toPolicyDecisionSubject = subject

theorem rows_append (log : Log) (record : PolicyDecisionRecord) :
    rows (log ++ [record]) = rows log ++ [(historyId (log.length + 1), record)] := by
  rw [rows, zipIdx_append, map_append, Nat.add_comm 1]
  rfl

@[simp] theorem length_rows (log : Log) : (rows log).length = log.length := by
  rw [rows, List.length_map, length_zipIdx]

theorem latest_append (log : Log) (record : PolicyDecisionRecord)
    (subject : PolicyDecisionSubject) :
    latest (log ++ [record]) subject =
      if record.toPolicyDecisionSubject = subject then some (record, log.length + 1)
      else latest log subject := by
  rw [latest, zipIdx_append, reverse_append, Nat.add_comm 1]
  change (((record, log.length + 1) :: (log.zipIdx 1).reverse).find? _) = _
  split <;> simp_all [latest]

theorem latest_eq_some {log : Log} {subject : PolicyDecisionSubject} {record : PolicyDecisionRecord}
    {n : Nat} (found : latest log subject = some (record, n)) :
    record.toPolicyDecisionSubject = subject ∧ (record, n) ∈ log.zipIdx 1 := by
  have mem := mem_of_find?_eq_some found
  have is := find?_some found
  exact ⟨of_decide_eq_true is, mem_reverse.mp mem⟩

end Log

/-! ## The tables of a log -/

/-- The tables hold the decisions of the log, without the oldest ones in the
history. -/
structure Exact (json : Codec PolicyDecisionSubject String) (dropped : Nat) (log : Log)
    (tables : DecisionTables) : Prop where
  serial : tables.serial.getD 0 = log.length
  small : log.length < 2 ^ 64
  history : tables.history.toList = (Log.rows log).drop dropped
  /-- The current table maps each subject to the id of its latest decision. -/
  current : ∀ subject, tables.current[json.encode subject]? =
    (Log.latest log subject).map fun row => historyId row.2
  subjects : ∀ {key id}, tables.current[key]? = some id → ∃ subject, key = json.encode subject
  /-- The table by id holds the records of these ids. -/
  currentRecords : ∀ {id record}, tables.currentRecords[id]? = some record ↔
    ∃ subject n, Log.latest log subject = some (record, n) ∧ id = historyId n

def DecisionTables.recordsWithout (json : Codec PolicyDecisionSubject String)
    (subject : PolicyDecisionSubject) (tables : DecisionTables) :
    BTreeMap String PolicyDecisionRecord :=
  match tables.current[json.encode subject]? with
  | some previous => tables.currentRecords.erase previous
  | none => tables.currentRecords

def DecisionTables.put (json : Codec PolicyDecisionSubject String) (record : PolicyDecisionRecord)
    (tables : DecisionTables) : DecisionTables :=
  let id := historyId (tables.serial.getD 0 + 1)
  let subject := json.encode record.toPolicyDecisionSubject
  { tables with
    serial := some (tables.serial.getD 0 + 1)
    history := tables.history.insert id record
    current := tables.current.insert subject id
    currentRecords :=
      (tables.recordsWithout json record.toPolicyDecisionSubject).insert id record }

/-- What readers make of the serial row: an absent one counts as none recorded. -/
def DecisionTables.readSerial (tables : DecisionTables) : DecisionTables :=
  { tables with serial := some (tables.serial.getD 0) }

variable {json : Codec PolicyDecisionSubject String}

namespace Exact

variable {dropped limit : Nat} {log : Log}
  {tables tables' : DecisionTables} {record : PolicyDecisionRecord}

theorem encode_inj {s s' : PolicyDecisionSubject} (same : json.encode s = json.encode s') :
    s = s' := by
  have read := json.decode_encode s
  rw [same, json.decode_encode] at read
  exact (Option.some.inj read).symm

theorem empty (json : Codec PolicyDecisionSubject String) : Exact json 0 [] {} where
  serial := rfl
  small := by decide
  history := rfl
  current subject := get_empty _
  subjects found := by cases (get_empty _).symm.trans found
  currentRecords := by
    intro id record
    constructor
    · intro found
      cases (get_empty _).symm.trans found
    · rintro ⟨_, _, found, -⟩
      cases found

theorem serial_le {subject : PolicyDecisionSubject} {n : Nat}
    (found : Log.latest log subject = some (record, n)) : n ≤ log.length := by
  have bound := snd_lt_add_of_mem_zipIdx (Log.latest_eq_some found).2
  omega

theorem serial_ne {s s' : PolicyDecisionSubject} {record' : PolicyDecisionRecord} {n n' : Nat}
    (found : Log.latest log s = some (record, n)) (found' : Log.latest log s' = some (record', n'))
    (other : s ≠ s') : n ≠ n' := by
  rintro rfl
  obtain ⟨is, mem⟩ := Log.latest_eq_some found
  obtain ⟨is', mem'⟩ := Log.latest_eq_some found'
  rw [mem_zipIdx_iff_le_and_getElem?_sub] at mem mem'
  cases mem.2.symm.trans mem'.2
  exact other (is.symm.trans is')

section

variable (exact : Exact json dropped log tables)

include exact

theorem recordsWithout_get
    (subject : PolicyDecisionSubject) (id : String) (record : PolicyDecisionRecord) :
    (tables.recordsWithout json subject)[id]? = some record ↔
    ∃ s n, s ≠ subject ∧ Log.latest log s = some (record, n) ∧ id = historyId n := by
  rw [recordsWithout, exact.current]
  cases previous : Log.latest log subject with
  | none =>
    rw [Option.map_none, exact.currentRecords]
    refine exists_congr fun s => exists_congr fun n => ⟨fun is => ⟨?_, is⟩, And.right⟩
    rintro rfl
    cases previous.symm.trans is.1
  | some row =>
    obtain ⟨last, m⟩ := row
    have bound : ∀ {s r n}, Log.latest log s = some (r, n) → n < 2 ^ 64 :=
      fun found => (serial_le found).trans_lt exact.small
    rw [Option.map_some, get_erase]
    constructor
    · intro found
      split at found
      · cases found
      · next apart =>
        obtain ⟨s, n, latest, rfl⟩ := exact.currentRecords.mp found
        refine ⟨s, n, ?_, latest, rfl⟩
        rintro rfl
        cases previous.symm.trans latest
        exact apart rfl
    · rintro ⟨s, n, other, latest, rfl⟩
      have apart : historyId m ≠ historyId n := fun same =>
        serial_ne latest previous other (historyId_inj (bound previous) (bound latest) same).symm
      rw [if_neg apart]
      exact exact.currentRecords.mpr ⟨s, n, latest, rfl⟩

/-- **Step.** A record goes into every table. -/
theorem put (within : dropped ≤ log.length)
    (small : log.length + 1 < 2 ^ 64) (record : PolicyDecisionRecord) :
    Exact json dropped (log ++ [record]) (tables.put json record) := by
  have next : tables.serial.getD 0 + 1 = log.length + 1 := by rw [exact.serial]
  refine ⟨?_, ?_, ?_, fun subject => ?_, fun {key id} found => ?_, fun {id r} => ?_⟩
  · change tables.serial.getD 0 + 1 = (log ++ [record]).length
    rw [next, List.length_append, List.length_singleton]
  · rwa [List.length_append, List.length_singleton]
  · change (tables.history.insert (historyId (tables.serial.getD 0 + 1)) record).toList = _
    rw [next, toList_insert_last, exact.history, Log.rows_append,
      drop_append_of_le_length (by rwa [Log.length_rows])]
    intro row mem
    rw [exact.history] at mem
    obtain ⟨⟨r, n⟩, at', rfl⟩ := List.mem_map.mp (mem_of_mem_drop mem)
    have bound := snd_lt_add_of_mem_zipIdx at'
    exact compare_lt_iff_lt.mpr ((Keys.tagged_lt_iff "pd_" (by omega) small).mpr (by omega))
  · change (tables.current.insert _
      (historyId (tables.serial.getD 0 + 1)))[json.encode subject]? = _
    rw [next, get_insert, Log.latest_append]
    by_cases same : record.toPolicyDecisionSubject = subject
    · rw [if_pos (congrArg _ same), if_pos same, Option.map_some]
    · rw [if_neg fun is => same (encode_inj is), if_neg same, exact.current]
  · change (tables.current.insert _ _)[key]? = some id at found
    rw [get_insert] at found
    split at found
    · next same => exact ⟨_, same.symm⟩
    · exact exact.subjects found
  · change ((tables.recordsWithout json record.toPolicyDecisionSubject).insert
      (historyId (tables.serial.getD 0 + 1)) record)[id]? = some r ↔ _
    rw [next, get_insert]
    by_cases same : historyId (log.length + 1) = id
    · subst same
      rw [if_pos rfl, Option.some_inj]
      constructor
      · rintro rfl
        refine ⟨record.toPolicyDecisionSubject, log.length + 1, ?_, rfl⟩
        rw [Log.latest_append, if_pos rfl]
      · rintro ⟨s, n, latest, is⟩
        rw [Log.latest_append] at latest
        split at latest
        · exact (Prod.mk.inj (Option.some.inj latest)).1
        · have before := serial_le latest
          have := historyId_inj small (before.trans_lt exact.small) is
          omega
    · rw [if_neg same, exact.recordsWithout_get]
      refine exists_congr fun s => exists_congr fun n => ?_
      rw [Log.latest_append]
      constructor
      · rintro ⟨other, latest, rfl⟩
        rw [if_neg other.symm]
        exact ⟨latest, rfl⟩
      · rintro ⟨latest, rfl⟩
        split at latest
        · cases latest
          exact absurd rfl same
        · next other => exact ⟨fun is => other is.symm, latest, rfl⟩

/-- **Step.** Pruning drops the oldest rows. -/
theorem prune (within : dropped ≤ log.length) (limit : Nat) :
    Exact json (max dropped (log.length - limit)) log (tables.pruneHistory limit) := by
  have size : tables.history.size = log.length - dropped := by
    rw [← Std.ExtTreeMap.length_toList, exact.history, length_drop, Log.length_rows]
  unfold pruneHistory
  dsimp only
  split
  · next none =>
    rw [max_eq_left (by omega)]
    exact exact
  · next some =>
    split
    · next firstKept _ first =>
      refine { exact with history := ?_ }
      rw [toList_filter, filter_from_eq_drop ordered_keys_toList first, exact.history, drop_drop]
      congr 1
      omega
    · next first =>
      refine { exact with history := ?_ }
      have long := List.getElem?_eq_none_iff.mp first
      rw [Std.ExtTreeMap.length_toList] at long
      refine (drop_eq_nil_of_le ?_).symm
      rw [Log.length_rows]
      omega

section

variable (exact' : Exact json dropped log tables')

include exact'

theorem history_eq :
    tables.history = tables'.history :=
  Std.ExtTreeMap.toList_inj.mp (exact.history.trans exact'.history.symm)

theorem current_eq :
    tables.current = tables'.current := by
  refine Std.ExtTreeMap.ext_getElem? fun key => ?_
  by_cases is : ∃ subject, key = json.encode subject
  · obtain ⟨subject, rfl⟩ := is
    rw [exact.current, exact'.current]
  · have absent : ∀ {t : DecisionTables}, Exact json dropped log t → t.current[key]? = none :=
      fun exact => Option.eq_none_iff_forall_ne_some.mpr fun id found => is (exact.subjects found)
    rw [absent exact, absent exact']

theorem currentRecords_eq : tables.currentRecords = tables'.currentRecords := by
  refine Std.ExtTreeMap.ext_getElem? fun id => Option.ext fun record => ?_
  rw [exact.currentRecords, exact'.currentRecords]

omit exact' in
theorem pruned (within : dropped ≤ log.length - limit) :
    Exact json (log.length - limit) log (tables.pruneHistory limit) := by
  have pruned := exact.prune (by omega) limit
  rwa [max_eq_right within] at pruned

omit exact' in
theorem new :
    Exact json dropped log (BatchWriter.new tables).finish :=
  { exact with serial := exact.serial }

theorem eq_of_same (same : tables.generations = tables'.generations) :
    tables.readSerial = tables'.readSerial ∧
      (tables.serial = tables'.serial → tables = tables') := by
  have history := exact.history_eq exact'
  have current := exact.current_eq exact'
  have records := exact.currentRecords_eq exact'
  have serial := exact.serial.trans exact'.serial.symm
  obtain ⟨s, h, c, r, g⟩ := tables
  obtain ⟨s', h', c', r', g'⟩ := tables'
  subst history current records same
  exact ⟨by rw [readSerial, readSerial]; dsimp only; rw [serial], fun row => by cases row; rfl⟩

end

end

end Exact

/-! ## Recording -/

namespace DecisionTables

variable {dropped limit : Nat} {log : Log}
  {tables : DecisionTables} {queued : List OwnedDecision}

def OwnedDecision.record (queued : OwnedDecision) : PolicyDecisionRecord :=
  { queued.decision with id := queued.id, inputGeneration := queued.inputGeneration }

theorem pruneHistory_keeps (limit : Nat) (tables : DecisionTables) :
    (tables.pruneHistory limit).serial = tables.serial ∧
    (tables.pruneHistory limit).current = tables.current ∧
    (tables.pruneHistory limit).currentRecords = tables.currentRecords ∧
    (tables.pruneHistory limit).generations = tables.generations := by
  unfold pruneHistory
  dsimp only
  split
  · exact ⟨rfl, rfl, rfl, rfl⟩
  · split <;> exact ⟨rfl, rfl, rfl, rfl⟩

/-! ### One by one -/

theorem recordIn_eq (id : DecisionId) (decision : NewPolicyDecision) (tables : DecisionTables) :
    tables.recordIn json id decision =
      if tables.serial.getD 0 + 1 < 2 ^ 64 then
        let inputGeneration := tables.policyInputGeneration decision.repository
        let record := OwnedDecision.record ⟨id, decision, inputGeneration⟩
        .ok (record, tables.put json record)
      else .error .serialOverflow :=
  rfl

theorem recordPruned_ok (exact : Exact json (log.length - limit) log tables)
    (room : log.length + 1 < 2 ^ 64) {queued : OwnedDecision}
    (under : queued.inputGeneration = tables.policyInputGeneration queued.decision.repository) :
    ∃ tables', tables.recordPruned json limit queued.id queued.decision =
        .ok (queued.record, tables') ∧
      Exact json ((log ++ [queued.record]).length - limit) (log ++ [queued.record]) tables' ∧
      tables'.generations = tables.generations ∧ tables'.serial = some (log.length + 1) := by
  obtain ⟨serial, -, -, generations⟩ := pruneHistory_keeps limit (tables.put json queued.record)
  refine ⟨_, ?_, (exact.put (Nat.sub_le _ _) room _).pruned ?_, generations, serial.trans ?_⟩
  · rw [recordPruned, recordIn_eq, exact.serial, if_pos room, ← under]
    rfl
  · rw [List.length_append]
    omega
  · exact congrArg (fun n => some (n + 1)) exact.serial

theorem recordPruned_full (exact : Exact json (log.length - limit) log tables)
    (full : ¬ log.length + 1 < 2 ^ 64) (id : DecisionId) (decision : NewPolicyDecision) :
    tables.recordPruned json limit id decision = .error .serialOverflow := by
  rw [recordPruned, recordIn_eq, exact.serial, if_neg full]
  rfl

/-- A loop over queued decisions logs all of them, or stops where the log is full. -/
def Logs (log : Log) (queued : List OwnedDecision) (holds : Log → σ → Prop)
    (ran : Except PolicyDecisionStoreError (List PolicyDecisionRecord × σ)) : Prop :=
  if log.length + queued.length < 2 ^ 64 then
    ∃ s, ran = .ok (queued.map OwnedDecision.record, s) ∧
      holds (log ++ queued.map OwnedDecision.record) s
  else ran = .error .serialOverflow

theorem logs_cons {σ : Type} {holds : Log → σ → Prop} {q : OwnedDecision}
    {one : Except PolicyDecisionStoreError (PolicyDecisionRecord × σ)}
    {r : σ → Except PolicyDecisionStoreError (List PolicyDecisionRecord × σ)}
    (room : log.length + 1 < 2 ^ 64 → ∃ s, one = .ok (q.record, s) ∧
      Logs (log ++ [q.record]) queued holds (r s))
    (full : ¬ log.length + 1 < 2 ^ 64 → one = .error .serialOverflow) :
    Logs log (q :: queued) holds (do
      let (record, s) ← one
      let (records, s) ← r s
      return (record :: records, s)) := by
  unfold Logs at *
  rw [length_cons]
  by_cases fits : log.length + 1 < 2 ^ 64
  · obtain ⟨s, rfl, ran⟩ := room fits
    rw [List.length_append, List.length_singleton, Nat.add_assoc, Nat.add_comm 1] at ran
    split
    · next all =>
      rw [if_pos all, List.append_assoc] at ran
      obtain ⟨s', ran, held⟩ := ran
      refine ⟨s', ?_, held⟩
      change (r s >>= _) = _
      rw [ran]
      rfl
    · next some =>
      rw [if_neg some] at ran
      change (r s >>= _) = _
      rw [ran]
      rfl
  · rw [full fits, if_neg (by omega)]
    rfl

theorem logs_nil {σ : Type} {holds : Log → σ → Prop} {s : σ} (small : log.length < 2 ^ 64)
    (held : holds log s) : Logs log [] holds (.ok ([], s)) := by
  simpa [Logs] using And.intro small held

theorem recordEach_logs (exact : Exact json (log.length - limit) log tables)
    (under : ∀ q ∈ queued, q.inputGeneration = tables.policyInputGeneration q.decision.repository)
    (serial : log.length ≠ n → tables.serial = some log.length) :
    Logs log queued (fun log' tables' => Exact json (log'.length - limit) log' tables' ∧
      tables'.generations = tables.generations ∧
      (log'.length ≠ n → tables'.serial = some log'.length))
      (recordEach json limit queued tables) := by
  induction queued generalizing log tables with
  | nil => exact logs_nil exact.small ⟨exact, rfl, serial⟩
  | cons q rest ih =>
    refine logs_cons (fun room => ?_) fun full => recordPruned_full exact full q.id q.decision
    obtain ⟨tables', done, exact', same, serial'⟩ :=
      recordPruned_ok exact room (under q mem_cons_self)
    refine ⟨tables', done, same ▸ ih exact' (fun q mem => ?_) fun _ => ?_⟩
    · rw [policyInputGeneration, same]
      exact under q (.tail _ mem)
    · rw [serial', List.length_append]
      rfl

/-! ### In a batch -/

namespace BatchWriter

theorem recordAll_logs {writer : BatchWriter} (exact : Exact json dropped log writer.finish)
    (within : dropped ≤ log.length) :
    Logs log queued (fun log' writer' => Exact json dropped log' writer'.finish ∧
      writer'.finish.generations = writer.finish.generations) (writer.recordAll json queued) := by
  induction queued generalizing log writer with
  | nil => exact logs_nil exact.small ⟨exact, rfl⟩
  | cons q rest ih =>
    have serial : writer.serial = log.length := exact.serial
    refine logs_cons (r := (recordAll json · rest)) (fun room => ?_) fun full => ?_
    · exact ⟨_, if_pos (serial ▸ room), ih (exact.put within room q.record)
        (by rw [List.length_append]; omega)⟩
    · exact if_neg (serial ▸ full)

end BatchWriter

section

variable (exact : Exact json (log.length - limit) log tables)

include exact

theorem writeBatch_logs :
    Logs log queued (fun log' tables' => Exact json (log'.length - limit) log' tables' ∧
      tables'.generations = tables.generations ∧ tables'.serial = some log'.length)
      (tables.writeBatch json limit queued) := by
  have logs : Logs log queued _ _ := BatchWriter.recordAll_logs exact.new (Nat.sub_le _ _)
  unfold Logs at *
  split at logs
  · next room =>
    obtain ⟨writer, all, exact', same⟩ := logs
    obtain ⟨serial, -, -, generations⟩ := pruneHistory_keeps limit writer.finish
    rw [if_pos room, writeBatch, all]
    refine ⟨_, rfl, exact'.pruned ?_, generations.trans same, serial.trans ?_⟩
    · rw [List.length_append]
      omega
    · exact congrArg some exact'.serial
  · next full =>
    rw [if_neg full, writeBatch, logs]
    rfl

/-- **A batch leaves what its decisions leave one by one**, but for the serial row
of a batch of none. -/
theorem writeBatch_eq_recordEach (under : ∀ q ∈ queued,
      q.inputGeneration = tables.policyInputGeneration q.decision.repository) :
    (tables.writeBatch json limit queued).map (fun (records, tables) =>
        (records, tables.readSerial)) =
        (recordEach json limit queued tables).map (fun (records, tables) =>
          (records, tables.readSerial)) ∧
      (queued ≠ [] →
        tables.writeBatch json limit queued = recordEach json limit queued tables) := by
  have batch : Logs log queued _ _ := writeBatch_logs exact
  have each := recordEach_logs (n := log.length) exact under fun other => absurd rfl other
  unfold Logs at *
  split at batch
  · next room =>
    rw [if_pos room] at each
    obtain ⟨batch, all, exact₁, same₁, serial₁⟩ := batch
    obtain ⟨each, others, exact₂, same₂, serial₂⟩ := each
    obtain ⟨read, whole⟩ := exact₁.eq_of_same exact₂ (same₁.trans same₂.symm)
    rw [all, others]
    refine ⟨?_, fun some => by rw [whole (serial₁.trans (serial₂ (by simpa using some)).symm)]⟩
    change Except.ok (_, batch.readSerial) = Except.ok (_, each.readSerial)
    rw [read]
  · next full =>
    rw [if_neg full] at each
    rw [batch, each]
    exact ⟨rfl, fun _ => rfl⟩

end

end DecisionTables

end Peryx
