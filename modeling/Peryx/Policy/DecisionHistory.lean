import Peryx.Lib.Except
import Peryx.Policy.DecisionsExact

/-!
# Histories of policy decisions

`Asked` is what the tables are for, read off the transactions alone: a growing
list of the decisions that were passed in, each with the input generation of its
moment. The tables refine it.

- `step_refines`: every transaction leaves the tables those of the list.
- `walk_queryPolicyDecisions`: the history is listed newest first, page by page, by
  the ids of its rows.
- `policy_decision_tables_are_consistent`: the two together, for a whole run, with
  what every recording is answered.
-/

namespace Peryx

open List Option Peryx.Except Std.ExtTreeMap

variable {json : Codec PolicyDecisionSubject String} {query : PolicyDecisionQuery}

variable {tables : DecisionTables}

namespace DecisionTables

variable {dropped limit : Nat} {log : Log}

/-! ## Runs -/

/-- The decisions passed to a run, as far as they were valid and could be numbered,
and the input generations its changes lead to. No answer of the tables enters. -/
structure Asked where
  log : Log := []
  generations : String → PolicyInputGeneration := fun _ => {}

namespace Asked

/-- All of a list of decisions, or none where the serials do not fit 64 bits. -/
def logged (asked : Asked) (queued : List OwnedDecision) : Asked :=
  if asked.log.length + queued.length < 2 ^ 64 then
    { asked with log := asked.log ++ queued.map OwnedDecision.record }
  else asked

/-- A decision under the input generation of its repository. -/
def owned (asked : Asked) (id : DecisionId) (decision : NewPolicyDecision) : OwnedDecision :=
  ⟨id, decision, asked.generations decision.repository⟩

def changed (change : PolicyInputGeneration → PolicyInputGeneration) (asked : Asked)
    (repository : String) : Asked :=
  { asked with
    generations := Function.update asked.generations repository
      (change (asked.generations repository)) }

def step (asked : Asked) : DecisionStep → Asked
  | .record id decision =>
    match validateDecision decision with
    | .ok _ => asked.logged [asked.owned id decision]
    | .error _ => asked
  | .batch queued => asked.logged queued
  | .prune => asked
  | .advancePolicy repository =>
    asked.changed (fun g => { g with policy := g.policy + 1 }) repository
  | .advanceRepositories repositories =>
    repositories.foldl (changed fun g => { g with repository := g.repository + 1 }) asked

end Asked

/-- The tables hold what was asked for: its decisions, without the oldest ones in the
history, and its input generations. -/
structure Refines (json : Codec PolicyDecisionSubject String) (limit : Nat) (asked : Asked)
    (tables : DecisionTables) : Prop where
  exact : Exact json (asked.log.length - limit) asked.log tables
  generations : ∀ repository,
    tables.policyInputGeneration repository = asked.generations repository

namespace Refines

variable {asked : Asked}

section

variable (refines : Refines json limit asked tables)

include refines

/-- A loop that logs all of a list or fails is committed to what was asked for. -/
theorem logged {queued : List OwnedDecision} {also : Log → DecisionTables → Prop}
    {ran : Except PolicyDecisionStoreError (List PolicyDecisionRecord × DecisionTables)}
    (logs : Logs asked.log queued (fun log' tables' =>
      Exact json (log'.length - limit) log' tables' ∧
        tables'.generations = tables.generations ∧ also log' tables') ran) :
    Refines json limit (asked.logged queued) (tables.commit ran).1 := by
  unfold Asked.logged
  unfold Logs at logs
  split at logs
  · next room =>
    obtain ⟨tables', rfl, exact', same, -⟩ := logs
    rw [if_pos room]
    refine ⟨exact', fun repository => ?_⟩
    rw [← refines.generations, policyInputGeneration, policyInputGeneration]
    exact congrArg (fun rows => rows[repository]?.getD {}) same
  · next full =>
    rw [if_neg full, logs]
    exact refines

theorem changed (change : PolicyInputGeneration → PolicyInputGeneration) (repository : String) :
    Refines json limit (asked.changed change repository)
      { tables with
        generations := tables.generations.insert repository
          (change (tables.policyInputGeneration repository)) } := by
  refine ⟨{ refines.exact with }, fun other => ?_⟩
  unfold policyInputGeneration Asked.changed
  dsimp only
  rw [BTreeMap.get_insert, Function.update_apply]
  by_cases same : repository = other
  · rw [if_pos same, if_pos same.symm, ← refines.generations repository]
    rfl
  · rw [if_neg same, if_neg (Ne.symm same), ← refines.generations other]
    rfl

theorem owned (id : DecisionId) (decision : NewPolicyDecision) :
    (asked.owned id decision).inputGeneration =
      tables.policyInputGeneration (asked.owned id decision).decision.repository :=
  (refines.generations decision.repository).symm

/-- Every decision recorded on its own is logged under the input generation of its
repository. -/
theorem recordPruned_logs (id : DecisionId) (decision : NewPolicyDecision) :
    Logs asked.log [asked.owned id decision] (fun log' tables' =>
      Exact json (log'.length - limit) log' tables' ∧
        tables'.generations = tables.generations ∧ tables'.serial = some (asked.log.length + 1))
      ((tables.recordPruned json limit id decision).map fun (record, tables) =>
        ([record], tables)) := by
  unfold Logs
  rw [List.length_singleton]
  split
  · next room =>
    obtain ⟨tables', done, held⟩ := recordPruned_ok refines.exact room (refines.owned id decision)
    exact ⟨tables', congrArg (Except.map _) done, held⟩
  · next full => rw [recordPruned_full refines.exact full]; rfl

end

theorem advanceRepositoryGenerations (repositories : List String)
    (refines : Refines json limit asked tables) :
    Refines json limit
      (repositories.foldl (Asked.changed fun g => { g with repository := g.repository + 1 }) asked)
      (tables.advanceRepositoryGenerations repositories) := by
  induction repositories generalizing asked tables with
  | nil => exact refines
  | cons repository rest ih => exact ih (refines.changed _ repository)

/-- **Step.** Every transaction keeps the tables those of the decisions passed in. -/
theorem step_refines (refines : Refines json limit asked tables) (step : DecisionStep) :
    Refines json limit (asked.step step)
      (Machine.next (DecisionTables.step json limit) tables step) := by
  unfold Machine.next Asked.step DecisionTables.step
  cases step with
  | record id decision =>
    dsimp only
    rw [recordPolicyDecision]
    cases validateDecision decision with
    | error error => exact refines
    | ok => exact refines.logged (refines.recordPruned_logs id decision)
  | batch queued => exact refines.logged (writeBatch_logs refines.exact)
  | prune => exact ⟨refines.exact.pruned le_rfl, fun repository => by
      rw [policyInputGeneration, (pruneHistory_keeps limit tables).2.2.2]
      exact refines.generations repository⟩
  | advancePolicy repository => exact refines.changed _ repository
  | advanceRepositories repositories => exact refines.advanceRepositoryGenerations repositories

end Refines

section

variable (json) (limit : Nat) (steps : List DecisionStep)

/-- The tables after a run. -/
def after : DecisionTables :=
  Machine.exec (step json limit) {} steps

/-- What the run was asked. -/
def asked : Asked :=
  steps.foldl Asked.step {}

/-- **Run.** The tables hold what was asked. -/
theorem after_refines : Refines json limit (asked steps) (after json limit steps) := by
  induction steps using reverseRecOn with
  | nil =>
    have none : ([] : Log).length - limit = 0 := Nat.zero_sub limit
    refine ⟨?_, fun repository => ?_⟩
    · change Exact json (([] : Log).length - limit) [] {}
      rw [none]
      exact Exact.empty json
    · change (∅ : BTreeMap String PolicyInputGeneration)[repository]?.getD {} = {}
      rw [BTreeMap.get_empty, Option.getD_none]
  | append_singleton steps last ih =>
    have next : after json limit (steps ++ [last]) =
        Machine.next (step json limit) (after json limit steps) last :=
      Machine.exec_append _ _ _ _
    rw [next, asked, foldl_append]
    exact ih.step_refines last

end

end DecisionTables

/-! ## Pages -/

namespace PolicyDecisionQuery

theorem validate_resumed {cursor : Option String} (valid : ∀ c ∈ cursor, validCursor c = true)
    (start : query.cursor = none) :
    ({ query with cursor } : PolicyDecisionQuery).validate = query.validate := by
  have fine : cursor.any (! validCursor ·) = false := by
    cases cursor with
    | none => rfl
    | some c => simpa using valid c rfl
  unfold validate
  rw [fine, start]
  rfl

theorem limit_of_validate (valid : query.validate = .ok ()) : 1 ≤ query.limit := by
  by_contra small
  unfold validate at valid
  rw [if_pos (by omega)] at valid
  cases valid

end PolicyDecisionQuery

namespace DecisionTables

variable {dropped limit : Nat} {log : Log}

def matching (tables : DecisionTables) (query : PolicyDecisionQuery) :
    List (String × PolicyDecisionRecord) :=
  tables.history.toList.reverse.filter fun row => matchesQuery row.2 query

def rowsPage (tables : DecisionTables) (query : PolicyDecisionQuery) (cursor : Option String) :
    Except PolicyDecisionQueryError (List (String × PolicyDecisionRecord) × Option String) := do
  ({ query with cursor } : PolicyDecisionQuery).validate
  return Paging.cut Prod.fst query.limit (Paging.before Prod.fst (tables.matching query) cursor)

theorem matching_ordered (tables : DecisionTables) (query : PolicyDecisionQuery) :
    (tables.matching query).Pairwise fun a b => compare b.1 a.1 = .lt := by
  refine List.Pairwise.sublist filter_sublist (pairwise_reverse.mpr ?_)
  exact ordered_keys_toList

theorem queryPolicyDecisions_eq (some : 1 ≤ query.limit) (cursor : Option String) :
    tables.queryPolicyDecisions { query with cursor } =
      (tables.rowsPage query cursor).map fun (rows, next) =>
        (rows.map fun row => tables.item row.2, next) := by
  have found : (tables.history.toList.reverse.filter fun row =>
      cursor.all (row.1 < ·) && matchesQuery row.2 query) =
        Paging.before Prod.fst (tables.matching query) cursor := by
    cases cursor with
    | none => rfl
    | some c =>
      rw [Paging.before, matching, List.filter_filter]
      refine filter_congr fun row _ => ?_
      rw [all_some, decide_eq_decide.mpr compare_lt_iff_lt]
  unfold queryPolicyDecisions rowsPage
  cases ({ query with cursor } : PolicyDecisionQuery).validate with
  | error _ => rfl
  | ok _ =>
    rw [← Paging.cut_take some, ← found, Paging.cut]
    refine congrArg Except.ok (Prod.ext ?_ ?_)
    · exact map_take.symm
    · exact if_congr Iff.rfl List.getElem?_map rfl

theorem pages (some : 1 ≤ query.limit) (tables : DecisionTables) :
    Paging.Pages (fun cursor => tables.queryPolicyDecisions { query with cursor }) fun cursor =>
      (Paging.before Prod.fst (tables.matching query) cursor).map fun row => tables.item row.2 := by
  have rows : Paging.Pages (tables.rowsPage query)
      (Paging.before Prod.fst (tables.matching query)) := by
    refine Paging.pages_of_cut_before (matching_ordered tables query) some ?_
    intro cursor answer given
    obtain ⟨_, -, is⟩ := bind_eq_ok.mp given
    exact (Except.ok.inj is).symm
  simp only [queryPolicyDecisions_eq some]
  exact rows.map fun row => tables.item row.2

section

variable (exact : Exact json dropped log tables)

include exact

theorem exists_historyId {row : String × PolicyDecisionRecord}
    (mem : row ∈ tables.history.toList) : ∃ n < 2 ^ 64, row.1 = historyId n := by
  rw [exact.history] at mem
  obtain ⟨⟨record, n⟩, at', rfl⟩ := List.mem_map.mp (mem_of_mem_drop mem)
  have bound := snd_lt_add_of_mem_zipIdx at'
  have small := exact.small
  exact ⟨n, by simp only at bound; omega, rfl⟩

theorem walk_queryPolicyDecisions
    (valid : query.validate = .ok ()) (start : query.cursor = none) {fuel : Nat}
    (enough : tables.history.size < fuel) :
    Paging.walk (fun cursor => tables.queryPolicyDecisions { query with cursor }) fuel none =
      .ok ((tables.matching query).map fun row => tables.item row.2) := by
  have some := PolicyDecisionQuery.limit_of_validate valid
  have answers : ∀ cursor, (∀ c ∈ cursor, validCursor c = true) →
      ∃ answer, tables.queryPolicyDecisions { query with cursor } = .ok answer := by
    intro cursor named
    rw [queryPolicyDecisions_eq some, rowsPage, PolicyDecisionQuery.validate_resumed named start,
      valid]
    exact ⟨_, rfl⟩
  have named : ∀ {cursor rows next},
      tables.queryPolicyDecisions { query with cursor } = .ok (rows, .some next) →
        validCursor next = true := by
    intro cursor rows next answer
    rw [queryPolicyDecisions_eq some] at answer
    obtain ⟨⟨taken, more⟩, given, is⟩ := map_eq_ok.mp answer
    cases is
    obtain ⟨_, -, is⟩ := bind_eq_ok.mp given
    obtain ⟨row, mem, rfl⟩ := Paging.exists_of_cut (congrArg Prod.snd (Except.ok.inj is))
    have mem := (Paging.before_sublist cursor).subset mem
    obtain ⟨n, small, id⟩ := exists_historyId exact (mem_reverse.mp (List.mem_of_mem_filter mem))
    rw [id]
    exact validCursor_historyId small
  refine (pages some tables).walk_eq_ok_of_named answers named nofun ?_
  refine lt_of_le_of_lt ?_ enough
  rw [length_map, ← Std.ExtTreeMap.length_toList]
  exact (length_filter_le _ _).trans_eq length_reverse

/-! ## The current decision -/

theorem currentPolicyDecision_eq
    {subject : PolicyDecisionSubject} (valid : validateSubject subject = .ok ()) :
    tables.currentPolicyDecision json subject =
      .ok (((Log.latest log subject).map Prod.fst).filter fun record =>
        (tables.item record).fresh) := by
  unfold currentPolicyDecision
  rw [valid, exact.current]
  cases latest : Log.latest log subject with
  | none => rfl
  | some row =>
    obtain ⟨record, n⟩ := row
    have found : tables.currentRecords[historyId n]? = some record :=
      exact.currentRecords.mpr ⟨subject, n, latest, rfl⟩
    dsimp only [map_some]
    rw [found]
    dsimp only
    rw [filter_some, item]
    by_cases fresh : record.inputGeneration = tables.policyInputGeneration record.repository
    · rw [if_pos fresh, if_pos (decide_eq_true fresh)]
      rfl
    · rw [if_neg fresh, if_neg (by simpa using fresh)]
      rfl

end

/-! ## The tables of a run -/

/-- The tables agree with the decisions that were passed in, however they are read
and written. -/
structure Consistent (json : Codec PolicyDecisionSubject String) (limit : Nat) (asked : Asked)
    (tables : DecisionTables) : Prop where
  /-- The history is the newest decisions up to the limit; the current tables hold
  the latest decision of each subject. -/
  refines : Refines json limit asked tables
  /-- A valid decision with a free serial is recorded, as it was passed in. -/
  recorded : ∀ id decision, validateDecision decision = .ok () → asked.log.length + 1 < 2 ^ 64 →
    ∃ tables', tables.recordPolicyDecision json limit id decision =
      .ok ((asked.owned id decision).record, tables')
  /-- So is a batch, as a whole. -/
  written : ∀ queued : List OwnedDecision, asked.log.length + queued.length < 2 ^ 64 →
    ∃ tables', tables.writeBatch json limit queued =
      .ok (queued.map OwnedDecision.record, tables')
  /-- A batch leaves what its decisions leave one by one; where there are none, but
  for a serial row that reads the same. -/
  batch : ∀ queued : List OwnedDecision,
    (∀ q ∈ queued, q.inputGeneration = tables.policyInputGeneration q.decision.repository) →
    (tables.writeBatch json limit queued).map (fun (records, tables) =>
        (records, tables.readSerial)) =
        (recordEach json limit queued tables).map (fun (records, tables) =>
          (records, tables.readSerial)) ∧
      (queued ≠ [] → tables.writeBatch json limit queued = recordEach json limit queued tables)
  /-- A current decision is read as it was recorded, as long as it is fresh. -/
  current : ∀ subject, validateSubject subject = .ok () →
    tables.currentPolicyDecision json subject =
      .ok (((Log.latest asked.log subject).map Prod.fst).filter fun record =>
        (tables.item record).fresh)
  /-- Pruning changes no current decision. -/
  prune : ∀ limit' subject, (tables.pruneHistory limit').currentPolicyDecision json subject =
    tables.currentPolicyDecision json subject
  /-- Pages show each matching retained decision once, newest first. -/
  paging : ∀ (query : PolicyDecisionQuery) (fuel : Nat), query.validate = .ok () →
    query.cursor = none → tables.history.size < fuel →
    Paging.walk (fun cursor => tables.queryPolicyDecisions { query with cursor }) fuel none =
      .ok ((((Log.rows asked.log).drop (asked.log.length - limit)).reverse.filter fun row =>
        matchesQuery row.2 query).map fun row => tables.item row.2)

theorem currentPolicyDecision_prune (tables : DecisionTables) (limit : Nat)
    (subject : PolicyDecisionSubject) :
    (tables.pruneHistory limit).currentPolicyDecision json subject =
      tables.currentPolicyDecision json subject := by
  obtain ⟨-, current, records, generations⟩ := pruneHistory_keeps limit tables
  unfold currentPolicyDecision policyInputGeneration
  rw [current, records, generations]

/-- **The tables of policy decisions stay consistent** with the decisions passed in,
after every mix of recordings, batches, prunes and input changes. -/
theorem policy_decision_tables_are_consistent (json : Codec PolicyDecisionSubject String)
    (limit : Nat) (steps : List DecisionStep) :
    Consistent json limit (asked steps) (after json limit steps) := by
  have refines := after_refines json limit steps
  have exact := refines.exact
  refine ⟨refines, fun id decision valid room => ?_, fun queued room => ?_,
    fun queued under => writeBatch_eq_recordEach exact under,
    fun subject valid => currentPolicyDecision_eq exact valid,
    fun limit' subject => currentPolicyDecision_prune _ limit' subject,
    fun query fuel valid start enough => ?_⟩
  · obtain ⟨tables', done, -⟩ := recordPruned_ok exact room (refines.owned id decision)
    rw [recordPolicyDecision, valid]
    exact ⟨tables', done⟩
  · have logs : Logs (asked steps).log queued _ _ := writeBatch_logs exact
    unfold Logs at logs
    rw [if_pos room] at logs
    obtain ⟨tables', done, -⟩ := logs
    exact ⟨tables', done⟩
  · rw [walk_queryPolicyDecisions exact valid start enough, matching, exact.history]

end DecisionTables

end Peryx
