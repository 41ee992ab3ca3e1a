import Peryx.Lib.Windows
import Peryx.Pql.Planned

/-!
# The pages of a query

`answer` is the whole ordered result a query asks for: the tuples of all rows, or
of all row pairs of a join, that satisfy its predicate. A caller that follows
the cursors reads it page by page. Every page of one domain is a window of the
answer; a page of a join reads the pairs it needs and stops.

- `pagesComplete_domain`, `pagesComplete_unbounded`: queries whose pages are complete.
- `not_pagesComplete_of_truncates`: a join that loses its last pairs.
- `pages_complete_iff`: all of these.
-/

namespace Peryx.Pql

open List Peryx.Except

open Paging (window window_take walk Windows)

variable (runtime : Runtime)

/-! ## Cursors and pages -/

theorem decodeCursor_encodeCursor (domain : String) (scope : QueryScope) (offset : Nat) :
    decodeCursor runtime (encodeCursor runtime domain scope offset) domain scope = .ok offset := by
  unfold decodeCursor encodeCursor
  rw [runtime.cursor.decode_encode]
  simp only [ne_eq, not_true_eq_false, if_false]

def Page.read (page : Page) : List (List Value) × Option String :=
  (page.rows, page.nextCursor)

theorem paginate_eq (rows : List (List Value)) (plan : Plan) (domain : String)
    (scope : QueryScope) (offset : Nat) :
    (paginate runtime rows plan domain scope offset).read =
      window (encodeCursor runtime domain scope) rows plan.limit offset := by
  unfold Page.read paginate window
  have cut : (rows.take (min (min offset rows.length + plan.limit) rows.length)).drop
      (min offset rows.length) = (rows.drop offset).take plan.limit := by
    rw [drop_take]
    obtain below | beyond := Nat.le_total offset rows.length
    · rw [Nat.min_eq_left below]
      obtain short | long := Nat.le_total (offset + plan.limit) rows.length
      · rw [Nat.min_eq_left short, Nat.add_sub_cancel_left]
      · rw [Nat.min_eq_right long, take_of_length_le (by rw [length_drop]),
          take_of_length_le (by rw [length_drop]; omega)]
    · rw [Nat.min_eq_right beyond, drop_of_length_le beyond,
        drop_of_length_le (Nat.le_refl _), take_nil, take_nil]
  have goes : min (min offset rows.length + plan.limit) rows.length < rows.length ↔
      offset + plan.limit < rows.length := by omega
  simp only [cut, goes, Prod.mk.injEq, true_and]
  split
  · next more =>
    have ends : min (min offset rows.length + plan.limit) rows.length = offset + plan.limit := by
      omega
    rw [ends]
  · rfl

/-! ## The pairs of a join -/

section Keys

theorem toList_joinKey (row : Row) (keys : List String) :
    (joinKey runtime row keys).toList =
      keys.flatMap fun name => (runtime.debug (row.get name)).toList ++ ['\x01'] := by
  suffices ∀ start : String, (keys.foldl (fun key name =>
      key ++ runtime.debug (row.get name) ++ "\x01") start).toList =
      start.toList ++ keys.flatMap fun name => (runtime.debug (row.get name)).toList ++ ['\x01'] by
    exact this ""
  intro start
  induction keys generalizing start with
  | nil => simp
  | cons name keys ih =>
    rw [foldl_cons, ih, String.toList_append, String.toList_append, flatMap_cons]
    simp

theorem joinKey_eq_iff {row other : Row} {keys : List String} :
    joinKey runtime row keys = joinKey runtime other keys ↔
      keys.map row.get = keys.map other.get := by
  rw [← String.toList_inj, toList_joinKey, toList_joinKey]
  induction keys with
  | nil => simp
  | cons name keys ih =>
    simp only [flatMap_cons, map_cons, append_assoc, singleton_append, List.cons.injEq]
    constructor
    · intro same
      have first : row.get name = other.get name := by
        have upTo (value : Value) (rest : List Char) :
            ((runtime.debug value).toList ++ '\x01' :: rest).takeWhile (· ≠ '\x01') =
              (runtime.debug value).toList := by
          rw [takeWhile_append_of_pos, takeWhile_cons_of_neg (by decide), List.append_nil]
          exact fun c mem => decide_eq_true fun h => runtime.debug_separator value (h ▸ mem)
        refine runtime.debug_injective (String.toList_inj.mp ?_)
        rw [← upTo, same, upTo]
      refine ⟨first, ih.mp ?_⟩
      rw [first] at same
      simpa using same
    · rintro ⟨first, rest⟩
      rw [first, ih.mpr rest]

def matchingPairs (outer probe : List Row) (keys : List String)
    (schemaOuter schemaProbe : DomainSchema) : List Row :=
  outer.flatMap fun row =>
    (probe.filter fun other => keys.map other.get = keys.map row.get).map fun other =>
      mergeRow row other (probeOnly schemaOuter schemaProbe)

theorem joinPairs_eq (outer probe : List Row) (keys : List String)
    (schemaOuter schemaProbe : DomainSchema) :
    joinPairs runtime outer probe keys schemaOuter schemaProbe =
      matchingPairs outer probe keys schemaOuter schemaProbe := by
  simp only [joinPairs, matchingPairs, joinKey_eq_iff]

end Keys

/-! ## The loop of a join -/

section Loop

variable {refusal : PqlError} {predicate : Option Predicate}

theorem retainMatching_cons (candidate : Row) (pairs : List Row) :
    retainMatching (candidate :: pairs) predicate =
      if matchesPredicate candidate predicate then candidate :: retainMatching pairs predicate
      else retainMatching pairs predicate :=
  filter_cons

theorem joinLoop_unbounded (pairs merged : List Row) {walked : Nat}
    (within : walked ≤ maxJoinMatches) :
    joinLoop refusal none predicate pairs merged walked =
      if walked + pairs.length ≤ maxJoinMatches then .ok (merged ++ retainMatching pairs predicate)
      else .error refusal := by
  induction pairs generalizing merged walked with
  | nil =>
    rw [joinLoop, length_nil, Nat.add_zero, if_pos within, retainMatching, filter_nil,
      List.append_nil]
  | cons candidate pairs ih =>
    rw [joinLoop, length_cons, ← Nat.add_assoc, Nat.add_right_comm]
    by_cases over' : walked + 1 > maxJoinMatches
    · rw [if_pos over', if_neg (by omega)]
    · rw [if_neg over', if_neg (nofun : ¬ none = some (merged.length + 1)), ih merged (by omega),
        ih (merged ++ [candidate]) (by omega), retainMatching_cons]
      by_cases keeps : matchesPredicate candidate predicate = true
      · rw [if_neg (by rw [keeps]; decide), if_pos keeps, append_assoc, singleton_append]
      · rw [if_pos (by simpa using keeps), if_neg keeps]

theorem joinLoop_bounded {bound : Nat} (pairs merged : List Row) {walked : Nat}
    (within : walked ≤ maxJoinMatches) (below : merged.length < bound) :
    joinLoop refusal (some bound) predicate pairs merged walked =
      if walked + pairs.length ≤ maxJoinMatches ∨
          bound ≤ merged.length +
            (retainMatching (pairs.take (maxJoinMatches - walked)) predicate).length then
        .ok ((merged ++ retainMatching pairs predicate).take bound)
      else .error refusal := by
  induction pairs generalizing merged walked with
  | nil =>
    rw [joinLoop, if_pos (.inl within), retainMatching, filter_nil, List.append_nil,
      take_of_length_le (Nat.le_of_lt below)]
  | cons candidate pairs ih =>
    rw [joinLoop, length_cons, ← Nat.add_assoc, Nat.add_right_comm]
    by_cases over' : walked + 1 > maxJoinMatches
    · have none : maxJoinMatches - walked = 0 := by omega
      rw [if_pos over', if_neg]
      rw [none, take_zero, retainMatching, filter_nil, length_nil]
      omega
    · have more : maxJoinMatches - walked = (maxJoinMatches - (walked + 1)) + 1 := by omega
      rw [if_neg over', more, take_succ_cons, retainMatching_cons, retainMatching_cons]
      by_cases keeps : matchesPredicate candidate predicate = true
      · rw [if_neg (by rw [keeps]; decide), if_pos keeps, if_pos keeps, length_cons]
        by_cases last : bound = merged.length + 1
        · -- the page is full
          rw [if_pos (congrArg some last), if_pos (.inr (by omega)), last]
          rw [take_length_add_append, take_succ_cons, take_zero]
        · rw [if_neg (fun h => last (Option.some.inj h)), ih _ (by omega) (by
            rw [length_append, length_singleton]; omega)]
          rw [length_append, length_singleton, append_assoc,
            singleton_append, Nat.add_assoc merged.length, Nat.add_comm 1 (List.length _)]
      · rw [if_pos (by simpa using keeps), if_neg keeps, if_neg keeps, ih merged (by omega) below]

end Loop

/-! ## Complete pages -/

def answer (ast : Ast) (scope : QueryScope) (source : DataSource) :
    Except PqlError (List (List Value)) :=
  match ast.join with
  | none => do
    let planned ← planDomain runtime ast scope source
    let fetched ← source.fetch ast.domain scope planned.filter
    let rows := scopeFilter fetched scope planned.schema
    return tuples runtime (retainMatching rows planned.ast.predicate) planned.ast planned.plan
      planned.naturalOrder
  | some join => do
    let planned ← planJoin runtime ast join scope source
    let fetched ← source.fetch ast.domain scope
      (planned.ast.predicate.bind (leadingFilter planned.outer))
    let probed ← source.fetch join.domain scope none
    let pairs := matchingPairs (scopeFilter fetched scope planned.outer)
      (scopeFilter probed scope planned.probe) join.on planned.outer planned.probe
    return tuples runtime (retainMatching pairs planned.ast.predicate) planned.ast planned.plan
      planned.naturalOrder

def pageAt (ast : Ast) (scope : QueryScope) (source : DataSource) (cursorText : Option String) :
    Except PqlError (List (List Value) × Option String) :=
  (execute runtime ast scope cursorText source).map Page.read

/-- Following the cursors from the first page meets an error, or ends with all
of the answer read. -/
def PagesComplete (ast : Ast) (scope : QueryScope) (source : DataSource) : Prop :=
  ∃ enough, ∀ fuel, enough ≤ fuel →
    (∃ error, walk (pageAt runtime ast scope source) fuel none = .error error) ∨
      ∃ rows, answer runtime ast scope source = .ok rows ∧
        walk (pageAt runtime ast scope source) fuel none = .ok rows

section Complete

variable {ast : Ast} {scope : QueryScope} {source : DataSource}

theorem pagesComplete_of_error {e : PqlError}
    (failed : execute runtime ast scope none source = .error e) :
    PagesComplete runtime ast scope source := by
  refine ⟨1, fun fuel enough => .inl ⟨e, ?_⟩⟩
  obtain ⟨fuel, rfl⟩ := Nat.exists_eq_add_of_le' enough
  unfold walk pageAt
  rw [failed]
  rfl

theorem pagesComplete_of_windows {rows : List (List Value)} {limit : Nat}
    {read : Option String → Except PqlError Nat} {name : Nat → String}
    (answers : answer runtime ast scope source = .ok rows)
    (windows : Windows (pageAt runtime ast scope source) read name rows limit) :
    PagesComplete runtime ast scope source := by
  refine ⟨rows.length + 1, fun fuel enough => ?_⟩
  obtain failed | done := windows.walk_eq enough
  · exact .inl failed
  · exact .inr ⟨rows, answers, done⟩

/-! ### One domain -/

theorem execute_domain (single : ast.join = none) {planned : DomainPlan}
    (plans : planDomain runtime ast scope source = .ok planned) (cursorText : Option String) :
    execute runtime ast scope cursorText source = (do
      let offset ← decodeOffset runtime cursorText ast.domain scope
      let fetched ← source.fetch ast.domain scope planned.filter
      pure (finish runtime
        (retainMatching (scopeFilter fetched scope planned.schema) planned.ast.predicate)
        planned.ast planned.plan planned.naturalOrder ast.domain scope offset)) := by
  unfold execute
  rw [single]
  unfold executeDomain
  rw [plans, ← (planned_of_planDomain runtime plans).domain]
  rfl

theorem windows_domain (single : ast.join = none) {planned : DomainPlan}
    (plans : planDomain runtime ast scope source = .ok planned) {fetched : List Row}
    (fetches : source.fetch ast.domain scope planned.filter = .ok fetched) :
    Windows (pageAt runtime ast scope source) (decodeOffset runtime · ast.domain scope)
      (encodeCursor runtime ast.domain scope)
      (tuples runtime (retainMatching (scopeFilter fetched scope planned.schema)
        planned.ast.predicate) planned.ast planned.plan planned.naturalOrder)
      planned.plan.limit := by
  refine ⟨(planned_of_planDomain runtime plans).limit, rfl,
    decodeCursor_encodeCursor runtime ast.domain scope, ?_⟩
  intro cursor answer answered
  obtain ⟨page, ran, rfl⟩ := map_eq_ok.mp answered
  rw [execute_domain runtime single plans] at ran
  obtain ⟨offset, reads, ran⟩ := bind_eq_ok.mp ran
  obtain ⟨rows, fetches', ran⟩ := bind_eq_ok.mp ran
  cases fetches.symm.trans fetches'
  cases ran
  exact ⟨offset, reads, paginate_eq runtime _ _ _ _ _⟩

theorem pagesComplete_domain (single : ast.join = none) :
    PagesComplete runtime ast scope source := by
  cases plans : planDomain runtime ast scope source with
  | error error =>
    refine pagesComplete_of_error runtime (e := error) ?_
    unfold execute
    rw [single]
    unfold executeDomain
    rw [plans]
    rfl
  | ok planned =>
    cases fetches : source.fetch ast.domain scope planned.filter with
    | error error =>
      refine pagesComplete_of_error runtime (e := error) ?_
      rw [execute_domain runtime single plans, fetches]
      rfl
    | ok fetched =>
      refine pagesComplete_of_windows runtime ?_ (windows_domain runtime single plans fetches)
      unfold answer
      rw [single]
      rw [plans]
      refine bind_eq_ok.mpr ⟨planned, rfl, ?_⟩
      rw [fetches]
      rfl

/-! ### Joins -/

structure JoinRun (ast : Ast) (scope : QueryScope) (source : DataSource) (join : Join)
    (planned : JoinPlan) (fetched probed : List Row) : Prop where
  joins : ast.join = some join
  plans : planJoin runtime ast join scope source = .ok planned
  fetches : source.fetch ast.domain scope
    (planned.ast.predicate.bind (leadingFilter planned.outer)) = .ok fetched
  probes : source.fetch join.domain scope none = .ok probed

/-- A page is all that the join has to fill: it groups nothing and orders by
columns of its outer domain. -/
def JoinPlan.PageBounded (planned : JoinPlan) : Prop :=
  planned.ast.aggregate = none ∧
    ∀ key ∈ resolvedOrder planned.plan planned.naturalOrder, key.field ∈ planned.outer.names

theorem pageBound_eq_some {planned : JoinPlan} (bounded : planned.PageBounded) (offset : Nat) :
    pageBound planned.ast (resolvedOrder planned.plan planned.naturalOrder) planned.outer
      planned.plan.limit offset = some (min (offset + planned.plan.limit + 1) maxJoinMatches) := by
  obtain ⟨plain, declares⟩ := bounded
  unfold pageBound
  rw [if_neg]
  rw [plain, Option.isSome_none, Bool.false_or, any_eq_true]
  rintro ⟨key, mem, absent⟩
  have found := DomainSchema.isSome_column.mpr (declares key mem)
  rw [Option.isNone_iff_eq_none.mp absent] at found
  cases found

theorem pageBound_eq_none {planned : JoinPlan} (unbounded : ¬ planned.PageBounded) (offset : Nat) :
    pageBound planned.ast (resolvedOrder planned.plan planned.naturalOrder) planned.outer
      planned.plan.limit offset = none := by
  by_contra some
  exact unbounded (pageBound_reads (Option.isSome_iff_ne_none.mpr some))

/-! ### The pairs in their final order -/

section Order

variable {outer probe : DomainSchema} {orderBy : List OrderKey}

theorem compareSourceRows_mergeRow (declares : ∀ key ∈ orderBy, key.field ∈ outer.names)
    (row row' other other' : Row) :
    compareSourceRows (mergeRow row other (probeOnly outer probe))
        (mergeRow row' other' (probeOnly outer probe)) orderBy =
      compareSourceRows row row' orderBy := by
  induction orderBy with
  | nil => rfl
  | cons key keys ih =>
    obtain ⟨here, later⟩ := forall_mem_cons.mp declares
    simp only [compareSourceRows, get_mergeRow _ _ here, ih later]

def matchesOf (outer probe : DomainSchema) (others : List Row) (keys : List String)
    (predicate : Option Predicate) (row : Row) : List Row :=
  retainMatching ((others.filter fun other => keys.map other.get = keys.map row.get).map
    fun other => mergeRow row other (probeOnly outer probe)) predicate

theorem retainMatching_pairs (rows others : List Row) (keys : List String)
    (predicate : Option Predicate) :
    retainMatching (matchingPairs rows others keys outer probe) predicate =
      rows.flatMap (matchesOf outer probe others keys predicate) := by
  unfold retainMatching matchingPairs
  rw [filter_flatMap]
  rfl

theorem compare_matchesOf (declares : ∀ key ∈ orderBy, key.field ∈ outer.names)
    {others : List Row} {keys : List String} {predicate : Option Predicate} {a b x y : Row}
    (hx : x ∈ matchesOf outer probe others keys predicate a)
    (hy : y ∈ matchesOf outer probe others keys predicate b) :
    compareSourceRows x y orderBy = compareSourceRows a b orderBy := by
  obtain ⟨other, -, rfl⟩ := mem_map.mp (mem_filter.mp hx).1
  obtain ⟨other', -, rfl⟩ := mem_map.mp (mem_filter.mp hy).1
  exact compareSourceRows_mergeRow declares a b other other'

variable {rows : List Row} (preorder : PreorderOn (compareSourceRows · · orderBy) rows)
  (declares : ∀ key ∈ orderBy, key.field ∈ outer.names) (others : List Row) (keys : List String)
  (predicate : Option Predicate)
include preorder declares

theorem orderSourceRows_pairs :
    orderSourceRows runtime
        (retainMatching (matchingPairs rows others keys outer probe) predicate) orderBy =
      retainMatching (matchingPairs (orderSourceRows runtime rows orderBy) others keys outer probe)
        predicate := by
  rw [retainMatching_pairs, retainMatching_pairs]
  exact runtime.sort.sort_flatMap preorder fun a _ b _ x hx y hy => compare_matchesOf declares hx hy

theorem orderSourceRows_take (bound : Nat) :
    let kept := retainMatching
      (matchingPairs (orderSourceRows runtime rows orderBy) others keys outer probe) predicate
    orderSourceRows runtime (kept.take bound) orderBy = kept.take bound := by
  intro kept
  have whole : PreorderOn (compareSourceRows · · orderBy)
      (retainMatching (matchingPairs rows others keys outer probe) predicate) := by
    rw [retainMatching_pairs]
    exact preorder.flatMap fun a _ b _ x hx y hy => compare_matchesOf declares hx hy
  have ordered : orderSourceRows runtime
      (retainMatching (matchingPairs rows others keys outer probe) predicate) orderBy = kept :=
    orderSourceRows_pairs runtime preorder declares others keys predicate
  have sorted : Sorted (compareSourceRows · · orderBy) kept := ordered ▸ runtime.sort.sorted whole
  have members : kept ⊆ retainMatching (matchingPairs rows others keys outer probe) predicate :=
    ordered ▸ (runtime.sort.perm _ _).subset
  refine runtime.sort.sort_eq_self (whole.mono (List.Subset.trans (take_subset _ _) members)) ?_
  exact List.Pairwise.sublist (take_sublist _ _) sorted

end Order

/-! ### The pages of a join -/

section Run

variable {join : Join} {planned : JoinPlan} {fetched probed : List Row}

/-- The pairs of a join as they were fetched, and in the order of its outer
rows. -/
def JoinPlan.pairs (planned : JoinPlan) (scope : QueryScope) (join : Join)
    (fetched probed : List Row) : List Row :=
  matchingPairs (scopeFilter fetched scope planned.outer) (scopeFilter probed scope planned.probe)
    join.on planned.outer planned.probe

def JoinPlan.orderedPairs (planned : JoinPlan) (scope : QueryScope) (join : Join)
    (fetched probed : List Row) : List Row :=
  matchingPairs (orderSourceRows runtime (scopeFilter fetched scope planned.outer)
      (resolvedOrder planned.plan planned.naturalOrder))
    (scopeFilter probed scope planned.probe) join.on planned.outer planned.probe

def JoinPlan.tuplesOf (planned : JoinPlan) (candidates : List Row) : List (List Value) :=
  tuples runtime candidates planned.ast planned.plan planned.naturalOrder

def JoinPlan.full (planned : JoinPlan) (scope : QueryScope) (join : Join)
    (fetched probed : List Row) : List (List Value) :=
  planned.tuplesOf runtime
    (retainMatching (planned.pairs scope join fetched probed) planned.ast.predicate)

def JoinPlan.kept (planned : JoinPlan) (scope : QueryScope) (join : Join)
    (fetched probed : List Row) : List Row :=
  retainMatching (planned.orderedPairs runtime scope join fetched probed) planned.ast.predicate

theorem answer_join (run : JoinRun runtime ast scope source join planned fetched probed) :
    answer runtime ast scope source = .ok (planned.full runtime scope join fetched probed) := by
  unfold answer
  rw [run.joins]
  dsimp only
  rw [run.plans]
  refine bind_eq_ok.mpr ⟨planned, rfl, ?_⟩
  rw [run.fetches, run.probes]
  rfl

abbrev joinRead (ast : Ast) (join : Join) (scope : QueryScope) (cursorText : Option String) :
    Except PqlError Nat :=
  decodeOffset runtime cursorText (joinCursorKey ast.domain join.domain) scope

abbrev joinName (ast : Ast) (join : Join) (scope : QueryScope) (offset : Nat) : String :=
  encodeCursor runtime (joinCursorKey ast.domain join.domain) scope offset

theorem pageAt_join (run : JoinRun runtime ast scope source join planned fetched probed)
    (cursorText : Option String) :
    pageAt runtime ast scope source cursorText = (do
      let offset ← joinRead runtime ast join scope cursorText
      let orderBy := resolvedOrder planned.plan planned.naturalOrder
      let bound := pageBound planned.ast orderBy planned.outer planned.plan.limit offset
      let rows := scopeFilter fetched scope planned.outer
      let candidates ← joinRows runtime
        (if bound.isSome then orderSourceRows runtime rows orderBy else rows)
        (scopeFilter probed scope planned.probe) join.on planned.outer planned.probe bound
        planned.ast.predicate
      pure (window (joinName runtime ast join scope) (planned.tuplesOf runtime candidates)
        planned.plan.limit offset)) := by
  unfold pageAt execute
  rw [run.joins]
  dsimp only
  unfold executeJoin
  have domain := (planned_of_planJoin runtime run.plans).domain
  rw [run.plans]
  change Except.map Page.read (decodeOffset runtime cursorText
    (joinCursorKey planned.ast.domain join.domain) scope >>= _) = _
  rw [domain]
  unfold joinRead
  cases decodeOffset runtime cursorText (joinCursorKey ast.domain join.domain) scope with
  | error e => rfl
  | ok offset =>
    change Except.map Page.read (source.fetch ast.domain scope _ >>= _) = _
    rw [run.fetches]
    change Except.map Page.read (source.fetch join.domain scope none >>= _) = _
    rw [run.probes]
    change Except.map Page.read (joinRows .. >>= _) = (joinRows .. >>= _)
    cases joinRows runtime _ _ _ _ _ _ _ with
    | error e => rfl
    | ok candidates => exact congrArg Except.ok (paginate_eq runtime _ _ _ _ _)

theorem pageAt_unbounded (run : JoinRun runtime ast scope source join planned fetched probed)
    (unbounded : ¬ planned.PageBounded) (cursorText : Option String) :
    pageAt runtime ast scope source cursorText = (do
      let offset ← joinRead runtime ast join scope cursorText
      if (planned.pairs scope join fetched probed).length ≤ maxJoinMatches then
        .ok (window (joinName runtime ast join scope)
          (planned.full runtime scope join fetched probed)
          planned.plan.limit offset)
      else .error (joinRefusal planned.outer planned.probe)) := by
  rw [pageAt_join runtime run]
  refine bind_congr_ok fun offset _ => ?_
  simp only [pageBound_eq_none unbounded, Option.isSome_none, Bool.false_eq_true, if_false,
    joinRows]
  rw [joinLoop_unbounded _ _ (Nat.zero_le _), joinPairs_eq, Nat.zero_add, nil_append]
  unfold JoinPlan.full JoinPlan.pairs
  split <;> rfl

/-- The sort asks for a preorder, and a join that a page bounds sorts its outer
rows. -/
def JoinPlan.OuterOrdered (planned : JoinPlan) (scope : QueryScope) (fetched : List Row) : Prop :=
  PreorderOn (compareSourceRows · · (resolvedOrder planned.plan planned.naturalOrder))
    (scopeFilter fetched scope planned.outer)

theorem full_eq (bounded : planned.PageBounded) (ordered : planned.OuterOrdered scope fetched) :
    planned.full runtime scope join fetched probed =
      projectRows (planned.kept runtime scope join fetched probed) planned.plan.outputs := by
  obtain ⟨plain, declares⟩ := bounded
  unfold JoinPlan.full JoinPlan.tuplesOf tuples JoinPlan.kept JoinPlan.orderedPairs JoinPlan.pairs
  rw [plain]
  rw [orderSourceRows_pairs runtime ordered declares]

theorem length_full (bounded : planned.PageBounded) (ordered : planned.OuterOrdered scope fetched) :
    (planned.full runtime scope join fetched probed).length =
      (planned.kept runtime scope join fetched probed).length := by
  rw [full_eq runtime bounded ordered, projectRows, length_map]

theorem tuplesOf_take (bounded : planned.PageBounded)
    (ordered : planned.OuterOrdered scope fetched) (bound : Nat) :
    planned.tuplesOf runtime ((planned.kept runtime scope join fetched probed).take bound) =
      (planned.full runtime scope join fetched probed).take bound := by
  rw [full_eq runtime bounded ordered]
  obtain ⟨plain, declares⟩ := bounded
  unfold JoinPlan.tuplesOf tuples JoinPlan.kept JoinPlan.orderedPairs projectRows
  rw [plain]
  rw [orderSourceRows_take runtime ordered declares, map_take]

theorem pageAt_bounded (run : JoinRun runtime ast scope source join planned fetched probed)
    (bounded : planned.PageBounded) (ordered : planned.OuterOrdered scope fetched)
    (cursorText : Option String) :
    pageAt runtime ast scope source cursorText = (do
      let offset ← joinRead runtime ast join scope cursorText
      let pairs := planned.orderedPairs runtime scope join fetched probed
      if pairs.length ≤ maxJoinMatches ∨ min (offset + planned.plan.limit + 1) maxJoinMatches ≤
          (retainMatching (pairs.take maxJoinMatches) planned.ast.predicate).length then
        .ok (window (joinName runtime ast join scope)
          ((planned.full runtime scope join fetched probed).take maxJoinMatches)
          planned.plan.limit offset)
      else .error (joinRefusal planned.outer planned.probe)) := by
  rw [pageAt_join runtime run]
  refine bind_congr_ok fun offset _ => ?_
  have positive : 0 < min (offset + planned.plan.limit + 1) maxJoinMatches :=
    Nat.lt_min.mpr ⟨Nat.succ_pos _, by decide⟩
  simp only [pageBound_eq_some bounded, Option.isSome_some, if_true, joinRows]
  rw [joinLoop_bounded _ _ (Nat.zero_le _) positive, joinPairs_eq, Nat.zero_add, nil_append,
    length_nil, Nat.zero_add, Nat.sub_zero]
  -- a page reads one row past itself, of what the cap leaves
  have cut := window_take (joinName runtime ast join scope)
    ((planned.full runtime scope join fetched probed).take maxJoinMatches) planned.plan.limit offset
  rw [take_take, ← tuplesOf_take runtime bounded ordered] at cut
  rw [← cut]
  unfold JoinPlan.kept JoinPlan.orderedPairs
  split <;> rfl

theorem pagesComplete_unbounded (run : JoinRun runtime ast scope source join planned fetched probed)
    (unbounded : ¬ planned.PageBounded) : PagesComplete runtime ast scope source := by
  have pages := pageAt_unbounded runtime run unbounded
  by_cases fits : (planned.pairs scope join fetched probed).length ≤ maxJoinMatches
  · suffices Windows (pageAt runtime ast scope source) (joinRead runtime ast join scope)
        (joinName runtime ast join scope) (planned.full runtime scope join fetched probed)
        planned.plan.limit from
      pagesComplete_of_windows runtime (answer_join runtime run) this
    refine ⟨(planned_of_planJoin runtime run.plans).limit, rfl,
      decodeCursor_encodeCursor runtime (joinCursorKey ast.domain join.domain) scope, ?_⟩
    intro cursor answer answered
    rw [pages] at answered
    obtain ⟨offset, reads, answered⟩ := bind_eq_ok.mp answered
    rw [if_pos fits] at answered
    exact ⟨offset, reads, (Except.ok.inj answered).symm⟩
  · have refused := pages none
    refine pagesComplete_of_error runtime (e := joinRefusal planned.outer planned.probe) ?_
    refine map_eq_error.mp (refused.trans ?_)
    exact if_neg fits

section Bounded

variable (run : JoinRun runtime ast scope source join planned fetched probed)
  (bounded : planned.PageBounded) (ordered : planned.OuterOrdered scope fetched)
include run bounded ordered

theorem windows_bounded :
    Windows (pageAt runtime ast scope source) (joinRead runtime ast join scope)
      (joinName runtime ast join scope)
      ((planned.full runtime scope join fetched probed).take maxJoinMatches)
      planned.plan.limit := by
  refine ⟨(planned_of_planJoin runtime run.plans).limit, rfl,
    decodeCursor_encodeCursor runtime (joinCursorKey ast.domain join.domain) scope, ?_⟩
  intro cursor answer answered
  rw [pageAt_bounded runtime run bounded ordered] at answered
  obtain ⟨offset, reads, answered⟩ := bind_eq_ok.mp answered
  dsimp only at answered
  split at answered
  · exact ⟨offset, reads, (Except.ok.inj answered).symm⟩
  · cases answered

/-- The first pairs a join may walk all satisfy the predicate, and more do. -/
def JoinPlan.Truncates (planned : JoinPlan) (scope : QueryScope) (join : Join)
    (fetched probed : List Row) : Prop :=
  (∀ pair ∈ (planned.orderedPairs runtime scope join fetched probed).take maxJoinMatches,
    matchesPredicate pair planned.ast.predicate = true) ∧
    maxJoinMatches < (planned.kept runtime scope join fetched probed).length

theorem not_pagesComplete_of_truncates
    (truncates : planned.Truncates runtime scope join fetched probed) :
    ¬ PagesComplete runtime ast scope source := by
  obtain ⟨all, more⟩ := truncates
  have long : maxJoinMatches ≤ (planned.orderedPairs runtime scope join fetched probed).length :=
    Nat.le_of_lt (Nat.lt_of_lt_of_le more (length_filter_le _ _))
  have walks : ∀ fuel, maxJoinMatches < fuel → walk (pageAt runtime ast scope source) fuel none =
      .ok ((planned.full runtime scope join fetched probed).take maxJoinMatches) := by
    intro fuel enough
    refine (windows_bounded runtime run bounded ordered).walk_eq_ok ?_
      (Nat.lt_of_le_of_lt (length_take_le _ _) enough)
    intro cursor offset reads
    have page := pageAt_bounded runtime run bounded ordered cursor
    rw [reads] at page
    refine ⟨_, page.trans (if_pos (.inr ?_))⟩
    rw [retainMatching, filter_eq_self.mpr all, length_take_of_le long]
    exact Nat.min_le_right _ _
  rintro ⟨enough, complete⟩
  have walked := walks (enough + maxJoinMatches + 1) (by omega)
  obtain ⟨error, failed⟩ | ⟨rows, answered, done⟩ :=
    complete (enough + maxJoinMatches + 1) (by omega)
  · cases walked.symm.trans failed
  · cases (answer_join runtime run).symm.trans answered
    have same := congrArg List.length (Except.ok.inj (walked.symm.trans done))
    rw [length_take, length_full runtime bounded ordered] at same
    omega

theorem pagesComplete_of_not_truncates
    (fits : ¬ planned.Truncates runtime scope join fetched probed) :
    PagesComplete runtime ast scope source := by
  have windows := windows_bounded runtime run bounded ordered
  have length : (planned.full runtime scope join fetched probed).length =
      (planned.kept runtime scope join fetched probed).length := length_full runtime bounded ordered
  by_cases more : maxJoinMatches < (planned.kept runtime scope join fetched probed).length
  · -- some of the first pairs are not kept, so the page that needs them all is refused
    have long : maxJoinMatches < (planned.orderedPairs runtime scope join fetched probed).length :=
      Nat.lt_of_lt_of_le more (length_filter_le _ _)
    have dropped : (retainMatching ((planned.orderedPairs runtime scope join fetched probed).take
        maxJoinMatches) planned.ast.predicate).length < maxJoinMatches := by
      have some : ¬ ∀ pair ∈ (planned.orderedPairs runtime scope join fetched probed).take
          maxJoinMatches, matchesPredicate pair planned.ast.predicate = true :=
        fun all => fits ⟨all, more⟩
      push Not at some
      have fewer := length_filter_lt_length_iff_exists.mpr some
      rwa [length_take_of_le (Nat.le_of_lt long)] at fewer
    refine ⟨maxJoinMatches + 1, fun fuel enough => .inl ?_⟩
    have enough : ((planned.full runtime scope join fetched probed).take maxJoinMatches).length <
        fuel := Nat.lt_of_le_of_lt (length_take_le _ _) enough
    obtain failed | done := windows.walk_eq enough
    · exact failed
    · obtain ⟨cursor, answered, last⟩ := windows.exists_last enough done
      rw [pageAt_bounded runtime run bounded ordered] at last
      obtain ⟨offset, -, last⟩ := bind_eq_ok.mp last
      dsimp only at last
      split at last
      · next allowed =>
        have ends := (Prod.mk.inj (Except.ok.inj last)).2
        split at ends
        · cases ends
        · next whole =>
          rw [length_take, length, Nat.min_eq_left (Nat.le_of_lt more)] at whole
          obtain short | reached := allowed
          · exact absurd short (Nat.not_le_of_lt long)
          · rw [Nat.min_eq_right (Nat.le_succ_of_le (Nat.le_of_not_lt whole))] at reached
            exact absurd reached (Nat.not_le_of_lt dropped)
      · cases last
  · rw [take_of_length_le (length ▸ Nat.le_of_not_lt more)] at windows
    exact pagesComplete_of_windows runtime (answer_join runtime run) windows

end Bounded

end Run

end Complete

/-! ## When pages are complete -/

/-- A join that a page bounds, whose first pairs fill all pages up to the most it
may walk, while there are more. -/
def Truncated (ast : Ast) (scope : QueryScope) (source : DataSource) : Prop :=
  ∃ join planned fetched probed, JoinRun runtime ast scope source join planned fetched probed ∧
    planned.PageBounded ∧ planned.Truncates runtime scope join fetched probed

/-- What `sort_by` asks of the comparison when all candidates, or the tuples of their
groups, are sorted. -/
def CandidatesOrdered (candidates : List Row) (ast : Ast) (plan : Plan) (naturalOrder : String) :
    Prop :=
  match ast.aggregate with
  | some aggregate => PreorderOn (compareTuples · · (keyedColumns plan.orderBy plan.outputs))
      (aggregateRows candidates aggregate)
  | none => PreorderOn (compareSourceRows · · (resolvedOrder plan naturalOrder)) candidates

/-- The comparison is a total preorder on the rows that a query sorts: its candidates,
or the outer rows of a join that a page bounds. Where it is not, `sort_by` may panic or
leave any order. -/
structure Ordered (ast : Ast) (scope : QueryScope) (source : DataSource) : Prop where
  domain : ∀ planned fetched, ast.join = none → planDomain runtime ast scope source = .ok planned →
    source.fetch ast.domain scope planned.filter = .ok fetched →
    CandidatesOrdered (retainMatching (scopeFilter fetched scope planned.schema)
      planned.ast.predicate) planned.ast planned.plan planned.naturalOrder
  outer : ∀ join planned fetched probed,
    JoinRun runtime ast scope source join planned fetched probed →
    planned.PageBounded → planned.OuterOrdered scope fetched
  pairs : ∀ join planned fetched probed,
    JoinRun runtime ast scope source join planned fetched probed → ¬ planned.PageBounded →
    CandidatesOrdered (retainMatching (planned.pairs scope join fetched probed)
      planned.ast.predicate) planned.ast planned.plan planned.naturalOrder

theorem pagesComplete_join {ast : Ast} {scope : QueryScope} {source : DataSource} {join : Join}
    (joins : ast.join = some join) (ordered : Ordered runtime ast scope source)
    (fits : ¬ Truncated runtime ast scope source) : PagesComplete runtime ast scope source := by
  have failing {e : PqlError} (failed : executeJoin runtime ast join scope none source = .error e) :
      PagesComplete runtime ast scope source := by
    refine pagesComplete_of_error runtime (e := e) ?_
    unfold execute
    rw [joins]
    exact failed
  cases plans : planJoin runtime ast join scope source with
  | error e =>
    refine failing (e := e) ?_
    unfold executeJoin
    rw [plans]
    rfl
  | ok planned =>
    have domain := (planned_of_planJoin runtime plans).domain
    cases fetches : source.fetch ast.domain scope
        (planned.ast.predicate.bind (leadingFilter planned.outer)) with
    | error e =>
      refine failing (e := e) ?_
      unfold executeJoin
      rw [plans]
      change (source.fetch planned.ast.domain scope _ >>= _) = _
      rw [domain, fetches]
      rfl
    | ok fetched =>
      cases probes : source.fetch join.domain scope none with
      | error e =>
        refine failing (e := e) ?_
        unfold executeJoin
        rw [plans]
        change (source.fetch planned.ast.domain scope _ >>= _) = _
        rw [domain, fetches]
        change (source.fetch join.domain scope none >>= _) = _
        rw [probes]
        rfl
      | ok probed =>
        have run : JoinRun runtime ast scope source join planned fetched probed :=
          ⟨joins, plans, fetches, probes⟩
        by_cases bounded : planned.PageBounded
        · refine pagesComplete_of_not_truncates runtime run bounded
            (ordered.outer join planned fetched probed run bounded) fun truncates => ?_
          exact fits ⟨join, planned, fetched, probed, run, bounded, truncates⟩
        · exact pagesComplete_unbounded runtime run bounded

/-- **When pages are complete.** Where the comparison is a total preorder on the rows
that are sorted, following the cursors of a query meets an error or reads its whole
answer, just when the query is not truncated. -/
theorem pages_complete_iff (ast : Ast) (scope : QueryScope) (source : DataSource)
    (ordered : Ordered runtime ast scope source) :
    PagesComplete runtime ast scope source ↔ ¬ Truncated runtime ast scope source := by
  constructor
  · rintro complete ⟨join, planned, fetched, probed, run, bounded, truncates⟩
    exact not_pagesComplete_of_truncates runtime run bounded
      (ordered.outer join planned fetched probed run bounded) truncates complete
  · intro fits
    cases joins : ast.join with
    | none => exact pagesComplete_domain runtime joins
    | some join => exact pagesComplete_join runtime joins ordered fits

/-! ## One release with many files -/

namespace Fanout

def releases : DomainSchema where
  name := "releases"
  columns := [⟨"name", .str, .publicField, .indexed, false⟩]
  naturalOrder := "name"
  bounded := true
  pushdown := []

def files : DomainSchema where
  name := "files"
  columns := [⟨"name", .str, .publicField, .indexed, false⟩,
    ⟨"file", .str, .publicField, .scan, false⟩]
  naturalOrder := "name"
  bounded := true
  pushdown := []

def release : Row := ⟨[("name", .str "flask")]⟩

def file : Row := ⟨[("name", .str "flask"), ("file", .str "wheel")]⟩

variable (count : Nat)

/-- One release and its `count` files. -/
def source : DataSource where
  schema name :=
    if name = "releases" then some releases else if name = "files" then some files else none
  fetch name _ _ := .ok (if name = "releases" then [release] else List.replicate count file)

def join : Join := ⟨"files", ["name"]⟩

def query : Ast where
  domain := "releases"
  join := some join
  predicate := none
  selection := .all
  aggregate := none
  orderBy := []
  limit := none

def caller : QueryScope where
  repositories := .all
  visibility := ⟨[.publicField]⟩
  fingerprint := "caller"

def planned : JoinPlan where
  outer := releases
  probe := files
  naturalOrder := "name"
  ast := query
  plan := ⟨[], 25, [⟨"name", .publicField, .str⟩, ⟨"file", .publicField, .str⟩]⟩

theorem joinRun :
    JoinRun .plain query caller (source count) join planned [release]
      (List.replicate count file) where
  joins := rfl
  plans := rfl
  fetches := rfl
  probes := rfl

theorem joinRun_unique {count : Nat} {join' : Join} {planned' : JoinPlan}
    {fetched probed : List Row}
    (run : JoinRun .plain query caller (source count) join' planned' fetched probed) :
    join' = join ∧ planned' = planned ∧ fetched = [release] ∧
      probed = List.replicate count file := by
  cases run.joins
  cases (joinRun count).plans.symm.trans run.plans
  cases run.fetches
  cases run.probes
  exact ⟨rfl, rfl, rfl, rfl⟩

theorem pageBounded : planned.PageBounded :=
  ⟨rfl, by decide⟩

theorem release_ordered : planned.OuterOrdered caller [release] := by
  have single : scopeFilter [release] caller releases = [release] := rfl
  unfold JoinPlan.OuterOrdered
  refine ⟨fun a ha b hb => ?_, fun a ha b hb c hc _ _ => ?_⟩
  · rw [mem_singleton.mp ha, mem_singleton.mp hb]
    decide
  · rw [mem_singleton.mp ha, mem_singleton.mp hc]
    decide

theorem ordered : Ordered .plain query caller (source count) where
  domain _ _ single := nomatch single
  outer join' planned' fetched probed run _ := by
    obtain ⟨rfl, rfl, rfl, rfl⟩ := joinRun_unique run
    exact release_ordered
  pairs join' planned' fetched probed run unbounded := by
    obtain ⟨rfl, rfl, rfl, rfl⟩ := joinRun_unique run
    exact absurd pageBounded unbounded

theorem length_kept :
    (planned.kept .plain caller join [release] (List.replicate count file)).length = count := by
  have single : orderSourceRows .plain (scopeFilter [release] caller releases)
      (resolvedOrder planned.plan planned.naturalOrder) = [release] :=
    perm_singleton.mp (Runtime.plain.sort.perm _ _)
  have probed : scopeFilter (List.replicate count file) caller files = List.replicate count file :=
    filter_eq_self.mpr fun _ _ => rfl
  have keyed : (List.replicate count file).filter
      (fun other => ["name"].map other.get = ["name"].map release.get) =
      List.replicate count file :=
    filter_eq_self.mpr fun other mem => by
      rw [eq_of_mem_replicate mem]
      decide
  have whole (pairs : List Row) : retainMatching pairs planned.ast.predicate = pairs :=
    filter_eq_self.mpr fun _ _ => rfl
  unfold JoinPlan.kept JoinPlan.orderedPairs matchingPairs
  rw [whole]
  change List.length (List.flatMap _ (orderSourceRows .plain (scopeFilter [release] caller releases)
    (resolvedOrder planned.plan planned.naturalOrder))) = count
  rw [single, flatMap_singleton, length_map]
  change List.length (List.filter _ (scopeFilter (List.replicate count file) caller files)) = count
  rw [probed]
  exact (congrArg List.length keyed).trans length_replicate

theorem truncates_iff :
    Truncated .plain query caller (source count) ↔ maxJoinMatches < count := by
  constructor
  · rintro ⟨join', planned', fetched, probed, run, -, -, more⟩
    obtain ⟨rfl, rfl, rfl, rfl⟩ := joinRun_unique run
    rwa [length_kept] at more
  · intro more
    refine ⟨join, planned, _, _, joinRun count, pageBounded, fun _ _ => rfl, ?_⟩
    rwa [length_kept]

/-- Of 25,001 files the last page shows the 25,000th, and names no next one. -/
theorem last_file_lost : ¬ PagesComplete .plain query caller (source 25001) := by
  obtain ⟨join', planned', fetched, probed, run, bounded, truncates⟩ :=
    (truncates_iff 25001).mpr (Nat.lt_succ_self _)
  exact not_pagesComplete_of_truncates .plain run bounded
    ((ordered 25001).outer join' planned' fetched probed run bounded) truncates

theorem single_file_listed : PagesComplete .plain query caller (source 1) :=
  (pages_complete_iff .plain query caller (source 1) (ordered 1)).mpr
    fun truncated => absurd ((truncates_iff 1).mp truncated) (by decide)

end Fanout

end Peryx.Pql
