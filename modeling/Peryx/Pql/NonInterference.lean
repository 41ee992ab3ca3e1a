import Peryx.Pql.Planned

/-!
# Queries do not disclose what their caller may not read

Everything a query does with a row goes through the columns of the schema its
caller may read. A row's `view` keeps those and nothing else; each step of the
executor answers the same on rows and on their views, so that two sources whose
rows look the same to the caller answer every query alike.

- `executeDomain_agree`, `executeJoin_agree`: the two shapes of a query.
- `execute_non_interference`: every query, every page.
-/

namespace Peryx.Pql

open Peryx.Except List

/-! ## Views of rows -/

namespace Row

/-- What a caller sees of a row: its value in each of the columns `own`, and of
the columns `foreign`, which its domain does not declare, the cells it has. -/
def view (own foreign : List String) (row : Row) : Row where
  cells := own.map (fun name => (name, row.get name)) ++
    foreign.filterMap fun name => (row.cell name).map (name, ·)

variable {own foreign : List String}

theorem lookup_own (row : Row) (names : List String) (name : String) :
    (names.map fun name => (name, row.get name)).lookup name =
      if name ∈ names then some (row.get name) else none := by
  induction names with
  | nil => rfl
  | cons first names ih =>
    rw [map_cons, lookup_cons]
    by_cases same : name = first
    · rw [← same, beq_self_eq_true, if_pos mem_cons_self]
    · rw [beq_false_of_ne same, ih]
      simp only [mem_cons, same, false_or]

theorem lookup_foreign (row : Row) (names : List String) (name : String) :
    (names.filterMap fun name => (row.cell name).map (name, ·)).lookup name =
      if name ∈ names then row.cell name else none := by
  induction names with
  | nil => rfl
  | cons first names ih =>
    by_cases same : name = first
    · subst same
      rw [if_pos mem_cons_self]
      cases found : row.cell name with
      | none =>
        rw [filterMap_cons_none (by rw [found]; rfl), ih, found, ite_self]
      | some value =>
        rw [filterMap_cons_some (by rw [found]; rfl), lookup_cons_self]
    · have later : name ∈ first :: names ↔ name ∈ names := by
        rw [mem_cons, or_iff_right same]
      simp only [later]
      cases found : row.cell first with
      | none => rw [filterMap_cons_none (by rw [found]; rfl), ih]
      | some value =>
        rw [filterMap_cons_some (by rw [found]; rfl), lookup_cons, beq_false_of_ne same, ih]

theorem cell_view (row : Row) (name : String) :
    (row.view own foreign).cell name =
      if name ∈ own then some (row.get name)
      else if name ∈ foreign then row.cell name else none := by
  rw [cell, view, lookup_append, lookup_own, lookup_foreign]
  split <;> rfl

theorem get_view (row : Row) {name : String} (mem : name ∈ own) :
    (row.view own foreign).get name = row.get name := by
  rw [get_eq, cell_view, if_pos mem]
  rfl

end Row

/-! ## Steps that read columns -/

variable {predicate : Option Predicate} {ast : Ast} {scope : QueryScope}

section Views

variable {own foreign : List String}

theorem evaluateNullable_view {predicate : Predicate} (reads : predicate.fields ⊆ own) (row : Row) :
    evaluateNullable (row.view own foreign) predicate = evaluateNullable row predicate := by
  induction predicate with
  | or left right hl hr | and left right hl hr =>
    obtain ⟨left, right⟩ := append_subset.mp reads
    simp only [evaluateNullable, hl left, hr right]
  | not inner ih => simp only [evaluateNullable, ih reads]
  | compare field | oneOf field | startsWith field =>
    have mem : field ∈ own := reads mem_cons_self
    simp only [evaluateNullable, Row.get_view row mem]

variable {orderBy : List OrderKey} {aggregate : Aggregate}

theorem matchesPredicate_view (reads : ∀ p, predicate = some p → p.fields ⊆ own) (row : Row) :
    matchesPredicate (row.view own foreign) predicate = matchesPredicate row predicate := by
  cases predicate with
  | none => rfl
  | some predicate =>
    simp only [matchesPredicate, evaluate, Option.all_some,
      evaluateNullable_view (reads predicate rfl)]

theorem compareSourceRows_view (reads : ∀ key ∈ orderBy, key.field ∈ own) (left right : Row) :
    compareSourceRows (left.view own foreign) (right.view own foreign) orderBy =
      compareSourceRows left right orderBy := by
  induction orderBy with
  | nil => rfl
  | cons key keys ih =>
    have here : key.field ∈ own := reads key mem_cons_self
    have later := ih fun key mem => reads key (mem_cons_of_mem _ mem)
    simp only [compareSourceRows, Row.get_view _ here, later]

variable (runtime : Runtime)

theorem orderSourceRows_view (reads : ∀ key ∈ orderBy, key.field ∈ own) (rows : List Row) :
    orderSourceRows runtime (rows.map (Row.view own foreign)) orderBy =
      (orderSourceRows runtime rows orderBy).map (Row.view own foreign) := by
  have natural := runtime.sort.map (Row.view own foreign) (compareSourceRows · · orderBy) rows
  simp only [compareSourceRows_view reads] at natural
  exact natural.symm

theorem retainMatching_view (reads : ∀ p, predicate = some p → p.fields ⊆ own) (rows : List Row) :
    retainMatching (rows.map (Row.view own foreign)) predicate =
      (retainMatching rows predicate).map (Row.view own foreign) := by
  rw [retainMatching, filter_map]
  refine congrArg _ (filter_congr fun row _ => ?_)
  exact matchesPredicate_view reads row

theorem projectRows_view {outputs : List OutputColumn}
    (reads : ∀ output ∈ outputs, output.name ∈ own) (rows : List Row) :
    projectRows (rows.map (Row.view own foreign)) outputs = projectRows rows outputs := by
  rw [projectRows, map_map]
  refine map_congr_left fun row _ => map_congr_left fun output mem => ?_
  exact Row.get_view row (reads output mem)

theorem observeRow_view (reads : aggregate.Reads own) (row : Row)
    (accumulators : List Accumulator) :
    observeRow aggregate (row.view own foreign) accumulators =
      observeRow aggregate row accumulators := by
  have terms := reads.terms
  unfold observeRow
  generalize aggregate.terms = all at terms
  induction all generalizing accumulators with
  | nil => rw [zipWith_nil_right, zipWith_nil_right]
  | cons term all ih =>
    cases accumulators with
    | nil => rfl
    | cons accumulator accumulators =>
      rw [zipWith_cons_cons, zipWith_cons_cons,
        ih accumulators fun term mem => terms term (mem_cons_of_mem _ mem)]
      have here : term.column.map (row.view own foreign).get = term.column.map row.get := by
        cases column : term.column with
        | none => rfl
        | some name =>
          exact congrArg some (Row.get_view row (terms term mem_cons_self name column))
      rw [here]

theorem aggregateRows_view (reads : aggregate.Reads own) (rows : List Row) :
    aggregateRows (rows.map (Row.view own foreign)) aggregate = aggregateRows rows aggregate := by
  have group (row : Row) (groups : List Group) :
      observeGroup aggregate (row.view own foreign) groups =
        observeGroup aggregate row groups := by
    have key : aggregate.groupBy.map (row.view own foreign).get = aggregate.groupBy.map row.get :=
      map_congr_left fun name mem => Row.get_view row (reads.groupBy mem)
    simp only [observeGroup, key, observeRow_view reads]
  simp only [aggregateRows, foldl_map, group]

end Views

section Finish

variable (runtime : Runtime) {plan : Plan} {own : List String}

theorem tuples_view (reads : Reads ast plan own) {naturalOrder : String}
    (natural : naturalOrder ∈ own) (rows : List Row) :
    tuples runtime (rows.map (Row.view own [])) ast plan naturalOrder =
      tuples runtime rows ast plan naturalOrder := by
  unfold tuples
  cases plain : ast.aggregate with
  | some aggregate => simp only [aggregateRows_view (reads.aggregate aggregate plain)]
  | none =>
    simp only [orderSourceRows_view runtime (resolvedOrder_reads reads plain natural),
      projectRows_view (reads.outputs plain)]

end Finish

/-! ## Queries over one domain -/

/-- Two rows look the same in the columns of their own domain, `own`, and in the
cells they have of others, `foreign`. -/
structure Row.Agree (own foreign : List String) (row row' : Row) : Prop where
  own : ∀ name ∈ own, row.get name = row'.get name
  foreign : ∀ name ∈ foreign, row.cell name = row'.cell name

theorem Row.Agree.view_eq {own foreign : List String} {row row' : Row}
    (agree : Row.Agree own foreign row row') : row.view own foreign = row'.view own foreign := by
  unfold Row.view
  rw [map_congr_left fun name mem => by rw [agree.own name mem],
    filterMap_congr fun name mem => by rw [agree.foreign name mem]]

theorem view_eq_of_agree {own foreign : List String} {rows rows' : List Row}
    (agree : List.Forall₂ (Row.Agree own foreign) rows rows') :
    rows.map (Row.view own foreign) = rows'.map (Row.view own foreign) := by
  induction agree with
  | nil => rfl
  | cons first _ ih =>
    rw [map_cons, map_cons, ih, first.view_eq]

/-- Two fetches of a domain look the same to a caller: they fail alike, or their
rows of the caller's repositories agree. -/
inductive FetchesAgree (scope : QueryScope) (schema : DomainSchema) (own foreign : List String) :
    Except PqlError (List Row) → Except PqlError (List Row) → Prop where
  | failed (e : PqlError) : FetchesAgree scope schema own foreign (.error e) (.error e)
  | fetched {rows rows' : List Row}
      (agree : List.Forall₂ (Row.Agree own foreign) (scopeFilter rows scope schema)
        (scopeFilter rows' scope schema)) :
      FetchesAgree scope schema own foreign (.ok rows) (.ok rows')

section Domain

variable (runtime : Runtime)

theorem finish_eq_of_views {plan : Plan} {naturalOrder : String} {own : List String}
    (reads : Reads ast plan own) (natural : naturalOrder ∈ own) {rows rows' : List Row}
    (views : rows.map (Row.view own []) = rows'.map (Row.view own []))
    (cursorDomain : String) (offset : Nat) :
    finish runtime rows ast plan naturalOrder cursorDomain scope offset =
      finish runtime rows' ast plan naturalOrder cursorDomain scope offset := by
  unfold finish
  rw [← tuples_view runtime reads natural rows, views, tuples_view runtime reads natural rows']

theorem executeDomain_agree {source source' : DataSource} (cursorText : Option String)
    (schemas : source.schema = source'.schema)
    (agree : ∀ schema, source.schema ast.domain = some schema → ∀ filter,
      FetchesAgree scope schema (schema.visibleTo scope.visibility).names []
        (source.fetch ast.domain scope filter) (source'.fetch ast.domain scope filter)) :
    executeDomain runtime ast scope cursorText source =
      executeDomain runtime ast scope cursorText source' := by
  have plans : planDomain runtime ast scope source = planDomain runtime ast scope source' := by
    unfold planDomain
    rw [schemas]
  unfold executeDomain
  rw [← plans]
  refine bind_congr_ok fun planned ran => ?_
  have facts := planned_of_planDomain runtime ran
  refine bind_congr_ok fun offset _ => ?_
  have fetches := agree planned.schema facts.served planned.filter
  rw [facts.domain]
  generalize source.fetch ast.domain scope planned.filter = fetched at fetches
  generalize source'.fetch ast.domain scope planned.filter = fetched' at fetches
  cases fetches with
  | failed e => rfl
  | fetched same =>
    refine congrArg Except.ok (finish_eq_of_views runtime facts.reads facts.natural ?_ _ _)
    rw [← retainMatching_view facts.reads.predicate, view_eq_of_agree same,
      retainMatching_view facts.reads.predicate]

end Domain

/-! ## Joins -/

section Joins

/-- What a caller who may read `names` of a join sees of a row of its outer
domain. A cell that the domain does not declare would hide the probe's. -/
abbrev outerView (outer : DomainSchema) (names : List String) : Row → Row :=
  Row.view (outer.declared names) (outer.undeclared names)

abbrev probeView (probe : DomainSchema) (names : List String) : Row → Row :=
  Row.view (probe.declared names) []

/-- Two sources look the same to the caller of a query. In a join, columns count
that the caller may read of the merged schema, where a shared column carries its
stricter class. -/
def SourcesAgree (ast : Ast) (scope : QueryScope) (source source' : DataSource) : Prop :=
  source.schema = source'.schema ∧
    match ast.join with
    | none => ∀ schema, source.schema ast.domain = some schema → ∀ filter,
        FetchesAgree scope schema (schema.visibleTo scope.visibility).names []
          (source.fetch ast.domain scope filter) (source'.fetch ast.domain scope filter)
    | some join => ∀ outer probe, source.schema ast.domain = some outer →
        source.schema join.domain = some probe →
        (∀ filter, FetchesAgree scope outer (outer.declared (joinNames outer probe scope))
          (outer.undeclared (joinNames outer probe scope))
          (source.fetch ast.domain scope filter) (source'.fetch ast.domain scope filter)) ∧
        ∀ filter, FetchesAgree scope probe (probe.declared (joinNames outer probe scope)) []
          (source.fetch join.domain scope filter) (source'.fetch join.domain scope filter)

variable {outer probe : DomainSchema} {names : List String}

theorem view_mergeRow (row other : Row) :
    (mergeRow (outerView outer names row) (probeView probe names other)
        (probeOnly outer probe)).view names [] =
      (mergeRow row other (probeOnly outer probe)).view names [] := by
  refine Row.Agree.view_eq ⟨fun name mem => ?_, by simp⟩
  rw [Row.get_eq, Row.get_eq, cell_mergeRow, cell_mergeRow]
  by_cases declares : name ∈ outer.names
  · have own : name ∈ outer.declared names :=
      mem_filter.mpr ⟨mem, decide_eq_true declares⟩
    have skipped : name ∉ probeOnly outer probe := fun only => (mem_probeOnly.mp only).2 declares
    rw [if_neg skipped, if_neg skipped, Option.or_none, Option.or_none]
    exact Row.get_view row own
  · have notOwn : name ∉ outer.declared names := fun own =>
      declares (of_decide_eq_true (mem_filter.mp own).2)
    have foreign : name ∈ outer.undeclared names :=
      mem_filter.mpr ⟨mem, decide_eq_true declares⟩
    rw [Row.cell_view, if_neg notOwn, if_pos foreign]
    by_cases only : name ∈ probeOnly outer probe
    · have own : name ∈ probe.declared names :=
        mem_filter.mpr ⟨mem, decide_eq_true (mem_probeOnly.mp only).1⟩
      rw [if_pos only, if_pos only, Row.get_view other own]
    · rw [if_neg only, if_neg only]

variable (runtime : Runtime)

variable {keys : List String}

theorem joinKey_view {own foreign : List String} (reads : keys ⊆ own) (row : Row) :
    joinKey runtime (row.view own foreign) keys = joinKey runtime row keys := by
  refine foldl_ext _ _ _ fun key name mem => ?_
  rw [Row.get_view row (reads mem)]

theorem joinPairs_view (outerKeys : keys ⊆ outer.declared names)
    (probeKeys : keys ⊆ probe.declared names) (rows others : List Row) :
    (joinPairs runtime (rows.map (outerView outer names)) (others.map (probeView probe names))
        keys outer probe).map (Row.view names []) =
      (joinPairs runtime rows others keys outer probe).map (Row.view names []) := by
  unfold joinPairs
  rw [map_flatMap, map_flatMap, flatMap_map]
  refine flatMap_congr fun row _ => ?_
  simp only [filter_map, map_map, Function.comp_def, joinKey_view runtime outerKeys,
    joinKey_view runtime probeKeys, view_mergeRow]

theorem joinLoop_view {own foreign : List String}
    (reads : ∀ p, predicate = some p → p.fields ⊆ own) (refusal : PqlError) (bound : Option Nat)
    (pairs merged : List Row) (walked : Nat) :
    joinLoop refusal bound predicate (pairs.map (Row.view own foreign))
        (merged.map (Row.view own foreign)) walked =
      (joinLoop refusal bound predicate pairs merged walked).map
        (List.map (Row.view own foreign)) := by
  induction pairs generalizing merged walked with
  | nil => rfl
  | cons candidate pairs ih =>
    have grown : merged.map (Row.view own foreign) ++ [candidate.view own foreign] =
        (merged ++ [candidate]).map (Row.view own foreign) := by
      rw [map_append, map_singleton]
    simp only [map_cons, joinLoop, matchesPredicate_view reads, length_map, grown, ih]
    split_ifs <;> rfl

variable {join : Join}

theorem joinRows_view (reads : ∀ p, predicate = some p → p.fields ⊆ names)
    (outerKeys : keys ⊆ outer.declared names) (probeKeys : keys ⊆ probe.declared names)
    (bound : Option Nat) (rows others : List Row) :
    (joinRows runtime (rows.map (outerView outer names)) (others.map (probeView probe names))
        keys outer probe bound predicate).map (List.map (Row.view names [])) =
      (joinRows runtime rows others keys outer probe bound predicate).map
        (List.map (Row.view names [])) := by
  unfold joinRows
  rw [← joinLoop_view reads, ← joinLoop_view reads, joinPairs_view runtime outerKeys probeKeys]

theorem orderOuter_view (outer : DomainSchema) (limit offset : Nat) {plan : Plan}
    {naturalOrder : String} (reads : Reads ast plan names) (natural : naturalOrder ∈ names)
    (rows : List Row) :
    let orderBy := resolvedOrder plan naturalOrder
    let bounded := (pageBound ast orderBy outer limit offset).isSome
    (if bounded then orderSourceRows runtime rows orderBy else rows).map (outerView outer names) =
      if bounded then orderSourceRows runtime (rows.map (outerView outer names)) orderBy
      else rows.map (outerView outer names) := by
  intro orderBy bounded
  by_cases bounds : bounded = true
  · obtain ⟨plain, declares⟩ := pageBound_reads bounds
    rw [if_pos bounds, if_pos bounds, orderSourceRows_view]
    intro key mem
    exact mem_filter.mpr ⟨resolvedOrder_reads reads plain natural key mem,
      decide_eq_true (declares key mem)⟩
  · rw [if_neg bounds, if_neg bounds]

theorem executeJoin_agree {source source' : DataSource} (cursorText : Option String)
    (joined : ast.join = some join) (agree : SourcesAgree ast scope source source') :
    executeJoin runtime ast join scope cursorText source =
      executeJoin runtime ast join scope cursorText source' := by
  obtain ⟨schemas, agree⟩ := agree
  rw [joined] at agree
  have plans : planJoin runtime ast join scope source =
      planJoin runtime ast join scope source' := by
    unfold planJoin
    rw [schemas]
  unfold executeJoin
  rw [← plans]
  refine bind_congr_ok fun planned ran => ?_
  have facts := planned_of_planJoin runtime ran
  obtain ⟨outerAgree, probeAgree⟩ := agree _ _ facts.outer facts.probe
  refine bind_congr_ok fun offset _ => ?_
  have outerAgree := outerAgree (planned.ast.predicate.bind (leadingFilter planned.outer))
  have probeAgree := probeAgree none
  rw [facts.domain]
  generalize source.fetch ast.domain scope _ = fetched at outerAgree
  generalize source'.fetch ast.domain scope _ = fetched' at outerAgree
  generalize source.fetch join.domain scope none = probed at probeAgree
  generalize source'.fetch join.domain scope none = probed' at probeAgree
  cases outerAgree with
  | failed e => rfl
  | fetched outerSame =>
  cases probeAgree with
  | failed e => rfl
  | fetched probeSame =>
  refine bind_pure_congr (g := List.map (Row.view _ [])) ?_ fun candidates candidates' views =>
    finish_eq_of_views runtime facts.reads facts.natural views _ _
  -- the join looks at its sides through their views only
  have viewed := fun bound rows others => joinRows_view runtime facts.reads.predicate
    facts.outerKeys facts.probeKeys bound rows others
  have ordered := fun rows => orderOuter_view runtime planned.outer planned.plan.limit offset
    facts.reads facts.natural rows
  refine (viewed _ _ _).symm.trans (Eq.trans ?_ (viewed _ _ _))
  rw [ordered, ordered, view_eq_of_agree outerSame, view_eq_of_agree probeSame]

end Joins

/-! ## The executor -/

/-- Neither rows of other repositories nor values of columns the caller may not
read have a part in anything a query answers, errors and cursors included. -/
theorem execute_non_interference (runtime : Runtime) (ast : Ast) (scope : QueryScope)
    (cursorText : Option String) (source source' : DataSource)
    (agree : SourcesAgree ast scope source source') :
    execute runtime ast scope cursorText source = execute runtime ast scope cursorText source' := by
  unfold execute
  cases joined : ast.join with
  | none =>
    obtain ⟨schemas, agree⟩ := agree
    rw [joined] at agree
    exact executeDomain_agree runtime cursorText schemas agree
  | some join => exact executeJoin_agree runtime cursorText joined agree

namespace Disclosure

/-- Projects, joined to their owners; the score is for operators. -/
def projects : DomainSchema where
  name := "projects"
  columns := [⟨"repository", .str, .publicField, .keyOrdered, false⟩,
    ⟨"name", .str, .publicField, .indexed, false⟩, ⟨"score", .int, .operator, .scan, true⟩]
  naturalOrder := "name"
  bounded := true
  pushdown := []

def owners : DomainSchema where
  name := "owners"
  columns := [⟨"name", .str, .publicField, .indexed, false⟩,
    ⟨"owner", .str, .publicField, .scan, false⟩]
  naturalOrder := "name"
  bounded := true
  pushdown := []

def project (repository name : String) (score : Int64) : Row where
  cells := [("repository", .str repository), ("name", .str name), ("score", .int score)]

def source (rows : List Row) : DataSource where
  schema name :=
    if name = "projects" then some projects else if name = "owners" then some owners else none
  fetch name _ _ :=
    if name = "projects" then .ok rows
    else .ok [⟨[("name", .str "flask"), ("owner", .str "web")]⟩]

def query : Ast where
  domain := "projects"
  join := some ⟨"owners", ["name"]⟩
  predicate := none
  selection := .all
  aggregate := none
  orderBy := []
  limit := none

def caller : QueryScope where
  repositories := .only ["team"]
  visibility := ⟨[.publicField]⟩
  fingerprint := "caller"

def shown : DataSource := source [project "team" "flask" 1]

def hidden : DataSource := source [project "else" "flask" 7, project "team" "flask" 2]

theorem sources_agree : SourcesAgree query caller shown hidden := by
  refine ⟨rfl, fun outer probe served served' => ?_⟩
  cases served
  cases served'
  constructor
  · intro filter
    refine .fetched (.cons ⟨?_, ?_⟩ .nil)
    · decide
    · decide
  · intro filter
    exact .fetched (.cons ⟨fun _ _ => rfl, fun _ _ => rfl⟩ .nil)

theorem hidden_score_and_project :
    shown.fetch "projects" caller none ≠ hidden.fetch "projects" caller none ∧
      SourcesAgree query caller shown hidden ∧
      execute .plain query caller none shown = execute .plain query caller none hidden :=
  ⟨by decide, sources_agree,
    execute_non_interference .plain query caller none shown hidden sources_agree⟩

end Disclosure

end Peryx.Pql
