import Peryx.Pql.Execute

/-!
# What a planned query reads

A query that planning lets through names columns of the schema it was planned
against and no others.
-/

namespace Peryx.Pql

open Peryx.Except List

/-! ## Cells -/

namespace Row

def cell (row : Row) (column : String) : Option Value :=
  row.cells.lookup column

theorem get_eq (row : Row) (column : String) : row.get column = (row.cell column).getD .null :=
  rfl

theorem cell_push (row : Row) (name : String) (value : Value) (column : String) :
    (row.push name value).cell column =
      (row.cell column).or (if name = column then some value else none) := by
  rw [cell, push, lookup_append]
  by_cases same : name = column
  · rw [if_pos same, ← same, lookup_cons_self]
    rfl
  · rw [if_neg same, lookup_cons, beq_false_of_ne (Ne.symm same)]
    rfl

end Row

/-! ## Columns -/

variable {schema : DomainSchema}

namespace DomainSchema

def names (schema : DomainSchema) : List String :=
  schema.columns.map (·.name)

/-- Of `names`, those that a domain declares. -/
def declared (schema : DomainSchema) (names : List String) : List String :=
  names.filter (· ∈ schema.names)

def undeclared (schema : DomainSchema) (names : List String) : List String :=
  names.filter (· ∉ schema.names)

variable {name : String}

theorem isSome_column : (schema.column name).isSome ↔ name ∈ schema.names := by
  rw [column, find?_isSome, names, mem_map]
  simp only [decide_eq_true_eq]

theorem mem_names_of_requireColumn {column : Column}
    (found : requireColumn name schema = .ok column) :
    column.name = name ∧ name ∈ schema.names := by
  unfold requireColumn at found
  cases declared : schema.column name with
  | none =>
    rw [declared] at found
    cases found
  | some declaration =>
    rw [declared] at found
    cases found
    exact ⟨by simpa using find?_some declared, isSome_column.mp (by rw [declared]; rfl)⟩

end DomainSchema

/-- The columns a predicate reads. -/
def Predicate.fields : Predicate → List String
  | .or left right | .and left right => left.fields ++ right.fields
  | .not inner => inner.fields
  | .compare field _ _ | .oneOf field _ | .startsWith field _ => [field]

structure Aggregate.Reads (aggregate : Aggregate) (names : List String) : Prop where
  groupBy : aggregate.groupBy ⊆ names
  terms : ∀ term ∈ aggregate.terms, ∀ name, term.column = some name → name ∈ names

/-- The columns a query reads are all among `names`. -/
structure Reads (ast : Ast) (plan : Plan) (names : List String) : Prop where
  predicate : ∀ predicate, ast.predicate = some predicate → predicate.fields ⊆ names
  aggregate : ∀ aggregate, ast.aggregate = some aggregate → aggregate.Reads names
  outputs : ast.aggregate = none → ∀ output ∈ plan.outputs, output.name ∈ names
  orderBy : ∀ key ∈ plan.orderBy, ∃ output ∈ plan.outputs, output.name = key.field

/-! ## Validation -/

variable {ast : Ast} {plan : Plan} {scope : QueryScope}

theorem fields_of_validatePredicate {predicate : Predicate}
    (valid : validatePredicate schema predicate = .ok ()) : predicate.fields ⊆ schema.names := by
  have single {field : String} {column : Column}
      (found : requireColumn field schema = .ok column) : [field] ⊆ schema.names :=
    cons_subset.mpr ⟨(DomainSchema.mem_names_of_requireColumn found).2, nil_subset _⟩
  induction predicate with
  | or left right hl hr | and left right hl hr =>
    obtain ⟨⟨⟩, left, right⟩ := bind_eq_ok.mp valid
    exact append_subset.mpr ⟨hl left, hr right⟩
  | not inner ih => exact ih valid
  | compare field | oneOf field | startsWith field =>
    obtain ⟨column, found, -⟩ := bind_eq_ok.mp valid
    exact single found

theorem reads_of_validateAggregate {aggregate : Aggregate}
    {outputs : List OutputColumn} (valid : validateAggregate aggregate schema = .ok outputs) :
    aggregate.Reads schema.names := by
  obtain ⟨keys, groups, valid⟩ := bind_eq_ok.mp valid
  obtain ⟨terms, termed, -⟩ := bind_eq_ok.mp valid
  constructor
  · intro key mem
    obtain ⟨output, checked⟩ := (exists_of_mem_mapM groups).1 key mem
    obtain ⟨column, found, -⟩ := bind_eq_ok.mp checked
    exact (DomainSchema.mem_names_of_requireColumn found).2
  · intro term mem name named
    obtain ⟨output, checked⟩ := (exists_of_mem_mapM termed).1 term mem
    obtain ⟨-, checked⟩ := guard_eq_ok.mp checked
    rw [named] at checked
    cases needs : term.func.needsColumn with
    | false =>
      rw [needs] at checked
      cases checked
    | true =>
      rw [needs] at checked
      obtain ⟨column, found, -⟩ := bind_eq_ok.mp checked
      exact (DomainSchema.mem_names_of_requireColumn found).2

theorem names_of_project {selection : Selection}
    {outputs : List OutputColumn} (projected : project selection schema = .ok outputs) :
    ∀ output ∈ outputs, output.name ∈ schema.names := by
  intro output mem
  cases selection with
  | all =>
    cases projected
    obtain ⟨column, declared, rfl⟩ := mem_map.mp mem
    exact mem_map.mpr ⟨column, declared, rfl⟩
  | columns names =>
    obtain ⟨name, -, named⟩ := (exists_of_mem_mapM projected).2 output mem
    obtain ⟨column, found, rfl⟩ := map_eq_ok.mp named
    obtain ⟨rfl, mem⟩ := DomainSchema.mem_names_of_requireColumn found
    exact mem

theorem reads_of_validateResolved
    (valid : validateResolved ast schema = .ok plan) : Reads ast plan schema.names := by
  obtain ⟨⟨⟩, clause, valid⟩ := bind_eq_ok.mp valid
  obtain ⟨limit, -, valid⟩ := bind_eq_ok.mp valid
  obtain ⟨outputs, planned, valid⟩ := bind_eq_ok.mp valid
  obtain ⟨⟨⟩, -, valid⟩ := bind_eq_ok.mp valid
  obtain ⟨orderBy, ordered, valid⟩ := bind_eq_ok.mp valid
  cases valid
  constructor
  · intro predicate some
    rw [some] at clause
    exact fields_of_validatePredicate clause
  · intro aggregate some
    unfold planOutputs at planned
    rw [some] at planned
    exact reads_of_validateAggregate planned
  · intro none
    unfold planOutputs at planned
    rw [none] at planned
    exact names_of_project planned
  · intro key mem
    unfold resolveOrder at ordered
    split at ordered
    · cases ordered
    · next unmatched =>
      cases ordered
      have matched := find?_eq_none.mp unmatched key mem
      simpa using matched

theorem resolvedOrder_reads {own : List String}
    (reads : Reads ast plan own) (plain : ast.aggregate = none)
    {naturalOrder : String} (natural : naturalOrder ∈ own) :
    ∀ key ∈ resolvedOrder plan naturalOrder, key.field ∈ own := by
  intro key mem
  unfold resolvedOrder at mem
  split at mem
  · obtain ⟨output, mem, same⟩ := reads.orderBy key mem
    exact same ▸ reads.outputs plain output mem
  · obtain rfl := mem_singleton.mp mem
    exact natural

theorem limit_of_validateResolved
    (valid : validateResolved ast schema = .ok plan) : 0 < plan.limit := by
  obtain ⟨⟨⟩, -, valid⟩ := bind_eq_ok.mp valid
  obtain ⟨limit, resolved, valid⟩ := bind_eq_ok.mp valid
  obtain ⟨outputs, -, valid⟩ := bind_eq_ok.mp valid
  obtain ⟨⟨⟩, -, valid⟩ := bind_eq_ok.mp valid
  obtain ⟨orderBy, -, valid⟩ := bind_eq_ok.mp valid
  cases valid
  unfold resolveLimit at resolved
  split at resolved
  · cases resolved
    exact Nat.succ_pos 24
  · obtain ⟨positive, resolved⟩ := guard_eq_ok.mp resolved
    split at resolved
    · cases resolved
      exact Nat.pos_of_ne_zero positive
    · cases resolved

theorem naturalOrder_of_visibleSchema {visible : DomainSchema}
    (seen : visibleSchema schema scope = .ok visible) :
    visible = schema.visibleTo scope.visibility ∧ visible.naturalOrder ∈ visible.names := by
  obtain ⟨shown, same⟩ := guard_eq_ok.mp seen
  cases same
  refine ⟨rfl, DomainSchema.isSome_column.mp ?_⟩
  exact Option.isSome_iff_ne_none.mpr (by simpa using shown)

theorem resolveParams_domain {timestampSeconds : TimestampSeconds} {resolved : Ast}
    (resolves : resolveParams timestampSeconds ast schema = .ok resolved) :
    resolved.domain = ast.domain := by
  unfold resolveParams at resolves
  split at resolves
  · cases resolves
    rfl
  · obtain ⟨predicate, -, rfl⟩ := map_eq_ok.mp resolves
    rfl

/-! ## Queries over one domain -/

section Domain

variable (runtime : Runtime)

structure DomainPlan.Planned (planned : DomainPlan) (ast : Ast) (scope : QueryScope)
    (source : DataSource) : Prop where
  served : source.schema ast.domain = some planned.schema
  domain : planned.ast.domain = ast.domain
  natural : planned.naturalOrder ∈ (planned.schema.visibleTo scope.visibility).names
  reads : Reads planned.ast planned.plan (planned.schema.visibleTo scope.visibility).names
  limit : 0 < planned.plan.limit

/-- What planning a domain checks. -/
theorem planned_of_planDomain {source : DataSource} {planned : DomainPlan}
    (plans : planDomain runtime ast scope source = .ok planned) :
    planned.Planned ast scope source := by
  unfold planDomain at plans
  cases served : source.schema ast.domain with
  | none =>
    rw [served] at plans
    cases plans
  | some schema =>
    rw [served] at plans
    obtain ⟨visible, seen, plans⟩ := bind_eq_ok.mp plans
    obtain ⟨resolved, resolves, plans⟩ := bind_eq_ok.mp plans
    obtain ⟨plan, planned, plans⟩ := bind_eq_ok.mp plans
    cases plans
    obtain ⟨rfl, natural⟩ := naturalOrder_of_visibleSchema seen
    obtain ⟨valid, checked, last⟩ := bind_eq_ok.mp planned
    obtain ⟨⟨⟩, -, last⟩ := bind_eq_ok.mp last
    cases last
    exact ⟨served, resolveParams_domain resolves, natural, reads_of_validateResolved checked,
      limit_of_validateResolved checked⟩

end Domain

/-! ## Joins -/

section Joins

theorem cell_mergeRow (row other : Row) (only : List String) (name : String) :
    (mergeRow row other only).cell name =
      (row.cell name).or (if name ∈ only then some (other.get name) else none) := by
  induction only generalizing row with
  | nil => rw [if_neg not_mem_nil, Option.or_none]; rfl
  | cons first only ih =>
    refine (ih (row.push first (other.get first))).trans ?_
    rw [Row.cell_push, Option.or_assoc]
    refine congrArg _ ?_
    by_cases same : first = name
    · rw [if_pos same, same, if_pos mem_cons_self]
      rfl
    · rw [if_neg same, Option.none_or]
      simp only [mem_cons, Ne.symm same, false_or]

variable {outer probe : DomainSchema}

theorem mem_probeOnly {name : String} :
    name ∈ probeOnly outer probe ↔ name ∈ probe.names ∧ name ∉ outer.names := by
  have absent (name : String) : (outer.column name).isNone = true ↔ name ∉ outer.names := by
    rw [← DomainSchema.isSome_column, ← Option.not_isSome, Bool.not_eq_true', Bool.not_eq_true]
  simp only [probeOnly, mem_map, mem_filter, absent]
  constructor
  · rintro ⟨column, ⟨mem, absent⟩, rfl⟩
    exact ⟨mem_map.mpr ⟨column, mem, rfl⟩, absent⟩
  · rintro ⟨mem, absent⟩
    obtain ⟨column, declared, rfl⟩ := mem_map.mp mem
    exact ⟨column, ⟨declared, absent⟩, rfl⟩

theorem get_mergeRow (row other : Row) {name : String} (declares : name ∈ outer.names) :
    (mergeRow row other (probeOnly outer probe)).get name = row.get name := by
  have skipped : name ∉ probeOnly outer probe := fun only => (mem_probeOnly.mp only).2 declares
  rw [Row.get_eq, cell_mergeRow, if_neg skipped, Option.or_none]
  rfl

theorem validateJoinKey_eq_ok {visible : DomainSchema} {key : String}
    (valid : validateJoinKey outer probe visible key = .ok ()) :
    key ∈ outer.names ∧ key ∈ probe.names ∧ key ∈ visible.names := by
  unfold validateJoinKey at valid
  split at valid
  · next outerColumn found =>
    split at valid
    · next probeColumn found' =>
      obtain ⟨column, seen, -⟩ := bind_eq_ok.mp valid
      exact ⟨DomainSchema.isSome_column.mp (by rw [found]; rfl),
        DomainSchema.isSome_column.mp (by rw [found']; rfl),
        (DomainSchema.mem_names_of_requireColumn seen).2⟩
    · cases valid
  · cases valid

def joinNames (outer probe : DomainSchema) (scope : QueryScope) : List String :=
  ((mergeSchemas outer probe).visibleTo scope.visibility).names

variable (runtime : Runtime) {join : Join}

structure JoinPlan.Planned (planned : JoinPlan) (ast : Ast) (join : Join) (scope : QueryScope)
    (source : DataSource) : Prop where
  outer : source.schema ast.domain = some planned.outer
  probe : source.schema join.domain = some planned.probe
  domain : planned.ast.domain = ast.domain
  outerKeys : join.on ⊆ planned.outer.declared (joinNames planned.outer planned.probe scope)
  probeKeys : join.on ⊆ planned.probe.declared (joinNames planned.outer planned.probe scope)
  natural : planned.naturalOrder ∈ joinNames planned.outer planned.probe scope
  reads : Reads planned.ast planned.plan (joinNames planned.outer planned.probe scope)
  limit : 0 < planned.plan.limit

/-- What planning a join checks. -/
theorem planned_of_planJoin {source : DataSource} {planned : JoinPlan}
    (plans : planJoin runtime ast join scope source = .ok planned) :
    planned.Planned ast join scope source := by
  unfold planJoin at plans
  split at plans
  · next outer served =>
    split at plans
    · next probe served' =>
      obtain ⟨merged, seen, plans⟩ := bind_eq_ok.mp plans
      obtain ⟨⟨⟩, keyed, plans⟩ := bind_eq_ok.mp plans
      obtain ⟨⟨⟩, -, plans⟩ := bind_eq_ok.mp plans
      obtain ⟨resolved, resolves, plans⟩ := bind_eq_ok.mp plans
      obtain ⟨plan, valid, plans⟩ := bind_eq_ok.mp plans
      obtain ⟨⟨⟩, -, plans⟩ := bind_eq_ok.mp plans
      cases plans
      obtain ⟨rfl, natural⟩ := naturalOrder_of_visibleSchema seen
      have keys := fun key mem => validateJoinKey_eq_ok (forM_eq_ok.mp keyed key mem)
      refine ⟨served, served', resolveParams_domain resolves, fun key mem => ?_,
        fun key mem => ?_, natural, reads_of_validateResolved valid,
        limit_of_validateResolved valid⟩
      · exact mem_filter.mpr ⟨(keys key mem).2.2, decide_eq_true (keys key mem).1⟩
      · exact mem_filter.mpr ⟨(keys key mem).2.2, decide_eq_true (keys key mem).2.1⟩
    · cases plans
  · cases plans

theorem pageBound_reads {orderBy : List OrderKey} {limit offset : Nat}
    (bounded : (pageBound ast orderBy outer limit offset).isSome) :
    ast.aggregate = none ∧ ∀ key ∈ orderBy, key.field ∈ outer.names := by
  unfold pageBound at bounded
  split at bounded
  · cases bounded
  · next plain =>
    simp only [Bool.or_eq_true, not_or, Option.isNone_iff_eq_none,
      any_eq_true, not_exists, not_and] at plain
    refine ⟨Option.not_isSome_iff_eq_none.mp plain.1,
      fun key mem => DomainSchema.isSome_column.mp ?_⟩
    exact Option.isSome_iff_ne_none.mpr (plain.2 key mem)

end Joins

end Peryx.Pql
