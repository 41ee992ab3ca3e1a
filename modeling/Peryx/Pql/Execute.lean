import Peryx.Lib.Except
import Peryx.Lib.Saturating
import Peryx.Lib.StableSort
import Peryx.Lib.Unary
import Peryx.Pql.Plan

/-!
# Executing queries

`execute.rs` and `cursor.rs`: a query is planned against the schema its caller
may read, its rows are fetched, confined to the caller's repositories, matched
or joined, ordered, projected or grouped, and cut into pages by an offset that
the cursor carries. Row counts and offsets are naturals: where the source
saturates, a minimum with the length of a list follows.
-/

namespace Peryx.Pql

/-- What the executor takes from other libraries: the form a value has in a join
key, cursors as text, the hash a cursor is bound to its scope by, RFC 3339
timestamps, and the stable sort of slices. -/
structure Runtime where
  /-- `{:?}` of a value. It keeps unlike values apart, and escapes controls. -/
  debug : Value → String
  debug_injective : Function.Injective debug
  debug_separator : ∀ value, '\x01' ∉ (debug value).toList
  cursor : Codec (String × String × Nat) String
  sha256 : String → String
  timestampSeconds : TimestampSeconds
  sort : StableSort

def Value.numbers : Value → List Nat
  | .null => [0]
  | .bool value => [1, value.toNat]
  | .int value => [2, value.toUInt64.toNat]
  | .str value => 3 :: Unary.codes value
  | .timestamp value => [4, value.toUInt64.toNat]

theorem Value.numbers_injective : Function.Injective Value.numbers := by
  have words {left right : Int64} (same : left.toUInt64.toNat = right.toUInt64.toNat) :
      left = right := by
    cases left
    exact congrArg Int64.ofUInt64 (UInt64.toNat_inj.mp same)
  intro left right same
  cases left <;> cases right <;> simp only [numbers, List.cons.injEq] at same <;>
    first | rfl | exact absurd same.1 (by decide) | skip
  · next a b => cases a <;> cases b <;> first | rfl | exact absurd same.2.1 (by decide)
  · exact congrArg _ (words same.2.1)
  · exact congrArg _ (Function.LeftInverse.injective Unary.text_codes same.2)
  · exact congrArg _ (words same.2.1)

def Runtime.plain : Runtime where
  debug value := String.ofList (Unary.write value.numbers)
  debug_injective _ _ same :=
    Value.numbers_injective (Unary.write_injective (String.ofList_injective same))
  debug_separator value mem := by
    rw [String.toList_ofList] at mem
    exact absurd (Unary.mem_write mem) (by decide)
  cursor := Unary.pair
  sha256 text := text
  timestampSeconds _ := none
  sort := .merge

def scopeColumn : String := "repository"

/-- The most key matches a join may walk. -/
def maxJoinMatches : Nat := 25000

structure Page where
  outputs : List OutputColumn
  rows : List (List Value)
  nextCursor : Option String
deriving DecidableEq

/-! ## Cursors -/

variable (runtime : Runtime)

def scopeHash (domain : String) (scope : QueryScope) : String :=
  runtime.sha256 (domain ++ "\x00" ++ scope.fingerprint)

def encodeCursor (domain : String) (scope : QueryScope) (offset : Nat) : String :=
  runtime.cursor.encode (domain, scopeHash runtime domain scope, offset)

def decodeCursor (text : String) (domain : String) (scope : QueryScope) : Except PqlError Nat :=
  match runtime.cursor.decode text with
  | none => .error .invalidCursor
  | some (named, hash, offset) =>
    if named ≠ domain then .error .invalidCursor
    else if hash ≠ scopeHash runtime domain scope then .error .cursorScopeChanged
    else .ok offset

def decodeOffset (cursorText : Option String) (domain : String) (scope : QueryScope) :
    Except PqlError Nat :=
  match cursorText with
  | none => .ok 0
  | some text => decodeCursor runtime text domain scope

/-! ## Scoping -/

/-- A domain whose natural order is hidden reads as one the caller cannot see. -/
def visibleSchema (schema : DomainSchema) (scope : QueryScope) : Except PqlError DomainSchema :=
  let visible := schema.visibleTo scope.visibility
  if (visible.column visible.naturalOrder).isNone then .error .unauthorized else .ok visible

def inScope (row : Row) (scope : QueryScope) (hasScopeColumn : Bool) : Bool :=
  if !hasScopeColumn then true
  else
    match scope.repositories with
    | .all => true
    | .only _ =>
      match row.get scopeColumn with
      | .str repository => scope.repositories.permits repository
      | _ => false

variable (rows : List Row)

/-- Uses the full schema: a hidden column must still confine the caller. -/
def scopeFilter (scope : QueryScope) (schema : DomainSchema) : List Row :=
  rows.filter (inScope · scope (schema.column scopeColumn).isSome)

def matchesPredicate (row : Row) (predicate : Option Predicate) : Bool :=
  predicate.all (evaluate · row)

def retainMatching (predicate : Option Predicate) : List Row :=
  rows.filter (matchesPredicate · predicate)

/-! ## Ordering -/

/-- Values that do not compare count as equal. -/
def compareCells (left right : Value) (descending : Bool) : Ordering :=
  let order := (left.compare right).getD .eq
  if descending then order.swap else order

def compareSourceRows (left right : Row) : List OrderKey → Ordering
  | [] => .eq
  | key :: keys =>
    match compareCells (left.get key.field) (right.get key.field) key.descending with
    | .eq => compareSourceRows left right keys
    | order => order

def orderSourceRows (orderBy : List OrderKey) : List Row :=
  runtime.sort.sort (compareSourceRows · · orderBy) rows

def compareTuples (left right : List Value) : List (Nat × Bool) → Ordering
  | [] => .eq
  | (index, descending) :: keyed =>
    match compareCells (left.getD index .null) (right.getD index .null) descending with
    | .eq => compareTuples left right keyed
    | order => order

def keyedColumns (orderBy : List OrderKey) (outputs : List OutputColumn) : List (Nat × Bool) :=
  orderBy.filterMap fun key =>
    (outputs.findIdx? (·.name = key.field)).map (·, key.descending)

def orderRows (rows : List (List Value)) (orderBy : List OrderKey)
    (outputs : List OutputColumn) : List (List Value) :=
  if orderBy.isEmpty then rows
  else runtime.sort.sort (compareTuples · · (keyedColumns orderBy outputs)) rows

def resolvedOrder (plan : Plan) (naturalOrder : String) : List OrderKey :=
  if !plan.orderBy.isEmpty then plan.orderBy
  else [{ field := naturalOrder, descending := true }]

/-! ## Projecting and grouping -/

def projectRows (outputs : List OutputColumn) : List (List Value) :=
  rows.map fun row => outputs.map fun output => row.get output.name

inductive Accumulator where
  | count (rows : Int64)
  | sum (total : Int64)
  | min (value : Option Value)
  | max (value : Option Value)

def numeric : Value → Option Int64
  | .int number | .timestamp number => some number
  | _ => none

/-- Keeps a candidate that is not null and compares as wanted with the one
held. -/
def keep (current value : Option Value) (wanted : Ordering) : Option Value :=
  match value.filter (· ≠ .null) with
  | none => current
  | some candidate =>
    match current with
    | none => some candidate
    | some held => if candidate.compare held = some wanted then some candidate else some held

namespace Accumulator

def new : AggregateFunc → Accumulator
  | .count => .count 0
  | .sum => .sum 0
  | .min => .min none
  | .max => .max none

/-- Sums saturate; a count is of rows in memory. -/
def observe (accumulator : Accumulator) (value : Option Value) : Accumulator :=
  match accumulator with
  | .count rows => .count (rows + 1)
  | .sum total =>
    match value.bind numeric with
    | some number => .sum (total.saturatingAdd number)
    | none => .sum total
  | .min current => .min (keep current value .lt)
  | .max current => .max (keep current value .gt)

def finish : Accumulator → Value
  | .count number | .sum number => .int number
  | .min value | .max value => value.getD .null

end Accumulator

abbrev Group := List Value × List Accumulator

def observeRow (aggregate : Aggregate) (row : Row) (accumulators : List Accumulator) :
    List Accumulator :=
  List.zipWith (fun accumulator term =>
    Accumulator.observe accumulator (term.column.map row.get)) accumulators aggregate.terms

/-- The row joins the group of its key, which is a new one if there is none. -/
def observeGroup (aggregate : Aggregate) (row : Row) (groups : List Group) : List Group :=
  let key := aggregate.groupBy.map row.get
  if groups.any (·.1 = key) then
    groups.map fun group =>
      if group.1 = key then (key, observeRow aggregate row group.2) else group
  else
    groups ++ [(key, observeRow aggregate row (aggregate.terms.map (Accumulator.new ·.func)))]

/-- Groups come in the order their first row does. -/
def aggregateRows (aggregate : Aggregate) : List (List Value) :=
  (rows.foldl (fun groups row => observeGroup aggregate row groups) []).map
    fun (key, accumulators) =>
    key ++ accumulators.map Accumulator.finish

/-! ## Pages -/

def paginate (rows : List (List Value)) (plan : Plan) (domain : String) (scope : QueryScope)
    (offset : Nat) : Page :=
  let total := rows.length
  let start := min offset total
  let ends := min (start + plan.limit) total
  { outputs := plan.outputs
    rows := (rows.take ends).drop start
    nextCursor := if ends < total then some (encodeCursor runtime domain scope ends) else none }

def tuples (candidates : List Row) (ast : Ast) (plan : Plan) (naturalOrder : String) :
    List (List Value) :=
  match ast.aggregate with
  | some aggregate =>
    orderRows runtime (aggregateRows candidates aggregate) plan.orderBy plan.outputs
  | none =>
    projectRows (orderSourceRows runtime candidates (resolvedOrder plan naturalOrder)) plan.outputs

def finish (candidates : List Row) (ast : Ast) (plan : Plan) (naturalOrder cursorDomain : String)
    (scope : QueryScope) (offset : Nat) : Page :=
  paginate runtime (tuples runtime candidates ast plan naturalOrder) plan cursorDomain scope offset

/-! ## Joins -/

def validateJoinKey (outer probe visible : DomainSchema) (key : String) :
    Except PqlError Unit := do
  let some outerColumn := outer.column key
    | throw (.validation ("join key `" ++ key ++ "` is not a column of `" ++ outer.name ++ "`"))
  let some probeColumn := probe.column key
    | throw (.validation ("join key `" ++ key ++ "` is not a column of `" ++ probe.name ++ "`"))
  -- the rows an inner join keeps disclose the key, so it must be one the caller may read
  let _ ← requireColumn key visible
  if outerColumn.valueType ≠ probeColumn.valueType then
    throw (.validation ("join key `" ++ key ++ "` type differs: `" ++ outer.name ++ "` is `" ++
      outerColumn.valueType.asStr ++ "`, `" ++ probe.name ++ "` is `" ++
      probeColumn.valueType.asStr ++ "`"))
  if !probeColumn.indexability.isCheap then
    throw (.unboundedJoin ("`" ++ probe.name ++ "` has no index on join key `" ++ key ++
      "`, so the join cannot be bounded"))

def validateJoin (keys : List String) (outer probe visible : DomainSchema) :
    Except PqlError Unit :=
  keys.forM (validateJoinKey outer probe visible)

/-- A shared column carries its stricter side's class. -/
def mergeColumn (columns : List Column) (column : Column) : List Column :=
  if columns.any (·.name = column.name) then
    -- the first column of that name
    columns.modify (columns.findIdx (·.name = column.name)) fun shared =>
      { shared with fieldClass := shared.fieldClass.mostRestrictive column.fieldClass }
  else columns ++ [column]

def mergeSchemas (outer probe : DomainSchema) : DomainSchema :=
  { outer with
    columns := probe.columns.foldl mergeColumn outer.columns
    bounded := outer.bounded && probe.bounded }

def requireNarrowingKeys (domain : String) (join : Join) (scope : QueryScope) :
    Except PqlError Unit :=
  if domain = join.domain then
    .error (.unboundedJoin ("`" ++ domain ++
      "` joined to itself pairs its rows with each other, so the join cannot be bounded"))
  else
    match scope.repositories with
    | .only _ =>
      if join.on = [scopeColumn] then
        .error (.unboundedJoin ("join key `" ++ scopeColumn ++
          "` already pins this query, so it cannot narrow `" ++ join.domain ++ "`"))
      else .ok ()
    | .all => .ok ()

/-- Each form ends with a separator. -/
def joinKey (row : Row) (keys : List String) : String :=
  keys.foldl (fun key name => key ++ runtime.debug (row.get name) ++ "\x01") ""

def mergeRow (outer probe : Row) (probeOnly : List String) : Row :=
  probeOnly.foldl (fun row name => row.push name (probe.get name)) outer

def probeOnly (outer probe : DomainSchema) : List String :=
  (probe.columns.filter fun column => (outer.column column.name).isNone).map (·.name)

/-- The merged rows of all key matches: an outer row's matches come together, in
the order of the probe rows. -/
def joinPairs (outer probe : List Row) (keys : List String)
    (schemaOuter schemaProbe : DomainSchema) : List Row :=
  outer.flatMap fun row =>
    (probe.filter fun other => joinKey runtime other keys = joinKey runtime row keys).map
      fun other =>
      mergeRow row other (probeOnly schemaOuter schemaProbe)

/-- The two loops of `join_rows`, over the pairs they walk. -/
def joinLoop (refusal : PqlError) (bound : Option Nat) (predicate : Option Predicate) :
    List Row → List Row → Nat → Except PqlError (List Row)
  | [], merged, _ => .ok merged
  | candidate :: pairs, merged, walked =>
    if walked + 1 > maxJoinMatches then .error refusal
    else if !matchesPredicate candidate predicate then
      joinLoop refusal bound predicate pairs merged (walked + 1)
    else if bound = some (merged.length + 1) then .ok (merged ++ [candidate])
    else joinLoop refusal bound predicate pairs (merged ++ [candidate]) (walked + 1)

def joinRefusal (schemaOuter schemaProbe : DomainSchema) : PqlError :=
  .costExceeded ("joining `" ++ schemaOuter.name ++ "` to `" ++ schemaProbe.name ++
    "` matches more than 25000 row pairs; add a join key that narrows it")

def joinRows (outer probe : List Row) (keys : List String)
    (schemaOuter schemaProbe : DomainSchema) (bound : Option Nat)
    (predicate : Option Predicate) : Except PqlError (List Row) :=
  joinLoop (joinRefusal schemaOuter schemaProbe) bound predicate
    (joinPairs runtime outer probe keys schemaOuter schemaProbe) [] 0

variable (ast : Ast)

/-- The merged rows a page can read, where it is the only thing the query
reads. -/
def pageBound (orderBy : List OrderKey) (outer : DomainSchema) (limit offset : Nat) :
    Option Nat :=
  if ast.aggregate.isSome || orderBy.any fun key => (outer.column key.field).isNone then none
  else some (min (offset + limit + 1) maxJoinMatches)

def joinCursorKey (outer probe : String) : String :=
  outer ++ "\x01" ++ probe

/-! ## Execution -/

structure JoinPlan where
  outer : DomainSchema
  probe : DomainSchema
  naturalOrder : String
  ast : Ast
  plan : Plan

def planJoin (join : Join) (scope : QueryScope) (source : DataSource) :
    Except PqlError JoinPlan := do
  let some outer := source.schema ast.domain | throw .unauthorized
  let some probe := source.schema join.domain | throw .unauthorized
  let merged ← visibleSchema (mergeSchemas outer probe) scope
  validateJoin join.on outer probe merged
  requireNarrowingKeys ast.domain join scope
  let ast ← resolveParams runtime.timestampSeconds ast merged
  let plan ← validateResolved ast merged
  gateJoin ast outer probe
  return { outer, probe, naturalOrder := merged.naturalOrder, ast, plan }

def executeJoin (join : Join) (scope : QueryScope) (cursorText : Option String)
    (source : DataSource) : Except PqlError Page := do
  let planned ← planJoin runtime ast join scope source
  let { outer := schemaA, probe := schemaB, naturalOrder, ast, plan } := planned
  let cursorDomain := joinCursorKey ast.domain join.domain
  let offset ← decodeOffset runtime cursorText cursorDomain scope
  let fetched ← source.fetch ast.domain scope (ast.predicate.bind (leadingFilter schemaA))
  let outer := scopeFilter fetched scope schemaA
  let orderBy := resolvedOrder plan naturalOrder
  let bound := pageBound ast orderBy schemaA plan.limit offset
  -- ordering the outer side first leaves the merged rows in their final order
  let outer := if bound.isSome then orderSourceRows runtime outer orderBy else outer
  let probed ← source.fetch join.domain scope none
  let probe := scopeFilter probed scope schemaB
  let candidates ← joinRows runtime outer probe join.on schemaA schemaB bound ast.predicate
  return finish runtime candidates ast plan naturalOrder cursorDomain scope offset

structure DomainPlan where
  schema : DomainSchema
  naturalOrder : String
  ast : Ast
  plan : Plan
  filter : Option FetchFilter

def planDomain (scope : QueryScope) (source : DataSource) :
    Except PqlError DomainPlan := do
  let some schema := source.schema ast.domain | throw .unauthorized
  let visible ← visibleSchema schema scope
  let ast ← resolveParams runtime.timestampSeconds ast visible
  let plan ← planResolved ast visible
  return { schema, naturalOrder := visible.naturalOrder, ast, plan,
           filter := ast.predicate.bind (leadingFilter visible) }

def executeDomain (scope : QueryScope) (cursorText : Option String)
    (source : DataSource) : Except PqlError Page := do
  let planned ← planDomain runtime ast scope source
  let { schema, naturalOrder, ast, plan, filter } := planned
  let offset ← decodeOffset runtime cursorText ast.domain scope
  let fetched ← source.fetch ast.domain scope filter
  return finish runtime (retainMatching (scopeFilter fetched scope schema) ast.predicate) ast plan
    naturalOrder ast.domain scope offset

def execute (scope : QueryScope) (cursorText : Option String) (source : DataSource) :
    Except PqlError Page :=
  match ast.join with
  | some join => executeJoin runtime ast join scope cursorText source
  | none => executeDomain runtime ast scope cursorText source

end Peryx.Pql
