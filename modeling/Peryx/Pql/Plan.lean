import Peryx.Pql.Catalog

/-!
# Evaluating predicates and planning queries

`eval.rs` and `plan.rs`: predicates over a row, with three truth values; the
checks that tie every clause of a query to the columns of a schema; and the
gates that refuse a query before it reads any row.
-/

namespace Peryx.Pql

/-! ## Predicates -/

/-- An unbound parameter is null. -/
def literalValue : Literal → Value
  | .str value => .str value
  | .int value => .int value
  | .bool value => .bool value
  | .timestamp value => .timestamp value
  | .param _ => .null
  | .boundParam _ value => value

def compareValues (left : Value) (op : CompareOp) (right : Value) : Option Bool :=
  (left.compare right).map fun order =>
    match op with
    | .eq => order = .eq
    | .ne => order ≠ .eq
    | .lt => order = .lt
    | .le => order ≠ .gt
    | .gt => order = .gt
    | .ge => order ≠ .lt

def evaluateNullable (row : Row) : Predicate → Option Bool
  | .or left right =>
    match evaluateNullable row left, evaluateNullable row right with
    | some true, _ | _, some true => some true
    | some false, some false => some false
    | _, _ => none
  | .and left right =>
    match evaluateNullable row left, evaluateNullable row right with
    | some false, _ | _, some false => some false
    | some true, some true => some true
    | _, _ => none
  | .not inner => (evaluateNullable row inner).map (!·)
  | .compare field op value => compareValues (row.get field) op (literalValue value)
  | .oneOf field values => some (values.any fun value => row.get field = literalValue value)
  | .startsWith field start =>
    some <| match row.get field, literalValue start with
      | .str cell, .str start => start.toList.isPrefixOf cell.toList
      | _, _ => false

def evaluate (predicate : Predicate) (row : Row) : Bool :=
  (evaluateNullable row predicate).getD false

/-! ## Planning -/

def defaultLimit : Nat := 25
def maxLimit : Nat := 100

structure OutputColumn where
  name : String
  fieldClass : FieldClass
  valueType : ValueType
deriving DecidableEq

structure Plan where
  orderBy : List OrderKey
  limit : Nat
  outputs : List OutputColumn
deriving DecidableEq

def requireColumn (field : String) (schema : DomainSchema) : Except PqlError Column :=
  match schema.column field with
  | some column => .ok column
  | none => .error (.validation ("unknown column `" ++ field ++ "`"))

def literalMismatch (column : Column) : PqlError :=
  .validation ("the literal does not match the " ++ column.valueType.asStr ++ " column `" ++
    column.name ++ "`")

/-- The types the parameters seen so far are expected to have, latest first. -/
abbrev ExpectedTypes := List (String × ValueType)

/-- What the executor trusts the `time` crate for: seconds of an RFC 3339
timestamp. -/
abbrev TimestampSeconds := String → Option Int64

variable (timestampSeconds : TimestampSeconds)

/-- The literal a bound value stands for in a column. -/
def bindValue (name : String) (column : Column) (value : Value) : Except PqlError Literal :=
  match value, column.valueType with
  | .bool value, .bool => .ok (.bool value)
  | .int value, .int => .ok (.int value)
  | .str value, .str => .ok (.str value)
  | .timestamp value, .timestamp => .ok (.timestamp value)
  | .str value, .timestamp =>
    match timestampSeconds value with
    | some seconds => .ok (.timestamp seconds)
    | none => .error (.validation ("parameter `:" ++ name ++ "` is not an RFC 3339 timestamp"))
  | _, _ => .error (literalMismatch column)

def resolveLiteral (literal : Literal) (column : Column) (expected : ExpectedTypes) :
    Except PqlError (Literal × ExpectedTypes) :=
  match literal with
  | .boundParam name value =>
    let prior := expected.lookup name
    if prior.isSome ∧ prior ≠ some column.valueType then
      .error (.validation ("parameter `:" ++ name ++ "` has incompatible " ++
        ((prior.map ValueType.asStr).getD "") ++ " and " ++ column.valueType.asStr ++
        " column contexts"))
    else
      (bindValue timestampSeconds name column value).map (·, (name, column.valueType) :: expected)
  | literal => .ok (literal, expected)

/-- Literal after literal, each seeing the types the earlier ones fixed. -/
def resolveLiterals (column : Column) :
    List Literal → ExpectedTypes → Except PqlError (List Literal × ExpectedTypes)
  | [], expected => .ok ([], expected)
  | literal :: literals, expected => do
    let (literal, expected) ← resolveLiteral timestampSeconds literal column expected
    let (literals, expected) ← resolveLiterals column literals expected
    return (literal :: literals, expected)

def resolvePredicate (schema : DomainSchema) :
    Predicate → ExpectedTypes → Except PqlError (Predicate × ExpectedTypes)
  | .or left right, expected => do
    let (left, expected) ← resolvePredicate schema left expected
    let (right, expected) ← resolvePredicate schema right expected
    return (.or left right, expected)
  | .and left right, expected => do
    let (left, expected) ← resolvePredicate schema left expected
    let (right, expected) ← resolvePredicate schema right expected
    return (.and left right, expected)
  | .not inner, expected => do
    let (inner, expected) ← resolvePredicate schema inner expected
    return (.not inner, expected)
  | .compare field op value, expected => do
    let column ← requireColumn field schema
    let (value, expected) ← resolveLiteral timestampSeconds value column expected
    return (.compare field op value, expected)
  | .oneOf field values, expected => do
    let column ← requireColumn field schema
    let (values, expected) ← resolveLiterals timestampSeconds column values expected
    return (.oneOf field values, expected)
  | .startsWith field start, expected => do
    let column ← requireColumn field schema
    let (start, expected) ← resolveLiteral timestampSeconds start column expected
    return (.startsWith field start, expected)

variable (ast : Ast)

def resolveParams (schema : DomainSchema) : Except PqlError Ast :=
  match ast.predicate with
  | none => .ok ast
  | some predicate =>
    (resolvePredicate timestampSeconds schema predicate []).map fun (predicate, _) =>
      { ast with predicate := some predicate }

def resolveLimit : Option Nat → Except PqlError Nat
  | none => .ok defaultLimit
  | some limit =>
    if limit = 0 then .error (.validation "limit must be at least 1")
    else if limit ≤ maxLimit then .ok limit
    else .error (.validation "limit must be at most 100")

def checkLiteralType (column : Column) (literal : Literal) : Except PqlError Unit :=
  match literal with
  | .param _ | .boundParam .. => .error (.validation "a parameter was left unbound")
  | .str _ => check .str
  | .bool _ => check .bool
  | .int _ => check .int
  | .timestamp _ => check .timestamp
where
  check (valueType : ValueType) : Except PqlError Unit :=
    if column.valueType = valueType then .ok () else .error (literalMismatch column)

/-- `Lt`, `Le`, `Gt` and `Ge`. -/
def CompareOp.isOrdering : CompareOp → Bool
  | .lt | .le | .gt | .ge => true
  | .eq | .ne => false

def validateCompare (field : String) (op : CompareOp) (value : Literal) (schema : DomainSchema) :
    Except PqlError Unit := do
  let column ← requireColumn field schema
  if op.isOrdering ∧ (column.valueType = .bool ∨ column.valueType = .str) then
    throw (.validation ("`" ++ op.asStr ++ "` is not defined for the " ++
      column.valueType.asStr ++ " column `" ++ field ++ "`"))
  checkLiteralType column value

def validatePredicate (schema : DomainSchema) : Predicate → Except PqlError Unit
  | .or left right | .and left right => do
    validatePredicate schema left
    validatePredicate schema right
  | .not inner => validatePredicate schema inner
  | .compare field op value => validateCompare field op value schema
  | .oneOf field values => do
    let column ← requireColumn field schema
    values.forM (checkLiteralType column)
  | .startsWith field start => do
    let column ← requireColumn field schema
    if column.valueType ≠ .str then
      throw (.validation ("`starts_with` needs a string column, but `" ++ field ++ "` is " ++
        column.valueType.asStr))
    checkLiteralType column start

def outputOf (column : Column) : OutputColumn :=
  { name := column.name, fieldClass := column.fieldClass, valueType := column.valueType }

def project (selection : Selection) (schema : DomainSchema) :
    Except PqlError (List OutputColumn) :=
  match selection with
  | .all => .ok (schema.columns.map outputOf)
  | .columns names => names.mapM fun name => (requireColumn name schema).map outputOf

def aggregateType (func : AggregateFunc) (column : ValueType) : ValueType :=
  match func with
  | .count | .sum => .int
  | .min | .max => column

def validateAggregateTerm (term : AggregateTerm) (schema : DomainSchema) :
    Except PqlError OutputColumn :=
  if term.aliasName.isEmpty then .error (.validation "an aggregate needs an alias")
  else
    match term.column, term.func.needsColumn with
    | some name, true => do
      let column ← requireColumn name schema
      if !column.numeric then
        throw (.validation ("`" ++ term.func.asStr ++ "` needs a numeric column, but `" ++ name ++
          "` is not numeric"))
      return { name := term.aliasName, fieldClass := column.fieldClass,
               valueType := aggregateType term.func column.valueType }
    | none, false =>
      .ok { name := term.aliasName, fieldClass := .publicField, valueType := .int }
    | some _, false => .error (.validation "`count` takes no column")
    | none, true => .error (.validation ("`" ++ term.func.asStr ++ "` needs a column"))

def validateGroupKey (schema : DomainSchema) (key : String) : Except PqlError OutputColumn := do
  let column ← requireColumn key schema
  if !schema.bounded ∧ !column.indexability.isCheap then
    throw (.validation ("group key `" ++ key ++ "` is not cheap to group on"))
  return outputOf column

def validateAggregate (aggregate : Aggregate) (schema : DomainSchema) :
    Except PqlError (List OutputColumn) := do
  let keys ← aggregate.groupBy.mapM (validateGroupKey schema)
  let terms ← aggregate.terms.mapM (validateAggregateTerm · schema)
  return keys ++ terms

/-- The first name that comes twice is the one that is reported. -/
def validateOutputNames (seen : List String) : List OutputColumn → Except PqlError Unit
  | [] => .ok ()
  | output :: outputs =>
    if output.name ∈ seen then
      .error (.validation ("duplicate output name `" ++ output.name ++ "`"))
    else validateOutputNames (output.name :: seen) outputs

def resolveOrder (orderBy : List OrderKey) (outputs : List OutputColumn) :
    Except PqlError (List OrderKey) :=
  match orderBy.find? fun key => !outputs.any (·.name = key.field) with
  | some key => .error (.validation ("cannot order by `" ++ key.field ++
      "`; it is not a selected column"))
  | none => .ok orderBy

def validateClause (schema : DomainSchema) : Option Predicate → Except PqlError Unit
  | none => .ok ()
  | some predicate => validatePredicate schema predicate

def planOutputs (schema : DomainSchema) : Except PqlError (List OutputColumn) :=
  match ast.aggregate with
  | some aggregate => validateAggregate aggregate schema
  | none => project ast.selection schema

def validateResolved (schema : DomainSchema) : Except PqlError Plan := do
  validateClause schema ast.predicate
  let limit ← resolveLimit ast.limit
  let outputs ← planOutputs ast schema
  validateOutputNames [] outputs
  let orderBy ← resolveOrder ast.orderBy outputs
  return { orderBy, limit, outputs }

/-! ## Gates -/

def cheapFilter (field : String) (literals : List Literal) (schema : DomainSchema) :
    Option FetchFilter :=
  match schema.column field with
  | none => none
  | some column =>
    if column.name ∈ schema.pushdown then
      let values := literals.map literalValue
      if values.any (· = .null) then none else some { column := column.name, values }
    else none

def leadingFilter (schema : DomainSchema) : Predicate → Option FetchFilter
  | .and left right => (leadingFilter schema left).or (leadingFilter schema right)
  | .compare field .eq value => cheapFilter field [value] schema
  | .oneOf field values => cheapFilter field values schema
  | _ => none

def costGate (schema : DomainSchema) : Except PqlError Unit :=
  if schema.bounded then .ok ()
  else if (ast.predicate.bind (leadingFilter schema)).isSome then .ok ()
  else .error (.costExceeded ("`" ++ schema.name ++
    "` is large; add an equality filter on an indexed column"))

def planResolved (schema : DomainSchema) : Except PqlError Plan := do
  let plan ← validateResolved ast schema
  costGate ast schema
  return plan

def gateJoin (outer probe : DomainSchema) : Except PqlError Unit :=
  if !probe.bounded then
    .error (.unboundedJoin ("`" ++ probe.name ++
      "` is unbounded, so materializing it to build the join is refused"))
  else costGate ast outer

end Peryx.Pql
