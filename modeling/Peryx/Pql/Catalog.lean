import Mathlib

/-!
# Values, schemas and scopes of the query language

`value.rs`, `catalog.rs`, `scope.rs`, `source.rs`, `ast.rs` and `error.rs` of
`peryx-pql`: what a row holds, which columns a domain declares and how widely
each may be read, whom a query runs for, and what it asks.
-/

namespace Peryx.Pql

/-! ## Values and rows -/

inductive ValueType where
  | bool
  | int
  | str
  | timestamp
deriving DecidableEq

def ValueType.asStr : ValueType → String
  | .bool => "bool"
  | .int => "int"
  | .str => "string"
  | .timestamp => "timestamp"

inductive Value where
  | null
  | bool (value : Bool)
  | int (value : Int64)
  | str (value : String)
  | timestamp (value : Int64)
deriving DecidableEq

def Value.valueType : Value → Option ValueType
  | .null => none
  | .bool _ => some .bool
  | .int _ => some .int
  | .str _ => some .str
  | .timestamp _ => some .timestamp

/-- Values of unlike types, and nulls, do not compare. -/
def Value.compare : Value → Value → Option Ordering
  | .bool left, .bool right => some (Ord.compare left right)
  | .str left, .str right => some (Ord.compare left right)
  | .int left, .int right => some (Ord.compare left right)
  | .timestamp left, .timestamp right => some (Ord.compare left right)
  | _, _ => none

structure Row where
  cells : List (String × Value)
deriving DecidableEq

namespace Row

def push (row : Row) (column : String) (value : Value) : Row :=
  { cells := row.cells ++ [(column, value)] }

/-- The first cell of that name; a missing column reads as null. -/
def get (row : Row) (column : String) : Value :=
  (row.cells.lookup column).getD .null

end Row

/-! ## Schemas -/

/-- The least authority a caller needs to read a column. -/
inductive FieldClass where
  | publicField
  | repository
  | operator
  | administrator
deriving DecidableEq

/-- From most open to most restricted. -/
def FieldClass.rank : FieldClass → Nat
  | .publicField => 0
  | .repository => 1
  | .operator => 2
  | .administrator => 3

def FieldClass.mostRestrictive (a b : FieldClass) : FieldClass :=
  if a.rank ≤ b.rank then b else a

structure FieldVisibility where
  classes : List FieldClass

def FieldVisibility.permits (visibility : FieldVisibility) (fieldClass : FieldClass) : Bool :=
  fieldClass ∈ visibility.classes

inductive Indexability where
  | keyOrdered
  | indexed
  | scan
deriving DecidableEq

def Indexability.isCheap : Indexability → Bool
  | .keyOrdered | .indexed => true
  | .scan => false

structure Column where
  name : String
  valueType : ValueType
  fieldClass : FieldClass
  indexability : Indexability
  numeric : Bool
deriving DecidableEq

/-- A domain; who may query it at all is decided before the query runs. -/
structure DomainSchema where
  name : String
  columns : List Column
  naturalOrder : String
  bounded : Bool
  pushdown : List String
deriving DecidableEq

namespace DomainSchema

def column (schema : DomainSchema) (name : String) : Option Column :=
  schema.columns.find? (·.name = name)

def visibleTo (schema : DomainSchema) (visibility : FieldVisibility) : DomainSchema :=
  { schema with columns := schema.columns.filter (visibility.permits ·.fieldClass) }

end DomainSchema

/-! ## Scopes -/

inductive RepoScope where
  | all
  | only (repositories : List String)

def RepoScope.permits : RepoScope → String → Bool
  | .all, _ => true
  | .only repositories, repository => repository ∈ repositories

structure QueryScope where
  repositories : RepoScope
  visibility : FieldVisibility
  fingerprint : String

/-! ## Queries -/

structure Join where
  domain : String
  on : List String
deriving DecidableEq

inductive Selection where
  | all
  | columns (names : List String)
deriving DecidableEq

inductive CompareOp where
  | eq
  | ne
  | lt
  | le
  | gt
  | ge
deriving DecidableEq

def CompareOp.asStr : CompareOp → String
  | .eq => "=="
  | .ne => "!="
  | .lt => "<"
  | .le => "<="
  | .gt => ">"
  | .ge => ">="

inductive Literal where
  | str (value : String)
  | int (value : Int64)
  | bool (value : Bool)
  | timestamp (value : Int64)
  | param (name : String)
  | boundParam (name : String) (value : Value)
deriving DecidableEq

inductive Predicate where
  | or (left right : Predicate)
  | and (left right : Predicate)
  | not (inner : Predicate)
  | compare (field : String) (op : CompareOp) (value : Literal)
  | oneOf (field : String) (values : List Literal)
  | startsWith (field : String) (start : Literal)

structure OrderKey where
  field : String
  descending : Bool
deriving DecidableEq

inductive AggregateFunc where
  | sum
  | count
  | min
  | max
deriving DecidableEq

def AggregateFunc.asStr : AggregateFunc → String
  | .sum => "sum"
  | .count => "count"
  | .min => "min"
  | .max => "max"

def AggregateFunc.needsColumn (func : AggregateFunc) : Bool :=
  func ≠ .count

structure AggregateTerm where
  func : AggregateFunc
  column : Option String
  aliasName : String
deriving DecidableEq

structure Aggregate where
  terms : List AggregateTerm
  groupBy : List String
deriving DecidableEq

structure Ast where
  domain : String
  join : Option Join
  predicate : Option Predicate
  selection : Selection
  aggregate : Option Aggregate
  orderBy : List OrderKey
  limit : Option Nat

inductive PqlError where
  | validation (reason : String)
  | costExceeded (reason : String)
  | unboundedJoin (reason : String)
  | invalidCursor
  | cursorScopeChanged
  | unauthorized
  | backend (reason : String)
deriving DecidableEq

/-! ## Sources -/

structure FetchFilter where
  column : String
  values : List Value
deriving DecidableEq

/-- A source answers the same rows on each call. -/
structure DataSource where
  schema : String → Option DomainSchema
  fetch : String → QueryScope → Option FetchFilter → Except PqlError (List Row)

end Peryx.Pql
