import Peryx.Pql.Plan

/-!
# Membership against repeated equality

`Predicate::In` of `eval.rs` knows two truth values where the comparisons it
abbreviates know three.

- `membership_is_repeated_equality_iff`: where the two agree.
-/

namespace Peryx.Pql

open List

/-- A predicate with a hole. -/
inductive PredicateContext where
  | hole
  | orLeft (left : PredicateContext) (right : Predicate)
  | orRight (left : Predicate) (right : PredicateContext)
  | andLeft (left : PredicateContext) (right : Predicate)
  | andRight (left : Predicate) (right : PredicateContext)
  | not (inner : PredicateContext)

def PredicateContext.fill (predicate : Predicate) : PredicateContext → Predicate
  | .hole => predicate
  | .orLeft left right => .or (left.fill predicate) right
  | .orRight left right => .or left (right.fill predicate)
  | .andLeft left right => .and (left.fill predicate) right
  | .andRight left right => .and left (right.fill predicate)
  | .not inner => .not (inner.fill predicate)

/-- `field == first or field == …`, nested as the parser nests a chain. -/
def repeatedEquality (field : String) (first : Literal) (rest : List Literal) : Predicate :=
  rest.foldl (fun left value => .or left (.compare field .eq value)) (.compare field .eq first)

theorem PredicateContext.evaluateNullable_fill {row : Row} {a b : Predicate}
    (same : evaluateNullable row a = evaluateNullable row b) (context : PredicateContext) :
    evaluateNullable row (context.fill a) = evaluateNullable row (context.fill b) := by
  induction context with
  | hole => exact same
  | _ => simp only [fill, evaluateNullable, *]

theorem determined : ∀ a b : Option Bool, a.getD false = b.getD false →
    (a.map (!·)).getD false = (b.map (!·)).getD false → a = b := by
  decide

theorem Value.compare_eq_iff (left right : Value) :
    left.compare right = some .eq ↔ left ≠ .null ∧ left = right := by
  cases left <;> cases right <;> simp [Value.compare]

theorem compareValues_eq_iff (cell value : Value) :
    (compareValues cell .eq value = some true ↔ cell ≠ .null ∧ cell = value) ∧
    (compareValues cell .eq value = some false ↔ cell.compare value ≠ none ∧ cell ≠ value) := by
  have equal := Value.compare_eq_iff cell value
  unfold compareValues
  cases order : cell.compare value with
  | none => simpa [order] using equal
  | some found =>
    have known : cell ≠ .null := by
      rintro rfl
      cases order
    simp_all

variable (row : Row) (field : String)

/-- A chain is true when one comparison is, and false when all are. -/
theorem evaluateNullable_foldl (left : Predicate) (rest : List Literal) :
    let chain := evaluateNullable row
      (rest.foldl (fun left value => .or left (.compare field .eq value)) left)
    let equals := fun value => compareValues (row.get field) .eq (literalValue value)
    (chain = some true ↔
      evaluateNullable row left = some true ∨ ∃ value ∈ rest, equals value = some true) ∧
    (chain = some false ↔
      evaluateNullable row left = some false ∧ ∀ value ∈ rest, equals value = some false) := by
  intro chain equals
  induction rest generalizing left with
  | nil => simp [chain]
  | cons value rest ih =>
    have step := ih (.or left (.compare field .eq value))
    have same : evaluateNullable row (.compare field .eq value) = equals value := rfl
    rw [evaluateNullable, same] at step
    simp only [chain, foldl_cons, exists_mem_cons_iff, forall_mem_cons]
    rw [step.1, step.2]
    rcases evaluateNullable row left with _ | _ | _ <;> rcases equals value with _ | _ | _ <;>
      simp

variable (first : Literal) (rest : List Literal)

theorem evaluateNullable_repeatedEquality :
    let chain := evaluateNullable row (repeatedEquality field first rest)
    (chain = some true ↔
      row.get field ≠ .null ∧ ∃ value ∈ first :: rest, row.get field = literalValue value) ∧
    (chain = some false ↔ ∀ value ∈ first :: rest,
      (row.get field).compare (literalValue value) ≠ none ∧
        row.get field ≠ literalValue value) := by
  obtain ⟨holds, fails⟩ := evaluateNullable_foldl row field (.compare field .eq first) rest
  simp only [evaluateNullable, compareValues_eq_iff] at holds fails
  constructor
  · refine holds.trans ?_
    rw [exists_mem_cons_iff]
    grind
  · refine fails.trans ?_
    rw [forall_mem_cons]

/-- Membership and the chain of equalities agree wherever they stand, under any
negations, exactly on the rows where a value that is not null is the cell's, or
where the cell compares with every value. -/
theorem membership_is_repeated_equality_iff :
    (∀ context : PredicateContext,
      evaluate (context.fill (.oneOf field (first :: rest))) row =
        evaluate (context.fill (repeatedEquality field first rest)) row) ↔
    (row.get field ≠ .null ∧ ∃ value ∈ first :: rest, row.get field = literalValue value) ∨
      ∀ value ∈ first :: rest, (row.get field).compare (literalValue value) ≠ none := by
  obtain ⟨holds, fails⟩ := evaluateNullable_repeatedEquality row field first rest
  have member : evaluateNullable row (.oneOf field (first :: rest)) =
      some (decide (∃ value ∈ first :: rest, row.get field = literalValue value)) := by
    refine congrArg some (Bool.eq_iff_iff.mpr ?_)
    simp only [any_eq_true, decide_eq_true_eq]
  constructor
  · intro agree
    -- a truth value is known from the predicate and its negation
    have same := determined _ _ (agree .hole) (agree (.not .hole))
    rw [PredicateContext.fill, PredicateContext.fill, member] at same
    by_cases mem : ∃ value ∈ first :: rest, row.get field = literalValue value
    · rw [decide_eq_true mem] at same
      exact .inl (holds.mp same.symm)
    · rw [decide_eq_false mem] at same
      exact .inr fun value is => (fails.mp same.symm value is).1
  · intro known context
    refine congrArg (·.getD false) (PredicateContext.evaluateNullable_fill ?_ context)
    rw [member]
    by_cases mem : ∃ value ∈ first :: rest, row.get field = literalValue value
    · rw [decide_eq_true mem]
      refine (holds.mpr ⟨?_, mem⟩).symm
      rintro null
      obtain ⟨value, is, -⟩ := mem
      have compared := known.resolve_left (fun found => found.1 null) value is
      rw [null] at compared
      exact compared rfl
    · rw [decide_eq_false mem]
      refine (fails.mpr fun value is => ⟨?_, fun same => mem ⟨value, is, same⟩⟩).symm
      exact (known.resolve_left fun found => mem found.2) value is

/-- A row without the field is not in a list, but neither equal to its value nor
not equal; and an unbound parameter is in a list with a null. -/
theorem membership_differs_on_null :
    evaluate (.not (.oneOf "source" [.str "cache"])) ⟨[]⟩ = true ∧
      evaluate (.not (repeatedEquality "source" (.str "cache") [])) ⟨[]⟩ = false ∧
      evaluate (.oneOf "source" [.param "p"]) ⟨[]⟩ = true := by
  decide

end Peryx.Pql
