import Peryx.Pql.Execute

/-!
# Orders over missing values

`compare_source_rows` and `compare_tuples` go through their keys and count two
values that do not compare, a null among them, as equal. Such ties do not carry
over: a null ties with 1 and with 0, which do not tie. What the two have in
common, `compareKeys`, is a total preorder under a list of keys, and under every
leading part of it, just when each key's column is `Uniform` among the rows that tie
on the keys before it (`preorderOn_compareKeys_iff`). `orders_sound_iff` says so of
the two comparisons and of the results of their sorts.
-/

namespace Peryx.Pql

open List

/-! ## Comparing values -/

namespace Value

theorem compare_swap (left right : Value) :
    right.compare left = (left.compare right).map Ordering.swap := by
  cases left <;> cases right <;>
    first | rfl | exact congrArg some Std.OrientedCmp.eq_swap

theorem isSome_compare {left right : Value} :
    (left.compare right).isSome ↔ left.valueType = right.valueType ∧ left.valueType ≠ none := by
  cases left <;> cases right <;> simp [compare, valueType]

theorem compare_trans {a b c : Value} (ab : (a.compare b).isSome) (bc : (b.compare c).isSome)
    (le : a.compare b ≠ some .gt) (le' : b.compare c ≠ some .gt) : a.compare c ≠ some .gt := by
  obtain ⟨tab, -⟩ := isSome_compare.mp ab
  obtain ⟨tbc, -⟩ := isSome_compare.mp bc
  cases a <;> cases b <;> cases tab <;> cases c <;> cases tbc <;>
    simp only [compare, ne_eq, Option.some.injEq, reduceCtorEq, not_false_eq_true] at * <;>
    exact Std.TransCmp.le_trans le le'

end Value

/-- The cells of a column all compare with each other, or no two of them are
strictly ordered. -/
def Uniform (values : List Value) : Prop :=
  (∀ a ∈ values, ∀ b ∈ values, (a.compare b).isSome) ∨
    ∀ a ∈ values, ∀ b ∈ values, a.compare b ≠ some .gt

instance (values : List Value) : Decidable (Uniform values) :=
  inferInstanceAs (Decidable (_ ∨ _))

theorem compareCells_ascending {a b : Value} :
    compareCells a b false = .gt ↔ a.compare b = some .gt := by
  unfold compareCells
  cases a.compare b <;> simp

theorem compareCells_swap (a b : Value) (descending : Bool) :
    compareCells b a descending = (compareCells a b descending).swap := by
  unfold compareCells
  rw [Value.compare_swap a b]
  cases descending <;> cases a.compare b <;> simp

variable {values : List Value}

theorem preorderOn_ascending (uniform : Uniform values) :
    PreorderOn (compareCells · · false) values where
  swap a _ b _ := compareCells_swap a b false
  trans a ha b hb c hc ab bc := by
    rw [ne_eq, compareCells_ascending] at *
    obtain compares | tied := uniform
    · exact Value.compare_trans (compares a ha b hb) (compares b hb c hc) ab bc
    · exact tied a ha c hc

theorem preorderOn_compareCells (uniform : Uniform values)
    (descending : Bool) : PreorderOn (compareCells · · descending) values := by
  cases descending with
  | false => exact preorderOn_ascending uniform
  | true => exact (preorderOn_ascending uniform).reverse

theorem uniform_of_preorderOn
    (preorder : PreorderOn (compareCells · · false) values) : Uniform values := by
  by_contra mixed
  obtain ⟨unlike, ordered⟩ := not_or.mp mixed
  push Not at unlike ordered
  obtain ⟨x, hx, y, hy, apart⟩ := unlike
  obtain ⟨a, ha, c, hc, gt⟩ := ordered
  -- one of the two that do not compare does not compare with the ordered pair either
  have : ∃ b ∈ values, b.valueType ≠ a.valueType := by
    by_contra alike
    push Not at alike
    refine apart (Value.isSome_compare.mpr ⟨(alike x hx).trans (alike y hy).symm, ?_⟩)
    rw [alike x hx]
    exact (Value.isSome_compare.mp (by rw [gt]; rfl)).2
  obtain ⟨b, hb, other⟩ := this
  have ac := (Value.isSome_compare.mp (by rw [gt]; rfl : (a.compare c).isSome)).1
  have ab : a.compare b ≠ some .gt := fun gt =>
    other (Value.isSome_compare.mp (by rw [gt]; rfl)).1.symm
  have bc : b.compare c ≠ some .gt := fun gt =>
    other ((Value.isSome_compare.mp (by rw [gt]; rfl)).1.trans ac.symm)
  refine preorder.trans a ha b hb c hc ?_ ?_ (compareCells_ascending.mpr gt)
  · rwa [ne_eq, compareCells_ascending]
  · rwa [ne_eq, compareCells_ascending]

theorem uniform_of_preorderOn_compareCells {descending : Bool}
    (preorder : PreorderOn (compareCells · · descending) values) : Uniform values := by
  refine uniform_of_preorderOn ?_
  cases descending with
  | false => exact preorder
  | true => simpa [compareCells] using preorder.reverse

/-! ## Comparing by keys -/

section Keys

variable {α κ : Type} (cell : α → κ → Value)

def compareKeys (left right : α) : List (κ × Bool) → Ordering
  | [] => .eq
  | (key, descending) :: keys =>
    (compareCells (cell left key) (cell right key) descending).then (compareKeys left right keys)

/-- The rows that tie with `row` on one key. -/
def tiedRows (rows : List α) (row : α) (key : κ × Bool) : List α :=
  rows.filter fun other => compareCells (cell row key.1) (cell other key.1) key.2 = .eq

/-- Each key's column is uniform among the rows that tie on all keys before it. -/
def TiedUniform (rows : List α) : List (κ × Bool) → Prop
  | [] => True
  | key :: keys =>
    Uniform (rows.map (cell · key.1)) ∧ ∀ row ∈ rows, TiedUniform (tiedRows cell rows row key) keys

theorem preorderOn_compareKeys {rows : List α} {keys : List (κ × Bool)}
    (uniform : TiedUniform cell rows keys) : PreorderOn (compareKeys cell · · keys) rows := by
  induction keys generalizing rows with
  | nil => exact ⟨fun _ _ _ _ => rfl, fun _ _ _ _ _ _ _ _ => nofun⟩
  | cons key keys ih =>
    obtain ⟨first, rest⟩ := uniform
    exact (preorderOn_compareCells first key.2).of_map.lex fun row mem => ih (rest row mem)

/-- Among rows that tie on the first key, the keys after it decide. -/
theorem preorderOn_tiedRows {rows : List α} {key : κ × Bool} {keys : List (κ × Bool)}
    (single : PreorderOn (fun a b => compareCells (cell a key.1) (cell b key.1) key.2) rows)
    (both : PreorderOn (compareKeys cell · · (key :: keys)) rows) {row : α} (mem : row ∈ rows) :
    PreorderOn (compareKeys cell · · keys) (tiedRows cell rows row key) := by
  have inside {a b : α} (ha : a ∈ tiedRows cell rows row key)
      (hb : b ∈ tiedRows cell rows row key) :
      a ∈ rows ∧ compareKeys cell a b (key :: keys) = compareKeys cell a b keys := by
    obtain ⟨ha, left⟩ := mem_filter.mp ha
    obtain ⟨hb, right⟩ := mem_filter.mp hb
    have back := single.eq_symm mem ha (of_decide_eq_true left)
    refine ⟨ha, ?_⟩
    rw [compareKeys, single.eq_trans ha mem hb back (of_decide_eq_true right)]
    rfl
  refine ⟨fun a ha b hb => ?_, fun a ha b hb c hc => ?_⟩
  · rw [← (inside ha hb).2, ← (inside hb ha).2]
    exact both.swap a (inside ha hb).1 b (inside hb ha).1
  · rw [← (inside ha hb).2, ← (inside hb hc).2, ← (inside ha hc).2]
    exact both.trans a (inside ha hb).1 b (inside hb hc).1 c (inside hc ha).1

theorem preorderOn_compareKeys_iff (rows : List α) (keys : List (κ × Bool)) :
    (∀ front, front <+: keys → PreorderOn (compareKeys cell · · front) rows) ↔
      TiedUniform cell rows keys := by
  constructor
  · intro preorders
    induction keys generalizing rows with
    | nil => trivial
    | cons key keys ih =>
      have single := preorders [key] (prefix_append [key] keys)
      simp only [compareKeys, Ordering.then_eq] at single
      refine ⟨uniform_of_preorderOn_compareCells single.map, fun row mem => ih _ fun front le => ?_⟩
      have both := preorders (key :: front) (cons_prefix_cons.mpr ⟨rfl, le⟩)
      exact preorderOn_tiedRows cell single both mem
  · rintro uniform front ⟨rest, rfl⟩
    refine preorderOn_compareKeys cell ?_
    induction front generalizing rows with
    | nil => trivial
    | cons key front ih => exact ⟨uniform.1, fun row mem => ih _ (uniform.2 row mem)⟩

end Keys

theorem compareSourceRows_eq (left right : Row) (orderBy : List OrderKey) :
    compareSourceRows left right orderBy =
      compareKeys Row.get left right (orderBy.map fun key => (key.field, key.descending)) := by
  induction orderBy with
  | nil => rfl
  | cons key keys ih =>
    rw [compareSourceRows, map_cons, compareKeys, ← ih]
    rfl

theorem compareTuples_eq (left right : List Value) (keyed : List (Nat × Bool)) :
    compareTuples left right keyed =
      compareKeys (fun tuple index => tuple.getD index .null) left right keyed := by
  induction keyed with
  | nil => rfl
  | cons key keyed ih =>
    rw [compareTuples, compareKeys, ← ih]
    rfl

/-! ## The two sorts -/

section Sorts

variable (runtime : Runtime)

variable {orderBy : List OrderKey} {outputs : List OutputColumn}

theorem sorted_orderRows {tuples : List (List Value)}
    (preorder : PreorderOn (compareTuples · · (keyedColumns orderBy outputs)) tuples) :
    Sorted (compareTuples · · (keyedColumns orderBy outputs))
      (orderRows runtime tuples orderBy outputs) := by
  unfold orderRows
  split
  · next empty =>
    obtain rfl := List.isEmpty_iff.mp empty
    exact pairwise_of_forall fun _ _ => nofun
  · exact runtime.sort.sorted preorder

/-- The columns and directions of an order. -/
def orderKeys (orderBy : List OrderKey) : List (String × Bool) :=
  orderBy.map fun key => (key.field, key.descending)

theorem preorderOn_sourceRows_iff (rows : List Row) :
    (∀ front, front <+: orderBy → PreorderOn (compareSourceRows · · front) rows) ↔
      TiedUniform Row.get rows (orderKeys orderBy) := by
  rw [← preorderOn_compareKeys_iff]
  simp only [compareSourceRows_eq, orderKeys, prefix_map_iff]
  constructor
  · rintro preorders _ ⟨front, le, rfl⟩
    exact preorders front le
  · exact fun preorders front le => preorders _ ⟨front, le, rfl⟩

theorem preorderOn_tuples_iff (tuples : List (List Value)) :
    (∀ front, front <+: orderBy →
      PreorderOn (compareTuples · · (keyedColumns front outputs)) tuples) ↔
      TiedUniform (fun tuple index => tuple.getD index .null) tuples
        (keyedColumns orderBy outputs) := by
  rw [← preorderOn_compareKeys_iff]
  simp only [compareTuples_eq, keyedColumns, prefix_filterMap_iff]
  constructor
  · rintro preorders _ ⟨front, le, rfl⟩
    exact preorders front le
  · exact fun preorders front le => preorders _ ⟨front, le, rfl⟩

/-- **When an order is sound.** Under a list of order keys and every leading part of
it, the comparison of rows is a total preorder and the result in order, just when each
key's column is uniform among the rows that tie on the keys before it; the same for
the comparison of aggregate tuples. -/
theorem orders_sound_iff (rows : List Row) (tuples : List (List Value)) (orderBy : List OrderKey)
    (outputs : List OutputColumn) :
    ((∀ front, front <+: orderBy → PreorderOn (compareSourceRows · · front) rows ∧
        Sorted (compareSourceRows · · front) (orderSourceRows runtime rows front)) ↔
      TiedUniform Row.get rows (orderKeys orderBy)) ∧
    ((∀ front, front <+: orderBy →
        PreorderOn (compareTuples · · (keyedColumns front outputs)) tuples ∧
          Sorted (compareTuples · · (keyedColumns front outputs))
            (orderRows runtime tuples front outputs)) ↔
      TiedUniform (fun tuple index => tuple.getD index .null) tuples
        (keyedColumns orderBy outputs)) := by
  rw [← preorderOn_sourceRows_iff, ← preorderOn_tuples_iff]
  constructor
  · refine forall₂_congr fun front _ => and_iff_left_of_imp fun preorder => ?_
    exact runtime.sort.sorted preorder
  · refine forall₂_congr fun front _ => and_iff_left_of_imp fun preorder => ?_
    exact sorted_orderRows runtime preorder

/-- A row without a group ties with two rows that do not tie. -/
theorem missing_group_ties_apart :
    let rows := [(⟨[("group", .str "b")]⟩ : Row), ⟨[]⟩, ⟨[("group", .str "a")]⟩]
    ¬ PreorderOn (compareSourceRows · · [⟨"group", false⟩]) rows ∧
      ¬ PreorderOn (compareTuples · · [(0, false)]) [[.str "b"], [.null], [.str "a"]] := by
  constructor
  · intro preorder
    exact preorder.trans ⟨[("group", .str "b")]⟩ (by decide) ⟨[]⟩ (by decide)
      ⟨[("group", .str "a")]⟩ (by decide) (by decide) (by decide) (by decide)
  · intro preorder
    exact preorder.trans [.str "b"] (by decide) [.null] (by decide) [.str "a"] (by decide)
      (by decide) (by decide) (by decide)

end Sorts

end Peryx.Pql
