import Peryx.Lib.Paging

/-!
# Ordered maps

`BTreeMap κ α` is the extensional search tree of the standard library under the
key type's own order. Two maps with the same lookups are equal, so a statement
about a map is a statement about its lookups, and the lemmas below put each
lookup in terms of key *equality*. `rangeAfter` is the scan a listing resumes
from the last key it was given.
-/

namespace Peryx

open List

universe u v

/-- Rust's `BTreeMap`: a finite map, listed in the order of its keys. -/
abbrev BTreeMap (κ : Type u) [Ord κ] (α : Type v) :=
  Std.ExtTreeMap κ α compare

namespace BTreeMap

variable {κ : Type u} {α : Type v} [Ord κ] [Std.TransOrd κ]

@[simp] theorem get_empty (k : κ) : (∅ : BTreeMap κ α)[k]? = none :=
  Std.ExtTreeMap.getElem?_empty

/-- No row is listed twice. -/
theorem nodup_toList (m : BTreeMap κ α) : m.toList.Nodup := by
  refine Std.ExtTreeMap.ordered_keys_toList.imp fun {a b} lt same => ?_
  have self : compare b.1 b.1 = .eq := Std.ReflCmp.compare_self
  rw [same, self] at lt
  cases lt

variable {m : BTreeMap κ α} {a k : κ} {v : α} {rows : List (κ × α)}

theorem isEmpty_eq_false_of_get (h : m[k]? = some v) : m.isEmpty = false := by
  rw [Std.ExtTreeMap.isEmpty_eq_false_iff]
  intro he
  rw [he, get_empty] at h
  cases h

theorem get_of_isEmpty (h : m.isEmpty = true) (k : κ) :
    m[k]? = none := by
  rw [Std.ExtTreeMap.isEmpty_iff.mp h, get_empty]

/-! ## Resuming a scan -/

/-- The rows after a key, or all of them. -/
def rangeAfter (m : BTreeMap κ α) : Option κ → List (κ × α)
  | none => m.toList
  | some after => m.toList.filter fun row => compare after row.1 = .lt

/-- The scan after a row that was reached goes on behind it. -/
theorem rangeAfter_resume {after : Option κ} {taken rest : List (κ × α)}
    {last : κ × α} (h : m.rangeAfter after = taken ++ last :: rest) :
    m.rangeAfter (some last.1) = rest := by
  exact Paging.after_resume Std.ExtTreeMap.ordered_keys_toList h

variable [Std.LawfulEqOrd κ]

/-- A lookup in a filtered map filters what it finds. -/
@[simp] theorem get_filter (m : BTreeMap κ α) (p : κ → α → Bool) (a : κ) :
    (m.filter p)[a]? = m[a]?.filter (p a) :=
  Std.ExtTreeMap.getElem?_filter'

@[simp] theorem get_map {β : Type v} (m : BTreeMap κ α) (f : κ → α → β) (a : κ) :
    (m.map f)[a]? = m[a]?.map (f a) :=
  Std.ExtTreeMap.getElem?_map

/-- A map is not changed by a function that fixes each of its rows. -/
theorem map_eq_self {f : κ → α → α}
    (h : ∀ (k : κ) (v : α), m[k]? = some v → f k v = v) : m.map f = m := by
  refine Std.ExtTreeMap.ext_getElem? fun k => ?_
  rw [get_map]
  cases hk : m[k]? with
  | none => rfl
  | some v => exact congrArg some (h k v hk)

/-- Nothing is found where the test fails on every row. -/
theorem find_eq_none {p : κ × α → Bool} (h : ∀ (k : κ) (v : α), m[k]? = some v → p (k, v) = false) :
    m.toList.find? p = none := by
  rw [find?_eq_none]
  rintro ⟨k, v⟩ hk
  rw [h k v (Std.ExtTreeMap.mem_toList_iff_getElem?_eq_some.mp hk)]
  exact Bool.false_ne_true

/-! ## The values of a map -/

/-- The values a map holds, whatever their keys. -/
def valueSet [DecidableEq α] (m : BTreeMap κ α) : Finset α :=
  (m.toList.map (·.2)).toFinset

/-- Membership, by lookups. -/
theorem mem_valueSet [DecidableEq α] :
    v ∈ m.valueSet ↔ ∃ k : κ, m[k]? = some v := by
  rw [valueSet, mem_toFinset, mem_map]
  constructor
  · rintro ⟨⟨k, _⟩, mem, rfl⟩
    exact ⟨k, Std.ExtTreeMap.mem_toList_iff_getElem?_eq_some.mp mem⟩
  · rintro ⟨k, found⟩
    exact ⟨(k, v), Std.ExtTreeMap.mem_toList_iff_getElem?_eq_some.mpr found, rfl⟩

/-- A map is listed as the ordered rows that its lookups give. -/
theorem toList_eq_of_ordered (ordered : rows.Pairwise fun a b => compare a.1 b.1 = .lt)
    (same : ∀ k v, m[k]? = some v ↔ (k, v) ∈ rows) : m.toList = rows := by
  have distinct : rows.Nodup := by
    refine ordered.imp fun {a b} lt same => ?_
    have self : compare b.1 b.1 = .eq := Std.ReflCmp.compare_self
    rw [same, self] at lt
    cases lt
  refine List.Perm.eq_of_pairwise ?_ Std.ExtTreeMap.ordered_keys_toList ordered
    ((perm_ext_iff_of_nodup (nodup_toList m) distinct).mpr ?_)
  · intro a b _ _ lt gt
    rw [Std.OrientedCmp.gt_of_lt lt] at gt
    cases gt
  · rintro ⟨k, v⟩
    rw [Std.ExtTreeMap.mem_toList_iff_getElem?_eq_some, same]

/-- From a row on, an ordered list is its tail. -/
theorem filter_from_eq_drop
    (ordered : rows.Pairwise fun a b => compare a.1 b.1 = .lt) {n : Nat} {row : κ × α}
    (at' : rows[n]? = some row) :
    rows.filter (fun r => compare r.1 row.1 ≠ .lt) = rows.drop n := by
  have split := take_append_drop n rows
  have ordered' := ordered
  rw [← split, pairwise_append] at ordered'
  have head : rows.drop n = row :: rows.drop (n + 1) := by
    obtain ⟨bound, rfl⟩ := List.getElem?_eq_some_iff.mp at'
    exact drop_eq_getElem_cons bound
  have before : (rows.take n).filter (fun r => compare r.1 row.1 ≠ .lt) = [] := by
    refine filter_eq_nil_iff.mpr fun r mem => ?_
    have less := ordered'.2.2 r mem row (head ▸ mem_cons_self)
    simp [less]
  have after : (rows.drop n).filter (fun r => compare r.1 row.1 ≠ .lt) = rows.drop n := by
    refine filter_eq_self.mpr fun r mem => ?_
    have tail := ordered'.2.1
    rw [head, pairwise_cons] at tail
    rw [head, mem_cons] at mem
    refine decide_eq_true fun less => ?_
    obtain rfl | mem := mem
    · have self : compare r.1 r.1 = .eq := Std.ReflCmp.compare_self
      rw [self] at less
      cases less
    · rw [Std.OrientedCmp.gt_of_lt (tail.1 r mem)] at less
      cases less
  conv_lhs => rw [← split]
  rw [filter_append, before, after, nil_append]

variable [DecidableEq κ]

/-! ## Lookups after a change -/

/-- Lookups after an insertion. -/
theorem get_insert (m : BTreeMap κ α) (k a : κ) (v : α) :
    (m.insert k v)[a]? = if k = a then some v else m[a]? := by
  rw [Std.ExtTreeMap.getElem?_insert]
  simp only [Std.LawfulEqCmp.compare_eq_iff_eq]

@[simp] theorem get_insert_self (m : BTreeMap κ α) (k : κ) (v : α) :
    (m.insert k v)[k]? = some v := by
  rw [get_insert, if_pos rfl]

theorem get_insert_of_ne (m : BTreeMap κ α) (v : α) (h : k ≠ a) :
    (m.insert k v)[a]? = m[a]? := by
  rw [get_insert, if_neg h]

/-- Lookups after an erasure. -/
theorem get_erase (m : BTreeMap κ α) (k a : κ) :
    (m.erase k)[a]? = if k = a then none else m[a]? := by
  rw [Std.ExtTreeMap.getElem?_erase]
  simp only [Std.LawfulEqCmp.compare_eq_iff_eq]

@[simp] theorem get_erase_self (m : BTreeMap κ α) (k : κ) :
    (m.erase k)[k]? = none := by
  rw [get_erase, if_pos rfl]

theorem get_erase_of_ne (m : BTreeMap κ α) (h : k ≠ a) :
    (m.erase k)[a]? = m[a]? := by
  rw [get_erase, if_neg h]

/-- What is found after an insertion is new, or was there. -/
theorem of_get_insert {w : α}
    (found : (m.insert k v)[a]? = some w) : k = a ∧ v = w ∨ k ≠ a ∧ m[a]? = some w := by
  rw [get_insert] at found
  split at found
  · next same => exact .inl ⟨same, Option.some.inj found⟩
  · next other => exact .inr ⟨other, found⟩

/-- What is found after an erasure was there, under another key. -/
theorem of_get_erase {w : α} (found : (m.erase k)[a]? = some w) :
    k ≠ a ∧ m[a]? = some w := by
  rw [get_erase] at found
  split at found
  · cases found
  · next other => exact ⟨other, found⟩

theorem getD_insert (m : BTreeMap κ α) (k a : κ) (v d : α) :
    (m.insert k v).getD a d = if k = a then v else m.getD a d := by
  rw [Std.ExtTreeMap.getD_insert]
  simp only [Std.LawfulEqCmp.compare_eq_iff_eq]

theorem getD_erase (m : BTreeMap κ α) (k a : κ) (d : α) :
    (m.erase k).getD a d = if k = a then d else m.getD a d := by
  rw [Std.ExtTreeMap.getD_erase]
  simp only [Std.LawfulEqCmp.compare_eq_iff_eq]

/-- Ordered rows, inserted one by one, are listed as they are. -/
theorem toList_foldl_insert (ordered : rows.Pairwise fun a b => compare a.1 b.1 = .lt) :
    (rows.foldl (fun (m : BTreeMap κ α) row => m.insert row.1 row.2) ∅).toList = rows := by
  have distinct : rows.Pairwise fun a b => ¬ compare a.1 b.1 = .eq :=
    ordered.imp fun lt eq => by rw [eq] at lt; cases lt
  rw [← Std.ExtTreeMap.insertMany_list_eq_foldl]
  refine toList_eq_of_ordered ordered fun k v => ?_
  have present : ∀ {v}, (k, v) ∈ rows → ((∅ : BTreeMap κ α).insertMany rows)[k]? = some v :=
    fun mem => Std.ExtTreeMap.getElem?_insertMany_list_of_mem Std.ReflCmp.compare_self distinct mem
  refine ⟨fun found => ?_, present⟩
  by_cases mem : k ∈ rows.map Prod.fst
  · obtain ⟨⟨key, w⟩, hw, rfl⟩ := mem_map.mp mem
    cases (present hw).symm.trans found
    exact hw
  · have absent : (rows.map Prod.fst).contains k = false := by
      rw [contains_eq_mem, decide_eq_false_iff_not]
      exact mem
    rw [Std.ExtTreeMap.getElem?_insertMany_list_of_contains_eq_false absent, get_empty] at found
    cases found

/-- A key above all others is listed last. -/
theorem toList_insert_last (last : ∀ row ∈ m.toList, compare row.1 k = .lt) :
    (m.insert k v).toList = m.toList ++ [(k, v)] := by
  refine toList_eq_of_ordered (pairwise_append.mpr ⟨Std.ExtTreeMap.ordered_keys_toList,
    pairwise_singleton _ _, fun row mem row' is => ?_⟩) fun a w => ?_
  · rw [mem_singleton.mp is]
    exact last row mem
  · rw [Std.ExtTreeMap.getElem?_insert, mem_append, mem_singleton, Prod.mk.injEq,
      Std.ExtTreeMap.mem_toList_iff_getElem?_eq_some]
    by_cases same : k = a
    · subst same
      have absent : m[k]? ≠ some w := fun found => by
        have less := last (k, w) (Std.ExtTreeMap.mem_toList_iff_getElem?_eq_some.mpr found)
        have self : compare k k = .eq := Std.ReflCmp.compare_self
        rw [self] at less
        cases less
      rw [if_pos Std.ReflCmp.compare_self, Option.some_inj]
      exact ⟨fun is => .inr ⟨rfl, is.symm⟩, fun is => (is.resolve_left absent).2.symm⟩
    · rw [if_neg (fun is => same (Std.LawfulEqCmp.eq_of_compare is))]
      exact ⟨.inl, fun is => is.resolve_right fun both => same both.1.symm⟩

/-- The rows of a map make it up again. -/
theorem foldl_insert_toList (m : BTreeMap κ α) :
    m.toList.foldl (fun rows row => rows.insert row.1 row.2) ∅ = m :=
  Std.ExtTreeMap.toList_inj.mp (toList_foldl_insert Std.ExtTreeMap.ordered_keys_toList)

/-- A row that is taken out and put back leaves the map as it was. -/
theorem insert_erase (found : m[k]? = some v) :
    (m.erase k).insert k v = m := by
  refine Std.ExtTreeMap.ext_getElem? fun a => ?_
  rw [get_insert, get_erase]
  by_cases same : k = a
  · rw [if_pos same, ← found, same]
  · rw [if_neg same, if_neg same]

theorem erase_of_absent (absent : m[k]? = none) : m.erase k = m := by
  refine Std.ExtTreeMap.ext_getElem? fun a => ?_
  rw [get_erase]
  by_cases same : k = a
  · rw [if_pos same, ← absent, same]
  · rw [if_neg same]

/-- The rows after an insertion, in some order. -/
theorem toList_insert_perm (m : BTreeMap κ α) (k : κ) (v : α) :
    (m.insert k v).toList.Perm ((k, v) :: (m.erase k).toList) := by
  have new : (k, v) ∉ (m.erase k).toList := by
    rw [Std.ExtTreeMap.mem_toList_iff_getElem?_eq_some, get_erase_self]
    exact nofun
  refine (perm_ext_iff_of_nodup (nodup_toList _) (nodup_cons.mpr ⟨new, nodup_toList _⟩)).mpr ?_
  rintro ⟨a, w⟩
  rw [Std.ExtTreeMap.mem_toList_iff_getElem?_eq_some, get_insert, mem_cons,
    Std.ExtTreeMap.mem_toList_iff_getElem?_eq_some, get_erase, Prod.mk.injEq]
  by_cases same : k = a
  · simp [same, eq_comm]
  · simp [same, Ne.symm same]

/-- The rows before an erasure, in some order. -/
theorem toList_erase_perm (found : m[k]? = some v) :
    m.toList.Perm ((k, v) :: (m.erase k).toList) := by
  have whole := toList_insert_perm (m.erase k) k v
  rwa [insert_erase found, erase_of_absent (get_erase_self m k)] at whole

/-- The values after an insertion. -/
theorem valueSet_insert [DecidableEq α] (m : BTreeMap κ α) (k : κ) (v : α) :
    valueSet (m.insert k v) = insert v (valueSet (m.erase k)) := by
  ext w
  simp only [Finset.mem_insert, mem_valueSet, get_insert, get_erase]
  constructor
  · rintro ⟨a, found⟩
    by_cases same : k = a
    · rw [if_pos same] at found
      exact .inl (Option.some.inj found).symm
    · rw [if_neg same] at found
      exact .inr ⟨a, by rw [if_neg same, found]⟩
  · rintro (rfl | ⟨a, found⟩)
    · exact ⟨k, if_pos rfl⟩
    · by_cases same : k = a
      · rw [if_pos same] at found
        cases found
      · rw [if_neg same] at found
        exact ⟨a, by rw [if_neg same, found]⟩

end BTreeMap

/-! ## Ordered sets -/

namespace BTreeSet

variable {κ : Type u} [Ord κ] [Std.TransOrd κ] [Std.LawfulEqOrd κ]

theorem mem_insert {s : Std.ExtTreeSet κ compare} {k a : κ} : a ∈ s.insert k ↔ k = a ∨ a ∈ s := by
  rw [Std.ExtTreeSet.mem_insert, Std.LawfulEqCmp.compare_eq_iff_eq]

theorem mem_erase {s : Std.ExtTreeSet κ compare} {k a : κ} : a ∈ s.erase k ↔ k ≠ a ∧ a ∈ s := by
  rw [Std.ExtTreeSet.mem_erase, ne_eq, Std.LawfulEqCmp.compare_eq_iff_eq]

/-- The elements of a set make it up again. -/
theorem foldl_insert_toList (s : Std.ExtTreeSet κ compare) :
    s.toList.foldl (·.insert ·) ∅ = s := by
  have folded : ∀ (l : List κ) (t : Std.ExtTreeSet κ compare) (k : κ),
      k ∈ l.foldl (·.insert ·) t ↔ k ∈ t ∨ k ∈ l := by
    intro l
    induction l with
    | nil => simp
    | cons a l ih =>
      intro t k
      rw [foldl_cons, ih, Std.ExtTreeSet.mem_insert, mem_cons,
        Std.LawfulEqCmp.compare_eq_iff_eq, eq_comm]
      tauto
  refine Std.ExtTreeSet.ext_mem fun k => ?_
  rw [folded, Std.ExtTreeSet.mem_toList]
  simp

end BTreeSet

end Peryx
