import Peryx.Lib.BTreeMap

/-!
# Absorbing keyed entries once

A receiver folds entries into a table by key, and takes of several that go by
one name only the first.
-/

namespace Peryx

open List

universe u v w

section Absorb

variable {κ : Type u} {α : Type v} {β : Type w} [Ord κ] [Std.TransOrd κ] [Std.LawfulEqOrd κ]

/-- An entry joins what its key holds. -/
def absorb (f : Option α → β → α) (m : BTreeMap κ α) (entry : κ × β) : BTreeMap κ α :=
  m.insert entry.1 (f m[entry.1]? entry.2)

variable [DecidableEq κ] {f : Option α → β → α}

theorem get_absorb (m : BTreeMap κ α) (entry : κ × β) (k : κ) :
    (absorb f m entry)[k]? = if entry.1 = k then some (f m[k]? entry.2) else m[k]? := by
  rw [absorb, BTreeMap.get_insert]
  by_cases same : entry.1 = k
  · rw [if_pos same, if_pos same, same]
  · rw [if_neg same, if_neg same]

/-- A key holds what its own entries come to. -/
theorem get_foldl_absorb (entries : List (κ × β)) (m : BTreeMap κ α) (k : κ) :
    (entries.foldl (absorb f) m)[k]? =
      ((entries.filter (·.1 = k)).map (·.2)).foldl (fun held b => some (f held b)) m[k]? := by
  induction entries generalizing m with
  | nil => rfl
  | cons entry entries ih =>
    rw [foldl_cons, ih, get_absorb]
    by_cases same : entry.1 = k
    · rw [if_pos same, filter_cons_of_pos (by simpa using same), map_cons, foldl_cons]
    · rw [if_neg same, filter_cons_of_neg (by simpa using same)]

theorem absorb_right_comm (comm : ∀ held a b, f (some (f held a)) b = f (some (f held b)) a) :
    RightCommutative (absorb (κ := κ) f) where
  right_comm m a b := by
    refine Std.ExtTreeMap.ext_getElem? fun k => ?_
    rw [get_absorb, get_absorb, get_absorb, get_absorb]
    by_cases ha : a.1 = k <;> by_cases hb : b.1 = k <;> simp only [ha, hb, if_true, if_false]
    rw [comm]

/-- Entries that commute may come in any order. -/
theorem foldl_absorb_perm (comm : ∀ held a b, f (some (f held a)) b = f (some (f held b)) a)
    {entries entries' : List (κ × β)} (perm : entries.Perm entries') (m : BTreeMap κ α) :
    entries.foldl (absorb f) m = entries'.foldl (absorb f) m :=
  haveI := absorb_right_comm (κ := κ) comm
  perm.foldl_eq m

end Absorb

section Firsts

variable {α : Type u} {κ : Type v} [DecidableEq κ] (name : α → κ)

/-- The first element of each name. -/
def firsts (xs : List α) : List α :=
  xs.foldl (fun taken x => if name x ∈ taken.map name then taken else taken ++ [x]) []

theorem firsts_concat (xs : List α) (x : α) :
    firsts name (xs ++ [x]) =
      if name x ∈ (firsts name xs).map name then firsts name xs else firsts name xs ++ [x] := by
  rw [firsts, foldl_append]
  rfl

theorem firsts_subset (xs : List α) : firsts name xs ⊆ xs := by
  induction xs using reverseRecOn with
  | nil => exact List.Subset.refl _
  | append_singleton xs x ih =>
    rw [firsts_concat]
    split
    · exact subset_append_of_subset_left _ ih
    · exact append_subset.mpr ⟨subset_append_of_subset_left _ ih, subset_append_right _ _⟩

theorem nodup_names_firsts (xs : List α) : ((firsts name xs).map name).Nodup := by
  induction xs using reverseRecOn with
  | nil => exact nodup_nil
  | append_singleton xs x ih =>
    rw [firsts_concat]
    split
    · exact ih
    · rename_i new
      rw [map_append, map_singleton, nodup_append]
      refine ⟨ih, nodup_singleton _, ?_⟩
      rintro _ mem _ here rfl
      cases mem_singleton.mp here
      exact new mem

/-- No name is missing. -/
theorem mem_names_firsts {xs : List α} {k : κ} :
    k ∈ (firsts name xs).map name ↔ k ∈ xs.map name := by
  refine ⟨fun mem => map_subset name (firsts_subset name xs) mem, ?_⟩
  induction xs using reverseRecOn with
  | nil => exact id
  | append_singleton xs x ih =>
    intro mem
    rw [map_append, mem_append] at mem
    rw [firsts_concat]
    split
    · rename_i known
      obtain mem | mem := mem
      · exact ih mem
      · cases mem_singleton.mp mem
        exact known
    · rw [map_append, mem_append]
      exact mem.imp_left ih

variable {name} {xs ys : List α}

/-- Which names there are decides which come first. -/
theorem names_firsts_perm (same : ∀ k, k ∈ xs.map name ↔ k ∈ ys.map name) :
    ((firsts name xs).map name).Perm ((firsts name ys).map name) := by
  refine (perm_ext_iff_of_nodup (nodup_names_firsts name xs)
    (nodup_names_firsts name ys)).mpr fun k => ?_
  rw [mem_names_firsts, mem_names_firsts, same]

/-- Where a name has one element, which elements there are decides all. -/
theorem firsts_perm (same : ∀ x, x ∈ xs ↔ x ∈ ys)
    (one : ∀ x ∈ xs, ∀ y ∈ xs, name x = name y → x = y) :
    (firsts name xs).Perm (firsts name ys) := by
  have all : ∀ {zs : List α}, (∀ x, x ∈ xs ↔ x ∈ zs) → ∀ x, x ∈ firsts name zs ↔ x ∈ xs := by
    intro zs same x
    refine ⟨fun mem => (same x).mpr (firsts_subset name zs mem), fun mem => ?_⟩
    have named := (mem_names_firsts name).mpr (mem_map_of_mem (f := name) ((same x).mp mem))
    obtain ⟨y, first, names⟩ := mem_map.mp named
    have here := (same y).mpr (firsts_subset name zs first)
    exact one y here x mem names ▸ first
  refine (perm_ext_iff_of_nodup (nodup_names_firsts name xs).of_map
    (nodup_names_firsts name ys).of_map).mpr fun x => ?_
  rw [all (fun _ => Iff.rfl), all same]

end Firsts

end Peryx
