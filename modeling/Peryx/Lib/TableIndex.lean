import Peryx.Lib.BTreeMap

/-!
# Tables and their indexes

A table of rows under ids, and an index where `entry id row` is the key and the
value a row has, if any. `Indexes` says that the index holds these entries and
no others, and that no two rows have one key. `unlink` and `link` are what a
write does to the index when a row leaves and when one comes.
-/

namespace Peryx

open BTreeMap Option Std.ExtTreeMap

universe u v w x

variable {κ : Type u} {α : Type v} {γ : Type w} {β : Type x} [Ord κ] [Std.TransOrd κ] [Ord γ]
  [Std.TransOrd γ]

/-- The index has the entries of the rows and no others, no two under one key. -/
structure Indexes (entry : κ → α → Option (γ × β)) (rows : BTreeMap κ α) (index : BTreeMap γ β) :
    Prop where
  unique : ∀ {i j : κ} {r s : α} {k : γ} {b c : β}, rows[i]? = some r → rows[j]? = some s →
    entry i r = some (k, b) → entry j s = some (k, c) → i = j
  exact : ∀ {k : γ} {b : β}, index[k]? = some b ↔
    ∃ (i : κ) (r : α), rows[i]? = some r ∧ entry i r = some (k, b)

namespace TableIndex

/-- The index without an entry. -/
def unlink (index : BTreeMap γ β) : Option (γ × β) → BTreeMap γ β
  | none => index
  | some (k, _) => index.erase k

/-- The index with an entry. -/
def link (index : BTreeMap γ β) : Option (γ × β) → BTreeMap γ β
  | none => index
  | some (k, b) => index.insert k b

end TableIndex

namespace Indexes

open TableIndex

variable {entry : κ → α → Option (γ × β)} {rows : BTreeMap κ α} {index : BTreeMap γ β}

theorem empty : Indexes entry ∅ ∅ where
  unique found := by cases (get_empty _).symm.trans found
  exact := by
    intro k b
    exact ⟨nofun, fun ⟨_, _, found, _⟩ => nomatch found⟩

variable {i : κ}

/-- The entry of a row is in the index. -/
theorem get (indexes : Indexes entry rows index) {r : α} {k : γ} {b : β}
    (found : rows[i]? = some r) (is : entry i r = some (k, b)) : index[k]? = some b :=
  indexes.exact.mpr ⟨i, r, found, is⟩

/-- The entry under `k` is that of the row under `i`, if there is either. -/
def Paired (entry : κ → α → Option (γ × β)) (rows : BTreeMap κ α) (i : κ) (k : γ) : Prop :=
  ∀ {j : κ} {s : α} {l : γ} {c : β}, rows[j]? = some s → entry j s = some (l, c) → (i = j ↔ k = l)

/-- A key that belongs to a row without an entry is free. -/
theorem absent_of_paired (indexes : Indexes entry rows index) {k : γ}
    (paired : Paired entry rows i k) (none : rows[i]?.bind (entry i) = none) :
    index[k]? = Option.none := by
  refine eq_none_iff_forall_ne_some.mpr fun c held => ?_
  obtain ⟨j, s, found, is⟩ := indexes.exact.mp held
  obtain rfl := (paired found is).mpr rfl
  rw [found, bind_some, is] at none
  cases none

variable [Std.LawfulEqOrd κ] [DecidableEq κ] [Std.LawfulEqOrd γ] [DecidableEq γ]

section

variable (indexes : Indexes entry rows index)

include indexes

/-- **Step.** A row goes, and its entry with it. -/
theorem erase (i : κ) :
    Indexes entry (rows.erase i) (unlink index (rows[i]?.bind (entry i))) where
  unique {a b r s k c d} first second := by
    rw [get_erase] at first second
    split at first
    · cases first
    · split at second
      · cases second
      · exact indexes.unique first second
  exact {k b} := by
    have kept : ∀ {j r}, (rows.erase i)[j]? = some r ↔ i ≠ j ∧ rows[j]? = some r := by
      intro j r
      rw [get_erase]
      split
      · next same => exact ⟨nofun, fun ⟨other, _⟩ => absurd same other⟩
      · next other => exact ⟨fun found => ⟨other, found⟩, And.right⟩
    simp only [kept]
    cases gone : rows[i]?.bind (entry i) with
    | none =>
      rw [unlink, indexes.exact]
      refine exists_congr fun j => exists_congr fun r => ⟨fun ⟨found, is⟩ => ⟨⟨?_, found⟩, is⟩,
        fun ⟨⟨_, found⟩, is⟩ => ⟨found, is⟩⟩
      rintro rfl
      rw [found, bind_some, is] at gone
      cases gone
    | some old =>
      obtain ⟨key, value⟩ := old
      obtain ⟨r, found, is⟩ := bind_eq_some_iff.mp gone
      rw [unlink, get_erase]
      by_cases same : key = k
      · rw [if_pos same]
        refine ⟨nofun, fun ⟨j, s, ⟨other, at'⟩, its⟩ => ?_⟩
        exact absurd (indexes.unique found at' is (same ▸ its)) other
      · rw [if_neg same, indexes.exact]
        refine exists_congr fun j => exists_congr fun s => ⟨fun ⟨at', its⟩ => ⟨⟨?_, at'⟩, its⟩,
          fun ⟨⟨_, at'⟩, its⟩ => ⟨at', its⟩⟩
        rintro rfl
        cases found.symm.trans at'
        cases is.symm.trans its
        exact same rfl

/-- **Step.** A row comes in under a new key. -/
theorem insert_of_absent (new : α) (absent : rows[i]? = none)
    (free : ∀ {k b}, entry i new = some (k, b) → index[k]? = none) :
    Indexes entry (rows.insert i new) (link index (entry i new)) := by
  have stored : ∀ {j r}, (rows.insert i new)[j]? = some r ↔
      i = j ∧ new = r ∨ rows[j]? = some r := by
    intro j r
    rw [get_insert]
    split
    · next same =>
      rw [← same, absent, some_inj]
      exact ⟨fun is => .inl ⟨rfl, is⟩, fun is => is.elim And.right nofun⟩
    · next other =>
      exact ⟨.inr, fun is => is.resolve_left fun ⟨same, _⟩ => other same⟩
  have apart : ∀ {j s k b c}, rows[j]? = some s → entry j s = some (k, b) →
      entry i new = some (k, c) → False := by
    intro j s k b c found is its
    cases (free its).symm.trans (indexes.get found is)
  refine ⟨fun {a b r s k c d} first second is its => ?_, fun {k b} => ?_⟩
  · obtain ⟨rfl, rfl⟩ | first := stored.mp first <;>
      obtain ⟨rfl, rfl⟩ | second := stored.mp second
    · rfl
    · exact (apart second its is).elim
    · exact (apart first is its).elim
    · exact indexes.unique first second is its
  · simp only [stored]
    have split : (∃ (j : κ) (r : α), (i = j ∧ new = r ∨ rows[j]? = some r) ∧
        entry j r = some (k, b)) ↔ entry i new = some (k, b) ∨ index[k]? = some b := by
      rw [indexes.exact]
      constructor
      · rintro ⟨j, r, ⟨rfl, rfl⟩ | found, is⟩
        · exact .inl is
        · exact .inr ⟨j, r, found, is⟩
      · rintro (is | ⟨j, r, found, is⟩)
        · exact ⟨i, new, .inl ⟨rfl, rfl⟩, is⟩
        · exact ⟨j, r, .inr found, is⟩
    rw [split]
    cases its : entry i new with
    | none => exact ⟨.inr, fun is => is.resolve_left nofun⟩
    | some made =>
      obtain ⟨key, value⟩ := made
      rw [link, get_insert]
      by_cases same : key = k
      · rw [if_pos same, some_inj, some_inj, ← same, free its, Prod.mk.injEq]
        exact ⟨fun is => .inl ⟨rfl, is⟩, fun is => is.elim And.right nofun⟩
      · rw [if_neg same, some_inj, Prod.mk.injEq]
        exact ⟨.inr, fun is => is.resolve_left fun ⟨is, _⟩ => same is⟩

/-- **Step.** A row takes the place of another. -/
theorem replace {old : α} (new : α) (found : rows[i]? = some old)
    (free : ∀ {k b j s c}, entry i new = some (k, b) → rows[j]? = some s →
      entry j s = some (k, c) → i = j) :
    Indexes entry (rows.insert i new) (link (unlink index (entry i old)) (entry i new)) := by
  have left := indexes.erase i
  rw [found, bind_some] at left
  have whole := left.insert_of_absent new (get_erase_self rows i) fun {k b} is =>
    eq_none_iff_forall_ne_some.mpr fun c held => by
      obtain ⟨j, s, at', its⟩ := left.exact.mp held
      obtain ⟨other, at'⟩ := of_get_erase at'
      exact other (free is at' its)
  have same : (rows.erase i).insert i new = rows.insert i new := by
    refine ext_getElem? fun a => ?_
    rw [get_insert, get_insert, get_erase]
    split <;> rfl
  rwa [same] at whole

/-- **Step.** A row changes and keeps its entry. -/
theorem update {old : α} (new : α)
    (found : rows[i]? = some old) (same : entry i new = entry i old) :
    Indexes entry (rows.insert i new) index := by
  have written := indexes.replace new found fun {k b j s c} is at' its =>
    indexes.unique found at' (same ▸ is) its
  have kept : link (unlink index (entry i old)) (entry i new) = index := by
    rw [same]
    cases is : entry i old with
    | none => rfl
    | some made => exact insert_erase (indexes.get found is)
  rwa [kept] at written

/-! ### Writes that name both keys

A write often names the key of the row and the key of its entry at once. It keeps
the index exact where the two keys go together. -/

/-- **Step.** A row and its entry are written, whatever was there. -/
theorem put {k : γ} {b : β} {new : α}
    (paired : Paired entry rows i k) (is : entry i new = some (k, b)) :
    Indexes entry (rows.insert i new) (index.insert k b) := by
  cases found : rows[i]? with
  | none =>
    have absent := indexes.absent_of_paired paired (by rw [found]; rfl)
    have made := indexes.insert_of_absent new found fun {l c} its => by
      cases is.symm.trans its
      exact absent
    rwa [is] at made
  | some old =>
    have made := indexes.replace new found fun {l c j s d} its at' other => by
      cases is.symm.trans its
      exact (paired at' other).mpr rfl
    rw [is] at made
    cases its : entry i old with
    | none => rwa [its] at made
    | some was =>
      obtain ⟨l, c⟩ := was
      obtain rfl := (paired found its).mp rfl
      have same : (index.erase k).insert k b = index.insert k b := by
        refine ext_getElem? fun a => ?_
        rw [get_insert, get_insert, get_erase]
        split <;> rfl
      rw [its] at made
      exact same ▸ made

/-- **Step.** A row and its entry are erased, if there. -/
theorem drop {k : γ}
    (paired : Paired entry rows i k) : Indexes entry (rows.erase i) (index.erase k) := by
  have left := indexes.erase i
  cases gone : rows[i]?.bind (entry i) with
  | none =>
    rw [gone] at left
    rwa [erase_of_absent (indexes.absent_of_paired paired gone)]
  | some was =>
    obtain ⟨l, c⟩ := was
    obtain ⟨old, found, is⟩ := bind_eq_some_iff.mp gone
    obtain rfl := (paired found is).mp rfl
    rwa [gone] at left

theorem put_none {new : α}
    (is : entry i new = none) (was : ∀ old, rows[i]? = some old → entry i old = none) :
    Indexes entry (rows.insert i new) index := by
  cases found : rows[i]? with
  | none =>
    have made := indexes.insert_of_absent new found fun {l c} its => by
      cases is.symm.trans its
    rwa [is] at made
  | some old => exact indexes.update new found (is.trans (was old found).symm)

theorem drop_none (was : ∀ old, rows[i]? = some old → entry i old = none) :
    Indexes entry (rows.erase i) index := by
  have left := indexes.erase i
  have gone : rows[i]?.bind (entry i) = none := by
    cases found : rows[i]? with
    | none => rfl
    | some old => exact was old found
  rwa [gone] at left

end

end Indexes

end Peryx
