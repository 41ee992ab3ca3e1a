import Mathlib

/-!
# Stable sorting by a comparison

What a library's stable sort promises of a comparison function, and what
follows from the promises alone.
-/

namespace Peryx

open List

variable {α β : Type} {cmp : α → α → Ordering} {l : List α}

structure PreorderOn (cmp : α → α → Ordering) (l : List α) : Prop where
  swap : ∀ a ∈ l, ∀ b ∈ l, cmp b a = (cmp a b).swap
  trans : ∀ a ∈ l, ∀ b ∈ l, ∀ c ∈ l, cmp a b ≠ .gt → cmp b c ≠ .gt → cmp a c ≠ .gt

/-- No member comes before one that the comparison puts strictly before it. -/
def Sorted (cmp : α → α → Ordering) (l : List α) : Prop :=
  l.Pairwise fun a b => cmp a b ≠ .gt

structure StableSort where
  sort : {α : Type} → (α → α → Ordering) → List α → List α
  perm : ∀ {α : Type} (cmp : α → α → Ordering) (l : List α), (sort cmp l).Perm l
  map : ∀ {α β : Type} (f : α → β) (cmp : β → β → Ordering) (l : List α),
    (sort (fun a b => cmp (f a) (f b)) l).map f = sort cmp (l.map f)
  sorted : ∀ {α : Type} {cmp : α → α → Ordering} {l : List α}, PreorderOn cmp l →
    Sorted cmp (sort cmp l)
  stable : ∀ {α : Type} {cmp : α → α → Ordering} {l : List α}, PreorderOn cmp l →
    ∀ a ∈ l, (sort cmp l).filter (cmp a · = .eq) = l.filter (cmp a · = .eq)

namespace PreorderOn

variable {l' : List α}

section

variable (preorder : PreorderOn cmp l)

include preorder

theorem mono (sub : l' ⊆ l) : PreorderOn cmp l' where
  swap a ha b hb := preorder.swap a (sub ha) b (sub hb)
  trans a ha b hb c hc := preorder.trans a (sub ha) b (sub hb) c (sub hc)

theorem refl {a : α} (ha : a ∈ l) : cmp a a = .eq := by
  have swap := preorder.swap a ha a ha
  cases self : cmp a a <;> rw [self] at swap <;> first | rfl | cases swap

theorem eq_symm {a b : α} (ha : a ∈ l) (hb : b ∈ l) (eq : cmp a b = .eq) : cmp b a = .eq := by
  rw [preorder.swap a ha b hb, eq]
  rfl

theorem eq_of_le_of_ge {a b : α} (ha : a ∈ l) (hb : b ∈ l)
    (le : cmp a b ≠ .gt) (ge : cmp b a ≠ .gt) : cmp a b = .eq := by
  rw [preorder.swap a ha b hb] at ge
  cases found : cmp a b with
  | eq => rfl
  | gt => exact absurd found le
  | lt => exact absurd (by rw [found]; rfl) ge

theorem eq_trans {a b c : α} (ha : a ∈ l) (hb : b ∈ l) (hc : c ∈ l)
    (ab : cmp a b = .eq) (bc : cmp b c = .eq) : cmp a c = .eq := by
  refine preorder.eq_of_le_of_ge ha hc (preorder.trans a ha b hb c hc ?_ ?_)
    (preorder.trans c hc b hb a ha ?_ ?_)
  · exact ab ▸ nofun
  · exact bc ▸ nofun
  · exact preorder.eq_symm hb hc bc ▸ nofun
  · exact preorder.eq_symm ha hb ab ▸ nofun

theorem reverse :
    PreorderOn (fun a b => (cmp a b).swap) l where
  swap a ha b hb := congrArg Ordering.swap (preorder.swap a ha b hb)
  trans a ha b hb c hc hab hbc := by
    have le := preorder.trans c hc b hb a ha (by rwa [preorder.swap b hb c hc])
      (by rwa [preorder.swap a ha b hb])
    rwa [← preorder.swap a ha c hc]

end

/-- A comparison that breaks the ties of another needs to be a preorder only among
members that tie. -/
theorem lex {cmp' : α → α → Ordering} (first : PreorderOn cmp l)
    (second : ∀ a ∈ l, PreorderOn cmp' (l.filter (cmp a · = .eq))) :
    PreorderOn (fun a b => (cmp a b).then (cmp' a b)) l where
  swap a ha b hb := by
    rw [Ordering.swap_then, first.swap a ha b hb]
    by_cases tied : cmp a b = .eq
    · rw [(second a ha).swap a (mem_filter.mpr ⟨ha, by simpa using first.refl ha⟩) b
        (mem_filter.mpr ⟨hb, by simpa using tied⟩)]
    · cases found : cmp a b <;> first | rfl | exact absurd found tied
  trans a ha b hb c hc hab hbc := by
    simp only [ne_eq, Ordering.then_eq_gt, not_or, not_and] at hab hbc ⊢
    refine ⟨first.trans a ha b hb c hc hab.1 hbc.1, fun tied => ?_⟩
    -- the first comparison puts `b` between `a` and `c`, which tie
    have back := first.eq_symm ha hc tied
    have ab : cmp a b = .eq := first.eq_of_le_of_ge ha hb hab.1
      (first.trans b hb c hc a ha hbc.1 (by rw [back]; exact nofun))
    have bc : cmp b c = .eq := first.eq_of_le_of_ge hb hc hbc.1
      (first.trans c hc a ha b hb (by rw [back]; exact nofun) hab.1)
    have ties {x : α} (hx : x ∈ l) (eq : cmp a x = .eq) : x ∈ l.filter (cmp a · = .eq) :=
      mem_filter.mpr ⟨hx, by simpa using eq⟩
    exact (second a ha).trans a (ties ha (first.refl ha)) b (ties hb ab) c (ties hc tied)
      (hab.2 ab) (hbc.2 bc)

theorem flatMap {keys : List β} {members : β → List α} {cmpKey : β → β → Ordering}
    (preorder : PreorderOn cmpKey keys)
    (compares : ∀ a ∈ keys, ∀ b ∈ keys, ∀ x ∈ members a, ∀ y ∈ members b,
      cmp x y = cmpKey a b) : PreorderOn cmp (keys.flatMap members) where
  swap x hx y hy := by
    obtain ⟨a, ha, hx⟩ := mem_flatMap.mp hx
    obtain ⟨b, hb, hy⟩ := mem_flatMap.mp hy
    rw [compares a ha b hb x hx y hy, compares b hb a ha y hy x hx]
    exact preorder.swap a ha b hb
  trans x hx y hy z hz := by
    obtain ⟨a, ha, hx⟩ := mem_flatMap.mp hx
    obtain ⟨b, hb, hy⟩ := mem_flatMap.mp hy
    obtain ⟨c, hc, hz⟩ := mem_flatMap.mp hz
    rw [compares a ha b hb x hx y hy, compares b hb c hc y hy z hz, compares a ha c hc x hx z hz]
    exact preorder.trans a ha b hb c hc

theorem of_map {f : β → α} {l : List β} (preorder : PreorderOn cmp (l.map f)) :
    PreorderOn (fun a b => cmp (f a) (f b)) l where
  swap _ ha _ hb := preorder.swap _ (mem_map_of_mem ha) _ (mem_map_of_mem hb)
  trans _ ha _ hb _ hc := preorder.trans _ (mem_map_of_mem ha) _ (mem_map_of_mem hb)
    _ (mem_map_of_mem hc)

theorem map {f : β → α} {l : List β} (preorder : PreorderOn (fun a b => cmp (f a) (f b)) l) :
    PreorderOn cmp (l.map f) where
  swap := by
    simp only [forall_mem_map]
    exact preorder.swap
  trans := by
    simp only [forall_mem_map]
    exact preorder.trans

end PreorderOn

section Unique

theorem Sorted.head_le {a : α} (preorder : PreorderOn cmp (a :: l))
    (sorted : Sorted cmp (a :: l)) {b : α} (mem : b ∈ a :: l) : cmp a b ≠ .gt := by
  obtain rfl | mem := mem_cons.mp mem
  · rw [preorder.refl mem_cons_self]
    exact nofun
  · exact (pairwise_cons.mp sorted).1 b mem

theorem eq_of_sorted {l' : List α} (preorder : PreorderOn cmp l) (perm : l.Perm l')
    (sorted : Sorted cmp l) (sorted' : Sorted cmp l')
    (ties : ∀ a ∈ l, l.filter (cmp a · = .eq) = l'.filter (cmp a · = .eq)) : l = l' := by
  induction l generalizing l' with
  | nil => exact perm.nil_eq
  | cons a l ih =>
    cases l' with
    | nil => exact absurd perm.eq_nil (cons_ne_nil a l)
    | cons b l' =>
      have preorder' : PreorderOn cmp (b :: l') := preorder.mono perm.symm.subset
      have ha : a ∈ a :: l := mem_cons_self
      have hb : b ∈ a :: l := perm.mem_iff.mpr mem_cons_self
      -- both lists begin with a least member, and ties come in one order
      have tied : cmp a b = .eq := preorder.eq_of_le_of_ge ha hb (sorted.head_le preorder hb)
        (sorted'.head_le preorder' (perm.mem_iff.mp ha))
      have heads := ties a ha
      rw [filter_cons_of_pos (by simpa using preorder.refl ha),
        filter_cons_of_pos (by simpa using tied)] at heads
      obtain ⟨rfl, tails⟩ := List.cons.inj heads
      refine congrArg (a :: ·) ?_
      refine ih (preorder.mono (subset_cons_self a l)) (perm.cons_inv)
        (pairwise_cons.mp sorted).2 (pairwise_cons.mp sorted').2 fun c hc => ?_
      have whole := ties c (mem_cons_of_mem a hc)
      rw [filter_cons, filter_cons] at whole
      split at whole
      · exact (List.cons.inj whole).2
      · exact whole

end Unique

namespace StableSort

variable (S : StableSort)

theorem mem_sort {a : α} : a ∈ S.sort cmp l ↔ a ∈ l :=
  (S.perm cmp l).mem_iff

theorem sort_eq_self (preorder : PreorderOn cmp l) (sorted : Sorted cmp l) :
    S.sort cmp l = l := by
  have same := (S.perm cmp l).subset
  refine eq_of_sorted (preorder.mono same) (S.perm cmp l) (S.sorted preorder) sorted ?_
  exact fun a mem => S.stable preorder a (same mem)

/-- Groups that compare by their keys are sorted as groups. -/
theorem sort_flatMap {keys : List β} {members : β → List α} {cmpKey : β → β → Ordering}
    (preorder : PreorderOn cmpKey keys)
    (compares : ∀ a ∈ keys, ∀ b ∈ keys, ∀ x ∈ members a, ∀ y ∈ members b,
      cmp x y = cmpKey a b) :
    S.sort cmp (keys.flatMap members) = (S.sort cmpKey keys).flatMap members := by
  have preorder' := preorder.flatMap compares
  have perm : ((S.sort cmpKey keys).flatMap members).Perm (keys.flatMap members) :=
    (S.perm cmpKey keys).flatMap_right members
  have sorted : Sorted cmp ((S.sort cmpKey keys).flatMap members) := by
    refine pairwise_flatMap.mpr ⟨fun a ha => ?_, ?_⟩
    · have ha := S.mem_sort.mp ha
      refine pairwise_of_forall_mem_list fun x hx y hy => ?_
      rw [compares a ha a ha x hx y hy, preorder.refl ha]
      exact nofun
    · refine (S.sorted preorder).imp_of_mem fun {a b} ha hb le x hx y hy => ?_
      rwa [compares a (S.mem_sort.mp ha) b (S.mem_sort.mp hb) x hx y hy]
  refine eq_of_sorted (preorder'.mono (S.perm cmp _).subset)
    ((S.perm cmp _).trans perm.symm) (S.sorted preorder') sorted fun x hx => ?_
  have hx := S.mem_sort.mp hx
  rw [S.stable preorder' x hx]
  obtain ⟨a, ha, hx⟩ := mem_flatMap.mp hx
  -- the members that tie with `x` are those of the keys that tie with its key
  have ties : ∀ l ⊆ keys, (l.flatMap members).filter (cmp x · = .eq) =
      (l.filter (cmpKey a · = .eq)).flatMap members := by
    intro l sub
    induction l with
    | nil => rfl
    | cons b l ih =>
      have hb := sub mem_cons_self
      rw [flatMap_cons, filter_append, ih (List.Subset.trans (subset_cons_self b l) sub)]
      by_cases tie : cmpKey a b = .eq
      · rw [filter_cons_of_pos (by simpa using tie), flatMap_cons]
        congr 1
        refine filter_eq_self.mpr fun y hy => ?_
        rw [compares a ha b hb x hx y hy]
        exact decide_eq_true tie
      · rw [filter_cons_of_neg (by simpa using tie)]
        have none : (members b).filter (cmp x · = .eq) = [] := by
          refine filter_eq_nil_iff.mpr fun y hy => ?_
          rw [compares a ha b hb x hx y hy]
          simpa using tie
        rw [none, nil_append]
  rw [ties keys (List.Subset.refl _), ties _ (S.perm cmpKey keys).subset, S.stable preorder a ha]

/-! ## Merge sort -/

/-- `a` may come before `b`. -/
def before (cmp : α → α → Ordering) (a b : α) : Bool := cmp a b ≠ .gt

theorem filter_mergeSort {le : α → α → Bool}
    (trans : ∀ a b c, le a b = true → le b c = true → le a c = true)
    (total : ∀ a b, (le a b || le b a) = true) {p : α → Bool}
    (tied : ∀ a b, p a = true → p b = true → le a b = true) (l : List α) :
    (l.mergeSort le).filter p = l.filter p := by
  have ties : (l.filter p).Pairwise fun a b => le a b = true :=
    pairwise_of_forall_mem_list fun a ha b hb =>
      tied a b (mem_filter.mp ha).2 (mem_filter.mp hb).2
  have kept := (sublist_mergeSort trans total ties filter_sublist).filter p
  simp only [filter_filter, Bool.and_self] at kept
  exact (kept.eq_of_length ((mergeSort_perm l le).filter p).length_eq.symm).symm

section Members

def memberCmp (cmp : α → α → Ordering) (l : List α) (a b : { a // a ∈ l }) : Ordering :=
  cmp a.1 b.1

theorem mergeSort_members :
    l.mergeSort (before cmp) = (l.attach.mergeSort (before (memberCmp cmp l))).map Subtype.val := by
  have named := map_mergeSort (r := before (memberCmp cmp l)) (s := before cmp)
    (f := Subtype.val) (l := l.attach) fun _ _ _ _ => rfl
  rw [named, attach_map_subtype_val]

variable (preorder : PreorderOn cmp l)
include preorder

theorem before_trans (a b c : { a // a ∈ l }) (hab : before (memberCmp cmp l) a b = true)
    (hbc : before (memberCmp cmp l) b c = true) : before (memberCmp cmp l) a c = true :=
  decide_eq_true (preorder.trans a.1 a.2 b.1 b.2 c.1 c.2 (of_decide_eq_true hab)
    (of_decide_eq_true hbc))

theorem before_total (a b : { a // a ∈ l }) :
    (before (memberCmp cmp l) a b || before (memberCmp cmp l) b a) = true := by
  unfold before memberCmp
  rw [preorder.swap a.1 a.2 b.1 b.2]
  cases cmp a.1 b.1 <;> rfl

theorem sorted_mergeSort : Sorted cmp (l.mergeSort (before cmp)) := by
  rw [mergeSort_members]
  refine pairwise_map.mpr ?_
  exact (pairwise_mergeSort (before_trans preorder) (before_total preorder) _).imp
    fun le => of_decide_eq_true le

theorem stable_mergeSort (a : α) (ha : a ∈ l) :
    (l.mergeSort (before cmp)).filter (cmp a · = .eq) = l.filter (cmp a · = .eq) := by
  have tied : ∀ b c : { a // a ∈ l }, decide (cmp a b.1 = .eq) = true →
      decide (cmp a c.1 = .eq) = true → before (memberCmp cmp l) b c = true := by
    intro b c hb hc
    have hb := preorder.eq_symm ha b.2 (of_decide_eq_true hb)
    have hc := of_decide_eq_true hc
    refine decide_eq_true (preorder.trans b.1 b.2 a ha c.1 c.2 ?_ ?_)
    · rw [hb]
      exact nofun
    · rw [hc]
      exact nofun
  rw [mergeSort_members, filter_map]
  have same := filter_mergeSort (before_trans preorder) (before_total preorder) tied l.attach
  refine (congrArg (List.map Subtype.val) same).trans ?_
  conv_rhs => rw [← attach_map_subtype_val l, filter_map]
  rfl

end Members

def merge : StableSort where
  sort cmp l := l.mergeSort (before cmp)
  perm cmp l := mergeSort_perm l (before cmp)
  map _ _ _ := map_mergeSort fun _ _ _ _ => rfl
  sorted preorder := sorted_mergeSort preorder
  stable preorder a ha := stable_mergeSort preorder a ha

end StableSort

end Peryx
