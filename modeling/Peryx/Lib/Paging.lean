import Mathlib

/-!
# Walking pages

A listing answers a page and the cursor of the next one, if there is one, and a
caller follows the cursors (`walk`). Pages are complete by one fact about each:
what is left at its cursor is the page, and then what is left at the next cursor
(`Pages`).

`after` is what is left of an ordered list after a key; a listing that answers
its first rows and the key of the last one has such pages (`pages_of_take`).
Most listings read one row too many to know whether there is more (`cut`).
-/

namespace Peryx.Paging

open List

universe u v w

variable {ε : Type u} {γ : Type v} {α : Type w}

/-! ## Pages -/

/-- Follows the cursors from page to page. -/
def walk (page : Option γ → Except ε (List α × Option γ)) : Nat → Option γ → Except ε (List α)
  | 0, _ => .ok []
  | fuel + 1, cursor =>
    match page cursor with
    | .error error => .error error
    | .ok (rows, none) => .ok rows
    | .ok (rows, some next) => (walk page fuel (some next)).map (rows ++ ·)

/-- `left` is what a listing has left at each cursor, and every page but the
last has a row of it. -/
structure Pages (page : Option γ → Except ε (List α × Option γ)) (left : Option γ → List α) :
    Prop where
  last : ∀ {cursor rows}, page cursor = .ok (rows, none) → left cursor = rows
  next : ∀ {cursor rows next}, page cursor = .ok (rows, some next) →
    rows ≠ [] ∧ left cursor = rows ++ left (some next)

variable {page : Option γ → Except ε (List α × Option γ)} {left : Option γ → List α} {limit : Nat}

/-- A walk fails, or reads what was left. -/
theorem Pages.walk_eq (pages : Pages page left) :
    ∀ (fuel : Nat) (cursor : Option γ), (left cursor).length < fuel →
      (∃ error, walk page fuel cursor = .error error) ∨ walk page fuel cursor = .ok (left cursor)
  | fuel + 1, cursor, enough => by
    unfold walk
    match answer : page cursor with
    | .error error => exact .inl ⟨error, rfl⟩
    | .ok (rows, none) => exact .inr (congrArg _ (pages.last answer).symm)
    | .ok (rows, some next) =>
      obtain ⟨nonempty, split⟩ := pages.next answer
      have fewer : (left (some next)).length < fuel := by
        have some := length_pos_iff.mpr nonempty
        rw [split, length_append] at enough
        omega
      obtain ⟨error, failed⟩ | done := pages.walk_eq fuel (some next) fewer
      · exact .inl ⟨error, by dsimp only; rw [failed]; rfl⟩
      · refine .inr ?_
        dsimp only
        rw [done, split]
        rfl

theorem Pages.walk_eq_ok_of_named (pages : Pages page left) {valid : γ → Prop}
    (answers : ∀ cursor, (∀ c ∈ cursor, valid c) → ∃ answer, page cursor = .ok answer)
    (named : ∀ {cursor rows next}, page cursor = .ok (rows, some next) → valid next) :
    ∀ {fuel : Nat} {cursor : Option γ}, (∀ c ∈ cursor, valid c) → (left cursor).length < fuel →
      walk page fuel cursor = .ok (left cursor)
  | fuel + 1, cursor, here, enough => by
    unfold walk
    obtain ⟨⟨rows, next⟩, answer⟩ := answers cursor here
    rw [answer]
    cases next with
    | none => exact congrArg _ (pages.last answer).symm
    | some next =>
      obtain ⟨nonempty, split⟩ := pages.next answer
      have fewer : (left (some next)).length < fuel := by
        have some := length_pos_iff.mpr nonempty
        rw [split, length_append] at enough
        omega
      have there : ∀ c ∈ some next, valid c := by
        intro c is
        cases is
        exact named answer
      dsimp only
      rw [pages.walk_eq_ok_of_named answers named there fewer, split]
      rfl

/-- Where every page is answered, a walk reads what was left. -/
theorem Pages.walk_eq_ok (pages : Pages page left)
    (answers : ∀ cursor, ∃ answer, page cursor = .ok answer) {fuel : Nat} {cursor : Option γ}
    (enough : (left cursor).length < fuel) : walk page fuel cursor = .ok (left cursor) := by
  have always : ∀ c ∈ cursor, (fun _ : γ => True) c := fun _ _ => trivial
  exact pages.walk_eq_ok_of_named (fun cursor _ => answers cursor) (fun _ => trivial) always enough

theorem Pages.map {β : Type*} (pages : Pages page left) (f : α → β) :
    Pages (fun cursor => (page cursor).map fun (rows, next) => (rows.map f, next))
      fun cursor => (left cursor).map f where
  last {cursor rows} answer := by
    match given : page cursor with
    | .error _ =>
      rw [given] at answer
      cases answer
    | .ok (taken, next) =>
      rw [given] at answer
      cases answer
      exact congrArg _ (pages.last given)
  next {cursor rows next} answer := by
    match given : page cursor with
    | .error _ =>
      rw [given] at answer
      cases answer
    | .ok (taken, more) =>
      rw [given] at answer
      cases answer
      obtain ⟨nonempty, split⟩ := pages.next given
      refine ⟨fun none => nonempty (map_eq_nil_iff.mp none), ?_⟩
      rw [split, map_append]

/-! ## What is left of an ordered list -/

variable [Ord γ]

/-- The rows past a cursor. -/
def after (key : α → γ) (rows : List α) : Option γ → List α
  | none => rows
  | some k => rows.filter fun row => compare k (key row) = .lt

variable {key : α → γ} {rows : List α}

theorem after_sublist (cursor : Option γ) : (after key rows cursor).Sublist rows := by
  cases cursor with
  | none => exact List.Sublist.refl _
  | some k => exact filter_sublist

theorem after_map {β : Type*} {other : β → γ} {f : α → β}
    (same : ∀ row ∈ rows, other (f row) = key row) (cursor : Option γ) :
    after other (rows.map f) cursor = (after key rows cursor).map f := by
  cases cursor with
  | none => rfl
  | some k =>
    rw [after, after, filter_map]
    refine congrArg _ (filter_congr fun row mem => ?_)
    rw [Function.comp_apply, same row mem]

theorem ordered_after (ordered : rows.Pairwise fun a b => compare (key a) (key b) = .lt)
    (cursor : Option γ) :
    (after key rows cursor).Pairwise fun a b => compare (key a) (key b) = .lt :=
  ordered.sublist (after_sublist cursor)

variable [Std.TransOrd γ]

theorem filter_after {taken rest : List α} {last : α}
    (ordered : (taken ++ last :: rest).Pairwise fun a b => compare (key a) (key b) = .lt) :
    (taken ++ last :: rest).filter (fun row => compare (key last) (key row) = .lt) = rest := by
  obtain ⟨-, tail, across⟩ := pairwise_append.mp ordered
  have before : taken.filter (fun row => compare (key last) (key row) = .lt) = [] := by
    refine filter_eq_nil_iff.mpr fun row hr => ?_
    have earlier := across row hr last mem_cons_self
    rw [Std.OrientedCmp.gt_of_lt earlier]
    decide
  have after : rest.filter (fun row => compare (key last) (key row) = .lt) = rest := by
    refine filter_eq_self.mpr fun row hr => ?_
    exact decide_eq_true ((pairwise_cons.mp tail).1 row hr)
  have self : compare (key last) (key last) = .eq := Std.ReflCmp.compare_self
  rw [filter_append, before, filter_cons, after, self]
  rfl

/-- Past the last row that was read, the rest is left. -/
theorem after_resume (ordered : rows.Pairwise fun a b => compare (key a) (key b) = .lt)
    {cursor : Option γ} {taken rest : List α} {last : α}
    (split : after key rows cursor = taken ++ last :: rest) :
    after key rows (some (key last)) = rest := by
  have left := ordered_after ordered cursor
  rw [split] at left
  rw [← filter_after left, ← split]
  cases cursor with
  | none => rfl
  | some k =>
    have later : compare k (key last) = .lt := by
      have mem : last ∈ after key rows (some k) := by
        rw [split]
        exact mem_append_right _ mem_cons_self
      exact of_decide_eq_true (mem_filter.mp mem).2
    rw [after, after, filter_filter]
    refine filter_congr fun row _ => ?_
    by_cases beyond : compare (key last) (key row) = .lt
    · simp [beyond, Std.TransCmp.lt_trans later beyond]
    · simp [beyond]

/-- Pages that take so many of what is left. -/
theorem pages_of_take (ordered : rows.Pairwise fun a b => compare (key a) (key b) = .lt)
    (limit : Nat)
    (takes : ∀ {cursor taken next}, page cursor = .ok (taken, next) →
      taken = (after key rows cursor).take limit)
    (ends : ∀ {cursor taken}, page cursor = .ok (taken, none) → after key rows cursor = taken)
    (resumes : ∀ {cursor taken next}, page cursor = .ok (taken, some next) →
      ∃ last, taken.getLast? = some last ∧ key last = next) :
    Pages page (after key rows) where
  last := ends
  next {cursor taken next} answer := by
    obtain ⟨last, final, rfl⟩ := resumes answer
    obtain ⟨before, rfl⟩ := getLast?_eq_some_iff.mp final
    refine ⟨append_ne_nil_of_right_ne_nil _ (cons_ne_nil _ _), ?_⟩
    have split : after key rows cursor = before ++ last :: (after key rows cursor).drop limit := by
      conv_lhs => rw [← take_append_drop limit (after key rows cursor), ← takes answer]
      rw [append_assoc, singleton_append]
    rw [after_resume ordered split, append_assoc, singleton_append]
    exact split

/-! ## One row too many -/

/-- The first `limit` rows, and the key of the last of them if there are more. -/
def cut (key : α → γ) (limit : Nat) (left : List α) : List α × Option γ :=
  (left.take limit, if limit < left.length then left[limit - 1]?.map key else none)

omit [Ord γ] [Std.TransOrd γ] in
@[simp] theorem cut_nil (limit : Nat) : cut key limit [] = ([], none) := by
  simp [cut]

omit [Ord γ] [Std.TransOrd γ] in
theorem exists_of_cut {left : List α} {next : γ}
    (named : (cut key limit left).2 = some next) : ∃ row ∈ left, key row = next := by
  rw [cut] at named
  split at named
  · obtain ⟨row, found, is⟩ := Option.map_eq_some_iff.mp named
    exact ⟨row, mem_of_getElem? found, is⟩
  · cases named

omit [Ord γ] [Std.TransOrd γ] in
theorem cut_take (some : 1 ≤ limit) (left : List α) :
    cut key limit (left.take (limit + 1)) = cut key limit left := by
  have first : (left.take (limit + 1)).take limit = left.take limit := by
    rw [take_take, Nat.min_eq_left (Nat.le_succ limit)]
  have more : limit < (left.take (limit + 1)).length ↔ limit < left.length := by
    rw [length_take]
    omega
  have inside : limit - 1 < limit + 1 := by omega
  simp only [cut, first, more, getElem?_take, if_pos inside]

omit [Ord γ] [Std.TransOrd γ] in
theorem getElem?_of_longer (some : 1 ≤ limit) {left : List α} (longer : limit < left.length) :
    ∃ last, left[limit - 1]? = Option.some last ∧
      (left.take limit).getLast? = Option.some last := by
  have nth : limit - 1 < left.length := by omega
  refine ⟨left[limit - 1], getElem?_eq_getElem nth, ?_⟩
  have length : (left.take limit).length = limit := length_take_of_le longer.le
  have inside : limit - 1 < limit := by omega
  rw [getLast?_eq_getElem?, length, getElem?_take, if_pos inside, getElem?_eq_getElem nth]

/-- Pages that are cut off what is left. -/
theorem pages_of_cut (ordered : rows.Pairwise fun a b => compare (key a) (key b) = .lt)
    (some : 1 ≤ limit)
    (cuts : ∀ {cursor answer}, page cursor = .ok answer →
      answer = cut key limit (after key rows cursor)) :
    Pages page (after key rows) := by
  refine pages_of_take ordered limit (fun answer => ?_) (fun {cursor taken} answer => ?_)
    fun {cursor taken next} answer => ?_
  · exact congrArg Prod.fst (cuts answer)
  · obtain ⟨rfl, ended⟩ := Prod.mk.inj (cuts answer)
    refine (take_of_length_le (not_lt.mp fun longer => ?_)).symm
    obtain ⟨last, found, -⟩ := getElem?_of_longer some longer
    rw [if_pos longer, found] at ended
    cases ended
  · obtain ⟨rfl, more⟩ := Prod.mk.inj (cuts answer)
    by_cases longer : limit < (after key rows cursor).length
    · obtain ⟨last, found, final⟩ := getElem?_of_longer some longer
      rw [if_pos longer, found] at more
      exact ⟨last, final, (Option.some.inj more).symm⟩
    · rw [if_neg longer] at more
      cases more

/-! ## From the last key to the first -/

omit [Std.TransOrd γ] in
/-- The rows before a cursor, for listings that go down. -/
def before (key : α → γ) (rows : List α) : Option γ → List α
  | none => rows
  | some k => rows.filter fun row => compare (key row) k = .lt

omit [Std.TransOrd γ] in
theorem before_sublist (cursor : Option γ) : (before key rows cursor).Sublist rows := by
  cases cursor with
  | none => exact List.Sublist.refl _
  | some k => exact filter_sublist

/-- Pages that are cut off what is left, going down. -/
theorem pages_of_cut_before (ordered : rows.Pairwise fun a b => compare (key b) (key a) = .lt)
    (some : 1 ≤ limit)
    (cuts : ∀ {cursor answer}, page cursor = .ok answer →
      answer = cut key limit (before key rows cursor)) :
    Pages page (before key rows) := by
  -- the same pages, with the keys the other way round
  have same : ∀ cursor, before key rows cursor =
      @after γ α (Ord.opposite inferInstance) key rows cursor :=
    fun cursor => by cases cursor <;> rfl
  have trans : @Std.TransOrd γ (Ord.opposite inferInstance) := Std.TransOrd.opposite
  have pages := @pages_of_cut ε γ α page limit (Ord.opposite inferInstance) key rows trans ordered
    some fun {cursor _} answer => same cursor ▸ cuts answer
  exact (funext same : before key rows = _) ▸ pages

end Peryx.Paging
