import Peryx.Lib.Paging

/-!
# Pages cut at offsets

Pages of a list whose cursors carry an offset: each answered page is a window of
the list, and names the offset of the next window as long as there are rows past
it (`Windows`). A walk then meets an error or yields the whole list; it yields
the list if every offset is answered (`walk_eq_ok`), and if it does, then the
last window was answered (`exists_last`).
-/

namespace Peryx.Paging

open List

universe u v w

variable {ε : Type u} {γ : Type v} {α : Type w}

def window (name : Nat → γ) (rows : List α) (limit offset : Nat) : List α × Option γ :=
  ((rows.drop offset).take limit,
    if offset + limit < rows.length then some (name (offset + limit)) else none)

theorem window_take (name : Nat → γ) (rows : List α) (limit offset : Nat) :
    window name (rows.take (offset + limit + 1)) limit offset = window name rows limit offset := by
  have goes : offset + limit < (rows.take (offset + limit + 1)).length ↔
      offset + limit < rows.length := by
    rw [length_take]
    omega
  have cut : ((rows.take (offset + limit + 1)).drop offset).take limit =
      (rows.drop offset).take limit := by
    rw [drop_take, take_take, Nat.min_eq_left (by omega)]
  simp only [window, goes, cut]

/-- What is answered at a cursor is the window at the offset it reads as. -/
structure Windows (page : Option γ → Except ε (List α × Option γ))
    (read : Option γ → Except ε Nat) (name : Nat → γ) (rows : List α) (limit : Nat) : Prop where
  positive : 0 < limit
  first : read none = .ok 0
  read_name : ∀ offset, read (some (name offset)) = .ok offset
  page_ok : ∀ {cursor answer}, page cursor = .ok answer →
    ∃ offset, read cursor = .ok offset ∧ answer = window name rows limit offset

namespace Windows

variable {page : Option γ → Except ε (List α × Option γ)} {read : Option γ → Except ε Nat}
  {name : Nat → γ} {rows : List α} {limit : Nat}

def left (read : Option γ → Except ε Nat) (rows : List α) (cursor : Option γ) : List α :=
  match read cursor with
  | .ok offset => rows.drop offset
  | .error _ => []

theorem left_eq {cursor : Option γ} {offset : Nat} (reads : read cursor = .ok offset) :
    left read rows cursor = rows.drop offset := by
  unfold left
  rw [reads]

variable (windows : Windows page read name rows limit)
include windows

theorem pages : Pages page (left read rows) where
  last {cursor answered} answer := by
    obtain ⟨offset, reads, same⟩ := windows.page_ok answer
    obtain ⟨rfl, ends⟩ := Prod.mk.inj same
    rw [left_eq reads, take_of_length_le]
    split at ends
    · cases ends
    · rw [length_drop]
      omega
  next {cursor answered next} answer := by
    obtain ⟨offset, reads, same⟩ := windows.page_ok answer
    obtain ⟨rfl, goes⟩ := Prod.mk.inj same
    split at goes
    · next more =>
      obtain rfl := Option.some.inj goes
      have positive := windows.positive
      constructor
      · rw [← length_pos_iff, length_take, length_drop]
        omega
      · rw [left_eq reads, left_eq (windows.read_name _), ← drop_drop, take_append_drop]
    · cases goes

theorem left_first : left read rows none = rows := by
  rw [left_eq windows.first, drop_zero]

variable {fuel : Nat}

theorem walk_eq (enough : rows.length < fuel) :
    (∃ error, walk page fuel none = .error error) ∨ walk page fuel none = .ok rows := by
  have walked := windows.pages.walk_eq fuel none (by rwa [windows.left_first])
  rwa [windows.left_first] at walked

theorem walk_eq_ok (answers : ∀ {cursor offset}, read cursor = .ok offset →
    ∃ answer, page cursor = .ok answer) (enough : rows.length < fuel) :
    walk page fuel none = .ok rows := by
  suffices ∀ fuel cursor offset, read cursor = .ok offset →
      (left read rows cursor).length < fuel →
      walk page fuel cursor = .ok (left read rows cursor) by
    have whole := this fuel none 0 windows.first (by rwa [windows.left_first])
    rwa [windows.left_first] at whole
  intro fuel
  induction fuel with
  | zero => exact fun _ _ _ enough => absurd enough (Nat.not_lt_zero _)
  | succ fuel ih =>
    intro cursor offset reads enough
    obtain ⟨⟨answered, next⟩, answer⟩ := answers reads
    unfold walk
    rw [answer]
    cases next with
    | none => exact congrArg _ (windows.pages.last answer).symm
    | some next =>
      obtain ⟨nonempty, split⟩ := windows.pages.next answer
      obtain ⟨offset', -, same⟩ := windows.page_ok answer
      obtain ⟨-, goes⟩ := Prod.mk.inj same
      split at goes
      · obtain rfl := Option.some.inj goes
        have some := length_pos_iff.mpr nonempty
        rw [split, length_append] at enough
        rw [split]
        dsimp only
        rw [ih _ _ (windows.read_name _) (by omega)]
        rfl
      · cases goes

theorem exists_last {walked : List α} (enough : rows.length < fuel)
    (done : walk page fuel none = .ok walked) :
    ∃ cursor answered, page cursor = .ok (answered, none) := by
  suffices ∀ fuel cursor walked, (left read rows cursor).length < fuel →
      walk page fuel cursor = .ok walked →
      ∃ cursor answered, page cursor = .ok (answered, none) from
    this fuel none walked (by rwa [windows.left_first]) done
  intro fuel
  induction fuel with
  | zero => exact fun _ _ enough => absurd enough (Nat.not_lt_zero _)
  | succ fuel ih =>
    intro cursor walked enough done
    unfold walk at done
    rcases answer : page cursor with _ | ⟨answered, _ | next⟩
    · rw [answer] at done
      cases done
    · exact ⟨cursor, answered, answer⟩
    · rw [answer] at done
      dsimp only at done
      obtain ⟨nonempty, split⟩ := windows.pages.next answer
      have some := length_pos_iff.mpr nonempty
      rw [split, length_append] at enough
      cases rest : walk page fuel (.some next) with
      | error _ =>
        rw [rest] at done
        cases done
      | ok walked => exact ih _ _ (by omega) rest

end Windows

end Peryx.Paging
