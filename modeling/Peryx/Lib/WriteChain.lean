import Peryx.Lib.Machine

/-!
# The writes of one row

Workers that read a row, decide over what they read and replace the row only if
it did not move write it one after another: each write finds the row the one
before left. `Chain` says so of a list of writes, and what is shown of one write
then holds of all of them.
-/

namespace Peryx

open List

universe u v

variable {ω : Type u} {ρ : Type v}

/-- The writes lead from one row to another, each over what the one before
left. -/
inductive Chain (before : ω → Option ρ) (after : ω → ρ) :
    Option ρ → List ω → Option ρ → Prop
  | nil (row : Option ρ) : Chain before after row [] row
  | cons (write : ω) {writes : List ω} {last : Option ρ} :
    Chain before after (some (after write)) writes last →
      Chain before after (before write) (write :: writes) last

namespace Chain

variable {before : ω → Option ρ} {after : ω → ρ} {first last : Option ρ} {writes : List ω}

def rows (after : ω → ρ) (first : Option ρ) (writes : List ω) : List ρ :=
  first.toList ++ writes.map after

/-- **Run.** A step leaves the row as it is, or makes one write over it. -/
theorem of_run {σ ι ο : Type} {step : σ → ι → σ × ο} {I : σ → Prop} {P : ω → Prop}
    (row : σ → Option ρ) (writeOf : ο → Option ω)
    (each : ∀ s i, I s → I (step s i).1 ∧
      (writeOf (step s i).2 = none ∧ row (step s i).1 = row s ∨ ∃ write,
        writeOf (step s i).2 = some write ∧ row s = before write ∧
          row (step s i).1 = some (after write) ∧ P write)) :
    ∀ {s : σ} (is : List ι), I s →
      Chain before after (row s) ((Machine.answers step s is).filterMap writeOf)
          (row (Machine.exec step s is)) ∧
        ∀ write ∈ (Machine.answers step s is).filterMap writeOf, P write
  | _, [], _ => ⟨.nil _, fun _ mem => absurd mem not_mem_nil⟩
  | s, i :: is, holds => by
    obtain ⟨next, ⟨none, same⟩ | ⟨write, found, over', left, proved⟩⟩ := each s i holds
    · obtain ⟨chain, all⟩ := of_run row writeOf each is next
      rw [Machine.answers, Machine.answer, Machine.next, filterMap_cons_none none]
      exact ⟨same ▸ chain, all⟩
    · obtain ⟨chain, all⟩ := of_run row writeOf each is next
      rw [Machine.answers, Machine.answer, Machine.next, filterMap_cons_some found, over']
      exact ⟨.cons write (left ▸ chain), forall_mem_cons.mpr ⟨proved, all⟩⟩

theorem pairwise_iff {R : ρ → ρ → Prop} (trans : ∀ {a b c}, R a b → R b c → R a c)
    (chain : Chain before after first writes last) :
    (rows after first writes).Pairwise R ↔
      ∀ write ∈ writes, ∀ row, before write = some row → R row (after write) := by
  induction chain with
  | nil row => cases row <;> simp [rows]
  | @cons write writes last rest ih =>
    change (after write :: writes.map after).Pairwise R ↔ _ at ih
    have later : ((∀ row, before write = some row → R row (after write)) ∧
        (after write :: writes.map after).Pairwise R) ↔
        ∀ other ∈ write :: writes, ∀ row, before other = some row → R row (after other) := by
      rw [ih, forall_mem_cons]
    rw [← later]
    cases replaced : before write with
    | none => exact ⟨fun rest => ⟨nofun, rest⟩, And.right⟩
    | some row =>
      change (row :: after write :: writes.map after).Pairwise R ↔ _
      constructor
      · intro all
        obtain ⟨above, rest⟩ := pairwise_cons.mp all
        exact ⟨fun _ same => Option.some.inj same ▸ above _ mem_cons_self, rest⟩
      · rintro ⟨next, rest⟩
        refine pairwise_cons.mpr ⟨fun other mem => ?_, rest⟩
        obtain rfl | mem := mem_cons.mp mem
        · exact next row rfl
        · exact trans (next row rfl) ((pairwise_cons.mp rest).1 other mem)

variable {closes : ω → Bool} {Closed : ρ → Prop}

theorem never {row : ρ} (chain : Chain before after (some row) writes last) (isClosed : Closed row)
    (stays : ∀ write ∈ writes, ∀ row, before write = some row → Closed row →
      Closed (after write) ∧ ¬ closes write) :
    writes.filter closes = [] := by
  generalize present : some row = first at chain
  induction chain generalizing row with
  | nil => rfl
  | @cons write writes last rest ih =>
    obtain ⟨next, opens⟩ := stays write mem_cons_self row present.symm isClosed
    rw [filter_cons_of_neg opens]
    exact ih next (fun other mem => stays other (.tail _ mem)) rfl

theorem once (chain : Chain before after first writes last)
    (closed : ∀ write ∈ writes, closes write → Closed (after write))
    (stays : ∀ write ∈ writes, ∀ row, before write = some row → Closed row →
      Closed (after write) ∧ ¬ closes write) :
    (writes.filter closes).length ≤ 1 := by
  induction chain with
  | nil row => exact Nat.zero_le 1
  | @cons write writes last rest ih =>
    have later := fun other (mem : other ∈ writes) => stays other (.tail _ mem)
    by_cases closing : closes write = true
    · have isClosed := closed write mem_cons_self closing
      rw [filter_cons_of_pos closing, rest.never isClosed later]
      exact Nat.le_refl 1
    · rw [filter_cons_of_neg closing]
      exact ih (fun other mem => closed other (.tail _ mem)) later

end Chain

end Peryx
