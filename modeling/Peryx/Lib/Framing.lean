import Mathlib

/-!
# Frames in a stream

A writer puts frames one after another; a reader is handed the stream in
pieces, keeps what it has not read yet, and takes whole frames off the front.
-/

namespace Peryx.Framing

open List

universe u v w

variable {ι : Type u} {β : Type v} {σ : Type w} {ε : Type w}

/-- `held` begins `frame` and is not all of it. -/
def Part (held frame : List β) : Prop :=
  held <+: frame ∧ held ≠ frame

theorem Part.append {held first second : List β} (h : Part held (first ++ second)) :
    Part held first ∨ ∃ rest, held = first ++ rest ∧ Part rest second := by
  rcases prefix_or_prefix_of_prefix h.1 (prefix_append first second) with short | long
  · by_cases whole : held = first
    · refine .inr ⟨[], by rw [whole, List.append_nil], nil_prefix, ?_⟩
      rintro rfl
      exact h.2 (by rw [whole, List.append_nil])
    · exact .inl ⟨short, whole⟩
  · obtain ⟨rest, rfl⟩ := long
    refine .inr ⟨rest, rfl, (prefix_append_right_inj first).mp h.1, ?_⟩
    rintro rfl
    exact h.2 rfl

theorem Part.length_lt {held frame : List β} (h : Part held frame) :
    held.length < frame.length := by
  refine Nat.lt_of_le_of_ne h.1.length_le ?_
  intro same
  exact h.2 (h.1.eq_of_length same)

def writeAll (write : ι → List β) (items : List ι) : List β :=
  items.flatMap write

theorem writeAll_append (write : ι → List β) (items more : List ι) :
    writeAll write (items ++ more) = writeAll write items ++ writeAll write more :=
  flatMap_append

variable {write : ι → List β}

theorem foldl_eq_append_writeAll {α : Type u} {push : List β → α → List β}
    {item : α → ι} (h : ∀ written a, push written a = written ++ write (item a))
    (written : List β) (as : List α) :
    as.foldl push written = written ++ writeAll write (as.map item) := by
  induction as generalizing written with
  | nil => exact (List.append_nil _).symm
  | cons a as ih =>
    rw [foldl_cons, ih, h, append_assoc]
    rfl

/-- What is held when no whole frame is left: a part of the next one, nothing
at the end. -/
def Pending (write : ι → List β) : List ι → List β → Prop
  | [], held => held = []
  | item :: _, held => Part held (write item)

theorem Pending.start (nonempty : ∀ item, write item ≠ [])
    (items : List ι) : Pending write items [] := by
  cases items with
  | nil => rfl
  | cons item items => exact ⟨ nil_prefix, (nonempty item).symm⟩

theorem cut (write : ι → List β) {items : List ι} {arrived : List β}
    (h : arrived <+: writeAll write items) :
    ∃ whole rest held, items = whole ++ rest ∧ arrived = writeAll write whole ++ held ∧
      Pending write rest held := by
  induction items generalizing arrived with
  | nil => exact ⟨[], [], [], rfl, prefix_nil.mp h, rfl⟩
  | cons item items ih =>
    by_cases part : Part arrived (write item)
    · exact ⟨[], item :: items, arrived, rfl, rfl, part⟩
    · -- the first frame is whole, and the rest of what arrived begins the others
      have long : write item <+: arrived := by
        rcases prefix_or_prefix_of_prefix h (prefix_append _ _) with short | long
        · by_cases same : arrived = write item
          · rw [same]
          · exact absurd ⟨short, same⟩ part
        · exact long
      obtain ⟨after, rfl⟩ := long
      obtain ⟨whole, rest, held, rfl, rfl, pending⟩ :=
        ih ((prefix_append_right_inj _).mp h)
      refine ⟨item :: whole, rest, held, rfl, ?_, pending⟩
      rw [writeAll, writeAll, flatMap_cons, append_assoc]

theorem Pending.eq_nil {rest : List ι}
    (h : Pending write rest (writeAll write rest)) : rest = [] := by
  cases rest with
  | nil => rfl
  | cons item rest =>
    have short : (writeAll write (item :: rest)).length < (write item).length := h.length_lt
    rw [writeAll, flatMap_cons, length_append] at short
    omega

theorem length_le_writeAll (nonempty : ∀ item, write item ≠ [])
    (items : List ι) : items.length ≤ (writeAll write items).length := by
  induction items with
  | nil => exact Nat.le_refl _
  | cons item items ih =>
    have one := length_pos_iff.mpr (nonempty item)
    rw [writeAll, flatMap_cons, length_append, length_cons]
    unfold writeAll at ih
    omega

/-! ## Reading -/

/-- Takes frames until there is none to take, `fuel` of them at most. -/
def drain (take : σ → Except ε (Option σ)) : Nat → σ → Except ε σ
  | 0, s => .ok s
  | fuel + 1, s => do
    match ← take s with
    | none => return s
    | some s => drain take fuel s

/-- One attempt to take a frame off what a reader holds: a whole `Legible`
frame is filed and leaves what follows it, and a part of one stays. -/
structure Reads (held : σ → List β) (take : σ → Except ε (Option σ)) (write : ι → List β)
    (file : σ → ι → σ) (Legible : ι → Prop) : Prop where
  whole : ∀ {s item rest}, Legible item → held s = write item ++ rest →
    take s = .ok (some (file s item)) ∧ held (file s item) = rest
  part : ∀ {s item}, Legible item → Part (held s) (write item) → take s = .ok none
  empty : ∀ {s}, held s = [] → take s = .ok none

namespace Reads

variable {held : σ → List β} {take : σ → Except ε (Option σ)}
  {file : σ → ι → σ} {Legible : ι → Prop}

theorem pending (h : Reads held take write file Legible) {s : σ} {rest : List ι}
    (legible : ∀ item ∈ rest, Legible item) (left : Pending write rest (held s)) :
    take s = .ok none := by
  cases rest with
  | nil => exact h.empty left
  | cons item rest => exact h.part (legible item mem_cons_self) left

theorem not_begins (h : Reads held take write file Legible) {s : σ} (none : take s = .ok none)
    {item : ι} (legible : Legible item) : ¬ write item <+: held s := by
  rintro ⟨rest, same⟩
  have taken := (h.whole legible same.symm).1
  rw [none] at taken
  cases taken

theorem drain_eq (h : Reads held take write file Legible) {whole rest : List ι}
    (legible : ∀ item ∈ whole ++ rest, Legible item) {left : List β}
    (pending : Pending write rest left) {s : σ} (holds : held s = writeAll write whole ++ left)
    {fuel : Nat} (enough : whole.length ≤ fuel) :
    drain take fuel s = .ok (whole.foldl file s) ∧ held (whole.foldl file s) = left := by
  induction whole generalizing s fuel with
  | nil =>
    have same : held s = left := holds
    refine ⟨?_, same⟩
    cases fuel with
    | zero => rfl
    | succ fuel =>
      rw [drain, h.pending (by simpa using legible) (same ▸ pending)]
      rfl
  | cons item whole ih =>
    rw [writeAll, flatMap_cons, append_assoc] at holds
    obtain ⟨taken, after⟩ := h.whole (legible item (by simp)) holds
    cases fuel with
    | zero => cases enough
    | succ fuel =>
      rw [drain, taken]
      refine ih (fun other ho => legible other ?_) after (Nat.le_of_succ_le_succ enough)
      exact mem_cons_of_mem _ ho

end Reads

end Peryx.Framing
