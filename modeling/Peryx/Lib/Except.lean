import Mathlib

/-!
# Taking fallible computations apart

What it means for a composed `Except` computation to succeed or to fail, as
rewrite rules: a success of the whole is a success of each part, a failure the
failure of the first part that fails. Computations over lists succeed if each
member's does.
-/

namespace Peryx

open List

universe u v w

variable {ε : Type u} {δ : Type u} {α β : Type v}

variable {x : Except ε α} {f : α → Except ε β}

/-- A sequence succeeds where both parts do. -/
theorem Except.bind_eq_ok {b : β} :
    (x >>= f) = .ok b ↔ ∃ a, x = .ok a ∧ f a = .ok b := by
  cases x with
  | error e => exact ⟨nofun, nofun⟩
  | ok a =>
    constructor
    · intro h
      exact ⟨a, rfl, h⟩
    · rintro ⟨a', h, hf⟩
      cases h
      exact hf

theorem Except.map_eq_ok {f : α → β} {b : β} :
    x.map f = .ok b ↔ ∃ a, x = .ok a ∧ f a = b := by
  cases x with
  | error e => exact ⟨nofun, nofun⟩
  | ok a =>
    constructor
    · intro h
      cases h
      exact ⟨a, rfl, rfl⟩
    · rintro ⟨a', h, rfl⟩
      cases h
      rfl

theorem Except.mapError_eq_ok {f : ε → δ} {a : α} :
    x.mapError f = .ok a ↔ x = .ok a := by
  cases x with
  | error e => exact ⟨nofun, nofun⟩
  | ok a' => simp [Except.mapError]

/-- A guard succeeds where its condition fails. -/
theorem Except.guard_eq_ok {c : Prop} [Decidable c] {e : ε} {a : α} :
    (if c then .error e else x) = .ok a ↔ ¬ c ∧ x = .ok a := by
  by_cases h : c <;> simp [h]

/-! ## Failing -/

/-- A sequence fails where its first failing part does. -/
theorem Except.bind_eq_error {e : ε} :
    (x >>= f) = .error e ↔ x = .error e ∨ ∃ a, x = .ok a ∧ f a = .error e := by
  cases x with
  | error e' =>
    constructor
    · intro h
      cases h
      exact .inl rfl
    · rintro (h | ⟨a, h, -⟩)
      · cases h
        rfl
      · cases h
  | ok a =>
    constructor
    · intro h
      exact .inr ⟨a, rfl, h⟩
    · rintro (h | ⟨a', h, hf⟩)
      · cases h
      · cases h
        exact hf

theorem Except.map_eq_error {f : α → β} {e : ε} :
    x.map f = .error e ↔ x = .error e := by
  cases x with
  | error e' => simp [Except.map]
  | ok a => exact ⟨nofun, nofun⟩

theorem Except.mapError_eq_error {f : ε → δ} {d : δ} :
    x.mapError f = .error d ↔ ∃ e, x = .error e ∧ f e = d := by
  cases x with
  | error e => simp [Except.mapError]
  | ok a => exact ⟨nofun, nofun⟩

theorem Except.guard_eq_error {c : Prop} [Decidable c] {e e' : ε} :
    (if c then .error e else x) = .error e' ↔ (c ∧ e = e') ∨ (¬ c ∧ x = .error e') := by
  by_cases h : c <;> simp [h]

/-! ## Agreeing -/

theorem Except.bind_congr_ok {g : α → Except ε β}
    (same : ∀ a, x = .ok a → f a = g a) : (x >>= f) = (x >>= g) := by
  cases x with
  | error e => rfl
  | ok a => exact same a rfl

/-- Two runs agree on what only looks at what they agree on. -/
theorem Except.bind_pure_congr {γ : Type w} {y : Except ε α} {g : α → γ} {f : α → β}
    (same : x.map g = y.map g) (looks : ∀ a b, g a = g b → f a = f b) :
    (x >>= fun a => pure (f a)) = (y >>= fun a => pure (f a)) := by
  cases x with
  | error e =>
    cases y with
    | error e' =>
      cases same
      rfl
    | ok b => cases same
  | ok a =>
    cases y with
    | error e' => cases same
    | ok b => exact congrArg Except.ok (looks a b (Except.ok.inj same))

/-! ## Lists -/

/-- Results and arguments of a successful traversal. -/
theorem Except.exists_of_mem_mapM {l : List α} {results : List β} (run : l.mapM f = .ok results) :
    (∀ a ∈ l, ∃ b, f a = .ok b) ∧ ∀ b ∈ results, ∃ a ∈ l, f a = .ok b := by
  induction l generalizing results with
  | nil =>
    cases run
    exact ⟨by simp, by simp⟩
  | cons a l ih =>
    rw [mapM_cons] at run
    obtain ⟨first, ran, run⟩ := Except.bind_eq_ok.mp run
    obtain ⟨rest, rests, run⟩ := Except.bind_eq_ok.mp run
    cases run
    obtain ⟨all, each⟩ := ih rests
    constructor
    · intro a' mem
      obtain rfl | mem := mem_cons.mp mem
      · exact ⟨first, ran⟩
      · exact all a' mem
    · intro b mem
      obtain rfl | mem := mem_cons.mp mem
      · exact ⟨a, mem_cons_self, ran⟩
      · obtain ⟨a', mem', ran'⟩ := each b mem
        exact ⟨a', mem_cons_of_mem a mem', ran'⟩

theorem Except.forM_eq_ok {f : α → Except ε PUnit} {l : List α} :
    l.forM f = .ok ⟨⟩ ↔ ∀ a ∈ l, f a = .ok ⟨⟩ := by
  induction l with
  | nil => exact ⟨by simp, fun _ => rfl⟩
  | cons a l ih =>
    rw [forall_mem_cons, ← ih]
    refine Except.bind_eq_ok.trans ⟨fun ⟨⟨⟩, run⟩ => run, fun run => ⟨⟨⟩, run⟩⟩

end Peryx
