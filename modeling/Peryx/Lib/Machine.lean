import Mathlib

/-!
# Deterministic machines and their runs

A machine is a total step function `σ → ι → σ × ο`: an input moves the state
and is answered.
-/

namespace Peryx.Machine

open List

universe u v w

variable {σ : Type u} {ι : Type v} {ο : Type w}

/-- The state after a step. -/
def next (step : σ → ι → σ × ο) (s : σ) (i : ι) : σ :=
  (step s i).1

/-- The answer of a step. -/
def answer (step : σ → ι → σ × ο) (s : σ) (i : ι) : ο :=
  (step s i).2

/-- The state after a run. -/
def exec (step : σ → ι → σ × ο) : σ → List ι → σ
  | s, [] => s
  | s, i :: is => exec step (next step s i) is

/-- The answers of a run. -/
def answers (step : σ → ι → σ × ο) : σ → List ι → List ο
  | _, [] => []
  | s, i :: is => answer step s i :: answers step (next step s i) is

/-- The inputs of a run, each with its answer. -/
def transcript (step : σ → ι → σ × ο) : σ → List ι → List (ι × ο)
  | _, [] => []
  | s, i :: is => (i, answer step s i) :: transcript step (next step s i) is

/-- Every step of the run meets `A` at the state it is taken from. -/
def Along (step : σ → ι → σ × ο) (A : σ → ι → Prop) : σ → List ι → Prop
  | _, [] => True
  | s, i :: is => A s i ∧ Along step A (next step s i) is

instance decidableAlong (step : σ → ι → σ × ο) (A : σ → ι → Prop)
    [decide : ∀ s i, Decidable (A s i)] : ∀ s is, Decidable (Along step A s is)
  | _, [] => isTrue trivial
  | s, i :: is =>
    have := decidableAlong step A (next step s i) is
    inferInstanceAs (Decidable (A s i ∧ Along step A (next step s i) is))

variable (step : σ → ι → σ × ο)

@[simp] theorem exec_nil (s : σ) : exec step s [] = s := rfl

@[simp] theorem exec_cons (s : σ) (i : ι) (is : List ι) :
    exec step s (i :: is) = exec step (next step s i) is := rfl

theorem exec_append : ∀ (s : σ) (is js : List ι),
    exec step s (is ++ js) = exec step (exec step s is) js
  | _, [], _ => rfl
  | s, i :: is, js => exec_append (next step s i) is js

theorem answers_append : ∀ (s : σ) (is js : List ι), answers step s (is ++ js) =
      answers step s is ++ answers step (exec step s is) js
  | _, [], _ => rfl
  | s, i :: is, js => by
    simp only [cons_append, answers, exec_cons, answers_append]

theorem transcript_append : ∀ (s : σ) (is js : List ι), transcript step s (is ++ js) =
      transcript step s is ++ transcript step (exec step s is) js
  | _, [], _ => rfl
  | s, i :: is, js => by
    simp only [cons_append, transcript, exec_cons, transcript_append]

/-- A map between machines that commutes with steps commutes with runs. -/
theorem exec_map {τ : Type u} {ξ : Type w} {step' : τ → ι → τ × ξ} {f : σ → τ}
    (hstep : ∀ s i, f (next step s i) = next step' (f s) i) :
    ∀ (s : σ) (is : List ι), f (exec step s is) = exec step' (f s) is
  | _, [] => rfl
  | s, i :: is => by
    rw [exec_cons, exec_cons, exec_map hstep, hstep]

theorem exec_replicate_of_fixed {s : σ} {i : ι} (fixed : next step s i = s) :
    ∀ n, exec step s (List.replicate n i) = s
  | 0 => rfl
  | n + 1 => by rw [replicate_succ, exec_cons, fixed, exec_replicate_of_fixed fixed n]

theorem answer_mem_answers (s : σ) (is js : List ι) (i : ι) :
    answer step (exec step s is) i ∈ answers step s (is ++ i :: js) := by
  rw [answers_append]
  exact mem_append_right _ mem_cons_self

variable {A B : σ → ι → Prop}

/-- A condition along a run, cut in two. -/
theorem along_append : ∀ (s : σ) (is js : List ι), Along step A s (is ++ js) ↔
      Along step A s is ∧ Along step A (exec step s is) js
  | _, [], _ => by simp [Along]
  | s, i :: is, js => by
    simp only [cons_append, Along, exec_cons, and_assoc, along_append (next step s i) is js]

theorem along_of_forall : ∀ (s : σ) (is : List ι), (∀ i ∈ is, ∀ s, A s i) → Along step A s is
  | _, [], _ => trivial
  | s, i :: is, h =>
    ⟨h i mem_cons_self s, along_of_forall _ is fun j hj => h j (mem_cons_of_mem i hj)⟩

theorem along_and : ∀ (s : σ) (is : List ι),
    Along step A s is → Along step B s is → Along step (fun s i => A s i ∧ B s i) s is
  | _, [], _, _ => trivial
  | s, i :: is, ha, hb => ⟨⟨ha.1, hb.1⟩, along_and (next step s i) is ha.2 hb.2⟩

theorem along_imp (weaker : ∀ s i, A s i → B s i) :
    ∀ (s : σ) (is : List ι), Along step A s is → Along step B s is
  | _, [], _ => trivial
  | s, i :: is, ha => ⟨weaker s i ha.1, along_imp weaker (next step s i) is ha.2⟩

/-- **Invariant rule.** What every step that meets `A` preserves holds at the
end of every run whose steps all meet `A`. -/
theorem exec_invariant {I : σ → Prop} (hstep : ∀ s i, I s → A s i → I (next step s i)) :
    ∀ (s : σ) (is : List ι), I s → Along step A s is → I (exec step s is)
  | _, [], hs, _ => hs
  | s, i :: is, hs, ha =>
    exec_invariant hstep (next step s i) is (hstep s i hs ha.1) ha.2

/-- What every step keeps, every run keeps. -/
theorem exec_invariant_always {I : σ → Prop}
    (hstep : ∀ s i, I s → I (next step s i)) (s : σ) (is : List ι)
    (hs : I s) : I (exec step s is) :=
  exec_invariant step (A := fun _ _ => True) (fun s i h _ => hstep s i h) s is hs
    (along_of_forall step s is fun _ _ _ => trivial)

/-- A property every step keeps exactly when it meets `A` holds all along a run
exactly when every step of the run meets `A`. -/
theorem always_iff_along {J I : σ → Prop} (hJ : ∀ s i, J s → B s i → J (next step s i))
    (hI : ∀ s i, J s → B s i → I s → (I (next step s i) ↔ A s i)) :
    ∀ (s : σ) (is : List ι), J s → I s → Along step B s is →
      ((∀ n, I (exec step s (is.take n))) ↔ Along step A s is)
  | s, [], _, hs, _ => by simpa [Along] using hs
  | s, i :: is, base, hs, hb => by
    have rest := always_iff_along hJ hI (next step s i) is (hJ s i base hb.1)
    have here := hI s i base hb.1 hs
    constructor
    · intro always
      have next : I (next step s i) := always 1
      exact ⟨here.mp next, (rest next hb.2).mp fun n => always (n + 1)⟩
    · rintro ⟨ha, along⟩ n
      cases n with
      | zero => exact hs
      | succ n => exact (rest (here.mpr ha) hb.2).mpr along n

end Peryx.Machine
