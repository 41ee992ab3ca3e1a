import Peryx.Lib.Machine

/-!
# Interleaved programs

Calls that work on shared state, one atomic operation at a time, in any order.
A call is a program: an operation and what to do with its answer, which is
missing where the operation failed.
-/

namespace Peryx.Interleaving

variable {Op : Type} {Ans : Op → Type} {α β : Type}

/-! ## Programs -/

/-- A program: a result, giving up, or an operation and what follows it. -/
inductive Prog (Op : Type) (Ans : Op → Type) (α : Type) : Type where
  | ret (a : α)
  | fail
  | call (op : Op) (rest : Option (Ans op) → Prog Op Ans α)

namespace Prog

def bind : Prog Op Ans α → (α → Prog Op Ans β) → Prog Op Ans β
  | ret a, next => next a
  | fail, _ => fail
  | call op rest, next => call op fun answer => (rest answer).bind next

instance : Monad (Prog Op Ans) where
  pure := ret
  bind := bind

def perform (op : Op) : Prog Op Ans (Ans op) :=
  call op fun answer => match answer with
    | some a => ret a
    | none => fail

def attempt (op : Op) : Prog Op Ans (Option (Ans op)) :=
  call op ret

/-- The program, and `cleanup` where it fails. -/
def onFail : Prog Op Ans α → Prog Op Ans Unit → Prog Op Ans α
  | ret a, _ => ret a
  | fail, cleanup => cleanup.bind fun _ => fail
  | call op rest, cleanup => call op fun answer => (rest answer).onFail cleanup

/-- The program returns only right after an operation that `last` holds of, and
that succeeded. -/
def Closes (last : Op → Prop) : Prog Op Ans α → Prop
  | ret _ => False
  | fail => True
  | call op rest => ∀ answer,
      (last op ∧ answer.isSome ∧ ∃ a, rest answer = ret a) ∨ (rest answer).Closes last

section Closes

variable {last : Op → Prop}

/-- What comes before does not matter. -/
theorem Closes.bind {program : Prog Op Ans α} {next : α → Prog Op Ans β}
    (closes : ∀ a, (next a).Closes last) : (program >>= next).Closes last := by
  change (program.bind next).Closes last
  induction program with
  | ret a => exact closes a
  | fail => trivial
  | call op rest ih => exact fun answer => .inr (ih answer)

end Closes

end Prog

/-! ## Pools -/

/-- How operations work on the shared state. An input decides what is left open,
faults among it; a call that ends closes what it holds. -/
structure Shared (σ Op : Type) (Ans : Op → Type) (Tid ι : Type) where
  exec : Tid → (op : Op) → ι → σ → Option (Ans op) × σ
  close : Tid → σ → σ

/-- Shared state, and the calls in flight by thread. -/
structure Pool (σ Op : Type) (Ans : Op → Type) (Tid : Type) where
  shared : σ
  calls : Tid → Option (Prog Op Ans Unit)

/-- A call starts, goes one operation further, or is abandoned. -/
inductive Step (Op : Type) (Ans : Op → Type) (Tid ι : Type) where
  | start (t : Tid) (program : Prog Op Ans Unit)
  | resume (t : Tid) (input : ι)
  | abandon (t : Tid)

variable {σ Tid ι : Type}

namespace Pool

def init (s : σ) : Pool σ Op Ans Tid where
  shared := s
  calls _ := none

def put [DecidableEq Tid] (pool : Pool σ Op Ans Tid) (s : σ) (t : Tid)
    (call : Option (Prog Op Ans Unit)) : Pool σ Op Ans Tid where
  shared := s
  calls u := if u = t then call else pool.calls u

end Pool

/-- One step of the pool. -/
def step [DecidableEq Tid] (shared : Shared σ Op Ans Tid ι) (pool : Pool σ Op Ans Tid) :
    Step Op Ans Tid ι → Pool σ Op Ans Tid × Unit
  | .start t program =>
    match pool.calls t with
    | none => (pool.put pool.shared t (some program), ())
    | some _ => (pool, ())
  | .resume t input =>
    match pool.calls t with
    | none => (pool, ())
    | some (.call op rest) =>
      let (answer, s) := shared.exec t op input pool.shared
      (pool.put s t (some (rest answer)), ())
    | some _ => (pool.put (shared.close t pool.shared) t none, ())
  | .abandon t => (pool.put (shared.close t pool.shared) t none, ())

/-! ## Disciplines -/

/-- What calls keep to, and rely on each other for. An exclusive operation is one
that is only met where no other call is in flight. -/
structure Discipline (shared : Shared σ Op Ans Tid ι) where
  inv : σ → Prop
  rely : Tid → σ → σ → Prop
  allowed : Tid → Op → σ → Prop
  exclusive : Op → Prop
  rely_refl : ∀ t s, rely t s s
  rely_trans : ∀ {t s s' s''}, rely t s s' → rely t s' s'' → rely t s s''
  close_inv : ∀ t {s}, inv s → inv (shared.close t s)
  close_rely : ∀ {t u} s, u ≠ t → rely u s (shared.close t s)

namespace Discipline

variable {shared : Shared σ Op Ans Tid ι} (D : Discipline shared)

/-- From a state on, whatever the others do that it relies on, the program keeps
the invariant and what the others rely on, ends as `post` says, and fails only
where `fails` holds. -/
def Safe (t : Tid) (post : α → σ → Prop) (fails : σ → Prop) : Prog Op Ans α → σ → Prop
  | .ret a, s => post a s
  | .fail, s => fails s
  | .call op rest, s => ∀ s', D.rely t s s' → D.inv s' → D.allowed t op s' → ∀ input,
      D.inv (shared.exec t op input s').2 ∧
        (D.exclusive op ∨ ∀ u, u ≠ t → D.rely u s' (shared.exec t op input s').2) ∧
        Safe t post fails (rest (shared.exec t op input s').1) (shared.exec t op input s').2

variable {D} {t : Tid} {fails : σ → Prop}

variable {program : Prog Op Ans α} {s : σ} {pool : Pool σ Op Ans Tid}

variable {next : α → Prog Op Ans β} {post : β → σ → Prop} {fails' : σ → Prop}

/-- **Sequence.** -/
theorem Safe.bind (safe : D.Safe t (fun a s => D.Safe t post fails (next a) s) fails program s) :
    D.Safe t post fails (program >>= next) s := by
  induction program generalizing s with
  | ret a => exact safe
  | fail => exact safe
  | call op rest ih =>
    intro s' relied holds allowed input
    obtain ⟨inv, others, rest⟩ := safe s' relied holds allowed input
    exact ⟨inv, others, ih _ rest⟩

/-- **Consequence.** -/
theorem Safe.mono {post post' : α → σ → Prop}
    (weaker : ∀ a s, post a s → post' a s) (weaker' : ∀ s, fails s → fails' s)
    (safe : D.Safe t post fails program s) : D.Safe t post' fails' program s := by
  induction program generalizing s with
  | ret a => exact weaker a s safe
  | fail => exact weaker' s safe
  | call op rest ih =>
    intro s' relied holds allowed input
    obtain ⟨inv, others, rest⟩ := safe s' relied holds allowed input
    exact ⟨inv, others, ih _ rest⟩

theorem Safe.andThen {mid : α → σ → Prop} (safe : D.Safe t mid fails' program s)
    (rest : ∀ a s', mid a s' → D.Safe t post fails (next a) s')
    (failed : ∀ s', fails' s' → fails s') : D.Safe t post fails (program >>= next) s :=
  Safe.bind (safe.mono rest failed)

theorem Safe.seq {mid : α → σ → Prop} (safe : D.Safe t mid fails program s)
    (rest : ∀ a s', mid a s' → D.Safe t post fails (next a) s') :
    D.Safe t post fails (program >>= next) s :=
  safe.andThen rest fun _ => id

/-- **Cleanup.** -/
theorem Safe.onFail {cleanup : Prog Op Ans Unit} {post : α → σ → Prop}
    (safe : D.Safe t post (D.Safe t (fun _ => fails) fails cleanup) program s) :
    D.Safe t post fails (program.onFail cleanup) s := by
  induction program generalizing s with
  | ret a => exact safe
  | fail => exact Safe.bind safe
  | call op rest ih =>
    intro s' relied holds allowed input
    obtain ⟨inv, others, rest⟩ := safe s' relied holds allowed input
    exact ⟨inv, others, ih _ rest⟩

/-- What others do meanwhile leaves a program safe. -/
theorem Safe.relied {post : α → σ → Prop} (stable : ∀ a s s', D.rely t s s' → post a s → post a s')
    (stable' : ∀ s s', D.rely t s s' → fails s → fails s') {s' : σ}
    (relied : D.rely t s s') (safe : D.Safe t post fails program s) :
    D.Safe t post fails program s' := by
  cases program with
  | ret a => exact stable a s s' relied safe
  | fail => exact stable' s s' relied safe
  | call op rest => exact fun s'' relied' => safe s'' (D.rely_trans relied relied')

def Ends (post : α → σ → Prop) (fails : σ → Prop) : Option α → σ → Prop
  | some a, s => post a s
  | none, s => fails s

theorem Safe.perform {op : Op} {post : Ans op → σ → Prop}
    (once : ∀ s', D.rely t s s' → D.inv s' → D.allowed t op s' → ∀ input,
      D.inv (shared.exec t op input s').2 ∧
        (D.exclusive op ∨ ∀ u, u ≠ t → D.rely u s' (shared.exec t op input s').2) ∧
        Ends post fails (shared.exec t op input s').1 (shared.exec t op input s').2) :
    D.Safe t post fails (Prog.perform op) s := by
  intro s' relied holds allowed input
  obtain ⟨inv, others, ends⟩ := once s' relied holds allowed input
  refine ⟨inv, others, ?_⟩
  generalize shared.exec t op input s' = ended at ends
  obtain ⟨answer, s''⟩ := ended
  cases answer with
  | some a => exact ends
  | none => exact ends

/-- **Loop.** -/
theorem Safe.forM {f : β → Prog Op Ans Unit} {settled : β → σ → Prop}
    (stable : ∀ x s s', D.rely t s s' → settled x s → settled x s') {xs : List β}
    (each : ∀ x ∈ xs, ∀ s', D.rely t s s' →
      D.Safe t (fun _ s'' => D.rely t s' s'' ∧ settled x s'') (D.rely t s') (f x) s') :
    D.Safe t (fun _ s' => D.rely t s s' ∧ ∀ x ∈ xs, settled x s') (D.rely t s) (xs.forM f) s := by
  induction xs generalizing s with
  | nil => exact ⟨D.rely_refl t s, by simp⟩
  | cons x xs ih =>
    refine (each x List.mem_cons_self s (D.rely_refl t s)).andThen ?_ fun _ kept => kept
    rintro _ s' ⟨kept, here⟩
    have rest := ih fun y mem s'' kept' =>
      each y (List.mem_cons_of_mem x mem) s'' (D.rely_trans kept kept')
    refine rest.mono ?_ fun _ kept' => D.rely_trans kept kept'
    rintro _ s'' ⟨kept', others⟩
    refine ⟨D.rely_trans kept kept', fun y mem => ?_⟩
    obtain rfl | mem := List.mem_cons.mp mem
    · exact stable y s' s'' kept' here
    · exact others y mem

variable (D)

/-- What a step has to meet: a call performs what it is allowed to, alone where
the operation asks for it, and a call that starts is safe. -/
def Meets (safe : Prog Op Ans Unit → Prop) (pool : Pool σ Op Ans Tid) :
    Step Op Ans Tid ι → Prop
  | .start _ program => safe program
  | .resume t _ =>
    match pool.calls t with
    | some (.call op _) =>
      D.allowed t op pool.shared ∧ (D.exclusive op → ∀ u, u ≠ t → pool.calls u = none)
    | _ => True
  | .abandon _ => True

/-- The invariant, and that every call in flight is safe. -/
structure Runs (pool : Pool σ Op Ans Tid) : Prop where
  inv : D.inv pool.shared
  calls : ∀ t program, pool.calls t = some program →
    D.Safe t (fun _ _ => True) (fun _ => True) program pool.shared

theorem runs_init (inv : D.inv s) : D.Runs (Pool.init s) :=
  ⟨inv, nofun⟩

variable {D} {safe : Prog Op Ans Unit → Prop} [DecidableEq Tid]

theorem Runs.put (runs : D.Runs pool) (inv : D.inv s) {call : Option (Prog Op Ans Unit)}
    (mine : ∀ program, call = some program → D.Safe t (fun _ _ => True) (fun _ => True) program s)
    (others : ∀ u, u ≠ t → pool.calls u = none ∨ D.rely u pool.shared s) :
    D.Runs (pool.put s t call) := by
  refine ⟨inv, fun u program flying => ?_⟩
  unfold Pool.put at flying
  dsimp only at flying
  split at flying
  · next same =>
    subst same
    exact mine program flying
  · next other =>
    obtain none | relied := others u other
    · cases none.symm.trans flying
    · exact (runs.calls u program flying).relied (fun _ _ _ _ _ => trivial)
        (fun _ _ _ _ => trivial) relied

theorem Runs.close (runs : D.Runs pool) (t : Tid) :
    D.Runs (pool.put (shared.close t pool.shared) t none) :=
  runs.put (D.close_inv t runs.inv) nofun fun _ other => .inr (D.close_rely pool.shared other)

/-- **Step.** -/
theorem Runs.step (starts : ∀ program, safe program → ∀ t s, D.inv s →
    D.Safe t (fun _ _ => True) (fun _ => True) program s)
    (runs : D.Runs pool) {how : Step Op Ans Tid ι} (meets : D.Meets safe pool how) :
    D.Runs (Machine.next (Interleaving.step shared) pool how) := by
  unfold Machine.next Interleaving.step
  cases how with
  | start t program =>
    dsimp only
    cases pool.calls t with
    | some _ => exact runs
    | none =>
      refine runs.put runs.inv (fun program' same => ?_) fun u _ => .inr (D.rely_refl u _)
      cases same
      exact starts program meets t _ runs.inv
  | abandon t => exact runs.close t
  | resume t input =>
    dsimp only
    cases flying : pool.calls t with
    | none => exact runs
    | some program =>
      cases program with
      | ret a => exact runs.close t
      | fail => exact runs.close t
      | call op rest =>
        unfold Meets at meets
        dsimp only at meets
        rw [flying] at meets
        obtain ⟨allowed, alone⟩ := meets
        obtain ⟨inv, others, rests⟩ := runs.calls t _ flying pool.shared (D.rely_refl t _) runs.inv
          allowed input
        refine runs.put inv (fun program same => ?_) fun u other => ?_
        · cases same
          exact rests
        · obtain exclusive | others := others
          · exact .inl (alone exclusive u other)
          · exact .inr (others u other)

/-- **Safe programs keep the invariant**, in every run whose steps meet what the
discipline asks. -/
theorem invariant (starts : ∀ program, safe program → ∀ t s, D.inv s →
    D.Safe t (fun _ _ => True) (fun _ => True) program s) (inv : D.inv s)
    (steps : List (Step Op Ans Tid ι))
    (meets : Machine.Along (Interleaving.step shared) (D.Meets safe) (Pool.init s) steps) :
    D.inv (Machine.exec (Interleaving.step shared) (Pool.init s) steps).shared :=
  (Machine.exec_invariant (Interleaving.step shared)
    (fun _ _ runs meets => runs.step starts meets) (Pool.init s) steps (D.runs_init inv) meets).inv

end Discipline

end Peryx.Interleaving
