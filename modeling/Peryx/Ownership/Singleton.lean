import Peryx.Ownership.Decisions

/-!
# Singleton grants

A job is granted to one holder at a time, under a generation that never
repeats.

A renewal overwrites the stored deadline with the one it carries, whatever
the record held, so an older renewal that commits late shortens the promise
(`renewal_cuts_promise_short`).

- `singleton_exclusive`: no two holders, and no generation twice.
-/

namespace Peryx

open OwnershipState Machine

/-! ## What a decision told a holder -/

variable (job : String)

/-- The deadline a decision promised the holder of `job`, with the generation
it was promised under: what a grant or a renewal answers. -/
def promise (decision : Decision) (effect : OwnershipEffect) :
    Option (Nat × Int64) :=
  match decision.1, effect with
  | .acquireSingletonLease j _ _ _, .singletonAcquired _ _ generation expires =>
    if j = job then some (generation, expires) else none
  | .renewSingletonLease j _ _ generation _ _, .singletonRenewed expires =>
    if j = job then some (generation, expires) else none
  | _, _ => none

/-- The generation a decision granted `job` under, with the time of the claim. -/
def granted (decision : Decision) (effect : OwnershipEffect) :
    Option (Nat × Int64) :=
  match decision.1, effect with
  | .acquireSingletonLease j _ nowUnix _, .singletonAcquired _ _ generation _ =>
    if j = job then some (generation, nowUnix) else none
  | _, _ => none

/-- The generation of `job` a decision released. -/
def letGo (decision : Decision) (effect : OwnershipEffect) : Option Nat :=
  match decision.1, effect with
  | .releaseSingletonLease j _ _ generation _, .singletonReleased =>
    if j = job then some generation else none
  | _, _ => none

/-- The time a claim of `job` carries. -/
def claimTime (decision : Decision) : Option Int64 :=
  match decision.1 with
  | .acquireSingletonLease j _ nowUnix _ => if j = job then some nowUnix else none
  | _ => none

/-- A renewal the record honours asks for no less than the stored deadline. -/
def RenewalExtends (s : OwnershipState) (decision : Decision) : Prop :=
  match decision.1 with
  | .renewSingletonLease job holder term generation nowUnix expires =>
    ∀ record hold, s.ownedSingleton job holder term generation nowUnix = some record →
      record.held = some hold → hold.expiresAtUnix ≤ expires
  | _ => True

/-- The claims of `job` carry times that do not run backwards. -/
def ClaimTimesOrdered (log : List Decision) : Prop :=
  (log.filterMap (claimTime job)).Pairwise (· ≤ ·)

section Steps

variable {job : String} {decision : Decision} {record record' : SingletonRecord}
  {effect : OwnershipEffect} {generation : Nat} {t : Int64}

section

variable (step : SingletonStep job decision.1 decision.2 record record' effect)

include step

theorem OwnershipState.SingletonStep.generation_le :
    record.generation ≤ record'.generation := by
  cases step with
  | acquired => exact Nat.le_succ _
  | elsewhere | held | refused | renewed | released => exact le_rfl

theorem OwnershipState.SingletonStep.of_granted
    (h : granted job decision effect = some (generation, t)) :
    claimTime job decision = some t ∧ generation = record.generation + 1 ∧
      record'.generation = generation ∧
      (∀ hold, record.held = some hold → hold.lapsed t = true) ∧
      ∃ expires, boundedSingletonLease t expires = true := by
  unfold granted at h
  split at h
  case h_2 => cases h
  case h_1 j holder nowUnix expires _ _ generation' _ asked =>
    split at h
    case isFalse => cases h
    case isTrue same =>
      subst same
      cases h
      cases step with
      | elsewhere _ other => exact absurd (by rw [asked]; rfl) other
      | acquired holder' nowUnix' expires' asked' bounded free =>
        rw [asked] at asked'
        cases asked'
        exact ⟨by simp [claimTime, asked], rfl, rfl, free, expires, bounded⟩

/-! ## Promised deadlines -/

/-- The record still honours `deadline`, promised under `generation`. -/
structure Holding (generation : Nat) (deadline : Int64) (record : SingletonRecord) :
    Prop where
  current : record.generation = generation
  honoured : ∃ hold, record.held = some hold ∧ deadline ≤ hold.expiresAtUnix

theorem OwnershipState.SingletonStep.of_promise
    (h : promise job decision effect = some (generation, t)) :
    Holding generation t record' := by
  unfold promise at h
  split at h
  case h_3 => cases h
  case h_1 j holder nowUnix expires _ _ generation' _ asked =>
    split at h
    case isFalse => cases h
    case isTrue same =>
      subst same
      cases h
      cases step with
      | elsewhere _ other => exact absurd (by rw [asked]; rfl) other
      | acquired => exact ⟨rfl, _, rfl, Int64.le_refl _⟩
  case h_2 j holder term generation' nowUnix expires _ asked =>
    split at h
    case isFalse => cases h
    case isTrue same =>
      subst same
      cases h
      cases step with
      | elsewhere _ other => exact absurd (by rw [asked]; rfl) other
      | renewed holder' term' nowUnix' expires' asked' =>
        rw [asked] at asked'
        cases asked'
        exact ⟨rfl, _, rfl, Int64.le_refl _⟩

end

/-- A claim that finds a hold lapsed comes at least the skew past its
deadline: a bounded claim is never at the end of time, where the deadline
would saturate. -/
theorem deadline_passed {hold : SingletonHold} {expires : Int64}
    (lapsed : hold.lapsed t = true) (bounded : boundedSingletonLease t expires = true) :
    hold.expiresAtUnix.toInt + 5 ≤ t.toInt := by
  rw [boundedSingletonLease, Bool.and_eq_true, decide_eq_true_iff, gt_iff_lt,
    Int64.lt_iff_toInt_lt] at bounded
  rw [SingletonHold.lapsed, decide_eq_true_iff, ge_iff_le, Int64.le_iff_toInt_le,
    Int64.toInt_saturatingAdd] at lapsed
  have skew : authorityClockSkewSecs.toInt = 5 := rfl
  have := expires.toInt_lt
  omega

theorem Holding.granted_late {deadline : Int64} {generation' : Nat}
    (h : Holding generation deadline record)
    (step : SingletonStep job decision.1 decision.2 record record' effect)
    (next : granted job decision effect = some (generation', t)) :
    deadline.toInt + 5 ≤ t.toInt := by
  obtain ⟨-, -, -, free, expires, bounded⟩ := step.of_granted next
  obtain ⟨hold, standing, later⟩ := h.honoured
  have passed := deadline_passed (free hold standing) bounded
  rw [Int64.le_iff_toInt_le] at later
  omega

end Steps

/-- **Step.** A decision that is no release of this generation, and shortens
no deadline, keeps the promise, unless it grants the job anew. -/
theorem Holding.step {job : String} {generation : Nat} {deadline : Int64}
    {s : OwnershipState} {decision : Decision}
    (h : Holding generation deadline (s.singleton job))
    (extend : RenewalExtends s decision)
    (kept : letGo job decision (s.step decision).2 ≠ some generation) :
    Holding generation deadline ((s.step decision).1.singleton job) ∨
      ∃ g t, granted job decision (s.step decision).2 = some (g, t) := by
  obtain ⟨command, applied⟩ := decision
  have hstep := (apply_takes s command applied).singleton job
  obtain ⟨current, hold, standing, later⟩ := h
  rw [OwnershipState.step] at kept ⊢
  generalize s.apply command applied = r at hstep kept ⊢
  generalize hr : s.singleton job = record at hstep standing current
  generalize hr' : r.1.singleton job = record' at hstep ⊢
  generalize r.2 = effect at hstep kept ⊢
  cases hstep with
  | elsewhere | held | refused => exact .inl ⟨current, hold, standing, later⟩
  | acquired holder nowUnix expires asked bounded free =>
    exact .inr ⟨_, _, by rw [asked]; exact if_pos rfl⟩
  | renewed holder term nowUnix expires asked bounded hold' standing' owned live =>
    subst asked
    rw [standing] at standing'
    cases standing'
    refine .inl ⟨current, _, rfl, Int64.le_trans later (extend record hold ?_ standing)⟩
    -- the record honours this renewal, so it is the one `RenewalExtends` speaks of
    have present : s.singletons[job]? = some record := by
      rw [OwnershipState.singleton] at hr
      cases hp : s.singletons[job]? with
      | none =>
        rw [hp] at hr
        subst hr
        cases standing
      | some stored =>
        rw [hp] at hr
        exact congrArg some hr
    simp [ownedSingleton, present, standing, owned, live]
  | released holder term nowUnix asked =>
    subst asked
    exact absurd (by simp [letGo, current]) kept

/-- **Run.** From a record that honours a deadline, the first and every later
grant comes past the deadline, as long as the generation is not released. -/
theorem Holding.next_claim {job : String} {generation : Nat} {deadline : Int64} :
    ∀ (between : List Decision) (s : OwnershipState) (later : Decision) (g : Nat)
      (t : Int64),
      Holding generation deadline (s.singleton job) →
      Along OwnershipState.step RenewalExtends s between →
      ClaimTimesOrdered job (between ++ [later]) →
      Along OwnershipState.step
        (fun s d => letGo job d (s.step d).2 ≠ some generation) s between →
      granted job later ((exec OwnershipState.step s between).step later).2 = some (g, t) →
      deadline.toInt + 5 ≤ t.toInt
  | [], s, later, g, t, h, _, _, _, next =>
    h.granted_late ((apply_takes s later.1 later.2).singleton job) next
  | d :: between, s, later, g, t, h, extend, ordered, kept, next => by
    have tail : ClaimTimesOrdered job (between ++ [later]) := by
      refine List.Pairwise.sublist (List.Sublist.filterMap _ ?_) ordered
      exact List.sublist_cons_self d (between ++ [later])
    rcases h.step extend.1 kept.1 with held | ⟨g', t', anew⟩
    · exact next_claim between _ later g t held extend.2 tail kept.2 next
    -- granted anew: this claim is late, and no later one carries an earlier time
    · have late := h.granted_late ((apply_takes s d.1 d.2).singleton job) anew
      have claimed := (((apply_takes s d.1 d.2).singleton job).of_granted anew).1
      have claimed' := ((apply_takes _ later.1 later.2).singleton job).of_granted next |>.1
      rw [ClaimTimesOrdered, List.cons_append, List.filterMap_cons_some claimed,
        List.pairwise_cons] at ordered
      have after := ordered.1 t (List.mem_filterMap.mpr ⟨later, by simp, claimed'⟩)
      rw [Int64.le_iff_toInt_le] at after
      omega

theorem generation_le_exec (s : OwnershipState) (log : List Decision) :
    (s.singleton job).generation ≤ ((exec step s log).singleton job).generation := by
  refine exec_invariant_always step
    (I := fun s' => (s.singleton job).generation ≤ (s'.singleton job).generation)
    (fun s' d h => h.trans ((apply_takes s' d.1 d.2).singleton job).generation_le) s log le_rfl

/-- **Singleton exclusivity.** Over every log, the generations of successive
grants of one job strictly increase. When every honoured renewal asks for no
less than the stored deadline and the job's claims carry times in order, a grant
after a promise of generation `g` comes at least the skew past the promised
deadline, unless `g` was released in between. -/
theorem singleton_exclusive (job : String) (before between : List Decision)
    (first later : Decision) :
    (∀ g t g' t',
      granted job first (effectAfter before first) = some (g, t) →
      granted job later (effectAfter (before ++ first :: between) later) = some (g', t') →
      g < g') ∧
    (Machine.Along step RenewalExtends new (before ++ first :: (between ++ [later])) →
      ClaimTimesOrdered job (before ++ first :: (between ++ [later])) →
      ∀ (g : Nat) (deadline : Int64) (g' : Nat) (t : Int64),
        promise job first (effectAfter before first) = some (g, deadline) →
        granted job later (effectAfter (before ++ first :: between) later) = some (g', t) →
        Machine.Along step (fun s d => letGo job d (s.step d).2 ≠ some g)
          (run (before ++ [first])) between →
        deadline.toInt + authorityClockSkewSecs.toInt ≤ t.toInt) := by
  have split : run (before ++ first :: between) =
      exec step ((run before).step first).1 between := by
    rw [run, exec_append]
    rfl
  have firstStep := (apply_takes (run before) first.1 first.2).singleton job
  refine ⟨?_, ?_⟩
  · intro g t g' t' once again
    rw [effectAfter, split] at again
    have raised : (((run before).step first).1.singleton job).generation = g :=
      (firstStep.of_granted once).2.2.1
    have kept := generation_le_exec job ((run before).step first).1 between
    have above := (((apply_takes _ later.1 later.2).singleton job).of_granted again).2.1
    omega
  · intro extend ordered g deadline g' t promised next kept
    have extend := ((along_append step new before _).mp extend).2.2
    have ordered : ClaimTimesOrdered job (between ++ [later]) := by
      refine List.Pairwise.sublist (List.Sublist.filterMap _ ?_) ordered
      exact ((List.sublist_cons_self first _).trans (List.sublist_append_right before _))
    rw [run, exec_append] at kept
    rw [effectAfter, split] at next
    exact (firstStep.of_promise promised).next_claim between _ later g' t
      ((along_append step _ between [later]).mp extend).1 ordered kept next

/-- A grant to `a` until 30, renewed at 20 until 50, and a claim by `b`. -/
theorem singleton_exclusive_renewed :
    granted "gc" (.acquireSingletonLease "gc" "b" 55 85, ⟨1, 3⟩)
        (effectAfter [(.acquireSingletonLease "gc" "a" 0 30, ⟨1, 1⟩),
          (.renewSingletonLease "gc" "a" 1 1 20 50, ⟨1, 2⟩)]
          (.acquireSingletonLease "gc" "b" 55 85, ⟨1, 3⟩)) = some (2, 55) ∧
      (50 : Int64).toInt + authorityClockSkewSecs.toInt ≤ (55 : Int64).toInt := by
  refine ⟨by decide +kernel, ?_⟩
  refine (singleton_exclusive "gc" [(.acquireSingletonLease "gc" "a" 0 30, ⟨1, 1⟩)] []
    (.renewSingletonLease "gc" "a" 1 1 20 50, ⟨1, 2⟩)
    (.acquireSingletonLease "gc" "b" 55 85, ⟨1, 3⟩)).2 ⟨trivial, ?_, trivial, trivial⟩
    (by unfold ClaimTimesOrdered; decide +kernel) 1 50 2 55 (by decide +kernel)
    (by decide +kernel) trivial
  intro record hold owned standing
  have stored : ownedSingleton (run [(.acquireSingletonLease "gc" "a" 0 30, ⟨1, 1⟩)])
      "gc" "a" 1 1 20 = some ⟨1, some ⟨"a", 1, 30⟩⟩ := by decide +kernel
  cases owned.symm.trans stored
  cases standing
  decide

/-- `a` is promised 50 by the renewal it sent at 20. The renewal it had sent at
10 commits after it and puts the deadline back to 40, so `b`, claiming at 45,
is granted the job ten seconds before `a`'s promise is over. In the second log
a claim stamped 10 follows a released grant stamped 35. -/
theorem renewal_cuts_promise_short :
    promise "gc" (.renewSingletonLease "gc" "a" 1 1 20 50, ⟨1, 2⟩)
        (effectAfter [(.acquireSingletonLease "gc" "a" 0 30, ⟨1, 1⟩)]
          (.renewSingletonLease "gc" "a" 1 1 20 50, ⟨1, 2⟩)) = some (1, 50) ∧
    effectAfter [(.acquireSingletonLease "gc" "a" 0 30, ⟨1, 1⟩),
          (.renewSingletonLease "gc" "a" 1 1 20 50, ⟨1, 2⟩)]
        (.renewSingletonLease "gc" "a" 1 1 10 40, ⟨1, 3⟩) = .singletonRenewed 40 ∧
    granted "gc" (.acquireSingletonLease "gc" "b" 45 75, ⟨1, 4⟩)
        (effectAfter [(.acquireSingletonLease "gc" "a" 0 30, ⟨1, 1⟩),
          (.renewSingletonLease "gc" "a" 1 1 20 50, ⟨1, 2⟩),
          (.renewSingletonLease "gc" "a" 1 1 10 40, ⟨1, 3⟩)]
          (.acquireSingletonLease "gc" "b" 45 75, ⟨1, 4⟩)) = some (2, 45) ∧
    (45 : Int64).toInt < (50 : Int64).toInt + authorityClockSkewSecs.toInt ∧
    promise "gc" (.acquireSingletonLease "gc" "a" 0 30, ⟨1, 1⟩)
        (effectAfter [] (.acquireSingletonLease "gc" "a" 0 30, ⟨1, 1⟩)) = some (1, 30) ∧
    granted "gc" (.acquireSingletonLease "gc" "c" 10 40, ⟨1, 4⟩)
        (effectAfter [(.acquireSingletonLease "gc" "a" 0 30, ⟨1, 1⟩),
          (.acquireSingletonLease "gc" "b" 35 65, ⟨1, 2⟩),
          (.releaseSingletonLease "gc" "b" 1 2 36, ⟨1, 3⟩)]
          (.acquireSingletonLease "gc" "c" 10 40, ⟨1, 4⟩)) = some (3, 10) ∧
    (10 : Int64).toInt < (30 : Int64).toInt + authorityClockSkewSecs.toInt := by
  decide +kernel

end Peryx
