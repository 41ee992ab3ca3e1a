import Peryx.Lib.BTreeMap
import Peryx.Lib.Machine

/-!
# Circuit breakers over blob sources

`peryx-ha-distributed/src/circuit.rs`: a source that keeps failing is excluded
until its cooldown has passed, and then takes one probe. Every call reads the
clock before it takes the breaker's lock, so a step carries its own reading and
readings need not come in order.

- `step_leads`: what one step can do to a breaker.
- `circuit_discipline`: when a run admits, excludes and probes a source.
-/

namespace Peryx

open Machine BTreeMap

/-- Durations are naturals, in any unit. -/
structure CircuitConfig where
  tripAfter : Nat := 3
  cooldown : Nat := 30
  probeTimeout : Nat := 30

/-- A claim is an allocation of its own (`Arc<()>`), here a number never used
before. -/
inductive CircuitState where
  | closed (failures : Nat)
  | opened (deadline : Nat)
  | halfOpen (claim : Nat) (deadline : Nat)
deriving DecidableEq

structure CircuitPermit where
  source : String
  claim : Option Nat
deriving DecidableEq

/-- The sources, and the permits that are out. -/
structure CircuitBreaker where
  sources : BTreeMap String CircuitState := ∅
  permits : BTreeMap Nat CircuitPermit := ∅
  nextPermit : Nat := 0
  nextClaim : Nat := 0

inductive CircuitStep where
  | request (source : String) (now : Nat)
  | success (id now : Nat)
  | failure (id now : Nat)
  | drop (id now : Nat)

inductive CircuitEvent where
  | quiet
  | refused
  | granted (id : Nat) (claim : Option Nat)
deriving DecidableEq

def cooldownDeadline (now probeDeadline cooldown : Nat) : Nat :=
  if now ≥ probeDeadline then probeDeadline + cooldown else now + cooldown

variable (config : CircuitConfig) {now : Nat}

def recordClosedOutcome (sources : BTreeMap String CircuitState)
    (source : String) (now : Nat) (success : Bool) : BTreeMap String CircuitState :=
  if success then sources.insert source (.closed 0)
  else
    let threshold := max config.tripAfter 1
    let failures := match sources[source]? with
      | some (.closed failures) => failures
      | some (.opened _) | some (.halfOpen ..) => threshold
      | none => 0
    sources.insert source
      (if failures + 1 < threshold then .closed (failures + 1)
      else .opened (now + config.cooldown))

/-- A probe's outcome counts while its claim is the active one. -/
def resolve (sources : BTreeMap String CircuitState)
    (permit : CircuitPermit) (now : Nat) (success : Bool) : BTreeMap String CircuitState :=
  match permit.claim with
  | some claim =>
    match sources[permit.source]? with
    | some (.halfOpen active deadline) =>
      if active ≠ claim then sources
      else
        sources.insert permit.source
          (if now ≥ deadline ∨ success = false then
            .opened (cooldownDeadline now deadline config.cooldown)
          else .closed 0)
    | _ => sources
  | none => recordClosedOutcome config sources permit.source now success

def dropPermit (sources : BTreeMap String CircuitState)
    (permit : CircuitPermit) (now : Nat) : BTreeMap String CircuitState :=
  match permit.claim with
  | none => sources
  | some claim =>
    match sources[permit.source]? with
    | some (.halfOpen active deadline) =>
      if active = claim then
        sources.insert permit.source (.opened (cooldownDeadline now deadline config.cooldown))
      else sources
    | _ => sources

namespace CircuitBreaker

def grant (breaker : CircuitBreaker) (permit : CircuitPermit) : CircuitBreaker × CircuitEvent :=
  ({ breaker with
      permits := breaker.permits.insert breaker.nextPermit permit
      nextPermit := breaker.nextPermit + 1 }, .granted breaker.nextPermit permit.claim)

def claimProbe (config : CircuitConfig) (breaker : CircuitBreaker) (source : String) (now : Nat) :
    CircuitBreaker × CircuitEvent :=
  { breaker with
    sources := breaker.sources.insert source
      (.halfOpen breaker.nextClaim (now + config.probeTimeout))
    nextClaim := breaker.nextClaim + 1 }.grant ⟨source, some breaker.nextClaim⟩

def admitCall (config : CircuitConfig) (breaker : CircuitBreaker) (source : String) (now : Nat) :
    CircuitBreaker × CircuitEvent :=
  match breaker.sources[source]? with
  | none | some (.closed _) => breaker.grant ⟨source, none⟩
  | some (.opened deadline) =>
    if now < deadline then (breaker, .refused) else breaker.claimProbe config source now
  | some (.halfOpen _ deadline) =>
    -- an expired probe keeps its entry, open until its deadline plus the cooldown
    if now < deadline + config.cooldown then (breaker, .refused)
    else breaker.claimProbe config source now

def settle (breaker : CircuitBreaker) (id : Nat)
    (outcome : BTreeMap String CircuitState → CircuitPermit → BTreeMap String CircuitState) :
    CircuitBreaker × CircuitEvent :=
  match breaker.permits[id]? with
  | none => (breaker, .quiet)
  | some permit =>
    ({ breaker with
        permits := breaker.permits.erase id
        sources := outcome breaker.sources permit }, .quiet)

def step (config : CircuitConfig) (breaker : CircuitBreaker) :
    CircuitStep → CircuitBreaker × CircuitEvent
  | .request source now => breaker.admitCall config source now
  | .success id now => breaker.settle id fun sources permit =>
    resolve config sources permit now true
  | .failure id now => breaker.settle id fun sources permit =>
    resolve config sources permit now false
  | .drop id now => breaker.settle id fun sources permit => dropPermit config sources permit now

end CircuitBreaker

/-! ## What an outcome makes of a source -/

inductive PermitEnd where
  | success
  | failure
  | dropped
deriving DecidableEq

/-- The source after a permit ended. -/
def settledBy (current : Option CircuitState) (claim : Option Nat)
    (now : Nat) : PermitEnd → Option CircuitState
  | ending =>
    match claim, ending with
    | none, .dropped => current
    | none, .success => some (.closed 0)
    | none, .failure =>
      match current with
      | some (.closed failures) =>
        if failures + 1 < max config.tripAfter 1 then some (.closed (failures + 1))
        else some (.opened (now + config.cooldown))
      | none =>
        if 1 < max config.tripAfter 1 then some (.closed 1)
        else some (.opened (now + config.cooldown))
      | _ => some (.opened (now + config.cooldown))
    | some claim, ending =>
      match current with
      | some (.halfOpen active deadline) =>
        if active = claim then
          if now < deadline ∧ ending = .success then some (.closed 0)
          else some (.opened (min now deadline + config.cooldown))
        else current
      | _ => current

def CircuitStep.ending : CircuitStep → Option (Nat × Nat × PermitEnd)
  | .request .. => none
  | .success id now => some (id, now, .success)
  | .failure id now => some (id, now, .failure)
  | .drop id now => some (id, now, .dropped)

section Settled

variable {config : CircuitConfig} {sources : BTreeMap String CircuitState} {permit : CircuitPermit}

theorem cooldownDeadline_eq (now probeDeadline cooldown : Nat) :
    cooldownDeadline now probeDeadline cooldown = min now probeDeadline + cooldown := by
  unfold cooldownDeadline
  split <;> omega

theorem get_recordClosedOutcome (success : Bool) (source other : String) :
    (recordClosedOutcome config sources source now success)[other]? =
      if source = other then
        settledBy config sources[source]? none now (if success then .success else .failure)
      else sources[other]? := by
  unfold recordClosedOutcome
  cases success with
  | true => exact get_insert ..
  | false =>
    rw [if_neg Bool.false_ne_true, if_neg Bool.false_ne_true]
    rw [get_insert]
    refine if_congr Iff.rfl ?_ rfl
    unfold settledBy
    cases sources[source]? with
    | none => exact apply_ite some ..
    | some current =>
      cases current with
      | closed failures => exact apply_ite some ..
      | opened | halfOpen =>
        rw [if_neg (Nat.not_lt.mpr (Nat.le_succ _))]

theorem get_probe {claim : Nat} (source other : String) (ending : PermitEnd) :
    (match sources[source]? with
      | some (.halfOpen active deadline) =>
        if active = claim then
          sources.insert source
            (if now < deadline ∧ ending = PermitEnd.success then .closed 0
            else .opened (min now deadline + config.cooldown))
        else sources
      | _ => sources)[other]? =
      if source = other then settledBy config sources[source]? (some claim) now ending
      else sources[other]? := by
  by_cases same : source = other
  · subst same
    rw [if_pos rfl]
    unfold settledBy
    cases found : sources[source]? with
    | none => exact found
    | some current =>
      cases current with
      | closed | opened => exact found
      | halfOpen active deadline =>
        dsimp only
        split
        · rw [get_insert_self]
          exact apply_ite some ..
        · exact found
  · rw [if_neg same]
    split
    · split
      · exact get_insert_of_ne _ _ same
      · rfl
    · rfl

theorem get_resolve (success : Bool) (other : String) :
    (resolve config sources permit now success)[other]? =
      if permit.source = other then
        settledBy config sources[permit.source]? permit.claim now
          (if success then .success else .failure)
      else sources[other]? := by
  obtain ⟨source, claim⟩ := permit
  cases claim with
  | none => exact get_recordClosedOutcome success source other
  | some claim =>
    rw [← get_probe]
    unfold resolve
    dsimp only
    split
    · rename_i active deadline found
      rw [cooldownDeadline_eq]
      cases success <;> by_cases late : now < deadline <;>
        simp [late, Nat.not_le.mpr, Nat.not_lt.mp]
    · rfl

theorem get_dropPermit (other : String) :
    (dropPermit config sources permit now)[other]? =
      if permit.source = other then
        settledBy config sources[permit.source]? permit.claim now .dropped
      else sources[other]? := by
  obtain ⟨source, claim⟩ := permit
  cases claim with
  | none =>
    by_cases same : source = other
    · rw [if_pos same, same]
      rfl
    · rw [if_neg same]
      rfl
  | some claim =>
    rw [← get_probe]
    unfold dropPermit
    dsimp only
    split
    · rw [cooldownDeadline_eq, if_neg (c := _ ∧ PermitEnd.dropped = .success) nofun]
    · rfl

end Settled

/-! ## One step -/

namespace CircuitBreaker

/-- Requests to the source go through. -/
def Closed (breaker : CircuitBreaker) (source : String) : Prop :=
  match breaker.sources[source]? with
  | none | some (.closed _) => True
  | some (.opened _) | some (.halfOpen ..) => False

/-- The source has been opened, and the cooldown it has to wait has passed. -/
def Cooled (config : CircuitConfig) (breaker : CircuitBreaker) (source : String) (now : Nat) :
    Prop :=
  match breaker.sources[source]? with
  | some (.opened deadline) => deadline ≤ now
  | some (.halfOpen _ deadline) => deadline + config.cooldown ≤ now
  | none | some (.closed _) => False

/-- Everything a step can do. -/
inductive Leads (config : CircuitConfig) (breaker : CircuitBreaker) :
    CircuitStep → CircuitBreaker × CircuitEvent → Prop
  | same (next : CircuitStep) {event : CircuitEvent}
      (ungranted : ∀ id claim, event ≠ .granted id claim) :
      Leads config breaker next (breaker, event)
  | grants {source : String} (now : Nat) (closed : breaker.Closed source) :
      Leads config breaker (.request source now) (breaker.grant ⟨source, none⟩)
  | probes {source : String} {now : Nat} (cooled : breaker.Cooled config source now) :
      Leads config breaker (.request source now) (breaker.claimProbe config source now)
  | ends {next : CircuitStep} {id now : Nat} {ending : PermitEnd} {permit : CircuitPermit}
      (how : next.ending = some (id, now, ending)) (held : breaker.permits[id]? = some permit)
      (sources : BTreeMap String CircuitState)
      (settles : ∀ source, sources[source]? =
        if permit.source = source then
          settledBy config breaker.sources[permit.source]? permit.claim now ending
        else breaker.sources[source]?) :
      Leads config breaker next
        ({ breaker with permits := breaker.permits.erase id, sources }, .quiet)

variable {config : CircuitConfig} {breaker : CircuitBreaker} {claim : Option Nat}
    {ending : PermitEnd} {current : Option CircuitState}

theorem settle_leads {next : CircuitStep} {id : Nat}
    {outcome : BTreeMap String CircuitState → CircuitPermit → BTreeMap String CircuitState}
    (how : next.ending = some (id, now, ending))
    (settles : ∀ permit source, (outcome breaker.sources permit)[source]? =
      if permit.source = source then
        settledBy config breaker.sources[permit.source]? permit.claim now ending
      else breaker.sources[source]?) :
    Leads config breaker next (breaker.settle id outcome) := by
  unfold settle
  split
  · exact .same next fun _ _ => nofun
  · rename_i permit held
    exact .ends how held _ (settles permit)

/-- **Step.** -/
theorem step_leads (config : CircuitConfig) (breaker : CircuitBreaker) (next : CircuitStep) :
    Leads config breaker next (breaker.step config next) := by
  cases next with
  | request source now =>
    show Leads config breaker _ (breaker.admitCall config source now)
    unfold admitCall
    split
    iterate 2
      · rename_i found
        exact .grants now (by rw [Closed, found]; trivial)
    all_goals
      rename_i found
      split
      · exact .same _ fun _ _ => nofun
      · rename_i passed
        exact .probes (by rw [Cooled, found]; exact Nat.not_lt.mp passed)
  | success id now =>
    unfold step
    exact settle_leads rfl fun permit source => get_resolve true source
  | failure id now =>
    unfold step
    exact settle_leads rfl fun permit source => get_resolve false source
  | drop id now =>
    unfold step
    exact settle_leads rfl fun permit source => get_dropPermit source

/-! ## Runs -/

/-- Claims and permits are numbered by the counters, and no two permits hold one
claim. -/
structure Sound (breaker : CircuitBreaker) : Prop where
  numbered : ∀ (id : Nat) (permit : CircuitPermit), breaker.permits[id]? = some permit →
    ∀ claim, permit.claim = some claim → claim < breaker.nextClaim
  alone : ∀ (id id' : Nat) (permit permit' : CircuitPermit) (claim : Nat),
    breaker.permits[id]? = some permit → breaker.permits[id']? = some permit' →
    permit.claim = some claim → permit'.claim = some claim → id = id'

theorem Sound.grant (sound : breaker.Sound) {permit : CircuitPermit}
    (numbered : ∀ claim, permit.claim = some claim → claim < breaker.nextClaim)
    (fresh : ∀ (id : Nat) (other : CircuitPermit) (claim : Nat),
      breaker.permits[id]? = some other → permit.claim = some claim → other.claim ≠ some claim) :
    (breaker.grant permit).1.Sound := by
  constructor
  · intro id other found
    obtain ⟨-, rfl⟩ | ⟨-, found⟩ := of_get_insert found
    · exact numbered
    · exact sound.numbered id other found
  · intro id id' other other' claim found found' claims claims'
    obtain ⟨rfl, rfl⟩ | ⟨-, found⟩ := of_get_insert found
    · obtain ⟨rfl, -⟩ | ⟨-, found'⟩ := of_get_insert found'
      · rfl
      · exact absurd claims' (fresh id' other' claim found' claims)
    · obtain ⟨rfl, rfl⟩ | ⟨-, found'⟩ := of_get_insert found'
      · exact absurd claims (fresh id other claim found claims')
      · exact sound.alone id id' other other' claim found found' claims claims'

theorem Sound.step (sound : breaker.Sound)
    (next : CircuitStep) : (Machine.next (step config) breaker next).Sound := by
  have leads := step_leads config breaker next
  unfold Machine.next
  generalize CircuitBreaker.step config breaker next = result at leads
  cases leads with
  | same => exact sound
  | grants now closed => exact sound.grant (fun _ => nofun) (fun _ _ _ _ => nofun)
  | @probes source now cooled =>
    have counted : Sound { breaker with
        sources := breaker.sources.insert source
          (.halfOpen breaker.nextClaim (now + config.probeTimeout))
        nextClaim := breaker.nextClaim + 1 } :=
      ⟨fun id permit found claim claims =>
        Nat.lt_succ_of_lt (sound.numbered id permit found claim claims), sound.alone⟩
    refine counted.grant ?_ ?_
    · rintro claim ⟨⟩
      exact Nat.lt_succ_self _
    · rintro id other claim found ⟨⟩ claims
      exact Nat.lt_irrefl _ (sound.numbered id other found _ claims)
  | @ends _ id now ending permit how held sources settles =>
    have kept : ∀ {other : Nat} {permit : CircuitPermit},
        (breaker.permits.erase id)[other]? = some permit →
        breaker.permits[other]? = some permit := by
      intro other permit found
      obtain ⟨-, found⟩ := of_get_erase found
      exact found
    refine ⟨fun id permit found => sound.numbered id permit (kept found), ?_⟩
    exact fun id id' permit permit' claim found found' =>
      sound.alone id id' permit permit' claim (kept found) (kept found')

/-- The request that was granted the permit. -/
def Granted (config : CircuitConfig) (steps : List CircuitStep) (source : String) (now id : Nat)
    (claim : Option Nat) : Prop :=
  ∃ earlier later, steps = earlier ++ .request source now :: later ∧
    Machine.answer (step config) (Machine.exec (step config) {} earlier) (.request source now) =
      .granted id claim

theorem Granted.later {steps : List CircuitStep} {source : String}
    {id : Nat} (granted : Granted config steps source now id claim)
    (next : CircuitStep) : Granted config (steps ++ [next]) source now id claim := by
  obtain ⟨earlier, later, rfl, answer⟩ := granted
  exact ⟨earlier, later ++ [next], List.append_assoc _ _ _, answer⟩

/-- Every permit and every probe comes from a grant. -/
structure Comes (config : CircuitConfig) (steps : List CircuitStep) (breaker : CircuitBreaker) :
    Prop where
  permit : ∀ (id : Nat) (permit : CircuitPermit), breaker.permits[id]? = some permit →
    ∃ now, Granted config steps permit.source now id permit.claim
  probe : ∀ (source : String) (claim deadline : Nat),
    breaker.sources[source]? = some (.halfOpen claim deadline) →
    ∃ now id, Granted config steps source now id (some claim) ∧
      deadline = now + config.probeTimeout

theorem halfOpen_of_settled {active deadline : Nat}
    (after : settledBy config current claim now ending = some (.halfOpen active deadline)) :
    current = some (.halfOpen active deadline) := by
  unfold settledBy at after
  grind

/-- **Run.** -/
theorem comes_of_run (config : CircuitConfig) (steps : List CircuitStep) :
    Comes config steps (exec (step config) {} steps) := by
  induction steps using List.reverseRecOn with
  | nil =>
    refine ⟨fun id permit found => ?_, fun source claim deadline found => ?_⟩
    · exact absurd (found.symm.trans (get_empty id)) nofun
    · exact absurd (found.symm.trans (get_empty source)) nofun
  | append_singleton steps next ih =>
    rw [exec_append]
    show Comes config _ (Machine.next (step config) (exec (step config) {} steps) next)
    generalize state : exec (step config) {} steps = breaker at ih
    have leads := step_leads config breaker next
    unfold Machine.next
    generalize answer : CircuitBreaker.step config breaker next = result at leads
    have earlier : ∀ (id : Nat) (permit : CircuitPermit), breaker.permits[id]? = some permit →
        ∃ now, Granted config (steps ++ [next]) permit.source now id permit.claim :=
      fun id permit found => (ih.permit id permit found).imp fun now granted => granted.later next
    have before : ∀ (source : String) (claim deadline : Nat),
        breaker.sources[source]? = some (.halfOpen claim deadline) →
        ∃ now id, Granted config (steps ++ [next]) source now id (some claim) ∧
          deadline = now + config.probeTimeout := by
      intro source claim deadline found
      obtain ⟨now, id, granted, since⟩ := ih.probe source claim deadline found
      exact ⟨now, id, granted.later next, since⟩
    cases leads with
    | same => exact ⟨earlier, before⟩
    | @grants source now closed =>
      have granted : Granted config (steps ++ [.request source now]) source now breaker.nextPermit
          none := ⟨steps, [], rfl, by rw [state, Machine.answer, answer]; rfl⟩
      refine ⟨fun id permit found => ?_, before⟩
      obtain ⟨rfl, rfl⟩ | ⟨-, found⟩ := of_get_insert found
      · exact ⟨now, granted⟩
      · exact earlier id permit found
    | @probes source now cooled =>
      have granted : Granted config (steps ++ [.request source now]) source now breaker.nextPermit
          (some breaker.nextClaim) := ⟨steps, [], rfl, by rw [state, Machine.answer, answer]; rfl⟩
      refine ⟨fun id permit found => ?_, fun other claim deadline found => ?_⟩
      · obtain ⟨rfl, rfl⟩ | ⟨-, found⟩ := of_get_insert found
        · exact ⟨now, granted⟩
        · exact earlier id permit found
      · obtain ⟨rfl, same⟩ | ⟨-, found⟩ := of_get_insert found
        · cases same
          exact ⟨now, breaker.nextPermit, granted, rfl⟩
        · exact before other claim deadline found
    | ends how held sources settles =>
      refine ⟨fun id permit found => ?_, fun source claim deadline found => ?_⟩
      · obtain ⟨-, found⟩ := of_get_erase found
        exact earlier id permit found
      · refine before source claim deadline ?_
        rw [settles] at found
        split at found
        · rename_i same
          exact same ▸ halfOpen_of_settled found
        · exact found

theorem settled_of_stale {claim : Nat}
    (stale : ∀ deadline, current ≠ some (.halfOpen claim deadline)) :
    settledBy config current (some claim) now ending = current := by
  unfold settledBy
  grind

section Leads

variable {config : CircuitConfig} {next : CircuitStep}
  {result : CircuitBreaker × CircuitEvent}

variable {source : String}

theorem Closed.of_get {breaker' : CircuitBreaker}
    (same : breaker'.sources[source]? = breaker.sources[source]?)
    (closed : breaker'.Closed source) : breaker.Closed source := by
  unfold Closed at closed ⊢
  rwa [same] at closed

theorem closed_iff :
    breaker.Closed source ↔ breaker.sources[source]? = none ∨
      ∃ failures, breaker.sources[source]? = some (.closed failures) := by
  unfold Closed
  split <;> simp_all

theorem Leads.sources (leads : Leads config breaker next result) (source : String) :
    result.1.sources[source]? = breaker.sources[source]? ∨
    (∃ claim deadline, result.1.sources[source]? = some (.halfOpen claim deadline)) ∨
    ∃ id now ending permit, next.ending = some (id, now, ending) ∧
      breaker.permits[id]? = some permit ∧ permit.source = source ∧
      result.1.sources[source]? =
        settledBy config breaker.sources[source]? permit.claim now ending := by
  cases leads with
  | same | grants => exact .inl rfl
  | @probes other now cooled =>
    by_cases here : other = source
    · refine .inr (.inl ⟨breaker.nextClaim, now + config.probeTimeout, ?_⟩)
      exact here ▸ get_insert_self ..
    · exact .inl (get_insert_of_ne _ _ here)
  | @ends _ id now ending permit how held sources settles =>
    by_cases here : permit.source = source
    · refine .inr (.inr ⟨id, now, ending, permit, how, held, here, ?_⟩)
      subst here
      exact (settles permit.source).trans (if_pos rfl)
    · exact .inl ((settles source).trans (if_neg here))

section

variable (leads : Leads config breaker next result)

include leads

theorem Leads.admits {id : Nat} (admission : next = .request source now)
    (granted : result.2 = .granted id claim) :
    (claim = none ∧ breaker.Closed source) ∨ ∃ fresh, claim = some fresh ∧
      breaker.Cooled config source now ∧
      result.1.sources[source]? = some (.halfOpen fresh (now + config.probeTimeout)) := by
  cases leads with
  | same _ ungranted => exact absurd granted (ungranted id claim)
  | grants _ closed =>
    cases admission
    cases granted
    exact .inl ⟨rfl, closed⟩
  | probes cooled =>
    cases admission
    cases granted
    exact .inr ⟨breaker.nextClaim, rfl, cooled, get_insert_self ..⟩
  | ends => cases granted

omit leads in
theorem CircuitStep.eq_success {id : Nat} (how : next.ending = some (id, now, .success)) :
    next = .success id now := by
  cases next <;> cases how
  rfl

theorem Leads.closes (was : ¬ breaker.Closed source) (closed : result.1.Closed source) :
    ∃ id now permit, next = .success id now ∧ breaker.permits[id]? = some permit ∧
      permit.source = source ∧ (permit.claim = none ∨ ∃ claim deadline,
        permit.claim = some claim ∧
        breaker.sources[source]? = some (.halfOpen claim deadline) ∧ now < deadline) := by
  rw [closed_iff, not_or, not_exists] at was
  obtain same | ⟨claim, deadline, half⟩ | ⟨id, now, ending, permit, how, held, here, settles⟩ :=
    leads.sources source
  · exact absurd (closed.of_get same) (by rw [closed_iff, not_or, not_exists]; exact was)
  · rw [closed_iff, half] at closed
    obtain closed | ⟨_, closed⟩ := closed <;> cases closed
  · rw [closed_iff, settles] at closed
    unfold settledBy at closed
    obtain rfl : ending = .success := by grind
    exact ⟨id, now, permit, CircuitStep.eq_success how, held, here, by grind⟩

theorem Leads.opens {deadline : Nat} (was : breaker.sources[source]? ≠ some (.opened deadline))
    (opened : result.1.sources[source]? = some (.opened deadline)) :
    ∃ id now ending permit, next.ending = some (id, now, ending) ∧
      breaker.permits[id]? = some permit ∧ permit.source = source ∧
      ((permit.claim = none ∧ ending = .failure ∧ deadline = now + config.cooldown) ∨
        ∃ claim expiry, permit.claim = some claim ∧
          breaker.sources[source]? = some (.halfOpen claim expiry) ∧
          deadline = min now expiry + config.cooldown) := by
  obtain same | ⟨claim, expiry, half⟩ | ⟨id, now, ending, permit, how, held, here, settles⟩ :=
    leads.sources source
  · exact absurd (same.symm.trans opened) was
  · exact nomatch half.symm.trans opened
  · refine ⟨id, now, ending, permit, how, held, here, ?_⟩
    rw [settles] at opened
    unfold settledBy at opened
    grind

theorem Leads.stale {id claim : Nat}
    {permit : CircuitPermit} (how : next.ending = some (id, now, ending))
    (held : breaker.permits[id]? = some permit) (probe : permit.claim = some claim)
    (gone : ∀ deadline, breaker.sources[permit.source]? ≠ some (.halfOpen claim deadline)) :
    result.1.sources = breaker.sources := by
  cases leads with
  | same => rfl
  | grants | probes => cases how
  | ends how' held' sources settles =>
    cases how.symm.trans how'
    cases held.symm.trans held'
    refine Std.ExtTreeMap.ext_getElem? fun source => (settles source).trans ?_
    split
    · rename_i here
      rw [probe, settled_of_stale gone, here]
    · rfl

end

end Leads

/-- Any interleaving of admissions and outcomes, each at its own clock reading:

* only a closed source, or as a new period's one probe a source whose cooldown
  has passed, is admitted;
* no two outstanding permits are probes of one period;
* a source becomes closed only by a success, of its period's probe before the
  deadline or of a permit granted while it was closed;
* a cooldown begins with a failure of such a permit, or with the end of the
  period's probe;
* what comes from a probe whose period is over changes nothing;
* permits without a claim were granted while their source was closed, and a
  period's claim is that of the admission that began it. -/
theorem circuit_discipline (config : CircuitConfig) (steps : List CircuitStep)
    (next : CircuitStep) :
    let before := Machine.exec (step config) {} steps
    let after := Machine.next (step config) before next
    (∀ source now id claim, next = .request source now →
      Machine.answer (step config) before next = .granted id claim →
      (claim = none ∧ before.Closed source) ∨ ∃ fresh, claim = some fresh ∧
        before.Cooled config source now ∧
        after.sources[source]? = some (.halfOpen fresh (now + config.probeTimeout))) ∧
    (∀ (id id' : Nat) (permit permit' : CircuitPermit) (claim : Nat),
      before.permits[id]? = some permit → before.permits[id']? = some permit' →
      permit.claim = some claim → permit'.claim = some claim → id = id') ∧
    (∀ source, ¬ before.Closed source → after.Closed source →
      ∃ id now permit, next = .success id now ∧ before.permits[id]? = some permit ∧
        permit.source = source ∧ (permit.claim = none ∨ ∃ claim deadline,
          permit.claim = some claim ∧
          before.sources[source]? = some (.halfOpen claim deadline) ∧ now < deadline)) ∧
    (∀ source deadline, before.sources[source]? ≠ some (.opened deadline) →
      after.sources[source]? = some (.opened deadline) →
      ∃ id now ending permit, next.ending = some (id, now, ending) ∧
        before.permits[id]? = some permit ∧ permit.source = source ∧
        ((permit.claim = none ∧ ending = .failure ∧ deadline = now + config.cooldown) ∨
          ∃ claim expiry, permit.claim = some claim ∧
            before.sources[source]? = some (.halfOpen claim expiry) ∧
            deadline = min now expiry + config.cooldown)) ∧
    (∀ id now ending permit claim, next.ending = some (id, now, ending) →
      before.permits[id]? = some permit → permit.claim = some claim →
      (∀ deadline, before.sources[permit.source]? ≠ some (.halfOpen claim deadline)) →
      after.sources = before.sources) ∧
    Comes config steps before := by
  intro before after
  have sound : before.Sound := by
    refine exec_invariant_always (step config) (fun _ next sound => sound.step next) {} steps
      ⟨fun id permit found => ?_, fun id _ permit _ _ found => ?_⟩
    · exact absurd (found.symm.trans (get_empty id)) nofun
    · exact absurd (found.symm.trans (get_empty id)) nofun
  have leads := step_leads config before next
  refine ⟨?_, sound.alone, ?_, ?_, ?_, comes_of_run config steps⟩
  · exact fun source now id claim => leads.admits
  · exact fun source => leads.closes
  · exact fun source deadline => leads.opens
  · exact fun id now ending permit claim => leads.stale

end CircuitBreaker

/-- Two permits of one closed source, whose second fails and opens it until 30.
The first then succeeds, and at 2 the source takes a request. -/
theorem late_success_closes_circuit :
    let config : CircuitConfig := { tripAfter := 1 }
    let opening : List CircuitStep := [.request "dc" 0, .request "dc" 0, .failure 1 0]
    let opened := Machine.exec (CircuitBreaker.step config) {} opening
    let after := Machine.next (CircuitBreaker.step config) opened (.success 0 1)
    opened.sources["dc"]? = some (.opened 30) ∧
      opened.permits[0]? = some ⟨"dc", none⟩ ∧
      after.sources["dc"]? = some (.closed 0) ∧
      Machine.answer (CircuitBreaker.step config) after (.request "dc" 2) = .granted 2 none ∧
      (Machine.next (CircuitBreaker.step config) opened (.failure 0 10)).sources["dc"]? =
        some (.opened 40) := by
  decide +kernel

end Peryx
