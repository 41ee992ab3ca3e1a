import Peryx.Lib.Machine

/-!
# The revocation service

`revocations.rs` of `peryx-driver`, between threads that ask for decisions and
threads that change rows or announce changes of others. A flag says whether any
row is active, and a cache holds decisions: readers publish to both while they
share the gate, and whoever owns the gate resets them.

A step is one access to what threads share, with the release of the gate that
follows it.

- `Inv.step`: what is cached is right of every digest without a change under way.
- `Right.step`: once the row of a digest is settled, the cache, the flag and what
  readers hold agree with it until an opposite change is committed.
- `Changes.step`: a change that returned has settled the row of its digest.
- `revocation_takes_effect`, `cache_is_coherent`: what calls answer, and what the
  cache holds, in every run.
-/

namespace Peryx.RevocationService

open Machine Finset List

/-- `ACTIVE_UNKNOWN`, `ACTIVE_NONE` and `ACTIVE_SOME`. -/
inductive Active where
  | unknown
  | none
  | some

variable (Digest : Type)

/-- What the gate is shared for: the flag, asked for by `decision` or `has_active`,
or the row of a digest. -/
inductive Read where
  | active (digest : Option Digest)
  | row (digest : Digest)
  deriving DecidableEq

/-- What the gate is owned for: `put` and `lift`, `invalidate_replicated`, and
`invalidate_all`. -/
inductive Change where
  | set (digest : Digest) (revoked : Bool)
  | replicated (digests : List Digest)
  | all
  deriving DecidableEq

/-- How far a call has come. -/
inductive Stage where
  | load (digest : Option Digest)
  | lookup (digest : Digest)
  | wait (read : Read Digest)
  | read (read : Read Digest)
  | publish (read : Read Digest) (answer : Bool)
  | enter (change : Change Digest)
  | reset (change : Change Digest)
  | commit (digest : Digest) (revoked : Bool)
  | retire (digests : List Digest)
  | retireAll
  | done (answer : Option Bool)
  deriving DecidableEq

/-- The store, what the service keeps beside it, and every call so far. `changed`
are the digests with a committed change that is still to be retired. -/
structure Service where
  rows : Finset Digest
  decisions : Digest → Option Bool := fun _ => none
  active : Active := .unknown
  calls : List (Stage Digest) := []
  changed : Finset Digest := ∅

inductive Step where
  | ask (digest : Option Digest)
  | change (change : Change Digest)
  | resume (call : Nat) (ok : Bool)
  | replicate (put lift : Finset Digest)
  | evict (digest : Digest)

variable {Digest}

namespace Stage

def shares : Stage Digest → Bool
  | read _ | publish .. => true
  | _ => false

def owns : Stage Digest → Bool
  | reset _ | commit .. | retire _ | retireAll => true
  | _ => false

/-- Where a call goes on from the flag. -/
def proceed (active : Bool) : Option Digest → Stage Digest
  | some digest => if active then lookup digest else done (some false)
  | none => done (some active)

/-- An announcement of no digests returns at once. -/
def start : Change Digest → Stage Digest
  | .replicated [] => done (some true)
  | change => enter change

end Stage

variable [DecidableEq Digest]

namespace Service

def value (s : Service Digest) : Read Digest → Bool
  | .active _ => decide s.rows.Nonempty
  | .row digest => decide (digest ∈ s.rows)

/-- A call moves on. -/
def moved (s : Service Digest) (i : Nat) (stage : Stage Digest) : Service Digest :=
  { s with calls := s.calls.set i stage }

/-- A call takes its next turn. -/
def turn (s : Service Digest) (i : Nat) (ok : Bool) : Stage Digest → Service Digest
  | .load digest =>
    match s.active with
    | .unknown => s.moved i (.wait (.active digest))
    | .none => s.moved i (.proceed false digest)
    | .some => s.moved i (.proceed true digest)
  | .lookup digest =>
    match s.decisions digest with
    | some revoked => s.moved i (.done (some revoked))
    | none => s.moved i (.wait (.row digest))
  | .wait read => if s.calls.any Stage.owns then s else s.moved i (.read read)
  | .read read => s.moved i (if ok then .publish read (s.value read) else .done none)
  | .publish (.active digest) active =>
    { s.moved i (.proceed active digest) with active := if active then .some else .none }
  | .publish (.row digest) revoked =>
    { s.moved i (.done (some revoked)) with
      decisions := Function.update s.decisions digest (some revoked) }
  | .enter change =>
    if s.calls.any fun c => c.owns || c.shares then s else s.moved i (.reset change)
  | .reset (.set digest revoked) => { s.moved i (.commit digest revoked) with active := .unknown }
  | .reset (.replicated digests) => { s.moved i (.retire digests) with active := .unknown }
  | .reset .all => { s.moved i .retireAll with active := .unknown }
  | .commit digest revoked =>
    if ok then
      { s.moved i (.retire [digest]) with
        rows := if revoked then insert digest s.rows else s.rows.erase digest
        changed := insert digest s.changed }
    else s.moved i (.done none)
  | .retire [] => s.moved i (.done (some true))
  | .retire (digest :: digests) =>
    { s.moved i (.retire digests) with
      decisions := Function.update s.decisions digest none
      changed := s.changed.erase digest }
  | .retireAll => { s.moved i (.done (some true)) with decisions := fun _ => none, changed := ∅ }
  | .done _ => s

end Service

def step (s : Service Digest) : Step Digest → Service Digest × Unit
  | .ask digest => ({ s with calls := s.calls ++ [.load digest] }, ())
  | .change change => ({ s with calls := s.calls ++ [.start change] }, ())
  | .resume i ok => ((s.calls[i]?).elim s (s.turn i ok), ())
  | .replicate put lift =>
    ({ s with rows := s.rows \ lift ∪ put, changed := s.changed ∪ lift ∪ put }, ())
  | .evict digest => ({ s with decisions := Function.update s.decisions digest none }, ())

/-! ## What holds between steps -/

/-- What a reader holds is right of all that is settled: the row of the digest, or
that no row is active. -/
def Service.Knows (s : Service Digest) : Read Digest → Bool → Prop
  | .active _, answer => ∀ digest ∈ s.rows, digest ∉ s.changed → answer = true
  | .row digest, answer => digest ∉ s.changed → answer = decide (digest ∈ s.rows)

/-- What a call knows of the shared state. -/
def Stage.Sound (s : Service Digest) : Stage Digest → Prop
  | .publish what answer => s.Knows what answer
  | .commit .. | .retire _ | .retireAll => s.active = .unknown
  | _ => True

/-- What is cached is known to be so, and a writer is alone. -/
structure Inv (s : Service Digest) : Prop where
  cached : ∀ digest, ∀ revoked ∈ s.decisions digest, s.Knows (.row digest) revoked
  flag : s.active = .none → s.Knows (.active none) false
  calls : ∀ (i : Nat), ∀ stage ∈ s.calls[i]?, stage.Sound s
  alone : ∀ (i j : Nat), ∀ stage ∈ s.calls[i]?, ∀ other ∈ s.calls[j]?, stage.owns → j ≠ i →
    other.owns = false ∧ other.shares = false

variable {s s' : Service Digest} {i : Nat} {stage : Stage Digest}

/-- Rows that are settled now were so before, and are as they were. -/
def Keeps (s s' : Service Digest) : Prop :=
  ∀ digest, digest ∉ s'.changed → digest ∉ s.changed ∧ (digest ∈ s'.rows ↔ digest ∈ s.rows)

theorem Keeps.knows (keeps : Keeps s s') {read : Read Digest} {answer : Bool}
    (knows : s.Knows read answer) : s'.Knows read answer := by
  cases read with
  | active =>
    exact fun digest mem clean =>
      knows digest ((keeps digest clean).2.mp mem) (keeps digest clean).1
  | row digest =>
    intro clean
    rw [knows (keeps digest clean).1, decide_eq_decide]
    exact (keeps digest clean).2.symm

theorem Keeps.sound (keeps : Keeps s s')
    (active : s'.active = s.active ∨ s'.active = .unknown ∨ stage.owns = false)
    (sound : stage.Sound s) : stage.Sound s' := by
  cases stage with
  | publish => exact keeps.knows sound
  | commit | retire | retireAll =>
    obtain same | unknown | owns := active
    · exact same.trans sound
    · exact unknown
    · cases owns
  | _ => trivial

theorem Stage.sound_idle (owns : stage.owns = false) (shares : stage.shares = false) :
    stage.Sound s := by
  cases stage <;> trivial

variable {stage' : Stage Digest}

/-- A call moves on, and leaves what it does not own alone. -/
theorem Inv.move (inv : Inv s) (calls : s'.calls = s.calls.set i stage')
    (cached : ∀ digest, ∀ revoked ∈ s'.decisions digest, s'.Knows (.row digest) revoked)
    (flag : s'.active = .none → s'.Knows (.active none) false) (sound : stage'.Sound s')
    (others : ∀ j ≠ i, ∀ other ∈ s.calls[j]?, (other.Sound s → other.Sound s') ∧
      (stage'.owns → other.owns = false ∧ other.shares = false) ∧
      (stage'.shares → other.owns = false)) : Inv s' := by
  have get : ∀ (j : Nat), ∀ other ∈ s'.calls[j]?,
      j = i ∧ other = stage' ∨ j ≠ i ∧ other ∈ s.calls[j]? := by
    intro j other found
    rw [calls, getElem?_set] at found
    split at found
    next same =>
      split at found
      · cases found
        exact .inl ⟨same.symm, rfl⟩
      · cases found
    next ne => exact .inr ⟨Ne.symm ne, found⟩
  refine ⟨cached, flag, fun j other found => ?_, fun j k first atj second atk owns ne => ?_⟩
  · obtain ⟨-, rfl⟩ | ⟨ne, found⟩ := get j other found
    · exact sound
    · exact (others j ne other found).1 (inv.calls j other found)
  · have := get j first atj
    have := get k second atk
    have := inv.alone j k first
    grind

/-- The call is the only one that changes, and does not come to own the gate. -/
theorem Inv.moved (inv : Inv s) {stage' : Stage Digest} (sound : stage'.Sound s)
    (owns : stage'.owns = false)
    (unowned : stage'.shares → ∀ j ≠ i, ∀ other ∈ s.calls[j]?, other.owns = false) :
    Inv (s.moved i stage') :=
  inv.move rfl inv.cached inv.flag sound fun j ne other found =>
    ⟨id, by simp [owns], fun shares => unowned shares j ne other found⟩

/-- The call is alone in the gate, so no other knows anything. -/
theorem Inv.owned (inv : Inv s)
    (idle : ∀ j ≠ i, ∀ other ∈ s.calls[j]?, other.owns = false ∧ other.shares = false)
    (calls : s'.calls = s.calls.set i stage')
    (cached : ∀ digest, ∀ revoked ∈ s'.decisions digest, s'.Knows (.row digest) revoked)
    (unknown : s'.active = .unknown) (sound : stage'.Sound s') : Inv s' := by
  refine inv.move calls cached (by simp [unknown]) sound fun j ne other found => ?_
  have idle := idle j ne other found
  exact ⟨fun _ => Stage.sound_idle idle.1 idle.2, fun _ => idle, fun _ => idle.1⟩

theorem Inv.turn (inv : Inv s) (here : stage ∈ s.calls[i]?) (ok : Bool) :
    Inv (s.turn i ok stage) := by
  have sound := inv.calls i stage here
  have alone : stage.owns → ∀ j ≠ i, ∀ other ∈ s.calls[j]?,
      other.owns = false ∧ other.shares = false :=
    fun owns j ne other found => inv.alone i j stage here other found owns ne
  have unowned : stage.shares → ∀ j ≠ i, ∀ other ∈ s.calls[j]?, other.owns = false := by
    intro shares j ne other found
    have := inv.alone j i other found stage here
    grind
  have free : ∀ {holds : Stage Digest → Bool}, ¬ s.calls.any holds →
      ∀ (j : Nat), ∀ other ∈ s.calls[j]?, holds other = false := by
    intro holds none j other found
    rw [Bool.not_eq_true, any_eq_false] at none
    exact Bool.eq_false_of_not_eq_true (none other (mem_of_getElem? found))
  cases stage with
  | load digest =>
    rw [Service.turn]
    split
    · exact inv.moved trivial rfl nofun
    · cases digest <;> exact inv.moved trivial rfl nofun
    · cases digest <;> exact inv.moved trivial rfl nofun
  | lookup digest =>
    rw [Service.turn]
    split <;> exact inv.moved trivial rfl nofun
  | wait read =>
    rw [Service.turn]
    split
    · exact inv
    next none => exact inv.moved trivial rfl fun _ j _ other found => free none j other found
  | read read =>
    rw [Service.turn]
    split
    · refine inv.moved ?_ rfl fun _ => unowned rfl
      cases read with
      | active => exact fun digest mem _ => decide_eq_true ⟨digest, mem⟩
      | row => exact fun _ => rfl
    · exact inv.moved trivial rfl nofun
  | publish read answer =>
    have others : ∀ {s' : Service Digest} {stage' : Stage Digest}, Keeps s s' →
        stage'.owns = false → stage'.shares = false → ∀ j ≠ i, ∀ other ∈ s.calls[j]?,
        (other.Sound s → other.Sound s') ∧ (stage'.owns → other.owns = false ∧
          other.shares = false) ∧ (stage'.shares → other.owns = false) :=
      fun keeps owns shares j ne other found =>
        ⟨keeps.sound (.inr (.inr (unowned rfl j ne other found))), by simp [owns], by simp [shares]⟩
    cases read with
    | active digest =>
      refine inv.move rfl inv.cached (fun none => ?_) ?_
        (others (fun _ clean => ⟨clean, .rfl⟩) ?_ ?_)
      · cases answer
        · exact sound
        · cases none
      all_goals cases digest <;> cases answer <;> trivial
    | row digest =>
      refine inv.move rfl (fun e revoked found => ?_) inv.flag trivial
        (others (fun _ clean => ⟨clean, .rfl⟩) rfl rfl)
      simp only [Service.turn, Function.update_apply] at found
      split at found
      next same =>
        cases found
        exact same ▸ sound
      · exact inv.cached e revoked found
  | enter change =>
    rw [Service.turn]
    split
    · exact inv
    next none =>
      refine inv.move rfl inv.cached inv.flag trivial
        fun j _ other found => ⟨id, fun _ => ?_, nofun⟩
      simpa using free none j other found
  | reset change =>
    rcases change with _ | _ | _ <;> exact inv.owned (alone rfl) rfl inv.cached rfl rfl
  | commit digest revoked =>
    rw [Service.turn]
    split
    · have keeps : Keeps s (s.turn i true (.commit digest revoked)) := by
        intro e clean
        cases revoked <;> simp_all [Service.turn]
      exact inv.owned (alone rfl) rfl
        (fun e answer found => keeps.knows (inv.cached e answer found)) sound sound
    · exact inv.moved trivial rfl nofun
  | retire digests =>
    rcases digests with _ | ⟨digest, digests⟩
    · exact inv.moved trivial rfl nofun
    · refine inv.owned (alone rfl) rfl (fun e answer found => ?_) sound sound
      simp only [Service.turn, Function.update_apply] at found
      split at found
      · cases found
      next ne =>
        exact fun clean => inv.cached e answer found fun mem =>
          clean (mem_erase.mpr ⟨ne, mem⟩)
  | retireAll => exact inv.owned (alone rfl) rfl nofun sound trivial
  | done answer => exact inv

theorem Inv.append (inv : Inv s) (owns : stage'.owns = false)
    (shares : stage'.shares = false) : Inv { s with calls := s.calls ++ [stage'] } := by
  have get : ∀ (j : Nat), ∀ other ∈ (s.calls ++ [stage'])[j]?,
      other ∈ s.calls[j]? ∨ other = stage' := by
    intro j other found
    grind
  refine ⟨inv.cached, inv.flag, fun j other found => ?_, fun j k first atj second atk held ne => ?_⟩
  · obtain found | rfl := get j other found
    · exact inv.calls j other found
    · exact Stage.sound_idle owns shares
  · have := get j first atj
    have := get k second atk
    have := inv.alone j k first
    grind

/-- **Step.** -/
theorem Inv.step (inv : Inv s) (next : Step Digest) : Inv (Machine.next step s next) := by
  unfold Machine.next RevocationService.step
  cases next with
  | ask digest => exact inv.append rfl rfl
  | change change => rcases change with _ | (_ | _) | _ <;> exact inv.append rfl rfl
  | resume i ok =>
    dsimp only
    cases here : s.calls[i]? with
    | none => exact inv
    | some stage => exact inv.turn here ok
  | replicate put lift =>
    have keeps : Keeps s { s with rows := s.rows \ lift ∪ put
                                  changed := s.changed ∪ lift ∪ put } := by
      intro digest
      simp only [mem_union, mem_sdiff]
      tauto
    exact ⟨fun digest revoked found => keeps.knows (inv.cached digest revoked found),
      fun none => keeps.knows (inv.flag none),
      fun j stage found => keeps.sound (.inl rfl) (inv.calls j stage found), inv.alone⟩
  | evict digest =>
    refine ⟨fun e revoked found => ?_, inv.flag, inv.calls, inv.alone⟩
    simp only [Function.update_apply] at found
    split at found
    · cases found
    · exact inv.cached e revoked found

/-! ## Settled rows -/

/-- A change of the digest to the opposite is committed in the step. -/
def Opposes (digest : Digest) (revoked : Bool) (s : Service Digest) : Step Digest → Prop
  | .replicate put lift => digest ∈ if revoked then lift \ put else put
  | .resume i ok => ok = true ∧ s.calls[i]? = some (.commit digest !revoked)
  | _ => False

/-- What a reader is to publish does not deny the row. -/
def Stage.Tells (digest : Digest) (revoked : Bool) : Stage Digest → Prop
  | .publish (.row e) answer => e = digest → answer = revoked
  | .publish (.active _) answer => revoked = true → answer = true
  | _ => True

/-- The row of a digest is such, and nothing that readers find denies it. -/
structure Right (digest : Digest) (revoked : Bool) (s : Service Digest) : Prop where
  row : digest ∈ s.rows ↔ revoked = true
  cached : ∀ answer ∈ s.decisions digest, answer = revoked
  flag : revoked = true → s.active ≠ .none
  calls : ∀ (i : Nat), ∀ stage ∈ s.calls[i]?, stage.Tells digest revoked

variable {digest : Digest} {revoked : Bool} {p : Nat}

/-- Where no change of a digest is still to be retired, its row is settled. -/
theorem Inv.right (inv : Inv s) (clean : digest ∉ s.changed) :
    Right digest (decide (digest ∈ s.rows)) s where
  row := decide_eq_true_iff.symm
  cached answer found := inv.cached digest answer found clean
  flag mem none := nomatch inv.flag none digest (of_decide_eq_true mem) clean
  calls i stage found := by
    have sound := inv.calls i stage found
    cases stage with
    | publish read answer =>
      cases read with
      | active => exact fun mem => sound digest (of_decide_eq_true mem) clean
      | row e =>
        rintro rfl
        exact sound clean
    | _ => trivial

theorem row_step {next : Step Digest} (row : digest ∈ s.rows ↔ revoked = true)
    (quiet : ¬ Opposes digest revoked s next) :
    digest ∈ (Machine.next step s next).rows ↔ revoked = true := by
  unfold Machine.next step
  cases next with
  | replicate put lift =>
    simp only [Opposes, mem_union, mem_sdiff] at quiet ⊢
    cases revoked <;> grind
  | resume i ok =>
    dsimp only
    cases here : s.calls[i]? with
    | none => exact row
    | some stage =>
      cases stage <;> cases revoked <;> simp only [Option.elim_some] <;> unfold Service.turn <;>
        grind [Opposes, Service.moved]
  | _ => exact row

omit [DecidableEq Digest] in
theorem Right.tells_set (right : Right digest revoked s) (tells : stage'.Tells digest revoked)
    (j : Nat) : ∀ other ∈ (s.calls.set i stage')[j]?, other.Tells digest revoked := by
  intro other found
  rw [getElem?_set] at found
  split at found
  · split at found
    · cases found
      exact tells
    · cases found
  · exact right.calls j other found

theorem Right.turn (right : Right digest revoked s) (here : stage ∈ s.calls[i]?) (ok : Bool)
    (row : digest ∈ (s.turn i ok stage).rows ↔ revoked = true) :
    Right digest revoked (s.turn i ok stage) := by
  have tells := right.calls i stage here
  have moved : ∀ {stage' : Stage Digest}, stage'.Tells digest revoked →
      Right digest revoked (s.moved i stage') := fun tells =>
    ⟨right.row, right.cached, right.flag, right.tells_set tells⟩
  cases stage with
  | load digest =>
    rw [Service.turn]
    split
    · exact moved trivial
    · cases digest <;> exact moved trivial
    · cases digest <;> exact moved trivial
  | lookup digest =>
    rw [Service.turn]
    split <;> exact moved trivial
  | wait read | enter change =>
    rw [Service.turn]
    split
    · exact right
    · exact moved trivial
  | read read =>
    rw [Service.turn]
    refine moved ?_
    split
    · cases read with
      | active => exact fun mem => decide_eq_true ⟨digest, right.row.mpr mem⟩
      | row e =>
        rintro rfl
        exact Bool.eq_iff_iff.mpr (decide_eq_true_iff.trans right.row)
    · trivial
  | publish read answer =>
    cases read with
    | active e =>
      refine ⟨row, right.cached, fun mem => ?_, right.tells_set ?_⟩
      · rw [Service.turn, tells mem]
        exact nofun
      · cases e <;> cases answer <;> trivial
    | row e =>
      refine ⟨row, fun given found => ?_, right.flag, right.tells_set trivial⟩
      simp only [Service.turn, Function.update_apply] at found
      split at found
      next same =>
        cases found
        exact tells same.symm
      · exact right.cached given found
  | reset change =>
    rcases change with _ | _ | _ <;>
      exact ⟨row, right.cached, fun _ => nofun, right.tells_set trivial⟩
  | commit e made =>
    rw [Service.turn] at row ⊢
    split at row
    next done =>
      rw [if_pos done]
      exact ⟨row, right.cached, right.flag, right.tells_set trivial⟩
    next failed =>
      rw [if_neg failed]
      exact moved trivial
  | retire digests =>
    rcases digests with _ | ⟨e, digests⟩
    · exact moved trivial
    · refine ⟨row, fun given found => ?_, right.flag, right.tells_set trivial⟩
      simp only [Service.turn, Function.update_apply] at found
      split at found
      · cases found
      · exact right.cached given found
  | retireAll => exact ⟨row, nofun, right.flag, right.tells_set trivial⟩
  | done => exact right

/-- **Step.** What is settled stays so until an opposite change is committed. -/
theorem Right.step (right : Right digest revoked s) {next : Step Digest}
    (quiet : ¬ Opposes digest revoked s next) :
    Right digest revoked (Machine.next RevocationService.step s next) := by
  have row := row_step right.row quiet
  unfold Machine.next RevocationService.step at *
  have append : ∀ {stage' : Stage Digest}, stage'.Tells digest revoked →
      Right digest revoked { s with calls := s.calls ++ [stage'] } := fun tells =>
    ⟨right.row, right.cached, right.flag, fun j other found => by
      have := right.calls j other
      grind⟩
  cases next with
  | ask => exact append trivial
  | change change => rcases change with _ | (_ | _) | _ <;> exact append trivial
  | replicate => exact ⟨row, right.cached, right.flag, right.calls⟩
  | evict e =>
    refine ⟨row, fun given found => ?_, right.flag, right.calls⟩
    simp only [Function.update_apply] at found
    split at found
    · cases found
    · exact right.cached given found
  | resume i ok =>
    dsimp only at row ⊢
    cases here : s.calls[i]? with
    | none => exact right
    | some stage =>
      rw [here] at row
      exact right.turn here ok row

/-! ## Changes -/

/-- The call makes the row of a digest such, or announces that it is. -/
def Change.Makes (rows : Finset Digest) (digest : Digest) (revoked : Bool) :
    Change Digest → Prop
  | .set changed made => changed = digest ∧ made = revoked
  | .replicated digests => digest ∈ digests ∧ (digest ∈ rows ↔ revoked = true)
  | .all => digest ∈ rows ↔ revoked = true

/-- Before its own commit, where it has one. -/
def Stage.early : Stage Digest → Bool
  | .enter (.set ..) | .reset (.set ..) | .commit .. => true
  | _ => false

/-- Where a call stands that is to leave the row of a digest such, and settled. -/
def Stage.Leaves (s : Service Digest) (digest : Digest) (revoked : Bool) : Stage Digest → Prop
  | .enter change | .reset change => change.Makes s.rows digest revoked
  | .commit changed made => changed = digest ∧ made = revoked
  | .retire digests =>
    (digest ∈ s.rows ↔ revoked = true) ∧ (digest ∈ digests ∨ Right digest revoked s)
  | .retireAll => digest ∈ s.rows ↔ revoked = true
  | .done (some _) => Right digest revoked s
  | .done none => True
  | _ => False

/-- The change in call `p` is on its way, or settled. -/
def Changes (digest : Digest) (revoked : Bool) (p : Nat) (s : Service Digest) : Prop :=
  ∃ stage, s.calls[p]? = some stage ∧ stage.Leaves s digest revoked

/-- An opposite change is committed, and the one in call `p` is not still before its
own commit. -/
def Reverts (digest : Digest) (revoked : Bool) (p : Nat) (s : Service Digest)
    (next : Step Digest) : Prop :=
  Opposes digest revoked s next ∧ ∀ stage ∈ s.calls[p]?, stage.early = false

/-- An owner of the gate that empties the cache settles the row: no reader holds
anything, and the flag is unknown. -/
theorem Inv.retired (inv : Inv s) (here : stage ∈ s.calls[p]?) (owns : stage.owns)
    (unknown : s.active = .unknown) (row : digest ∈ s.rows ↔ revoked = true)
    {decisions : Digest → Option Bool} {changed : Finset Digest} (gone : decisions digest = none)
    (tells : stage'.Tells digest revoked) :
    Right digest revoked { s.moved p stage' with decisions, changed } := by
  refine ⟨row, by simp [gone], fun _ => by simp [Service.moved, unknown], fun j other found => ?_⟩
  simp only [Service.moved, getElem?_set] at found
  split at found
  · split at found
    · cases found
      exact tells
    · cases found
  next ne =>
    obtain ⟨-, idle⟩ := inv.alone p j stage here other found owns (Ne.symm ne)
    cases other <;> trivial

theorem Changes.turn (inv : Inv s) (here : s.calls[p]? = some stage)
    (leaves : stage.Leaves s digest revoked) (ok : Bool) :
    Changes digest revoked p (s.turn p ok stage) := by
  have sound := inv.calls p stage here
  have moved : ∀ {stage' : Stage Digest}, (s.calls.set p stage')[p]? = some stage' := fun {_} =>
    getElem?_set_self (List.getElem?_eq_some_iff.mp here).1
  cases stage with
  | enter change =>
    rw [Service.turn]
    split
    · exact ⟨_, here, leaves⟩
    · exact ⟨_, moved, leaves⟩
  | reset change =>
    rcases change with _ | _ | _
    · exact ⟨_, moved, leaves⟩
    · exact ⟨_, moved, leaves.2, .inl leaves.1⟩
    · exact ⟨_, moved, leaves⟩
  | commit e made =>
    obtain ⟨rfl, rfl⟩ := leaves
    rw [Service.turn]
    split
    · refine ⟨_, moved, ?_, .inl mem_cons_self⟩
      cases made <;> simp
    · exact ⟨_, moved, trivial⟩
  | retire digests =>
    obtain ⟨row, found | right⟩ := leaves
    · rcases digests with _ | ⟨e, digests⟩
      · cases found
      · refine ⟨_, moved, row, ?_⟩
        by_cases same : digest = e
        · exact .inr (inv.retired here rfl sound row (by simp [same]) trivial)
        · exact .inl (mem_of_ne_of_mem same found)
    · have right := right.turn here ok (by rcases digests with _ | ⟨_, _⟩ <;> exact row)
      rcases digests with _ | ⟨e, digests⟩
      · exact ⟨_, moved, right⟩
      · exact ⟨_, moved, row, .inr right⟩
  | retireAll => exact ⟨_, moved, inv.retired here rfl sound leaves rfl trivial⟩
  | done answer => exact ⟨_, here, leaves⟩
  | _ => exact leaves.elim

theorem getElem?_turn_ne {j : Nat} (ne : i ≠ j) (ok : Bool) (stage : Stage Digest) :
    (s.turn i ok stage).calls[j]? = s.calls[j]? := by
  unfold Service.turn Service.moved
  grind

/-- A call stands where it stood unless it is resumed. -/
theorem getElem?_step {q : Nat} (lt : q < s.calls.length) {next : Step Digest}
    (elsewhere : ∀ ok, next ≠ .resume q ok) :
    (Machine.next step s next).calls[q]? = s.calls[q]? := by
  unfold Machine.next step
  cases next with
  | ask | change => exact getElem?_append_left lt
  | evict | replicate => rfl
  | resume i ok =>
    dsimp only
    cases s.calls[i]? with
    | none => rfl
    | some stage =>
      have ne : i ≠ q := fun same => elsewhere ok (same ▸ rfl)
      exact getElem?_turn_ne ne ok stage

/-- **Step.** The change goes on, whatever is committed before its own commit. -/
theorem Changes.step (inv : Inv s) (changes : Changes digest revoked p s) {next : Step Digest}
    (quiet : ¬ Reverts digest revoked p s next) :
    Changes digest revoked p (Machine.next RevocationService.step s next) := by
  obtain ⟨stage, here, leaves⟩ := changes
  have lt := (List.getElem?_eq_some_iff.mp here).1
  by_cases mine : ∃ ok, next = .resume p ok
  · obtain ⟨ok, rfl⟩ := mine
    simp only [Machine.next, RevocationService.step, here]
    exact Changes.turn inv here leaves ok
  · refine ⟨stage, (getElem?_step lt (not_exists.mp mine)).trans here, ?_⟩
    by_cases opposes : Opposes digest revoked s next
    · have early : stage.early = true := by
        by_contra late
        refine quiet ⟨opposes, fun other found => ?_⟩
        cases here.symm.trans found
        exact Bool.eq_false_of_not_eq_true late
      cases stage with
      | enter change | reset change =>
        cases change with
        | set => exact leaves
        | _ => cases early
      | commit => exact leaves
      | _ => cases early
    · have row := fun row => row_step (s := s) row opposes
      have right := fun right : Right digest revoked s => right.step opposes
      cases stage with
      | enter change | reset change =>
        cases change with
        | set => exact leaves
        | replicated => exact ⟨leaves.1, row leaves.2⟩
        | all => exact row leaves
      | commit => exact leaves
      | retire => exact ⟨row leaves.1, leaves.2.imp_right right⟩
      | retireAll => exact row leaves
      | done answer =>
        cases answer with
        | none => trivial
        | some => exact right leaves
      | _ => exact leaves.elim

/-! ## Answers -/

def Read.For (asked : Option Digest) : Read Digest → Prop
  | .active digest => digest = asked
  | .row digest => asked = some digest

/-- Where a call stands that is to answer so. -/
def Stage.Answers (asked : Option Digest) (revoked : Bool) : Stage Digest → Prop
  | .load digest => digest = asked
  | .lookup digest => asked = some digest
  | .wait what | .read what | .publish what _ => what.For asked
  | .done answer => ∀ given ∈ answer, given = revoked
  | _ => False

/-- A call asked while a digest is settled answers what its row says: for the
digest itself, or whether any row is active where this one is. -/
theorem Answers.turn (right : Right digest revoked s) {asked : Option Digest}
    (asks : asked = some digest ∨ asked = none ∧ revoked = true) {q : Nat}
    (here : s.calls[q]? = some stage) (answers : stage.Answers asked revoked) (ok : Bool) :
    ∃ stage', (s.turn q ok stage).calls[q]? = some stage' ∧ stage'.Answers asked revoked := by
  have tells := right.calls q stage here
  have flag := right.flag
  have cached := right.cached
  unfold Service.turn Service.moved
  cases stage <;> grind [Stage.Answers, Read.For, Stage.Tells, Stage.proceed]

/-- The row of a digest is such at the end of the run, and settled: no change of it is
still to be retired; or one that made it such has returned, and since its own commit
no opposite one was committed. -/
inductive Settled (rows : Finset Digest) (digest : Digest) (revoked : Bool) :
    List (Step Digest) → Prop where
  | clean (steps : List (Step Digest)) :
      digest ∉ (exec step { rows } steps).changed →
      (digest ∈ (exec step { rows } steps).rows ↔ revoked = true) →
      Settled rows digest revoked steps
  | returned (before mid : List (Step Digest)) (change : Change Digest) (answer : Bool)
      {s₁ : Service Digest} (started : s₁ = exec step { rows } before) :
      change.Makes s₁.rows digest revoked →
      Along step (fun s next => ¬ Reverts digest revoked s₁.calls.length s next) s₁
        (.change change :: mid) →
      (exec step s₁ (.change change :: mid)).calls[s₁.calls.length]? = some (.done (some answer)) →
      Settled rows digest revoked (before ++ .change change :: mid)

/-- **Run.** -/
theorem reachable (rows : Finset Digest) (steps : List (Step Digest)) :
    Inv (exec step { rows } steps) :=
  exec_invariant_always step (fun _ next inv => inv.step next) _ steps ⟨nofun, nofun, nofun, nofun⟩

theorem Settled.right {rows : Finset Digest} {steps : List (Step Digest)}
    (settled : Settled rows digest revoked steps) :
    Right digest revoked (exec step { rows } steps) := by
  cases settled with
  | clean _ clean row =>
    have same : decide (digest ∈ (exec step { rows } steps).rows) = revoked :=
      Bool.eq_iff_iff.mpr (decide_eq_true_iff.trans row)
    exact same ▸ (reachable rows steps).right clean
  | @returned before mid change answer s₁ started makes quiet returned =>
    have inv : Inv s₁ := started ▸ reachable rows before
    rw [exec_append, ← started]
    have starts :
        Changes digest revoked s₁.calls.length (Machine.next step s₁ (.change change)) := by
      refine ⟨.start change, getElem?_concat_length, ?_⟩
      rcases change with _ | (_ | ⟨_, _⟩) | _
      · exact makes
      · exact absurd makes.1 not_mem_nil
      · exact makes
      · exact makes
    have changed := exec_invariant step
      (I := fun s => Inv s ∧ Changes digest revoked s₁.calls.length s)
      (fun _ next ⟨inv, changes⟩ quiet => ⟨inv.step next, changes.step inv quiet⟩) _ mid
      ⟨inv.step _, starts⟩ quiet.2
    obtain ⟨stage, here, leaves⟩ := changed.2
    cases here.symm.trans returned
    exact leaves

/-- **A change takes effect at once.** A decision that starts once the row of a digest
is settled, and returns before an opposite change is committed, is what the row says;
and so `has_active` finds that a row is active. -/
theorem revocation_takes_effect (rows : Finset Digest) (steps during : List (Step Digest))
    (asked : Option Digest) (digest : Digest) (revoked given : Bool) {s s' : Service Digest}
    (started : s = exec step { rows } steps) (ended : s' = exec step s (.ask asked :: during))
    (settled : Settled rows digest revoked steps)
    (asks : asked = some digest ∨ asked = none ∧ revoked = true)
    (quiet : Along step (fun s next => ¬ Opposes digest revoked s next) s (.ask asked :: during))
    (answered : s'.calls[s.calls.length]? = some (.done (some given))) : given = revoked := by
  have right : Right digest revoked s := started ▸ settled.right
  have holds := exec_invariant step (I := fun s' => Right digest revoked s' ∧
      ∃ stage, s'.calls[s.calls.length]? = some stage ∧ stage.Answers asked revoked)
    (fun s' next ⟨right, stage, here, answers⟩ quiet => ⟨right.step quiet, ?_⟩) _ during
    ⟨right.step quiet.1, .load asked, getElem?_concat_length, rfl⟩ quiet.2
  · obtain ⟨-, stage, here, answers⟩ := holds
    rw [ended, exec_cons] at answered
    cases here.symm.trans answered
    exact answers given rfl
  · have lt := (List.getElem?_eq_some_iff.mp here).1
    by_cases asker : ∃ ok, next = .resume s.calls.length ok
    · obtain ⟨ok, rfl⟩ := asker
      simp only [Machine.next, step, here]
      exact Answers.turn right asks here answers ok
    · exact ⟨stage, (getElem?_step lt (not_exists.mp asker)).trans here, answers⟩

instance (digest : Digest) (revoked : Bool) (s : Service Digest) :
    ∀ next, Decidable (Opposes digest revoked s next)
  | .replicate .. | .resume .. => by unfold Opposes; infer_instance
  | .ask _ | .change _ | .evict _ => isFalse id

instance (digest : Digest) (revoked : Bool) (p : Nat) (s : Service Digest) (next : Step Digest) :
    Decidable (Reverts digest revoked p s next) :=
  inferInstanceAs (Decidable (_ ∧ ∀ stage ∈ s.calls[p]?, _))

/-- A `put` waits at the gate while a `lift` commits, and a decision comes after it; a
row that was active all along is found by `has_active`. -/
theorem revocation_takes_effect_after_put :
    let lift := List.replicate 5 (.resume 0 true)
    let put := List.replicate 5 (.resume 1 true)
    let steps := [.change (.set 7 false)] ++ .change (.set 7 true) :: (lift ++ put)
    let s := exec step ({ rows := ∅ } : Service Nat) steps
    (∀ given, (exec step s (.ask (some 7) :: List.replicate 8 (.resume 2 true))).calls[2]? =
      some (.done (some given)) → given = true) ∧
    ∀ given, (exec step ({ rows := {7} } : Service Nat)
      (.ask none :: List.replicate 4 (.resume 0 true))).calls[0]? = some (.done (some given)) →
        given = true := by
  intro lift put steps s
  refine ⟨fun given answered => ?_, fun given answered => ?_⟩
  · have settled : Settled ∅ 7 true _ :=
      .returned [.change (.set 7 false)] (lift ++ put) (.set 7 true) true rfl ⟨rfl, rfl⟩
        (by decide +kernel) (by decide +kernel)
    exact revocation_takes_effect ∅ _ _ (some 7) 7 true given rfl rfl settled (.inl rfl)
      (by decide +kernel) answered
  · exact revocation_takes_effect {7} [] _ none 7 true given rfl rfl
      (.clean [] (by decide) (by decide)) (.inr ⟨rfl, rfl⟩) (by decide +kernel) answered

theorem decision_overtaken :
    let put := List.replicate 5 (.resume 0 true)
    let lift := List.replicate 5 (.resume 2 true)
    (Machine.exec step ({ rows := ∅ } : Service Nat)
      (.change (.set 7 true) :: put ++ .ask (some 7) ::
      .change (.set 7 false) :: lift ++ List.replicate 4 (.resume 1 true))).calls =
      [.done (some true), .done (some false), .done (some true)] := by
  decide +kernel

/-- **The cache is coherent.** Unless a change of the digest is still to be retired, a
cached decision is that of its row, and a flag of none means that it has none. -/
theorem cache_is_coherent (rows : Finset Digest) (steps : List (Step Digest)) :
    let s := exec step { rows } steps
    digest ∈ s.changed ∨ (∀ revoked ∈ s.decisions digest, revoked = decide (digest ∈ s.rows)) ∧
      (s.active = .none → digest ∉ s.rows) := by
  intro s
  have inv : Inv s := reachable rows steps
  refine or_iff_not_imp_left.mpr fun clean => ⟨fun revoked found => ?_, fun none mem => ?_⟩
  · exact inv.cached digest revoked found clean
  · cases inv.flag none digest mem clean

end Peryx.RevocationService
