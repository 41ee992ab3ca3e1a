import Mathlib

/-!
# Patterns with stars

Patterns over any alphabet, in which one symbol, the star, stands for any run of
symbols and every other symbol for itself.
-/

namespace Peryx.Stars

open List

variable {α : Type} (star : α)

/-! ## Words of a pattern -/

/-- The word splits so that each star stands for a run and all else agrees. -/
inductive Accepts : List α → List α → Prop
  | nil : Accepts [] []
  | run {pattern word : List α} (run : List α) (rest : Accepts pattern word) :
      Accepts (star :: pattern) (run ++ word)
  | literal {pattern word : List α} {x : α} (plain : x ≠ star) (rest : Accepts pattern word) :
      Accepts (x :: pattern) (x :: word)

/-- A suffix may remain once a word is consumed: what is before it stands for the
word, or the suffix begins with a star that stands for the end of it. -/
def Remains (pattern word rest : List α) : Prop :=
  ∃ before, pattern = before ++ rest ∧
    (Accepts star before word ∨
      ∃ rest', rest = star :: rest' ∧ Accepts star (before ++ [star]) word)

/-- A word is consumed symbol by symbol, and a suffix of the pattern is left. -/
inductive Consumes : List α → List α → List α → Prop
  | done (pattern : List α) : Consumes pattern [] pattern
  | skip {pattern word rest : List α} (after : Consumes pattern word rest) :
      Consumes (star :: pattern) word rest
  | take {pattern word rest : List α} (x : α) (after : Consumes (star :: pattern) word rest) :
      Consumes (star :: pattern) (x :: word) rest
  | literal {pattern word rest : List α} {x : α} (plain : x ≠ star)
      (after : Consumes pattern word rest) : Consumes (x :: pattern) (x :: word) rest

variable {star} {pattern word word' rest mid : List α}

theorem Consumes.run (run : List α) (after : Consumes star pattern word rest) :
    Consumes star (star :: pattern) (run ++ word) rest := by
  induction run with
  | nil => exact .skip after
  | cons x run ih => exact .take x ih

/-- **Derivatives.** A word in two parts is consumed one part after the other. -/
theorem Consumes.append (first : Consumes star pattern word mid)
    (second : Consumes star mid word' rest) : Consumes star pattern (word ++ word') rest := by
  induction first with
  | done => exact second
  | skip _ ih => exact .skip (ih second)
  | take x _ ih => exact .take x (ih second)
  | literal plain _ ih => exact .literal plain (ih second)

theorem Consumes.split (both : Consumes star pattern (word ++ word') rest) :
    ∃ mid, Consumes star pattern word mid ∧ Consumes star mid word' rest := by
  generalize joined : word ++ word' = whole at both
  induction both generalizing word with
  | done pattern =>
    obtain ⟨rfl, rfl⟩ := append_eq_nil_iff.mp joined
    exact ⟨pattern, .done _, .done _⟩
  | skip _ ih =>
    obtain ⟨mid, first, second⟩ := ih joined
    exact ⟨mid, .skip first, second⟩
  | @take pattern whole rest x after ih =>
    cases word with
    | nil =>
      cases joined
      exact ⟨_, .done _, .take x after⟩
    | cons y word =>
      obtain ⟨rfl, tails⟩ := List.cons.inj joined
      obtain ⟨mid, first, second⟩ := ih tails
      exact ⟨mid, .take y first, second⟩
  | @literal pattern whole rest x plain after ih =>
    cases word with
    | nil =>
      cases joined
      exact ⟨_, .done _, .literal plain after⟩
    | cons y word =>
      obtain ⟨rfl, tails⟩ := List.cons.inj joined
      obtain ⟨mid, first, second⟩ := ih tails
      exact ⟨mid, .literal plain first, second⟩

theorem consumes_append :
    Consumes star pattern (word ++ word') rest ↔
      ∃ mid, Consumes star pattern word mid ∧ Consumes star mid word' rest :=
  ⟨Consumes.split, fun ⟨_, first, second⟩ => first.append second⟩

theorem accepts_self (word : List α) : Accepts star word word := by
  induction word with
  | nil => exact .nil
  | cons x word ih =>
    obtain rfl | plain := eq_or_ne x star
    · exact .run [x] ih
    · exact .literal plain ih

theorem Accepts.consumes (accepts : Accepts star pattern word) (rest : List α) :
    Consumes star (pattern ++ rest) word rest := by
  induction accepts with
  | nil => exact .done rest
  | run run _ ih => exact ih.run run
  | literal plain _ ih => exact .literal plain ih

theorem Consumes.suffix (consumes : Consumes star pattern word rest) : rest <:+ pattern := by
  induction consumes with
  | done => exact suffix_refl _
  | skip _ ih => exact ih.trans (suffix_cons _ _)
  | take _ _ ih => exact ih
  | literal _ _ ih => exact ih.trans (suffix_cons _ _)

theorem accepts_concat_star :
    Accepts star (pattern ++ [star]) word ↔
      ∃ front run, word = front ++ run ∧ Accepts star pattern front := by
  constructor
  · intro accepts
    induction pattern generalizing word with
    | nil =>
      obtain _ | ⟨run, rest⟩ | ⟨plain, rest⟩ := accepts
      · exact ⟨[], _, rfl, .nil⟩
      · exact absurd rfl plain
    | cons x pattern ih =>
      obtain _ | ⟨run, rest⟩ | ⟨plain, rest⟩ := accepts
      · obtain ⟨front, tail, rfl, accepts⟩ := ih rest
        exact ⟨run ++ front, tail, (append_assoc ..).symm, .run run accepts⟩
      · obtain ⟨front, tail, rfl, accepts⟩ := ih rest
        exact ⟨x :: front, tail, rfl, .literal plain accepts⟩
  · rintro ⟨front, run, rfl, accepts⟩
    induction accepts with
    | nil =>
      have whole : Accepts star [star] (run ++ []) := .run run .nil
      simpa using whole
    | run run' _ ih =>
      rw [append_assoc]
      exact .run run' ih
    | literal plain _ ih => exact .literal plain ih

theorem Accepts.grow (accepts : Accepts star (star :: pattern) word) (x : α) :
    Accepts star (star :: pattern) (x :: word) := by
  obtain _ | ⟨run, rest⟩ | ⟨plain, rest⟩ := accepts
  · exact .run (x :: run) rest
  · exact absurd rfl plain

theorem remains_iff : Remains star pattern word rest ↔ Consumes star pattern word rest := by
  constructor
  · rintro ⟨before, rfl, accepts | ⟨rest', rfl, accepts⟩⟩
    · exact accepts.consumes rest
    · obtain ⟨front, run, rfl, whole⟩ := accepts_concat_star.mp accepts
      refine (whole.consumes _).append ?_
      -- the star stands for the end of the word, and stays
      clear accepts
      induction run with
      | nil => exact .done _
      | cons x run ih => exact .take x ih
  · intro consumes
    induction consumes with
    | done pattern => exact ⟨[], rfl, .inl .nil⟩
    | skip _ ih =>
      obtain ⟨before, rfl, accepts | ⟨rest', rfl, accepts⟩⟩ := ih
      · exact ⟨star :: before, rfl, .inl (.run [] accepts)⟩
      · exact ⟨star :: before, rfl, .inr ⟨rest', rfl, .run [] accepts⟩⟩
    | @take pattern word rest x after ih =>
      obtain ⟨before, same, accepts⟩ := ih
      cases before with
      | nil =>
        have whole : Accepts star [star] (x :: word ++ []) := .run (x :: word) .nil
        exact ⟨[], same, .inr ⟨pattern, same.symm, by simpa using whole⟩⟩
      | cons y before =>
        obtain ⟨rfl, -⟩ := List.cons.inj same
        refine ⟨star :: before, same, ?_⟩
        obtain accepts | ⟨rest', is, accepts⟩ := accepts
        · exact .inl (accepts.grow x)
        · exact .inr ⟨rest', is, accepts.grow x⟩
    | literal plain _ ih =>
      obtain ⟨before, rfl, accepts | ⟨rest', rfl, accepts⟩⟩ := ih
      · exact ⟨_ :: before, rfl, .inl (.literal plain accepts)⟩
      · exact ⟨_ :: before, rfl, .inr ⟨rest', rfl, .literal plain accepts⟩⟩

theorem accepts_iff_consumes : Accepts star pattern word ↔ Consumes star pattern word [] := by
  refine ⟨fun accepts => by simpa using accepts.consumes [], fun consumes => ?_⟩
  obtain ⟨before, same, accepts | ⟨_, is, _⟩⟩ := remains_iff.mpr consumes
  · rw [same, List.append_nil]
    exact accepts
  · cases is

theorem Consumes.drop_stars (consumes : Consumes star pattern word rest)
    (stars : ∀ x ∈ rest, x = star) : Consumes star pattern word [] := by
  have skips : Consumes star rest [] [] := by
    clear consumes
    induction rest with
    | nil => exact .done _
    | cons x rest ih =>
      obtain rfl := stars x mem_cons_self
      exact .skip (ih fun y mem => stars y (mem_cons_of_mem _ mem))
  simpa using consumes.append skips

theorem accepts_iff_stars :
    Accepts star pattern word ↔
      ∃ rest, Consumes star pattern word rest ∧ ∀ x ∈ rest, x = star := by
  rw [accepts_iff_consumes]
  exact ⟨fun consumes => ⟨[], consumes, nofun⟩,
    fun ⟨_, consumes, stars⟩ => consumes.drop_stars stars⟩

/-! ## Rows of flags -/

inductive Closed (star : α) (pattern : List α) (flags : Nat → Prop) : Nat → Prop
  | here {q : Nat} (flag : flags q) : Closed star pattern flags q
  | skip {q : Nat} (closed : Closed star pattern flags q) (isStar : pattern[q]? = some star) :
      Closed star pattern flags (q + 1)

variable {flags : Nat → Prop} {q : Nat} {x : α}

theorem Closed.cases_iff :
    Closed star pattern flags (q + 1) ↔
      flags (q + 1) ∨ Closed star pattern flags q ∧ pattern[q]? = some star := by
  constructor
  · rintro (flag | ⟨closed, isStar⟩)
    · exact .inl flag
    · exact .inr ⟨closed, isStar⟩
  · rintro (flag | ⟨closed, isStar⟩)
    · exact .here flag
    · exact .skip closed isStar

inductive Moved (star : α) (pattern : List α) (x : α) (flags : Nat → Prop) : Nat → Prop
  | stay {q : Nat} (flag : flags q) (isStar : pattern[q]? = some star) :
      Moved star pattern x flags q
  | go {q : Nat} (flag : flags q) (plain : x ≠ star) (agrees : pattern[q]? = some x) :
      Moved star pattern x flags (q + 1)

/-! ## Positions are what remains -/

def At (star : α) (pattern word : List α) (q : Nat) : Prop :=
  q ≤ pattern.length ∧ Consumes star pattern word (pattern.drop q)

theorem of_drop_eq_cons (cut : pattern.drop q = x :: rest) :
    pattern[q]? = some x ∧ pattern.drop (q + 1) = rest := by
  constructor
  · have first := congrArg (·[0]?) cut
    simpa using first
  · rw [← tail_drop, cut, tail_cons]

theorem drop_eq_cons (is : pattern[q]? = some x) :
    pattern.drop q = x :: pattern.drop (q + 1) := by
  obtain ⟨lt, is⟩ := List.getElem?_eq_some_iff.mp is
  rw [drop_eq_getElem_cons lt, is]

theorem lt_of_getElem? (is : pattern[q]? = some x) : q < pattern.length :=
  (List.getElem?_eq_some_iff.mp is).1

theorem At.of_closed (sound : ∀ q, flags q → At star pattern word q)
    (closed : Closed star pattern flags q) : At star pattern word q := by
  induction closed with
  | here flag => exact sound _ flag
  | skip _ isStar ih =>
    have cut := ih.2
    rw [drop_eq_cons isStar] at cut
    exact ⟨lt_of_getElem? isStar, by simpa using cut.append (.skip (.done _))⟩

theorem At.of_moved (sound : ∀ q, flags q → At star pattern word q)
    (moved : Moved star pattern x flags q) : At star pattern (word ++ [x]) q := by
  cases moved with
  | stay flag isStar =>
    obtain ⟨le, cut⟩ := sound _ flag
    rw [drop_eq_cons isStar] at cut
    exact ⟨le, drop_eq_cons isStar ▸ cut.append (.take x (.done _))⟩
  | go flag plain agrees =>
    obtain ⟨le, cut⟩ := sound _ flag
    rw [drop_eq_cons agrees] at cut
    exact ⟨lt_of_getElem? agrees, cut.append (.literal plain (.done _))⟩

theorem Closed.of_consumes (consumes : Consumes star mid word rest)
    (nothing : word = []) {p : Nat} (start : Closed star pattern flags p)
    (le : p ≤ pattern.length) (le' : q ≤ pattern.length) (first : pattern.drop p = mid)
    (last : pattern.drop q = rest) : Closed star pattern flags q := by
  induction consumes generalizing p with
  | done =>
    have lengths := congrArg List.length (first.trans last.symm)
    rw [length_drop, length_drop] at lengths
    have same : p = q := by omega
    exact same ▸ start
  | skip _ ih =>
    obtain ⟨isStar, cut⟩ := of_drop_eq_cons first
    exact ih nothing (.skip start isStar) (lt_of_getElem? isStar) cut last
  | take => cases nothing
  | literal => cases nothing

theorem closed_moved_of_consumes (complete : ∀ p, At star pattern word p → flags p)
    (consumes : Consumes star mid word' rest) (one : word' = [x]) {p : Nat}
    (start : At star pattern word p) (le : q ≤ pattern.length) (first : pattern.drop p = mid)
    (last : pattern.drop q = rest) :
    Closed star pattern (Moved star pattern x flags) q := by
  induction consumes generalizing p with
  | done => cases one
  | skip _ ih =>
    obtain ⟨isStar, cut⟩ := of_drop_eq_cons first
    have next : At star pattern word (p + 1) :=
      At.of_closed (fun _ h => h) (.skip (.here start) isStar)
    exact ih one next cut last
  | take y after _ =>
    obtain ⟨rfl, nothing⟩ := List.cons.inj one
    obtain ⟨isStar, -⟩ := of_drop_eq_cons first
    have stayed : Moved star pattern y flags p := .stay (complete p start) isStar
    exact .of_consumes after nothing (.here stayed) start.1 le first last
  | literal plain after _ =>
    obtain ⟨rfl, nothing⟩ := List.cons.inj one
    obtain ⟨agrees, cut⟩ := of_drop_eq_cons first
    have gone : Moved star pattern _ flags (p + 1) := .go (complete p start) plain agrees
    exact .of_consumes after nothing (.here gone) (lt_of_getElem? agrees) le cut last

section Flags

variable [DecidableEq α] (star) (pattern)

/-- Where a position is reached that is a star, so is the next one. -/
def closeStars (reachable : List Bool) : List Bool :=
  (List.range pattern.length).foldl (fun reachable position =>
    if reachable.getD position false ∧ pattern[position]? = some star then
      reachable.set (position + 1) true
    else reachable) reachable

/-- Every position that is reached moves on with a symbol: a star stays, and any
other symbol has to agree. -/
def advance (reachable : List Bool) (x : α) : List Bool :=
  (List.range pattern.length).foldl (fun next position =>
    if reachable.getD position false then
      if pattern[position]? = some star then next.set position true
      else if pattern[position]? = some x then next.set (position + 1) true
      else next
    else next) (List.replicate (pattern.length + 1) false)

def reachable (word : List α) : List Bool :=
  word.foldl (fun reachable x => closeStars star pattern (advance star pattern reachable x))
    (closeStars star pattern ((List.replicate (pattern.length + 1) false).set 0 true))

variable {star pattern}

variable {flags : List Bool}

theorem getD_set_true {i : Nat} :
    (flags.set i true).getD q false = true ↔
      (q = i ∧ i < flags.length) ∨ flags.getD q false = true := by
  by_cases same : i = q
  · subst same
    by_cases inside : i < flags.length
    · simp [inside]
    · simp [inside]
  · simp [same, Ne.symm same]

theorem closeStars_loop (size : flags.length = pattern.length + 1) {k : Nat}
    (le : k ≤ pattern.length) :
    let upTo := (List.range k).foldl (fun reachable position =>
      if reachable.getD position false ∧ pattern[position]? = some star then
        reachable.set (position + 1) true
      else reachable) flags
    upTo.length = flags.length ∧ ∀ q, upTo.getD q false = true ↔
      if q ≤ k then Closed star pattern (fun q => flags.getD q false = true) q
      else flags.getD q false = true := by
  induction k with
  | zero =>
    refine ⟨rfl, fun q => ?_⟩
    split
    · next zero =>
      obtain rfl := Nat.le_zero.mp zero
      refine ⟨fun flag => .here flag, fun closed => ?_⟩
      cases closed with
      | here flag => exact flag
    · exact Iff.rfl
  | succ k ih =>
    obtain ⟨length, closed⟩ := ih (Nat.le_of_succ_le le)
    rw [range_succ, foldl_append]
    dsimp only [foldl_cons, foldl_nil] at length closed ⊢
    generalize (List.range k).foldl _ flags = upTo at length closed ⊢
    have here : upTo.getD k false = true ↔
        Closed star pattern (fun q => flags.getD q false = true) k := by
      rw [closed k, if_pos le_rfl]
    have last : upTo.getD (k + 1) false = true ↔ flags.getD (k + 1) false = true := by
      rw [closed (k + 1), if_neg (by omega)]
    refine ⟨by split <;> simp [length], fun q => ?_⟩
    by_cases next : q = k + 1
    · subst next
      rw [if_pos le_rfl, Closed.cases_iff, ← here, ← last]
      split
      · next both =>
        rw [getD_set_true]
        exact ⟨fun _ => .inr both, fun _ => .inl ⟨rfl, by omega⟩⟩
      · next both => exact ⟨.inl, fun h => h.resolve_right both⟩
    · have same : (if q ≤ k + 1 then Closed star pattern (fun q => flags.getD q false = true) q
          else flags.getD q false = true) ↔ upTo.getD q false = true := by
        rw [closed q]
        by_cases before : q ≤ k
        · rw [if_pos before, if_pos (by omega)]
        · rw [if_neg before, if_neg (by omega)]
      rw [same]
      split
      · rw [getD_set_true]
        exact ⟨fun h => h.resolve_left fun h => next h.1, .inr⟩
      · exact Iff.rfl

theorem closeStars_iff (size : flags.length = pattern.length + 1) (q : Nat) :
    (closeStars star pattern flags).getD q false = true ↔
      Closed star pattern (fun q => flags.getD q false = true) q := by
  refine ((closeStars_loop size le_rfl).2 q).trans ?_
  split
  · exact Iff.rfl
  · next past =>
    refine ⟨fun flag => .here flag, fun closed => ?_⟩
    cases closed with
    | here flag => exact flag
    | skip _ isStar =>
      obtain ⟨lt, -⟩ := List.getElem?_eq_some_iff.mp isStar
      omega

/-- A loop that sets flags sets those it aims at, and leaves the others. -/
theorem foldl_set_true (target : Nat → Option Nat) (positions : List Nat) (flags : List Bool) :
    let next := positions.foldl (fun next p => (target p).elim next (next.set · true)) flags
    next.length = flags.length ∧ ∀ q, next.getD q false = true ↔
      flags.getD q false = true ∨ q < flags.length ∧ ∃ p ∈ positions, target p = some q := by
  induction positions generalizing flags with
  | nil => simp
  | cons p positions ih =>
    cases aims : target p with
    | none => simpa [aims] using ih flags
    | some i =>
      obtain ⟨length, sets⟩ := ih (flags.set i true)
      simp only [length_set, getD_set_true] at length sets
      simp only [foldl_cons, aims, Option.elim_some, exists_mem_cons_iff]
      refine ⟨length, fun q => (sets q).trans ?_⟩
      grind

/-- Where a position leads to with a symbol. -/
def target (star : α) (pattern : List α) (flags : List Bool) (x : α) (p : Nat) : Option Nat :=
  if flags.getD p false then
    if pattern[p]? = some star then some p
    else if pattern[p]? = some x then some (p + 1) else none
  else none

theorem advance_sets (flags : List Bool) (x : α) :
    (advance star pattern flags x).length = pattern.length + 1 ∧
      ∀ q, (advance star pattern flags x).getD q false = true ↔
        q < pattern.length + 1 ∧ ∃ p < pattern.length, target star pattern flags x p = some q := by
  have loop : advance star pattern flags x = (List.range pattern.length).foldl
      (fun next p => (target star pattern flags x p).elim next (next.set · true))
      (List.replicate (pattern.length + 1) false) := by
    unfold advance target
    congr 1
    funext next p
    split_ifs <;> rfl
  rw [loop]
  simpa using foldl_set_true (target star pattern flags x) (List.range pattern.length)
    (List.replicate (pattern.length + 1) false)

theorem advance_iff (flags : List Bool) (x : α) (q : Nat) :
    (advance star pattern flags x).getD q false = true ↔
      Moved star pattern x (fun p => flags.getD p false = true) q := by
  rw [(advance_sets flags x).2]
  constructor
  · rintro ⟨-, p, -, aims⟩
    unfold target at aims
    split_ifs at aims with flag isStar agrees <;> cases aims
    · exact .stay flag isStar
    · exact .go flag (fun same => isStar (same ▸ agrees)) agrees
  · rintro (⟨flag, isStar⟩ | ⟨flag, plain, agrees⟩)
    · have inside := lt_of_getElem? isStar
      exact ⟨by omega, q, inside, by rw [target, if_pos flag, if_pos isStar]⟩
    · have inside := lt_of_getElem? agrees
      refine ⟨by omega, _, inside, ?_⟩
      rw [target, if_pos flag, if_neg (by grind), if_pos agrees]

/-- **The positions a word leads to are those at which what remains begins.** -/
theorem reachable_iff (word : List α) (q : Nat) :
    (reachable star pattern word).getD q false = true ↔ At star pattern word q := by
  induction word using reverseRecOn generalizing q with
  | nil =>
    refine (closeStars_iff (by simp) q).trans ⟨fun closed => ?_, fun here => ?_⟩
    · refine At.of_closed (fun q flag => ?_) closed
      obtain ⟨rfl, -⟩ | flag := getD_set_true.mp flag
      · exact ⟨Nat.zero_le _, .done _⟩
      · rw [getD_eq_getElem?_getD, getElem?_replicate] at flag
        split at flag <;> cases flag
    · have start : Closed star pattern
          (fun q =>
            ((List.replicate (pattern.length + 1) false).set 0 true).getD q false = true) 0 :=
        .here (getD_set_true.mpr (.inl ⟨rfl, by simp⟩))
      exact .of_consumes here.2 rfl start (Nat.zero_le _) here.1 rfl rfl
  | append_singleton word x ih =>
    have moved : ∀ q, (advance star pattern (reachable star pattern word) x).getD q false = true ↔
        Moved star pattern x (At star pattern word) q := by
      intro q
      rw [advance_iff, funext fun p => propext (ih p)]
    have step : reachable star pattern (word ++ [x]) =
        closeStars star pattern (advance star pattern (reachable star pattern word) x) := by
      unfold reachable
      rw [foldl_append]
      rfl
    rw [step, closeStars_iff (advance_sets _ x).1, funext fun p => propext (moved p)]
    constructor
    · exact fun closed => At.of_closed (fun q => At.of_moved fun _ h => h) closed
    · intro here
      obtain ⟨mid, first, second⟩ := here.2.split
      obtain ⟨before, same⟩ := first.suffix
      have cut : pattern.drop before.length = mid := by rw [← same, drop_left]
      have le : before.length ≤ pattern.length := by rw [← same]; simp
      exact closed_moved_of_consumes (fun _ h => h) second rfl ⟨le, cut ▸ first⟩ here.1 cut rfl

end Flags

end Peryx.Stars
