import Peryx.Lib.Utf8

/-!
# Access patterns

`Glob` of `acl.rs` in `peryx-identity`: `*` stands for any run of characters, all
other characters for themselves. The matcher runs over bytes and keeps the
positions of the pattern it may be at; what is left of the pattern at such a
position is cut out of its text, which is an error unless a character begins
there.

- `matches_iff`: the matcher, byte by byte, accepts what the pattern stands for.
- `glob_exact`, `matchesPrefix_exact`: what that says of texts and their beginnings.
-/

namespace Peryx.Identity

open List String

open Stars Utf8

structure Glob where
  pattern : String
deriving DecidableEq

namespace Glob

/-- `*` as a byte. -/
def starByte : UInt8 := 42

def bytes (text : String) : List UInt8 :=
  encode text.toList

variable (glob : Glob)

/-- Each suffix that can match after consuming `front`; nothing where a suffix
would not begin with a character. -/
def remaindersAfter (front : String) : Option (List String) :=
  ((reachable starByte (bytes glob.pattern) (bytes front)).zipIdx.filter (·.1)).mapM
    fun entry => (sliceFrom glob.pattern.toList entry.2).map String.ofList

def matchesPrefix (front : String) : Option Bool :=
  (glob.remaindersAfter front).map (!·.isEmpty)

def «matches» (resource : String) : Option Bool :=
  (glob.remaindersAfter resource).map fun remainders =>
    remainders.any fun remainder => (bytes remainder).all (· = starByte)

theorem ascii_star : String.utf8EncodeChar '*' = [starByte] := by decide

theorem sliceFrom_of_at {pattern front : List Char} {position : Nat}
    (here : At starByte (encode pattern) (encode front) position) :
    ∃ rest, sliceFrom pattern position = some rest ∧ Consumes '*' pattern front rest := by
  obtain ⟨le, consumes⟩ := here
  obtain ⟨rest, cut, consumes⟩ := (consumes_encode_iff ascii_star).mp consumes
  obtain ⟨before, rfl⟩ := consumes.suffix
  refine ⟨rest, ?_, consumes⟩
  have lengths := congrArg List.length cut
  rw [length_drop, encode_append, List.length_append] at lengths
  rw [encode_append, List.length_append] at le
  have position_eq : position = (encode before).length := by omega
  rw [position_eq, sliceFrom_append]

theorem at_of_consumes {before rest front : List Char}
    (consumes : Consumes '*' (before ++ rest) front rest) :
    At starByte (encode (before ++ rest)) (encode front) (encode before).length := by
  refine ⟨by simp, (consumes_encode_iff ascii_star).mpr ⟨rest, ?_, consumes⟩⟩
  rw [encode_append, drop_left]

theorem mem_active {flags : List Bool} {entry : Bool × Nat} :
    entry ∈ flags.zipIdx.filter (·.1) ↔ entry.1 = true ∧ flags.getD entry.2 false = true := by
  rw [mem_filter, mem_zipIdx_iff_getElem?, getD_eq_getElem?_getD]
  constructor
  · rintro ⟨is, active⟩
    rw [is]
    exact ⟨active, active⟩
  · rintro ⟨active, is⟩
    rw [active]
    cases there : flags[entry.2]? with
    | none =>
      rw [there] at is
      cases is
    | some flag =>
      rw [there] at is
      exact ⟨congrArg some is, rfl⟩

theorem mapM_of_forall {α β : Type} {f : α → Option β} {l : List α}
    (each : ∀ x ∈ l, ∃ y, f x = some y) :
    ∃ ys, l.mapM f = some ys ∧ ∀ y, y ∈ ys ↔ ∃ x ∈ l, f x = some y := by
  induction l with
  | nil => exact ⟨[], rfl, by simp⟩
  | cons x l ih =>
    obtain ⟨y, here⟩ := each x mem_cons_self
    obtain ⟨ys, rest, mem⟩ := ih fun x mem => each x (mem_cons_of_mem _ mem)
    refine ⟨y :: ys, by rw [mapM_cons, here, rest]; rfl, fun z => ?_⟩
    rw [mem_cons, mem z, exists_mem_cons_iff, here, Option.some.injEq, eq_comm]

/-- The remainders are what consuming `front` leaves, and there always are any that
were asked for: no suffix is cut inside a character. -/
theorem remaindersAfter_spec (front : String) :
    ∃ remainders, glob.remaindersAfter front = some remainders ∧
      ∀ rest, rest ∈ remainders ↔
        Consumes '*' glob.pattern.toList front.toList rest.toList := by
  have active : ∀ {entry : Bool × Nat},
      entry ∈ (reachable starByte (bytes glob.pattern) (bytes front)).zipIdx.filter (·.1) →
        At starByte (bytes glob.pattern) (bytes front) entry.2 :=
    fun mem => (reachable_iff _ _).mp (mem_active.mp mem).2
  obtain ⟨remainders, run, mem⟩ := mapM_of_forall
    (l := (reachable starByte (bytes glob.pattern) (bytes front)).zipIdx.filter (·.1))
    (f := fun entry => (sliceFrom glob.pattern.toList entry.2).map String.ofList)
    fun entry mem => by
      obtain ⟨rest, slice, -⟩ := sliceFrom_of_at (active mem)
      exact ⟨String.ofList rest, by rw [slice]; rfl⟩
  refine ⟨remainders, run, fun rest => ?_⟩
  rw [mem]
  constructor
  · rintro ⟨entry, listed, cut⟩
    obtain ⟨rest', slice, consumes⟩ := sliceFrom_of_at (active listed)
    rw [slice] at cut
    obtain rfl := Option.some.inj cut
    rwa [toList_ofList]
  · intro consumes
    obtain ⟨before, whole⟩ := consumes.suffix
    rw [← whole] at consumes
    have here := at_of_consumes consumes
    rw [whole] at here
    refine ⟨(true, (encode before).length), mem_active.mpr ⟨rfl, (reachable_iff _ _).mpr here⟩, ?_⟩
    rw [← whole, sliceFrom_append]
    simp

theorem all_stars_iff (text : String) :
    (bytes text).all (· = starByte) = true ↔ ∀ c ∈ text.toList, c = '*' := by
  rw [all_eq_true]
  constructor
  · intro stars c mem
    by_contra other
    obtain ⟨head, tail, encoded, -⟩ := encodeChar_shape c
    have first : head ∈ String.utf8EncodeChar c := encoded ▸ mem_cons_self
    have isStar := stars head (mem_flatMap.mpr ⟨c, mem, first⟩)
    exact ne_of_mem_encodeChar ascii_star other first (of_decide_eq_true isStar)
  · intro stars b mem
    obtain ⟨c, mem, here⟩ := mem_flatMap.mp mem
    rw [stars c mem, ascii_star] at here
    exact decide_eq_true (mem_singleton.mp here)

theorem matches_spec (resource : String) :
    ∃ accepted, glob.matches resource = some accepted ∧
      (accepted = true ↔ Accepts '*' glob.pattern.toList resource.toList) := by
  obtain ⟨remainders, run, mem⟩ := glob.remaindersAfter_spec resource
  refine ⟨_, by rw [Glob.matches, run]; rfl, ?_⟩
  rw [any_eq_true, accepts_iff_stars]
  constructor
  · rintro ⟨rest, listed, stars⟩
    exact ⟨rest.toList, (mem rest).mp listed, (all_stars_iff rest).mp stars⟩
  · rintro ⟨rest, consumes, stars⟩
    refine ⟨String.ofList rest, (mem _).mpr ?_, (all_stars_iff _).mpr ?_⟩
    · rwa [toList_ofList]
    · rwa [toList_ofList]

theorem matches_iff (resource : String) :
    glob.matches resource = some true ↔ Accepts '*' glob.pattern.toList resource.toList := by
  obtain ⟨accepted, run, accepts⟩ := glob.matches_spec resource
  rw [run, Option.some.injEq, accepts]

/-- A pattern accepts a text in two parts where a remainder after the first accepts
the second. -/
theorem matches_append {front : String} {remainders : List String}
    (run : glob.remaindersAfter front = some remainders) (rest : String) :
    glob.matches (front ++ rest) = some true ↔
      ∃ remainder ∈ remainders, (Glob.mk remainder).matches rest = some true := by
  obtain ⟨_, same, mem⟩ := glob.remaindersAfter_spec front
  cases same.symm.trans run
  rw [matches_iff, toList_append, accepts_iff_consumes, consumes_append]
  constructor
  · rintro ⟨mid, first, second⟩
    refine ⟨String.ofList mid, (mem _).mpr ?_, (matches_iff _ rest).mpr ?_⟩
    · rwa [toList_ofList]
    · rw [accepts_iff_consumes, toList_ofList]
      exact second
  · rintro ⟨remainder, listed, accepts⟩
    exact ⟨remainder.toList, (mem remainder).mp listed,
      accepts_iff_consumes.mp ((matches_iff _ rest).mp accepts)⟩

/-- **Access patterns are exact and composable.** The matcher accepts what splits
so that each star stands for a run; the remainders are the suffixes that may remain,
and none is cut inside a character; and a pattern accepts a text in two parts where a
remainder after the first accepts the second. -/
theorem glob_exact (glob : Glob) :
    (∀ resource, ∃ accepted, glob.matches resource = some accepted ∧
      (accepted = true ↔ Accepts '*' glob.pattern.toList resource.toList)) ∧
    (∀ front, ∃ remainders, glob.remaindersAfter front = some remainders ∧
      (∀ rest, rest ∈ remainders ↔
        Remains '*' glob.pattern.toList front.toList rest.toList) ∧
      ∀ rest, glob.matches (front ++ rest) = some true ↔
        ∃ remainder ∈ remainders, (Glob.mk remainder).matches rest = some true) := by
  refine ⟨glob.matches_spec, fun front => ?_⟩
  obtain ⟨remainders, run, mem⟩ := glob.remaindersAfter_spec front
  exact ⟨remainders, run, fun rest => (mem rest).trans remains_iff.symm, glob.matches_append run⟩

/-- The prefix test tells whether a text can go on to one that is accepted. -/
theorem matchesPrefix_exact (glob : Glob) (front : String) :
    ∃ found, glob.matchesPrefix front = some found ∧
      (found = true ↔ ∃ rest, glob.matches (front ++ rest) = some true) := by
  obtain ⟨remainders, run, -⟩ := glob.remaindersAfter_spec front
  refine ⟨_, by rw [matchesPrefix, run]; rfl, ?_⟩
  simp only [glob.matches_append run]
  cases remainders with
  | nil => simp
  | cons remainder remainders =>
    refine iff_of_true rfl ⟨remainder, remainder, mem_cons_self, ?_⟩
    exact (matches_iff _ _).mpr (accepts_self _)

end Glob

end Peryx.Identity
