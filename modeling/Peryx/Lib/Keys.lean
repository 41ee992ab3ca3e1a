import Mathlib

/-!
# Keys under a front

Tables keyed by text are listed by the front of their keys. Texts are ordered by
their characters, so a scan from the front on that stops at the first key
outside it sees all keys under it (`takeWhile_under`), and so does a range that
ends where the last character of the front is replaced by the next one
(`range_iff_under`).

`append_cons_inj` reads fields back: what stands before the first separator is
determined by the whole.
-/

namespace Peryx

open List String

/-- `str::strip_prefix`. -/
def stripPrefix (start text : String) : Option String :=
  if start.toList <+: text.toList then some (String.ofList (text.toList.drop start.toList.length))
  else none

theorem stripPrefix_append (start rest : String) :
    stripPrefix start (start ++ rest) = some rest := by
  have begins : start.toList <+: (start ++ rest).toList := by
    rw [toList_append]
    exact prefix_append _ _
  rw [stripPrefix, if_pos begins, toList_append, drop_left, ofList_toList]

namespace Keys

/-! ## Texts in order -/

theorem append_lt_append_left (front a b : String) : front ++ a < front ++ b ↔ a < b := by
  rw [lt_iff_toList_lt, lt_iff_toList_lt, toList_append, toList_append]
  induction front.toList with
  | nil => rfl
  | cons c l ih => simpa using ih

/-- The key begins with `front`. -/
def Under (front key : String) : Prop :=
  front.toList <+: key.toList

instance (front key : String) : Decidable (Under front key) :=
  inferInstanceAs (Decidable (front.toList <+: key.toList))

variable {front key : String} {c next : Char}

theorem under_iff : Under front key ↔ ∃ rest, key = front ++ rest := by
  constructor
  · rintro ⟨rest, split⟩
    exact ⟨String.ofList rest, toList_injective (by simp [split])⟩
  · rintro ⟨rest, rfl⟩
    exact ⟨rest.toList, toList_append.symm⟩

@[simp] theorem under_append (front rest : String) : Under front (front ++ rest) :=
  under_iff.mpr ⟨rest, rfl⟩

theorem append_le_append_left (front a b : String) : front ++ a ≤ front ++ b ↔ a ≤ b := by
  rw [← not_lt, ← not_lt, append_lt_append_left]

theorem le_of_under (under : Under front key) : front ≤ key := by
  obtain ⟨rest, rfl⟩ := under_iff.mp under
  have least : "" ≤ rest := not_lt.mp fun before =>
    not_lt_nil _ (lt_iff_toList_lt.mp before)
  simpa using (append_le_append_left front "" rest).mpr least

theorem prefix_of_between : ∀ {front key last : List Char}, ¬ key < front → ¬ last < key →
    front <+: last → front <+: key
  | [], _, _, _, _, _ => nil_prefix
  | c :: front, [], _, above, _, _ => absurd (List.Lex.nil) above
  | c :: front, d :: key, last, above, below, begins => by
    obtain ⟨rest, rfl⟩ := begins
    rw [cons_lt_cons_iff, not_or, not_and] at above
    rw [cons_append, cons_lt_cons_iff, not_or, not_and] at below
    obtain rfl : c = d := le_antisymm (not_lt.mp above.1) (not_lt.mp below.1)
    exact (prefix_cons_inj c).mpr
      (prefix_of_between (above.2 rfl) (below.2 rfl) (prefix_append _ _))

/-- Between two keys under a front there are only such keys. -/
theorem under_of_between {last : String} (above : front ≤ key) (below : key ≤ last)
    (under : Under front last) : Under front key :=
  prefix_of_between (fun before => not_lt.mpr above (lt_iff_toList_lt.mpr before))
    (fun before => not_lt.mpr below (lt_iff_toList_lt.mpr before)) under

theorem prefix_of_lt_next (succ : next.toNat = c.toNat + 1) :
    ∀ {front key : List Char}, ¬ key < front ++ [c] → key < front ++ [next] → front ++ [c] <+: key
  | [], [], above, _ => absurd List.Lex.nil above
  | [], d :: key, above, below => by
    rw [nil_append, cons_lt_cons_iff, not_or] at above
    rw [nil_append, cons_lt_cons_iff] at below
    have upper : d < next := below.resolve_right fun short => not_lt_nil _ short.2
    have lower : c ≤ d := not_lt.mp above.1
    have same : d.toNat = c.toNat := by
      have upper : d.toNat < next.toNat := upper
      have lower : c.toNat ≤ d.toNat := lower
      omega
    obtain rfl : d = c := Char.toNat_inj.mp same
    exact prefix_append [d] key
  | b :: front, [], above, _ => absurd List.Lex.nil above
  | b :: front, d :: key, above, below => by
    rw [cons_append, cons_lt_cons_iff, not_or, not_and] at above
    rw [cons_append, cons_lt_cons_iff] at below
    obtain rfl : d = b := by
      refine le_antisymm ?_ (not_lt.mp above.1)
      exact below.elim le_of_lt fun ⟨same, _⟩ => le_of_eq same
    have within := below.resolve_left (lt_irrefl d)
    exact (prefix_cons_inj d).mpr (prefix_of_lt_next succ (above.2 rfl) within.2)

/-- The range up to the next last character is what begins with the front. -/
theorem range_iff_under (start : String) (succ : next.toNat = c.toNat + 1) :
    start.push c ≤ key ∧ key < start.push next ↔ Under (start.push c) key := by
  constructor
  · rintro ⟨above, below⟩
    rw [← not_lt, lt_iff_toList_lt, toList_push] at above
    rw [lt_iff_toList_lt, toList_push] at below
    rw [Under, toList_push]
    exact prefix_of_lt_next succ above below
  · intro under
    refine ⟨le_of_under under, ?_⟩
    obtain ⟨rest, rfl⟩ := under_iff.mp under
    rw [lt_iff_toList_lt, toList_append, toList_push, toList_push, List.append_assoc]
    refine append_left_lt ?_
    refine List.Lex.rel ?_
    change c.toNat < next.toNat
    omega

theorem between_iff_under (start : String)
    (succ : next.toNat = c.toNat + 1) (longer : key ≠ start.push c) :
    start.push c < key ∧ key < start.push next ↔ Under (start.push c) key := by
  rw [← range_iff_under start succ]
  refine and_congr_left fun _ => ⟨le_of_lt, fun above => lt_of_le_of_ne above longer.symm⟩

/-! ## Scans -/

section

variable {α : Type*} {key : α → String}

/-- In an ordered scan the keys under a front come first. -/
theorem takeWhile_under : ∀ {rows : List α}, (rows.Pairwise fun a b => key a < key b) →
    (∀ row ∈ rows, front ≤ key row) →
    rows.takeWhile (fun row => Under front (key row)) = rows.filter fun row => Under front (key row)
  | [], _, _ => rfl
  | row :: rows, ordered, above => by
    obtain ⟨first, rest⟩ := pairwise_cons.mp ordered
    by_cases under : Under front (key row)
    · rw [takeWhile_cons_of_pos (by simpa using under), filter_cons_of_pos (by simpa using under),
        takeWhile_under rest fun row mem => above row (.tail _ mem)]
    · rw [takeWhile_cons_of_neg (by simpa using under), filter_cons_of_neg (by simpa using under)]
      refine (filter_eq_nil_iff.mpr fun later mem => ?_).symm
      rw [decide_eq_true_iff]
      intro inside
      exact under (under_of_between (above row mem_cons_self) (first later mem).le inside)

end

/-! ## Fields -/

/-- A separator that is in neither part splits a key in one way. -/
theorem append_cons_inj {α : Type*} {sep : α} : ∀ {a b r s : List α}, sep ∉ a → sep ∉ b →
    a ++ sep :: r = b ++ sep :: s → a = b ∧ r = s
  | [], [], _, _, _, _, same => ⟨rfl, (List.cons.inj same).2⟩
  | [], c :: b, _, _, _, free, same =>
    absurd ((List.cons.inj same).1 ▸ mem_cons_self) free
  | c :: a, [], _, _, free, _, same =>
    absurd ((List.cons.inj same).1 ▸ mem_cons_self) free
  | c :: a, d :: b, r, s, fa, fb, same => by
    obtain ⟨rfl, rest⟩ := List.cons.inj same
    obtain ⟨rfl, rfl⟩ := append_cons_inj (fun mem => fa (.tail _ mem))
      (fun mem => fb (.tail _ mem)) rest
    exact ⟨rfl, rfl⟩

/-- So does one that may be missing. -/
theorem append_inj_of_sep {α : Type*} {sep : α} {a b r s : List α} (fa : sep ∉ a) (fb : sep ∉ b)
    (hr : r = [] ∨ ∃ t, r = sep :: t) (hs : s = [] ∨ ∃ t, s = sep :: t)
    (same : a ++ r = b ++ s) : a = b ∧ r = s := by
  obtain rfl | ⟨t, rfl⟩ := hr <;> obtain rfl | ⟨u, rfl⟩ := hs
  · simpa using same
  · exact absurd (List.append_nil a ▸ same ▸ mem_append_right b mem_cons_self) fa
  · exact absurd (List.append_nil b ▸ same ▸ mem_append_right a mem_cons_self) fb
  · obtain ⟨rfl, rfl⟩ := append_cons_inj fa fb same
    exact ⟨rfl, rfl⟩

end Keys

end Peryx
