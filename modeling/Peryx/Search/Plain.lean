import Peryx.Lib.Machine

/-!
# Plain search

`engine.rs` and `verify.rs` of `peryx-search`: the query of a text, the text of a
document, and the document set that verifies its candidates. The index library is
what it promises: the tokenizer indexes all n-grams of a text, and a query of terms
gives the documents that have all of them, in increasing order.

- `VerifiedDocSet.answers_new`: a verified set answers as the list it stands for.
- `plain_search_matches`: which documents a plain query finds.
-/

namespace Peryx.Search

open List Machine

abbrev Text := List Char

def minNgram : Nat := 2

def maxNgram : Nat := 12

def indexedTextBytes : Nat := 65530

/-- `char::to_lowercase`: one character or more. -/
abbrev Lowercase := Char → { text : Text // text ≠ [] }

/-! ## Documents -/

def foldLowercase (lower : Lowercase) (value : Text) : Text :=
  value.flatMap fun c => (lower c).1

def len (value : Text) : Nat :=
  (value.map Char.utf8Size).sum

def isCharBoundary (value : Text) (index : Nat) : Bool :=
  value.inits.any (len · = index)

/-- The loop of `truncate_to_chars`, from `end` down. -/
def boundary (value : Text) : Nat → Nat
  | 0 => 0
  | n + 1 => if isCharBoundary value (n + 1) then n + 1 else boundary value n

def truncateToChars (value : Text) (maxBytes : Nat) : Text :=
  if len value ≤ maxBytes then value
  else (value.inits.find? (len · = boundary value maxBytes)).getD []

/-- A document of the index, by the two fields that a text is searched in. -/
structure Document where
  search : Text
  verify : Text

def document (lower : Lowercase) (resource : Text) : Document :=
  let text := truncateToChars (foldLowercase lower resource) indexedTextBytes
  { search := text, verify := text }

/-! ## Queries -/

inductive Verifier where
  | substring (needle : Text)
  | pattern (isMatch : Text → Bool)

def Verifier.matchesText : Verifier → Text → Bool
  | .substring needle, text => needle <:+: text
  | .pattern isMatch, text => isMatch text

inductive Query where
  | all
  | term (term : Text)
  | intersection (terms : List Text)
  | verified (candidates : Query) (verifier : Verifier)

inductive SearchError where
  | queryTooShort (minimum : Nat)
  | patternSearchDenied
  | invalidPattern (message : Text)

variable (lower : Lowercase) (compile : Text → Except Text (Text → Bool))

def patternQuery (pattern : Text) (authority : Bool) : Except SearchError Query :=
  if pattern = [] then .ok .all
  else if authority = false then .error .patternSearchDenied
  else match compile pattern with
    | .error message => .error (.invalidPattern message)
    | .ok isMatch => .ok (.verified .all (.pattern isMatch))

def windows (width : Nat) (chars : Text) : List Text :=
  (chars.tails.map (take width)).filter (length · = width)

def textQuery (query : Text) (patternAuthority : Bool) : Except SearchError Query :=
  if query = [] then .ok .all
  else match ['r', 'e', ':'].isPrefixOf? query with
    | some pattern => patternQuery compile pattern patternAuthority
    | none =>
      let query := foldLowercase lower query
      if query.length < minNgram then .error (.queryTooShort minNgram)
      else if query[maxNgram]? = none then .ok (.term query)
      else .ok (.verified (.intersection (windows maxNgram query).dedup) (.substring query))

/-! ## Document sets -/

def terminated : Nat := 2147483647

/-- The documents that are left, the current one first. -/
abbrev DocSet := List Nat

inductive DocSetCall where
  | advance
  | seek (target : Nat)

namespace DocSet

def doc (set : DocSet) : Nat :=
  set.headD terminated

def call (set : DocSet) : DocSetCall → DocSet
  | .advance => set.tail
  | .seek target => set.dropWhile (· < target)

def step (set : DocSet) (call : DocSetCall) : DocSet × Nat :=
  (set.call call, doc (set.call call))

end DocSet

namespace VerifiedDocSet

/-- The column has the text of a document, if it can be read. -/
def verified (column : Nat → Option Text) (verifier : Verifier) (doc : Nat) : Bool :=
  (column doc).any verifier.matchesText

/-! Of a verifying set only the candidates move. -/

variable (verified : Nat → Bool)

/-- The loop advances the candidates as long as the current one is not verified. -/
def skipUnverified (candidates : DocSet) : DocSet :=
  candidates.dropWhile (!verified ·)

def new (candidates : DocSet) : DocSet :=
  skipUnverified verified candidates

/-- `advance` and `seek`. -/
def step (candidates : DocSet) (call : DocSetCall) : DocSet × Nat :=
  let left := skipUnverified verified (candidates.call call)
  (left, left.doc)

/-- What the library collects: it advances until the set has ended. -/
def collect : DocSet → List Nat
  | [] => []
  | doc :: left => doc :: collect (step verified (doc :: left) .advance).1
termination_by candidates => candidates.length
decreasing_by exact Nat.lt_succ_of_le (dropWhile_sublist _).length_le

variable {candidates : DocSet}

theorem new_cons (doc : Nat) (left : DocSet) :
    new verified (doc :: left) = if verified doc then doc :: left else new verified left := by
  by_cases is : verified doc <;> simp [new, skipUnverified, is]

theorem collect_new (candidates : DocSet) :
    collect verified (new verified candidates) = candidates.filter verified := by
  induction candidates with
  | nil => exact collect.eq_1 _
  | cons doc left ih =>
    rw [new_cons]
    split
    case isTrue is =>
      rw [collect, filter_cons_of_pos is, ← ih]
      rfl
    case isFalse is => rw [filter_cons_of_neg is, ih]

theorem filter_new (candidates : DocSet) :
    (new verified candidates).filter verified = candidates.filter verified := by
  induction candidates with
  | nil => rfl
  | cons doc left ih =>
    rw [new_cons]
    split
    case isTrue => rfl
    case isFalse is => rw [filter_cons_of_neg is, ih]

theorem doc_new (candidates : DocSet) :
    (new verified candidates).doc = DocSet.doc (candidates.filter verified) := by
  rw [DocSet.doc, DocSet.doc, headD_eq_head?_getD, headD_eq_head?_getD, head?_filter,
    find?_eq_head?_dropWhile_not]
  rfl

theorem sorted_new (sorted : candidates.Pairwise (· < ·)) :
    (new verified candidates).Pairwise (· < ·) :=
  sorted.sublist (dropWhile_sublist _)

theorem sorted_call (sorted : candidates.Pairwise (· < ·)) (call : DocSetCall) :
    (candidates.call call).Pairwise (· < ·) := by
  cases call with
  | advance => exact sorted.tail
  | seek => exact sorted.sublist (dropWhile_sublist _)

theorem seek_eq_filter (sorted : candidates.Pairwise (· < ·)) (target : Nat) :
    candidates.call (.seek target) = candidates.filter (target ≤ ·) := by
  induction candidates with
  | nil => rfl
  | cons doc left ih =>
    obtain ⟨first, sorted⟩ := pairwise_cons.mp sorted
    rw [DocSet.call] at ih ⊢
    by_cases below : doc < target
    · simp [below, ih sorted]
    · have all : ∀ other ∈ left, target ≤ other := fun other mem =>
        (Nat.not_lt.mp below).trans (first other mem).le
      rw [dropWhile_cons_of_neg (by simpa using below), filter_eq_self.mpr]
      simpa [Nat.not_lt.mp below] using all

/-- **Step.** A call leaves of the verified candidates what it leaves of a set of them. -/
theorem filter_call (sorted : candidates.Pairwise (· < ·)) (call : DocSetCall) :
    ((new verified candidates).call call).filter verified =
      DocSet.call (candidates.filter verified) call := by
  cases call with
  | advance =>
    induction candidates with
    | nil => rfl
    | cons doc left ih =>
      rw [new_cons]
      split
      case isTrue is => rw [filter_cons_of_pos is]; rfl
      case isFalse is => rw [filter_cons_of_neg is, ih (pairwise_cons.mp sorted).2]
  | seek target =>
    rw [seek_eq_filter (sorted_new verified sorted), seek_eq_filter (sorted.sublist filter_sublist),
      filter_comm, filter_new]

/-- **Run.** -/
theorem answers_new (sorted : candidates.Pairwise (· < ·)) (calls : List DocSetCall) :
    answers (step verified) (new verified candidates) calls =
      answers DocSet.step (candidates.filter verified) calls := by
  induction calls generalizing candidates with
  | nil => rfl
  | cons call calls ih =>
    have stands := doc_new verified ((new verified candidates).call call)
    have goes := ih (sorted_call (sorted_new verified sorted) call)
    rw [filter_call verified sorted] at stands goes
    exact congrArg₂ cons stands goes

end VerifiedDocSet

/-! ## Matches -/

def allNgrams (text : Text) : List Text :=
  text.tails.flatMap fun tail => tail.inits.filter fun gram =>
    minNgram ≤ gram.length ∧ gram.length ≤ maxNgram

/-- The documents of a segment that have all the terms. -/
def having (segment : List Document) (terms : List Text) : DocSet :=
  (range segment.length).filter fun doc =>
    segment[doc]?.any fun document => terms ⊆ allNgrams document.search

def Query.docs (segment : List Document) : Query → DocSet
  | .all => range segment.length
  | .term gram => having segment [gram]
  | .intersection terms => having segment terms
  | .verified candidates verifier =>
    let verified := VerifiedDocSet.verified (segment[·]?.map (·.verify)) verifier
    VerifiedDocSet.collect verified (VerifiedDocSet.new verified (candidates.docs segment))

theorem mem_allNgrams {gram text : Text} : gram ∈ allNgrams text ↔
    gram <:+: text ∧ minNgram ≤ gram.length ∧ gram.length ≤ maxNgram := by
  simp only [allNgrams, mem_flatMap, mem_tails, mem_filter, mem_inits, decide_eq_true_eq,
    infix_iff_prefix_suffix]
  grind

theorem mem_having {resources : List Text} {terms : List Text} {doc : Nat} :
    doc ∈ having (resources.map (document lower)) terms ↔ ∃ resource,
      resources[doc]? = some resource ∧ terms ⊆ allNgrams (document lower resource).search := by
  have bound : ∀ resource, resources[doc]? = some resource → doc < resources.length :=
    fun _ found => (List.getElem?_eq_some_iff.mp found).1
  simp [having]
  grind

theorem windows_infix {chars gram : Text} {width : Nat} (mem : gram ∈ windows width chars) :
    gram <:+: chars ∧ gram.length = width := by
  simp only [windows, mem_filter, mem_map, mem_tails, decide_eq_true_eq] at mem
  obtain ⟨⟨tail, is, rfl⟩, width⟩ := mem
  exact ⟨( take_prefix _ _).isInfix.trans is.isInfix, width⟩

theorem length_foldLowercase (value : Text) :
    value.length ≤ (foldLowercase lower value).length := by
  induction value with
  | nil => exact le_rfl
  | cons c value ih =>
    have := length_pos_of_ne_nil (lower c).2
    simp only [foldLowercase, flatMap_cons, length_append, length_cons] at ih ⊢
    omega

theorem plain_search_matches (resources : List Text) (query : Text) (patternAuthority : Bool)
    (long : minNgram ≤ query.length) (plain : ¬ ['r', 'e', ':'] <+: query) :
    (∃ plan, textQuery lower compile query patternAuthority = .ok plan ∧ ∀ doc,
      doc ∈ plan.docs (resources.map (document lower)) ↔
      ∃ resource, resources[doc]? = some resource ∧
        foldLowercase lower query <:+:
          truncateToChars (foldLowercase lower resource) indexedTextBytes) ∧
    ∀ column verifier (candidates : DocSet), candidates.Pairwise (· < ·) →
      let verified := VerifiedDocSet.verified column verifier
      let set := VerifiedDocSet.new verified candidates
      (candidates.filter verified).Pairwise (· < ·) ∧
      VerifiedDocSet.collect verified set = candidates.filter verified ∧
      set.doc = DocSet.doc (candidates.filter verified) ∧
      ∀ calls, answers (VerifiedDocSet.step verified) set calls =
        answers DocSet.step (candidates.filter verified) calls := by
  refine ⟨?_, ?_⟩
  · have folded := long.trans (length_foldLowercase lower query)
    have other : ['r', 'e', ':'].isPrefixOf? query = none := by
      rw [Option.eq_none_iff_forall_ne_some]
      intro rest is
      exact plain ⟨rest, isPrefixOf?_eq_some_iff_append_eq.mp is⟩
    have some : query ≠ [] := by
      rintro rfl
      cases long
    rw [textQuery, if_neg some, other]
    dsimp only
    rw [if_neg (Nat.not_lt.mpr folded)]
    split
    case isTrue short =>
      refine ⟨_, rfl, fun doc => (mem_having lower).trans ?_⟩
      have within := getElem?_eq_none_iff.mp short
      simp [mem_allNgrams, folded, within, document]
    case isFalse =>
      refine ⟨_, rfl, fun doc => ?_⟩
      rw [Query.docs, VerifiedDocSet.collect_new, mem_filter, Query.docs, mem_having]
      constructor
      · rintro ⟨⟨resource, found, -⟩, is⟩
        refine ⟨resource, found, ?_⟩
        simpa [VerifiedDocSet.verified, found, Verifier.matchesText, document] using is
      · rintro ⟨resource, found, is⟩
        refine ⟨⟨resource, found, fun gram mem => mem_allNgrams.mpr ?_⟩, ?_⟩
        · obtain ⟨inside, width⟩ := windows_infix (mem_dedup.mp mem)
          exact ⟨inside.trans is, width ▸ by decide, width.le⟩
        · simpa [VerifiedDocSet.verified, found, Verifier.matchesText, document] using is
  · intro column verifier candidates sorted
    exact ⟨sorted.sublist filter_sublist, VerifiedDocSet.collect_new .., VerifiedDocSet.doc_new ..,
      VerifiedDocSet.answers_new _ sorted⟩

/-- A query of thirteen characters goes through the windows and the verifier, which
turns away the document that has all the windows and not the query. -/
theorem plain_search_matches_windows :
    ∃ plan, textQuery (fun c => ⟨[c], cons_ne_nil c []⟩) (fun _ => .error [])
        ('a' :: replicate 12 'b') false = .ok plan ∧
      0 ∈ plan.docs (['a' :: replicate 13 'b', replicate 12 'b' ++ 'a' :: replicate 11 'b'].map
        (document fun c => ⟨[c], cons_ne_nil c []⟩)) ∧
      1 ∉ plan.docs (['a' :: replicate 13 'b', replicate 12 'b' ++ 'a' :: replicate 11 'b'].map
        (document fun c => ⟨[c], cons_ne_nil c []⟩)) := by
  obtain ⟨⟨plan, is, docs⟩, -⟩ := plain_search_matches (fun c => ⟨[c], cons_ne_nil c []⟩)
    (fun _ => .error []) ['a' :: replicate 13 'b', replicate 12 'b' ++ 'a' :: replicate 11 'b']
    ('a' :: replicate 12 'b') false (by decide) (by decide)
  refine ⟨plan, is, (docs 0).mpr ⟨_, rfl, by decide⟩, fun mem => ?_⟩
  obtain ⟨_, ⟨⟩, found⟩ := (docs 1).mp mem
  exact absurd found (by decide)

end Peryx.Search
