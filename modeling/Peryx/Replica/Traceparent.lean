import Peryx.Lib.Digits

/-!
# Trace contexts

`parse_traceparent` and `derive_child` of `envelope.rs`. Text is its characters:
a field that passes for hexadecimal has as many bytes.

- `derive_child_is_closed_iff`: when a derived context parses again.
-/

namespace Peryx

open List

/-- `str::splitn`. -/
def splitn (separator : Char) : Nat → List Char → List (List Char)
  | 0, _ => []
  | 1, text => [text]
  | n + 2, text =>
    match splitOnce separator text with
    | some (before, after) => before :: splitn separator (n + 1) after
    | none => [text]

structure TraceparentParts where
  version : List Char
  traceId : List Char
  flags : List Char
deriving DecidableEq

/-- `HEXDIGLC` leaves out the uppercase digits. -/
def isHexLower (field : List Char) : Bool :=
  field.all fun c => ('0' ≤ c ∧ c ≤ '9') ∨ ('a' ≤ c ∧ c ≤ 'f')

def parseTraceparent (value : List Char) : Option TraceparentParts :=
  match splitn '-' 5 value with
  | version :: traceId :: parentId :: flags :: extension =>
    if (version.length = 2 ∧ version.map Char.toLower ≠ ['f', 'f'] ∧ traceId.length = 32 ∧
        parentId.length = 16 ∧ flags.length = 2 ∧ isHexLower version ∧ isHexLower traceId ∧
        isHexLower parentId ∧ isHexLower flags ∧ traceId.any (· ≠ '0') ∧ parentId.any (· ≠ '0')) ∧
        -- version `00` has no extension, and no extension is empty
        extension.head?.all fun extension => version ≠ ['0', '0'] ∧ extension ≠ [] then
      some ⟨version, traceId, flags⟩
    else none
  | _ => none

def validSpanId (spanId : List Char) : Bool :=
  spanId.length = 16 ∧
    (spanId.all fun c => c.isDigit ∨ ('a' ≤ c ∧ c ≤ 'f') ∨ ('A' ≤ c ∧ c ≤ 'F')) ∧
    spanId.any (· ≠ '0')

inductive TraceError where
  | malformedParent (parent : List Char)
  | invalidSpanId (spanId : List Char)
deriving DecidableEq

def deriveChild (parent spanId : List Char) : Except TraceError (List Char) :=
  match parseTraceparent parent with
  | none => .error (.malformedParent parent)
  | some parts =>
    if ¬ validSpanId spanId then .error (.invalidSpanId spanId)
    else .ok (parts.version ++ '-' :: (parts.traceId ++ '-' :: (spanId ++ '-' :: parts.flags)))

/-! ## The child's fields -/

theorem not_mem_of_isHexLower {field : List Char} (hex : isHexLower field = true) :
    '-' ∉ field :=
  fun mem => absurd (all_eq_true.mp hex '-' mem) (by decide)

/-- What the parser checks of the fields a child keeps. -/
structure TraceparentParts.Valid (parts : TraceparentParts) : Prop where
  version : parts.version.length = 2 ∧ parts.version.map Char.toLower ≠ ['f', 'f'] ∧
    isHexLower parts.version = true
  traceId : parts.traceId.length = 32 ∧ isHexLower parts.traceId = true ∧
    parts.traceId.any (· ≠ '0') = true
  flags : parts.flags.length = 2 ∧ isHexLower parts.flags = true

variable {parts : TraceparentParts} {spanId : List Char}

theorem valid_of_parseTraceparent {value : List Char}
    (h : parseTraceparent value = some parts) : parts.Valid := by
  unfold parseTraceparent at h
  split at h
  · split at h
    · next checks =>
      cases h
      simp only at checks
      constructor <;> tauto
    · cases h
  · cases h

theorem splitn_child (valid : parts.Valid) (accepted : validSpanId spanId = true) :
    splitn '-' 5
      (parts.version ++ '-' :: (parts.traceId ++ '-' :: (spanId ++ '-' :: parts.flags))) =
      [parts.version, parts.traceId, spanId, parts.flags] := by
  have clear : '-' ∉ spanId := by
    simp only [validSpanId, decide_eq_true_eq] at accepted
    exact fun mem => absurd (all_eq_true.mp accepted.2.1 '-' mem) (by decide)
  simp only [splitn, splitOnce_append (not_mem_of_isHexLower valid.version.2.2),
    splitOnce_append (not_mem_of_isHexLower valid.traceId.2.1), splitOnce_append clear,
    splitOnce_eq_none (not_mem_of_isHexLower valid.flags.2)]

theorem parseTraceparent_child (valid : parts.Valid) (accepted : validSpanId spanId = true) :
    parseTraceparent
        (parts.version ++ '-' :: (parts.traceId ++ '-' :: (spanId ++ '-' :: parts.flags))) =
      if isHexLower spanId = true then some parts else none := by
  rw [parseTraceparent, splitn_child valid accepted]
  obtain ⟨⟨version, proper, hex⟩, ⟨traceId, hex', some⟩, flags, hex''⟩ := valid
  simp only [validSpanId, decide_eq_true_eq] at accepted
  by_cases lower : isHexLower spanId = true
  · rw [if_pos lower]
    exact if_pos ⟨⟨version, proper, traceId, accepted.1, flags, hex, hex', lower, hex'', some,
      accepted.2.2⟩, rfl⟩
  · rw [if_neg lower]
    exact if_neg fun checks => lower checks.1.2.2.2.2.2.2.2.1

/-- From an accepted parent, an accepted span id derives a child with it as the
parent id, which is accepted, with the parent's version, trace id and flags,
exactly when the span id is in lowercase; and over any chain of such span ids
every context is accepted and of the same trace. -/
theorem derive_child_is_closed_iff {parent : List Char} {parts : TraceparentParts}
    (accepted : parseTraceparent parent = some parts) :
    (∀ spanId, validSpanId spanId = true → ∃ child, deriveChild parent spanId = .ok child ∧
      (splitn '-' 5 child)[2]? = some spanId ∧
      (parseTraceparent child = some parts ↔ isHexLower spanId = true)) ∧
    ∀ spanIds : List (List Char),
      (∀ spanId ∈ spanIds, validSpanId spanId = true ∧ isHexLower spanId = true) →
      ∃ last, spanIds.foldlM deriveChild parent = .ok last ∧
        parseTraceparent last = some parts := by
  have valid := valid_of_parseTraceparent accepted
  have derives : ∀ {parent spanId}, parseTraceparent parent = some parts →
      validSpanId spanId = true → deriveChild parent spanId =
        .ok (parts.version ++ '-' :: (parts.traceId ++ '-' :: (spanId ++ '-' :: parts.flags))) := by
    intro parent spanId accepted span
    simp [deriveChild, accepted, span]
  constructor
  · intro spanId span
    refine ⟨_, derives accepted span, by rw [splitn_child valid span]; rfl, ?_⟩
    rw [parseTraceparent_child valid span]
    simp
  · intro spanIds spans
    induction spanIds generalizing parent with
    | nil => exact ⟨parent, rfl, accepted⟩
    | cons spanId spanIds ih =>
      obtain ⟨span, lower⟩ := spans spanId mem_cons_self
      rw [foldlM_cons, derives accepted span]
      refine ih ?_ fun other mem => spans other (mem_cons_of_mem _ mem)
      rw [parseTraceparent_child valid span, if_pos lower]

def sampleParent : List Char := "00-0af7651916cd43dd8448eb211c80319c-b7ad6b7169203331-01".toList

theorem derive_child_is_closed_sample :
    ∃ child, deriveChild sampleParent "00f067aa0ba902b7".toList = .ok child ∧
      (parseTraceparent child).isSome = true := by
  have accepted : parseTraceparent sampleParent =
      some ⟨"00".toList, "0af7651916cd43dd8448eb211c80319c".toList, "01".toList⟩ := by
    decide +kernel
  obtain ⟨child, derived, -, closed⟩ := (derive_child_is_closed_iff accepted).1
    "00f067aa0ba902b7".toList (by decide +kernel)
  exact ⟨child, derived, by rw [closed.mpr (by decide +kernel)]; rfl⟩

/-- A span id in uppercase is accepted, and the header derived with it is not. -/
theorem derive_child_breaks_on_uppercase :
    validSpanId "00F067AA0BA902B7".toList = true ∧
      (deriveChild sampleParent "00F067AA0BA902B7".toList).map parseTraceparent = .ok none := by
  decide +kernel

end Peryx
