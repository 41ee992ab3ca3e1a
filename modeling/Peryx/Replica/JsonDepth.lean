import Mathlib

/-!
# The depth guard before a decode

`exceeds_depth` of `envelope.rs`, a scan over bytes, against the nesting of the
JSON value the bytes are a text of.

- `scans_text`: the scan of a text, value by value.
- `depth_guard_is_exact`: it refuses just what nests too deep.
-/

namespace Peryx.JsonDepth

abbrev quote : UInt8 := 0x22

abbrev backslash : UInt8 := 0x5c

/-- A brace or bracket that opens. -/
abbrev opens (byte : UInt8) : Prop := byte = 0x7b ∨ byte = 0x5b

abbrev closes (byte : UInt8) : Prop := byte = 0x7d ∨ byte = 0x5d

/-- The loop from `depth`, inside a string or not, after a backslash or not. -/
def scan (limit : Nat) : Nat → Bool → Bool → List UInt8 → Bool
  | _, _, _, [] => false
  | depth, true, true, _ :: bytes => scan limit depth true false bytes
  | depth, true, false, byte :: bytes =>
    if byte = backslash then scan limit depth true true bytes
    else if byte = quote then scan limit depth false false bytes
    else scan limit depth true false bytes
  | depth, false, escaped, byte :: bytes =>
    if byte = quote then scan limit depth true escaped bytes
    else if opens byte then
      if depth + 1 > limit then true else scan limit (depth + 1) false escaped bytes
    else if closes byte then scan limit (depth - 1) false escaped bytes
    else scan limit depth false escaped bytes

def exceedsDepth (bytes : List UInt8) (limit : Nat) : Bool :=
  scan limit 0 false false bytes

/-! ## Values and their texts -/

inductive Json where
  /-- `null`, `true`, `false` and the numbers. -/
  | scalar (text : List UInt8)
  | string (body : List UInt8)
  | array (items : List Json)
  | object (keys : List (List UInt8)) (values : List Json)

mutual

def Json.depth : Json → Nat
  | .scalar _ | .string _ => 0
  | .array items => depths items + 1
  | .object _ values => depths values + 1

def depths : List Json → Nat
  | [] => 0
  | value :: values => max value.depth (depths values)

end

/-- A string's characters, a backslash always with what it escapes. -/
inductive Body : List UInt8 → Prop
  | nil : Body []
  | plain (other : byte ≠ quote) (raw : byte ≠ backslash) (body : Body rest) :
      Body (byte :: rest)
  | escape (byte : UInt8) (body : Body rest) : Body (backslash :: byte :: rest)

inductive Part where
  | value (value : Json)
  | items (values : List Json)
  | members (keys : List (List UInt8)) (values : List Json)

def Part.depth : Part → Nat
  | .value whole => whole.depth
  | .items all | .members _ all => depths all

abbrev space (byte : UInt8) : Prop := byte = 32 ∨ byte = 9 ∨ byte = 10 ∨ byte = 13

def scalarBytes : List UInt8 := "-+.0123456789Eaeflnrstu".toUTF8.toList

/-- The texts of a value, and of what is between the brackets of one. Scalars
are any words over the bytes that the literal names and the numbers have. -/
inductive Text : Part → List UInt8 → Prop
  | scalar (bytes : ∀ byte ∈ text, byte ∈ scalarBytes) : Text (.value (.scalar text)) text
  | string (well : Body body) : Text (.value (.string body)) (quote :: (body ++ [quote]))
  | array (items : Text (.items values) text) :
      Text (.value (.array values)) (0x5b :: (text ++ [0x5d]))
  | object (members : Text (.members keys values) text) :
      Text (.value (.object keys values)) (0x7b :: (text ++ [0x7d]))
  | before (blank : space byte) (rest : Text part text) : Text part (byte :: text)
  | after (blank : space byte) (front : Text part text) : Text part (text ++ [byte])
  | noItems : Text (.items []) []
  | item (only : Text (.value value) text) : Text (.items [value]) text
  | items (first : Text (.value value) text) (more : Text (.items values) rest)
      (some : values ≠ []) : Text (.items (value :: values)) (text ++ 0x2c :: rest)
  | noMembers : Text (.members [] []) []
  | member (named : Text (.value (.string key)) name) (only : Text (.value value) text) :
      Text (.members [key] [value]) (name ++ 0x3a :: text)
  | members (named : Text (.value (.string key)) name) (first : Text (.value value) text)
      (more : Text (.members keys values) rest) (some : values ≠ []) :
      Text (.members (key :: keys) (value :: values)) (name ++ 0x3a :: (text ++ 0x2c :: rest))

/-! ## The scan of a text -/

variable {limit depth : Nat} {byte : UInt8} {text rest : List UInt8}

/-- A byte the scan passes over outside of strings. -/
abbrev Plain (byte : UInt8) : Prop :=
  byte ≠ quote ∧ ¬ opens byte ∧ ¬ closes byte

theorem scan_plain (plain : Plain byte) :
    scan limit depth false false (byte :: rest) = scan limit depth false false rest := by
  obtain ⟨quote, opens, closes⟩ := plain
  rw [scan, if_neg quote, if_neg opens, if_neg closes]

theorem plain_of_space (blank : space byte) : Plain byte := by
  obtain rfl | rfl | rfl | rfl := blank <;> decide

theorem scan_scalar (bytes : ∀ byte ∈ text, byte ∈ scalarBytes) :
    scan limit depth false false (text ++ rest) = scan limit depth false false rest := by
  induction text with
  | nil => rfl
  | cons byte text ih =>
    have all : ∀ byte ∈ scalarBytes, Plain byte := by decide +kernel
    rw [List.cons_append, scan_plain (all byte (bytes byte List.mem_cons_self))]
    exact ih fun other mem => bytes other (List.mem_cons_of_mem _ mem)

theorem scan_body {body : List UInt8} (well : Body body) :
    scan limit depth true false (body ++ quote :: rest) = scan limit depth false false rest := by
  induction well with
  | nil => rfl
  | plain quote backslash _ ih => simpa [scan, quote, backslash] using ih
  | escape byte _ ih => simpa [scan] using ih

/-- From `depth` on, a text trips the guard when it nests too deep, and is passed
over otherwise. -/
def Scans (limit : Nat) (text : List UInt8) (inner : Nat) : Prop :=
  ∀ depth ≤ limit, ∀ rest, scan limit depth false false (text ++ rest) = true ↔
    limit < depth + inner ∨ scan limit depth false false rest = true

/-- Brackets go one deeper for what is between them. -/
theorem Scans.brackets {first last : UInt8} (opened : opens first) (closed : closes last)
    {inner : Nat} (between : Scans limit text inner) :
    Scans limit (first :: (text ++ [last])) (inner + 1) := by
  intro depth le rest
  have other : first ≠ quote := by obtain rfl | rfl := opened <;> decide
  have shut : last ≠ quote ∧ ¬ opens last := by obtain rfl | rfl := closed <;> decide
  rw [List.cons_append, List.append_assoc, scan, if_neg other, if_pos opened]
  by_cases deep : depth + 1 > limit
  · rw [if_pos deep]
    exact ⟨fun _ => .inl (by omega), fun _ => rfl⟩
  · rw [if_neg deep, between _ (by omega), List.singleton_append, scan, if_neg shut.1,
      if_neg shut.2, if_pos closed, Nat.add_sub_cancel]
    exact or_congr_left (by omega)

/-- Two texts with a separator between them. -/
theorem Scans.join (plain : Plain byte) {m n : Nat} {text' : List UInt8}
    (first : Scans limit text m) (second : Scans limit text' n) :
    Scans limit (text ++ byte :: text') (max m n) := by
  intro depth le rest
  rw [List.append_assoc, List.cons_append, first _ le, scan_plain plain, second _ le, ← or_assoc]
  exact or_congr_left (by omega)

theorem scans_text {part : Part} (written : Text part text) :
    Scans limit text part.depth := by
  have nothing : ∀ {depth : Nat} {p : Prop}, depth ≤ limit → (limit < depth + 0 ∨ p ↔ p) :=
    fun le => or_iff_right (Nat.not_lt.mpr le)
  have comma : Plain 0x2c := by decide
  have colon : Plain 0x3a := by decide
  induction written with
  | scalar bytes =>
    intro depth le rest
    rw [scan_scalar bytes]
    exact (nothing le).symm
  | string well =>
    intro depth le rest
    rw [List.cons_append, List.append_assoc, List.singleton_append, scan, if_pos rfl,
      scan_body well]
    exact (nothing le).symm
  | array _ ih => exact ih.brackets (.inr rfl) (.inr rfl)
  | object _ ih => exact ih.brackets (.inl rfl) (.inl rfl)
  | before blank _ ih =>
    intro depth le rest
    rw [List.cons_append, scan_plain (plain_of_space blank), ih _ le]
  | after blank _ ih =>
    intro depth le rest
    rw [List.append_assoc, ih _ le, List.singleton_append, scan_plain (plain_of_space blank)]
  | noItems => exact fun _ le _ => (nothing le).symm
  | item _ ih => simpa [Scans, Part.depth, depths] using ih
  | items _ _ _ first more => exact first.join comma more
  | noMembers => exact fun _ le _ => (nothing le).symm
  | member _ _ named only =>
    have joined := named.join colon only
    simpa [Scans, Part.depth, depths, Json.depth] using joined
  | members _ _ _ _ named first more =>
    have joined := named.join colon (first.join comma more)
    simpa [Scans, Part.depth, depths, Json.depth] using joined

/-- For every text of every value and every bound, the guard trips exactly when
the arrays and objects of the value nest deeper than the bound. -/
theorem depth_guard_is_exact {value : Json} {text : List UInt8}
    (written : Text (.value value) text) (limit : Nat) :
    exceedsDepth text limit = true ↔ limit < value.depth := by
  have scanned := scans_text written 0 (Nat.zero_le limit) []
  rw [List.append_nil, Nat.zero_add] at scanned
  exact scanned.trans (or_iff_left Bool.false_ne_true)

/-- An object in an array, with a bracket in its key. -/
theorem depth_guard_is_exact_nested :
    exceedsDepth (0x5b :: ((0x7b :: ((quote :: ([0x5d] ++ [quote]) ++ 0x3a :: [0x31]) ++ [0x7d])) ++
      [0x5d])) 1 = true := by
  have digit : ∀ byte ∈ [0x31], byte ∈ scalarBytes := by decide +kernel
  refine (depth_guard_is_exact (.array (.item (.object (.member
    (.string (.plain (by decide) (by decide) .nil)) (.scalar digit))))) 1).mpr ?_
  decide +kernel

end Peryx.JsonDepth
