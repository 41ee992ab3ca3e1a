import Peryx.Lib.Stars

/-!
# Characters in bytes

UTF-8 is read from the first byte of a character on: that byte is none of those
that continue a character, and it says how many of them follow.
-/

namespace Peryx.Utf8

open Stars List

def encode (text : List Char) : List UInt8 :=
  text.flatMap String.utf8EncodeChar

@[simp] theorem encode_cons (c : Char) (text : List Char) :
    encode (c :: text) = String.utf8EncodeChar c ++ encode text := rfl

@[simp] theorem encode_append (text text' : List Char) :
    encode (text ++ text') = encode text ++ encode text' :=
  flatMap_append

/-- The text from a byte on, if a character begins there. -/
def sliceFrom : List Char → Nat → Option (List Char)
  | text, 0 => some text
  | [], _ + 1 => none
  | c :: text, n + 1 =>
    if (String.utf8EncodeChar c).length ≤ n + 1 then
      sliceFrom text (n + 1 - (String.utf8EncodeChar c).length)
    else none

theorem sliceFrom_append (front back : List Char) :
    sliceFrom (front ++ back) (encode front).length = some back := by
  induction front with
  | nil => cases back <;> rfl
  | cons c front ih =>
    obtain ⟨n, length⟩ : ∃ n, (String.utf8EncodeChar c).length = n + 1 :=
      Nat.exists_eq_succ_of_ne_zero fun none =>
        String.utf8EncodeChar_ne_nil (length_eq_zero_iff.mp none)
    have total : (encode (c :: front)).length = (encode front).length + n + 1 := by
      rw [encode_cons, length_append, length]
      omega
    rw [total, cons_append, sliceFrom, length, if_pos (by omega)]
    have left : (encode front).length + n + 1 - (n + 1) = (encode front).length := by omega
    rw [left]
    exact ih

/-! ## Bytes of a character -/

def Continues (b : UInt8) : Prop :=
  128 ≤ b.toNat ∧ b.toNat < 192

def width (b : UInt8) : Nat :=
  if b.toNat < 128 then 1 else if b.toNat < 224 then 2 else if b.toNat < 240 then 3 else 4

theorem toNat_ofNat {n : Nat} (lt : n < 256) : (UInt8.ofNat n).toNat = n :=
  Nat.mod_eq_of_lt lt

theorem continues_ofNat (n : Nat) : Continues (UInt8.ofNat (n % 64 + 128)) := by
  unfold Continues
  rw [toNat_ofNat (by omega)]
  omega

theorem not_continues_ofNat {n : Nat} (lt : n < 256) (lead : n < 128 ∨ 192 ≤ n) :
    ¬ Continues (UInt8.ofNat n) := by
  unfold Continues
  rw [toNat_ofNat lt]
  omega

theorem width_ofNat {n : Nat} (lt : n < 256) : width (UInt8.ofNat n) =
    if n < 128 then 1 else if n < 224 then 2 else if n < 240 then 3 else 4 := by
  rw [width, toNat_ofNat lt]

theorem code_lt (c : Char) : c.val.toNat < 1114112 := by
  obtain low | ⟨-, high⟩ := c.valid
  · exact lt_trans low (by decide)
  · exact high

theorem encodeChar_shape (c : Char) :
    ∃ head tail, String.utf8EncodeChar c = head :: tail ∧ ¬ Continues head ∧
      (∀ b ∈ tail, Continues b) ∧ tail.length + 1 = width head := by
  have bound := code_lt c
  unfold String.utf8EncodeChar
  generalize c.val.toNat = v at bound
  dsimp only
  split
  · refine ⟨_, _, rfl, not_continues_ofNat (by omega) (by omega), nofun, ?_⟩
    rw [width_ofNat (by omega), if_pos (by omega)]
    rfl
  split
  · refine ⟨_, _, rfl, not_continues_ofNat (by omega) (by omega),
      forall_mem_singleton.mpr (continues_ofNat v), ?_⟩
    rw [width_ofNat (by omega), if_neg (by omega), if_pos (by omega)]
    rfl
  split
  · refine ⟨_, _, rfl, not_continues_ofNat (by omega) (by omega), by simp only [mem_cons,
      not_mem_nil, or_false, forall_eq_or_imp, forall_eq, continues_ofNat, and_self], ?_⟩
    rw [width_ofNat (by omega), if_neg (by omega), if_neg (by omega), if_pos (by omega)]
    rfl
  · refine ⟨_, _, rfl, not_continues_ofNat (by omega) (by omega), by simp only [mem_cons,
      not_mem_nil, or_false, forall_eq_or_imp, forall_eq, continues_ofNat, and_self], ?_⟩
    rw [width_ofNat (by omega), if_neg (by omega), if_neg (by omega), if_neg (by omega)]
    rfl

theorem encodeChar_injective {c d : Char}
    (same : String.utf8EncodeChar c = String.utf8EncodeChar d) : c = d := by
  have bytes : [c].utf8Encode = [d].utf8Encode := by
    unfold List.utf8Encode
    simp [same]
  have decoded := congrArg ByteArray.utf8Decode? bytes
  simpa using decoded

theorem encode_eq_nil {text : List Char} (nothing : encode text = []) : text = [] := by
  cases text with
  | nil => rfl
  | cons c text =>
    obtain ⟨head, tail, bytes, -⟩ := encodeChar_shape c
    rw [encode_cons, bytes] at nothing
    cases nothing

def decode (bytes : List UInt8) : Option (List Char) :=
  bytes.toByteArray.utf8Decode?.map Array.toList

theorem decode_eq_some {bytes : List UInt8} {text : List Char} :
    decode bytes = some text ↔ encode text = bytes := by
  constructor
  · intro decoded
    obtain ⟨chars, found, rfl⟩ := Option.map_eq_some_iff.mp decoded
    obtain ⟨text, same⟩ := ByteArray.isSome_utf8Decode?_iff.mp (Option.isSome_of_eq_some found)
    rw [same, utf8Decode?_utf8Encode, Option.some.injEq] at found
    subst found
    simpa [encode, List.utf8Encode] using (congrArg (·.data.toList) same).symm
  · rintro rfl
    have same : (encode text).toByteArray = text.utf8Encode := rfl
    simp [decode, same]

/-! ## Patterns -/

section Patterns

variable {star : Char} {byte : UInt8} {pattern word rest : List Char} {w r : List UInt8}

theorem ne_of_mem_encodeChar (ascii : String.utf8EncodeChar star = [byte]) {c : Char}
    (other : c ≠ star) {b : UInt8} (mem : b ∈ String.utf8EncodeChar c) : b ≠ byte := by
  obtain ⟨head, tail, bytes, begins, continues, size⟩ := encodeChar_shape star
  obtain ⟨rfl, rfl⟩ := List.cons.inj (bytes.symm.trans ascii)
  obtain ⟨head', tail', bytes', begins', continues', size'⟩ := encodeChar_shape c
  rw [bytes'] at mem
  rintro rfl
  obtain rfl | mem := mem_cons.mp mem
  · have none : tail' = [] := length_eq_zero_iff.mp (by simp at size; omega)
    rw [none] at bytes'
    exact other (encodeChar_injective (bytes'.trans ascii.symm))
  · exact begins (continues' _ mem)

variable {bytes p : List UInt8}

theorem takes (bytes : List UInt8) (after : Consumes byte (byte :: p) w r) :
    Consumes byte (byte :: p) (bytes ++ w) r := by
  induction bytes with
  | nil => exact after
  | cons b bytes ih => exact .take b ih

theorem literals (plain : ∀ b ∈ bytes, b ≠ byte)
    (after : Consumes byte p w r) : Consumes byte (bytes ++ p) (bytes ++ w) r := by
  induction bytes with
  | nil => exact after
  | cons b bytes ih =>
    exact .literal (plain b mem_cons_self) (ih fun b mem => plain b (mem_cons_of_mem _ mem))

theorem of_literals {bytes' : List UInt8} (size : bytes.length = bytes'.length)
    (plain : ∀ b ∈ bytes, b ≠ byte) (consumes : Consumes byte (bytes ++ p) (bytes' ++ w) r) :
    bytes = bytes' ∧ Consumes byte p w r := by
  induction bytes generalizing bytes' with
  | nil =>
    obtain rfl := length_eq_zero_iff.mp size.symm
    exact ⟨rfl, consumes⟩
  | cons b bytes ih =>
    cases bytes' with
    | nil => cases size
    | cons b' bytes' =>
      have other := plain b mem_cons_self
      generalize whole : b :: bytes ++ p = p' at consumes
      generalize text : b' :: bytes' ++ w = w' at consumes
      cases consumes with
      | done => cases text
      | skip =>
        obtain ⟨rfl, -⟩ := List.cons.inj whole
        exact absurd rfl other
      | take =>
        obtain ⟨rfl, -⟩ := List.cons.inj whole
        exact absurd rfl other
      | literal _ after =>
        obtain ⟨rfl, rfl⟩ := List.cons.inj whole
        obtain ⟨rfl, rfl⟩ := List.cons.inj text
        obtain ⟨rfl, later⟩ := ih (Nat.succ.inj size)
          (fun b mem => plain b (mem_cons_of_mem _ mem)) after
        exact ⟨rfl, later⟩

section

variable (ascii : String.utf8EncodeChar star = [byte])

include ascii

theorem drop_continues {b : UInt8}
    (continues : Continues b) (consumes : Consumes byte (encode pattern) (b :: w) r) :
    Consumes byte (encode pattern) w r := by
  induction pattern with
  | nil => cases consumes
  | cons c pattern ih =>
    by_cases isStar : c = star
    · subst isStar
      rw [encode_cons, ascii] at consumes ⊢
      cases consumes with
      | skip after => exact .skip (ih after)
      | take _ after => exact after
      | literal plain _ => exact absurd rfl plain
    · obtain ⟨head, tail, bytes, begins, -⟩ := encodeChar_shape c
      have plain : head ≠ byte := ne_of_mem_encodeChar ascii isStar (bytes ▸ mem_cons_self)
      rw [encode_cons, bytes] at consumes
      cases consumes with
      | skip => exact absurd rfl plain
      | take => exact absurd rfl plain
      | literal => exact absurd continues begins

theorem drop_all_continues (continues : ∀ b ∈ bytes, Continues b)
    (consumes : Consumes byte (encode pattern) (bytes ++ w) r) :
    Consumes byte (encode pattern) w r := by
  induction bytes with
  | nil => exact consumes
  | cons b bytes ih =>
    exact ih (fun b mem => continues b (mem_cons_of_mem _ mem))
      (drop_continues ascii (continues b mem_cons_self) consumes)

theorem consumes_encode (consumes : Consumes star pattern word rest) :
    Consumes byte (encode pattern) (encode word) (encode rest) := by
  induction consumes with
  | done => exact .done _
  | skip _ ih =>
    rw [encode_cons, ascii]
    exact .skip ih
  | take x _ ih =>
    rw [encode_cons, ascii] at ih ⊢
    exact takes _ ih
  | literal plain _ ih =>
    exact literals (fun b mem => ne_of_mem_encodeChar ascii plain mem) ih

theorem exists_of_consumes_encode (consumes : Consumes byte (encode pattern) (encode word) r) :
    ∃ rest, r = encode rest ∧ Consumes star pattern word rest := by
  induction pattern generalizing word with
  | nil =>
    generalize text : encode word = w at consumes
    cases consumes with
    | done =>
      obtain rfl := encode_eq_nil text
      exact ⟨[], rfl, .done _⟩
  | cons c pattern ih =>
    by_cases isStar : c = star
    · subst isStar
      induction word with
      | nil =>
        rw [encode_cons, ascii] at consumes
        cases consumes with
        | done => exact ⟨c :: pattern, by rw [encode_cons, ascii], .done _⟩
        | skip after =>
          obtain ⟨rest, rfl, later⟩ := ih after
          exact ⟨rest, rfl, .skip later⟩
      | cons d word ihw =>
        obtain ⟨head, tail, bytes, -, continues, -⟩ := encodeChar_shape d
        have text : encode (d :: word) = head :: (tail ++ encode word) := by
          rw [encode_cons, bytes, cons_append]
        rw [encode_cons, ascii, text] at consumes
        cases consumes with
        | skip after =>
          rw [← text] at after
          obtain ⟨rest, rfl, later⟩ := ih after
          exact ⟨rest, rfl, .skip later⟩
        | take _ after =>
          have short : Consumes byte (encode (c :: pattern)) (encode word) r := by
            refine drop_all_continues ascii continues ?_
            rw [encode_cons, ascii]
            exact after
          obtain ⟨rest, rfl, later⟩ := ihw short
          exact ⟨rest, rfl, .take d later⟩
        | literal plain _ => exact absurd rfl plain
    · have plain : ∀ b ∈ String.utf8EncodeChar c, b ≠ byte :=
        fun b mem => ne_of_mem_encodeChar ascii isStar mem
      cases word with
      | nil =>
        obtain ⟨head, tail, bytes, -⟩ := encodeChar_shape c
        have whole : encode (c :: pattern) = head :: (tail ++ encode pattern) := by
          rw [encode_cons, bytes, cons_append]
        rw [whole] at consumes
        cases consumes with
        | done => exact ⟨c :: pattern, whole.symm, .done _⟩
        | skip => exact absurd rfl (plain byte (bytes ▸ mem_cons_self))
      | cons d word =>
        -- both characters begin with the same byte, so they are as long
        have size : (String.utf8EncodeChar c).length = (String.utf8EncodeChar d).length := by
          obtain ⟨head, tail, bytes, -, -, size⟩ := encodeChar_shape c
          obtain ⟨head', tail', bytes', -, -, size'⟩ := encodeChar_shape d
          have other := plain head (bytes ▸ mem_cons_self)
          rw [encode_cons, encode_cons, bytes, bytes'] at consumes
          rw [bytes, bytes', length_cons, length_cons, size, size']
          cases consumes with
          | skip => exact absurd rfl other
          | take => exact absurd rfl other
          | literal => rfl
        obtain ⟨same, after⟩ := of_literals size plain consumes
        obtain rfl := encodeChar_injective same
        obtain ⟨rest, rfl, later⟩ := ih after
        exact ⟨rest, rfl, .literal isStar later⟩

/-- **Bytes and characters agree** on what a pattern consumes, and what remains
begins with a character. -/
theorem consumes_encode_iff :
    Consumes byte (encode pattern) (encode word) r ↔
      ∃ rest, r = encode rest ∧ Consumes star pattern word rest :=
  ⟨exists_of_consumes_encode ascii, fun ⟨_, is, consumes⟩ => is ▸ consumes_encode ascii consumes⟩

end

end Patterns

end Peryx.Utf8
