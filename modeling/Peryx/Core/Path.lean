import Peryx.Identity.RoleGrantStore
import Peryx.Lib.Utf8

/-!
# Request paths

`peryx-core/src/path.rs` and `url_encoding.rs`. Before a path is routed, the
escape of an unreserved octet is replaced by the octet. A percent sign that
begins no escape is kept, and the octets written after it may make it begin one;
nor does the decoder know a sign from a digit.

A byte of a character that is not ASCII is no digit, so escapes are read off the
characters of a text.

- `Settled`, `Unsigned`: what a path must not contain.
- `by_escape`: the four things a scan meets, as an induction.
- `canonical_settled`, `Preserved.settled`: canonicalization keeps what a path means
  where it is settled, and nowhere else.
- `canonicalizePath_preserves`: the equivalence, and that decoding inverts encoding.
-/

namespace Peryx.Path

open List Option

open Identity (hexDigit fromStrRadix)

inductive PathSafetyError where
  | invalidEncoding (input : List Char)
  deriving DecidableEq

/-- `char::from` of an octet. -/
def charFrom (byte : UInt8) : Char := Char.ofNat byte.toNat

def isUnreserved (byte : UInt8) : Bool :=
  (charFrom byte).isAlphanum || charFrom byte ∈ ['-', '.', '_', '~']

def hexByte (high low : Char) : Option UInt8 := fromStrRadix high low

@[grind] def canonicalizePath : List Char → List Char
  | [] => []
  | c :: text =>
    if c = '%' then
      match text with
      | high :: low :: rest =>
        match (hexByte high low).filter isUnreserved with
        | some byte => charFrom byte :: canonicalizePath rest
        | none => '%' :: canonicalizePath (high :: low :: rest)
      | [low] => '%' :: canonicalizePath [low]
      | [] => ['%']
    else c :: canonicalizePath text

/-- The loop of `decode_percent`. -/
@[grind] def decodeBytes : List Char → Option (List UInt8)
  | [] => some []
  | c :: text =>
    if c = '%' then
      match text with
      | high :: low :: rest => do return (← hexByte high low) :: (← decodeBytes rest)
      | _ => none
    else (decodeBytes text).map (String.utf8EncodeChar c ++ ·)

def decodePercent (input : List Char) : Except PathSafetyError (List Char) :=
  if '%' ∉ input then .ok input
  else
    match (decodeBytes input).bind Utf8.decode with
    | some text => .ok text
    | none => .error (.invalidEncoding input)

def decodePath (path : List Char) : Except PathSafetyError (List Char) := decodePercent path

/-- `b"0123456789ABCDEF"`. -/
def hexUpper (digit : Nat) : Char := (Nat.digitChar digit).toUpper

def pushPercent (byte : UInt8) : List Char :=
  ['%', hexUpper (byte.toNat / 16), hexUpper (byte.toNat % 16)]

/-- The loop of `push_component` and `push_path`. -/
def pushEscaped (keep : UInt8 → Bool) (out text : List Char) : List Char :=
  out ++ (Utf8.encode text).flatMap fun byte =>
    if keep byte then [charFrom byte] else pushPercent byte

def pushComponent : List Char → List Char → List Char := pushEscaped isUnreserved

def pushPath : List Char → List Char → List Char :=
  pushEscaped fun byte => byte = 47 || isUnreserved byte

/-! ## What canonicalization is for -/

/-- What a text escapes when a percent sign stands before it. -/
def escapeAt : List Char → Option (Char × Char)
  | high :: low :: _ => if (hexByte high low).isSome then some (high, low) else none
  | _ => none

def escapes : List Char → List (Char × Char)
  | [] => []
  | c :: text => (if c = '%' then (escapeAt text).toList else []) ++ escapes text

/-- The second spelling is the first with the escapes of some unreserved octets
replaced by the octets. Two spellings that differ in such escapes only have one
such spelling in common. -/
inductive Respelled : List Char → List Char → Prop
  | nil : Respelled [] []
  | same (c : Char) {text spelling} : Respelled text spelling →
      Respelled (c :: text) (c :: spelling)
  | octet {high low byte text spelling} : hexByte high low = some byte → isUnreserved byte →
      Respelled text spelling → Respelled ('%' :: high :: low :: text) (charFrom byte :: spelling)

/-- The octets of a text in which two hexadecimal digits follow each percent sign, or
also a plus sign and one digit where signs are read. -/
inductive Denotes (signs : Bool) : List Char → List UInt8 → Prop
  | nil : Denotes signs [] []
  | char {c text bytes} : c ≠ '%' → Denotes signs text bytes →
      Denotes signs (c :: text) (String.utf8EncodeChar c ++ bytes)
  | escape {high low x y text bytes} : hexDigit high = some x → hexDigit low = some y →
      Denotes signs text bytes →
      Denotes signs ('%' :: high :: low :: text) (UInt8.ofNat (16 * x + y) :: bytes)
  | signed {low y text bytes} : signs = true → hexDigit low = some y → Denotes signs text bytes →
      Denotes signs ('%' :: '+' :: low :: text) (UInt8.ofNat y :: bytes)

structure Preserved (path : List Char) : Prop where
  decodes : (decodePath (canonicalizePath path)).toOption = (decodePath path).toOption
  idempotent : canonicalizePath (canonicalizePath path) = canonicalizePath path
  slashes : (canonicalizePath path).count '/' = path.count '/'
  escapes : (escapes (canonicalizePath path)).Sublist (escapes path)
  respelled : ∀ spelling, Respelled path spelling →
    canonicalizePath spelling = canonicalizePath path
  accepts : ∀ text, decodePath path = .ok text ↔ Denotes false path (Utf8.encode text)

/-- A text begins with a character, spelled out or as the escape of an unreserved octet. -/
inductive Spells : Char → List Char → List Char → Prop
  | literal {c rest} : c ≠ '%' → Spells c (c :: rest) rest
  | octet {high low byte rest} : hexByte high low = some byte → isUnreserved byte →
      Spells (charFrom byte) ('%' :: high :: low :: rest) rest

/-- No percent sign that begins no escape is followed by what spells two digits. -/
def Settled (path : List Char) : Prop :=
  ∀ before text, path = before ++ '%' :: text → escapeAt text = none →
    ∀ high low mid rest, Spells high text mid → Spells low mid rest → hexByte high low = none

/-- No percent sign is followed by a sign. -/
def Unsigned : List Char → Prop
  | [] => True
  | c :: text => (c = '%' → text.head? ≠ some '+') ∧ Unsigned text

/-! ## Digits and octets -/

variable {c high low : Char} {byte : UInt8} {path text : List Char}

theorem digits (read : hexByte high low = some byte) :
    high ≠ '%' ∧ high ≠ '/' ∧ low ≠ '%' ∧ low ≠ '/' := by
  refine ⟨?_, ?_, ?_, ?_⟩ <;> rintro rfl <;>
    simp [hexByte, fromStrRadix, show hexDigit '%' = none from rfl,
      show hexDigit '/' = none from rfl] at read

theorem escapeAt_eq_some {pair : Char × Char} :
    escapeAt text = some pair ↔
      ∃ byte rest, hexByte pair.1 pair.2 = some byte ∧ text = pair.1 :: pair.2 :: rest := by
  rcases text with _ | ⟨high, _ | ⟨low, rest⟩⟩ <;>
    simp [escapeAt, isSome_iff_exists, Prod.ext_iff]
  grind

theorem octet_fin : ∀ n : Fin 256, isUnreserved (UInt8.ofNat n) →
    charFrom (UInt8.ofNat n) ≠ '%' ∧ charFrom (UInt8.ofNat n) ≠ '/' ∧
      String.utf8EncodeChar (charFrom (UInt8.ofNat n)) = [UInt8.ofNat n] := by
  decide +kernel

theorem octet (unreserved : isUnreserved byte) :
    charFrom byte ≠ '%' ∧ charFrom byte ≠ '/' ∧
      String.utf8EncodeChar (charFrom byte) = [byte] := by
  simpa using octet_fin ⟨byte.toNat, byte.toNat_lt⟩ (by simpa using unreserved)

theorem hexByte_percent : ∀ n : Fin 256,
    hexByte (hexUpper (n.val / 16)) (hexUpper (n.val % 16)) = some (UInt8.ofNat n) := by
  decide +kernel

/-! ## The four things a scan meets -/

theorem by_escape {motive : List Char → Prop} (nil : motive [])
    (char : ∀ c text, c ≠ '%' → motive text → motive (c :: text))
    (escape : ∀ high low byte text, hexByte high low = some byte → motive text →
      motive ('%' :: high :: low :: text))
    (stray : ∀ text, escapeAt text = none → motive text → motive ('%' :: text)) :
    ∀ path, motive path
  | [] => nil
  | c :: text => by
    by_cases percent : c = '%'
    · subst percent
      rcases text with _ | ⟨high, _ | ⟨low, rest⟩⟩
      · exact stray [] rfl nil
      · exact stray [high] rfl (by_escape nil char escape stray [high])
      · cases read : hexByte high low with
        | none => exact stray _ (by simp [escapeAt, read]) (by_escape nil char escape stray _)
        | some byte => exact escape _ _ byte _ read (by_escape nil char escape stray rest)
    · exact char c text percent (by_escape nil char escape stray text)
termination_by path => path.length

theorem canonical_char (other : c ≠ '%') :
    canonicalizePath (c :: text) = c :: canonicalizePath text := by
  rcases text with _ | ⟨high, _ | ⟨low, rest⟩⟩ <;> simp [canonicalizePath, other]

theorem canonical_digits (read : hexByte high low = some byte) :
    canonicalizePath (high :: low :: text) = high :: low :: canonicalizePath text := by
  rw [canonical_char (digits read).1, canonical_char (digits read).2.2.1]

theorem canonical_octet (read : hexByte high low = some byte) (unreserved : isUnreserved byte) :
    canonicalizePath ('%' :: high :: low :: text) = charFrom byte :: canonicalizePath text := by
  simp [canonicalizePath, read, Option.filter, unreserved]

theorem canonical_reserved (read : hexByte high low = some byte) (reserved : ¬ isUnreserved byte) :
    canonicalizePath ('%' :: high :: low :: text) =
      '%' :: high :: low :: canonicalizePath text := by
  rw [← canonical_digits read]
  simp [canonicalizePath, read, Option.filter, reserved]

theorem canonical_stray (none : escapeAt text = none) :
    canonicalizePath ('%' :: text) = '%' :: canonicalizePath text := by
  rcases text with _ | ⟨high, _ | ⟨low, rest⟩⟩ <;> simp_all [canonicalizePath, escapeAt]

theorem decode_char (other : c ≠ '%') :
    decodeBytes (c :: text) = (decodeBytes text).map (String.utf8EncodeChar c ++ ·) := by
  rcases text with _ | ⟨high, _ | ⟨low, rest⟩⟩ <;> simp [decodeBytes, other]

theorem decode_escape (read : hexByte high low = some byte) :
    decodeBytes ('%' :: high :: low :: text) = (decodeBytes text).map (byte :: ·) := by
  cases rest : decodeBytes text <;> simp [decodeBytes, read, rest]

theorem decode_stray (none : escapeAt text = none) : decodeBytes ('%' :: text) = Option.none := by
  rcases text with _ | ⟨high, _ | ⟨low, rest⟩⟩ <;> simp_all [decodeBytes, escapeAt]

theorem escapeAt_canonical (found : (escapeAt text).isSome) :
    escapeAt (canonicalizePath text) = escapeAt text := by
  obtain ⟨pair, found⟩ := isSome_iff_exists.mp found
  obtain ⟨byte, rest, read, rfl⟩ := escapeAt_eq_some.mp found
  rw [found, canonical_digits read]
  exact escapeAt_eq_some.mpr ⟨byte, _, read, rfl⟩

theorem escapes_char (other : c ≠ '%') : escapes (c :: text) = escapes text := by
  simp [escapes, other]

theorem escapes_escape (read : hexByte high low = some byte) :
    escapes ('%' :: high :: low :: text) = (high, low) :: escapes text := by
  have at' : escapeAt (high :: low :: text) = some (high, low) :=
    escapeAt_eq_some.mpr ⟨byte, text, read, rfl⟩
  rw [escapes, if_pos rfl, at', escapes_char (digits read).1, escapes_char (digits read).2.2.1]
  rfl

theorem canonical_spells {mid : List Char} (spells : Spells c text mid) :
    canonicalizePath text = c :: canonicalizePath mid := by
  cases spells with
  | literal other => exact canonical_char other
  | octet read unreserved => exact canonical_octet read unreserved

theorem exists_spells {rest : List Char} (other : c ≠ '%')
    (canonical : canonicalizePath text = c :: rest) :
    ∃ mid, Spells c text mid ∧ canonicalizePath mid = rest := by
  induction text using by_escape with
  | nil => cases canonical
  | char d text plain =>
    rw [canonical_char plain] at canonical
    cases canonical
    exact ⟨text, .literal plain, rfl⟩
  | escape high low byte text read =>
    by_cases unreserved : isUnreserved byte
    · rw [canonical_octet read unreserved] at canonical
      cases canonical
      exact ⟨text, .octet read unreserved, rfl⟩
    · rw [canonical_reserved read unreserved] at canonical
      cases canonical
      exact absurd rfl other
  | stray text none =>
    rw [canonical_stray none] at canonical
    cases canonical
    exact absurd rfl other

theorem settled_nil : Settled [] := fun before text is => by simp at is

/-- A stray percent sign is settled where the canonical spelling of what follows it
does not make it begin an escape. -/
theorem settled_cons : Settled (c :: text) ↔
    (c = '%' → escapeAt text = none → escapeAt (canonicalizePath text) = none) ∧ Settled text := by
  constructor
  · refine fun settled => ⟨?_, fun before rest is => settled (c :: before) rest (congrArg _ is)⟩
    rintro rfl none
    refine eq_none_iff_forall_ne_some.mpr fun pair found => ?_
    obtain ⟨byte, rest, read, canonical⟩ := escapeAt_eq_some.mp found
    obtain ⟨first, -, second, -⟩ := digits read
    obtain ⟨mid, spells, canonical⟩ := exists_spells first canonical
    obtain ⟨rest, spells', -⟩ := exists_spells second canonical
    cases read.symm.trans (settled [] text rfl none _ _ _ _ spells spells')
  · rintro ⟨stray, settled⟩ before after is none high low mid rest spells spells'
    obtain ⟨rfl, same⟩ | ⟨before, rfl, same⟩ := cons_eq_append_iff.mp is
    · cases same
      have still := stray rfl none
      rw [canonical_spells spells, canonical_spells spells'] at still
      cases read : hexByte high low with
      | none => rfl
      | some byte => simp [escapeAt, read] at still
    · exact settled before after same none high low mid rest spells spells'

theorem settled_digits (read : hexByte high low = some byte) :
    Settled ('%' :: high :: low :: text) ↔ Settled text := by
  simp [settled_cons, (digits read).1, (digits read).2.2.1, escapeAt, read]

/-! ## Decoding -/

theorem decodePath_eq_ok :
    decodePath path = .ok text ↔ decodeBytes path = some (Utf8.encode text) := by
  unfold decodePath decodePercent
  split
  next plain =>
    have loop : decodeBytes path = some (Utf8.encode path) := by
      induction path with
      | nil => rfl
      | cons c path ih =>
        obtain ⟨other, rest⟩ := ne_and_not_mem_of_not_mem_cons plain
        rw [decode_char other.symm, ih rest]
        rfl
    rw [loop, Except.ok.injEq, Option.some.injEq]
    constructor
    · rintro rfl
      rfl
    · intro same
      have decoded := Utf8.decode_eq_some.mpr same
      rw [Utf8.decode_eq_some.mpr rfl] at decoded
      exact (Option.some.inj decoded).symm
  · cases loop : decodeBytes path with
    | none => simp
    | some bytes =>
      rw [bind_some, Option.some.injEq, eq_comm (a := bytes), ← Utf8.decode_eq_some]
      cases Utf8.decode bytes <;> simp

theorem toOption_decodePath (path : List Char) :
    (decodePath path).toOption = (decodeBytes path).bind Utf8.decode := by
  cases decoded : decodePath path with
  | ok text =>
    rw [decodePath_eq_ok.mp decoded, bind_some, Utf8.decode_eq_some.mpr rfl]
    rfl
  | error e =>
    cases found : (decodeBytes path).bind Utf8.decode with
    | none => rfl
    | some text =>
      obtain ⟨bytes, loop, text'⟩ := bind_eq_some_iff.mp found
      rw [decodePath_eq_ok.mpr (Utf8.decode_eq_some.mp text' ▸ loop)] at decoded
      cases decoded

theorem decode_pushEscaped {keep : UInt8 → Bool} (plain : ∀ byte, keep byte → charFrom byte ≠ '%' ∧
      String.utf8EncodeChar (charFrom byte) = [byte]) (text : List Char) :
    decodePath (pushEscaped keep [] text) = .ok text := by
  rw [decodePath_eq_ok, pushEscaped, nil_append]
  generalize Utf8.encode text = bytes
  induction bytes with
  | nil => rfl
  | cons byte bytes ih =>
    rw [flatMap_cons]
    split
    next kept =>
      obtain ⟨other, self⟩ := plain byte kept
      rw [singleton_append, decode_char other, ih, self]
      rfl
    · have read := hexByte_percent ⟨byte.toNat, byte.toNat_lt⟩
      simp only [UInt8.ofNat_toNat] at read
      rw [pushPercent, cons_append, cons_append, cons_append, nil_append, decode_escape read, ih]
      rfl

theorem hexByte_digits {x y : Nat} (first : hexDigit high = some x)
    (second : hexDigit low = some y) :
    hexByte high low = some (UInt8.ofNat (16 * x + y)) := by
  have sign : high ≠ '+' := by
    rintro rfl
    cases first
  simp [hexByte, fromStrRadix, sign, first, second]

theorem hexByte_cases (read : hexByte high low = some byte) :
    (∃ x y, hexDigit high = some x ∧ hexDigit low = some y ∧ byte = UInt8.ofNat (16 * x + y)) ∨
      high = '+' ∧ ∃ y, hexDigit low = some y ∧ byte = UInt8.ofNat y := by
  by_cases sign : high = '+'
  · rw [hexByte, fromStrRadix, if_pos sign] at read
    obtain ⟨y, second, rfl⟩ := map_eq_some_iff.mp read
    exact .inr ⟨sign, y, second, rfl⟩
  · rw [hexByte, fromStrRadix, if_neg sign] at read
    cases first : hexDigit high <;> cases second : hexDigit low <;> rw [first, second] at read <;>
      cases read
    exact .inl ⟨_, _, rfl, rfl, rfl⟩

/-- The decoder reads signs. -/
theorem denotes_iff {bytes : List UInt8} :
    Denotes true path bytes ↔ decodeBytes path = some bytes := by
  constructor
  · intro denotes
    induction denotes with
    | nil => rfl
    | char other _ ih => rw [decode_char other, ih]; rfl
    | escape first second _ ih => rw [decode_escape (hexByte_digits first second), ih]; rfl
    | @signed low y text bytes _ second _ ih =>
      have read : hexByte '+' low = some (UInt8.ofNat y) := by simp [hexByte, fromStrRadix, second]
      rw [decode_escape read, ih]
      rfl
  · intro decoded
    induction path using by_escape generalizing bytes with
    | nil =>
      cases decoded
      exact .nil
    | char c text other ih =>
      rw [decode_char other] at decoded
      obtain ⟨rest, loop, rfl⟩ := map_eq_some_iff.mp decoded
      exact .char other (ih loop)
    | escape high low byte text read ih =>
      rw [decode_escape read] at decoded
      obtain ⟨rest, loop, rfl⟩ := map_eq_some_iff.mp decoded
      obtain ⟨x, y, first, second, rfl⟩ | ⟨rfl, y, second, rfl⟩ := hexByte_cases read
      · exact .escape first second (ih loop)
      · exact .signed rfl second (ih loop)
    | stray text none =>
      rw [decode_stray none] at decoded
      cases decoded

theorem denotes_unsigned {bytes : List UInt8} :
    Denotes false path bytes ↔ Denotes true path bytes ∧ Unsigned path := by
  constructor
  · intro denotes
    induction denotes with
    | nil => exact ⟨.nil, trivial⟩
    | char other _ ih => exact ⟨.char other ih.1, by simp [other], ih.2⟩
    | @escape high low x y text bytes first second _ ih =>
      have plain : high ≠ '+' := by
        rintro rfl
        cases first
      obtain ⟨other, -, other', -⟩ := digits (hexByte_digits first second)
      exact ⟨.escape first second ih.1, by simp [Unsigned, plain, other, other', ih.2]⟩
    | signed signs => cases signs
  · rintro ⟨denotes, unsigned⟩
    induction denotes with
    | nil => exact .nil
    | char other _ ih => exact .char other (ih unsigned.2)
    | escape first second _ ih => exact .escape first second (ih unsigned.2.2.2)
    | signed => exact absurd rfl (unsigned.1 rfl)

/-! ## Canonical spellings -/

theorem count_canonical (path : List Char) :
    (canonicalizePath path).count '/' = path.count '/' := by
  induction path using by_escape with
  | nil => rfl
  | char c text other ih => rw [canonical_char other, count_cons, count_cons, ih]
  | escape high low byte text read ih =>
    obtain ⟨-, first, -, second⟩ := digits read
    by_cases unreserved : isUnreserved byte
    · simp [canonical_octet read unreserved, (octet unreserved).2.1, first, second, ih]
    · simp [canonical_reserved read unreserved, first, second, ih]
  | stray text none ih => rw [canonical_stray none, count_cons, count_cons, ih]

theorem canonical_settled (settled : Settled path) :
    decodeBytes (canonicalizePath path) = decodeBytes path ∧
      canonicalizePath (canonicalizePath path) = canonicalizePath path ∧
      (escapes (canonicalizePath path)).Sublist (escapes path) := by
  induction path using by_escape with
  | nil => exact ⟨rfl, rfl, .slnil⟩
  | char c text other ih =>
    obtain ⟨same, again, fewer⟩ := ih (settled_cons.mp settled).2
    simp [canonical_char other, decode_char other, escapes_char other, same, again, fewer]
  | escape high low byte text read ih =>
    obtain ⟨same, again, fewer⟩ := ih ((settled_digits read).mp settled)
    by_cases unreserved : isUnreserved byte
    · obtain ⟨other, -, self⟩ := octet unreserved
      rw [canonical_octet read unreserved, decode_char other, decode_escape read, same, self,
        canonical_char other, again, escapes_char other, escapes_escape read]
      exact ⟨rfl, rfl, fewer.cons _⟩
    · rw [canonical_reserved read unreserved, decode_escape read, decode_escape read, same,
        canonical_reserved read unreserved, again, escapes_escape read, escapes_escape read]
      exact ⟨rfl, rfl, fewer.cons_cons _⟩
  | stray text none ih =>
    obtain ⟨stays, settled⟩ := settled_cons.mp settled
    obtain ⟨same, again, fewer⟩ := ih settled
    have still := stays rfl none
    rw [canonical_stray none, decode_stray none, decode_stray still, canonical_stray still, again]
    exact ⟨rfl, rfl, by simpa [escapes, none, still] using fewer⟩

theorem canonical_respelled {spelling : List Char} (respelled : Respelled path spelling)
    (settled : Settled path) : canonicalizePath spelling = canonicalizePath path := by
  induction respelled with
  | nil => rfl
  | @same c text spelling rest ih =>
    obtain ⟨stays, settled⟩ := settled_cons.mp settled
    have tail := ih settled
    by_cases other : c ≠ '%'
    · rw [canonical_char other, canonical_char other, tail]
    obtain rfl := not_not.mp other
    cases found : escapeAt text with
    | none =>
      have still : escapeAt spelling = none := by
        by_contra begins
        have kept := escapeAt_canonical (isSome_iff_ne_none.mpr begins)
        rw [tail, stays rfl found] at kept
        exact begins kept.symm
      rw [canonical_stray found, canonical_stray still, tail]
    | some pair =>
      -- Neither digit is a percent sign, so both spellings have the digits.
      obtain ⟨high, low⟩ := pair
      obtain ⟨byte, text, read, rfl⟩ := escapeAt_eq_some.mp found
      obtain ⟨first, -, second, -⟩ := digits read
      cases rest with
      | octet => exact absurd rfl first
      | same _ rest =>
        cases rest with
        | octet => exact absurd rfl second
        | same _ rest =>
          simp only [canonical_digits read, List.cons.injEq, true_and] at tail
          by_cases unreserved : isUnreserved byte
          · rw [canonical_octet read unreserved, canonical_octet read unreserved, tail]
          · rw [canonical_reserved read unreserved, canonical_reserved read unreserved, tail]
  | octet read unreserved _ ih =>
    rw [canonical_octet read unreserved, canonical_char (octet unreserved).1,
      ih ((settled_digits read).mp settled)]

/-! ## Escapes that canonicalization makes -/

def reserved (path : List Char) : Nat :=
  (escapes path).countP fun pair => !(hexByte pair.1 pair.2).any isUnreserved

theorem reserved_escape (read : hexByte high low = some byte) :
    reserved ('%' :: high :: low :: text) = reserved text + if isUnreserved byte then 0 else 1 := by
  by_cases unreserved : isUnreserved byte <;>
    simp [reserved, escapes_escape read, read, unreserved]

theorem reserved_stray (none : escapeAt text = none) :
    reserved ('%' :: text) = reserved text := by
  simp [reserved, escapes, none]

theorem reserved_char (other : c ≠ '%') :
    reserved (c :: text) = reserved text := by
  rw [reserved, escapes_char other, reserved]

theorem reserved_le (path : List Char) : reserved path ≤ reserved (canonicalizePath path) := by
  induction path using by_escape with
  | nil => exact Nat.le_refl _
  | char c text other ih => rwa [canonical_char other, reserved_char other, reserved_char other]
  | escape high low byte text read ih =>
    by_cases unreserved : isUnreserved byte
    · simpa [canonical_octet read unreserved, reserved_escape read, unreserved,
        reserved_char (octet unreserved).1] using ih
    · simpa [canonical_reserved read unreserved, reserved_escape read, unreserved] using ih
  | stray text none ih =>
    rw [canonical_stray none, reserved_stray none]
    refine ih.trans ?_
    simp [reserved, escapes]

theorem length_canonical (path : List Char) :
    (canonicalizePath path).length + 2 * ((escapes path).length - reserved path) =
      path.length := by
  induction path using by_escape with
  | nil => rfl
  | char c text other ih =>
    rw [canonical_char other, reserved_char other, escapes_char other, length_cons, length_cons]
    omega
  | escape high low byte text read ih =>
    have le : reserved text ≤ (escapes text).length := countP_le_length
    by_cases unreserved : isUnreserved byte <;>
      simp [canonical_octet read, canonical_reserved read, unreserved, reserved_escape read,
        escapes_escape read] <;> omega
  | stray text none ih =>
    simp [canonical_stray none, reserved_stray none, escapes, none]
    omega

theorem settled_of_reserved
    (kept : (escapes (canonicalizePath path)).length ≤ reserved path) : Settled path := by
  induction path using by_escape with
  | nil => exact settled_nil
  | char c text other ih =>
    rw [canonical_char other, reserved_char other, escapes_char other] at kept
    exact settled_cons.mpr ⟨fun percent => absurd percent other, ih kept⟩
  | escape high low byte text read ih =>
    refine (settled_digits read).mpr (ih ?_)
    by_cases unreserved : isUnreserved byte
    · simpa [canonical_octet read unreserved, escapes_char (octet unreserved).1,
        reserved_escape read, unreserved] using kept
    · simpa [canonical_reserved read unreserved, escapes_escape read, reserved_escape read,
        unreserved] using kept
  | stray text none ih =>
    have le : reserved (canonicalizePath text) ≤ (escapes (canonicalizePath text)).length :=
      countP_le_length
    have before := reserved_le text
    rw [canonical_stray none, reserved_stray none, escapes, if_pos rfl, length_append] at kept
    cases found : escapeAt (canonicalizePath text) with
    | none => exact settled_cons.mpr ⟨fun _ _ => found, ih (by omega)⟩
    | some pair =>
      rw [found, toList_some, length_singleton] at kept
      omega

theorem Preserved.settled (preserved : Preserved path) : Settled path := by
  have length := length_canonical (canonicalizePath path)
  have fewer : reserved (canonicalizePath path) ≤ reserved path :=
    preserved.escapes.countP_le
  rw [preserved.idempotent] at length
  exact settled_of_reserved (by omega)

/-! ## Main results -/

/-- Canonicalization keeps what a path means exactly where no stray percent sign is
followed by what spells two digits, and no escape of an otherwise well-formed path has
a plus sign for its first digit. Decoding always inverts encoding. -/
theorem canonicalizePath_preserves (path text : List Char) :
    (Preserved path ↔
      Settled path ∧ ∀ meant, Denotes true path (Utf8.encode meant) → Unsigned path) ∧
      decodePath (pushComponent [] text) = .ok text ∧ decodePath (pushPath [] text) = .ok text := by
  have reads : ∀ meant, decodePath path = .ok meant ↔ Denotes true path (Utf8.encode meant) :=
    fun meant => decodePath_eq_ok.trans denotes_iff.symm
  refine ⟨⟨fun preserved => ⟨preserved.settled, fun meant denotes => ?_⟩, ?_⟩, ?_, ?_⟩
  · have accepted := (preserved.accepts meant).mp ((reads meant).mpr denotes)
    exact (denotes_unsigned.mp accepted).2
  · rintro ⟨settled, unsigned⟩
    obtain ⟨same, again, fewer⟩ := canonical_settled settled
    refine ⟨by rw [toOption_decodePath, toOption_decodePath, same], again, count_canonical path,
      fewer, fun _ respelled => canonical_respelled respelled settled, fun meant => ?_⟩
    rw [reads, denotes_unsigned]
    exact ⟨fun denotes => ⟨denotes, unsigned meant denotes⟩, And.left⟩
  · exact decode_pushEscaped (fun byte kept => ⟨(octet kept).1, (octet kept).2.2⟩) text
  · refine decode_pushEscaped (fun byte kept => ?_) text
    obtain slash | kept := Bool.or_eq_true_iff.mp kept
    · obtain rfl := of_decide_eq_true slash
      decide
    · exact ⟨(octet kept).1, (octet kept).2.2⟩

/-- A malformed path whose canonical spelling is well formed, and a signed escape. -/
theorem canonicalizePath_makes_escape :
    decodePath "%%341".toList = .error (.invalidEncoding "%%341".toList) ∧
      canonicalizePath "%%341".toList = "%41".toList ∧
      decodePath "%41".toList = .ok "A".toList ∧
      canonicalizePath "%41".toList = "A".toList ∧
      decodePath "%+5".toList = .ok [Char.ofNat 5] := by
  decide +kernel

end Peryx.Path
