import Peryx.Lib.Digits
import Peryx.Storage.CanonicalRoundTrip
import Peryx.Storage.CheckpointInstall

/-!
# Cursor tokens

A checkpoint cursor travels as a token: the generation it belongs to, the
section it stands in, and the hex of the key it stands after. The readers
`from_token` and `from_generation_token` of `meta/checkpoint_transfer.rs`, and
`fromGenerationToken_generationToken`: a token names its cursor and no other.

`hexDecode` is `hex::decode`.
-/

namespace Peryx

open List Option String

def hexDigit (c : Char) : Option Nat :=
  if '0' ≤ c ∧ c ≤ '9' then some (c.toNat - '0'.toNat)
  else if 'a' ≤ c ∧ c ≤ 'f' then some (c.toNat - 'a'.toNat + 10)
  else if 'A' ≤ c ∧ c ≤ 'F' then some (c.toNat - 'A'.toNat + 10)
  else none

def hexDecode : List Char → Option (List UInt8)
  | [] => some []
  | [_] => none
  | high :: low :: rest => do
    return UInt8.ofNat (16 * (← hexDigit high) + (← hexDigit low)) :: (← hexDecode rest)

namespace CheckpointCursor

/-- The section's tag and the key after it, if the token has one. -/
def tagAndKey (token : List Char) : Option (List Char × Option String) :=
  match splitOnce ':' token with
  | some (tag, key) => do
    let bytes ← hexDecode key
    let decoded ← String.fromUTF8? ⟨bytes.toArray⟩
    return (tag, some decoded)
  | none => some (token, none)

/-- Nothing when the token names no position a writer can resume from. -/
def fromToken (token : List Char) : Option CheckpointCursor :=
  if token = "done".toList then
    some .done
  else do
    let (tag, after) ← tagAndKey token
    if tag = ['r'] then some (.rows after)
    else if tag = ['v'] then some (.revocations after)
    else if tag = ['b'] then some (.blobs after)
    else none

def fromGenerationToken (token : String) : Option (Nat × CheckpointCursor) :=
  match token.toList with
  | [] => none
  | c :: rest =>
    if c = 'g' then do
      let (generation, cursor) ← splitOnce ':' rest
      return (← parseU64 generation, ← fromToken cursor)
    else none

end CheckpointCursor

/-! ## Reading back -/

theorem hexDigit_digitChar : ∀ digit < 16, hexDigit (Nat.digitChar digit) = some digit := by
  decide

theorem hexDecode_hexEncode (bytes : List UInt8) :
    hexDecode (hexEncode bytes).toList = some bytes := by
  rw [hexEncode, toList_ofList]
  induction bytes with
  | nil => rfl
  | cons byte bytes ih =>
    have small := byte.toNat_lt
    have joined : UInt8.ofNat (16 * (byte.toNat / 16) + byte.toNat % 16) = byte := by
      rw [Nat.div_add_mod, UInt8.ofNat_toNat]
    rw [flatMap_cons, cons_append, cons_append, nil_append, hexDecode,
      hexDigit_digitChar _ (by omega), hexDigit_digitChar _ (by omega), ih]
    simp only [bind_eq_bind, bind_some, joined]
    rfl

theorem toList_toUTF8 (s : String) : s.toUTF8.toList = asBytes s := by
  have loop : ∀ (bytes : ByteArray) (fuel i : Nat) (read : List UInt8),
      bytes.size - i = fuel →
        ByteArray.toList.loop bytes i read = read.reverse ++ bytes.data.toList.drop i := by
    intro bytes fuel
    induction fuel with
    | zero =>
      intro i read ended
      rw [ByteArray.toList.loop, if_neg (by omega), drop_eq_nil_of_le, List.append_nil]
      show bytes.data.size ≤ i
      have : bytes.data.size = bytes.size := rfl
      omega
    | succ fuel ih =>
      intro i read left
      have inside : i < bytes.data.toList.length := by
        show i < bytes.data.size
        have : bytes.data.size = bytes.size := rfl
        omega
      have byte : bytes.get! i = bytes.data.toList[i] :=
        getElem!_pos bytes.data i inside
      rw [ByteArray.toList.loop, if_pos (by omega), ih (i + 1) _ (by omega),
        drop_eq_getElem_cons inside, byte]
      simp
  exact loop s.toUTF8 _ 0 [] rfl

namespace CheckpointCursor

variable {tag : String} {c : Char} (one : tag.toList = [c]) (clear : c ≠ ':')

include one clear

theorem tagAndKey_tagged (after : Option String) :
    tagAndKey (token.tagged tag after).toList = some ([c], after) := by
  have only : ':' ∉ [c] := mem_singleton.not.mpr clear.symm
  cases after with
  | none => rw [token.tagged, one, tagAndKey, splitOnce_eq_none only]
  | some key =>
    have text : (token.tagged tag (some key)).toList =
        [c] ++ ':' :: (hexEncode (asBytes key)).toList := by
      rw [token.tagged, toList_toUTF8, toList_append, toList_append, one]
      rfl
    rw [text, tagAndKey, splitOnce_append only]
    dsimp only
    rw [hexDecode_hexEncode, bind_eq_bind, bind_some, fromUTF8_asBytes]
    rfl

theorem fromToken_tagged (after : Option String) :
    fromToken (token.tagged tag after).toList =
      if [c] = ['r'] then some (.rows after)
      else if [c] = ['v'] then some (.revocations after)
      else if [c] = ['b'] then some (.blobs after)
      else none := by
  have other : (token.tagged tag after).toList ≠ "done".toList := by
    intro same
    have read := tagAndKey_tagged one clear after
    rw [same] at read
    cases read
  rw [fromToken, if_neg other, tagAndKey_tagged one clear]
  rfl

omit one clear

theorem fromToken_token (cursor : CheckpointCursor) :
    fromToken cursor.token.toList = some cursor := by
  cases cursor with
  | rows after => exact fromToken_tagged (c := 'r') (by decide) (by decide) after
  | revocations after => exact fromToken_tagged (c := 'v') (by decide) (by decide) after
  | blobs after => exact fromToken_tagged (c := 'b') (by decide) (by decide) after
  | done => rw [token, fromToken, if_pos rfl]

theorem fromGenerationToken_generationToken (cursor : CheckpointCursor)
    {generation : Nat} (small : generation ≤ Nat.u64Max) :
    fromGenerationToken (cursor.generationToken generation) = some (generation, cursor) := by
  have clear : ':' ∉ (toString generation).toList := by
    rw [Nat.toString_eq_ofList_toDigits, toList_ofList]
    intro mem
    exact absurd (Nat.isDigit_of_mem_toDigits (by decide) (by decide) mem) (by decide)
  have text : (cursor.generationToken generation).toList =
      'g' :: ((toString generation).toList ++ ':' :: cursor.token.toList) := by
    simp [generationToken]
  unfold fromGenerationToken
  rw [text]
  dsimp only
  rw [if_pos rfl, splitOnce_append clear, bind_eq_bind, bind_some,
    parseU64_toString small, fromToken_token]
  rfl

end CheckpointCursor

end Peryx
