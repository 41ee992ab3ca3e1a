import Peryx.Lib.Codec

/-!
# Naturals as text

Lists of naturals written in unary, the plainest text that reads back and holds
no other characters than its two digits. It stands in for a serializer wherever
an assumption about one has to be met.
-/

namespace Peryx.Unary

open List

def write (numbers : List Nat) : List Char :=
  numbers.flatMap fun number => List.replicate number '1' ++ ['0']

/-- Reads numbers, the first of which has `count` digits already. -/
def read (count : Nat) : List Char → List Nat
  | [] => []
  | digit :: digits => if digit = '0' then count :: read 0 digits else read (count + 1) digits

theorem read_replicate (count number : Nat) (digits : List Char) :
    read count (List.replicate number '1' ++ '0' :: digits) =
      (count + number) :: read 0 digits := by
  induction number generalizing count with
  | zero => rfl
  | succ number ih =>
    rw [replicate_succ, cons_append, read, if_neg (by decide), ih, Nat.add_assoc, Nat.add_comm 1]

theorem read_write (numbers : List Nat) : read 0 (write numbers) = numbers := by
  induction numbers with
  | nil => rfl
  | cons number numbers ih =>
    rw [write, flatMap_cons, append_assoc, singleton_append, read_replicate, Nat.zero_add]
    exact congrArg _ ih

theorem write_injective : Function.Injective write :=
  Function.LeftInverse.injective read_write

theorem mem_write {numbers : List Nat} {digit : Char} (mem : digit ∈ write numbers) :
    digit = '1' ∨ digit = '0' := by
  obtain ⟨number, -, mem⟩ := mem_flatMap.mp mem
  obtain mem | mem := mem_append.mp mem
  · exact .inl (eq_of_mem_replicate mem)
  · exact .inr (mem_singleton.mp mem)

/-! ## Strings -/

def codes (text : String) : List Nat :=
  text.toList.map Char.toNat

def text (codes : List Nat) : String :=
  String.ofList (codes.map Char.ofNat)

theorem text_codes (string : String) : text (codes string) = string := by
  unfold text codes
  have chars : (Char.ofNat ∘ Char.toNat) = id := funext fun c => Char.ofNat_toNat c
  rw [map_map, chars, map_id, String.ofList_toList]

def pair : Codec (String × String × Nat) String where
  encode parts := String.ofList
    (write (parts.2.2 :: parts.1.length :: (codes parts.1 ++ codes parts.2.1)))
  decode string :=
    match read 0 string.toList with
    | number :: length :: codes => some (text (codes.take length), text (codes.drop length), number)
    | _ => none
  decode_encode := by
    rintro ⟨first, second, number⟩
    have length : (codes first).length = first.length := by
      rw [codes, length_map, String.length_toList]
    simp only [String.toList_ofList, read_write, ← length, take_left', drop_left', text_codes]

end Peryx.Unary
