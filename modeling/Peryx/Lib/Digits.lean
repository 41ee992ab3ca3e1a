import Peryx.Lib.Keys
import Peryx.Lib.Saturating

/-!
# Numbers as digits of a fixed width

`digits b w n` is the text of `n` in base `b` with `w` digits. Texts of one
width are ordered as their numbers are (`digits_lt_digits`), so such a text can
be the key of a table that is read in the order of the numbers; signed numbers
get there with their sign bit flipped (`toNat_biased`). `splitOnce` and
`parseU64` are `str::split_once` and `u64::from_str`.
-/

namespace Peryx

open List String

/-- The `w` lowest digits of a number, the highest first. -/
def digits (b : Nat) : Nat → Nat → List Char
  | 0, _ => []
  | w + 1, n => Nat.digitChar (n / b ^ w) :: digits b w (n % b ^ w)

@[simp] theorem length_digits (b : Nat) : ∀ w n, (digits b w n).length = w
  | 0, _ => rfl
  | w + 1, _ => congrArg (· + 1) (length_digits b w _)

theorem digitChar_lt {m n : Nat} (small : n < 16) (less : m < n) :
    Nat.digitChar m < Nat.digitChar n := by
  have all : ∀ n < 16, ∀ m < n, Nat.digitChar m < Nat.digitChar n := by decide
  exact all n small m less

section

variable {b w m n : Nat}

theorem div_lt_base (small : n < b ^ (w + 1)) : n / b ^ w < b :=
  Nat.div_lt_of_lt_mul (by rwa [pow_succ] at small)

theorem mod_lt_pow (small : n < b ^ (w + 1)) : n % b ^ w < b ^ w := by
  refine Nat.mod_lt _ (Nat.pos_of_ne_zero fun zero => ?_)
  rw [pow_succ, zero, Nat.zero_mul] at small
  omega

theorem digits_lt_digits (base : b ≤ 16) : ∀ {w m n : Nat}, n < b ^ w → m < n →
    digits b w m < digits b w n
  | 0, m, n, small, less => by
    rw [pow_zero] at small
    omega
  | w + 1, m, n, small, less => by
    rw [digits, digits, cons_lt_cons_iff]
    obtain high | same := (Nat.div_le_div_right (c := b ^ w) less.le).lt_or_eq
    · exact .inl (digitChar_lt ((div_lt_base small).trans_le base) high)
    · refine .inr ⟨congrArg _ same, digits_lt_digits base (mod_lt_pow small) ?_⟩
      have low := Nat.div_add_mod m (b ^ w)
      have high := Nat.div_add_mod n (b ^ w)
      rw [same] at low
      omega

theorem digits_lt_digits_iff (base : b ≤ 16) (small : m < b ^ w) (small' : n < b ^ w) :
    digits b w m < digits b w n ↔ m < n := by
  refine ⟨fun less => ?_, digits_lt_digits base small'⟩
  obtain less' | rfl | more := lt_trichotomy m n
  · exact less'
  · exact absurd less (lt_irrefl _)
  · exact absurd (less.trans (digits_lt_digits base small more)) (lt_irrefl _)

theorem digits_inj (base : b ≤ 16) (small : m < b ^ w) (small' : n < b ^ w) :
    digits b w m = digits b w n ↔ m = n := by
  refine ⟨fun same => ?_, congrArg _⟩
  obtain less | rfl | more := lt_trichotomy m n
  · exact absurd (same ▸ digits_lt_digits base small' less) (lt_irrefl _)
  · rfl
  · exact absurd (same ▸ digits_lt_digits base small more) (lt_irrefl _)

theorem mem_digits : ∀ {w n : Nat} {c : Char}, n < b ^ w → c ∈ digits b w n →
    ∃ d < b, c = Nat.digitChar d
  | w + 1, n, c, small, mem => by
    obtain rfl | mem := mem_cons.mp mem
    · exact ⟨_, div_lt_base small, rfl⟩
    · exact mem_digits (mod_lt_pow small) mem

theorem ofDigitChars_digits (base : b ≤ 10) : ∀ {w n : Nat}, n < b ^ w → ∀ start,
    Nat.ofDigitChars b (digits b w n) start = b ^ w * start + n
  | 0, n, small, start => by
    rw [pow_zero] at small
    rw [digits, Nat.ofDigitChars_nil, pow_zero]
    omega
  | w + 1, n, small, start => by
    have value : ∀ d < 10, (Nat.digitChar d).toNat - '0'.toNat = d := by decide
    rw [digits, Nat.ofDigitChars_cons, value _ ((div_lt_base small).trans_le base),
      ofDigitChars_digits base (mod_lt_pow small)]
    calc b ^ w * (b * start + n / b ^ w) + n % b ^ w
        = b ^ (w + 1) * start + (b ^ w * (n / b ^ w) + n % b ^ w) := by ring
      _ = b ^ (w + 1) * start + n := by rw [Nat.div_add_mod]

end

/-! ## Reading texts -/

/-- `str::split_once`. -/
def splitOnce (separator : Char) : List Char → Option (List Char × List Char)
  | [] => none
  | c :: cs =>
    if c = separator then some ([], cs)
    else (splitOnce separator cs).map fun (before, after) => (c :: before, after)

/-- One sign `+` may lead the digits. -/
def parseU64 (text : List Char) : Option Nat :=
  let digits := if text.head? = some '+' then text.tail else text
  if digits ≠ [] ∧ digits.all Char.isDigit ∧ Nat.ofDigitChars 10 digits 0 ≤ Nat.u64Max then
    some (Nat.ofDigitChars 10 digits 0)
  else none

theorem splitOnce_append {separator : Char} {before : List Char} (clear : separator ∉ before)
    (after : List Char) :
    splitOnce separator (before ++ separator :: after) = some (before, after) := by
  induction before with
  | nil => rw [nil_append, splitOnce, if_pos rfl]
  | cons c before ih =>
    obtain ⟨different, clear⟩ := not_or.mp (mem_cons.not.mp clear)
    rw [cons_append, splitOnce, if_neg (Ne.symm different), ih clear]
    rfl

theorem splitOnce_eq_none {separator : Char} {text : List Char} (clear : separator ∉ text) :
    splitOnce separator text = none := by
  induction text with
  | nil => rfl
  | cons c text ih =>
    obtain ⟨different, clear⟩ := not_or.mp (mem_cons.not.mp clear)
    rw [splitOnce, if_neg (Ne.symm different), ih clear]
    rfl

theorem parseU64_toString {n : Nat} (small : n ≤ Nat.u64Max) :
    parseU64 (toString n).toList = some n := by
  have digits : ∀ c ∈ Nat.toDigits 10 n, c.isDigit = true :=
    fun c hc => Nat.isDigit_of_mem_toDigits (by decide) (by decide) hc
  have unsigned : (Nat.toDigits 10 n).head? ≠ some '+' := by
    intro head
    exact absurd (digits '+' (mem_of_head? head)) (by decide)
  unfold parseU64
  rw [Nat.toString_eq_ofList_toDigits, toList_ofList, if_neg unsigned]
  dsimp only
  rw [Nat.ofDigitChars_ten_toDigits, if_pos]
  exact ⟨Nat.toDigits_ne_nil, all_eq_true.mpr digits, small⟩

theorem parseU64_digits {w n : Nat} (some : 0 < w) (fits : n < 10 ^ w) (small : n ≤ Nat.u64Max) :
    parseU64 (digits 10 w n) = Option.some n := by
  have decimal : ∀ c ∈ digits 10 w n, c.isDigit = true := by
    intro c mem
    obtain ⟨d, digit, rfl⟩ := mem_digits fits mem
    have all : ∀ d < 10, (Nat.digitChar d).isDigit = true := by decide
    exact all d digit
  have unsigned : (digits 10 w n).head? ≠ Option.some '+' := by
    intro head
    exact absurd (decimal '+' (mem_of_head? head)) (by decide)
  have nonempty : digits 10 w n ≠ [] := ne_nil_of_length_pos (by rwa [length_digits])
  unfold parseU64
  rw [if_neg unsigned]
  dsimp only
  rw [ofDigitChars_digits le_rfl fits, Nat.mul_zero, Nat.zero_add, if_pos]
  exact ⟨nonempty, all_eq_true.mpr decimal, small⟩

/-! ## Signed numbers in unsigned order -/

/-- The sign bit flipped, so that signed numbers are ordered as unsigned ones. -/
def biased (t : Int64) : UInt64 :=
  t.toUInt64 ^^^ ((1 : UInt64) <<< 63)

theorem xor_two_pow {w x : Nat} (small : x < 2 ^ w) : x ^^^ 2 ^ w = x + 2 ^ w := by
  have disjoint : x ^^^ 2 ^ w = 2 ^ w ||| x := by
    refine Nat.eq_of_testBit_eq fun i => ?_
    by_cases top : w = i
    · subst top
      simp [Nat.testBit_lt_two_pow small]
    · simp [top]
  have sum := Nat.two_pow_add_eq_or_of_lt small 1
  rw [Nat.mul_one] at sum
  rw [disjoint, ← sum, Nat.add_comm]

theorem toNat_biased (t : Int64) : ((biased t).toNat : Int) = t.toInt + 2 ^ 63 := by
  have bound := t.toUInt64.toNat_lt
  have signed : t.toInt = if 2 * t.toUInt64.toNat < 2 ^ 64 then (t.toUInt64.toNat : Int)
      else t.toUInt64.toNat - 2 ^ 64 := by
    rfl
  have bits : (biased t).toNat = t.toUInt64.toNat ^^^ 2 ^ 63 := by
    rfl
  generalize t.toUInt64.toNat = n at *
  by_cases low : n < 2 ^ 63
  · rw [bits, xor_two_pow low, signed, if_pos (by omega)]
    rfl
  · have again : (n - 2 ^ 63) ^^^ 2 ^ 63 = n := by
      rw [xor_two_pow (by omega)]
      omega
    rw [bits, ← again, Nat.xor_assoc, Nat.xor_self, Nat.xor_zero, signed, if_neg (by omega)]
    omega

namespace Keys

theorem append_lt_append_iff {α : Type*} [LinearOrder α] : ∀ {a b r s : List α},
    a.length = b.length → (a ++ r < b ++ s ↔ a < b ∨ a = b ∧ r < s)
  | [], [], r, s, _ => by simp
  | x :: a, y :: b, r, s, same => by
    have rest := append_lt_append_iff (r := r) (s := s) (Nat.succ.inj same)
    rw [cons_append, cons_append, cons_lt_cons_iff, cons_lt_cons_iff, rest, List.cons.injEq]
    tauto

theorem tagged_lt_iff (tag : String) {m n : Nat} (small : m < 2 ^ 64) (small' : n < 2 ^ 64) :
    tag ++ String.ofList (digits 16 16 m) < tag ++ String.ofList (digits 16 16 n) ↔ m < n := by
  rw [append_lt_append_left, lt_iff_toList_lt, toList_ofList, toList_ofList]
  exact digits_lt_digits_iff (by decide) (by simpa using small) (by simpa using small')

theorem tagged_inj (tag : String) {m n : Nat} (small : m < 2 ^ 64) (small' : n < 2 ^ 64)
    (same : tag ++ String.ofList (digits 16 16 m) = tag ++ String.ofList (digits 16 16 n)) :
    m = n := by
  obtain less | rfl | more := lt_trichotomy m n
  · exact absurd ((tagged_lt_iff tag small small').mpr less) (same ▸ lt_irrefl _)
  · rfl
  · exact absurd ((tagged_lt_iff tag small' small).mpr more) (same ▸ lt_irrefl _)

end Keys

end Peryx
