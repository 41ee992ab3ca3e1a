import Peryx.Lib.TableIndex
import Peryx.Webhook.Outbox

/-!
# The order of the webhook queue

The keys of the table by due time are ordered by the time, as a signed number,
and then by the id (`dueKey_lt_iff`), and the time is read back from them. So a
scan from the front meets the deliveries in the order they are due, and stops at
the first that is not (`scan_eq`).
-/

namespace Peryx.Webhook

open List String

/-! ## Keys -/

theorem biased_lt (t : Int64) : (biased t).toNat < 10 ^ 20 :=
  lt_trans (biased t).toNat_lt (by decide)

variable {t u : Int64}

theorem biased_lt_iff : (biased t).toNat < (biased u).toNat ↔ t < u := by
  have first := toNat_biased t
  have second := toNat_biased u
  rw [Int64.lt_iff_toInt_lt]
  omega

theorem biased_inj : (biased t).toNat = (biased u).toNat ↔ t = u := by
  refine ⟨fun is => ?_, fun is => by rw [is]⟩
  have first := toNat_biased t
  have second := toNat_biased u
  exact Int64.toInt_inj.mp (by omega)

theorem toList_dueKey (t : Int64) (id : String) :
    (dueKey t id).toList = digits 10 20 (biased t).toNat ++ '/' :: id.toList := by
  rw [dueKey, toList_append, toList_append, toList_ofList, List.append_assoc]
  rfl

/-- Keys are ordered by time, then by identifier. -/
theorem dueKey_lt_iff {i j : String} :
    dueKey t i < dueKey u j ↔ t < u ∨ t = u ∧ i < j := by
  rw [lt_iff_toList_lt, toList_dueKey, toList_dueKey,
    Keys.append_lt_append_iff (by rw [length_digits, length_digits]),
    digits_lt_digits_iff (by decide) (biased_lt t) (biased_lt u), biased_lt_iff,
    digits_inj (by decide) (biased_lt t) (biased_lt u), biased_inj, cons_lt_cons_iff,
    ← lt_iff_toList_lt]
  simp

theorem dueKey_inj {i j : String} (same : dueKey t i = dueKey u j) :
    t = u ∧ i = j := by
  have text := congrArg String.toList same
  rw [toList_dueKey, toList_dueKey] at text
  obtain ⟨time, rest⟩ := append_inj text (by rw [length_digits, length_digits])
  rw [digits_inj (by decide) (biased_lt t) (biased_lt u), biased_inj] at time
  exact ⟨time, toList_injective (List.cons.inj rest).2⟩

theorem dueKeyTime_dueKey (t : Int64) (id : String) : dueKeyTime (dueKey t id) = some t := by
  have clear : '/' ∉ digits 10 20 (biased t).toNat := by
    intro mem
    obtain ⟨d, digit, is⟩ := mem_digits (biased_lt t) mem
    have none : ∀ d < 10, '/' ≠ Nat.digitChar d := by decide
    exact none d digit is
  have small : (biased t).toNat ≤ Nat.u64Max := Nat.le_pred_of_lt (biased t).toNat_lt
  have back : biased t ^^^ ((1 : UInt64) <<< 63) = t.toUInt64 := by
    rw [biased, UInt64.xor_assoc, UInt64.xor_self, UInt64.xor_zero]
  rw [dueKeyTime, toList_dueKey, splitOnce_append clear]
  change (parseU64 (digits 10 20 (biased t).toNat)).bind _ = _
  rw [parseU64_digits (by decide) (biased_lt t) small, Option.bind_some, UInt64.ofNat_toNat, back]
  rfl

/-! ## The scan -/

/-- Whose turn it is: one delivery at a time for each of these. -/
def DeliveryRecord.key (record : DeliveryRecord) : String × String :=
  (record.index, record.target)

/-- Due earlier, or at one time with a smaller identifier. -/
def Before (r s : DeliveryRecord) : Prop :=
  ∃ t u, r.nextAttemptAtUnix = some t ∧ s.nextAttemptAtUnix = some u ∧ (t < u ∨ t = u ∧ r.id < s.id)

/-- Due by now, with a key that is not excluded. -/
def eligible (now : Int64) (excluded : List (String × String)) (record : DeliveryRecord) : Bool :=
  record.nextAttemptAtUnix.any (· ≤ now) && decide (record.key ∉ excluded)

def firsts : List (String × String) → List DeliveryRecord → List DeliveryRecord
  | _, [] => []
  | seen, record :: rest =>
    if record.key ∈ seen then firsts seen rest else record :: firsts (record.key :: seen) rest

namespace WebhookTables

def dueEntry (id : String) (record : DeliveryRecord) : Option (String × String) :=
  record.nextAttemptAtUnix.map fun next => (dueKey next id, id)

variable {deliveries : BTreeMap String DeliveryRecord} {now : Int64} {limit : Nat}
  {excluded : List (String × String)}

def Sound (deliveries : BTreeMap String DeliveryRecord) (row : String × String) : Prop :=
  ∃ record next, deliveries[row.2]? = some record ∧ record.nextAttemptAtUnix = some next ∧
    row.1 = dueKey next row.2

def named (deliveries : BTreeMap String DeliveryRecord) (rows : List (String × String)) :
    List DeliveryRecord :=
  rows.filterMap fun row => deliveries[row.2]?

theorem eligible_of_later (late : now < t) {id : String} {rows : List (String × String)}
    (sound : ∀ row ∈ rows, Sound deliveries row) (later : ∀ row ∈ rows, dueKey t id < row.1) :
    (named deliveries rows).filter (eligible now excluded) = [] := by
  refine filter_eq_nil_iff.mpr fun record mem => ?_
  obtain ⟨row, at', found⟩ := mem_filterMap.mp mem
  obtain ⟨_, next, found', its, key⟩ := sound row at'
  cases found.symm.trans found'
  have behind := later row at'
  rw [key, dueKey_lt_iff] at behind
  have after : now < next := by
    obtain less | ⟨rfl, -⟩ := behind
    · exact Int64.lt_trans late less
    · exact late
  simp [eligible, its, after]

/-- **Run.** A scan finds the first eligible delivery of each key. -/
theorem scan_eq : ∀ {rows : List (String × String)} {found : Scan},
    (∀ row ∈ rows, Sound deliveries row) → (rows.Pairwise fun a b => a.1 < b.1) →
    found.records.length < limit →
    (scan now limit excluded deliveries rows found).records = found.records ++ (firsts found.seen
          ((named deliveries rows).filter (eligible now excluded))).take
            (limit - found.records.length) ∧
      (scan now limit excluded deliveries rows found).damagedDueKeys = found.damagedDueKeys
  | [], found, _, _, _ => ⟨by simp [scan, named, firsts], rfl⟩
  | (key, id) :: rest, found, sound, ordered, room => by
    obtain ⟨first, ordered'⟩ := pairwise_cons.mp ordered
    obtain ⟨record, next, stored, its, is⟩ := sound _ mem_cons_self
    dsimp only at is stored
    subst is
    have sound' : ∀ row ∈ rest, Sound deliveries row := fun row mem => sound row (.tail _ mem)
    have more : named deliveries ((dueKey next id, id) :: rest) =
        record :: named deliveries rest := by
      rw [named, filterMap_cons, stored]
      rfl
    unfold scan
    rw [dueKeyTime_dueKey, more]
    dsimp only
    by_cases late : now < next
    · have none : eligible now excluded record = false := by simp [eligible, its, late]
      rw [if_pos late, filter_cons_of_neg (by simp [none]), eligible_of_later late sound' first]
      exact ⟨by simp [firsts], rfl⟩
    rw [if_neg late, stored]
    dsimp only
    rw [if_neg (by simp [its])]
    change (if record.key ∈ excluded ∨ record.key ∈ found.seen then _ else _ : Scan).records = _ ∧
      (if record.key ∈ excluded ∨ record.key ∈ found.seen then _ else _ : Scan).damagedDueKeys = _
    have due : next ≤ now := Int64.not_lt.mp late
    by_cases out : record.key ∈ excluded
    · have none : eligible now excluded record = false := by simp [eligible, out]
      rw [if_pos (.inl out), filter_cons_of_neg (by simp [none])]
      exact scan_eq sound' ordered' room
    have here : eligible now excluded record = true := by simp [eligible, its, due, out]
    rw [filter_cons_of_pos here]
    by_cases seen : record.key ∈ found.seen
    · rw [if_pos (.inr seen), firsts, if_pos seen]
      exact scan_eq sound' ordered' room
    rw [if_neg (not_or.mpr ⟨out, seen⟩), firsts, if_neg seen]
    obtain ⟨left, is⟩ : ∃ left, limit - found.records.length = left + 1 :=
      Nat.exists_eq_add_one.mpr (by omega)
    rw [is, take_succ_cons]
    split
    · next full =>
      rw [List.length_append, List.length_singleton] at full
      have none : left = 0 := by omega
      rw [none, take_zero]
      exact ⟨rfl, rfl⟩
    · next more' =>
      rw [List.length_append, List.length_singleton] at more'
      let found' : Scan :=
        { found with records := found.records ++ [record], seen := record.key :: found.seen }
      have room' : found'.records.length < limit := by
        rw [List.length_append, List.length_singleton]
        omega
      obtain ⟨records, clean⟩ := scan_eq sound' ordered' room'
      refine ⟨records.trans ?_, clean⟩
      rw [List.length_append, List.length_singleton, List.append_assoc, singleton_append]
      congr 3
      omega

end WebhookTables

end Peryx.Webhook
