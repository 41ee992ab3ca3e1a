import Mathlib

/-!
# Serial-numbered logs

An append-only log hands out consecutive serials, and may since have dropped
its oldest records. The structure carries what makes it a log: serials rise,
and none is beyond the last one handed out.
-/

namespace Peryx

open List

universe u v

/-- A log whose last handed-out serial is `serial`. -/
@[ext]
structure SerialLog (α : Type u) where
  serial : Nat
  records : List (Nat × α)
  sorted : records.Pairwise (·.1 < ·.1)
  bounded : ∀ r ∈ records, r.1 ≤ serial

namespace SerialLog

variable {α : Type u}

/-- A log that stands at `serial` and holds no record. -/
def standingAt (serial : Nat) : SerialLog α where
  serial := serial
  records := []
  sorted := List.Pairwise.nil
  bounded := by simp

def empty : SerialLog α :=
  standingAt 0

/-- A record is appended under the next serial. -/
def push (log : SerialLog α) (a : α) : SerialLog α where
  serial := log.serial + 1
  records := log.records ++ [(log.serial + 1, a)]
  sorted := by
    refine pairwise_append.mpr ⟨log.sorted, pairwise_singleton _ _, ?_⟩
    intro r hr s hs
    have := log.bounded r hr
    rw [mem_singleton.mp hs]
    exact Nat.lt_succ_of_le this
  bounded := by
    intro r hr
    rcases mem_append.mp hr with old | new
    · exact (log.bounded r old).trans (Nat.le_succ _)
    · rw [mem_singleton.mp new]

def pushAll (log : SerialLog α) (as : List α) : SerialLog α :=
  as.foldl push log

/-- The records past a serial. -/
def after (log : SerialLog α) (n : Nat) : List (Nat × α) :=
  log.records.filter (n < ·.1)

/-- The records up to a serial. -/
def upTo (log : SerialLog α) (n : Nat) : List (Nat × α) :=
  log.records.filter (·.1 ≤ n)

def first (log : SerialLog α) : Option Nat :=
  log.records.head?.map (·.1)

/-- The log without some of its records; its serial stays. -/
def discard (log : SerialLog α) (serials : List Nat) : SerialLog α where
  serial := log.serial
  records := log.records.filter (·.1 ∉ serials)
  sorted := log.sorted.sublist filter_sublist
  bounded r hr := log.bounded r (mem_of_mem_filter hr)

/-- Consecutive serials from `n` on. -/
def numbered : Nat → List α → List (Nat × α)
  | _, [] => []
  | n, a :: as => (n, a) :: numbered (n + 1) as

/-! ## Appending -/

theorem map_fst_numbered (n : Nat) (as : List α) :
    (numbered n as).map Prod.fst = List.range' n as.length := by
  induction as generalizing n with
  | nil => rfl
  | cons a as ih => simp [numbered, ih, range'_succ]

@[simp] theorem map_snd_numbered (n : Nat) (as : List α) :
    (numbered n as).map Prod.snd = as := by
  induction as generalizing n with
  | nil => rfl
  | cons a as ih => simp [numbered, ih]

@[simp] theorem serial_pushAll (log : SerialLog α) (as : List α) :
    (log.pushAll as).serial = log.serial + as.length := by
  induction as generalizing log with
  | nil => rfl
  | cons a as ih =>
    show ((log.push a).pushAll as).serial = log.serial + (as.length + 1)
    rw [ih]
    show log.serial + 1 + as.length = log.serial + (as.length + 1)
    omega

/-- What is appended is numbered on. -/
@[simp] theorem records_pushAll (log : SerialLog α) (as : List α) :
    (log.pushAll as).records = log.records ++ numbered (log.serial + 1) as := by
  induction as generalizing log with
  | nil => simp [pushAll, numbered]
  | cons a as ih =>
    show ((log.push a).pushAll as).records = _
    rw [ih]
    simp [push, numbered]

/-! ## Whole logs -/

/-- Nothing was discarded. -/
def Whole (log : SerialLog α) : Prop :=
  log.records.map Prod.fst = List.range' 1 log.serial

theorem whole_empty : (empty : SerialLog α).Whole := rfl

variable {log : SerialLog α} {n s : Nat} {l : List (Nat × α)}

theorem Whole.pushAll (h : log.Whole) (as : List α) :
    (log.pushAll as).Whole := by
  have joined : List.range' 1 log.serial ++ List.range' (log.serial + 1) as.length =
      List.range' 1 (log.serial + as.length) := by
    rw [Nat.add_comm log.serial 1, range'_append_1]
  rw [Whole, records_pushAll, serial_pushAll, map_append, map_fst_numbered, h, joined]

theorem Whole.mem_serials (h : log.Whole) :
    (∃ record ∈ log.records, record.1 = n) ↔ 1 ≤ n ∧ n ≤ log.serial := by
  have serials : n ∈ log.records.map Prod.fst ↔ n ∈ List.range' 1 log.serial := by rw [h]
  rw [mem_map, mem_range'_1] at serials
  rw [serials]
  omega

theorem Whole.length (h : log.Whole) :
    log.records.length = log.serial := by
  have := congrArg List.length h
  simpa using this

/-- Of consecutive serials, those above `n` are what is left once those up to it are
taken. -/
theorem filter_consecutive {β : Type v} (key : β → Nat) {l : List β}
    (h : l.map key = List.range' s l.length) (n : Nat) :
    l.filter (n < key ·) = l.drop (n + 1 - s) ∧ l.filter (key · ≤ n) = l.take (n + 1 - s) := by
  induction l generalizing s with
  | nil => simp
  | cons r l ih =>
    obtain ⟨head, tail⟩ := List.cons.inj (h.trans range'_succ)
    obtain ⟨dropped, taken⟩ := ih tail
    by_cases later : n < key r
    · -- the whole stretch is later: nothing is taken from it or its tail
      have none : n + 1 - s = 0 := by omega
      have rest : n + 1 - (s + 1) = 0 := by omega
      rw [rest] at dropped taken
      simp [later, none, dropped, taken]
    · have more : n + 1 - s = (n + 1 - (s + 1)) + 1 := by omega
      simp [later, Nat.le_of_not_lt later, more, dropped, taken]

/-- In a whole log serials are positions. -/
theorem Whole.after (h : log.Whole) (n : Nat) :
    log.after n = log.records.drop n := by
  have consecutive : log.records.map Prod.fst = List.range' 1 log.records.length := by
    rw [h.length, h]
  rw [SerialLog.after, (filter_consecutive Prod.fst consecutive n).1, Nat.add_sub_cancel]

theorem Whole.upTo (h : log.Whole) (n : Nat) :
    log.upTo n = log.records.take n := by
  have consecutive : log.records.map Prod.fst = List.range' 1 log.records.length := by
    rw [h.length, h]
  rw [SerialLog.upTo, (filter_consecutive Prod.fst consecutive n).2, Nat.add_sub_cancel]

theorem Whole.upTo_pushAll (h : log.Whole) (as : List α) (n : Nat) :
    ((log.pushAll as).upTo n).map Prod.snd =
      (log.upTo n).map Prod.snd ++ as.take (n - log.serial) := by
  rw [(h.pushAll as).upTo, h.upTo, records_pushAll, take_append, map_append, h.length,
    map_take, map_take, map_snd_numbered]

theorem Whole.upTo_pushAll_of_le (h : log.Whole) (as : List α)
    (le : n ≤ log.serial) : (log.pushAll as).upTo n = log.upTo n := by
  rw [(h.pushAll as).upTo, h.upTo, records_pushAll]
  refine take_append_of_le_length ?_
  rw [h.length]
  exact le

/-- What lies past a serial only grows. -/
theorem after_pushAll (log : SerialLog α) (as : List α) (n : Nat) :
    log.after n <+: (log.pushAll as).after n := by
  rw [after, after, records_pushAll, filter_append]
  exact prefix_append _ _

theorem after_of_le (log : SerialLog α) {m : Nat} (le : m ≤ n) :
    log.after n = (log.after m).filter (n < ·.1) := by
  rw [after, after, filter_filter]
  refine filter_congr fun r _ => ?_
  simp only [decide_eq_decide, ← Bool.decide_and]
  omega

@[simp] theorem after_serial (log : SerialLog α) : log.after log.serial = [] := by
  refine filter_eq_nil_iff.mpr fun r hr => ?_
  simpa using log.bounded r hr

theorem after_serial_pushAll (log : SerialLog α) (as : List α) :
    (log.pushAll as).after log.serial = numbered (log.serial + 1) as := by
  have later : (numbered (log.serial + 1) as).filter (log.serial < ·.1) =
      numbered (log.serial + 1) as := by
    refine filter_eq_self.mpr fun r hr => ?_
    have serial : r.1 ∈ List.range' (log.serial + 1) as.length :=
      map_fst_numbered _ as ▸ mem_map_of_mem hr
    rw [mem_range'_1] at serial
    simpa using serial.1
  rw [after, records_pushAll, filter_append, later]
  exact congrArg (· ++ _) log.after_serial

/-- Logs that agree past a serial go on agreeing. -/
theorem after_pushAll_congr {log' : SerialLog α} (serial : log.serial = log'.serial)
    (same : log.after n = log'.after n) (as : List α) :
    (log.pushAll as).after n = (log'.pushAll as).after n := by
  unfold after at same ⊢
  rw [records_pushAll, records_pushAll, filter_append, filter_append, same, serial]

/-- Discarding up to a serial leaves what lies past it. -/
theorem after_discard (log : SerialLog α) {serials : List Nat}
    (upTo : ∀ serial ∈ serials, serial ≤ n) : (log.discard serials).after n = log.after n := by
  rw [after, after, discard, filter_filter]
  refine filter_congr fun r _ => ?_
  by_cases later : n < r.1
  · have kept : r.1 ∉ serials := fun hr => absurd (upTo r.1 hr) (by omega)
    simp [later, kept]
  · simp [later]

theorem Whole.upTo_append_after (h : log.Whole) (n : Nat) :
    log.upTo n ++ log.after n = log.records := by
  rw [h.upTo, h.after, take_append_drop]

theorem numbered_map_snd
    (h : l.map Prod.fst = List.range' s l.length) : numbered s (l.map Prod.snd) = l := by
  induction l generalizing s with
  | nil => rfl
  | cons r l ih =>
    obtain ⟨head, tail⟩ := List.cons.inj (h.trans range'_succ)
    show (s, r.2) :: numbered (s + 1) (l.map Prod.snd) = r :: l
    rw [ih tail, ← head]

/-- The serials of a stretch run without a gap. -/
theorem Whole.stretch (h : log.Whole)
    (cut : l <+: log.after n) : l.map Prod.fst = List.range' (n + 1) l.length := by
  rw [h.after] at cut
  have short := cut.length_le
  rw [length_drop, h.length] at short
  have serials := prefix_iff_eq_take.mp (cut.map Prod.fst)
  rw [map_drop, h, drop_range', length_map, take_range'_of_length_ge short] at serials
  rw [serials, Nat.mul_one, Nat.add_comm 1 n]

theorem Whole.map_fst_upTo (h : log.Whole) (le : n ≤ log.serial) :
    (log.upTo n).map Prod.fst = List.range' 1 n := by
  have cut : log.upTo n <+: log.after 0 := by
    rw [h.upTo, h.after]
    exact take_prefix _ _
  rw [h.stretch cut, h.upTo, length_take, h.length, Nat.min_eq_left le]

/-- A stretch takes the log as far as it is long. -/
theorem Whole.upTo_append (h : log.Whole)
    (cut : l <+: log.after n) : log.upTo n ++ l = log.upTo (n + l.length) := by
  rw [h.upTo, h.upTo, take_add]
  rw [h.after] at cut
  rw [← prefix_iff_eq_take.mp cut]

end SerialLog

end Peryx
