import Peryx.Storage.OperationOutcome

/-!
# Intent accounting

Over every run of calls on the intents, finalized writes among them, the tables
of `meta/ingress_intent.rs` stay in step.

- `run_changes`: a call is a run of single changes.
- `Accounted.change`: usage, order and numbers after each of them.
- `intents_are_accounted`: the whole, over every run.
-/

namespace Peryx

open Machine BTreeMap List Option

variable {Bytes E : Type} {call : OperationCall Bytes E} {store : OperationStore Bytes} {R : Prop}

variable {A : Admission} {record : StagedIntent}

namespace IntentTables

/-! ## What calls do -/

/-- `counts` gives back what `record` holds. -/
def removed (tables : IntentTables) (key : String) (record : StagedIntent)
    (order : BTreeMap Nat String) : IntentTables :=
  { tables with
    intents := tables.intents.erase key
    counts := refundCapacity tables.counts record
    order }

/-- The sums an admission computes fit a `u64`. -/
structure Fits (tables : IntentTables) (admission : IntentAdmission) : Prop where
  records : (tables.readUsage admission.authority).records + 1 ≤ Nat.u64Max
  bytes : (tables.readUsage admission.authority).bytes + admission.size ≤ Nat.u64Max
  seq : tables.seq + 1 ≤ Nat.u64Max

/-- A condition on admissions, the tables and the limits they are made under. -/
abbrev Admission := IntentTables → IntentAdmission → IntentLimits → Prop

/-- One intent is admitted as `A` allows, moved, refused if `R`, or removed. -/
inductive Change (A : Admission) (R : Prop) (tables : IntentTables) : IntentTables → Prop where
  | admits {admission : IntentAdmission} {limits : IntentLimits} (now : Int64)
      (outcome : tables.stageOutcome admission limits = .admitted)
      (allowed : A tables admission limits) : Change A R tables (tables.admitIntent admission now)
  | settles {key : String} {record : StagedIntent} {phase : IntentPhase} (now : Int64)
      (found : tables.intents[key]? = some record) (forward : record.phase < phase) :
      Change A R tables (tables.settleIntent key record phase now)
  | refuses {key : String} {record : StagedIntent} (refusals : Nat) (allowed : R)
      (found : tables.intents[key]? = some record) :
      Change A R tables
        { tables with intents := tables.intents.insert key { record with refusals } }
  | removes {key : String} {record : StagedIntent} {order : BTreeMap Nat String}
      (found : tables.intents[key]? = some record)
      (left : order = tables.order.erase record.seq ∨
        (record.phase ≠ .pending ∧ order = tables.order)) :
      Change A R tables (tables.removed key record order)

abbrev Changes (A : Admission) (R : Prop) : IntentTables → IntentTables → Prop :=
  Relation.ReflTransGen (Change A R)

variable {tables tables' : IntentTables}

/-- **Run.** Changes of distinct stored intents, one after another. -/
theorem changes_foldl (f : IntentTables → String × StagedIntent → IntentTables)
    (Q : StagedIntent → Prop)
    (step : ∀ {tables : IntentTables} {entry}, tables.intents[entry.1]? = some entry.2 →
      Q entry.2 → Change A R tables (f tables entry) ∧
        ∀ key, entry.1 ≠ key → (f tables entry).intents[key]? = tables.intents[key]?) :
    ∀ (entries : List (String × StagedIntent)) {tables : IntentTables},
      (entries.Pairwise fun a b => a.1 ≠ b.1) →
      (∀ entry ∈ entries, tables.intents[entry.1]? = some entry.2 ∧ Q entry.2) →
        Changes A R tables (entries.foldl f tables)
  | [], _, _, _ => .refl
  | entry :: entries, tables, distinct, stored => by
    obtain ⟨others, distinct⟩ := pairwise_cons.mp distinct
    obtain ⟨found, meets⟩ := stored entry mem_cons_self
    obtain ⟨change, frame⟩ := step found meets
    refine .head change (changes_foldl f Q step entries distinct fun other mem => ?_)
    rw [frame _ (others other mem)]
    exact stored other (mem_cons_of_mem entry mem)

theorem picked (tables : IntentTables) (p : String × StagedIntent → Bool) (limit : Nat) :
    let entries := (tables.intents.toList.filter p).take limit
    (entries.Pairwise fun a b => a.1 ≠ b.1) ∧
      ∀ entry ∈ entries, tables.intents[entry.1]? = some entry.2 ∧ p entry = true := by
  intro entries
  have sub : entries.Sublist tables.intents.toList :=
    (take_sublist _ _).trans filter_sublist
  constructor
  · refine (Std.ExtTreeMap.ordered_keys_toList.sublist sub).imp fun {a b} lt same => ?_
    have self : compare b.1 b.1 = .eq := Std.ReflCmp.compare_self
    rw [same, self] at lt
    cases lt
  · intro entry mem
    refine ⟨Std.ExtTreeMap.mem_toList_iff_getElem?_eq_some.mp (sub.subset mem), ?_⟩
    exact (mem_filter.mp (mem_of_mem_take mem)).2

end IntentTables

/-- A stage call that admits is allowed by `A`, and a refusal by `R`. -/
def IntentCall.Meets (A : IntentTables.Admission) (R : Prop) (tables : IntentTables) :
    IntentCall → Prop
  | stage admission limits _ =>
    tables.stageOutcome admission limits = .admitted → A tables admission limits
  | refuse _ => R
  | _ => True

namespace IntentTables

variable {tables tables' : IntentTables}

theorem pending_lt {a b : IntentPhase} (pending : a = .pending) (other : b ≠ .pending) : a < b := by
  subst pending
  cases b with
  | pending => exact absurd rfl other
  | admitted => decide
  | expired => decide

/-- A call is a sequence of changes. -/
theorem run_changes {call : IntentCall} (meets : call.Meets A R tables) :
    Changes A R tables (tables.run call).1 := by
  cases call with
  | stage admission limits now =>
    show Changes A R tables (if tables.stageOutcome admission limits = .admitted then
      tables.admitIntent admission now else tables)
    by_cases outcome : tables.stageOutcome admission limits = .admitted
    · rw [if_pos outcome]
      exact .single (.admits now outcome (meets outcome))
    · rw [if_neg outcome]
  | advance key phase now =>
    show Changes A R tables (tables.advanceIntent key phase now).1
    unfold advanceIntent
    split
    next record found =>
      split
      next forward => exact .single (.settles now found forward)
      next => exact .refl
    next => exact .refl
  | refuse key =>
    show Changes A R tables (tables.refuseIntent key).1
    unfold refuseIntent
    split
    next record found =>
      split
      next => exact .single (.refuses _ meets found)
      next => exact .refl
    next => exact .refl
  | release key =>
    show Changes A R tables (tables.releaseIntent key).1
    unfold releaseIntent
    split
    next record found =>
      split
      next => exact .single (.removes found (.inl rfl))
      next => exact .refl
    next => exact .refl
  | expire now deadlineSecs minRefusals limit =>
    obtain ⟨distinct, stored⟩ := tables.picked (fun row => row.2.phase = .pending ∧
      row.2.refusals ≥ minRefusals ∧ now ≥ row.2.updatedAtUnix + deadlineSecs) limit
    refine changes_foldl _ (fun record => record.phase = .pending) ?_ _ distinct ?_
    · rintro tables ⟨key, record⟩ found pending
      refine ⟨.settles now found (pending_lt pending (by simp)), fun other ne => ?_⟩
      exact get_insert_of_ne _ _ ne
    · rintro ⟨key, record⟩ mem
      obtain ⟨found, chosen⟩ := stored (key, record) mem
      exact ⟨found, (of_decide_eq_true chosen).1⟩
  | prune now retentionSecs limit =>
    obtain ⟨distinct, stored⟩ := tables.picked (fun row =>
      (row.2.phase = .admitted ∨ row.2.phase = .expired) ∧
        now ≥ row.2.updatedAtUnix + retentionSecs) limit
    refine changes_foldl prune (fun record => record.phase ≠ .pending) ?_ _ distinct ?_
    · rintro tables ⟨key, record⟩ found settled
      refine ⟨.removes found (.inr ⟨settled, rfl⟩), fun other ne => ?_⟩
      exact get_erase_of_ne _ ne
    · rintro ⟨key, record⟩ mem
      obtain ⟨found, chosen⟩ := stored (key, record) mem
      refine ⟨found, fun pending : record.phase = .pending => ?_⟩
      obtain admitted | expired := (of_decide_eq_true chosen).1
      · cases pending.symm.trans admitted
      · cases pending.symm.trans expired

/-! ## Usage and order -/

def held (entries : List (String × StagedIntent)) (authority : String) :
    List (String × StagedIntent) :=
  entries.filter fun entry => entry.2.authority = authority

/-- What an authority's intents come to. -/
def usageOf (entries : List (String × StagedIntent)) (authority : String) : IntentUsage where
  records := (held entries authority).length
  bytes := ((held entries authority).map fun entry => entry.2.size).sum

theorem usageOf_perm {entries entries' : List (String × StagedIntent)}
    (perm : entries.Perm entries') : usageOf entries = usageOf entries' := by
  funext authority
  have held := perm.filter fun entry => decide (entry.2.authority = authority)
  exact IntentUsage.ext held.length_eq (held.map _).sum_eq

theorem usageOf_cons (key : String) (record : StagedIntent)
    (entries : List (String × StagedIntent)) (authority : String) :
    usageOf ((key, record) :: entries) authority =
      if record.authority = authority then
        { records := (usageOf entries authority).records + 1
          bytes := (usageOf entries authority).bytes + record.size }
      else usageOf entries authority := by
  by_cases own : record.authority = authority
  · have more : held ((key, record) :: entries) authority =
        (key, record) :: held entries authority :=
      filter_cons_of_pos (decide_eq_true own)
    rw [if_pos own, usageOf, more]
    exact IntentUsage.ext rfl (Nat.add_comm ..)
  · have same : held ((key, record) :: entries) authority = held entries authority :=
      filter_cons_of_neg (by simpa using own)
    rw [if_neg own, usageOf, same]
    rfl

theorem usageOf_bytes_eq_zero {entries : List (String × StagedIntent)} {authority : String}
    (none : (usageOf entries authority).records = 0) : (usageOf entries authority).bytes = 0 := by
  unfold usageOf at none ⊢
  rw [length_eq_zero_iff.mp none]
  rfl

/-- Usage and indexes are what the intents make them. -/
structure Accounted (tables : IntentTables) : Prop where
  usage : ∀ authority, tables.readUsage authority = usageOf tables.intents.toList authority
  order : ∀ (seq : Nat) (key : String), tables.order[seq]? = some key ↔
    ∃ record, tables.intents[key]? = some record ∧ record.phase = .pending ∧ record.seq = seq
  below : ∀ (key : String) (record : StagedIntent), tables.intents[key]? = some record →
    record.seq < tables.seq
  distinct : ∀ (key key' : String) (record record' : StagedIntent),
    tables.intents[key]? = some record → tables.intents[key']? = some record' →
      record.seq = record'.seq → key = key'

variable {admission : IntentAdmission}

theorem stageOutcome_admitted {limits : IntentLimits}
    (outcome : tables.stageOutcome admission limits = .admitted) :
    tables.intents[admission.key]? = none ∧
      (tables.readUsage admission.authority).records.u64WrappingAdd 1 ≤ limits.maxRecords ∧
      (tables.readUsage admission.authority).bytes.u64SaturatingAdd admission.size ≤
        limits.maxBytes := by
  unfold stageOutcome at outcome
  split at outcome
  next => split at outcome <;> cases outcome
  next absent =>
    dsimp only at outcome
    split at outcome
    next => cases outcome
    next records =>
      split at outcome
      next => cases outcome
      next bytes => exact ⟨absent, Nat.le_of_not_lt records, Nat.le_of_not_lt bytes⟩

theorem charged_of_le {usage : IntentUsage} {size : Nat} (records : usage.records + 1 ≤ Nat.u64Max)
    (bytes : usage.bytes + size ≤ Nat.u64Max) :
    charged usage size = { records := usage.records + 1, bytes := usage.bytes + size } :=
  IntentUsage.ext (Nat.u64WrappingAdd_of_le records) (Nat.u64WrappingAdd_of_le bytes)

/-- What a change of the intent under one key has to keep: the usage, the order of the
other intents, and a sequence number that no other intent has. -/
theorem Accounted.edit (accounted : tables.Accounted) (key : String)
    (usage : ∀ authority, tables'.readUsage authority = usageOf tables'.intents.toList authority)
    (others : ∀ k, key ≠ k → tables'.intents[k]? = tables.intents[k]?)
    (order : ∀ (s : Nat) (k : String), tables'.order[s]? = some k ↔
      key ≠ k ∧ tables.order[s]? = some k ∨ key = k ∧
        ∃ record, tables'.intents[key]? = some record ∧ record.phase = .pending ∧ record.seq = s)
    (grows : tables.seq ≤ tables'.seq)
    (own : ∀ record', tables'.intents[key]? = some record' → record'.seq < tables'.seq ∧
      ∀ k record, key ≠ k → tables.intents[k]? = some record → record.seq ≠ record'.seq) :
    tables'.Accounted := by
  refine ⟨usage, fun s k => ?_, fun k r stored => ?_, fun k k' r r' stored stored' same => ?_⟩
  · rw [order]
    by_cases here : key = k
    · subst here
      simp
    · simp [here, others k here, accounted.order]
  · by_cases here : key = k
    · exact (own r (here ▸ stored)).1
    · exact (accounted.below k r (others k here ▸ stored)).trans_le grows
  · by_cases here : key = k <;> by_cases here' : key = k'
    · exact here.symm.trans here'
    · exact absurd same.symm ((own r (here ▸ stored)).2 k' r' here' (others k' here' ▸ stored'))
    · exact absurd same ((own r' (here' ▸ stored')).2 k r here (others k here ▸ stored))
    · exact accounted.distinct k k' r r' (others k here ▸ stored) (others k' here' ▸ stored') same

theorem Accounted.admits (accounted : tables.Accounted)
    (absent : tables.intents[admission.key]? = none) (fits : tables.Fits admission) (now : Int64) :
    (tables.admitIntent admission now).Accounted := by
  have next : (tables.admitIntent admission now).seq = tables.seq + 1 :=
    Nat.u64WrappingAdd_of_le fits.seq
  have stored : (tables.admitIntent admission now).intents[admission.key]? =
      some (tables.admittedRecord admission now) := get_insert_self ..
  refine accounted.edit admission.key (fun authority => ?_)
    (fun k other => get_insert_of_ne _ _ other) (fun s k => ?_) (next ▸ Nat.le_succ _)
    fun record' admitted => ?_
  · have entries := toList_insert_perm tables.intents admission.key
      (tables.admittedRecord admission now)
    rw [erase_of_absent absent] at entries
    show (tables.counts.insert _ _).getD authority {} = usageOf (tables.intents.insert _ _).toList _
    rw [usageOf_perm entries, usageOf_cons, getD_insert, charged_of_le fits.records fits.bytes]
    by_cases own : admission.authority = authority
    · rw [if_pos own, ← own, accounted.usage]
      exact (if_pos rfl).symm
    · rw [if_neg own]
      exact (accounted.usage authority).trans (if_neg own).symm
  · -- neither the key nor the sequence number was listed before
    have listed : tables.order[s]? = some k → admission.key ≠ k ∧ tables.seq ≠ s := by
      rintro listed
      obtain ⟨record, found, -, rfl⟩ := (accounted.order _ _).mp listed
      refine ⟨?_, (Nat.ne_of_lt (accounted.below k record found)).symm⟩
      rintro rfl
      cases absent.symm.trans found
    show (tables.order.insert tables.seq admission.key)[s]? = some k ↔ _
    rw [get_insert]
    by_cases own : tables.seq = s
    · have := fun now => (listed now).2 own
      simp_all [admittedRecord]
    · rw [if_neg own]
      have := fun now => (listed now).1
      simp_all [admittedRecord]
  · cases stored.symm.trans admitted
    exact ⟨next ▸ Nat.lt_succ_self _, fun k record _ found =>
      Nat.ne_of_lt (accounted.below k record found)⟩

section Stored

variable {key : String}

theorem Accounted.order_erase (accounted : tables.Accounted)
    (found : tables.intents[key]? = some record) (s : Nat) (k : String) :
    (tables.order.erase record.seq)[s]? = some k ↔ key ≠ k ∧ tables.order[s]? = some k := by
  have same : tables.order[s]? = some k → (record.seq = s ↔ key = k) := by
    intro listed
    obtain ⟨r, stored, -, rfl⟩ := (accounted.order _ _).mp listed
    refine ⟨accounted.distinct _ _ _ _ found stored, ?_⟩
    rintro rfl
    cases stored.symm.trans found
    rfl
  grind

variable {order : BTreeMap Nat String}

theorem Accounted.rewrites (accounted : tables.Accounted)
    (found : tables.intents[key]? = some record) (record' : StagedIntent)
    (authority : record'.authority = record.authority) (size : record'.size = record.size)
    (seq : record'.seq = record.seq)
    (left : (record'.phase ≠ .pending ∧ order = tables.order.erase record.seq) ∨
      (record'.phase = record.phase ∧ order = tables.order)) :
    Accounted { tables with intents := tables.intents.insert key record', order } := by
  refine accounted.edit key (fun a => ?_)
    (fun k other => get_insert_of_ne _ _ other) (fun s k => ?_) le_rfl fun r stored => ?_
  · show tables.readUsage a = usageOf (tables.intents.insert key record').toList a
    rw [accounted.usage, usageOf_perm (toList_erase_perm found),
      usageOf_perm (toList_insert_perm ..), usageOf_cons, usageOf_cons, authority, size]
  · rw [get_insert_self]
    obtain ⟨settled, rfl⟩ | ⟨same, rfl⟩ := left
    · rw [accounted.order_erase found]
      simp [settled]
    · by_cases here : key = k
      · subst here
        simp [accounted.order, found, same, seq]
      · simp [here]
  · cases (get_insert_self ..).symm.trans stored
    rw [seq]
    exact ⟨accounted.below _ _ found, fun k r other stored same =>
      other (accounted.distinct _ _ _ _ found stored same.symm)⟩

theorem getD_refundCapacity {counts : BTreeMap String IntentUsage} {rest : IntentUsage}
    (held : counts.getD record.authority {} =
      { records := rest.records + 1, bytes := rest.bytes + record.size })
    (empty : rest.records = 0 → rest.bytes = 0) (authority : String) :
    (refundCapacity counts record).getD authority {} =
      if record.authority = authority then rest else counts.getD authority {} := by
  unfold refundCapacity
  rw [held]
  simp only [Nat.add_sub_cancel]
  by_cases none : rest.records = 0
  · rw [if_pos none, getD_erase]
    have zero : rest = {} := IntentUsage.ext none (empty none)
    rw [zero]
  · rw [if_neg none, getD_insert]

theorem Accounted.removes (accounted : tables.Accounted)
    (found : tables.intents[key]? = some record)
    (left : order = tables.order.erase record.seq ∨
      (record.phase ≠ .pending ∧ order = tables.order)) :
    (tables.removed key record order).Accounted := by
  have gone : (tables.removed key record order).intents[key]? = none := get_erase_self ..
  refine accounted.edit key (fun a => ?_) (fun k other => get_erase_of_ne _ other)
    (fun s k => ?_) le_rfl fun r stored => by cases gone.symm.trans stored
  · have split := fun a => (accounted.usage a).trans
      (congrFun (usageOf_perm (toList_erase_perm found)) a)
    have own := split record.authority
    rw [usageOf_cons, if_pos rfl] at own
    show (refundCapacity tables.counts record).getD a {} = _
    rw [getD_refundCapacity own usageOf_bytes_eq_zero]
    by_cases same : record.authority = a
    · rw [if_pos same, same]
      rfl
    · rw [if_neg same]
      have other := split a
      rw [usageOf_cons, if_neg same] at other
      exact other
  · rw [gone]
    show order[s]? = some k ↔ _
    obtain rfl | ⟨settled, rfl⟩ := left
    · rw [accounted.order_erase found]
      simp
    · by_cases here : key = k
      · subst here
        simp [accounted.order, found, settled]
      · simp [here]

end Stored

theorem Accounted.change (accounted : tables.Accounted)
    (change : Change (fun tables admission _ => tables.Fits admission) R tables tables') :
    tables'.Accounted := by
  cases change with
  | admits now outcome fits => exact accounted.admits (stageOutcome_admitted outcome).1 fits now
  | @settles _ record phase now found forward =>
    have settled : phase ≠ .pending := by
      rintro rfl
      revert forward
      cases record.phase <;> decide
    exact accounted.rewrites found (settledRecord record phase now) rfl rfl rfl
      (.inl ⟨settled, rfl⟩)
  | @refuses _ record refusals _ found =>
    exact accounted.rewrites found { record with refusals } rfl rfl rfl (.inr ⟨rfl, rfl⟩)
  | removes found left => exact accounted.removes found left

theorem accounted_empty : Accounted {} := by
  constructor
  case usage =>
    intro authority
    rfl
  all_goals
    intros
    simp_all

theorem Accounted.changes (accounted : tables.Accounted)
    (changes : Changes (fun tables admission _ => tables.Fits admission) R tables tables') :
    tables'.Accounted := by
  induction changes with
  | refl => exact accounted
  | tail _ change ih => exact ih.change change

end IntentTables

/-! ## Forward only -/

theorem IntentPhase.le_refl (a : IntentPhase) : a ≤ a := by
  cases a <;> decide

theorem IntentPhase.le_trans {a b c : IntentPhase} : a ≤ b → b ≤ c → a ≤ c := by
  cases a <;> cases b <;> cases c <;> decide

theorem IntentPhase.le_of_lt {a b : IntentPhase} : a < b → a ≤ b := by
  cases a <;> cases b <;> decide

structure StagedIntent.Becomes (record record' : StagedIntent) : Prop where
  seq : record'.seq = record.seq
  phase : record.phase ≤ record'.phase
  authority : record'.authority = record.authority
  digest : record'.digest = record.digest
  size : record'.size = record.size
  payload : record'.payload = record.payload

namespace IntentTables

variable {tables tables' tables'' : IntentTables}

/-- Numbers only grow, and what is stored was stored already, or has a number
that was not given yet. -/
structure Follows (tables tables' : IntentTables) : Prop where
  seq : tables.seq ≤ tables'.seq
  intents : ∀ (key : String) (record' : StagedIntent), tables'.intents[key]? = some record' →
    tables.seq ≤ record'.seq ∨
      ∃ record, tables.intents[key]? = some record ∧ record.Becomes record'

theorem Follows.refl (tables : IntentTables) : Follows tables tables where
  seq := Nat.le_refl _
  intents _ record found :=
    .inr ⟨record, found, rfl, IntentPhase.le_refl _, rfl, rfl, rfl, rfl⟩

theorem Follows.trans (first : Follows tables tables') (second : Follows tables' tables'') :
    Follows tables tables'' where
  seq := first.seq.trans second.seq
  intents key record'' found := by
    obtain new | ⟨record', found, b⟩ := second.intents key record'' found
    · exact .inl (first.seq.trans new)
    obtain new | ⟨record, found, a⟩ := first.intents key record' found
    · exact .inl (b.seq ▸ new)
    · exact .inr ⟨record, found, b.seq.trans a.seq, IntentPhase.le_trans a.phase b.phase,
        b.authority.trans a.authority, b.digest.trans a.digest, b.size.trans a.size,
        b.payload.trans a.payload⟩

variable {key : String} {query : PendingIntents}

theorem follows_insert (found : tables.intents[key]? = some record) (record' : StagedIntent)
    (becomes : record.Becomes record') (order : BTreeMap Nat String) :
    Follows tables { tables with intents := tables.intents.insert key record', order } where
  seq := Nat.le_refl _
  intents k r stored := by
    obtain ⟨same, rfl⟩ | ⟨same, stored⟩ := of_get_insert stored
    · exact .inr ⟨record, same ▸ found, becomes⟩
    · exact (Follows.refl tables).intents k r stored

theorem Change.follows
    (change : Change (fun tables admission _ => tables.Fits admission) R tables tables') :
    Follows tables tables' := by
  cases change with
  | @admits admission _ now _ fits =>
    have next : (tables.admitIntent admission now).seq = tables.seq + 1 :=
      Nat.u64WrappingAdd_of_le fits.seq
    refine ⟨next ▸ Nat.le_succ _, fun key record found => ?_⟩
    obtain ⟨same, rfl⟩ | ⟨same, found⟩ := of_get_insert found
    · exact .inl (Nat.le_refl _)
    · exact (Follows.refl tables).intents key record found
  | @settles _ record phase now found forward =>
    exact follows_insert found (settledRecord record phase now)
      ⟨rfl, IntentPhase.le_of_lt forward, rfl, rfl, rfl, rfl⟩ _
  | @refuses _ record refusals _ found =>
    exact follows_insert found { record with refusals }
      ⟨rfl, IntentPhase.le_refl _, rfl, rfl, rfl, rfl⟩ _
  | @removes key _ _ found _ =>
    refine ⟨Nat.le_refl _, fun k r stored => ?_⟩
    obtain ⟨same, stored⟩ := of_get_erase stored
    exact (Follows.refl tables).intents k r stored

theorem Changes.follows
    (changes : Changes (fun tables admission _ => tables.Fits admission) R tables tables') :
    Follows tables tables' := by
  induction changes with
  | refl => exact .refl tables
  | tail _ change ih => exact ih.trans change.follows

theorem Follows.becomes (follows : Follows tables tables') (accounted : tables.Accounted)
    {key' : String} {record' : StagedIntent}
    (found : tables.intents[key]? = some record) (found' : tables'.intents[key']? = some record')
    (same : record'.seq = record.seq) : key = key' ∧ record.Becomes record' := by
  obtain new | ⟨stored, found₀, becomes⟩ := follows.intents key' record' found'
  · have below := accounted.below key record found
    omega
  · obtain rfl := accounted.distinct _ _ _ _ found found₀ (same.symm.trans becomes.seq)
    cases found.symm.trans found₀
    exact ⟨rfl, becomes⟩

/-! ## Limits and refusals -/

/-- No authority is over its limits. -/
def Within (limits : IntentLimits) (tables : IntentTables) : Prop :=
  ∀ authority, (tables.readUsage authority).records ≤ limits.maxRecords ∧
    (tables.readUsage authority).bytes ≤ limits.maxBytes

theorem refundCapacity_le (counts : BTreeMap String IntentUsage) (record : StagedIntent)
    (authority : String) :
    ((refundCapacity counts record).getD authority {}).records ≤
        (counts.getD authority {}).records ∧
      ((refundCapacity counts record).getD authority {}).bytes ≤
        (counts.getD authority {}).bytes := by
  unfold refundCapacity
  dsimp only
  by_cases own : record.authority = authority
  · split
    · rw [getD_erase, if_pos own]
      exact ⟨Nat.zero_le _, Nat.zero_le _⟩
    · rw [getD_insert, if_pos own, own]
      exact ⟨Nat.sub_le _ _, Nat.sub_le _ _⟩
  · split
    · rw [getD_erase, if_neg own]
      exact ⟨Nat.le_refl _, Nat.le_refl _⟩
    · rw [getD_insert, if_neg own]
      exact ⟨Nat.le_refl _, Nat.le_refl _⟩

/-- Below the maximum no sum of an admission within the limits overflows, so the
limits it was checked against hold of what it stores. -/
theorem Within.change {limits : IntentLimits} (within : Within limits tables)
    (records : limits.maxRecords < Nat.u64Max) (bytes : limits.maxBytes < Nat.u64Max)
    (change : Change (fun _ _ limits' => limits' = limits) R tables tables') :
    Within limits tables' := by
  cases change with
  | @admits admission _ now outcome under =>
    subst under
    obtain ⟨-, fewer, smaller⟩ := stageOutcome_admitted outcome
    have room : (tables.readUsage admission.authority).records + 1 ≤ Nat.u64Max :=
      Nat.lt_of_le_of_lt (within admission.authority).1 records
    have space : (tables.readUsage admission.authority).bytes + admission.size ≤ Nat.u64Max := by
      rw [Nat.u64SaturatingAdd] at smaller
      omega
    rw [Nat.u64WrappingAdd_of_le room] at fewer
    rw [Nat.u64SaturatingAdd, Nat.min_eq_left space] at smaller
    intro authority
    show ((tables.counts.insert _ _).getD authority {}).records ≤ _ ∧
      ((tables.counts.insert _ _).getD authority {}).bytes ≤ _
    rw [getD_insert, charged_of_le room space]
    by_cases own : admission.authority = authority
    · rw [if_pos own]
      exact ⟨fewer, smaller⟩
    · rw [if_neg own]
      exact within authority
  | settles => exact within
  | refuses => exact within
  | @removes _ record _ _ _ =>
    intro authority
    obtain ⟨fewer, smaller⟩ := refundCapacity_le tables.counts record authority
    exact ⟨fewer.trans (within authority).1, smaller.trans (within authority).2⟩

theorem Within.changes {limits : IntentLimits} (within : Within limits tables)
    (records : limits.maxRecords < Nat.u64Max) (bytes : limits.maxBytes < Nat.u64Max)
    (changes : Changes (fun _ _ limits' => limits' = limits) R tables tables') :
    Within limits tables' := by
  induction changes with
  | refl => exact within
  | tail _ change ih => exact ih.change records bytes change

/-- No intent was refused. -/
def Unrefused (tables : IntentTables) : Prop :=
  ∀ (key : String) (record : StagedIntent), tables.intents[key]? = some record →
    record.refusals = 0

theorem Unrefused.insert (unrefused : tables.Unrefused) (record : StagedIntent)
    (zero : record.refusals = 0) {k : String} {r : StagedIntent}
    (stored : (tables.intents.insert key record)[k]? = some r) : r.refusals = 0 := by
  obtain ⟨same, rfl⟩ | ⟨same, stored⟩ := of_get_insert stored
  · exact zero
  · exact unrefused k r stored

theorem Unrefused.changes (unrefused : tables.Unrefused)
    (changes : Changes A False tables tables') :
    tables'.Unrefused := by
  induction changes with
  | refl => exact unrefused
  | tail _ change ih =>
    cases change with
    | @admits admission _ now _ _ =>
      exact fun _ _ => ih.insert (admittedRecord _ admission now) rfl
    | @settles _ record phase now found _ =>
      exact fun _ _ => ih.insert (settledRecord record phase now)
        (show record.refusals = 0 from ih _ _ found)
    | refuses _ refused => exact refused.elim
    | @removes key _ _ _ _ =>
      intro k r stored
      obtain ⟨same, stored⟩ := of_get_erase stored
      exact ih k r stored

/-! ## Listing -/

/-- The intents a walk of the order index is to list: pending, after the cursor,
not refused too often, and of the authority. -/
structure Wanted (tables : IntentTables) (query : PendingIntents) (key : String)
    (record : StagedIntent) : Prop where
  found : tables.intents[key]? = some record
  pending : record.phase = .pending
  after : ∀ seq, query.afterSeq = some seq → seq < record.seq
  refusals : record.refusals < query.maxRefusals
  authority : ∀ authority, query.authority = some authority → record.authority = authority

def pendingOf (tables : IntentTables) (query : PendingIntents) : List (String × StagedIntent) :=
  (tables.order.rangeAfter query.afterSeq).filterMap (tables.listed query)

theorem listed_eq_some {entry : Nat × String} {row : String × StagedIntent} :
    tables.listed query entry = some row ↔
      entry.2 = row.1 ∧ tables.intents[row.1]? = some row.2 ∧
        row.2.refusals < query.maxRefusals ∧
        ∀ authority, query.authority = some authority → row.2.authority = authority := by
  obtain ⟨seq, key⟩ := entry
  obtain ⟨key', record⟩ := row
  unfold listed
  have named : ∀ record : StagedIntent, query.authority.all (· == record.authority) = true ↔
      ∀ authority, query.authority = some authority → record.authority = authority := by
    intro record
    cases query.authority with
    | none => simp
    | some authority => simp [eq_comm (a := authority)]
  dsimp only
  split
  next absent =>
    refine ⟨nofun, ?_⟩
    rintro ⟨rfl, found, -⟩
    rw [absent] at found
    cases found
  next stored found =>
    constructor
    · intro kept
      split at kept
      next wanted =>
        cases kept
        exact ⟨rfl, found, wanted.1, (named record).mp wanted.2⟩
      next => cases kept
    · rintro ⟨rfl, found', refusals, authority⟩
      cases found.symm.trans found'
      rw [if_pos ⟨refusals, (named record).mpr authority⟩]

section

variable (accounted : tables.Accounted)

include accounted

theorem Accounted.mem_pendingOf :
    (key, record) ∈ tables.pendingOf query ↔ tables.Wanted query key record := by
  have range : ∀ {seq : Nat} {key : String},
      (seq, key) ∈ tables.order.rangeAfter query.afterSeq ↔
        tables.order[seq]? = some key ∧ ∀ after, query.afterSeq = some after → after < seq := by
    intro seq key
    cases query.afterSeq with
    | none => simp [BTreeMap.rangeAfter, Std.ExtTreeMap.mem_toList_iff_getElem?_eq_some]
    | some after =>
      simp [BTreeMap.rangeAfter, Std.ExtTreeMap.mem_toList_iff_getElem?_eq_some,
        Nat.compare_eq_lt]
  rw [pendingOf, mem_filterMap]
  constructor
  · rintro ⟨⟨seq, key'⟩, entry, kept⟩
    obtain ⟨same, found, refusals, authority⟩ := listed_eq_some.mp kept
    obtain rfl : key' = key := same
    obtain ⟨listed, after⟩ := range.mp entry
    obtain ⟨record', found', pending, rfl⟩ := (accounted.order _ _).mp listed
    obtain rfl : record = record' := Option.some.inj (found.symm.trans found')
    exact ⟨found, pending, after, refusals, authority⟩
  · intro wanted
    refine ⟨(record.seq, key), range.mpr ⟨?_, wanted.after⟩, ?_⟩
    · exact (accounted.order _ _).mpr ⟨record, wanted.found, wanted.pending, rfl⟩
    · exact listed_eq_some.mpr ⟨rfl, wanted.found, wanted.refusals, wanted.authority⟩

theorem Accounted.seq_of_listed
    {entry : Nat × String} {row : String × StagedIntent} (mem : entry ∈ tables.order.toList)
    (kept : tables.listed query entry = some row) : row.2.seq = entry.1 := by
  obtain ⟨same, found, -⟩ := listed_eq_some.mp kept
  have listed := Std.ExtTreeMap.mem_toList_iff_getElem?_eq_some.mp mem
  obtain ⟨record, found', -, seq⟩ := (accounted.order _ _).mp listed
  rw [same] at found'
  cases found.symm.trans found'
  exact seq

theorem Accounted.after_pendingOf (query : PendingIntents) :
    tables.pendingOf query =
      Paging.after (fun row => row.2.seq)
        (tables.order.toList.filterMap (tables.listed query)) query.afterSeq := by
  unfold pendingOf
  cases query.afterSeq with
  | none => rfl
  | some after =>
    rw [BTreeMap.rangeAfter, Paging.after, filterMap_filter, filter_filterMap]
    refine filterMap_congr fun entry mem => ?_
    cases kept : tables.listed query entry with
    | none => simp
    | some row =>
      rw [filter_some, accounted.seq_of_listed mem kept]

theorem Accounted.ordered_listed (query : PendingIntents) :
    (tables.order.toList.filterMap (tables.listed query)).Pairwise fun a b =>
      compare a.2.seq b.2.seq = .lt := by
  rw [pairwise_filterMap]
  refine Std.ExtTreeMap.ordered_keys_toList.imp_of_mem ?_
  intro a b ha hb lt row kept row' kept'
  rw [accounted.seq_of_listed ha kept, accounted.seq_of_listed hb kept']
  exact lt

theorem Accounted.ordered_pendingOf (query : PendingIntents) :
    (tables.pendingOf query).Pairwise fun a b => a.2.seq < b.2.seq := by
  rw [accounted.after_pendingOf]
  exact (Paging.ordered_after (accounted.ordered_listed query) _).imp Nat.compare_eq_lt.mp

end

/-- A page of one authority and where to resume, as `drain_pending` asks for
it: a page that is not full is the last. -/
def pendingPage (tables : IntentTables) (authority : String) (batch : Nat)
    (resume : Option Nat) : Except Empty (List (String × StagedIntent) × Option Nat) :=
  let pending := tables.listPendingIntentsFor authority resume batch
  .ok (pending, if pending.length = batch then pending.getLast?.map (·.2.seq) else none)

theorem Accounted.pages (accounted : tables.Accounted) (authority : String) {batch : Nat}
    (some : 0 < batch) :
    Paging.Pages (tables.pendingPage authority batch) fun resume =>
      tables.pendingOf ⟨Option.some authority, resume, batch, u32Max⟩ := by
  have left : (fun resume => tables.pendingOf ⟨Option.some authority, resume, batch, u32Max⟩) =
      Paging.after (fun row => row.2.seq) (tables.order.toList.filterMap
        (tables.listed ⟨Option.some authority, none, batch, u32Max⟩)) := by
    funext resume
    exact accounted.after_pendingOf _
  have takes : ∀ resume, tables.listPendingIntentsFor authority resume batch =
      (tables.pendingOf ⟨Option.some authority, resume, batch, u32Max⟩).take batch := fun _ => rfl
  rw [left]
  refine Paging.pages_of_take (accounted.ordered_listed _) batch ?_ ?_ ?_
  · rintro resume rows next ⟨⟩
    exact congrArg (·.take batch) (congrFun left resume)
  · intro resume rows answer
    obtain ⟨rfl, last⟩ := Prod.mk.inj (Except.ok.inj answer)
    rw [← congrFun left resume, takes]
    refine (take_of_length_le ?_).symm
    by_contra more
    have full : (tables.listPendingIntentsFor authority resume batch).length = batch := by
      rw [takes, length_take]
      omega
    rw [if_pos full, map_eq_none_iff, getLast?_eq_none_iff] at last
    rw [last] at full
    exact Nat.ne_of_lt some full
  · intro resume rows next answer
    obtain ⟨rfl, last⟩ := Prod.mk.inj (Except.ok.inj answer)
    split at last
    · exact map_eq_some_iff.mp last
    · cases last

end IntentTables

/-! ## Runs -/

namespace OperationCall

/-- The sums of a stage call that admits fit a `u64`. -/
def Sums (store : OperationStore Bytes) : OperationCall Bytes E → Prop
  | intent (.stage admission limits _) =>
    store.intents.stageOutcome admission limits = .admitted → store.intents.Fits admission
  | _ => True

def StagesUnder (limits : IntentLimits) : OperationCall Bytes E → Prop
  | intent (.stage _ limits' _) => limits' = limits
  | _ => True

def Unrefusing : OperationCall Bytes E → Prop
  | intent (.refuse _) => False
  | _ => True

def assigns (store : OperationStore Bytes) : OperationCall Bytes E → Option Nat
  | intent (.stage admission limits _) =>
    if store.intents.stageOutcome admission limits = .admitted then some store.intents.seq else none
  | _ => none

def Meets (A : IntentTables.Admission) (R : Prop) (store : OperationStore Bytes) :
    OperationCall Bytes E → Prop
  | intent call => call.Meets A R store.intents
  | _ => True

theorem Sums.meets (sums : call.Sums store) :
    call.Meets (fun tables admission _ => tables.Fits admission) True store := by
  cases call with
  | intent call =>
    cases call with
    | stage => exact sums
    | _ => trivial
  | _ => trivial

theorem StagesUnder.meets {limits : IntentLimits} (under : call.StagesUnder limits) :
    call.Meets (fun _ _ limits' => limits' = limits) True store := by
  cases call with
  | intent call =>
    cases call with
    | stage => exact fun _ => under
    | _ => trivial
  | _ => trivial

theorem Unrefusing.meets (unrefusing : call.Unrefusing) :
    call.Meets (fun _ _ _ => True) False store := by
  cases call with
  | intent call =>
    cases call with
    | stage => exact fun _ => trivial
    | refuse => exact unrefusing
    | _ => trivial
  | _ => trivial

end OperationCall

namespace OperationStore

variable {fromMeta : MetaError → E}
  {A : IntentTables.Admission}

theorem advanceIntentToAdmitted_changes (intents : IntentTables) (intentKey : String)
    (now : Int64) : IntentTables.Changes A R intents
      (advanceIntentToAdmitted intents intentKey now) := by
  unfold advanceIntentToAdmitted
  split
  · exact .refl
  · split
    next record found =>
      obtain ⟨found, forward⟩ := filter_eq_some_iff.mp found
      exact .single (.settles now found (of_decide_eq_true forward))
    next => exact .refl

/-- **Step.** Every call changes the intents one at a time. -/
theorem step_changes (meets : call.Meets A R store) :
    IntentTables.Changes A R store.intents (Machine.next (step fromMeta) store call).intents := by
  cases call with
  | intent call => exact IntentTables.run_changes meets
  | commitFinalized write body clock collectorActive =>
    show IntentTables.Changes A R store.intents
      (store.commitFinalizedWrite fromMeta write body clock collectorActive).1.intents
    obtain ⟨error, -, done⟩ | ⟨staged, ran, ⟨r, -, done⟩ | ⟨-, done⟩⟩ :=
      commitFinalizedWrite_cases fromMeta store write body clock collectorActive
    · rw [done]
    · rw [done]
    · rw [done, ← (runBody_eq_ok ran).2]
      exact advanceIntentToAdmitted_changes _ _ _
  | driver body clock collectorActive =>
    rw [Machine.next, step]
    cases ran : store.runBody fromMeta body clock collectorActive with
    | error => exact .refl
    | ok staged =>
      rw [← (runBody_eq_ok ran).2]
  | finalize operation result response now =>
    rw [Machine.next, step]
    split <;> exact .refl
  | _ => exact .refl

theorem exec_changes (fromMeta : MetaError → E) (store : OperationStore Bytes)
    (calls : List (OperationCall Bytes E))
    (meets : Along (step fromMeta) (fun store call => call.Meets A R store) store calls) :
    IntentTables.Changes A R store.intents (exec (step fromMeta) store calls).intents := by
  induction calls generalizing store with
  | nil => exact .refl
  | cons call calls ih => exact (step_changes meets.1).trans (ih _ meets.2)

def assigned (fromMeta : MetaError → E) :
    OperationStore Bytes → List (OperationCall Bytes E) → List Nat
  | _, [] => []
  | store, call :: calls =>
    (call.assigns store).toList ++ assigned fromMeta (Machine.next (step fromMeta) store call) calls

theorem assigns_eq_some (fromMeta : MetaError → E) {seq : Nat}
    (sums : call.Sums store)
    (assigns : call.assigns store = some seq) :
    seq = store.intents.seq ∧ seq < (Machine.next (step fromMeta) store call).intents.seq := by
  cases call with
  | intent call =>
    cases call with
    | stage admission limits now =>
      rw [OperationCall.assigns] at assigns
      split at assigns
      next outcome =>
        cases assigns
        have next : (Machine.next (step fromMeta) store
            (.intent (.stage admission limits now))).intents =
              store.intents.admitIntent admission now := if_pos outcome
        rw [next]
        refine ⟨rfl, ?_⟩
        rw [IntentTables.admitIntent, Nat.u64WrappingAdd_of_le (sums outcome).seq]
        exact Nat.lt_succ_self _
      next => cases assigns
    | _ => cases assigns
  | _ => cases assigns

/-- **Run.** No number is given twice. -/
theorem assigned_ordered (calls : List (OperationCall Bytes E))
    (sums : Along (step fromMeta) (fun store call => call.Sums store) store calls) :
    (∀ seq ∈ assigned fromMeta store calls, store.intents.seq ≤ seq) ∧
      (assigned fromMeta store calls).Pairwise (· < ·) := by
  induction calls generalizing store with
  | nil => exact ⟨nofun, .nil⟩
  | cons call calls ih =>
    obtain ⟨above, ordered⟩ := ih sums.2
    have changes : IntentTables.Changes _ _ store.intents
        (Machine.next (step fromMeta) store call).intents := step_changes sums.1.meets
    have grows := changes.follows.seq
    rw [assigned]
    cases assigns : call.assigns store with
    | none =>
      exact ⟨fun seq mem => grows.trans (above seq mem), ordered⟩
    | some given =>
      obtain ⟨rfl, behind⟩ := assigns_eq_some fromMeta sums.1 assigns
      refine ⟨fun seq mem => ?_, pairwise_cons.mpr ⟨fun seq mem => ?_, ordered⟩⟩
      · rcases mem_cons.mp mem with rfl | mem
        · exact Nat.le_refl _
        · exact grows.trans (above seq mem)
      · exact Nat.lt_of_lt_of_le behind (above seq mem)

/-- After every run of calls, an authority's usage keeps limits below the `u64`
maximum that every stage call was under, and an intent has no refusals if the
run has none. If moreover the admitted sums fit a `u64`: usage is the count and
the bytes of the stored intents; the order index has one entry for each pending
intent and no other; no sequence number is given twice; an intent found again by
its number has its key, its content and no earlier phase; and draining an
authority page by page offers each pending intent once, in admission order. -/
theorem intents_are_accounted (fromMeta : MetaError → E)
    (before calls : List (OperationCall Bytes E)) :
    let earlier := (Machine.exec (step fromMeta) {} before).intents
    let tables := (Machine.exec (step fromMeta) {} (before ++ calls)).intents
    (∀ limits, limits.maxRecords < Nat.u64Max → limits.maxBytes < Nat.u64Max →
      (∀ call ∈ before ++ calls, call.StagesUnder limits) → ∀ authority,
        (tables.readUsage authority).records ≤ limits.maxRecords ∧
          (tables.readUsage authority).bytes ≤ limits.maxBytes) ∧
    ((∀ call ∈ before ++ calls, call.Unrefusing) → tables.Unrefused) ∧
    (Machine.Along (step fromMeta) (fun store call => call.Sums store) {} (before ++ calls) →
      (∀ authority, tables.readUsage authority =
        IntentTables.usageOf tables.intents.toList authority) ∧
      (∀ (seq : Nat) (key : String), tables.order[seq]? = some key ↔
        ∃ record, tables.intents[key]? = some record ∧ record.phase = .pending ∧
          record.seq = seq) ∧
      (assigned fromMeta {} (before ++ calls)).Pairwise (· < ·) ∧
      (∀ (key key' : String) (record record' : StagedIntent),
        earlier.intents[key]? = some record → tables.intents[key']? = some record' →
        record'.seq = record.seq → key = key' ∧ record.Becomes record') ∧
      (∀ query, tables.collectPending query = (tables.pendingOf query).take query.limit ∧
        (tables.pendingOf query).Pairwise (fun a b => a.2.seq < b.2.seq) ∧
        ∀ key record, (key, record) ∈ tables.pendingOf query ↔ tables.Wanted query key record) ∧
      ∀ authority batch fuel, 0 < batch →
        (tables.pendingOf ⟨some authority, none, batch, u32Max⟩).length < fuel →
          Paging.walk (tables.pendingPage authority batch) fuel none =
            .ok (tables.pendingOf ⟨some authority, none, batch, u32Max⟩)) := by
  intro earlier tables
  refine ⟨?_, ?_, fun sums => ?_⟩
  · intro limits records bytes under
    have changes := exec_changes fromMeta {} (before ++ calls)
      (along_of_forall _ _ _ fun call mem _ => (under call mem).meets)
    refine IntentTables.Within.changes (fun authority => ?_) records bytes changes
    exact ⟨Nat.zero_le _, Nat.zero_le _⟩
  · intro unrefusing
    have changes := exec_changes fromMeta {} (before ++ calls)
      (along_of_forall _ _ _ fun call mem _ => (unrefusing call mem).meets)
    refine IntentTables.Unrefused.changes (fun key record found => ?_) changes
    cases found
  have meets := (along_append _ _ _ _).mp
    (along_imp _ (fun _ _ sums => sums.meets) _ _ sums)
  have earlierAccounted : earlier.Accounted :=
    IntentTables.accounted_empty.changes (exec_changes fromMeta {} before meets.1)
  have later : IntentTables.Changes (fun tables admission _ => tables.Fits admission) True
      earlier tables := by
    have changes := exec_changes fromMeta _ calls meets.2
    rwa [← exec_append] at changes
  have accounted : tables.Accounted := earlierAccounted.changes later
  refine ⟨accounted.usage, accounted.order, (assigned_ordered _ sums).2, ?_, ?_, ?_⟩
  · intro key key' record record' found found' same
    exact later.follows.becomes earlierAccounted found found' same
  · exact fun query => ⟨rfl, accounted.ordered_pendingOf query,
      fun _ _ => accounted.mem_pendingOf⟩
  · intro authority batch fuel some enough
    obtain ⟨error, -⟩ | done := (accounted.pages authority some).walk_eq fuel none enough
    · exact error.elim
    · exact done

end OperationStore

def stagedUpload (key : String) (size : Nat) : IntentAdmission where
  authority := "home"
  key
  digest := "sha256:aa"
  size
  payload := []

/-- One intent is staged and settled, another stays pending and is listed. -/
theorem intents_are_accounted_two :
    let limits : IntentLimits := ⟨10, 100, 80⟩
    let calls : List (OperationCall (List UInt8) MetaError) :=
      [.intent (.stage (stagedUpload "a" 7) limits 1),
       .intent (.stage (stagedUpload "b" 9) limits 2),
        .intent (.advance "a" .admitted 3)]
    let tables := (exec (OperationStore.step id) {} calls).intents
    tables.readUsage "home" = ⟨2, 16⟩ ∧
      tables.readUsage "home" = IntentTables.usageOf tables.intents.toList "home" := by
  intro limits calls tables
  refine ⟨by decide +kernel, ((OperationStore.intents_are_accounted id [] calls).2.2 ?_).1 "home"⟩
  exact ⟨fun _ => ⟨by decide +kernel, by decide +kernel, by decide +kernel⟩,
    fun _ => ⟨by decide +kernel, by decide +kernel, by decide +kernel⟩, trivial, trivial⟩

/-- With no limit on the bytes, the check of the second upload saturates and the
sum it then stores wraps: two intents are stored and their bytes counted as
none. -/
theorem intents_are_accounted_wraps :
    let limits : IntentLimits := ⟨10, Nat.u64Max, 80⟩
    let calls : List (OperationCall (List UInt8) MetaError) :=
      [.intent (.stage (stagedUpload "a" (2 ^ 63)) limits 1),
        .intent (.stage (stagedUpload "b" (2 ^ 63)) limits 2)]
    let tables := (exec (OperationStore.step id) {} calls).intents
    tables.readUsage "home" = ⟨2, 0⟩ ∧
      IntentTables.usageOf tables.intents.toList "home" = ⟨2, 2 ^ 64⟩ := by
  decide +kernel

end Peryx
