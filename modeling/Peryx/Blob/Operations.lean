import Peryx.Blob.Changes

/-!
# Operations keep the invariant

Changes and removals keep `Inv`. An operation is `Allowed` where it finds what the
store takes for granted, and a call is `Ready` for it where it has made sure of
what the operation takes: then what the operation does is a `Change`, or a
`Removal`.
-/

namespace Peryx.Blob

open CrashFs List

variable {store : BlobStore} {call : Nat} {s s' : State}

/-! ## The invariant stays -/

theorem IsBlob.keep {digest : String} {node : Node} (blob : IsBlob store s digest node)
    (same : ∀ {f}, s.role f = .published → s'.role f = .published ∧ s'.fs.file f = s.fs.file f) :
    IsBlob store s' digest node := by
  obtain ⟨f, rfl, published, clean, hashes⟩ := blob
  obtain ⟨role, file⟩ := same published
  refine ⟨f, rfl, role, ?_, file ▸ hashes⟩
  unfold Clean
  rw [file]
  exact clean

variable {path : BlobPath} {f : Nat}

/-- An entry is put: of a file that has none, and at the name of a blob only that
blob or nothing. What `acks` promises stays where it is. -/
theorem Inv.put (inv : Inv store s) {node : Option Node} (top : (s.fs.put path node).Solid [])
    (solid : ∀ {name dir}, s.fs.node (name :: dir) ≠ none → s.fs.SolidUp dir →
      (s.fs.put path node).SolidUp dir)
    (new : ∀ {f}, node = some (.file f) → f < s.fs.next ∧ ∀ p, s.fs.node p ≠ some (.file f))
    {acks lost : List Ack} (fewer : acks ⊆ s.acks)
    (promised : ∀ ack ∈ acks, State.ackPath store ack = path →
      node ≠ none ∧ ∃ digest, ack = .blob digest)
    (blob : ∀ digest, path = store.pathFor digest → ∀ n, node = some n →
      IsBlob store s digest n ∧ (s.fs.put path node).SolidUp (store.parentFor digest)) :
    Inv store { s with fs := s.fs.put path node, acks := acks, lost := lost } := by
  refine ⟨top, fun p there => ?_, inv.synced, fun p f mem => ?_, inv.roles,
    fun {p q f} hp hq => ?_, fun {digest n} mem => ?_, fun digest there => ?_, fun ack mem => ?_⟩
  · by_cases same : p = path
    · exact same ▸ mem_cons_self
    · refine mem_cons_of_mem _ (inv.paths p ?_)
      rwa [Fs.node_put, if_neg same] at there
  · rw [Fs.leaves_put] at mem
    split at mem
    · obtain same | mem := mem_cons.mp mem
      · exact (new same.symm).1
      · exact inv.fresh p f mem
    · exact inv.fresh p f mem
  · rw [Fs.node_put] at hp hq
    split at hp <;> split at hq
    · next first second => exact first.trans second.symm
    · exact absurd hq ((new hp).2 q)
    · exact absurd hp ((new hq).2 p)
    · exact inv.unique hp hq
  · have is : IsBlob store s digest n := by
      rw [Fs.leaves_put] at mem
      split at mem
      · next same =>
        obtain here | mem := mem_cons.mp mem
        · exact (blob digest same.symm n here.symm).1
        · exact inv.blob mem
      · exact inv.blob mem
    exact is.keep fun published => ⟨published, rfl⟩
  · rw [Fs.node_put] at there
    split at there
    · next same =>
      obtain ⟨n, is⟩ := Option.ne_none_iff_exists'.mp there
      exact (blob digest same.symm n is).2
    · exact solid there (inv.parent digest there)
  · refine (inv.acks ack (fewer mem)).keep solid (fun digest is there => ?_)
      fun session bytes f is there kept => ⟨?_, kept⟩
    · subst is
      rw [Fs.leaves_put]
      split
      · next same =>
        exact fun gone => (mem_cons.mp gone).elim ((promised _ mem same).1 ∘ Eq.symm) there
      · exact there
    · subst is
      rw [Fs.leaves_put, if_neg]
      · exact there
      · intro same
        obtain ⟨-, digest, is⟩ := promised _ mem same
        cases is

theorem mem_forget {ack : Ack} (mem : ack ∈ (s.forget store path).acks) :
    ack ∈ s.acks ∧ State.ackPath store ack ≠ path :=
  ⟨mem_of_mem_filter mem, by simpa using (mem_filter.mp mem).2⟩

theorem Inv.unlink (inv : Inv store s)
    (node : s.fs.node path = some (.file f)) {lost : List Ack} :
    Inv store { s.unlink store path with lost := lost } :=
  inv.put (solid_put (node ▸ nofun) inv.top)
    (fun _ solid p mem => solid_put (node ▸ nofun) (solid p mem)) (by nofun)
    (fun _ mem => (mem_forget mem).1) (fun _ mem same => absurd same (mem_forget mem).2)
    fun _ _ _ => nofun

theorem Inv.syncDir (inv : Inv store s) (dir : BlobPath) :
    Inv store { s with fs := s.fs.syncDir dir } where
  top left mem := inv.top left (s.fs.leaves_syncDir_subset [] dir mem)
  paths := inv.paths
  synced := inv.synced
  fresh p f mem := inv.fresh p f (s.fs.leaves_syncDir_subset p dir mem)
  roles := inv.roles
  unique := inv.unique
  blob mem := (inv.blob (s.fs.leaves_syncDir_subset _ dir mem)).keep fun h => ⟨h, rfl⟩
  parent digest there p up left mem :=
    inv.parent digest there p up left (s.fs.leaves_syncDir_subset p dir mem)
  acks ack mem := by
    have keeps : Keeps store s.fs (s.fs.syncDir dir) := keeps_syncDir s.fs dir
    refine (inv.acks ack mem).keep (fun _ => keeps.solidUp) (fun digest _ => keeps.settled)
      fun session bytes f _ there kept => ⟨?_, kept⟩
    obtain same | synced := s.fs.leaves_syncDir (store.uploadPath session) dir
    · exact same.trans there
    · exact synced.trans (congrArg (fun node => [node]) (node_of_leaves there))

theorem Inv.file (inv : Inv store s) (other : s.role f ≠ .published) {new : File UInt8}
    (synced : new.synced <+: new.data) {acks lost : List Ack} (fewer : acks ⊆ s.acks)
    (kept : ∀ session bytes, .upload session bytes ∈ acks →
      s.fs.node (store.uploadPath session) = some (.file f) →
      bytes <+: (s.fs.file f).synced → bytes <+: new.synced) :
    Inv store { s with fs := s.fs.setFile f new, acks := acks, lost := lost } where
  top := inv.top
  paths := inv.paths
  synced g := by
    rw [Fs.file_setFile]
    split
    · exact synced
    · exact inv.synced g
  fresh := inv.fresh
  roles := inv.roles
  unique := inv.unique
  blob mem := by
    refine (inv.blob mem).keep fun {g} published => ⟨published, if_neg ?_⟩
    rintro rfl
    exact other published
  parent := inv.parent
  acks ack mem := by
    refine (inv.acks ack (fewer mem)).keep (fun _ => id) (fun _ _ => id)
      fun session bytes g is there old => ⟨there, ?_⟩
    rw [Fs.file_setFile]
    split
    · next same =>
      subst same is
      exact kept session bytes mem (node_of_leaves there) old
    · exact old

theorem Inv.setRole (inv : Inv store s) {role : Role} (other : s.role f ≠ .published)
    (there : f < s.fs.next) : Inv store (s.setRole f role) where
  top := inv.top
  paths := inv.paths
  synced := inv.synced
  fresh := inv.fresh
  roles g used := by
    by_cases same : g = f
    · exact same ▸ there
    · exact inv.roles g (by rwa [State.role_setRole, if_neg same] at used)
  unique := inv.unique
  blob mem := by
    refine (inv.blob mem).keep fun {g} published => ⟨(if_neg ?_).trans published, rfl⟩
    rintro rfl
    exact other published
  parent := inv.parent
  acks := inv.acks

theorem Inv.create (inv : Inv store s) (absent : s.fs.node path = none)
    (above : ∀ digest, path ≠ store.pathFor digest) : Inv store (s.create call path) := by
  have nowhere : ∀ p, s.fs.node p ≠ some (.file s.fs.next) := fun p there =>
    Nat.lt_irrefl _ (inv.fresh p _ (there ▸ s.fs.node_mem_leaves p))
  have unpublished : s.role s.fs.next ≠ .published := fun published =>
    Nat.lt_irrefl _ (inv.roles _ (published ▸ nofun))
  -- the file is taken, made and held before it has a name
  have taken : Inv store { s with fs := { s.fs with next := s.fs.next + 1 } } :=
    { inv with
      fresh := fun p f mem => Nat.lt_succ_of_lt (inv.fresh p f mem)
      roles := fun f used => Nat.lt_succ_of_lt (inv.roles f used) }
  have made : Inv store ({ s with
      fs := { s.fs with next := s.fs.next + 1 }.setFile s.fs.next ⟨[], []⟩ }.setRole s.fs.next
        (.held call)) :=
    (taken.file unpublished (prefix_refl _) (fun _ mem => mem)
      fun _ _ _ there => absurd there (nowhere _)).setRole unpublished (Nat.lt_succ_self _)
  refine made.put (solid_put (absent ▸ nofun) made.top)
    (fun _ solid p mem => solid_put (absent ▸ nofun) (solid p mem)) (fun same => ?_)
    (fun _ mem => mem) (fun ack mem same => ?_) fun digest same => absurd same (above digest)
  · cases same
    exact ⟨Nat.lt_succ_self _, nowhere⟩
  · exact absurd (same ▸ absent) (inv.acks ack mem).there

theorem Inv.place (inv : Inv store s) {digest : String} (other : s.role f ≠ .published)
    (nowhere : ∀ p, s.fs.node p ≠ some (.file f)) (there : f < s.fs.next) (clean : Clean s f)
    (hashes : store.digestOf (s.fs.file f).data = digest)
    (solid : s.fs.SolidUp (store.parentFor digest)) :
    Inv store ({ s with fs := s.fs.put (store.pathFor digest) (some (.file f)) }.setRole f
      .published) := by
  have entry := inv.blob_ne_dir digest
  refine (inv.setRole other there).put (solid_put entry inv.top)
    (fun _ solid p mem => solid_put entry (solid p mem)) (fun same => ?_) (fun _ mem => mem)
    (fun ack mem same => ⟨nofun, ?_⟩) fun digest' same n is => ?_
  · cases same
    exact ⟨there, nowhere⟩
  · cases ack with
    | blob digest => exact ⟨digest, rfl⟩
    | upload session bytes => exact absurd same (uploadPath_ne_pathFor session digest)
  · cases is
    obtain rfl := pathFor_injective same
    exact ⟨⟨f, rfl, if_pos rfl, clean, hashes⟩, fun p mem => solid_put entry (solid p mem)⟩

/-- **Step.** Every change keeps the invariant. -/
theorem Change.inv (change : Change store call s s') (inv : Inv store s) : Inv store s' := by
  cases change with
  | same => exact inv
  | mkdir absent above =>
    refine inv.put (solid_put (absent ▸ nofun) inv.top)
      (fun _ solid p mem => solid_put (absent ▸ nofun) (solid p mem)) (by nofun)
      (fun _ mem => mem) (fun ack mem same => ?_) fun digest same => absurd same (above digest)
    exact absurd (same ▸ absent) (inv.acks ack mem).there
  | syncDir dir => exact inv.syncDir dir
  | create absent above => exact inv.create absent above
  | file held synced fewer kept => exact inv.file (held ▸ nofun) synced fewer kept
  | @move source digest f node held clean hashes solid =>
    have keeps := inv.keeps_unlink node (held ▸ nofun)
    refine (inv.unlink node).place (show s.role f ≠ _ from held ▸ nofun) (fun p there => ?_)
      (inv.roles f (held ▸ nofun)) clean hashes (keeps.solidUp solid)
    change (if p = source then none else s.fs.node p) = _ at there
    split at there
    · cases there
    · next other => exact other (inv.unique there node)
  | hold free there => exact inv.setRole (free ▸ nofun) there
  | drop node held => exact inv.unlink node
  | ack holds mine =>
    refine { inv with acks := fun ack' mem => ?_ }
    obtain rfl | mem := mem_cons.mp mem
    · exact holds
    · exact inv.acks ack' mem

theorem Inv.ne_of_isEmptyDir (inv : Inv store s) {dir : BlobPath} {name : Name}
    (bare : s.fs.isEmptyDir path) (solid : s.fs.SolidUp dir)
    (there : s.fs.node (name :: dir) ≠ none) {level : BlobPath} (mem : level ∈ dir.tails) :
    level ≠ path := by
  have entries := (of_decide_eq_true bare).2
  rintro rfl
  obtain ⟨front, rfl⟩ := (mem_tails _ _).mp mem
  -- the entry of the directory on the way down
  have below : ∃ child, s.fs.node (child :: level) ≠ none := by
    rcases eq_nil_or_concat' front with rfl | ⟨front, child, rfl⟩
    · exact ⟨name, there⟩
    · have up : (child :: level) ∈ (front ++ [child] ++ level).tails :=
        (mem_tails _ _).mpr ⟨front, by rw [append_assoc, singleton_append]⟩
      exact ⟨child, (solid _ up).node ▸ nofun⟩
  obtain ⟨child, there⟩ := below
  exact there (entries _ (inv.paths _ there) nofun rfl)

/-- **Step.** So does every removal. -/
theorem Removal.inv (removal : Removal store s s') (inv : Inv store s) : Inv store s' := by
  cases removal with
  | same => exact inv
  | unlink node => exact inv.unlink node
  | @rmdir path below bare =>
    have isDir := (of_decide_eq_true bare).1
    have other : ∀ {p}, p ≠ path → s.fs.Solid p → (s.fs.put path none).Solid p := by
      intro p apart solid left mem
      rw [Fs.leaves_put, if_neg apart] at mem
      exact solid left mem
    refine inv.put (other below.symm inv.top)
      (fun there solid p mem => other (inv.ne_of_isEmptyDir bare solid there mem) (solid p mem))
      (by nofun) (fun _ mem => mem) (fun ack mem same => ?_) fun _ _ _ => nofun
    cases ack with
    | blob digest =>
      change store.pathFor digest = path at same
      exact absurd (same ▸ isDir) (inv.blob_ne_dir digest)
    | upload session bytes =>
      obtain ⟨-, f, leaves, -⟩ := inv.acks _ mem
      cases (node_of_leaves leaves).symm.trans (same ▸ isDir)

/-! ## Operations -/

variable (store)

/-- What an operation has to find. A level that exists is one that no crash takes
away; a session that is resumed has its entry on disk for certain, and one that is
finished its bytes, and no other call is at it. -/
def Allowed (s : State) : Op → Prop
  | .exists level => s.fs.node level ≠ none → s.fs.SolidUp level
  | .openStage path => s.fs.OnFile path fun f =>
      s.role f = .free ∧ s.fs.leaves path = [some (.file f)]
  | .readStage path => s.fs.OnFile path fun f => s.role f = .free ∧ Clean s f
  | _ => True

/-- The operations that take something away. -/
def Removes : Op → Prop
  | .unlink _ | .rmdir _ => True
  | _ => False

instance (s : State) (f : Nat) : Decidable (Clean s f) :=
  inferInstanceAs (Decidable ((s.fs.file f).synced = (s.fs.file f).data))

instance decidableAllowed (s : State) : DecidablePred (Allowed s)
  | .exists level => inferInstanceAs (Decidable (s.fs.node level ≠ none → s.fs.SolidUp level))
  | .openStage path => inferInstanceAs (Decidable (s.fs.OnFile path fun f =>
      s.role f = .free ∧ s.fs.leaves path = [some (.file f)]))
  | .readStage path => inferInstanceAs (Decidable (s.fs.OnFile path fun f =>
      s.role f = .free ∧ Clean s f))
  | .isFile _ | .mkdir _ | .syncDir _ | .createTemp _ | .writeAt .. | .syncFile _
  | .renameNoclobber .. | .rename .. | .resident _ | .stat _ | .createNew _ | .length _
  | .setLen .. | .drop _ | .cleanup _ | .unlink _ | .rmdir _ | .ackBlob _ | .ackUpload .. =>
    isTrue trivial

instance decidableRemoves : DecidablePred Removes
  | .unlink _ | .rmdir _ => isTrue trivial
  | .exists _ | .openStage _ | .readStage _ | .isFile _ | .mkdir _ | .syncDir _ | .createTemp _
  | .writeAt .. | .syncFile _ | .renameNoclobber .. | .rename .. | .resident _ | .stat _
  | .createNew _ | .length _ | .setLen .. | .drop _ | .cleanup _ | .ackBlob _ | .ackUpload .. =>
    isFalse id

/-- What a call has to know before an operation. -/
def Ready (call : Nat) (s : State) : Op → Prop
  | .mkdir path | .createNew path => ∀ digest, path ≠ store.pathFor digest
  | .writeAt f offset _ => s.role f = .held call ∧ ∀ session bytes,
      .upload session bytes ∈ s.acks → s.fs.node (store.uploadPath session) = some (.file f) →
      bytes.length ≤ offset
  | .syncFile f | .setLen f _ => s.role f = .held call
  | .renameNoclobber source dest | .rename source dest => ∃ f digest,
      dest = store.pathFor digest ∧ s.fs.node source = some (.file f) ∧
        s.role f = .held call ∧ Clean s f ∧ store.digestOf (s.fs.file f).data = digest ∧
        s.fs.SolidUp (store.parentFor digest)
  | .drop path | .cleanup path => ∀ f, s.fs.node path = some (.file f) → s.role f = .held call
  | .rmdir path => path ≠ []
  | .ackBlob digest => Holds store s (.blob digest)
  | .ackUpload session f => s.role f = .held call ∧
      Holds store s (.upload session (s.fs.file f).data) ∧
      s.fs.node (store.uploadPath session) = some (.file f)
  | _ => True

variable {store}

theorem take_prefix_writeAt (data synced bytes : Bytes) (offset : Nat) (known : synced <+: data) :
    synced.take offset <+: data.take offset ++ List.replicate (offset - data.length) 0 ++ bytes ++
      data.drop (offset + bytes.length) :=
  ((known.take offset).trans (prefix_append _ _)).trans
    ((prefix_append _ _).trans (prefix_append _ _))

theorem writeAt_change (inv : Inv store s) {offset : Nat} {bytes : Bytes}
    (ready : Ready store call s (.writeAt f offset bytes)) (bytes' : Bytes) :
    Change store call s (s.writeAt f offset bytes') := by
  refine .file ready.1 (take_prefix_writeAt _ _ _ _ (inv.synced f)) (fun _ mem => mem) ?_
  intro session promised mem node kept
  exact prefix_take_iff.mpr ⟨kept, ready.2 session promised mem node⟩

theorem mem_forgetPast {length : Nat} {session : String} {bytes : Bytes}
    (mem : .upload session bytes ∈ (s.forgetPast store f length).acks)
    (node : s.fs.node (store.uploadPath session) = some (.file f)) : bytes.length ≤ length := by
  have keep := (mem_filter.mp mem).2
  simp only [Bool.not_eq_true', decide_eq_false_iff_not, not_and, not_lt] at keep
  exact keep node

/-- An operation that removes nothing is a change. -/
theorem exec_change (inv : Inv store s) {op : Op} (allowed : Allowed s op)
    (ready : Ready store call s op) (stays : ¬ Removes op) (fault : Option Nat) :
    Change store call s (State.exec store call op fault s).2 := by
  cases fault with
  | some written =>
    cases op with
    | writeAt f offset bytes => exact writeAt_change inv ready _
    | _ => exact .same
  | none =>
    cases op with
    | «exists» | isFile | length => exact .same
    | mkdir path =>
      change Change store call s (s.mkdir path).2
      unfold State.mkdir
      split
      · exact .same
      · split
        · split
          · next absent => exact .mkdir absent ready
          · exact .same
          · exact .same
        · exact .same
    | syncDir path =>
      unfold State.exec
      dsimp only
      split
      · exact .syncDir path
      · exact .same
    | createTemp dir =>
      unfold State.exec
      dsimp only
      split
      · next absent => exact .create absent.2 (stage_ne_pathFor _ _)
      · exact .same
    | writeAt f offset bytes => exact writeAt_change inv ready _
    | syncFile f =>
      exact .file ready (prefix_refl _) (fun _ mem => mem)
        fun _ _ _ _ kept => kept.trans (inv.synced f)
    | renameNoclobber source dest =>
      obtain ⟨f, digest, rfl, node, held, clean, hashes, solid⟩ := ready
      unfold State.exec
      dsimp only
      rw [node]
      split
      · next is _ =>
        cases is
        split
        · exact .move node held clean hashes solid
        · exact .same
      · exact .same
    | rename source dest =>
      obtain ⟨f, digest, rfl, node, held, clean, hashes, solid⟩ := ready
      unfold State.exec
      dsimp only
      rw [node]
      split
      · exact .same
      · next is _ =>
        cases is
        split
        · exact .move node held clean hashes solid
        · exact .same
      · exact .same
    | resident path | stat path =>
      unfold State.exec
      dsimp only
      split <;> exact .same
    | createNew path =>
      unfold State.exec
      dsimp only
      split
      · split
        · next absent => exact .create absent ready
        · exact .same
      · exact .same
    | openStage path | readStage path =>
      unfold State.exec
      dsimp only
      split
      · next f node =>
        exact .hold (allowed.of_node node).1 (inv.fresh path f (node ▸ s.fs.node_mem_leaves path))
      all_goals exact .same
    | setLen f length =>
      refine .file ready ((inv.synced f).take length |>.trans (prefix_append _ _))
        (fun _ mem => mem_of_mem_filter mem) fun session bytes mem node kept => ?_
      exact prefix_take_iff.mpr ⟨kept, mem_forgetPast mem node⟩
    | drop path | cleanup path =>
      unfold State.exec
      dsimp only
      split
      · next f node => exact .drop node (ready f node)
      · exact .same
    | unlink path => exact absurd trivial stays
    | rmdir path => exact absurd trivial stays
    | ackBlob digest => exact .ack ready fun _ _ => nofun
    | ackUpload session f =>
      refine .ack ready.2.1 fun session' bytes same => ?_
      cases same
      exact ⟨f, ready.2.2, ready.1⟩

/-- One that removes is a removal. -/
theorem exec_removal {op : Op} (ready : Ready store call s op) (removes : Removes op)
    (fault : Option Nat) : Removal store s (State.exec store call op fault s).2 := by
  cases fault with
  | some written =>
    cases op with
    | unlink | rmdir => exact .same
    | _ => exact removes.elim
  | none =>
    cases op with
    | unlink path =>
      unfold State.exec
      dsimp only
      split
      · next node => exact .unlink node
      · exact .same
      · exact .same
    | rmdir path =>
      unfold State.exec
      dsimp only
      split
      · next bare => exact .rmdir ready bare
      · exact .same
    | _ => exact removes.elim

end Peryx.Blob
