import Peryx.Blob.Operations

/-!
# Safe steps

`discipline` is what calls of the store keep to while others run: the invariant,
what each relies on, and what operations have to find. The `safe_` lemmas are the
rules for single operations, for making directories durable, and for the stage a
call writes to, which it carries along (`Carries`).
-/

namespace Peryx.Blob

open CrashFs Interleaving Discipline List

variable (store : BlobStore)

/-! ## The discipline -/

theorem Inv.close {store : BlobStore} {s : State} (inv : Inv store s) (call : Nat) :
    Inv store (s.close call) where
  top := inv.top
  paths := inv.paths
  synced := inv.synced
  fresh := inv.fresh
  roles f used := by
    change (if s.role f = .held call then Role.free else s.role f) ≠ .free at used
    split at used
    · exact absurd rfl used
    · exact inv.roles f used
  unique := inv.unique
  blob mem := (inv.blob mem).keep fun published =>
    ⟨(if_neg (published ▸ nofun)).trans published, rfl⟩
  parent := inv.parent
  acks := inv.acks

theorem close_rely {call other : Nat} (s : State) (different : other ≠ call) :
    Rely store other s (s.close call) where
  keeps := .refl _
  own :=
    { role := fun held =>
        (if_neg fun same => different (Role.held.inj (held.symm.trans same))).trans
        held
      file := fun _ => rfl
      node := fun _ => id
      leaves := fun _ => id
      acks := fun _ _ => id }

/-- The rules calls keep between operations. -/
def discipline : Discipline (disk store) where
  inv := Inv store
  rely := Rely store
  allowed _ op s := Allowed s op
  exclusive := Removes
  rely_refl := .refl
  rely_trans := .trans
  close_inv call _ inv := inv.close call
  close_rely := close_rely store

/-! ## Single operations -/

variable {store} {t : Nat} {s : State} {fails : State → Prop}

theorem safe_attempt {op : Op} {post : Option op.Ans → State → Prop} (stays : ¬ Removes op)
    (ready : ∀ s', Rely store t s s' → Inv store s' → Ready store t s' op)
    (ends : ∀ s' fault, Rely store t s s' → Inv store s' → Allowed s' op →
      post (State.exec store t op fault s').1 (State.exec store t op fault s').2) :
    (discipline store).Safe t post fails (attempt op) s := by
  intro s' relied inv allowed fault
  have change := exec_change inv allowed (ready s' relied inv) stays fault
  exact ⟨change.inv inv, .inr fun u other => ⟨change.keeps inv, change.own inv other⟩,
    ends s' fault relied inv allowed⟩

theorem safe_perform {op : Op} {post : op.Ans → State → Prop} (stays : ¬ Removes op)
    (ready : ∀ s', Rely store t s s' → Inv store s' → Ready store t s' op)
    (ends : ∀ s' fault, Rely store t s s' → Inv store s' → Allowed s' op →
      Ends post fails (State.exec store t op fault s').1 (State.exec store t op fault s').2) :
    (discipline store).Safe t post fails (perform op) s :=
  Safe.perform (safe_attempt stays ready ends : (discipline store).Safe t _ fails (attempt op) s)

theorem safe_exists (level : BlobPath) :
    (discipline store).Safe t
      (fun found s' => Rely store t s s' ∧ (found = some true → s'.fs.SolidUp level)) fails
      (attempt (.exists level)) s := by
  refine safe_attempt id (fun _ _ _ => trivial) fun s' fault relied inv allowed => ?_
  cases fault with
  | some _ => exact ⟨relied, nofun⟩
  | none =>
    refine ⟨relied, fun found => allowed ?_⟩
    exact Option.isSome_iff_ne_none.mp (Option.some.inj found)

theorem safe_isFile (path : BlobPath) :
    (discipline store).Safe t
      (fun found s' => Rely store t s s' ∧ (found = some true → s'.fs.node path ≠ none)) fails
      (attempt (.isFile path)) s := by
  refine safe_attempt id (fun _ _ _ => trivial) fun s' fault relied inv _ => ?_
  cases fault with
  | some _ => exact ⟨relied, nofun⟩
  | none =>
    refine ⟨relied, fun found absent => ?_⟩
    change s'.fs.node path = none at absent
    unfold State.exec at found
    dsimp only at found
    rw [absent] at found
    cases found

variable {level dir : BlobPath} {offset : Nat}

theorem safe_mkdir (above : ∀ digest, level ≠ store.pathFor digest) :
    (discipline store).Safe t (fun _ s' => Rely store t s s' ∧ s'.fs.node level = some .dir)
      (Rely store t s) (perform (.mkdir level)) s := by
  refine safe_perform id (fun _ _ _ => above) fun s' fault relied inv _ => ?_
  cases fault with
  | some _ => exact relied
  | none =>
    change Ends _ _ (s'.mkdir level).1 (s'.mkdir level).2
    unfold State.mkdir
    cases level with
    | nil => exact ⟨relied, inv.top.node⟩
    | cons name parent =>
      dsimp only
      split
      · cases node : s'.fs.node (name :: parent) with
        | none =>
          have change :
              Change store t s' { s' with fs := s'.fs.put (name :: parent) (some .dir) } :=
            .mkdir node above
          exact ⟨relied.trans ⟨change.keeps inv, own_put (fun _ _ => node ▸ nofun) fun _ => id⟩,
            if_pos rfl⟩
        | some node' =>
          cases node' with
          | dir => exact ⟨relied, node⟩
          | file f => exact relied
      · exact relied

theorem safe_syncDir (dir : BlobPath) :
    (discipline store).Safe t
      (fun _ s' => Rely store t s s' ∧
        ∀ name, s'.fs.leaves (name :: dir) = [s'.fs.node (name :: dir)])
      (Rely store t s) (perform (.syncDir dir)) s := by
  refine safe_perform id (fun _ _ _ => trivial) fun s' fault relied inv _ => ?_
  cases fault with
  | some _ => exact relied
  | none =>
    unfold State.exec
    dsimp only
    split
    · refine ⟨relied.trans ⟨keeps_syncDir s'.fs dir, own_syncDir dir⟩, fun name => ?_⟩
      exact s'.fs.leaves_syncDir_self dir name
    · exact relied

/-! ## Directories -/

/-- What is not counted as missing is solid. -/
theorem safe_countMissing (dir : BlobPath) :
    (discipline store).Safe t
      (fun n s' => Rely store t s s' ∧ ∀ p ∈ dir.tails.drop n, s'.fs.Solid p) fails
      (countMissing dir.tails) s := by
  induction dir generalizing s with
  | nil =>
    refine (safe_exists []).seq ?_
    rintro found s' ⟨relied, solid⟩
    cases found with
    | none => exact ⟨relied, nofun⟩
    | some found =>
      cases found with
      | false => exact ⟨relied, nofun⟩
      | true => exact ⟨relied, solid rfl⟩
  | cons name dir ih =>
    refine (safe_exists (name :: dir)).seq ?_
    rintro found s' ⟨relied, solid⟩
    have rest : (discipline store).Safe t
        (fun n s'' => Rely store t s s'' ∧ ∀ p ∈ (name :: dir).tails.drop n, s''.fs.Solid p) fails
        (countMissing dir.tails >>= fun n => pure (n + 1)) s' :=
      ih.seq fun n s'' h => ⟨relied.trans h.1, h.2⟩
    cases found with
    | none => exact rest
    | some found =>
      cases found with
      | false => exact rest
      | true => exact ⟨relied, solid rfl⟩

theorem safe_createDirAll (above : ∀ level ∈ dir.tails, ∀ digest, level ≠ store.pathFor digest) :
    (discipline store).Safe t
      (fun _ s' => Rely store t s s' ∧ ∀ p ∈ dir.tails, s'.fs.node p = some .dir)
      (Rely store t s) (createDirAll dir) s := by
  have made : (discipline store).Safe t
      (fun _ s' => Rely store t s s' ∧ ∀ p ∈ dir.tails.reverse, s'.fs.node p = some .dir)
      (Rely store t s) (createDirAll dir) s := by
    refine Safe.forM (fun _ _ _ relied isDir => ?_) fun level mem _ _ => ?_
    · exact relied.keeps.dir isDir
    · exact safe_mkdir (above level (mem_reverse.mp mem))
  exact made.mono (fun _ _ h => ⟨h.1, fun p mem => h.2 p (mem_reverse.mpr mem)⟩) fun _ => id

theorem safe_syncParent_dir (isDir : s.fs.node level = some .dir) :
    (discipline store).Safe t (fun _ s' => Rely store t s s' ∧ s'.fs.Solid level) (Rely store t s)
      (syncParent level) s := by
  cases level with
  | nil => exact Rely.refl t s
  | cons name parent =>
    refine (safe_syncDir parent).mono ?_ fun _ => id
    rintro _ s' ⟨relied, synced⟩
    refine ⟨relied, fun left mem => ?_⟩
    rw [synced name] at mem
    exact (mem_singleton.mp mem).trans (relied.keeps.dir isDir)

/-- **A durable directory is solid**, and so are those above it: the levels that
were missing have been synced, and those that were not are solid already. -/
theorem safe_createDirDurable
    (above : ∀ level ∈ dir.tails, ∀ digest, level ≠ store.pathFor digest) :
    (discipline store).Safe t (fun _ s' => Rely store t s s' ∧ s'.fs.SolidUp dir)
      (Rely store t s) (createDirDurable dir) s := by
  refine (safe_countMissing dir).seq ?_
  rintro missing s₁ ⟨relied₁, found⟩
  refine (safe_createDirAll above).andThen ?_ fun _ => relied₁.trans
  rintro _ s₂ ⟨relied₂, made⟩
  have synced : (discipline store).Safe t
      (fun _ s' => Rely store t s₂ s' ∧ ∀ p ∈ dir.tails.take missing, s'.fs.Solid p)
      (Rely store t s₂) ((dir.tails.take missing).forM syncParent) s₂ := by
    refine Safe.forM (fun _ _ _ relied solid => ?_) fun level mem _ relied => ?_
    · exact relied.keeps.solid solid
    · exact safe_syncParent_dir (relied.keeps.dir (made level (mem_of_mem_take mem)))
  refine synced.mono ?_ fun _ relied₃ => (relied₁.trans relied₂).trans relied₃
  rintro _ s₃ ⟨relied₃, levels⟩
  refine ⟨(relied₁.trans relied₂).trans relied₃, fun p mem => ?_⟩
  rw [← take_append_drop missing dir.tails] at mem
  obtain made | there := mem_append.mp mem
  · exact levels p made
  · exact relied₃.keeps.solid (relied₂.keeps.solid (found p there))

/-! ## Stages -/

/-- The call's own file, at its path. -/
structure Holding (t : Nat) (s : State) (path : BlobPath) (f : Nat) : Prop where
  role : s.role f = .held t
  node : s.fs.node path = some (.file f)

/-- Directories stay solid and the file stays with its call. -/
structure Carries (store : BlobStore) (t : Nat) (path : BlobPath) (f : Nat) (s s' : State) :
    Prop where
  keeps : Keeps store s.fs s'.fs
  holding : Holding t s' path f
  entry : s.fs.leaves path = [some (.file f)] → s'.fs.leaves path = [some (.file f)]

variable {path : BlobPath} {f : Nat} {s' s'' : State}

theorem Holding.rely (holding : Holding t s path f) (relied : Rely store t s s') :
    Holding t s' path f :=
  ⟨relied.own.role holding.role, relied.own.node holding.role holding.node⟩

theorem Holding.carries (holding : Holding t s path f) (relied : Rely store t s s') :
    Carries store t path f s s' :=
  ⟨relied.keeps, holding.rely relied, relied.own.leaves holding.role⟩

theorem Carries.trans (first : Carries store t path f s s')
    (second : Carries store t path f s' s'') :
    Carries store t path f s s'' :=
  ⟨first.keeps.trans second.keeps, second.holding, fun h => second.entry (first.entry h)⟩

theorem Holding.carries_setFile (holding : Holding t s path f) (new : File UInt8)
    (acks : List Ack) {lost : List Ack} :
    Carries store t path f s { s with fs := s.fs.setFile f new, acks := acks, lost := lost } :=
  ⟨⟨id, id, id, id⟩, ⟨holding.role, holding.node⟩, id⟩

/-- No success was returned for bytes of the file past an offset. -/
def Bound (store : BlobStore) (s : State) (path : BlobPath) (offset : Nat) : Prop :=
  ∀ session bytes, .upload session bytes ∈ s.acks → store.uploadPath session = path →
    bytes.length ≤ offset

theorem Bound.rely (bound : Bound store s path offset)
    (holding : Holding t s path f) (relied : Rely store t s s') : Bound store s' path offset := by
  rintro session bytes mem rfl
  exact bound session bytes (relied.own.acks holding.role holding.node mem) rfl

theorem bound_stage (n : Nat) (dir : BlobPath) (offset : Nat) :
    Bound store s (.stage n :: dir) offset :=
  fun _ _ _ same => nomatch same

theorem safe_createTemp (dir : BlobPath) :
    (discipline store).Safe t
      (fun stage s' => (∃ n, stage.1 = .stage n :: dir) ∧ Holding t s' stage.1 stage.2 ∧
        s'.fs.file stage.2 = ⟨[], []⟩ ∧ Keeps store s.fs s'.fs)
      (fun _ => True) (perform (.createTemp dir)) s := by
  refine safe_perform id (fun _ _ _ => trivial) fun s' fault relied inv _ => ?_
  cases fault with
  | some _ => trivial
  | none =>
    unfold State.exec
    dsimp only
    split
    · next absent =>
      have change : Change store t s' (s'.create t (.stage s'.fs.next :: dir)) :=
        .create absent.2 (stage_ne_pathFor _ _)
      exact ⟨⟨_, rfl⟩, ⟨if_pos rfl, if_pos rfl⟩, if_pos rfl, relied.keeps.trans (change.keeps inv)⟩
    · trivial

/-- A write stays within the call's own file. -/
theorem safe_writeAt (holding : Holding t s path f)
    (bound : Bound store s path offset) (bytes : Bytes) :
    (discipline store).Safe t
      (fun _ s' => Carries store t path f s s' ∧
        (s'.fs.file f).data = (s.fs.file f).data.take offset ++
          List.replicate (offset - (s.fs.file f).data.length) 0 ++ bytes ++
          (s.fs.file f).data.drop (offset + bytes.length))
      (Carries store t path f s) (perform (.writeAt f offset bytes)) s := by
  refine safe_perform id (fun s' relied inv => ?_) fun s' fault relied inv _ => ?_
  · refine ⟨(holding.rely relied).role, fun session bytes mem node => ?_⟩
    exact bound.rely holding relied session bytes mem (inv.unique node (holding.rely relied).node)
  · have carried : ∀ bytes, Carries store t path f s (s'.writeAt f offset bytes) := fun _ =>
      (holding.carries relied).trans ((holding.rely relied).carries_setFile _ s'.acks)
    cases fault with
    | some written => exact carried _
    | none =>
      refine ⟨carried bytes, ?_⟩
      rw [← relied.own.file holding.role]
      exact congrArg File.data (if_pos rfl)

theorem safe_syncFile (holding : Holding t s path f) :
    (discipline store).Safe t
      (fun _ s' => Carries store t path f s s' ∧ (s'.fs.file f).data = (s.fs.file f).data ∧
        Clean s' f)
      (Carries store t path f s) (perform (.syncFile f)) s := by
  refine safe_perform id (fun s' relied _ => (holding.rely relied).role)
    fun s' fault relied inv _ => ?_
  cases fault with
  | some _ => exact holding.carries relied
  | none =>
    have now : (s'.syncFile f).fs.file f = ⟨(s'.fs.file f).data, (s'.fs.file f).data⟩ := if_pos rfl
    have data : ((s'.syncFile f).fs.file f).data = (s'.fs.file f).data := by rw [now]
    refine ⟨(holding.carries relied).trans ((holding.rely relied).carries_setFile _ s'.acks), ?_,
      (congrArg File.synced now).trans data.symm⟩
    rw [← relied.own.file holding.role]
    exact data

theorem safe_setLen (holding : Holding t s path f) (length : Nat) :
    (discipline store).Safe t
      (fun _ s' => Carries store t path f s s' ∧ Bound store s' path length)
      (Carries store t path f s) (perform (.setLen f length)) s := by
  refine safe_perform id (fun s' relied _ => (holding.rely relied).role)
    fun s' fault relied inv _ => ?_
  cases fault with
  | some _ => exact holding.carries relied
  | none =>
    refine ⟨(holding.carries relied).trans ((holding.rely relied).carries_setFile _ _), ?_⟩
    rintro session bytes mem rfl
    exact mem_forgetPast mem (holding.rely relied).node

/-- The call keeps to the discipline, however it ends. -/
abbrev Obeys (store : BlobStore) (t : Nat) {α : Type} (call : Call α)
    (s : State) : Prop :=
  (discipline store).Safe t (fun _ _ => True) (fun _ => True) call s

/-- A stage is discarded safely. -/
theorem safe_discard (holding : Holding t s path f) : Obeys store t (discard path) s := by
  have dropped : Obeys store t (attempt (.cleanup path)) s := by
    refine safe_attempt id (fun s' relied inv => ?_) fun _ _ _ _ _ => trivial
    intro g node
    cases (holding.rely relied).node.symm.trans node
    exact (holding.rely relied).role
  exact dropped.seq fun _ _ _ => trivial

end Peryx.Blob
