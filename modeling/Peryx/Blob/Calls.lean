import Peryx.Blob.Steps

/-!
# Safe calls

Every call of the store keeps to the discipline, from whatever state it starts:
writes, commits, chunks of an upload and its end, and removals.
-/

namespace Peryx.Blob

open CrashFs Interleaving Discipline List

variable {store : BlobStore} {t : Nat} {s s' s'' : State} {fails : State → Prop}
  {path : BlobPath} {f : Nat}

/-! ## Publication -/

/-- A file with the bytes of a blob, synced, that a call is about to publish. -/
structure Staged (store : BlobStore) (t : Nat) (s : State) (source : BlobPath) (f : Nat)
    (digest : String) : Prop where
  holding : Holding t s source f
  clean : Clean s f
  hashes : store.digestOf (s.fs.file f).data = digest
  solid : s.fs.SolidUp (store.parentFor digest)

/-- A blob is at its path, in directories that no crash takes away. -/
structure Resident (store : BlobStore) (s : State) (digest : String) : Prop where
  there : s.fs.node (store.pathFor digest) ≠ none
  solid : s.fs.SolidUp (store.parentFor digest)

variable {source : BlobPath} {digest : String}

/-- Others leave alone what a call holds. -/
theorem Staged.of_rely (relied : Rely store t s s') (holding : Holding t s source f)
    (clean : Clean s f) (hashes : store.digestOf (s.fs.file f).data = digest)
    (solid : s'.fs.SolidUp (store.parentFor digest)) : Staged store t s' source f digest where
  holding := holding.rely relied
  clean := by
    unfold Clean
    rw [relied.own.file holding.role]
    exact clean
  hashes := (relied.own.file holding.role) ▸ hashes
  solid := solid

/-- A stage stays one whatever others do. -/
theorem Staged.rely (staged : Staged store t s source f digest) (relied : Rely store t s s') :
    Staged store t s' source f digest :=
  .of_rely relied staged.holding staged.clean staged.hashes (relied.keeps.solidUp staged.solid)

/-- What a rename takes. -/
theorem Staged.ready (staged : Staged store t s source f digest) :
    ∃ f digest', store.pathFor digest = store.pathFor digest' ∧
      s.fs.node source = some (.file f) ∧ s.role f = .held t ∧ Clean s f ∧
      store.digestOf (s.fs.file f).data = digest' ∧ s.fs.SolidUp (store.parentFor digest') :=
  ⟨f, digest, rfl, staged.holding.node, staged.holding.role, staged.clean, staged.hashes,
    staged.solid⟩

/-- A rename to the blob's path makes it resident. -/
theorem Staged.moved (staged : Staged store t s source f digest) (inv : Inv store s) :
    Resident store (s.move store source (store.pathFor digest) f) digest where
  there := by
    change (if _ = _ then _ else _) ≠ none
    rw [if_pos rfl]
    exact nofun
  solid :=
    have change : Change store t s (s.move store source (store.pathFor digest) f) :=
      .move staged.holding.node staged.holding.role staged.clean staged.hashes staged.solid
    (change.keeps inv).solidUp staged.solid

/-- A resident blob stays. -/
theorem Resident.keep (resident : Resident store s digest) (keeps : Keeps store s.fs s'.fs) :
    Resident store s' digest :=
  ⟨keeps.resident resident.there, keeps.solidUp resident.solid⟩

/-- What is found at a blob's path is the resident blob. -/
theorem Resident.of_node (inv : Inv store s) {entry : Node}
    (node : s.fs.node (store.pathFor digest) = some entry) : Resident store s digest :=
  have there : s.fs.node (store.pathFor digest) ≠ none := node ▸ nofun
  ⟨there, inv.parent digest there⟩

/-- The first attempt publishes, or leaves the stage as it is. -/
theorem safe_renameNoclobber (staged : Staged store t s source f digest) :
    (discipline store).Safe t
      (Ends (fun _ s' => Resident store s' digest) fun s' => Staged store t s' source f digest)
      fails
      (attempt (.renameNoclobber source (store.pathFor digest))) s := by
  refine safe_attempt id (fun s' relied _ => (staged.rely relied).ready)
    fun s' fault relied inv _ => ?_
  have staged' := staged.rely relied
  cases fault with
  | some _ => exact staged'
  | none =>
    unfold State.exec
    dsimp only
    rw [staged'.holding.node]
    cases s'.fs.node (store.pathFor digest) with
    | some _ => exact staged'
    | none =>
      dsimp only
      split
      · exact staged'.moved inv
      · exact staged'

/-- So does the rename over a resident that does not match. -/
theorem safe_rename (staged : Staged store t s source f digest) :
    (discipline store).Safe t (fun _ s' => Resident store s' digest)
      (fun s' => Staged store t s' source f digest)
      (perform (.rename source (store.pathFor digest))) s := by
  refine safe_perform id (fun s' relied _ => (staged.rely relied).ready)
    fun s' fault relied inv _ => ?_
  have staged' := staged.rely relied
  cases fault with
  | some _ => exact staged'
  | none =>
    unfold State.exec
    dsimp only
    rw [staged'.holding.node]
    split
    · exact staged'
    · next is _ =>
      cases is
      split
      · exact staged'.moved inv
      · exact staged'
    · exact staged'

/-- What was read at the blob's path is there. -/
theorem safe_residentMatches (digest : String) (length : Nat) :
    (discipline store).Safe t (fun _ s' => Rely store t s s' ∧ Resident store s' digest)
      (Rely store t s) (residentMatches store (store.pathFor digest) digest length) s := by
  have read : (discipline store).Safe t (fun _ s' => Rely store t s s' ∧ Resident store s' digest)
      (Rely store t s) (perform (.resident (store.pathFor digest))) s := by
    refine safe_perform id (fun _ _ _ => trivial) fun s' fault relied inv _ => ?_
    cases fault with
    | some _ => exact relied
    | none =>
      unfold State.exec
      dsimp only
      cases node : s'.fs.node (store.pathFor digest) with
      | none => exact relied
      | some node' =>
        cases node' with
        | dir => exact relied
        | file g => exact ⟨relied, .of_node inv node⟩
  exact read.seq fun _ _ h => h

theorem safe_stat (digest : String) :
    (discipline store).Safe t (fun _ s' => Resident store s' digest) (fun _ => True)
      (perform (.stat (store.pathFor digest))) s := by
  refine safe_perform id (fun _ _ _ => trivial) fun s' fault relied inv _ => ?_
  cases fault with
  | some _ => trivial
  | none =>
    unfold State.exec
    dsimp only
    cases node : s'.fs.node (store.pathFor digest) with
    | none => trivial
    | some node' =>
      cases node' with
      | dir => trivial
      | file g => exact .of_node inv node

/-- Once its directory is synced, a resident blob is there for good. -/
theorem safe_syncParent_blob (resident : Resident store s digest) :
    (discipline store).Safe t (fun _ s' => Holds store s' (.blob digest)) (fun _ => True)
      (syncParent (store.pathFor digest)) s := by
  refine (safe_syncDir (store.parentFor digest)).mono ?_ fun _ _ => trivial
  rintro _ s' ⟨relied, synced⟩
  have resident' := resident.keep relied.keeps
  refine ⟨resident'.solid, fun mem => resident'.there ?_⟩
  have leaves : s'.fs.leaves (store.pathFor digest) = [s'.fs.node (store.pathFor digest)] :=
    synced _
  rw [leaves] at mem
  exact (mem_singleton.mp mem).symm

/-- A stage that a resident makes superfluous goes, the resident stays. -/
theorem safe_drop (holding : Holding t s path f) (resident : Resident store s digest) :
    (discipline store).Safe t (fun _ s' => Resident store s' digest) (fun _ => True)
      (perform (.drop path)) s := by
  refine safe_perform id (fun s' relied inv => ?_) fun s' fault relied inv allowed => ?_
  · intro g node
    cases (holding.rely relied).node.symm.trans node
    exact (holding.rely relied).role
  · cases fault with
    | some _ => trivial
    | none =>
      have node := (holding.rely relied).node
      have change : Change store t s' (s'.unlink store path) :=
        .drop node (holding.rely relied).role
      have gone : State.exec store t (.drop path) none s' = (some (), s'.unlink store path) := by
        unfold State.exec
        dsimp only
        rw [node]
      rw [gone]
      exact resident.keep (relied.keeps.trans (change.keeps inv))

/-- The digest ends up resident either way. -/
theorem safe_reconcile (staged : Staged store t s source f digest) (length : Nat) :
    (discipline store).Safe t (fun _ s' => Holds store s' (.blob digest)) (fun _ => True)
      (reconcile store (store.pathFor digest) source digest length) s := by
  refine Safe.bind (Safe.onFail ((safe_residentMatches digest length).mono ?_ ?_))
  · rintro found s' ⟨relied, resident⟩
    have staged' := staged.rely relied
    cases found with
    | true =>
      refine (safe_drop staged'.holding resident).seq ?_
      exact fun _ _ => safe_syncParent_blob
    | false =>
      refine Safe.bind (Safe.onFail ((safe_rename staged').mono ?_ ?_))
      · exact fun _ _ => safe_syncParent_blob
      · exact fun _ failed => safe_discard failed.holding
  · exact fun s' relied => safe_discard (staged.holding.rely relied)

/-- **What is published is there for good.** -/
theorem safe_publish (staged : Staged store t s source f digest) (length : Nat) :
    (discipline store).Safe t (fun _ s' => Holds store s' (.blob digest)) (fun _ => True)
      (publish store (store.pathFor digest) source digest length) s := by
  refine (safe_renameNoclobber staged).seq fun moved s' ends => ?_
  cases moved with
  | some _ => exact safe_syncParent_blob ends
  | none => exact safe_reconcile ends length

/-- A success is returned only for a blob that is there for good. -/
theorem safe_ackBlob (holds : Holds store s (.blob digest)) :
    Obeys store t (perform (.ackBlob digest)) s := by
  refine safe_perform id (fun s' relied _ => ?_) fun s' fault _ _ _ => ?_
  · exact ⟨relied.keeps.solidUp holds.1, relied.keeps.settled holds.2⟩
  · cases fault <;> trivial

/-! ## Writes -/

/-- No directory above a blob is itself at a blob's path. -/
theorem parentFor_above (digest : String) :
    ∀ level ∈ (store.parentFor digest).tails, ∀ digest', level ≠ store.pathFor digest' :=
  fun _ => ne_pathFor_of_tails (Nat.lt_succ_self _)

theorem root_above : ∀ level ∈ store.root.tails, ∀ digest, level ≠ store.pathFor digest :=
  fun _ => ne_pathFor_of_tails (Nat.lt_add_of_pos_right (by decide))

theorem uploadDir_above :
    ∀ level ∈ store.uploadDir.tails, ∀ digest, level ≠ store.pathFor digest :=
  fun _ => ne_pathFor_of_tails (Nat.add_lt_add_left (by decide) _)

/-- A write through a stage. -/
theorem safe_writeThrough (bytes : Bytes) :
    Obeys store t (writeThrough store bytes) s := by
  refine (safe_createDirDurable (parentFor_above _)).andThen ?_ fun _ _ => trivial
  rintro _ s₁ ⟨-, solid⟩
  refine (safe_createTemp _).andThen ?_ fun _ _ => trivial
  rintro ⟨stage, file⟩ s₂ ⟨⟨n, rfl⟩, holding, fresh, keeps⟩
  refine Safe.bind (Safe.onFail ?_)
  refine (safe_writeAt holding (bound_stage _ _ _) bytes).andThen ?_
    fun _ carried => safe_discard carried.holding
  rintro _ s₃ ⟨carried, data⟩
  refine (safe_syncFile carried.holding).mono ?_ fun _ carried' => safe_discard carried'.holding
  rintro _ s₄ ⟨carried', same, clean⟩
  have staged : Staged store t s₄ _ file (store.digestOf bytes) :=
    { holding := carried'.holding
      clean := clean
      hashes := by
        rw [same, data, fresh]
        simp
      solid := carried'.keeps.solidUp (carried.keeps.solidUp (keeps.solidUp solid)) }
  refine (safe_publish staged _).seq ?_
  exact fun _ _ => safe_ackBlob

/-- A write, which may find the blob. -/
theorem safe_write (bytes : Bytes) :
    Obeys store t (write store bytes) s := by
  refine (safe_isFile _).seq ?_
  rintro found s₁ -
  cases found with
  | none => exact safe_writeThrough bytes
  | some found =>
    cases found with
    | false => exact safe_writeThrough bytes
    | true =>
      refine (safe_residentMatches _ _).andThen ?_ fun _ _ => trivial
      rintro same s₂ ⟨-, resident⟩
      cases same with
      | false => exact safe_writeThrough bytes
      | true =>
        refine (safe_syncParent_blob resident).seq ?_
        exact fun _ _ => safe_ackBlob

/-- Chunks go one after the other into the file that is held. -/
theorem safe_writeChunks {n : Nat} {dir : BlobPath} (chunks : List Bytes)
    (holding : Holding t s (.stage n :: dir) f) :
    (discipline store).Safe t
      (fun _ s' => Carries store t (.stage n :: dir) f s s' ∧
        (s'.fs.file f).data = (s.fs.file f).data ++ chunks.flatten)
      (Carries store t (.stage n :: dir) f s)
      (writeChunks f (s.fs.file f).data.length chunks) s := by
  induction chunks generalizing s with
  | nil => exact ⟨holding.carries (.refl t s), (List.append_nil _).symm⟩
  | cons chunk chunks ih =>
    refine (safe_writeAt holding (bound_stage _ _ _) chunk).seq ?_
    rintro _ s' ⟨carried, data⟩
    have grown : (s'.fs.file f).data = (s.fs.file f).data ++ chunk := by
      rw [data]
      simp
    have rest := ih carried.holding
    rw [grown, length_append] at rest
    refine rest.mono ?_ fun _ => carried.trans
    rintro _ s'' ⟨carried', data'⟩
    exact ⟨carried.trans carried', by rw [data', flatten_cons, append_assoc]⟩

/-- A streamed stage, published where the digest is as expected. -/
theorem safe_commit (chunks : List Bytes) (expected : String) :
    Obeys store t (commit store chunks expected) s := by
  refine (safe_createDirAll root_above).andThen ?_ fun _ _ => trivial
  rintro _ s₁ -
  refine (safe_createTemp _).andThen ?_ fun _ _ => trivial
  rintro ⟨stage, file⟩ s₂ ⟨⟨n, rfl⟩, holding, fresh, -⟩
  refine Safe.bind (Safe.onFail ?_)
  have written : (discipline store).Safe t _ _ _ s₂ := safe_writeChunks chunks holding
  rw [fresh] at written
  refine written.andThen ?_ fun _ carried => safe_discard carried.holding
  rintro _ s₃ ⟨carried, data⟩
  refine (safe_syncFile carried.holding).mono ?_ fun _ carried' => safe_discard carried'.holding
  rintro _ s₄ ⟨carried', same, clean⟩
  have bytes : (s₄.fs.file file).data = chunks.flatten := by
    rw [same, data]
    rfl
  dsimp only
  split
  · refine Safe.bind (Safe.onFail ((safe_createDirDurable (parentFor_above _)).mono ?_ ?_))
    · rintro _ s₅ ⟨relied, solid⟩
      have hashes := congrArg store.digestOf bytes
      have staged := Staged.of_rely relied carried'.holding clean hashes solid
      refine (safe_publish staged _).seq ?_
      exact fun _ _ => safe_ackBlob
    · exact fun _ relied => safe_discard (carried'.holding.rely relied)
  · exact (safe_discard carried'.holding).seq fun _ _ => id

/-! ## Uploads -/

/-- A session whose file a call is at; its entry is on disk unless the call has
just made it. -/
structure Session (store : BlobStore) (t : Nat) (s : State) (session : String) (f : Nat)
    (created : Bool) : Prop where
  holding : Holding t s (store.uploadPath session) f
  solid : s.fs.SolidUp store.uploadDir
  entry : created = false → s.fs.leaves (store.uploadPath session) = [some (.file f)]

variable {session : String} {created : Bool}

/-- The stage of a session stays one while the call works on it. -/
theorem Session.carry (open' : Session store t s session f created)
    (carried : Carries store t (store.uploadPath session) f s s') :
    Session store t s' session f created :=
  ⟨carried.holding, carried.keeps.solidUp open'.solid, fun old => carried.entry (open'.entry old)⟩

/-- A stage that is opened is the session's own, new or resumed. -/
theorem safe_openSession (solid : s.fs.SolidUp store.uploadDir) :
    (discipline store).Safe t (fun opened s' => Session store t s' session opened.1 opened.2)
      (fun _ => True) (openSession (store.uploadPath session)) s := by
  have created : (discipline store).Safe t
      (fun made s' => s'.fs.SolidUp store.uploadDir ∧
        ∀ f, made = some f → Holding t s' (store.uploadPath session) f)
      (fun _ => True) (perform (.createNew (store.uploadPath session))) s := by
    refine safe_perform id (fun _ _ _ => uploadPath_ne_pathFor session)
      fun s' fault relied inv _ => ?_
    cases fault with
    | some _ => trivial
    | none =>
      unfold State.exec
      dsimp only
      split
      · cases absent : s'.fs.node (store.uploadPath session) with
        | some node => exact ⟨relied.keeps.solidUp solid, nofun⟩
        | none =>
          have change : Change store t s' (s'.create t (store.uploadPath session)) :=
            .create absent (uploadPath_ne_pathFor session)
          refine ⟨(relied.keeps.trans (change.keeps inv)).solidUp solid, fun f same => ?_⟩
          cases same
          exact ⟨if_pos rfl, if_pos rfl⟩
      · trivial
  refine created.seq ?_
  rintro made s₁ ⟨solid, holding⟩
  cases made with
  | some f => exact ⟨holding f rfl, solid, nofun⟩
  | none =>
    have opened : (discipline store).Safe t (fun f s' => Session store t s' session f false)
        (fun _ => True) (perform (.openStage (store.uploadPath session))) s₁ := by
      refine safe_perform id (fun _ _ _ => trivial) fun s' fault relied inv allowed => ?_
      cases fault with
      | some _ => trivial
      | none =>
        have entry {f : Nat} := allowed.of_node (f := f)
        unfold State.exec
        dsimp only
        cases node : s'.fs.node (store.uploadPath session) with
        | none => trivial
        | some node' =>
          cases node' with
          | dir => trivial
          | file f =>
            exact ⟨⟨if_pos rfl, node⟩, relied.keeps.solidUp solid, fun _ => (entry node).2⟩
    exact opened.seq fun _ _ => id

theorem safe_length (f : Nat) :
    (discipline store).Safe t (fun _ s' => Rely store t s s') (fun _ => True)
      (perform (.length f)) s := by
  refine safe_perform id (fun _ _ _ => trivial) fun s' fault relied _ _ => ?_
  cases fault with
  | some _ => trivial
  | none => exact relied

/-- The entry of a new stage is synced before it is relied on. -/
theorem safe_syncParent_session (opened : Session store t s session f created) (clean : Clean s f) :
    (discipline store).Safe t (fun _ s' => Session store t s' session f false ∧ Clean s' f)
      (fun _ => True) (syncParent (store.uploadPath session)) s := by
  refine (safe_syncDir store.uploadDir).mono ?_ fun _ _ => trivial
  rintro _ s' ⟨relied, synced⟩
  have holding := opened.holding.rely relied
  refine ⟨⟨holding, relied.keeps.solidUp opened.solid, fun _ => ?_⟩, ?_⟩
  · rw [← holding.node]
    exact synced _
  · unfold Clean
    rw [relied.own.file opened.holding.role]
    exact clean

/-- An offset is returned only for bytes that are synced. -/
theorem safe_ackUpload (opened : Session store t s session f false) (clean : Clean s f) :
    Obeys store t (perform (.ackUpload session f)) s := by
  refine safe_perform id (fun s' relied _ => ?_) fun s' fault _ _ _ => ?_
  · have opened' := opened.carry (opened.holding.carries relied)
    refine ⟨opened'.holding.role, ⟨opened'.solid, f, opened'.entry rfl, ?_⟩, opened'.holding.node⟩
    rw [relied.own.file opened.holding.role]
    exact clean ▸ prefix_refl _
  · cases fault <;> trivial

/-- A chunk of an upload. -/
theorem safe_stageUploadChunk (session : String) (offset : Nat) (chunk : Bytes) :
    Obeys store t (stageUploadChunk store session offset chunk) s := by
  refine (safe_createDirDurable uploadDir_above).andThen ?_ fun _ _ => trivial
  rintro _ s₁ ⟨-, solid⟩
  refine (safe_openSession solid).seq ?_
  rintro ⟨file, created⟩ s₂ opened
  refine (safe_length file).seq ?_
  rintro length s₃ relied
  have opened₃ := opened.carry (opened.holding.carries relied)
  split
  · trivial
  · refine (safe_setLen opened₃.holding offset).andThen ?_ fun _ _ => trivial
    rintro _ s₄ ⟨carried₄, bound⟩
    refine (safe_writeAt carried₄.holding bound chunk).andThen ?_ fun _ _ => trivial
    rintro _ s₅ ⟨carried₅, -⟩
    refine (safe_syncFile carried₅.holding).andThen ?_ fun _ _ => trivial
    rintro _ s₆ ⟨carried₆, -, clean⟩
    have opened₆ := ((opened₃.carry carried₄).carry carried₅).carry carried₆
    cases created with
    | false => exact safe_ackUpload opened₆ clean
    | true =>
      refine (safe_syncParent_session opened₆ clean).seq ?_
      exact fun _ _ settled => safe_ackUpload settled.1 settled.2

/-- A stage that is finished is held from the moment it is read. -/
theorem safe_readStage (path : BlobPath) :
    (discipline store).Safe t
      (fun data s' => ∀ bytes, data = some bytes → ∃ f, Holding t s' path f ∧ Clean s' f ∧
        (s'.fs.file f).data = bytes)
      (fun _ => True) (perform (.readStage path)) s := by
  refine safe_perform id (fun _ _ _ => trivial) fun s' fault relied inv allowed => ?_
  cases fault with
  | some _ => trivial
  | none =>
    have synced {f : Nat} := allowed.of_node (f := f)
    unfold State.exec
    dsimp only
    cases node : s'.fs.node path with
    | none => exact nofun
    | some node' =>
      cases node' with
      | dir => trivial
      | file f =>
        intro bytes same
        cases same
        exact ⟨f, ⟨if_pos rfl, node⟩, (synced node).2, rfl⟩

/-- The end of an upload. -/
theorem safe_finishUpload (session expected : String) :
    Obeys store t (finishUpload store session expected) s := by
  refine (safe_readStage _).seq ?_
  rintro data s₁ staged
  cases data with
  | none =>
    refine (safe_isFile _).seq ?_
    rintro found s₂ -
    cases found with
    | none => trivial
    | some found =>
      cases found with
      | false => trivial
      | true =>
        refine (safe_stat expected).seq ?_
        rintro _ s₃ resident
        refine (safe_syncParent_blob resident).seq ?_
        exact fun _ _ => safe_ackBlob
  | some data =>
    obtain ⟨f, holding, clean, bytes⟩ := staged data rfl
    dsimp only
    split
    · next hashes =>
      refine (safe_createDirDurable (parentFor_above _)).andThen ?_ fun _ _ => trivial
      rintro _ s₂ ⟨relied, solid⟩
      have staged := Staged.of_rely relied holding clean (bytes ▸ hashes) solid
      refine (safe_publish staged _).seq ?_
      exact fun _ _ => safe_ackBlob
    · trivial

/-! ## Removals -/

/-- Entries are removed while no other call runs. -/
theorem safe_unlink (path : BlobPath) :
    Obeys store t (perform (.unlink path)) s := by
  refine Safe.perform fun s' _ inv _ fault => ?_
  have ready : Ready store t s' (.unlink path) := trivial
  refine ⟨(exec_removal ready trivial fault).inv inv, .inl trivial, ?_⟩
  cases ((disk store).exec t (.unlink path) fault s').1 <;> trivial

theorem safe_pruneEmptyParents {dirs : List BlobPath} (below : ∀ dir ∈ dirs, dir ≠ []) :
    Obeys store t (pruneEmptyParents dirs) s := by
  induction dirs generalizing s with
  | nil => trivial
  | cons dir dirs ih =>
    intro s' _ inv _ fault
    have ready : Ready store t s' (.rmdir dir) := below dir mem_cons_self
    refine ⟨(exec_removal ready trivial fault).inv inv, .inl trivial, ?_⟩
    cases ((disk store).exec t (.rmdir dir) fault s').1 with
    | none => trivial
    | some _ => exact ih fun dir' mem => below dir' (mem_cons_of_mem dir mem)

/-- A removal. -/
theorem safe_remove (digest : String) :
    Obeys store t (remove store digest) s := by
  refine (safe_unlink _).seq ?_
  rintro found s₁ -
  cases found with
  | false => trivial
  | true =>
    refine safe_pruneEmptyParents fun dir mem => ?_
    obtain rfl | mem := mem_cons.mp mem
    · exact nofun
    · obtain rfl := mem_singleton.mp mem
      exact nofun

/-- **Every request keeps to the discipline.** -/
theorem safe_program (request : Request) :
    Obeys store t (request.program store) s := by
  cases request with
  | write bytes => exact safe_write bytes
  | commit chunks expected => exact safe_commit chunks expected
  | stageUploadChunk session offset chunk => exact safe_stageUploadChunk session offset chunk
  | finishUpload session expected => exact safe_finishUpload session expected
  | discardUpload session =>
    exact (safe_unlink _).seq fun _ _ => id
  | remove digest => exact safe_remove digest

end Peryx.Blob
