import Peryx.Blob.Store

/-!
# What an operation changes

`Inv` is what the disk keeps to: where a blob is, there is a synced file that
hashes to the name, in a directory that no crash takes away; and every success
that was returned holds. `Change` says once what the operations of a call can do
to it, `Removal` what those can do that take entries away. Other calls rely on
what a change keeps: `Keeps` for directories and blobs, `Own` for the files they
hold.
-/

namespace Peryx.Blob

open CrashFs List

variable (store : BlobStore) {node : Option Node}

/-! ## Paths -/

section Paths

variable {store}

theorem length_pathFor (digest : String) :
    (store.pathFor digest).length = store.root.length + 4 := rfl

theorem uploadPath_ne_pathFor (session digest : String) :
    store.uploadPath session ≠ store.pathFor digest := fun same => by
  have lengths := congrArg List.length same
  rw [length_pathFor] at lengths
  change store.root.length + 2 = _ at lengths
  omega

theorem stage_ne_pathFor (n : Nat) (dir : BlobPath) (digest : String) :
    .stage n :: dir ≠ store.pathFor digest := nofun

theorem ne_pathFor_of_tails {dir level : BlobPath} (short : dir.length < store.root.length + 4)
    (mem : level ∈ dir.tails) (digest : String) : level ≠ store.pathFor digest := by
  rintro rfl
  have le := ((mem_tails _ _).mp mem).length_le
  rw [length_pathFor] at le
  omega

theorem pathFor_injective {digest digest' : String}
    (same : store.pathFor digest = store.pathFor digest') : digest = digest' := by
  injection same with same
  injection same

end Paths

/-! ## The invariant -/

/-- All bytes of the file are synced. -/
def Clean (s : State) (file : Nat) : Prop :=
  (s.fs.file file).synced = (s.fs.file file).data

/-- A published file that holds what its name says. -/
def IsBlob (s : State) (digest : String) (node : Node) : Prop :=
  ∃ f, node = .file f ∧ s.role f = .published ∧ Clean s f ∧
    store.digestOf (s.fs.file f).data = digest

/-- What a crash cannot take from an acknowledgement. -/
def Holds (s : State) : Ack → Prop
  | .blob digest =>
    s.fs.SolidUp (store.parentFor digest) ∧ none ∉ s.fs.leaves (store.pathFor digest)
  | .upload session bytes =>
    s.fs.SolidUp store.uploadDir ∧
      ∃ f, s.fs.leaves (store.uploadPath session) = [some (.file f)] ∧
        bytes <+: (s.fs.file f).synced

/-- What holds of the disk between any two operations. -/
structure Inv (s : State) : Prop where
  top : s.fs.Solid []
  paths : ∀ p, s.fs.node p ≠ none → p ∈ s.fs.paths
  synced : ∀ f, (s.fs.file f).synced <+: (s.fs.file f).data
  fresh : ∀ p f, some (.file f) ∈ s.fs.leaves p → f < s.fs.next
  roles : ∀ f, s.role f ≠ .free → f < s.fs.next
  unique : ∀ {p q f}, s.fs.node p = some (.file f) → s.fs.node q = some (.file f) → p = q
  blob : ∀ {digest node}, some node ∈ s.fs.leaves (store.pathFor digest) →
    IsBlob store s digest node
  parent : ∀ digest, s.fs.node (store.pathFor digest) ≠ none →
    s.fs.SolidUp (store.parentFor digest)
  acks : ∀ ack ∈ s.acks, Holds store s ack

/-! ## What others rely on -/

/-- Solid directories stay solid, and blobs stay. -/
structure Keeps (fs fs' : Fs Name UInt8) : Prop where
  solid : ∀ {p}, fs.Solid p → fs'.Solid p
  dir : ∀ {p}, fs.node p = some .dir → fs'.node p = some .dir
  resident : ∀ {digest}, fs.node (store.pathFor digest) ≠ none →
    fs'.node (store.pathFor digest) ≠ none
  settled : ∀ {digest}, none ∉ fs.leaves (store.pathFor digest) →
    none ∉ fs'.leaves (store.pathFor digest)

/-- A file that a call holds stays as it is, where it is. -/
structure Own (call : Nat) (s s' : State) : Prop where
  role : ∀ {f}, s.role f = .held call → s'.role f = .held call
  file : ∀ {f}, s.role f = .held call → s'.fs.file f = s.fs.file f
  node : ∀ {f p}, s.role f = .held call → s.fs.node p = some (.file f) →
    s'.fs.node p = some (.file f)
  leaves : ∀ {f p}, s.role f = .held call → s.fs.leaves p = [some (.file f)] →
    s'.fs.leaves p = [some (.file f)]
  acks : ∀ {f session bytes}, s.role f = .held call →
    s.fs.node (store.uploadPath session) = some (.file f) →
    .upload session bytes ∈ s'.acks → .upload session bytes ∈ s.acks

/-- What others may do while a call runs. -/
structure Rely (call : Nat) (s s' : State) : Prop where
  keeps : Keeps store s.fs s'.fs
  own : Own store call s s'

section Relations

variable {store}

theorem Keeps.refl (fs : Fs Name UInt8) : Keeps store fs fs :=
  ⟨id, id, id, id⟩

variable {fs : Fs Name UInt8}

theorem Keeps.trans {fs' fs'' : Fs Name UInt8} (first : Keeps store fs fs')
    (second : Keeps store fs' fs'') : Keeps store fs fs'' where
  solid h := second.solid (first.solid h)
  dir h := second.dir (first.dir h)
  resident h := second.resident (first.resident h)
  settled h := second.settled (first.settled h)

theorem Keeps.solidUp {fs' : Fs Name UInt8} (keeps : Keeps store fs fs') {dir : BlobPath}
    (solid : fs.SolidUp dir) : fs'.SolidUp dir :=
  fun p mem => keeps.solid (solid p mem)

theorem Own.refl (call : Nat) (s : State) : Own store call s s :=
  ⟨id, fun _ => rfl, fun _ => id, fun _ => id, fun _ _ => id⟩

theorem Own.trans {call : Nat} {s s' s'' : State} (first : Own store call s s')
    (second : Own store call s' s'') : Own store call s s'' where
  role held := second.role (first.role held)
  file held := (second.file (first.role held)).trans (first.file held)
  node held h := second.node (first.role held) (first.node held h)
  leaves held h := second.leaves (first.role held) (first.leaves held h)
  acks held h mem := first.acks held h (second.acks (first.role held) (first.node held h) mem)

theorem Rely.refl (call : Nat) (s : State) : Rely store call s s :=
  ⟨.refl _, .refl call s⟩

theorem Rely.trans {call : Nat} {s s' s'' : State} (first : Rely store call s s')
    (second : Rely store call s' s'') : Rely store call s s'' :=
  ⟨first.keeps.trans second.keeps, first.own.trans second.own⟩

theorem solid_put {path p : BlobPath}
    (other : fs.node path ≠ some .dir) (solid : fs.Solid p) : (fs.put path node).Solid p := by
  intro left mem
  rw [Fs.leaves_put] at mem
  split at mem
  · next same => exact absurd (same ▸ solid.node) other
  · exact solid left mem

theorem keeps_put {path : BlobPath} (other : fs.node path ≠ some .dir)
    (blob : ∀ digest, path = store.pathFor digest → node ≠ none) :
    Keeps store fs (fs.put path node) where
  solid := solid_put other
  dir {p} isDir := by
    rw [Fs.node_put]
    split
    · next same => exact absurd (same ▸ isDir) other
    · exact isDir
  resident {digest} there := by
    rw [Fs.node_put]
    split
    · next same => exact blob digest same.symm
    · exact there
  settled {digest} there := by
    rw [Fs.leaves_put]
    split
    · next same =>
      exact fun mem => (mem_cons.mp mem).elim (fun h => blob digest same.symm h.symm) there
    · exact there

theorem keeps_syncDir (fs : Fs Name UInt8) (dir : BlobPath) : Keeps store fs (fs.syncDir dir) where
  solid solid left mem := solid left (fs.leaves_syncDir_subset _ dir mem)
  dir := id
  resident := id
  settled there mem := there (fs.leaves_syncDir_subset _ dir mem)

end Relations

/-! ## Changes -/

/-- What the operations of a call do, but for those that take entries away. -/
inductive Change (call : Nat) (s : State) : State → Prop
  | same : Change call s s
  | mkdir {path : BlobPath} (absent : s.fs.node path = none)
      (above : ∀ digest, path ≠ store.pathFor digest) :
      Change call s { s with fs := s.fs.put path (some .dir) }
  | syncDir (dir : BlobPath) : Change call s { s with fs := s.fs.syncDir dir }
  | create {path : BlobPath} (absent : s.fs.node path = none)
      (above : ∀ digest, path ≠ store.pathFor digest) : Change call s (s.create call path)
  | file {f : Nat} (held : s.role f = .held call) {new : File UInt8}
      (synced : new.synced <+: new.data) {acks lost : List Ack} (fewer : acks ⊆ s.acks)
      (kept : ∀ session bytes, .upload session bytes ∈ acks →
        s.fs.node (store.uploadPath session) = some (.file f) →
        bytes <+: (s.fs.file f).synced → bytes <+: new.synced) :
      Change call s { s with fs := s.fs.setFile f new, acks := acks, lost := lost }
  | move {source : BlobPath} {digest : String} {f : Nat}
      (node : s.fs.node source = some (.file f)) (held : s.role f = .held call)
      (clean : Clean s f) (hashes : store.digestOf (s.fs.file f).data = digest)
      (solid : s.fs.SolidUp (store.parentFor digest)) :
      Change call s (s.move store source (store.pathFor digest) f)
  | hold {f : Nat} (free : s.role f = .free) (there : f < s.fs.next) :
      Change call s (s.setRole f (.held call))
  | drop {path : BlobPath} {f : Nat} (node : s.fs.node path = some (.file f))
      (held : s.role f = .held call) {lost : List Ack} :
      Change call s { s.unlink store path with lost := lost }
  | ack {ack : Ack} {lost : List Ack} (holds : Holds store s ack)
      (mine : ∀ session bytes, ack = .upload session bytes → ∃ f,
        s.fs.node (store.uploadPath session) = some (.file f) ∧ s.role f = .held call) :
      Change call s { s with acks := ack :: s.acks, lost := lost }

/-- What an operation that removes can do. -/
inductive Removal (s : State) : State → Prop
  | same : Removal s s
  | unlink {path : BlobPath} {f : Nat} (node : s.fs.node path = some (.file f)) :
      Removal s (s.unlink store path)
  | rmdir {path : BlobPath} (below : path ≠ []) (bare : s.fs.isEmptyDir path) :
      Removal s { s with fs := s.fs.put path none }

variable {store} {call : Nat} {s s' : State}

variable {path : BlobPath} {f : Nat} {acks lost : List Ack}

theorem Inv.ne_pathFor (inv : Inv store s)
    (node : s.fs.node path = some (.file f)) (other : s.role f ≠ .published) (digest : String) :
    path ≠ store.pathFor digest := by
  rintro rfl
  obtain ⟨g, same, published, -, -⟩ := inv.blob (node ▸ s.fs.node_mem_leaves _)
  cases same
  exact other published

theorem Inv.blob_ne_dir (inv : Inv store s) (digest : String) :
    s.fs.node (store.pathFor digest) ≠ some .dir := by
  intro isDir
  obtain ⟨f, same, -⟩ := inv.blob (isDir ▸ s.fs.node_mem_leaves (store.pathFor digest))
  cases same

theorem node_of_leaves {fs : Fs Name UInt8} {p : BlobPath}
    (leaves : fs.leaves p = [node]) : fs.node p = node := by
  have mem := fs.node_mem_leaves p
  rw [leaves] at mem
  exact mem_singleton.mp mem

theorem Holds.there {ack : Ack} (holds : Holds store s ack) :
    s.fs.node (State.ackPath store ack) ≠ none := by
  cases ack with
  | blob digest => exact fun absent => holds.2 (absent ▸ s.fs.node_mem_leaves _)
  | upload session bytes =>
    obtain ⟨-, f, leaves, -⟩ := holds
    exact fun absent => Option.some_ne_none _ ((node_of_leaves leaves).symm.trans absent)

/-- A success goes on to hold where the directories above something stay, its
blob is not taken away and the file of its session neither moves nor shrinks. -/
theorem Holds.keep {ack : Ack} (holds : Holds store s ack)
    (solid : ∀ {name dir}, s.fs.node (name :: dir) ≠ none → s.fs.SolidUp dir → s'.fs.SolidUp dir)
    (blob : ∀ digest, ack = .blob digest → none ∉ s.fs.leaves (store.pathFor digest) →
      none ∉ s'.fs.leaves (store.pathFor digest))
    (upload : ∀ session bytes f, ack = .upload session bytes →
      s.fs.leaves (store.uploadPath session) = [some (.file f)] →
      bytes <+: (s.fs.file f).synced →
      s'.fs.leaves (store.uploadPath session) = [some (.file f)] ∧
        bytes <+: (s'.fs.file f).synced) :
    Holds store s' ack := by
  have there := holds.there
  cases ack with
  | blob digest => exact ⟨solid there holds.1, blob digest rfl holds.2⟩
  | upload session bytes =>
    obtain ⟨up, f, leaves, kept⟩ := holds
    exact ⟨solid there up, f, upload session bytes f rfl leaves kept⟩

/-! ## Directories and blobs stay -/

theorem Inv.keeps_unlink (inv : Inv store s) (node : s.fs.node path = some (.file f))
    (other : s.role f ≠ .published) : Keeps store s.fs (s.fs.put path none) :=
  keeps_put (node ▸ nofun) fun digest same => absurd same (inv.ne_pathFor node other digest)

/-- No change takes a blob or a directory away. -/
theorem Change.keeps (inv : Inv store s) (change : Change store call s s') :
    Keeps store s.fs s'.fs := by
  cases change with
  | same => exact .refl _
  | mkdir absent above =>
    exact keeps_put (absent ▸ nofun) fun digest same => absurd same (above digest)
  | syncDir dir => exact keeps_syncDir s.fs dir
  | @create path absent above =>
    have kept : Keeps store s.fs (s.fs.put path (some (.file s.fs.next))) :=
      keeps_put (absent ▸ nofun) fun digest same => absurd same (above digest)
    exact ⟨kept.solid, kept.dir, kept.resident, kept.settled⟩
  | file held synced fewer kept => exact ⟨id, id, id, id⟩
  | @move source digest f node held clean hashes solid =>
    refine (inv.keeps_unlink node (held ▸ nofun)).trans (keeps_put ?_ fun _ _ => nofun)
    rw [Fs.node_put]
    split
    · exact nofun
    · exact inv.blob_ne_dir _
  | hold free there => exact .refl _
  | drop node held => exact inv.keeps_unlink node (held ▸ nofun)
  | ack holds mine => exact .refl _

/-! ## The files of other calls stay -/

theorem own_put (other : ∀ f, s.role f = .held call → s.fs.node path ≠ some (.file f))
    (fewer : acks ⊆ s.acks) :
    Own store call s { s with fs := s.fs.put path node, acks := acks, lost := lost } where
  role := id
  file _ := rfl
  node {f p} held there := by
    rw [Fs.node_put, if_neg]
    · exact there
    · rintro rfl
      exact other f held there
  leaves {f p} held there := by
    rw [Fs.leaves_put, if_neg]
    · exact there
    · rintro rfl
      exact other f held (node_of_leaves there)
  acks _ _ mem := fewer mem

theorem own_setRole {role : Role} (other : s.role f ≠ .held call) :
    Own store call s (s.setRole f role) where
  role {g} held := by
    unfold State.setRole
    dsimp only
    rw [if_neg]
    · exact held
    · rintro rfl
      exact other held
  file _ := rfl
  node _ := id
  leaves _ := id
  acks _ _ := id

theorem own_forget (path : BlobPath) : Own store call s (s.forget store path) :=
  ⟨id, fun _ => rfl, fun _ => id, fun _ => id, fun _ _ => mem_of_mem_filter⟩

theorem own_setFile {new : File UInt8} (other : s.role f ≠ .held call) (fewer : acks ⊆ s.acks) :
    Own store call s { s with fs := s.fs.setFile f new, acks := acks, lost := lost } where
  role := id
  file {g} held := by
    rw [Fs.file_setFile, if_neg]
    rintro rfl
    exact other held
  node _ := id
  leaves _ := id
  acks _ _ mem := fewer mem

theorem own_syncDir (dir : BlobPath) : Own store call s { s with fs := s.fs.syncDir dir } where
  role := id
  file _ := rfl
  node _ := id
  leaves {f p} _ there := by
    obtain same | synced := s.fs.leaves_syncDir p dir
    · exact same.trans there
    · exact synced.trans (congrArg (fun node => [node]) (node_of_leaves there))
  acks _ _ := id

/-- A change leaves the files of other calls alone. -/
theorem Change.own (inv : Inv store s) (change : Change store call s s') {other : Nat}
    (different : other ≠ call) : Own store other s s' := by
  have apart : ∀ {f}, s.role f = .held call → s.role f ≠ .held other :=
    fun held same => different (Role.held.inj (same.symm.trans held))
  cases change with
  | same => exact .refl other s
  | mkdir absent above => exact own_put (fun f _ => absent ▸ nofun) fun _ mem => mem
  | syncDir dir => exact own_syncDir dir
  | @create path absent above =>
    have put : Own store other s { s with fs := s.fs.put path (some (.file s.fs.next)) } :=
      own_put (fun f _ => absent ▸ nofun) fun _ mem => mem
    have old : ∀ {f}, s.role f = .held other → f ≠ s.fs.next :=
      fun {f} held => Nat.ne_of_lt (inv.roles f (held ▸ nofun))
    exact ⟨fun held => (if_neg (old held)).trans held, fun held => if_neg (old held),
      put.node, put.leaves, put.acks⟩
  | file held synced fewer kept => exact own_setFile (apart held) fewer
  | @move source _ _ node held clean hashes solid =>
    have away : Own store other s { s with fs := s.fs.put source none } := by
      refine own_put (fun g mine there => ?_) fun _ mem => mem
      cases node.symm.trans there
      exact apart held mine
    refine Own.trans ?_ (own_forget _)
    refine Own.trans ?_ (own_setRole (apart held))
    refine away.trans (own_put (fun g mine there => ?_) fun _ mem => mem)
    rw [Fs.node_put] at there
    split at there
    · cases there
    · exact inv.ne_pathFor there (mine ▸ nofun) _ rfl
  | hold free there => exact own_setRole (free ▸ nofun)
  | drop node held =>
    refine own_put (fun f mine there => ?_) fun _ => mem_of_mem_filter
    cases node.symm.trans there
    exact apart held mine
  | ack holds mine =>
    refine ⟨id, fun _ => rfl, fun _ => id, fun _ => id, fun held node mem => ?_⟩
    obtain rfl | mem := mem_cons.mp mem
    · obtain ⟨f, there, yours⟩ := mine _ _ rfl
      cases node.symm.trans there
      exact absurd held (apart yours)
    · exact mem

end Peryx.Blob
