import Mathlib

/-!
# A file system that may crash

Files and directories as processes see them, together with what a crash may
leave of them. A file's bytes are durable once the file was synced; an entry of a
directory, be it a file or a directory, is durable once the directory was synced
after the entry was made. Until then a crash leaves the entry as it was last
synced, or as any change since made it.
-/

namespace Peryx.CrashFs

open List

variable {Name β : Type}

/-- From the entry up to the top: the directory that holds `name :: path` is
`path`. -/
abbrev Path (Name : Type) := List Name

/-- What an entry names. -/
inductive Node where
  | dir
  | file (inode : Nat)
deriving DecidableEq

/-- The bytes of a file, and those a crash leaves for certain. -/
structure File (β : Type) where
  data : List β
  synced : List β
deriving DecidableEq

/-- What processes see at each path, and what else a crash may leave there. -/
structure Fs (Name β : Type) where
  node : Path Name → Option Node
  older : Path Name → List (Option Node)
  file : Nat → File β
  next : Nat
  /-- The paths where there ever was something. -/
  paths : List (Path Name)

namespace Fs

def empty : Fs Name β where
  node p := if p.isEmpty then some .dir else none
  older _ := []
  file _ := ⟨[], []⟩
  next := 0
  paths := [[]]

/-- What a crash may leave at a path. -/
def leaves (fs : Fs Name β) (p : Path Name) : List (Option Node) :=
  fs.node p :: fs.older p

theorem node_mem_leaves (fs : Fs Name β) (p : Path Name) : fs.node p ∈ fs.leaves p :=
  mem_cons_self

def setFile (fs : Fs Name β) (inode : Nat) (file : File β) : Fs Name β :=
  { fs with file := fun f => if f = inode then file else fs.file f }

section File

variable (fs : Fs Name β) (inode : Nat) (file : File β)

@[simp] theorem file_setFile (f : Nat) :
    (fs.setFile inode file).file f = if f = inode then file else fs.file f := rfl

end File

variable [DecidableEq Name]

/-- An entry changes; until its directory is synced, a crash may undo this. -/
def put (fs : Fs Name β) (path : Path Name) (node : Option Node) : Fs Name β :=
  { fs with
    node := fun p => if p = path then node else fs.node p
    older := fun p => if p = path then fs.node p :: fs.older p else fs.older p
    paths := path :: fs.paths }

/-- The entries of a directory become certain. -/
def syncDir (fs : Fs Name β) (dir : Path Name) : Fs Name β :=
  { fs with
    older := fun p =>
      match p with
      | [] => fs.older []
      | name :: parent => if parent = dir then [] else fs.older (name :: parent) }

def create (fs : Fs Name β) (path : Path Name) : Fs Name β :=
  { (fs.put path (some (.file fs.next))).setFile fs.next ⟨[], []⟩ with next := fs.next + 1 }

def isEmptyDir (fs : Fs Name β) (dir : Path Name) : Bool :=
  fs.node dir = some .dir ∧ ∀ p ∈ fs.paths, p ≠ [] → p.tail = dir → fs.node p = none

variable (fs : Fs Name β) (path p : Path Name) (node : Option Node) (dir : Path Name)

@[simp] theorem node_put : (fs.put path node).node p = if p = path then node else fs.node p := rfl

theorem leaves_put :
    (fs.put path node).leaves p = if p = path then node :: fs.leaves p else fs.leaves p := by
  unfold leaves put
  dsimp only
  split <;> rfl

/-- A sync makes an entry certain, or has nothing to do with it. -/
theorem leaves_syncDir :
    (fs.syncDir dir).leaves p = fs.leaves p ∨ (fs.syncDir dir).leaves p = [fs.node p] := by
  unfold leaves syncDir
  cases p with
  | nil => exact .inl rfl
  | cons name parent =>
    dsimp only
    split
    · exact .inr rfl
    · exact .inl rfl

theorem leaves_syncDir_subset : (fs.syncDir dir).leaves p ⊆ fs.leaves p := by
  obtain same | synced := leaves_syncDir fs p dir
  · rw [same]
    exact fun _ mem => mem
  · rw [synced]
    exact cons_subset.mpr ⟨fs.node_mem_leaves p, nil_subset _⟩

theorem leaves_syncDir_self (name : Name) :
    (fs.syncDir dir).leaves (name :: dir) = [fs.node (name :: dir)] := by
  unfold leaves syncDir
  dsimp only
  rw [if_pos rfl]

end Fs

/-! ## Crashes -/

/-- `after` is left of `fs` by a crash: each entry as it was last synced or as a
change since made it, each file with the bytes that were synced. -/
structure Crashes (fs after : Fs Name β) : Prop where
  node : ∀ p, after.node p ∈ fs.leaves p
  synced : ∀ f, (fs.file f).synced <+: (after.file f).data
  clean : ∀ f, (fs.file f).synced = (fs.file f).data → (after.file f).data = (fs.file f).data

/-- The bytes at a path, if its directories are there. -/
def Fs.read (fs : Fs Name β) : Path Name → Option (List β)
  | [] => none
  | name :: dir =>
    if dir.tails.all (fs.node · = some .dir) then
      match fs.node (name :: dir) with
      | some (.file f) => some (fs.file f).data
      | _ => none
    else none

def Fs.unsynced (fs : Fs Name β) : Fs Name β :=
  { fs with
    older := fun _ => []
    file := fun f => ⟨(fs.file f).synced, (fs.file f).synced⟩ }

theorem crashes_unsynced (fs : Fs Name β) : Crashes fs fs.unsynced where
  node := fs.node_mem_leaves
  synced _ := prefix_refl _
  clean _ same := same

namespace Fs

/-- No crash takes the directory away. -/
def Solid (fs : Fs Name β) (dir : Path Name) : Prop :=
  ∀ node ∈ fs.leaves dir, node = some .dir

/-- Nor those above it. -/
def SolidUp (fs : Fs Name β) (dir : Path Name) : Prop :=
  ∀ p ∈ dir.tails, fs.Solid p

instance (fs : Fs Name β) (dir : Path Name) : Decidable (fs.Solid dir) :=
  inferInstanceAs (Decidable (∀ node ∈ fs.leaves dir, node = some .dir))

instance (fs : Fs Name β) (dir : Path Name) : Decidable (fs.SolidUp dir) :=
  inferInstanceAs (Decidable (∀ p ∈ dir.tails, fs.Solid p))

def OnFile (fs : Fs Name β) (path : Path Name) (holds : Nat → Prop) : Prop :=
  match fs.node path with
  | some (.file f) => holds f
  | _ => True

instance (fs : Fs Name β) (path : Path Name) (holds : Nat → Prop) [DecidablePred holds] :
    Decidable (fs.OnFile path holds) :=
  match is : fs.node path with
  | some (.file f) => decidable_of_iff (holds f) (by rw [OnFile, is])
  | some .dir => isTrue (by rw [OnFile, is]; trivial)
  | none => isTrue (by rw [OnFile, is]; trivial)

theorem OnFile.of_node {fs : Fs Name β} {path : Path Name} {holds : Nat → Prop} {f : Nat}
    (here : fs.OnFile path holds) (node : fs.node path = some (.file f)) : holds f := by
  rwa [OnFile, node] at here

theorem Solid.node {fs : Fs Name β} {dir : Path Name} (solid : fs.Solid dir) :
    fs.node dir = some .dir :=
  solid _ (fs.node_mem_leaves dir)

end Fs

end Peryx.CrashFs
