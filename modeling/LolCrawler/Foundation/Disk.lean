import Mathlib.Logic.Function.Basic
import LolCrawler.Foundation.Scripts

/-! # Files whose names are synced too

A file is in a directory under a name. Its bytes are safe from a crash once the file is
synced, and its name once the directory is. Until then a crash leaves of each name the
entry there is now, or one there was since the directory was last synced.

The end of a process is no crash: the disk goes on, and what was not synced still is not.

A link copies the file, so no file with two names may be written to. A directory is
there when it is needed, and no crash takes it. The times of files are left open.
-/

namespace Foundation

structure Path where
  dir : List String
  name : String
deriving DecidableEq

def Path.display (path : Path) : String := "/".intercalate (path.dir ++ [path.name])

/-- A file, and how many of its bytes are synced. -/
structure DiskFile where
  bytes : Bytes
  synced : Nat
deriving DecidableEq

/-- Nothing of the file can be lost. -/
def DiskFile.Whole (stored : DiskFile) : Prop := stored.bytes.length ≤ stored.synced

structure Disk where
  now : Path → Option DiskFile
  /-- The entries since the directory was last synced. -/
  past : Path → List (Option DiskFile)

namespace Disk

def empty : Disk := ⟨fun _ => none, fun _ => []⟩

/-- What may be found under the name after a crash. -/
def entries (disk : Disk) (path : Path) : List (Option DiskFile) := disk.now path :: disk.past path

/-- The contents of a file. -/
def look (disk : Disk) (path : Path) : Option Bytes := (disk.now path).map DiskFile.bytes

/-- The name is given to another file, or to none. -/
def rename (disk : Disk) (path : Path) (entry : Option DiskFile) : Disk where
  now := Function.update disk.now path entry
  past := Function.update disk.past path (disk.entries path)

/-- The file changes. -/
def edit (disk : Disk) (path : Path) (stored : DiskFile) : Disk :=
  { disk with now := Function.update disk.now path (some stored) }

def syncDir (disk : Disk) (dir : List String) : Disk :=
  { disk with past := fun path => if path.dir = dir then [] else disk.past path }

/-- There is a file, and no crash can take its name. -/
def Keeps (disk : Disk) (path : Path) : Prop := disk.now path ≠ none ∧ none ∉ disk.past path

/-- If there is a file, no crash can take its name. -/
def Synced (disk : Disk) (path : Path) : Prop := disk.now path ≠ none → none ∉ disk.past path

/-- What a crash of the machine may leave. -/
def Crashed (disk after : Disk) : Prop := ∀ path, after.past path = [] ∧
  ∃ entry ∈ disk.entries path, match entry with
    | none => after.now path = none
    | some stored => ∃ kept, stored.synced ≤ kept ∧
        after.now path = some ⟨stored.bytes.take kept, (stored.bytes.take kept).length⟩

/-- The name has the new entry. -/
@[simp] theorem rename_now_self (disk : Disk) (path : Path) (entry : Option DiskFile) :
    (disk.rename path entry).now path = entry := Function.update_self _ _ _

/-- The name may fall back to any entry from before. -/
@[simp] theorem rename_past_self (disk : Disk) (path : Path) (entry : Option DiskFile) :
    (disk.rename path entry).past path = disk.entries path := Function.update_self _ _ _

/-- Other names have their entries. -/
theorem rename_now_of_ne (disk : Disk) {path other : Path} (apart : other ≠ path)
    (entry : Option DiskFile) : (disk.rename path entry).now other = disk.now other :=
  Function.update_of_ne apart _ _

/-- Other names fall back to what they did. -/
theorem rename_past_of_ne (disk : Disk) {path other : Path} (apart : other ≠ path)
    (entry : Option DiskFile) : (disk.rename path entry).past other = disk.past other :=
  Function.update_of_ne apart _ _

/-- The file has the new bytes. -/
@[simp] theorem edit_now_self (disk : Disk) (path : Path) (file : DiskFile) :
    (disk.edit path file).now path = some file := Function.update_self _ _ _

/-- Other files have their bytes. -/
theorem edit_now_of_ne (disk : Disk) {path other : Path} (apart : other ≠ path)
    (file : DiskFile) : (disk.edit path file).now other = disk.now other :=
  Function.update_of_ne apart _ _

end Disk

/-- The operations on files. -/
inductive DiskOp where
  /-- Making a directory and its parents. -/
  | mkdirs (dir : List String)
  | stat (path : Path)
  /-- Whether the file is old enough. -/
  | older (path : Path)
  /-- Some files of this kind. -/
  | list (wanted : Path → Bool)
  | read (path : Path)
  | remove (path : Path)
  /-- Fails if the file exists. -/
  | createNew (path : Path)
  | create (path : Path)
  | write (path : Path) (data : Bytes)
  | sync (path : Path)
  /-- Answers whether the target was free. -/
  | link (source target : Path)
  | rename (source target : Path)
  | syncDir (dir : List String)

namespace DiskOp

abbrev Answer : DiskOp → Type
  | .stat _ | .older _ | .link _ _ => Bool
  | .list _ => List Path
  | .read _ => Option Bytes
  | _ => Unit

/-- The operation, its answer, and what it does. -/
def Performs : (op : DiskOp) → Disk → op.Answer → Disk → Prop
  | .mkdirs _, disk, _, after => after = disk
  | .stat path, disk, found, after => found = (disk.now path).isSome ∧ after = disk
  | .older _, disk, _, after => after = disk
  | .list wanted, disk, paths, after =>
      (∀ path ∈ paths, wanted path ∧ (disk.now path).isSome) ∧ after = disk
  | .read path, disk, found, after => found = disk.look path ∧ after = disk
  | .remove path, disk, _, after => after = disk.rename path none
  | .createNew path, disk, _, after =>
      disk.now path = none ∧ after = disk.rename path (some ⟨[], 0⟩)
  | .create path, disk, _, after => after = disk.rename path (some ⟨[], 0⟩)
  | .write path data, disk, _, after => ∃ stored, disk.now path = some stored ∧
      after = disk.edit path ⟨stored.bytes ++ data, stored.synced⟩
  | .sync path, disk, _, after => ∃ stored, disk.now path = some stored ∧
      after = disk.edit path ⟨stored.bytes, stored.bytes.length⟩
  | .link source target, disk, linked, after => ∃ stored, disk.now source = some stored ∧
      linked = (disk.now target).isNone ∧
        after = if linked then disk.rename target (some stored) else disk
  | .rename source target, disk, _, after => ∃ stored, disk.now source = some stored ∧
      after = (disk.rename target (some stored)).rename source none
  | .syncDir dir, disk, _, after => after = disk.syncDir dir

/-- What the operation leaves when it fails: a write may leave part of its data. -/
def Fails : DiskOp → Disk → Disk → Prop
  | .write path data, disk, after => after = disk ∨ ∃ stored count, disk.now path = some stored ∧
      after = disk.edit path ⟨stored.bytes ++ data.take count, stored.synced⟩
  | _, disk, after => after = disk

/-- The names that the operation may change. -/
def touches : DiskOp → List Path
  | .remove path | .createNew path | .create path | .write path _ | .sync path => [path]
  | .link _ target => [target]
  | .rename source target => [source, target]
  | _ => []

end DiskOp

/-! ## Names that nothing happens to -/

/-- The file is the same, and its name is no less safe. -/
structure Disk.Spared (before after : Disk) (path : Path) : Prop where
  now : after.now path = before.now path
  past : ∀ entry ∈ after.past path, entry ∈ before.past path

namespace Disk.Spared

variable {before between after : Disk} {path : Path}

/-- A disk that does not change spares every name. -/
theorem refl (disk : Disk) (path : Path) : Spared disk disk path := ⟨rfl, fun _ here => here⟩

/-- Two changes, one after the other, that spare the file. -/
theorem trans (first : Spared before between path) (second : Spared between after path) :
    Spared before after path :=
  ⟨second.now.trans first.now, fun entry here => first.past entry (second.past entry here)⟩

/-- A rename spares the other files. -/
theorem of_rename (disk : Disk) {other : Path} (apart : path ≠ other) (entry : Option DiskFile) :
    Spared disk (disk.rename other entry) path where
  now := disk.rename_now_of_ne apart entry
  past _ here := by rwa [disk.rename_past_of_ne apart] at here

/-- An edit spares the other files. -/
theorem of_edit (disk : Disk) {other : Path} (apart : path ≠ other) (stored : DiskFile) :
    Spared disk (disk.edit other stored) path where
  now := disk.edit_now_of_ne apart stored
  past _ here := here

/-- A sync of a directory spares every file. -/
theorem of_syncDir (disk : Disk) (dir : List String) : Spared disk (disk.syncDir dir) path where
  now := rfl
  past entry here := by
    simp only [Disk.syncDir] at here
    split at here
    · cases here
    · exact here

/-- A file that is spared has no new entries. -/
theorem entries (spared : Spared before after path) {entry : Option DiskFile}
    (inside : entry ∈ after.entries path) : entry ∈ before.entries path := by
  rcases List.mem_cons.mp inside with rfl | inside
  · rw [spared.now]
    exact List.mem_cons_self
  · exact List.mem_cons_of_mem _ (spared.past entry inside)

/-- A file that is spared is kept. -/
theorem keeps (spared : Spared before after path) (kept : before.Keeps path) :
    after.Keeps path :=
  ⟨spared.now ▸ kept.1, fun gone => kept.2 (spared.past _ gone)⟩

end Disk.Spared

/-- An operation changes only the names it touches. -/
theorem DiskOp.Performs.spared {op : DiskOp} {disk after : Disk} {answer : op.Answer}
    (performed : op.Performs disk answer after) {path : Path} (apart : path ∉ op.touches) :
    disk.Spared after path := by
  cases op with
  | mkdirs _ | older _ =>
      cases performed
      exact .refl _ _
  | stat _ | list _ | read _ =>
      obtain ⟨-, rfl⟩ := performed
      exact .refl _ _
  | remove other | create other =>
      cases performed
      exact .of_rename disk (List.ne_of_not_mem_cons apart) _
  | createNew other =>
      obtain ⟨-, rfl⟩ := performed
      exact .of_rename disk (List.ne_of_not_mem_cons apart) _
  | write other data | sync other =>
      obtain ⟨stored, -, rfl⟩ := performed
      exact .of_edit disk (List.ne_of_not_mem_cons apart) _
  | link source target =>
      obtain ⟨stored, -, -, rfl⟩ := performed
      split
      · exact .of_rename disk (List.ne_of_not_mem_cons apart) _
      · exact .refl _ _
  | rename source target =>
      obtain ⟨stored, -, rfl⟩ := performed
      have other : path ≠ target := List.ne_of_not_mem_cons (List.not_mem_of_not_mem_cons apart)
      exact (Disk.Spared.of_rename disk other _).trans
        (.of_rename _ (List.ne_of_not_mem_cons apart) _)
  | syncDir dir =>
      cases performed
      exact .of_syncDir disk dir

/-- An operation that fails spares the files that it does not touch. -/
theorem DiskOp.Fails.spared {op : DiskOp} {disk after : Disk} (failed : op.Fails disk after)
    {path : Path} (apart : path ∉ op.touches) : disk.Spared after path := by
  cases op with
  | write other data =>
      rcases failed with rfl | ⟨stored, count, -, rfl⟩
      · exact .refl _ _
      · exact .of_edit disk (List.ne_of_not_mem_cons apart) _
  | _ =>
      cases failed
      exact .refl _ _

/-! ## What a crash leaves of a file -/

section Crash

variable {disk after : Disk} {path : Path}

/-- A file that is whole in every entry comes back whole, or not at all. -/
theorem Disk.Crashed.now (crashed : disk.Crashed after)
    (whole : ∀ stored, some stored ∈ disk.entries path → stored.Whole) :
    (after.now path = none ∧ none ∈ disk.entries path) ∨
      ∃ stored, some stored ∈ disk.entries path ∧
        after.now path = some ⟨stored.bytes, stored.bytes.length⟩ := by
  obtain ⟨-, entry, inside, found⟩ := crashed path
  cases entry with
  | none => exact .inl ⟨found, inside⟩
  | some stored =>
      obtain ⟨kept, enough, here⟩ := found
      have all : stored.bytes.take kept = stored.bytes :=
        List.take_of_length_le (Nat.le_trans (whole stored inside) enough)
      rw [all] at here
      exact .inr ⟨stored, inside, here⟩

/-- A crash may lose nothing. -/
theorem Disk.crashed_settled (disk : Disk) : disk.Crashed
    ⟨fun path => (disk.now path).map fun file => ⟨file.bytes, file.bytes.length⟩, fun _ => []⟩ := by
  refine fun path => ⟨rfl, disk.now path, List.mem_cons_self, ?_⟩
  cases there : disk.now path with
  | none => simp [there]
  | some file =>
      refine ⟨max file.synced file.bytes.length, Nat.le_max_left _ _, ?_⟩
      simp [there, List.take_of_length_le (Nat.le_max_right file.synced file.bytes.length)]

/-- A crash may take a name that is not synced. -/
theorem Disk.crashed_lost (disk : Disk) (unsynced : none ∈ disk.past path) :
    disk.Crashed ⟨fun other => if other = path then none
      else (disk.now other).map fun file => ⟨file.bytes, file.bytes.length⟩, fun _ => []⟩ := by
  intro other
  by_cases same : other = path
  · subst same
    exact ⟨rfl, none, List.mem_cons_of_mem _ unsynced, if_pos rfl⟩
  · obtain ⟨past, entry, inside, found⟩ := disk.crashed_settled other
    refine ⟨past, entry, inside, ?_⟩
    simp only [if_neg same]
    exact found

end Crash

end Foundation
