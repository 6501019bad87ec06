import Mathlib.Logic.Function.Basic

namespace ForgeKv.CrashDisk

variable {Name : Type u} {Byte : Type v} [DecidableEq Name]

abbrev Disk (Name : Type u) (Byte : Type v) := Name → Option (List Byte)

def Disk.empty : Disk Name Byte := fun _ => none

-- What a program does to named files. A file is published by renaming a complete
-- and synced temporary file, so the temporary file never shows.
inductive Effect (Name : Type u) (Byte : Type v) where
  | publish (file : Name) (contents : List Byte)
  | append (file : Name) (bytes : List Byte)
  | truncate (file : Name) (size : Nat)
  | sync (file : Name)
  | syncDirectory
deriving DecidableEq, Repr

def Effect.apply (disk : Disk Name Byte) : Effect Name Byte → Disk Name Byte
  | .publish file contents => Function.update disk file (some contents)
  | .append file bytes => Function.update disk file ((disk file).map (· ++ bytes))
  | .truncate file size => Function.update disk file ((disk file).map (List.take size))
  | .sync _ | .syncDirectory => disk

def Disk.run (disk : Disk Name Byte) (effects : List (Effect Name Byte)) : Disk Name Byte := effects.foldl Effect.apply disk

-- What a crash can leave of a list of effects. An append that was not synced
-- leaves any of its first bytes; everything else happens or does not.
inductive Leaves : Disk Name Byte → List (Effect Name Byte) → Disk Name Byte → Prop where
  | stop : Leaves disk effects disk
  | torn : Leaves disk (.append file bytes::rest) (Effect.apply disk (.append file (bytes.take kept)))
  | step : Leaves (Effect.apply disk effect) rest left → Leaves disk (effect::rest) left

variable {disk left : Disk Name Byte} {one two rest : List (Effect Name Byte)}

@[simp] theorem run_nil : disk.run [] = disk := rfl

@[simp] theorem run_cons : disk.run (effect::rest) = (Effect.apply disk effect).run rest := rfl

@[simp] theorem run_append : disk.run (one ++ two) = (disk.run one).run two := List.foldl_append ..

@[simp] theorem publish_same : Effect.apply disk (.publish file contents) file = some contents := Function.update_self ..

theorem publish_other (other : name ≠ file) : Effect.apply disk (.publish file contents) name = disk name :=
  Function.update_of_ne other ..

@[simp] theorem append_same : Effect.apply disk (.append file bytes) file = (disk file).map (· ++ bytes) := Function.update_self ..

theorem append_other (other : name ≠ file) : Effect.apply disk (.append file bytes) name = disk name :=
  Function.update_of_ne other ..

@[simp] theorem truncate_same : Effect.apply disk (.truncate file size) file = (disk file).map (List.take size) :=
  Function.update_self ..

theorem truncate_other (other : name ≠ file) : Effect.apply disk (.truncate file size) name = disk name :=
  Function.update_of_ne other ..

-- The file that an effect changes.
def Effect.changes : Effect Name Byte → Option Name
  | .publish file _ | .append file _ | .truncate file _ => some file
  | .sync _ | .syncDirectory => none

theorem run_spared (spared : ∀ effect ∈ one, effect.changes ≠ some name) : disk.run one name = disk name := by
  induction one generalizing disk with
  | nil => rfl
  | cons effect rest ih =>
    have first := spared effect List.mem_cons_self
    refine (ih fun other member => spared other (List.mem_cons_of_mem _ member)).trans ?_
    cases effect with
    | publish => exact publish_other fun same => first (congrArg some same.symm)
    | append => exact append_other fun same => first (congrArg some same.symm)
    | truncate => exact truncate_other fun same => first (congrArg some same.symm)
    | sync | syncDirectory => rfl

theorem run_published (only : ∀ effect ∈ one, effect.changes = some name → effect = .publish name contents) :
    disk.run one name = disk name ∨ disk.run one name = some contents := by
  induction one generalizing disk with
  | nil => exact .inl rfl
  | cons effect rest ih =>
    have later : (Effect.apply disk effect).run rest name = _ ∨ _ := ih fun other member => only other (List.mem_cons_of_mem _ member)
    by_cases touched : effect.changes = some name
    · rw [only effect List.mem_cons_self touched] at later ⊢
      exact .inr (later.elim (fun same => same.trans publish_same) id)
    · have same : disk.run [effect] name = disk name := run_spared fun other member => by
        rw [List.mem_singleton.mp member]
        exact touched
      exact later.imp_left fun kept => kept.trans same

theorem leaves_nil (leaves : Leaves disk [] left) : left = disk := by
  cases leaves
  rfl

theorem leaves_sync (leaves : Leaves disk (.sync file::rest) left) : Leaves disk rest left := by
  cases leaves with
  | stop => exact .stop
  | step later => exact later

theorem leaves_syncDirectory (leaves : Leaves disk (.syncDirectory::rest) left) : Leaves disk rest left := by
  cases leaves with
  | stop => exact .stop
  | step later => exact later

theorem leaves_publish (leaves : Leaves disk (.publish file contents::rest) left) :
    left = disk ∨ Leaves (Effect.apply disk (.publish file contents)) rest left := by
  cases leaves with
  | stop => exact .inl rfl
  | step later => exact .inr later

theorem leaves_append_sync (leaves : Leaves disk [.append file bytes,.sync file] left) :
    ∃ kept, left = Effect.apply disk (.append file (bytes.take kept)) := by
  cases leaves with
  | stop =>
    refine ⟨0,?_⟩
    have nothing : (disk file).map (· ++ ([] : List Byte)) = disk file := by cases disk file <;> simp
    exact ((Function.update_eq_self_iff).mpr nothing).symm
  | torn => exact ⟨_,rfl⟩
  | step later =>
    refine ⟨bytes.length,?_⟩
    rw [List.take_length]
    exact leaves_nil (leaves_sync later)

theorem leaves_split (leaves : Leaves disk (one ++ two) left) : Leaves disk one left ∨ Leaves (disk.run one) two left := by
  induction one generalizing disk with
  | nil => exact .inr leaves
  | cons effect rest ih =>
    cases leaves with
    | stop => exact .inl .stop
    | torn => exact .inl .torn
    | step later => exact (ih later).imp .step id

end ForgeKv.CrashDisk
