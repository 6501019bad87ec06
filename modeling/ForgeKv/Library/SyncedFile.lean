import Mathlib.Data.List.Basic

namespace ForgeKv

-- A file that is written at its end. The first covered bytes are those that the
-- last completed sync covers.
structure SyncedFile (Byte : Type u) where
  contents : List Byte
  covered : Nat
  inside : covered ≤ contents.length

namespace SyncedFile
variable {Byte : Type u}

def empty : SyncedFile Byte := ⟨[],0,Nat.le_refl 0⟩

def append (file : SyncedFile Byte) (bytes : List Byte) : SyncedFile Byte where
  contents := file.contents ++ bytes
  covered := file.covered
  inside := by
    rw [List.length_append]
    exact Nat.le_add_right_of_le file.inside

def sync (file : SyncedFile Byte) : SyncedFile Byte := ⟨file.contents,file.contents.length,Nat.le_refl _⟩

def truncate (file : SyncedFile Byte) (size : Nat) : SyncedFile Byte where
  contents := file.contents.take size
  covered := min file.covered size
  inside := by
    have inside := file.inside
    rw [List.length_take]
    omega

-- A loss of power. The covered bytes stay, and of the later ones a first part;
-- what is left is on the disk.
def lose (file : SyncedFile Byte) (kept : Nat) : SyncedFile Byte where
  contents := file.contents.take (max file.covered kept)
  covered := (file.contents.take (max file.covered kept)).length
  inside := Nat.le_refl _

theorem contents_append (file : SyncedFile Byte) (bytes : List Byte) : (file.append bytes).contents = file.contents ++ bytes := rfl

theorem contents_truncate (file : SyncedFile Byte) (size : Nat) : (file.truncate size).contents = file.contents.take size := rfl

theorem contents_lose (file : SyncedFile Byte) (kept : Nat) :
    (file.lose kept).contents = file.contents.take (max file.covered kept) := rfl

theorem covered_lose (file : SyncedFile Byte) (kept : Nat) : file.covered ≤ (file.lose kept).covered := by
  have inside := file.inside
  show _ ≤ (file.contents.take (max file.covered kept)).length
  rw [List.length_take]
  omega

end SyncedFile

end ForgeKv
