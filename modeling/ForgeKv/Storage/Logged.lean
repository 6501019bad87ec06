import ForgeKv.Storage.Wal

namespace ForgeKv.Storage
open Raft (Bytes)

theorem images_append (records later : List WalRecord) : images (records ++ later) = images records ++ images later := by
  simp [images]

theorem images_take_le (records : List WalRecord) (count : Nat) : (images (records.take count)).length ≤ (images records).length := by
  have split := congrArg List.length (images_append (records.take count) (records.drop count))
  rw [List.take_append_drop,List.length_append] at split
  omega

theorem Consecutive.take (consecutive : Consecutive lsn records) (count : Nat) : Consecutive lsn (records.take count) := by
  induction records generalizing lsn count with
  | nil =>
    rw [List.take_nil]
    trivial
  | cons record later ih =>
    obtain ⟨valid,next,rest⟩ := consecutive
    cases count with
    | zero => trivial
    | succ count => exact ⟨valid,next,ih rest count⟩

theorem Consecutive.append (consecutive : Consecutive lsn records) (valid : record.Valid) (next : record.lsn = lsn+records.length+1) :
    Consecutive lsn (records ++ [record]) := by
  induction records generalizing lsn with
  | nil => exact ⟨valid,next,trivial⟩
  | cons head later ih =>
    obtain ⟨first,number,rest⟩ := consecutive
    refine ⟨first,number,ih rest ?_⟩
    rw [next,List.length_cons]
    omega

theorem Consecutive.length_le (consecutive : Consecutive lsn records) : records.length ≤ (images records).length := by
  induction records generalizing lsn with
  | nil => exact Nat.le_refl 0
  | cons record later ih =>
    obtain ⟨valid,_,rest⟩ := consecutive
    have head := valid.head_lt
    have length : (images (record::later)).length = record.size+(images later).length := by simp [images]
    have bound := ih rest
    rw [List.length_cons,length]
    omega

theorem torn_take (torn : Torn bytes) (size : Nat) : Torn (bytes.take size) := by
  obtain rfl | ⟨record,valid,part,short⟩ := torn
  · exact .inl List.take_nil
  · refine .inr ⟨record,valid,(List.take_prefix _ _).trans part,?_⟩
    exact Nat.lt_of_le_of_lt (List.length_take_le' _ _) short

theorem Consecutive.cut (consecutive : Consecutive lsn records) (torn : Torn rest) (size : Nat) :
    ∃ count left, (images records ++ rest).take size = images (records.take count) ++ left ∧ Torn left ∧
      ∀ whole, whole ≤ records.length → (images (records.take whole)).length ≤ size → whole ≤ count := by
  induction records generalizing lsn size with
  | nil => exact ⟨0,rest.take size,by simp [images],torn_take torn size,fun _ none _ => none⟩
  | cons record later ih =>
    obtain ⟨valid,_,consecutive⟩ := consecutive
    have length := record.image_length
    have split (tail : List WalRecord) : images (record::tail) = record.image ++ images tail := by simp [images]
    rw [split,List.append_assoc]
    by_cases short : size < record.size
    · refine ⟨0,record.image.take size,?_,.inr ⟨record,valid,List.take_prefix _ _,?_⟩,?_⟩
      · rw [List.take_append_of_le_length (by omega),List.take_zero]
        rfl
      · rw [List.length_take]
        omega
      · intro whole _ fits
        cases whole with
        | zero => exact Nat.le_refl 0
        | succ =>
          rw [List.take_succ_cons,split,List.length_append] at fits
          omega
    · obtain ⟨count,left,same,tail,inside⟩ := ih consecutive (size-record.size)
      refine ⟨count+1,left,?_,tail,?_⟩
      · rw [List.take_append,length,same,List.take_of_length_le (by omega),List.take_succ_cons,split,List.append_assoc]
      · intro whole within fits
        cases whole with
        | zero => exact Nat.zero_le _
        | succ whole =>
          rw [List.take_succ_cons,split,List.length_append,length] at fits
          exact Nat.succ_le_succ (inside whole (Nat.le_of_succ_le_succ within) (by omega))

theorem recover_images {wal : Wal} (consecutive : Consecutive 0 records) (torn : Torn rest) (same : file.contents = images records ++ rest)
    (running : wal.closed = false) :
    ∃ left, wal.recover file = .ok (left,{wal with lastLsn := records.length,durableLsn := records.length},records) ∧
      left.contents = images records ∧ left.covered = min file.covered (images records).length := by
  have replays := recoverBytes_images consecutive torn
  rw [← same] at replays
  by_cases none : rest = []
  · refine ⟨file,?_,by rw [same,none,List.append_nil],?_⟩
    · simp only [Wal.recover,running,replays,none,if_true,Bool.false_eq_true,if_false]
    · have inside := file.inside
      rw [same,none,List.append_nil] at inside
      exact (Nat.min_eq_left inside).symm
  · refine ⟨file.truncate (images records).length,?_,?_,rfl⟩
    · simp only [Wal.recover,running,replays,none,if_false,Bool.false_eq_true]
    · rw [SyncedFile.contents_truncate,same,List.take_left]

-- A file that holds these records, and at most a torn one behind them.
structure Logged (file : WalFile) (records : List WalRecord) : Prop where
  consecutive : Consecutive 0 records
  tail : ∃ rest, Torn rest ∧ file.contents = images records ++ rest
  small : file.contents.length ≤ maxFileSize

def Covered (file : WalFile) (records : List WalRecord) (count : Nat) : Prop :=
  count ≤ records.length ∧ (images (records.take count)).length ≤ file.covered

namespace Logged
variable {wal : Wal}

theorem empty : Logged .empty [] := ⟨trivial,⟨[],.inl rfl,rfl⟩,Nat.zero_le _⟩

theorem whole (consecutive : Consecutive 0 records) (same : file.contents = images records) (small : file.contents.length ≤ maxFileSize) :
    Logged file records := ⟨consecutive,⟨[],.inl rfl,by rw [same,List.append_nil]⟩,small⟩

section
variable (logged : Logged file records)
include logged

theorem length_lt : records.length+1 < 2^64 := by
  obtain ⟨rest,_,same⟩ := logged.tail
  have bound := logged.consecutive.length_le
  have small := logged.small
  rw [same,List.length_append] at small
  unfold maxFileSize at small
  omega

theorem recover (running : wal.closed = false) :
    ∃ left, wal.recover file = .ok (left,{wal with lastLsn := records.length,durableLsn := records.length},records) ∧
      left.contents = images records ∧ left.covered = min file.covered (images records).length := by
  obtain ⟨rest,torn,same⟩ := logged.tail
  exact recover_images logged.consecutive torn same running

theorem openFile :
    ∃ left, Wal.openFile file = .ok (left,⟨false,records.length,records.length⟩) ∧
      left.contents = images records ∧ left.covered = min file.covered (images records).length := by
  obtain ⟨left,recovers,contents,covered⟩ := logged.recover (rfl : (⟨false,0,0⟩ : Wal).closed = false)
  exact ⟨left,by simp only [Wal.openFile,recovers],contents,covered⟩

theorem recovered (same : left.contents = images records) : Logged left records := by
  refine whole logged.consecutive same ?_
  obtain ⟨rest,_,contents⟩ := logged.tail
  have small := logged.small
  rw [contents,List.length_append] at small
  rw [same]
  omega

theorem lose (kept : Nat) : ∃ count, Logged (file.lose kept) (records.take count) ∧
    ∀ whole, Covered file records whole → whole ≤ count := by
  obtain ⟨rest,torn,same⟩ := logged.tail
  obtain ⟨count,left,taken,tail,inside⟩ := logged.consecutive.cut torn (max file.covered kept)
  refine ⟨count,⟨logged.consecutive.take count,⟨left,tail,?_⟩,?_⟩,?_⟩
  · rw [SyncedFile.contents_lose,same]
    exact taken
  · exact Nat.le_trans (List.length_take_le' _ _) logged.small
  · intro whole ⟨within,fits⟩
    exact inside whole within (Nat.le_trans fits (Nat.le_max_left ..))

theorem sync : Logged file.sync records := {logged with}

theorem covered_sync : Covered file.sync records records.length := by
  obtain ⟨rest,_,same⟩ := logged.tail
  refine ⟨Nat.le_refl _,?_⟩
  rw [List.take_length]
  show _ ≤ file.contents.length
  rw [same,List.length_append]
  exact Nat.le_add_right _ _

theorem append (same : file.contents = images records) (running : wal.closed = false)
    (last : wal.lastLsn = records.length) (record : WalRecord) (room : Nat) :
    (∃ error left, wal.append file record room = (left,.error error) ∧ Logged left records ∧ left.covered = file.covered) ∨
    (∃ left, wal.append file record room = (left,.ok {wal with lastLsn := record.lsn}) ∧ record.Valid ∧ record.lsn = records.length+1 ∧
      Logged left (records ++ [record]) ∧ left.contents = images (records ++ [record]) ∧ left.covered = file.covered) := by
  have counts := logged.length_lt
  have wraps : (records.length+1) % 2^64 = records.length+1 := Nat.mod_eq_of_lt counts
  simp only [Wal.append,running,last,wraps,Bool.false_eq_true,if_false]
  by_cases next : record.lsn = records.length+1
  · simp only [next,ne_eq,not_true_eq_false,if_false]
    cases encoded : encodeRecord record with
    | error => exact .inl ⟨_,file,rfl,logged,rfl⟩
    | ok bytes =>
      have valid : record.Valid := by
        refine ⟨?_,next ▸ counts⟩
        unfold encodeRecord at encoded
        cases checked : validationError record with
        | none => rfl
        | some =>
          rw [checked] at encoded
          cases encoded
      have image : bytes = record.image := by
        rw [valid.encode] at encoded
        exact (Except.ok.inj encoded).symm
      subst image
      have length := record.image_length
      have small := logged.small
      dsimp only
      split
      · rename_i few
        have torn : Torn (record.image.take (min room (maxFileSize-file.contents.length))) := by
          refine .inr ⟨record,valid,List.take_prefix _ _,?_⟩
          rw [List.length_take]
          omega
        refine .inl ⟨_,_,rfl,⟨logged.consecutive,⟨_,torn,?_⟩,?_⟩,rfl⟩
        · rw [SyncedFile.contents_append,same]
        · rw [SyncedFile.contents_append,List.length_append,List.length_take]
          omega
      · rename_i enough
        have contents : (file.append record.image).contents = images (records ++ [record]) := by
          rw [SyncedFile.contents_append,same,images_append]
          simp [images]
        refine .inr ⟨_,rfl,valid,trivial,whole ?_ contents ?_,contents,rfl⟩
        · exact logged.consecutive.append valid (by omega)
        · rw [SyncedFile.contents_append,List.length_append]
          omega
  · simp only [next,ne_eq,not_false_eq_true,if_true]
    exact .inl ⟨_,file,rfl,logged,rfl⟩

end

end Logged

namespace Covered
variable {records later : List WalRecord}

theorem grow (covers : Covered file records count) (grows : records <+: later) (more : file.covered ≤ left.covered) :
    Covered left later count := by
  obtain ⟨within,fits⟩ := covers
  obtain ⟨-,rfl⟩ := grows
  refine ⟨Nat.le_trans within (List.prefix_append _ _).length_le,?_⟩
  rw [List.take_append_of_le_length within]
  exact Nat.le_trans fits more

theorem fewer (covers : Covered file records count) (less : part ≤ count) : Covered file records part := by
  obtain ⟨within,fits⟩ := covers
  refine ⟨Nat.le_trans less within,Nat.le_trans ?_ fits⟩
  have whole := images_take_le (records.take count) part
  rwa [List.take_take,Nat.min_eq_left less] at whole

end Covered
end ForgeKv.Storage
