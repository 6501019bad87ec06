import ForgeKv.Library.SyncedFile
import ForgeKv.Storage.WalRecord

namespace ForgeKv.Storage
open Raft (Bytes)
open BigEndian

inductive StorageErrorCode where
  | io
  | corruption
  | invalidLsn
  | closed
deriving DecidableEq, Repr

structure StorageError where
  code : StorageErrorCode
  message : String
deriving DecidableEq, Repr

-- A StorageError, or another exception that passes through.
inductive Failure where
  | storage (error : StorageError)
  | thrown (message : String)
deriving DecidableEq, Repr

abbrev WalFile := SyncedFile UInt8

-- What recover hands to its callback, and the size to which it cuts the file, if it does.
structure Recovered where
  records : List WalRecord
  lastLsn : Nat
  cut : Option Nat
deriving DecidableEq, Repr

-- The loop of recover. Every turn takes a record, so as many turns as there are
-- bytes are enough.
def recoverFrom : Nat → Bytes → Nat → Nat → Except StorageError Recovered
  | 0,_,_,recoveredLsn => .ok ⟨[],recoveredLsn,none⟩
  | turns+1,bytes,offset,recoveredLsn =>
    if bytes = [] then .ok ⟨[],recoveredLsn,none⟩
    else if bytes.length < walHeaderSize then .ok ⟨[],recoveredLsn,some offset⟩
    else match decodeRecord (bytes.take walHeaderSize) with
      | .corrupt error => .error ⟨.corruption,"WAL corruption at offset " ++ toString offset ++ ": " ++ error⟩
      | .complete _ _ | .incomplete =>
        let recordSize := field bytes 8 4
        if recordSize < walHeaderSize ∨ maxWalRecordSize < recordSize then
          .error ⟨.corruption,"invalid WAL record size at offset " ++ toString offset⟩
        else if bytes.length < recordSize then .ok ⟨[],recoveredLsn,some offset⟩
        else match decodeRecord (bytes.take recordSize) with
          | .incomplete => .error ⟨.corruption,"WAL corruption at offset " ++ toString offset ++ ": "⟩
          | .corrupt error => .error ⟨.corruption,"WAL corruption at offset " ++ toString offset ++ ": " ++ error⟩
          | .complete record consumed =>
            if record.lsn ≠ (recoveredLsn+1) % 2^64 then
              .error ⟨.corruption,"non-contiguous WAL LSN at offset " ++ toString offset⟩
            else match recoverFrom turns (bytes.drop consumed) (offset+consumed) record.lsn with
              | .error error => .error error
              | .ok rest => .ok {rest with records := record::rest.records}

def recoverBytes (bytes : Bytes) : Except StorageError Recovered := recoverFrom bytes.length bytes 0 0

structure Wal where
  closed : Bool
  lastLsn : Nat
  durableLsn : Nat
deriving DecidableEq, Repr

-- off_t
def maxFileSize : Nat := 2^63-1

namespace Wal

def recover (wal : Wal) (file : WalFile) : Except StorageError (WalFile × Wal × List WalRecord) :=
  if wal.closed then .error ⟨.closed,"recover closed WAL"⟩
  else match recoverBytes file.contents with
    | .error error => .error error
    | .ok recovered =>
      let left := match recovered.cut with
        | none => file
        | some size => file.truncate size
      .ok (left,{wal with lastLsn := recovered.lastLsn,durableLsn := recovered.lastLsn},recovered.records)

-- The file is created where it is missing.
def openFile (file : WalFile) : Except StorageError (WalFile × Wal) :=
  match (⟨false,0,0⟩ : Wal).recover file with
  | .error error => .error error
  | .ok (left,wal,_) => .ok (left,wal)

-- The file takes at most room more bytes, and none past the largest offset;
-- write_all fails after them.
def append (wal : Wal) (file : WalFile) (record : WalRecord) (room : Nat) : WalFile × Except Failure Wal :=
  if wal.closed then (file,.error (.storage ⟨.closed,"append to closed WAL"⟩))
  else if record.lsn ≠ (wal.lastLsn+1) % 2^64 then
    (file,.error (.storage ⟨.invalidLsn,"WAL LSN must be the next gap-free value"⟩))
  else match encodeRecord record with
    | .error message => (file,.error (.thrown message))
    | .ok encoded =>
      let taken := min room (maxFileSize-file.contents.length)
      if taken < encoded.length then (file.append (encoded.take taken),.error (.storage ⟨.io,"append WAL"⟩))
      else (file.append encoded,.ok {wal with lastLsn := record.lsn})

def sync (wal : Wal) (file : WalFile) (completes : Bool) : WalFile × Except Failure Wal :=
  if wal.closed then (file,.error (.storage ⟨.closed,"sync closed WAL"⟩))
  else if completes then (file.sync,.ok {wal with durableLsn := wal.lastLsn})
  else (file,.error (.storage ⟨.io,"sync WAL"⟩))

end Wal

-- Records as they are appended one after the other.
def Consecutive : Nat → List WalRecord → Prop
  | _,[] => True
  | lsn,record::rest => record.Valid ∧ record.lsn = lsn+1 ∧ Consecutive (lsn+1) rest

def images (records : List WalRecord) : Bytes := (records.map WalRecord.image).flatten

-- What is left of an append that was not finished.
def Torn (bytes : Bytes) : Prop := bytes = [] ∨ ∃ record : WalRecord, record.Valid ∧ bytes <+: record.image ∧ bytes.length < record.size

namespace WalRecord
variable {record : WalRecord}

theorem Valid.head_lt (valid : record.Valid) : walHeaderSize < record.size := by
  obtain ⟨_,named,_⟩ := valid.bounds
  have some := List.length_pos_of_ne_nil named
  unfold size
  omega

theorem Valid.size_le (valid : record.Valid) : record.size ≤ maxWalRecordSize := by
  obtain ⟨_,_,key,value,_⟩ := valid.bounds
  unfold size maxWalRecordSize
  omega

theorem Valid.size_field (valid : record.Valid) (rest : Bytes) : field (record.image ++ rest) 8 4 = record.size := by
  have small : record.size < 256^4 := Nat.lt_of_le_of_lt valid.size_le (by decide)
  simp only [image,front,List.append_assoc]
  simp (disch := omega) [Nat.mod_eq_of_lt]

end WalRecord

theorem recoverFrom_torn (torn : Torn bytes) (enough : bytes.length ≤ turns) (offset lsn : Nat) :
    recoverFrom turns bytes offset lsn = .ok ⟨[],lsn,if bytes = [] then none else some offset⟩ := by
  cases turns with
  | zero =>
    have empty : bytes = [] := List.length_eq_zero_iff.mp (Nat.le_zero.mp enough)
    simp [recoverFrom,empty]
  | succ =>
    by_cases empty : bytes = []
    · simp [recoverFrom,empty]
    · obtain none | ⟨record,valid,part,short⟩ := torn
      · exact absurd none empty
      · by_cases few : bytes.length < walHeaderSize
        · simp [recoverFrom,empty,few]
        · have header : walHeaderSize ≤ bytes.length := Nat.le_of_not_lt few
          have cut : bytes = record.image.take bytes.length := (List.prefix_iff_eq_take.mp part)
          have first : bytes.take walHeaderSize = record.image.take walHeaderSize := by
            rw [cut,List.take_take,Nat.min_eq_left header]
          have size : field bytes 8 4 = record.size := by
            have whole := valid.size_field []
            rw [List.append_nil] at whole
            rw [cut,field_take _ (by simp only [walHeaderSize] at header; omega),whole]
          have bounds : ¬(record.size < walHeaderSize ∨ maxWalRecordSize < record.size) := by
            have high := valid.size_le
            omega
          simp only [recoverFrom,empty,if_false,few,first,valid.decode_part (Nat.le_refl _) valid.head_lt,size,bounds,short,if_true]

theorem recoverFrom_record (valid : record.Valid) (next : record.lsn = lsn+1) (turns : Nat) (more : Bytes) (offset : Nat) :
    recoverFrom (turns+1) (record.image ++ more) offset lsn =
      match recoverFrom turns more (offset+record.size) (lsn+1) with
      | .error error => .error error
      | .ok rest => .ok {rest with records := record::rest.records} := by
  have head := valid.head_lt
  have length := record.image_length
  have some : record.image ++ more ≠ [] := by
    intro none
    have empty := congrArg List.length none
    rw [List.length_append,length,List.length_nil] at empty
    omega
  have many : ¬(record.image ++ more).length < walHeaderSize := by
    rw [List.length_append,length]
    omega
  have first : (record.image ++ more).take walHeaderSize = record.image.take walHeaderSize :=
    List.take_append_of_le_length (by omega)
  have bounds : ¬(record.size < walHeaderSize ∨ maxWalRecordSize < record.size) := by
    have high := valid.size_le
    omega
  have whole : ¬(record.image ++ more).length < record.size := by
    rw [List.length_append,length]
    omega
  have taken : (record.image ++ more).take record.size = record.image := by rw [← length,List.take_left]
  have dropped : (record.image ++ more).drop record.size = more := by rw [← length,List.drop_left]
  have decoded : decodeRecord record.image = .complete record record.size := by
    have exactly := valid.decode []
    rwa [List.append_nil] at exactly
  have wraps : (lsn+1) % 2^64 = lsn+1 := Nat.mod_eq_of_lt (next ▸ valid.lsn)
  simp only [recoverFrom,some,if_false,many,first,valid.decode_part (Nat.le_refl _) head,valid.size_field more,bounds,whole,taken,decoded,
    wraps,next,ne_eq,not_true_eq_false,dropped]

theorem recoverFrom_images (consecutive : Consecutive lsn records) (torn : Torn rest) (enough : (images records ++ rest).length ≤ turns)
    (offset : Nat) :
    recoverFrom turns (images records ++ rest) offset lsn =
      .ok ⟨records,lsn+records.length,if rest = [] then none else some (offset+(images records).length)⟩ := by
  induction records generalizing lsn turns offset with
  | nil => exact recoverFrom_torn torn enough offset lsn
  | cons record later ih =>
    obtain ⟨valid,next,consecutive⟩ := consecutive
    have split : images (record::later) ++ rest = record.image ++ (images later ++ rest) := by
      simp [images]
    have size := record.image_length
    have head := valid.head_lt
    rw [split,List.length_append,size] at enough
    obtain ⟨left,rfl⟩ : ∃ left, turns = left+1 := ⟨turns-1,by omega⟩
    rw [split,recoverFrom_record valid next,ih consecutive (by omega)]
    have length : (images (record::later)).length = record.size+(images later).length := by simp [images]
    have count : lsn+1+later.length = lsn+(record::later).length := by
      rw [List.length_cons]
      omega
    simp only [count,length,Nat.add_assoc]

theorem recoverBytes_images (consecutive : Consecutive 0 records) (torn : Torn rest) :
    recoverBytes (images records ++ rest) =
      .ok ⟨records,records.length,if rest = [] then none else some (images records).length⟩ := by
  have replays := recoverFrom_images consecutive torn (Nat.le_refl _) 0
  simpa [recoverBytes] using replays

end ForgeKv.Storage
