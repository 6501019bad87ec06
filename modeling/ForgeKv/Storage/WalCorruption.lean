import ForgeKv.Protocol.Slicing
import ForgeKv.Storage.Logged

namespace ForgeKv.Storage
open Raft (Bytes)
open BigEndian
open Protocol
open OneChange (Changed)

theorem recordChecksum_eq (front payload : Bytes) : recordChecksum front payload = (crc32 (front ++ payload)).toNat := by
  unfold recordChecksum crc32
  rw [Protocol.update_append]

namespace WalRecord
variable {record : WalRecord} {other rest : Bytes}

theorem checksum_changed (changed : Changed record.image other) :
    field other 32 4 ≠ recordChecksum (other.take 32) (other.drop walHeaderSize) := by
  have front := record.front_length
  have size : walHeaderSize = 36 := rfl
  rw [recordChecksum_eq,size]
  unfold image at changed
  rw [recordChecksum_eq] at changed
  rcases changed.append with ⟨first,inner,rfl⟩ | ⟨second,inner,rfl⟩
  · have length := inner.length.trans front
    have payload : (first ++ (encode 4 (crc32 (record.front ++ record.payload)).toNat ++ record.payload)).drop 36 = record.payload := by
      rw [← List.append_assoc]
      exact List.drop_left' (by simp [length])
    rw [payload,List.take_left' length,field_skip _ _ (Nat.le_of_eq length),length,Nat.sub_self,field_encode,
      crc_small]
    obtain ⟨start,old,new,back,different,before,after⟩ := inner
    exact crc32_changed ⟨start,old,new,back ++ record.payload,different,by simp [before],by simp [after]⟩
  · rw [List.take_left' front,field_skip _ _ (Nat.le_of_eq front),front,Nat.sub_self]
    rcases inner.append with ⟨sum,edited,rfl⟩ | ⟨behind,edited,rfl⟩
    · have length : sum.length = 4 := by simpa using edited.length
      rw [← List.append_assoc,List.drop_left' (by simp [front,length])]
      unfold field
      rw [List.drop_zero,List.take_left' length]
      exact tail_changed edited
    · rw [← List.append_assoc,List.drop_left' (by simp [front]),field_encode,crc_small]
      exact crc32_changed (edited.behind record.front)

theorem header_lengths {header : WalHeader} (passed : Storage.decodeHeader other = .ok header) : header.recordSize = field other 8 4 ∧
    field other 8 4 = walHeaderSize+field other 24 4+field other 28 4 := by
  unfold Storage.decodeHeader at passed
  iterate 4
    split at passed
    · cases passed
  dsimp only at passed
  iterate 2
    split at passed
    · cases passed
  split at passed
  · cases passed
  · rename_i agree
    split at passed
    · cases passed
    · split at passed
      · cases passed
      · split at passed
        · cases passed
        · cases passed
          exact ⟨rfl,not_not.mp agree⟩

-- A length that was changed does not pass: the three lengths must agree, and two
-- of them are as they were.
theorem size_changed {header : WalHeader} (valid : record.Valid) (changed : Changed record.image other)
    (passed : Storage.decodeHeader (other ++ rest) = .ok header) : header.recordSize = record.size := by
  obtain ⟨same,agree⟩ := header_lengths passed
  rw [same]
  have small : record.size < 256^4 := Nat.lt_of_le_of_lt valid.size_le (by decide)
  obtain ⟨_,_,key,value,_⟩ := valid.bounds
  have split : record.image = (encode 4 walMagic ++ (encode 2 walVersion ++ encode 2 walHeaderSize)) ++ (encode 4 record.size ++
      (encode 8 record.lsn ++ (encode 1 record.operation.code ++ (encode 1 0 ++ (encode 1 0 ++ (encode 1 0 ++
        (encode 4 record.key.length ++ (encode 4 record.value.length ++
          (encode 4 (recordChecksum record.front record.payload) ++ record.payload)))))))) ) := by
    simp only [image,front,List.append_assoc]
  rw [split] at changed
  rcases changed.append with ⟨first,inner,rfl⟩ | ⟨second,inner,rfl⟩
  · have length : first.length = 8 := by simpa using inner.length
    rw [List.append_assoc,field_skip _ _ (Nat.le_of_eq length),length,Nat.sub_self,List.append_assoc,field_encode,Nat.mod_eq_of_lt small]
  · rcases inner.append with ⟨lengths,inner,rfl⟩ | ⟨later,inner,rfl⟩
    · have length : lengths.length = 4 := by simpa using inner.length
      have sizes : record.key.length < 256^4 ∧ record.value.length < 256^4 := by
        simp only [maxKeySize,maxValueSize] at key value
        omega
      rw [agree]
      simp only [List.append_assoc]
      simp (disch := omega) only [field_skip_encode,field_skip,length,field_encode,Nat.reduceSub,Nat.mod_eq_of_lt sizes.1,
        Nat.mod_eq_of_lt sizes.2]
      rfl
    · simp only [List.append_assoc]
      simp (disch := omega) [Nat.mod_eq_of_lt]

theorem decode_changed (valid : record.Valid) (changed : Changed record.image other) : ∃ error, decodeRecord other = .corrupt error := by
  have length := changed.length
  rw [image_length] at length
  have head := valid.head_lt
  have long : ¬other.length < walHeaderSize := by omega
  cases passed : Storage.decodeHeader other with
  | error error => exact ⟨error,by simp only [decodeRecord,long,if_false,passed]⟩
  | ok header =>
    have size : header.recordSize = record.size := by
      refine size_changed valid changed (?_ : Storage.decodeHeader (other ++ []) = _)
      rw [List.append_nil]
      exact passed
    have enough : ¬other.length < header.recordSize := by omega
    have whole : other.take header.recordSize = other := List.take_of_length_le (by omega)
    have different := checksum_changed changed
    exact ⟨_,by simp only [decodeRecord,long,if_false,passed,enough,whole,different,ne_eq,not_false_eq_true,if_true]; rfl⟩

end WalRecord

theorem Consecutive.last_valid (consecutive : Consecutive lsn (kept ++ [last])) : last.Valid := by
  induction kept generalizing lsn with
  | nil => exact consecutive.1
  | cons record kept ih => exact ih consecutive.2.2

section changed
variable {record : WalRecord} {records : List WalRecord} {other : Bytes} {turns lsn : Nat}

-- The header is decoded before its length is used, so a changed record is never
-- taken for one that was cut off.
theorem recoverFrom_changed_record (valid : record.Valid) (changed : Changed record.image other) (turns : Nat) (rest : Bytes)
    (offset lsn : Nat) : ∃ message, recoverFrom (turns+1) (other ++ rest) offset lsn = .error ⟨.corruption,message⟩ := by
  have length := changed.length
  rw [WalRecord.image_length] at length
  have head := valid.head_lt
  have bytes : (other ++ rest).length = record.size+rest.length := by rw [List.length_append,length]
  have some : other ++ rest ≠ [] := by
    intro none
    rw [none,List.length_nil] at bytes
    omega
  have many : ¬(other ++ rest).length < walHeaderSize := by omega
  have first : ((other ++ rest).take walHeaderSize).length = walHeaderSize := by
    rw [List.length_take]
    omega
  cases passed : decodeHeader (other ++ rest) with
  | error error =>
    have corrupt : decodeRecord ((other ++ rest).take walHeaderSize) = .corrupt error := by
      simp only [decodeRecord,first,Nat.lt_irrefl,if_false,WalRecord.decodeHeader_take _ (Nat.le_refl _),passed]
    exact ⟨"WAL corruption at offset " ++ toString offset ++ ": " ++ error,by simp only [recoverFrom,some,if_false,many,corrupt]⟩
  | ok header =>
    have size : header.recordSize = record.size := WalRecord.size_changed valid changed passed
    have part : decodeRecord ((other ++ rest).take walHeaderSize) = .incomplete := by
      simp only [decodeRecord,first,Nat.lt_irrefl,if_false,WalRecord.decodeHeader_take _ (Nat.le_refl _),passed,size,head,if_true]
    have said : field (other ++ rest) 8 4 = record.size := (WalRecord.header_lengths passed).1.symm.trans size
    have bounds : ¬(record.size < walHeaderSize ∨ maxWalRecordSize < record.size) := by
      have high := valid.size_le
      omega
    have whole : ¬(other ++ rest).length < record.size := by omega
    have taken : (other ++ rest).take record.size = other := List.take_left' length
    obtain ⟨error,corrupt⟩ := WalRecord.decode_changed valid changed
    exact ⟨"WAL corruption at offset " ++ toString offset ++ ": " ++ error,
      by simp only [recoverFrom,some,if_false,many,part,said,bounds,whole,taken,corrupt]⟩

theorem recoverFrom_changed (consecutive : Consecutive lsn records) (changed : Changed (images records) other)
    (enough : other.length ≤ turns) (offset : Nat) : ∃ message, recoverFrom turns other offset lsn = .error ⟨.corruption,message⟩ := by
  induction records generalizing lsn turns offset other with
  | nil => exact absurd changed OneChange.not_changed_nil
  | cons record later ih =>
    obtain ⟨valid,next,consecutive⟩ := consecutive
    have head := valid.head_lt
    have size := record.image_length
    have split : images (record::later) = record.image ++ images later := by simp [images]
    rw [split] at changed
    have length := changed.length
    rw [List.length_append] at length
    obtain ⟨left,rfl⟩ : ∃ left, turns = left+1 := ⟨turns-1,by omega⟩
    rcases changed.append with ⟨first,edited,rfl⟩ | ⟨second,edited,rfl⟩
    · exact recoverFrom_changed_record valid edited left _ offset lsn
    · have few : second.length ≤ left := by
        rw [List.length_append] at enough
        omega
      obtain ⟨message,fails⟩ := ih consecutive edited few (offset+record.size)
      exact ⟨message,by rw [recoverFrom_record valid next,fails]⟩

end changed

theorem wal_recovery_exact {wal : Wal} (consecutive : Consecutive 0 records) (running : wal.closed = false) :
    (∀ file : WalFile, file.contents = images records →
      ∃ left, wal.recover file = .ok (left,{wal with lastLsn := records.length,durableLsn := records.length},records) ∧
        left.contents = file.contents) ∧
    (∀ (file : WalFile) kept last part, records = kept ++ [last] → part <+: last.image → part.length < last.image.length →
      file.contents = images kept ++ part →
      ∃ left, wal.recover file = .ok (left,{wal with lastLsn := kept.length,durableLsn := kept.length},kept) ∧
        left.contents = images kept) ∧
    ∀ file : WalFile, Changed (images records) file.contents → ∃ message, wal.recover file = .error ⟨.corruption,message⟩ := by
  refine ⟨?_,?_,?_⟩
  · intro file whole
    obtain ⟨left,recovers,contents,_⟩ := recover_images consecutive (.inl rfl) (by rw [whole,List.append_nil]) running
    exact ⟨left,recovers,contents.trans whole.symm⟩
  · intro file kept last part split first short contents
    subst split
    have before : Consecutive 0 kept := by
      have taken := consecutive.take kept.length
      rwa [List.take_left] at taken
    have valid : last.Valid := consecutive.last_valid
    obtain ⟨left,recovers,same,_⟩ := recover_images before (.inr ⟨last,valid,first,by rwa [WalRecord.image_length] at short⟩) contents running
    exact ⟨left,recovers,same⟩
  · intro file changed
    obtain ⟨message,fails⟩ := recoverFrom_changed consecutive changed (Nat.le_refl _) 0
    exact ⟨message,by simp only [Wal.recover,running,recoverBytes,fails,Bool.false_eq_true,if_false]⟩

def twoRecords : List WalRecord := [⟨1,.put,[107],[118]⟩,⟨2,.deleteKey,[107],[]⟩]

-- The log whole, cut inside the second record, and with the last byte of the first record changed.
theorem wal_recovery_exact_two :
    (∃ left, (⟨false,0,0⟩ : Wal).recover (SyncedFile.empty.append (images twoRecords)) = .ok (left,⟨false,2,2⟩,twoRecords)) ∧
    (∃ left, (⟨false,0,0⟩ : Wal).recover (SyncedFile.empty.append ((images twoRecords).take 50)) =
      .ok (left,⟨false,1,1⟩,twoRecords.take 1)) ∧
    ∃ message, (⟨false,0,0⟩ : Wal).recover (SyncedFile.empty.append ((images twoRecords).set 37 0)) = .error ⟨.corruption,message⟩ := by
  have consecutive : Consecutive 0 twoRecords := ⟨⟨by decide,by decide⟩,rfl,⟨by decide,by decide⟩,rfl,trivial⟩
  obtain ⟨whole,torn,changed⟩ := wal_recovery_exact consecutive (rfl : (⟨false,0,0⟩ : Wal).closed = false)
  refine ⟨?_,?_,?_⟩
  · obtain ⟨left,recovers,-⟩ := whole (SyncedFile.empty.append (images twoRecords)) rfl
    exact ⟨left,recovers⟩
  · obtain ⟨left,recovers,-⟩ := torn (SyncedFile.empty.append ((images twoRecords).take 50)) (twoRecords.take 1) _ _ rfl
      (List.take_prefix 12 _) (by decide +kernel) (by decide +kernel)
    exact ⟨left,recovers⟩
  · exact changed _ ⟨(images twoRecords).take 37,118,0,(images twoRecords).drop 38,by decide,by decide +kernel,by decide +kernel⟩

end ForgeKv.Storage
