import ForgeKv.Library.BigEndian
import ForgeKv.Protocol.Checksum
import ForgeKv.Raft.Types

namespace ForgeKv.Storage
open Raft (Bytes)
open BigEndian
open Protocol

def walMagic : Nat := 0x4657414C
def walVersion : Nat := 1
def walHeaderSize : Nat := 36
def maxKeySize : Nat := 1024
def maxValueSize : Nat := 1024*1024
def maxWalRecordSize : Nat := walHeaderSize+maxKeySize+maxValueSize

inductive WalOperation where
  | put
  | deleteKey
deriving DecidableEq, Repr

def WalOperation.code : WalOperation → Nat
  | .put => 1
  | .deleteKey => 2

-- The cast of a byte, where it names an operation.
def WalOperation.read (byte : Nat) : Option WalOperation :=
  if byte = 1 then some .put else if byte = 2 then some .deleteKey else none

-- std::uint64_t lsn
structure WalRecord where
  lsn : Nat
  operation : WalOperation
  key : Bytes
  value : Bytes
deriving DecidableEq, Repr

inductive DecodeResult where
  | complete (record : WalRecord) (consumed : Nat)
  | incomplete
  | corrupt (error : String)
deriving DecidableEq, Repr

-- An operation outside the enumeration is no value here.
def validationError (record : WalRecord) : Option String :=
  if record.lsn = 0 then some "LSN must be positive"
  else if record.key = [] ∨ maxKeySize < record.key.length then some "key length is outside the supported range"
  else if maxValueSize < record.value.length then some "value exceeds the maximum size"
  else if record.operation = .deleteKey ∧ record.value ≠ [] then some "DELETE records cannot contain values"
  else none

namespace WalRecord

def size (record : WalRecord) : Nat := walHeaderSize+record.key.length+record.value.length

-- The first 32 bytes, which the checksum covers with the payload.
def front (record : WalRecord) : Bytes :=
  encode 4 walMagic ++ (encode 2 walVersion ++ (encode 2 walHeaderSize ++ (encode 4 record.size ++ (encode 8 record.lsn ++
    (encode 1 record.operation.code ++ (encode 1 0 ++ (encode 1 0 ++ (encode 1 0 ++
      (encode 4 record.key.length ++ encode 4 record.value.length)))))))))

def payload (record : WalRecord) : Bytes := record.key ++ record.value

end WalRecord

def recordChecksum (front payload : Bytes) : Nat :=
  (Crc32.value (Crc32.update (Crc32.update Crc32.initial front) payload)).toNat

def WalRecord.image (record : WalRecord) : Bytes :=
  record.front ++ (encode 4 (recordChecksum record.front record.payload) ++ record.payload)

def encodeRecord (record : WalRecord) : Except String Bytes :=
  match validationError record with
  | some error => .error error
  | none =>
    if 2^32-1 < record.size then .error "WAL record does not fit the wire length field" else .ok record.image

structure WalHeader where
  recordSize : Nat
  keySize : Nat
  valueSize : Nat
  lsn : Nat
  operation : WalOperation
deriving DecidableEq, Repr

-- The checks of decode_record on the header, in their order.
def decodeHeader (bytes : Bytes) : Except String WalHeader :=
  if field bytes 0 4 ≠ walMagic then .error "invalid WAL magic"
  else if field bytes 4 2 ≠ walVersion then .error "unsupported WAL version"
  else if field bytes 6 2 ≠ walHeaderSize then .error "invalid WAL header length"
  else if field bytes 21 1 ≠ 0 ∨ field bytes 22 1 ≠ 0 ∨ field bytes 23 1 ≠ 0 then .error "reserved WAL fields are nonzero"
  else
    let recordSize := field bytes 8 4
    let keySize := field bytes 24 4
    let valueSize := field bytes 28 4
    if recordSize < walHeaderSize ∨ maxWalRecordSize < recordSize then .error "invalid WAL record length"
    else if keySize = 0 ∨ maxKeySize < keySize ∨ maxValueSize < valueSize then .error "invalid WAL payload lengths"
    else if recordSize ≠ walHeaderSize+keySize+valueSize then .error "WAL record and payload lengths disagree"
    else
      let lsn := field bytes 12 8
      if lsn = 0 then .error "invalid zero LSN"
      else match WalOperation.read (field bytes 20 1) with
        | none => .error "unknown WAL operation"
        | some operation =>
          if operation = .deleteKey ∧ valueSize ≠ 0 then .error "DELETE record contains a value"
          else .ok ⟨recordSize,keySize,valueSize,lsn,operation⟩

def decodeRecord (bytes : Bytes) : DecodeResult :=
  if bytes.length < walHeaderSize then .incomplete
  else match decodeHeader bytes with
    | .error error => .corrupt error
    | .ok header =>
      if bytes.length < header.recordSize then .incomplete
      else
        let completeBytes := bytes.take header.recordSize
        let payload := completeBytes.drop walHeaderSize
        if field completeBytes 32 4 ≠ recordChecksum (completeBytes.take 32) payload then .corrupt "WAL checksum mismatch"
        else .complete ⟨header.lsn,header.operation,payload.take header.keySize,(payload.drop header.keySize).take header.valueSize⟩
          header.recordSize

-- What encode_record accepts.
structure WalRecord.Valid (record : WalRecord) : Prop where
  checked : validationError record = none
  lsn : record.lsn < 2^64

namespace WalRecord
variable {record : WalRecord}

theorem Valid.bounds (valid : record.Valid) : record.lsn ≠ 0 ∧ record.key ≠ [] ∧ record.key.length ≤ maxKeySize ∧
    record.value.length ≤ maxValueSize ∧ (record.operation = .deleteKey → record.value = []) := by
  have checked := valid.checked
  unfold validationError at checked
  split at checked
  · cases checked
  · split at checked
    · cases checked
    · split at checked
      · cases checked
      · split at checked
        · cases checked
        · rename_i positive sized short clean
          simp only [not_or,Nat.not_lt] at sized short
          refine ⟨positive,sized.1,sized.2,short,fun deletes => ?_⟩
          by_contra filled
          exact clean ⟨deletes,filled⟩

@[simp] theorem front_length (record : WalRecord) : record.front.length = 32 := by simp [front]

@[simp] theorem image_length (record : WalRecord) : record.image.length = record.size := by
  simp [image,payload,size,walHeaderSize]
  omega

theorem Valid.encode (valid : record.Valid) : encodeRecord record = .ok record.image := by
  obtain ⟨_,_,key,value,_⟩ := valid.bounds
  have small : ¬2^32-1 < record.size := by
    simp only [size,walHeaderSize,maxKeySize,maxValueSize] at key value ⊢
    omega
  simp only [encodeRecord,valid.checked,small,if_false]

theorem read_code (operation : WalOperation) : WalOperation.read operation.code = some operation := by cases operation <;> rfl

theorem Valid.header (valid : record.Valid) (rest : Bytes) :
    Storage.decodeHeader (record.image ++ rest) = .ok ⟨record.size,record.key.length,record.value.length,record.lsn,record.operation⟩ := by
  obtain ⟨positive,named,key,value,clean⟩ := valid.bounds
  have lsn := valid.lsn
  have some : record.key.length ≠ 0 := fun none => named (List.length_eq_zero_iff.mp none)
  have size : record.size = walHeaderSize+record.key.length+record.value.length := rfl
  have code : record.operation.code % 256^1 = record.operation.code := by cases record.operation <;> rfl
  simp only [walHeaderSize,maxKeySize,maxValueSize] at key value size
  unfold Storage.decodeHeader
  simp only [image,front,List.append_assoc]
  simp (disch := omega) [walMagic,walVersion,walHeaderSize,maxWalRecordSize,maxKeySize,maxValueSize,Nat.mod_eq_of_lt,positive,some]
  rw [if_neg (by omega),if_neg (by omega),if_pos size,read_code]
  have allowed : ¬(record.operation = .deleteKey ∧ ¬record.value = []) := fun wrong => wrong.2 (clean wrong.1)
  simp only [allowed,if_false]

theorem decodeHeader_take (bytes : Bytes) (enough : walHeaderSize ≤ count) :
    Storage.decodeHeader (bytes.take count) = Storage.decodeHeader bytes := by
  simp only [walHeaderSize] at enough
  unfold Storage.decodeHeader
  simp (disch := omega) only [field_take]

theorem Valid.decode (valid : record.Valid) (rest : Bytes) : decodeRecord (record.image ++ rest) = .complete record record.size := by
  have length := record.image_length
  have head : walHeaderSize ≤ record.size := by
    unfold size
    omega
  have whole : (record.image ++ rest).take record.size = record.image := by rw [← length,List.take_left]
  have payload : record.image.drop walHeaderSize = record.payload := by
    simp only [image,← List.append_assoc]
    exact List.drop_left' (by simp [walHeaderSize])
  have first : record.image.take 32 = record.front := by
    have size := record.front_length
    rw [image,← size,List.take_left]
  have checksum : field record.image 32 4 = recordChecksum record.front record.payload := by
    rw [image,field_skip _ _ (by simp),front_length,Nat.sub_self,field_encode]
    exact Nat.mod_eq_of_lt (UInt32.toNat_lt _)
  have long : ¬(record.image ++ rest).length < walHeaderSize := by
    rw [List.length_append,length]
    omega
  have enough : ¬(record.image ++ rest).length < record.size := by
    rw [List.length_append,length]
    omega
  simp only [decodeRecord,long,if_false,valid.header rest,enough,whole,payload,first,checksum,ne_eq,not_true_eq_false]
  simp [WalRecord.payload]

theorem Valid.decode_part (valid : record.Valid) (header : walHeaderSize ≤ count) (short : count < record.size) :
    decodeRecord (record.image.take count) = .incomplete := by
  have length : (record.image.take count).length = count := by
    rw [List.length_take,image_length]
    omega
  have whole := valid.header []
  rw [List.append_nil] at whole
  simp only [decodeRecord,length,Nat.not_lt.mpr header,if_false,decodeHeader_take _ header,whole,short,if_true]

end WalRecord
end ForgeKv.Storage
