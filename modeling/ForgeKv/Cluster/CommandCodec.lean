import ForgeKv.Library.BigEndian
import ForgeKv.Library.Procedure
import ForgeKv.Protocol.Frame

namespace ForgeKv.Cluster
open Raft (Bytes)
open Protocol
open BigEndian

def commandHeaderSize : Nat := 40

inductive KvOperation where
  | put
  | deleteKey
deriving DecidableEq, Repr

-- std::array<std::byte, 16>
structure ClientId where
  bytes : Bytes
  size : bytes.length = 16
deriving DecidableEq, Repr

-- Sixteen bytes copied over an array of zeros.
def ClientId.read (source : Bytes) : ClientId := ⟨(source ++ List.replicate 16 0).take 16,by simp⟩

structure ReplicatedCommand where
  operation : KvOperation
  clientId : ClientId
  requestId : UInt64
  key : Bytes
  value : Bytes
deriving DecidableEq, Repr

def validKeySize (size : Nat) : Prop := 0 < size ∧ size ≤ maxKeySize

instance : Decidable (validKeySize size) := inferInstanceAs (Decidable (_ ∧ _))

def KvOperation.code : KvOperation → Nat
  | .put => 1
  | .deleteKey => 2

def KvOperation.read (byte : Nat) : Option KvOperation :=
  if byte = 1 then some .put else if byte = 2 then some .deleteKey else none

def ReplicatedCommand.bytes (command : ReplicatedCommand) : Bytes :=
  encode 1 command.operation.code ++ (encode 7 0 ++ (command.clientId.bytes ++ (encode 8 command.requestId.toNat ++
    (encode 4 command.key.length ++ (encode 4 command.value.length ++ (command.key ++ command.value))))))

def encodeReplicatedCommand (command : ReplicatedCommand) : Except String Bytes :=
  if ¬ validKeySize command.key.length ∨ maxValueSize < command.value.length ∨
      (command.operation = .deleteKey ∧ command.value ≠ []) ∨ command.requestId = 0 then
    .error "invalid replicated KV command"
  else .ok command.bytes

def decodeReplicatedCommand (bytes : Bytes) : Except String ReplicatedCommand :=
  if bytes.length < commandHeaderSize ∨ field bytes 1 7 ≠ 0 then .error "invalid replicated command header"
  else
    let keySize := field bytes 32 4
    let valueSize := field bytes 36 4
    match KvOperation.read (field bytes 0 1) with
    | none => .error "invalid replicated command lengths"
    | some operation =>
      if ¬ validKeySize keySize ∨ maxValueSize < valueSize ∨ (operation = .deleteKey ∧ valueSize ≠ 0) ∨
          bytes.length ≠ commandHeaderSize+keySize+valueSize then .error "invalid replicated command lengths"
      else
        let requestId := UInt64.ofNat (field bytes 24 8)
        if requestId = 0 then .error "zero replicated request ID"
        else .ok
          {operation := operation
           clientId := .read (bytes.drop 8)
           requestId := requestId
           key := (bytes.drop commandHeaderSize).take keySize
           value := (bytes.drop (commandHeaderSize+keySize)).take valueSize}

def decodeClientMutation (frame : Frame) : Except String ReplicatedCommand :=
  if frame.messageNamespace ≠ .client ∨ (frame.messageType ≠ .put ∧ frame.messageType ≠ .deleteKey) ∨ frame.requestId = 0 ∨
      frame.payload.length < 20 then .error "invalid mutation frame"
  else
    let payload := frame.payload
    let operation := if frame.messageType = .put then KvOperation.put else .deleteKey
    if operation = .put ∧ payload.length < 24 then .error "truncated PUT payload"
    else
      let keySize := field payload 16 4
      let valueSize := if operation = .put then field payload 20 4 else 0
      let headerSize := if operation = .put then 24 else 20
      if ¬ validKeySize keySize ∨ maxValueSize < valueSize ∨ payload.length ≠ headerSize+keySize+valueSize then
        .error "invalid mutation key/value lengths"
      else .ok
        {operation := operation
         clientId := .read payload
         requestId := frame.requestId
         key := (payload.drop headerSize).take keySize
         value := (payload.drop (headerSize+keySize)).take valueSize}

def decodeClientGet (frame : Frame) : Except String Bytes :=
  if frame.messageNamespace ≠ .client ∨ frame.messageType ≠ .get ∨ frame.payload.length < 4 then .error "invalid GET frame"
  else
    let keySize := field frame.payload 0 4
    if ¬ validKeySize keySize ∨ frame.payload.length ≠ 4+keySize then .error "invalid GET key length"
    else .ok ((frame.payload.drop 4).take keySize)

theorem ClientId.read_bytes (id : ClientId) (rest : Bytes) : ClientId.read (id.bytes ++ rest) = id := by
  obtain ⟨-,size⟩ := id
  simp only [ClientId.read,ClientId.mk.injEq,List.append_assoc]
  rw [List.take_append_of_le_length (Nat.le_of_eq size.symm),List.take_of_length_le (Nat.le_of_eq size)]

theorem ClientId.bytes_read (source : Bytes) (long : 16 ≤ source.length) : (ClientId.read source).bytes = source.take 16 := by
  simp only [ClientId.read]
  rw [List.take_append_of_le_length long]

theorem ClientId.bytes_injective : Function.Injective ClientId.bytes := by
  rintro ⟨left,_⟩ ⟨right,_⟩ same
  cases same
  rfl

theorem KvOperation.read_code (operation : KvOperation) : KvOperation.read operation.code = some operation := by
  cases operation <;> rfl

theorem KvOperation.code_read (found : KvOperation.read byte = some operation) : operation.code = byte := by
  unfold KvOperation.read at found
  split at found
  · cases found
    rename_i same
    exact same.symm
  · split at found <;> cases found
    rename_i same
    exact same.symm

-- A command that encode_replicated_command accepts.
structure ReplicatedCommand.Valid (command : ReplicatedCommand) : Prop where
  key : validKeySize command.key.length
  value : command.value.length ≤ maxValueSize
  bare : command.operation = .deleteKey → command.value = []
  request : command.requestId ≠ 0

theorem encode_iff : encodeReplicatedCommand command = .ok bytes ↔ command.Valid ∧ command.bytes = bytes := by
  unfold encodeReplicatedCommand
  constructor
  · intro encoded
    split at encoded
    · cases encoded
    · rename_i fine
      simp only [not_or,not_and,not_not,Nat.not_lt] at fine
      cases encoded
      exact ⟨⟨fine.1,fine.2.1,fine.2.2.1,fine.2.2.2⟩,rfl⟩
  · rintro ⟨⟨key,value,bare,request⟩,rfl⟩
    rw [if_neg]
    simp only [not_or,not_and,not_not,Nat.not_lt]
    exact ⟨key,value,bare,request⟩

@[simp] theorem ReplicatedCommand.bytes_length (command : ReplicatedCommand) :
    command.bytes.length = commandHeaderSize+command.key.length+command.value.length := by
  simp [bytes,commandHeaderSize,command.clientId.size]
  omega

theorem field_skip_id (id : ClientId) (rest : Bytes) (later : 16 ≤ offset) :
    field (id.bytes ++ rest) offset width = field rest (offset-16) width := by
  rw [field_skip _ _ (by rw [id.size]; exact later),id.size]

section bytes
variable (command : ReplicatedCommand)

theorem bytes_operation : field command.bytes 0 1 = command.operation.code := by
  have code : command.operation.code < 256 := by cases command.operation <;> decide
  simp (disch := omega) [ReplicatedCommand.bytes,Nat.mod_eq_of_lt]

theorem bytes_reserved : field command.bytes 1 7 = 0 := by
  simp (disch := omega) [ReplicatedCommand.bytes]

theorem bytes_request : UInt64.ofNat (field command.bytes 24 8) = command.requestId := by
  have stored : field command.bytes 24 8 = command.requestId.toNat := by
    simp (disch := omega) [ReplicatedCommand.bytes,field_skip_id]
  rw [stored]
  exact UInt64.ofNat_toNat

theorem bytes_client : ClientId.read (command.bytes.drop 8) = command.clientId := by
  simp only [ReplicatedCommand.bytes]
  rw [← List.append_assoc,List.drop_left' (by simp),ClientId.read_bytes]

theorem bytes_body : command.bytes.drop commandHeaderSize = command.key ++ command.value := by
  simp only [ReplicatedCommand.bytes,← List.append_assoc]
  rw [List.append_assoc _ command.key]
  exact List.drop_left' (by simp [commandHeaderSize,command.clientId.size])

variable {command}

theorem bytes_keySize (valid : command.Valid) : field command.bytes 32 4 = command.key.length := by
  have short := valid.key.2
  unfold maxKeySize at short
  simp (disch := omega) [ReplicatedCommand.bytes,field_skip_id,Nat.mod_eq_of_lt]

theorem bytes_valueSize (valid : command.Valid) : field command.bytes 36 4 = command.value.length := by
  have small := valid.value
  unfold maxValueSize at small
  simp (disch := omega) [ReplicatedCommand.bytes,field_skip_id,Nat.mod_eq_of_lt]

theorem decode_bytes (valid : command.Valid) : decodeReplicatedCommand command.bytes = .ok command := by
  have length := command.bytes_length
  have last : command.bytes.drop (commandHeaderSize+command.key.length) = command.value := by
    rw [← List.drop_drop,bytes_body,List.drop_left]
  unfold decodeReplicatedCommand
  simp only [bytes_operation,bytes_reserved,bytes_request,bytes_client,bytes_body,bytes_keySize valid,bytes_valueSize valid,
    KvOperation.read_code]
  rw [if_neg (by simp [length]; omega),if_neg,if_neg valid.request,last,List.take_left,List.take_of_length_le (Nat.le_refl _)]
  simp only [not_or,not_and,not_not,Nat.not_lt]
  refine ⟨valid.key,valid.value,fun deletion => ?_,length⟩
  rw [valid.bare deletion,List.length_nil]

end bytes

theorem decode_encode (encoded : encodeReplicatedCommand command = .ok bytes) : decodeReplicatedCommand bytes = .ok command := by
  obtain ⟨valid,rfl⟩ := encode_iff.mp encoded
  exact decode_bytes valid

theorem encode_decoded (decoded : decodeReplicatedCommand bytes = .ok command) : encodeReplicatedCommand command = .ok bytes := by
  simp only [decodeReplicatedCommand,ite_ok,not_or,not_not,Nat.not_lt] at decoded
  obtain ⟨header,decoded⟩ := decoded
  split at decoded
  · cases decoded
  rename_i operation known
  simp only [ite_ok,not_or,not_and,not_not,Nat.not_lt,Except.ok.injEq] at decoded
  obtain ⟨⟨key,value,bare,total⟩,request,rfl⟩ := decoded
  unfold commandHeaderSize at header total
  have keySize : ((bytes.drop commandHeaderSize).take (field bytes 32 4)).length = field bytes 32 4 := by
    rw [List.length_take,List.length_drop,commandHeaderSize]
    omega
  have valueSize : ((bytes.drop (commandHeaderSize+field bytes 32 4)).take (field bytes 36 4)).length = field bytes 36 4 := by
    rw [List.length_take,List.length_drop,commandHeaderSize]
    omega
  refine encode_iff.mpr ⟨⟨by rw [keySize]; exact key,by rw [valueSize]; exact value,fun deletion => ?_,request⟩,?_⟩
  · apply List.eq_nil_of_length_eq_zero
    rw [valueSize]
    exact bare deletion
  · have requested : (UInt64.ofNat (field bytes 24 8)).toNat = field bytes 24 8 :=
      UInt64.toNat_ofNat_of_lt (field_lt bytes 24 8)
    have ending : (bytes.drop (commandHeaderSize+field bytes 32 4)).take (field bytes 36 4) =
        bytes.drop (commandHeaderSize+field bytes 32 4) := by
      apply List.take_of_length_le
      rw [List.length_drop,commandHeaderSize]
      omega
    have reserved : encode 7 0 = (bytes.drop 1).take 7 := by
      have stored : encode 7 (field bytes 1 7) = (bytes.drop 1).take 7 := encode_field bytes (by omega)
      rwa [header.2] at stored
    simp only [ReplicatedCommand.bytes,keySize,valueSize,requested,KvOperation.code_read known]
    rw [ClientId.bytes_read _ (by rw [List.length_drop]; omega),ending,reserved]
    repeat rw [encode_field bytes (by omega)]
    unfold commandHeaderSize
    rw [slice_drop,slice_drop,slice_drop,slice_drop,slice_drop,slice_drop,slice_drop,List.drop_zero]

end ForgeKv.Cluster
