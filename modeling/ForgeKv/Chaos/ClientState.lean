import ForgeKv.Cluster.SnapshotLimits

namespace ForgeKv.Chaos
open Raft (Bytes)
open Protocol
open Cluster (ClientId ReplicatedCommand validKeySize decodeClientMutation decodeClientGet encodeReplicatedCommand
  decodeReplicatedCommand field_skip_id)
open RaftStorage (maxRaftCommandSize)
open BigEndian

inductive ClientOperation where
  | put
  | get
  | deleteKey
deriving DecidableEq, Repr

structure LogicalRequest where
  operation : ClientOperation
  clientId : ClientId
  requestId : UInt64
  key : Bytes
  value : Bytes
deriving DecidableEq, Repr

inductive AttemptKind where
  | ok
  | notFound
  | redirect
  | busy
  | serverError
  | timeout
  | transportError
  | protocolError
deriving DecidableEq, Repr

-- observe does not read the endpoint of a redirect.
structure AttemptResult where
  kind : AttemptKind
  payload : Bytes
  diagnostic : String
deriving DecidableEq, Repr

structure ObserveResult where
  completed : Bool
  success : Bool
  diagnostic : String
deriving DecidableEq, Repr

structure ClientState where
  clientId : ClientId
  key : Bytes
  nextRequestId : UInt64
  outstanding : Option LogicalRequest
  expectedValue : Option Bytes
deriving DecidableEq, Repr

namespace ClientState

def create (clientId : ClientId) (key : Bytes) : Except String ClientState :=
  if key = [] ∨ maxKeySize < key.length then .error "invalid chaos client key"
  else .ok ⟨clientId,key,1,none,none⟩

def begin (client : ClientState) (operation : ClientOperation) (value : Bytes) : Except String (ClientState × LogicalRequest) :=
  if client.outstanding.isSome then .error "client already has an outstanding request"
  else if client.nextRequestId = 0 then .error "client request ID exhausted"
  else
    let request := ⟨operation,client.clientId,client.nextRequestId,client.key,value⟩
    .ok ({client with outstanding := some request},request)

def beginPut (client : ClientState) (value : Bytes) : Except String (ClientState × LogicalRequest) :=
  if maxValueSize < value.length then .error "chaos client value is too large" else client.begin .put value

def beginGet (client : ClientState) : Except String (ClientState × LogicalRequest) := client.begin .get []

def beginDelete (client : ClientState) : Except String (ClientState × LogicalRequest) := client.begin .deleteKey []

def nextAttempt (client : ClientState) : Option LogicalRequest := client.outstanding

-- The request is answered: the next one gets the next number, which may wrap to zero.
def retire (client : ClientState) : ClientState := {client with outstanding := none,nextRequestId := client.nextRequestId+1}

def observe (client : ClientState) (request : LogicalRequest) (result : AttemptResult) :
    Except String (ClientState × ObserveResult) :=
  if client.outstanding ≠ some request then .error "attempt does not match outstanding request"
  else match result.kind with
    | .timeout | .transportError | .protocolError | .redirect | .busy => .ok (client,⟨false,false,result.diagnostic⟩)
    | .serverError => .ok (client.retire,⟨true,false,result.diagnostic⟩)
    | .ok => match request.operation with
      | .put => .ok ({client.retire with expectedValue := some request.value},⟨true,true,""⟩)
      | .deleteKey => .ok ({client.retire with expectedValue := none},⟨true,true,""⟩)
      | .get =>
        let success := client.expectedValue == some result.payload
        .ok (client.retire,⟨true,success,if success then "" else "GET result differs from acknowledged state"⟩)
    | .notFound => match request.operation with
      | .deleteKey => .ok ({client.retire with expectedValue := none},⟨true,true,""⟩)
      | .get =>
        let success := client.expectedValue.isNone
        .ok (client.retire,⟨true,success,if success then "" else "unexpected not-found response"⟩)
      | .put => .ok (client.retire,⟨true,false,"unexpected not-found response"⟩)

end ClientState

def encodeRequest (request : LogicalRequest) : Except String Frame :=
  if request.requestId = 0 ∨ request.key = [] ∨ maxKeySize < request.key.length ∨ maxValueSize < request.value.length then
    .error "invalid logical request"
  else match request.operation with
    | .get => .ok ⟨.client,.get,0,request.requestId,encode 4 request.key.length ++ request.key⟩
    | .put => .ok ⟨.client,.put,0,request.requestId,request.clientId.bytes ++ (encode 4 request.key.length ++
        (encode 4 request.value.length ++ (request.key ++ request.value)))⟩
    | .deleteKey => .ok ⟨.client,.deleteKey,0,request.requestId,request.clientId.bytes ++ (encode 4 request.key.length ++
        (request.key ++ request.value))⟩

-- Every state that the calls of a client reach.
inductive Reached : ClientState → Prop where
  | created (made : ClientState.create clientId key = .ok client) : Reached client
  | put (earlier : Reached client) (begun : client.beginPut value = .ok (after,request)) : Reached after
  | get (earlier : Reached client) (begun : client.beginGet = .ok (after,request)) : Reached after
  | delete (earlier : Reached client) (begun : client.beginDelete = .ok (after,request)) : Reached after
  | observed (earlier : Reached client) (seen : client.observe request result = .ok (after,outcome)) : Reached after

-- What encode_request asks of a request, and that only a PUT carries a value.
structure LogicalRequest.Valid (request : LogicalRequest) : Prop where
  key : validKeySize request.key.length
  value : request.value.length ≤ maxValueSize
  bare : request.operation ≠ .put → request.value = []
  number : request.requestId ≠ 0

structure Good (client : ClientState) : Prop where
  key : validKeySize client.key.length
  request : ∀ request, client.outstanding = some request → request.Valid

theorem begin_good (good : Good client) (value' : value.length ≤ maxValueSize) (bare : operation ≠ .put → value = [])
    (begun : client.begin operation value = .ok (after,request)) : Good after := by
  unfold ClientState.begin at begun
  split at begun
  · cases begun
  split at begun
  · cases begun
  rename_i number
  cases begun
  refine ⟨good.key,fun request same => ?_⟩
  cases same
  exact ⟨good.key,value',bare,number⟩

theorem observe_good (good : Good client) (seen : client.observe request result = .ok (after,outcome)) : Good after := by
  unfold ClientState.observe at seen
  split at seen
  · cases seen
  have retired : ∀ expected, Good {client.retire with expectedValue := expected} := fun expected => ⟨good.key,by simp [ClientState.retire]⟩
  split at seen
  case h_6 =>
    cases seen
    exact retired _
  case h_7 | h_8 =>
    split at seen <;> cases seen <;> exact retired _
  all_goals
    cases seen
    exact good

theorem reached_good (reached : Reached client) : Good client := by
  induction reached with
  | created made =>
    unfold ClientState.create at made
    split at made
    · cases made
    rename_i fine
    simp only [not_or,Nat.not_lt] at fine
    cases made
    exact ⟨⟨List.length_pos_of_ne_nil fine.1,fine.2⟩,by simp⟩
  | put _ begun ih =>
    unfold ClientState.beginPut at begun
    split at begun
    · cases begun
    rename_i small
    exact begin_good ih (Nat.not_lt.mp small) (fun wrong => absurd rfl wrong) begun
  | get _ begun ih | delete _ begun ih => exact begin_good ih (Nat.zero_le _) (fun _ => rfl) begun
  | observed _ seen ih => exact observe_good ih seen

section path
variable {request : LogicalRequest} (valid : request.Valid)
include valid

theorem valid_encodes : ¬ (request.requestId = 0 ∨ request.key = [] ∨ maxKeySize < request.key.length ∨
    maxValueSize < request.value.length) := by
  simp only [not_or,Nat.not_lt]
  exact ⟨valid.number,List.ne_nil_of_length_pos valid.key.1,valid.key.2,valid.value⟩

theorem put_recovered (put : request.operation = .put) : ∃ frame, encodeRequest request = .ok frame ∧
    decodeClientMutation frame = .ok ⟨.put,request.clientId,request.requestId,request.key,request.value⟩ := by
  have short : request.key.length < 2^32 := Nat.lt_of_le_of_lt valid.key.2 (by decide)
  have small : request.value.length < 2^32 := Nat.lt_of_le_of_lt valid.value (by decide)
  refine ⟨_,by rw [encodeRequest,if_neg (valid_encodes valid),put],?_⟩
  generalize layout : request.clientId.bytes ++ (encode 4 request.key.length ++
    (encode 4 request.value.length ++ (request.key ++ request.value))) = payload
  have size : payload.length = 24+request.key.length+request.value.length := by
    rw [← layout]
    simp [request.clientId.size]
    omega
  have keySize : field payload 16 4 = request.key.length := by
    rw [← layout]
    simp (disch := omega) [field_skip_id,Nat.mod_eq_of_lt]
  have valueSize : field payload 20 4 = request.value.length := by
    rw [← layout]
    simp (disch := omega) [field_skip_id,Nat.mod_eq_of_lt]
  have client : ClientId.read payload = request.clientId := by rw [← layout,ClientId.read_bytes]
  have body : payload.drop 24 = request.key ++ request.value := by
    rw [← layout]
    simp only [← List.append_assoc]
    rw [List.append_assoc _ request.key]
    exact List.drop_left' (by simp [request.clientId.size])
  have value : payload.drop (24+request.key.length) = request.value := by rw [← List.drop_drop,body,List.drop_left]
  unfold decodeClientMutation
  simp only [keySize,valueSize,client,body,value,if_true,List.take_left,List.take_length]
  rw [if_neg (by simp [valid.number,size]; omega),if_neg (by simp [size]; omega),if_neg]
  simp only [not_or,not_not,Nat.not_lt]
  exact ⟨valid.key,valid.value,size⟩

theorem delete_recovered (delete : request.operation = .deleteKey) : ∃ frame, encodeRequest request = .ok frame ∧
    decodeClientMutation frame = .ok ⟨.deleteKey,request.clientId,request.requestId,request.key,request.value⟩ := by
  have short : request.key.length < 2^32 := Nat.lt_of_le_of_lt valid.key.2 (by decide)
  have bare : request.value = [] := valid.bare (by rw [delete]; decide)
  refine ⟨_,by rw [encodeRequest,if_neg (valid_encodes valid),delete],?_⟩
  rw [bare,List.append_nil]
  generalize layout : request.clientId.bytes ++ (encode 4 request.key.length ++ request.key) = payload
  have size : payload.length = 20+request.key.length := by
    rw [← layout]
    simp [request.clientId.size]
    omega
  have keySize : field payload 16 4 = request.key.length := by
    rw [← layout]
    simp (disch := omega) [field_skip_id,Nat.mod_eq_of_lt]
  have client : ClientId.read payload = request.clientId := by rw [← layout,ClientId.read_bytes]
  have body : payload.drop 20 = request.key := by
    rw [← layout,← List.append_assoc]
    exact List.drop_left' (by simp [request.clientId.size])
  unfold decodeClientMutation
  simp only [keySize,client,reduceCtorEq,false_and,if_false,body,List.take_length,List.take_zero]
  rw [if_neg (by simp [valid.number,size]),if_neg]
  simp only [not_or,not_not,Nat.not_lt]
  exact ⟨valid.key,Nat.zero_le _,size⟩

theorem get_recovered (get : request.operation = .get) : ∃ frame, encodeRequest request = .ok frame ∧
    decodeClientGet frame = .ok request.key ∧ frame.messageType = .get ∧ frame.requestId = request.requestId := by
  have short : request.key.length < 2^32 := Nat.lt_of_le_of_lt valid.key.2 (by decide)
  refine ⟨_,by rw [encodeRequest,if_neg (valid_encodes valid),get],?_,rfl,rfl⟩
  have keySize : field (encode 4 request.key.length ++ request.key) 0 4 = request.key.length := by
    simp (disch := omega) [Nat.mod_eq_of_lt]
  have body : (encode 4 request.key.length ++ request.key).drop 4 = request.key := List.drop_left' (by simp)
  unfold decodeClientGet
  simp only [keySize,body,List.take_length]
  rw [if_neg (by simp),if_neg]
  simp only [not_or,not_not]
  exact ⟨valid.key,by simp⟩

end path

theorem slices_valid {command : ReplicatedCommand} {payload : Bytes} (keyed : command.key = (payload.drop start).take keySize)
    (valued : command.value = (payload.drop (start+keySize)).take valueSize) (request : command.requestId ≠ 0)
    (bare : command.operation = .deleteKey → valueSize = 0)
    (lengths : ¬ (¬ validKeySize keySize ∨ maxValueSize < valueSize ∨ payload.length ≠ start+keySize+valueSize)) : command.Valid := by
  simp only [not_or,not_not,Nat.not_lt] at lengths
  obtain ⟨key,value,total⟩ := lengths
  refine ⟨?_,?_,?_,request⟩
  · rw [keyed,List.length_take,List.length_drop,total,Nat.min_eq_left (by omega)]
    exact key
  · rw [valued]
    exact Nat.le_trans (List.length_take_le _ _) value
  · intro deletion
    rw [valued,bare deletion,List.take_zero]

theorem mutation_valid (decoded : decodeClientMutation frame = .ok command) : command.Valid := by
  simp only [decodeClientMutation] at decoded
  split at decoded
  · cases decoded
  rename_i fine
  simp only [not_or] at fine
  generalize (if frame.messageType = .put then Cluster.KvOperation.put else .deleteKey) = operation at decoded
  cases operation with
  | put =>
    simp only [true_and,if_true] at decoded
    split at decoded
    · cases decoded
    split at decoded
    · cases decoded
    rename_i lengths
    cases decoded
    exact slices_valid rfl rfl fine.2.2.1 (by simp) lengths
  | deleteKey =>
    simp only [reduceCtorEq,false_and,if_false] at decoded
    split at decoded
    · cases decoded
    rename_i lengths
    cases decoded
    exact slices_valid rfl rfl fine.2.2.1 (by simp) lengths

theorem mutation_replicates (decoded : decodeClientMutation frame = .ok command) : ∃ bytes, encodeReplicatedCommand command = .ok bytes ∧
    bytes.length ≤ maxRaftCommandSize ∧ decodeReplicatedCommand bytes = .ok command := by
  have valid := mutation_valid decoded
  refine ⟨command.bytes,Cluster.encode_iff.mpr ⟨valid,rfl⟩,?_,Cluster.decode_bytes valid⟩
  have key := valid.key.2
  have value := valid.value
  rw [ReplicatedCommand.bytes_length]
  simp only [maxKeySize,maxValueSize,Cluster.commandHeaderSize,maxRaftCommandSize] at key value ⊢
  omega

-- A mutation keeps everything on its way into the log, and a GET its number and
-- its key. The frame of a GET has no client id (get_forgets_client).
theorem client_path_exact :
    (∀ client request, Reached client → client.nextAttempt = some request →
      ∃ frame, encodeRequest request = .ok frame ∧ match request.operation with
        | .put => decodeClientMutation frame = .ok ⟨.put,request.clientId,request.requestId,request.key,request.value⟩
        | .deleteKey => decodeClientMutation frame = .ok ⟨.deleteKey,request.clientId,request.requestId,request.key,request.value⟩
        | .get => decodeClientGet frame = .ok request.key ∧ frame.messageType = .get ∧ frame.requestId = request.requestId) ∧
    (∀ frame command, decodeClientMutation frame = .ok command → ∃ bytes, encodeReplicatedCommand command = .ok bytes ∧
      bytes.length ≤ maxRaftCommandSize ∧ decodeReplicatedCommand bytes = .ok command) ∧
    (∀ bytes command, decodeReplicatedCommand bytes = .ok command → encodeReplicatedCommand command = .ok bytes ∧
      ∀ machine : Cluster.ReplicatedStateMachine, ∃ outcome, machine.apply command bytes = .ok outcome) := by
  refine ⟨?_,fun _ _ => mutation_replicates,?_⟩
  · intro client request reached asked
    have valid := (reached_good reached).request request asked
    cases operation : request.operation with
    | put => exact put_recovered valid operation
    | deleteKey => exact delete_recovered valid operation
    | get => exact get_recovered valid operation
  · intro bytes command decoded
    exact ⟨Cluster.encode_decoded decoded,fun machine => ⟨_,Cluster.decoded_applies machine decoded⟩⟩

-- The GETs of two clients are one frame.
theorem get_forgets_client : ∃ client other request request', Reached client ∧ Reached other ∧
    client.nextAttempt = some request ∧ other.nextAttempt = some request' ∧ request.operation = .get ∧
    request.clientId ≠ request'.clientId ∧ encodeRequest request = encodeRequest request' := by
  have asked (id : ClientId) : Reached ⟨id,[1],1,some ⟨.get,id,1,[1],[]⟩,none⟩ := by
    have made : ClientState.create id [1] = .ok ⟨id,[1],1,none,none⟩ := rfl
    have begun : ClientState.beginGet ⟨id,[1],1,none,none⟩ = .ok (⟨id,[1],1,some ⟨.get,id,1,[1],[]⟩,none⟩,⟨.get,id,1,[1],[]⟩) := rfl
    exact .get (.created made) begun
  exact ⟨_,_,_,_,asked (.read [0]),asked (.read [1]),rfl,rfl,rfl,by decide,rfl⟩

end ForgeKv.Chaos
