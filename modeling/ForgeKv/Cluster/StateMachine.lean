import ForgeKv.Cluster.CommandCodec
import ForgeKv.Library.Table

namespace ForgeKv.Cluster
open Raft (Bytes)
open Protocol

structure DedupRecord where
  requestId : UInt64
  command : Bytes
  response : Bytes
deriving DecidableEq, Repr

abbrev KeyValueState := Table Bytes Bytes
abbrev DedupState := Table ClientId DedupRecord

structure SnapshotState where
  values : KeyValueState
  clients : DedupState

inductive MutationApplyStatus where
  | applied
  | duplicate
  | requestIdReuse
  | staleRequest
  | capacityExceeded
deriving DecidableEq, Repr

structure MutationApplyResult where
  status : MutationApplyStatus
  response : Bytes
deriving DecidableEq, Repr

def kMaxDedupClients : Nat := 1024
def kMaxDedupBytes : Nat := 64*1024*1024

structure ReplicatedStateMachine where
  maxClients : Nat
  maxDedupBytes : Nat
  dedupBytes : Nat
  values : KeyValueState
  clients : DedupState

-- std::size_t subtraction wraps around.
def sizeSub (left right : Nat) : Nat := (left+2^64-right) % 2^64

def DedupRecord.bytes (record : DedupRecord) : Nat := record.command.length+record.response.length

namespace ReplicatedStateMachine

def create (maxClients maxDedupBytes : Nat) : Except String ReplicatedStateMachine :=
  if maxClients = 0 ∨ kMaxDedupClients < maxClients ∨ maxDedupBytes = 0 ∨ kMaxDedupBytes < maxDedupBytes then
    .error "invalid deduplication retention limit"
  else .ok ⟨maxClients,maxDedupBytes,0,.empty,.empty⟩

def response (machine : ReplicatedStateMachine) (command : ReplicatedCommand) : Bytes :=
  match command.operation with
  | .put => []
  | .deleteKey => [if (machine.values.find? command.key).isSome then 1 else 0]

def mutate (values : KeyValueState) (command : ReplicatedCommand) : KeyValueState :=
  match command.operation with
  | .put => values.assign command.key command.value
  | .deleteKey => values.erase command.key

def retain (clients : DedupState) (client : ClientId) (next : DedupRecord) : Option DedupRecord → DedupState
  | none => clients.emplace client next
  | some _ => clients.assign client next

-- apply once the request is known to be new, with the record it retires.
def execute (machine : ReplicatedStateMachine) (command : ReplicatedCommand) (canonical : Bytes)
    (retained : Option DedupRecord) : ReplicatedStateMachine × MutationApplyResult :=
  let response := machine.response command
  let next : DedupRecord := ⟨command.requestId,canonical,response⟩
  let retainedBytes := (retained.map DedupRecord.bytes).getD 0
  let bytesWithoutRetained := sizeSub machine.dedupBytes retainedBytes
  if sizeSub machine.maxDedupBytes bytesWithoutRetained < next.bytes then (machine,⟨.capacityExceeded,[]⟩)
  else
    ({machine with
      values := mutate machine.values command
      clients := retain machine.clients command.clientId next retained
      dedupBytes := (bytesWithoutRetained+next.bytes) % 2^64},⟨.applied,response⟩)

-- apply once the command is known to be canonical.
def handle (machine : ReplicatedStateMachine) (command : ReplicatedCommand) (canonical : Bytes) :
    ReplicatedStateMachine × MutationApplyResult :=
  match machine.clients.find? command.clientId with
  | some retained =>
    if command.requestId < retained.requestId then (machine,⟨.staleRequest,[]⟩)
    else if command.requestId = retained.requestId then
      if canonical ≠ retained.command then (machine,⟨.requestIdReuse,[]⟩) else (machine,⟨.duplicate,retained.response⟩)
    else machine.execute command canonical (some retained)
  | none =>
    if machine.maxClients ≤ machine.clients.size then (machine,⟨.capacityExceeded,[]⟩)
    else machine.execute command canonical none

def apply (machine : ReplicatedStateMachine) (command : ReplicatedCommand) (canonical : Bytes) :
    Except String (ReplicatedStateMachine × MutationApplyResult) :=
  match encodeReplicatedCommand command with
  | .error message => .error message
  | .ok encoded =>
    if encoded ≠ canonical then .error "noncanonical replicated command" else .ok (machine.handle command canonical)

-- One call of apply after the other; a call that throws changes nothing.
def serve (machine : ReplicatedStateMachine) :
    List (ReplicatedCommand × Bytes) → ReplicatedStateMachine × List (Except String MutationApplyResult)
  | [] => (machine,[])
  | (command,canonical)::rest =>
    match machine.apply command canonical with
    | .error message => ((machine.serve rest).1,.error message::(machine.serve rest).2)
    | .ok (after,result) => ((after.serve rest).1,.ok result::(after.serve rest).2)

def find (machine : ReplicatedStateMachine) (key : Bytes) : Option Bytes := machine.values.find? key
def clientCount (machine : ReplicatedStateMachine) : Nat := machine.clients.size
def snapshot (machine : ReplicatedStateMachine) : SnapshotState := ⟨machine.values,machine.clients⟩

theorem retain_eq {clients : DedupState} (found : clients.find? client = retained) :
    retain clients client next retained = clients.assign client next := by
  cases retained with
  | none => exact Table.emplace_new found
  | some => rfl

theorem apply_iff : apply machine command bytes = .ok outcome ↔
    encodeReplicatedCommand command = .ok bytes ∧ machine.handle command bytes = outcome := by
  unfold apply
  split
  · rename_i message failed
    simp [failed]
  · rename_i encoded canonical
    by_cases same : encoded = bytes
    · simp [same,canonical]
    · simp [same,canonical]

end ReplicatedStateMachine

def validateResponse (command : ReplicatedCommand) (response : Bytes) : Except String Unit :=
  match command.operation with
  | .put => if response ≠ [] then .error "PUT deduplication result is not empty" else .ok ()
  | .deleteKey =>
    if response ≠ [0] ∧ response ≠ [1] then .error "DELETE deduplication result is invalid" else .ok ()

def validateValues : Assoc.Map Bytes Bytes → Except String Unit
  | [] => .ok ()
  | (key,value)::rest =>
    if key = [] ∨ maxKeySize < key.length ∨ maxValueSize < value.length then
      .error "snapshot contains invalid key/value state"
    else validateValues rest

-- The command that a record stands for, where the record is canonical.
def DedupRecord.decoded (record : DedupRecord) (client : ClientId) : Option ReplicatedCommand :=
  match decodeReplicatedCommand record.command with
  | .error _ => none
  | .ok command =>
    if command.clientId ≠ client ∨ command.requestId ≠ record.requestId ∨
        encodeReplicatedCommand command ≠ .ok record.command then none
    else some command

-- The subtraction cannot wrap: the sum so far never exceeds the limit.
def validateClients (maxDedupBytes dedupBytes : Nat) : Assoc.Map ClientId DedupRecord → Except String Nat
  | [] => .ok dedupBytes
  | (client,record)::rest =>
    match record.decoded client with
    | none => .error "snapshot contains invalid dedup record"
    | some command => do
      validateResponse command record.response
      if maxDedupBytes-dedupBytes < record.bytes then .error "snapshot exceeds deduplication byte limit"
      else validateClients maxDedupBytes (dedupBytes+record.bytes) rest

def validateSnapshotState (state : SnapshotState) (maxClients maxDedupBytes : Nat) : Except String Nat := do
  if maxClients < state.clients.size then .error "snapshot exceeds deduplication client limit"
  else
    validateValues state.values.bindings
    validateClients maxDedupBytes 0 state.clients.bindings

def ReplicatedStateMachine.restore (machine : ReplicatedStateMachine) (state : SnapshotState) :
    Except String ReplicatedStateMachine := do
  let dedupBytes ← validateSnapshotState state machine.maxClients machine.maxDedupBytes
  return {machine with values := state.values,clients := state.clients,dedupBytes := dedupBytes}

end ForgeKv.Cluster
