import ForgeKv.Cluster.AtMostOnce
import ForgeKv.Cluster.SnapshotRoundTrip

namespace ForgeKv.Cluster
open Raft (Bytes)
open Protocol
open RaftStorage
open BigEndian

-- Construction, any calls of apply and any accepted snapshots.
inductive Reached (maxClients maxDedupBytes : Nat) : ReplicatedStateMachine → Prop where
  | created (made : ReplicatedStateMachine.create maxClients maxDedupBytes = .ok machine) : Reached maxClients maxDedupBytes machine
  | applied (earlier : Reached maxClients maxDedupBytes machine) (ran : machine.apply command bytes = .ok (after,result)) :
      Reached maxClients maxDedupBytes after
  | restored (earlier : Reached maxClients maxDedupBytes machine) (ran : machine.restore state = .ok after) :
      Reached maxClients maxDedupBytes after

def recordBytes (_ : ClientId) (record : DedupRecord) : Nat := record.bytes

-- The limits hold, the byte counter is exact and every entry can be written.
structure Healthy (machine : ReplicatedStateMachine) : Prop where
  clientLimit : machine.maxClients ≤ kMaxDedupClients
  byteLimit : machine.maxDedupBytes ≤ kMaxDedupBytes
  clients : machine.clients.size ≤ machine.maxClients
  counted : machine.dedupBytes = machine.clients.total recordBytes
  bounded : machine.dedupBytes ≤ machine.maxDedupBytes
  values : ∀ binding ∈ machine.values.bindings, StorableValue binding
  records : ∀ binding ∈ machine.clients.bindings, StorableRecord binding

section records
variable {record : DedupRecord} {command : ReplicatedCommand} {client : ClientId}

theorem decoded_iff : record.decoded client = some command ↔ command.Valid ∧ command.clientId = client ∧
    command.requestId = record.requestId ∧ command.bytes = record.command := by
  unfold DedupRecord.decoded
  constructor
  · intro found
    split at found
    · cases found
    rename_i other decoded
    split at found
    · cases found
    rename_i fine
    simp only [ne_eq,not_or,not_not] at fine
    cases found
    obtain ⟨valid,same⟩ := encode_iff.mp fine.2.2
    exact ⟨valid,fine.1,fine.2.1,same⟩
  · rintro ⟨valid,rfl,request,bytes⟩
    have encoded : encodeReplicatedCommand command = .ok record.command := encode_iff.mpr ⟨valid,bytes⟩
    rw [decode_encode encoded]
    simp [request,encoded]

theorem validateResponse_iff : validateResponse command response = .ok () ↔ validStoredResult command response = true := by
  unfold validateResponse validStoredResult
  cases command.operation with
  | put =>
    by_cases empty : response = []
    · simp [empty]
    · simp [empty]
  | deleteKey =>
    by_cases zero : response = [0]
    · simp [zero]
    · by_cases one : response = [1]
      · simp [one]
      · simp [zero,one]

theorem storable_iff : StorableRecord (client,record) ↔
    ∃ command, record.decoded client = some command ∧ validStoredResult command record.response = true := by
  constructor
  · exact fun storable => storable.command
  · rintro ⟨command,decoded,stored⟩
    obtain ⟨valid,-,request,bytes⟩ := decoded_iff.mp decoded
    refine ⟨request ▸ valid.request,?_,command,decoded,stored⟩
    have key := valid.key.2
    have value := valid.value
    simp only [← bytes,ReplicatedCommand.bytes_length,commandHeaderSize,maxClientCommandSize]
    omega

theorem response_stored (machine : ReplicatedStateMachine) : validStoredResult command (machine.response command) = true := by
  unfold validStoredResult ReplicatedStateMachine.response
  cases command.operation with
  | put => rfl
  | deleteKey =>
    simp only
    split
    · rfl
    · rfl

end records

section step
variable {machine after : ReplicatedStateMachine} {command : ReplicatedCommand}

theorem sizeSub_eq (low : right ≤ left) (small : left < 2^64) : sizeSub left right = left-right := by
  unfold sizeSub
  omega

theorem create_healthy (made : ReplicatedStateMachine.create maxClients maxDedupBytes = .ok machine) : Healthy machine := by
  unfold ReplicatedStateMachine.create at made
  split at made
  · cases made
  rename_i limits
  simp only [not_or,Nat.not_lt] at limits
  cases made
  exact ⟨limits.2.1,limits.2.2.2,Nat.zero_le _,rfl,Nat.zero_le _,List.forall_mem_nil _,List.forall_mem_nil _⟩

theorem total_retained (found : machine.clients.find? client = retained) :
    (retained.map DedupRecord.bytes).getD 0 ≤ machine.clients.total recordBytes := by
  subst found
  cases got : machine.clients.find? client with
  | none => exact Nat.zero_le _
  | some =>
    have sum := ((Table.erase_present got).map (fun binding => recordBytes binding.1 binding.2)).sum_nat
    have whole : machine.clients.total recordBytes = _ := sum
    rw [whole,List.map_cons,List.sum_cons]
    exact Nat.le_add_right _ _

theorem execute_healthy (healthy : Healthy machine) (valid : command.Valid)
    (found : machine.clients.find? command.clientId = retained) (room : retained = none → machine.clients.size < machine.maxClients)
    (ran : machine.execute command command.bytes retained = (after,result)) : Healthy after := by
  have retired := total_retained found
  rw [← healthy.counted] at retired
  have bounded := healthy.bounded
  have limit := healthy.byteLimit
  unfold kMaxDedupBytes at limit
  unfold ReplicatedStateMachine.execute at ran
  simp only at ran
  rw [sizeSub_eq retired (by omega),sizeSub_eq (by omega) (by omega)] at ran
  split at ran
  · cases ran
    exact healthy
  rename_i fits
  rw [ReplicatedStateMachine.retain_eq found] at ran
  cases ran
  have sum : (machine.clients.assign command.clientId ⟨command.requestId,command.bytes,machine.response command⟩).total recordBytes+
      (retained.map DedupRecord.bytes).getD 0 = machine.dedupBytes+
        DedupRecord.bytes ⟨command.requestId,command.bytes,machine.response command⟩ := by
    rw [healthy.counted,← found]
    exact Table.total_assign
  refine ⟨healthy.clientLimit,healthy.byteLimit,?_,?_,?_,?_,?_⟩
  · cases retained with
    | none => exact (Table.size_assign_new found).symm ▸ room rfl
    | some => exact (Table.size_assign_old found).symm ▸ healthy.clients
  · simp only
    omega
  · simp only
    omega
  · unfold ReplicatedStateMachine.mutate
    simp only
    split
    · rintro ⟨key,value⟩ member
      rcases Table.mem_assign.mp member with ⟨rfl,rfl⟩ | ⟨-,old⟩
      · exact ⟨List.ne_nil_of_length_pos valid.key.1,valid.key.2,valid.value⟩
      · exact healthy.values _ old
    · rintro ⟨key,value⟩ member
      exact healthy.values _ (Table.mem_erase.mp member).2
  · rintro ⟨client,record⟩ member
    rcases Table.mem_assign.mp member with ⟨rfl,rfl⟩ | ⟨-,old⟩
    · exact storable_iff.mpr ⟨command,decoded_iff.mpr ⟨valid,rfl,rfl,rfl⟩,response_stored machine⟩
    · exact healthy.records _ old

theorem apply_healthy (healthy : Healthy machine) (ran : machine.apply command bytes = .ok (after,result)) : Healthy after := by
  obtain ⟨encoded,handled⟩ := ReplicatedStateMachine.apply_iff.mp ran
  obtain ⟨valid,rfl⟩ := encode_iff.mp encoded
  unfold ReplicatedStateMachine.handle at handled
  cases found : machine.clients.find? command.clientId with
  | none =>
    simp only [found] at handled
    split at handled
    · cases handled
      exact healthy
    · rename_i room
      exact execute_healthy healthy valid found (fun _ => Nat.not_le.mp room) handled
  | some =>
    simp only [found] at handled
    split at handled
    · cases handled
      exact healthy
    split at handled
    · split at handled <;> cases handled
      · exact healthy
      · exact healthy
    · exact execute_healthy healthy valid found (by simp) handled

structure Standard (machine : ReplicatedStateMachine) : Prop where
  healthy : Healthy machine
  clientLimit : machine.maxClients = kMaxDedupClients
  byteLimit : machine.maxDedupBytes = kMaxDedupBytes

theorem execute_limits : (machine.execute command bytes retained).1.maxClients = machine.maxClients ∧
    (machine.execute command bytes retained).1.maxDedupBytes = machine.maxDedupBytes := by
  -- Fields first, as in execute_alike below.
  obtain ⟨-,-,-,-,-⟩ := machine
  simp only [ReplicatedStateMachine.execute]
  split
  · exact ⟨rfl,rfl⟩
  · exact ⟨rfl,rfl⟩

theorem apply_limits (ran : machine.apply command bytes = .ok (after,result)) :
    after.maxClients = machine.maxClients ∧ after.maxDedupBytes = machine.maxDedupBytes := by
  obtain ⟨-,handled⟩ := ReplicatedStateMachine.apply_iff.mp ran
  have limits : (machine.handle command bytes).1.maxClients = machine.maxClients ∧
      (machine.handle command bytes).1.maxDedupBytes = machine.maxDedupBytes := by
    unfold ReplicatedStateMachine.handle
    split
    · split
      · exact ⟨rfl,rfl⟩
      split
      · split
        · exact ⟨rfl,rfl⟩
        · exact ⟨rfl,rfl⟩
      · exact execute_limits
    · split
      · exact ⟨rfl,rfl⟩
      · exact execute_limits
  rwa [handled] at limits

theorem apply_standard (standard : Standard machine) (ran : machine.apply command bytes = .ok (after,result)) : Standard after := by
  obtain ⟨clients,bytes⟩ := apply_limits ran
  exact ⟨apply_healthy standard.healthy ran,clients.trans standard.clientLimit,bytes.trans standard.byteLimit⟩

end step

theorem validateValues_iff {bindings : Assoc.Map Bytes Bytes} :
    validateValues bindings = .ok () ↔ ∀ binding ∈ bindings, StorableValue binding := by
  induction bindings with
  | nil => simp [validateValues]
  | cons binding rest ih =>
    obtain ⟨-,-⟩ := binding
    unfold validateValues
    rw [List.forall_mem_cons]
    split
    · rename_i invalid
      simp only [reduceCtorEq,false_iff,not_and]
      rintro ⟨some,short,small⟩
      simp only at some short small
      rcases invalid with empty | long | large
      · exact absurd empty some
      · omega
      · omega
    · rename_i valid
      simp only [not_or,Nat.not_lt] at valid
      rw [ih]
      exact ⟨fun all => ⟨⟨valid.1,valid.2.1,valid.2.2⟩,all⟩,And.right⟩

theorem validateClients_iff {bindings : Assoc.Map ClientId DedupRecord} (low : dedupBytes ≤ limit) :
    validateClients limit dedupBytes bindings = .ok total ↔ (∀ binding ∈ bindings, StorableRecord binding) ∧
      total = dedupBytes+(bindings.map (fun binding => recordBytes binding.1 binding.2)).sum ∧ total ≤ limit := by
  induction bindings generalizing dedupBytes with
  | nil =>
    simp only [validateClients,Except.ok.injEq]
    constructor
    · rintro rfl
      exact ⟨List.forall_mem_nil _,rfl,low⟩
    · exact fun all => all.2.1.symm
  | cons binding rest ih =>
    obtain ⟨client,record⟩ := binding
    rw [List.forall_mem_cons,List.map_cons,List.sum_cons,storable_iff]
    have counted : recordBytes client record = record.bytes := rfl
    unfold validateClients
    cases decoded : record.decoded client with
    | none => simp
    | some command =>
      simp only [Option.some.injEq,exists_eq_left']
      cases checked : validateResponse command record.response with
      | error =>
        simp only [bind,Except.bind,reduceCtorEq,false_iff,not_and]
        intro all
        rw [validateResponse_iff.mpr all.1] at checked
        cases checked
      | ok =>
        have stored := validateResponse_iff.mp checked
        simp only [bind,Except.bind]
        split
        · rename_i above
          simp only [reduceCtorEq,false_iff,not_and]
          intro _ sum bound
          omega
        · rename_i under
          rw [ih (by omega)]
          constructor
          · rintro ⟨all,sum,bound⟩
            exact ⟨⟨stored,all⟩,by omega,bound⟩
          · rintro ⟨⟨-,all⟩,sum,bound⟩
            exact ⟨all,by omega,bound⟩

theorem validateSnapshotState_iff : validateSnapshotState state maxClients maxDedupBytes = .ok total ↔
    state.clients.size ≤ maxClients ∧ (∀ binding ∈ state.values.bindings, StorableValue binding) ∧
    (∀ binding ∈ state.clients.bindings, StorableRecord binding) ∧ total = state.clients.total recordBytes ∧
    total ≤ maxDedupBytes := by
  unfold validateSnapshotState
  split
  · rename_i many
    simp only [reduceCtorEq,false_iff,not_and]
    intro few
    omega
  · rename_i few
    cases checked : validateValues state.values.bindings with
    | error =>
      simp only [bind,Except.bind,reduceCtorEq,false_iff,not_and]
      intro _ all
      rw [validateValues_iff.mpr all] at checked
      cases checked
    | ok =>
      have values := validateValues_iff.mp checked
      simp only [bind,Except.bind]
      rw [validateClients_iff (Nat.zero_le _),Nat.zero_add]
      exact ⟨fun all => ⟨Nat.not_lt.mp few,values,all⟩,fun all => all.2.2⟩

section machines
variable {machine after other left right : ReplicatedStateMachine}

theorem restore_healthy (healthy : Healthy machine) (ran : machine.restore state = .ok after) : Healthy after := by
  unfold ReplicatedStateMachine.restore at ran
  cases checked : validateSnapshotState state machine.maxClients machine.maxDedupBytes with
  | error => rw [checked] at ran; cases ran
  | ok =>
    rw [checked] at ran
    cases ran
    obtain ⟨few,values,records,counted,bounded⟩ := validateSnapshotState_iff.mp checked
    exact ⟨healthy.clientLimit,healthy.byteLimit,few,counted,bounded,values,records⟩

theorem restore_limits (ran : machine.restore state = .ok after) :
    after.maxClients = machine.maxClients ∧ after.maxDedupBytes = machine.maxDedupBytes := by
  unfold ReplicatedStateMachine.restore at ran
  cases checked : validateSnapshotState state machine.maxClients machine.maxDedupBytes with
  | error =>
    rw [checked] at ran
    cases ran
  | ok =>
    rw [checked] at ran
    cases ran
    exact ⟨rfl,rfl⟩

theorem restore_standard (standard : Standard machine) (ran : machine.restore state = .ok after) : Standard after := by
  obtain ⟨clients,bytes⟩ := restore_limits ran
  exact ⟨restore_healthy standard.healthy ran,clients.trans standard.clientLimit,bytes.trans standard.byteLimit⟩

theorem reached_healthy (reached : Reached maxClients maxDedupBytes machine) : Healthy machine := by
  induction reached with
  | created made => exact create_healthy made
  | applied earlier ran ih => exact apply_healthy ih ran
  | restored earlier ran ih => exact restore_healthy ih ran

-- Machines that differ in nothing but the order of their tables.
structure Alike (left right : ReplicatedStateMachine) : Prop where
  clientLimit : left.maxClients = right.maxClients
  byteLimit : left.maxDedupBytes = right.maxDedupBytes
  counted : left.dedupBytes = right.dedupBytes
  values : Table.Same left.values right.values
  clients : Table.Same left.clients right.clients

theorem mutate_alike {left right : KeyValueState} (same : Table.Same left right) :
    Table.Same (ReplicatedStateMachine.mutate left command) (ReplicatedStateMachine.mutate right command) := by
  unfold ReplicatedStateMachine.mutate
  split
  · exact same.assign
  · exact same.erase

theorem retain_alike {left right : DedupState} (same : Table.Same left right) :
    Table.Same (ReplicatedStateMachine.retain left client next retained) (ReplicatedStateMachine.retain right client next retained) := by
  cases retained with
  | none => exact same.emplace
  | some => exact same.assign

section
variable (alike : Alike left right) (command : ReplicatedCommand) (bytes : Bytes)
include alike command bytes

theorem execute_alike (retained : Option DedupRecord) :
    (left.execute command bytes retained).2 = (right.execute command bytes retained).2 ∧
      Alike (left.execute command bytes retained).1 (right.execute command bytes retained).1 := by
  have response : left.response command = right.response command := by
    unfold ReplicatedStateMachine.response
    rw [alike.values command.key]
  simp only [ReplicatedStateMachine.execute,response,alike.counted,alike.byteLimit]
  -- Compare fields, not machines: the byte count is a sum modulo 2^64 that must not be evaluated.
  obtain ⟨maxClients,maxDedupBytes,dedupBytes,values,clients⟩ := left
  obtain ⟨maxClients',maxDedupBytes',dedupBytes',values',clients'⟩ := right
  obtain ⟨clientLimit,byteLimit,counted,sameValues,sameClients⟩ := alike
  dsimp only at clientLimit byteLimit counted sameValues sameClients ⊢
  split
  · exact ⟨rfl,⟨clientLimit,byteLimit,counted,sameValues,sameClients⟩⟩
  · exact ⟨rfl,⟨clientLimit,rfl,rfl,mutate_alike sameValues,retain_alike sameClients⟩⟩

theorem handle_alike :
    (left.handle command bytes).2 = (right.handle command bytes).2 ∧
      Alike (left.handle command bytes).1 (right.handle command bytes).1 := by
  unfold ReplicatedStateMachine.handle
  rw [alike.clients command.clientId,alike.clientLimit,alike.clients.size]
  split
  · split
    · exact ⟨rfl,alike⟩
    split
    · split
      · exact ⟨rfl,alike⟩
      · exact ⟨rfl,alike⟩
    · exact execute_alike alike command bytes _
  · split
    · exact ⟨rfl,alike⟩
    · exact execute_alike alike command bytes none

theorem apply_alike :
    (∃ message, left.apply command bytes = .error message ∧ right.apply command bytes = .error message) ∨
    ∃ result left' right', left.apply command bytes = .ok (left',result) ∧ right.apply command bytes = .ok (right',result) ∧
      Alike left' right' := by
  unfold ReplicatedStateMachine.apply
  split
  · rename_i message failed
    exact .inl ⟨message,rfl,rfl⟩
  split
  · exact .inl ⟨_,rfl,rfl⟩
  obtain ⟨same,after⟩ := handle_alike alike command bytes
  generalize left.handle command bytes = ran at same after
  generalize right.handle command bytes = other at same after
  obtain ⟨left',result⟩ := ran
  obtain ⟨right',result'⟩ := other
  cases same
  exact .inr ⟨_,left',right',rfl,rfl,after⟩

end

theorem serve_alike (alike : Alike left right) (calls : List (ReplicatedCommand × Bytes)) :
    (left.serve calls).2 = (right.serve calls).2 ∧ Alike (left.serve calls).1 (right.serve calls).1 := by
  induction calls generalizing left right with
  | nil => exact ⟨rfl,alike⟩
  | cons call calls ih =>
    obtain ⟨command,bytes⟩ := call
    unfold ReplicatedStateMachine.serve
    rcases apply_alike alike command bytes with ⟨message,failed,failed'⟩ | ⟨result,left',right',ran,ran',after⟩
    · obtain ⟨told,ends⟩ := ih alike
      simp only [failed,failed',told]
      exact ⟨trivial,ends⟩
    · obtain ⟨told,ends⟩ := ih after
      simp only [ran,ran',told]
      exact ⟨trivial,ends⟩

theorem storable_same {left right : SnapshotState} (values : Table.Same left.values right.values)
    (clients : Table.Same left.clients right.clients) (storable : Storable left) : Storable right := by
  refine ⟨values.size ▸ storable.keys,clients.size ▸ storable.clients,?_,?_,clients.total ▸ storable.dedup,?_⟩
  · exact fun binding member => storable.values binding (values.perm.mem_iff.mpr member)
  · exact fun binding member => storable.records binding (clients.perm.mem_iff.mpr member)
  · rw [← (values.perm.map valueSize).sum_nat,← (clients.perm.map recordSize).sum_nat]
    exact storable.payload

theorem bytes_same {left right : SnapshotState} (values : Table.Same left.values right.values)
    (clients : Table.Same left.clients right.clients) : left.bytes = right.bytes := by
  unfold SnapshotState.bytes stateHeader
  rw [Table.sortedBy_same id Function.injective_id values,Table.sortedBy_same ClientId.bytes ClientId.bytes_injective clients,
    values.size,clients.size]

theorem encode_alike (alike : Alike left right) (encoded : encodeSnapshotState left.snapshot = .ok image) :
    encodeSnapshotState right.snapshot = .ok image := by
  obtain ⟨storable,rfl⟩ := encodeSnapshotState_iff.mp encoded
  exact encodeSnapshotState_iff.mpr ⟨storable_same alike.values alike.clients storable,bytes_same alike.values alike.clients⟩

theorem Alike.refl (machine : ReplicatedStateMachine) : Alike machine machine := ⟨rfl,rfl,rfl,fun _ => rfl,fun _ => rfl⟩

theorem Alike.symm (alike : Alike left right) : Alike right left :=
  ⟨alike.clientLimit.symm,alike.byteLimit.symm,alike.counted.symm,alike.values.symm,alike.clients.symm⟩

def payloadSize (state : SnapshotState) : Nat :=
  stateHeaderSize+(state.values.bindings.map valueSize).sum+(state.clients.bindings.map recordSize).sum

-- Of the encoder's checks a healthy machine can only fail the two that apply does not make.
theorem healthy_storable (healthy : Healthy machine) : Storable machine.snapshot ↔
    machine.values.size ≤ maxSnapshotKeys ∧ payloadSize machine.snapshot ≤ maxSnapshotPayloadSize := by
  constructor
  · exact fun storable => ⟨storable.keys,storable.payload⟩
  · rintro ⟨keys,payload⟩
    have few : machine.clients.size ≤ kMaxDedupClients := Nat.le_trans healthy.clients healthy.clientLimit
    have dedup : machine.clients.total recordBytes ≤ kMaxDedupBytes :=
      healthy.counted ▸ Nat.le_trans healthy.bounded healthy.byteLimit
    exact ⟨keys,few,healthy.values,healthy.records,dedup,payload⟩

-- The counter is not part of a snapshot: restore counts again, and arrives at the same number.
theorem restore_alike (healthy : Healthy machine) (clientLimit : other.maxClients = machine.maxClients)
    (byteLimit : other.maxDedupBytes = machine.maxDedupBytes) (values : Table.Same state.values machine.values)
    (clients : Table.Same state.clients machine.clients) :
    ∃ restored, other.restore state = .ok restored ∧ Alike machine restored := by
  have counted : state.clients.total recordBytes = machine.dedupBytes := clients.total.trans healthy.counted.symm
  have checked : validateSnapshotState state other.maxClients other.maxDedupBytes = .ok machine.dedupBytes := by
    refine validateSnapshotState_iff.mpr ⟨?_,?_,?_,counted.symm,byteLimit.symm ▸ healthy.bounded⟩
    · rw [clients.size,clientLimit]
      exact healthy.clients
    · exact fun binding member => healthy.values binding (values.perm.mem_iff.mp member)
    · exact fun binding member => healthy.records binding (clients.perm.mem_iff.mp member)
  refine ⟨{other with values := state.values,clients := state.clients,dedupBytes := machine.dedupBytes},?_,?_⟩
  · unfold ReplicatedStateMachine.restore
    rw [checked]
    rfl
  · exact ⟨clientLimit.symm,byteLimit.symm,rfl,values.symm,clients.symm⟩

-- A restored machine cannot be told from the one whose snapshot it took, whatever it is asked afterwards.
theorem restore_invisible (reached : Reached maxClients maxDedupBytes machine)
    (encoded : encodeSnapshotState machine.snapshot = .ok bytes) :
    ∃ state, decodeSnapshotState bytes = .ok state ∧
      ∀ other : ReplicatedStateMachine, other.maxClients = machine.maxClients → other.maxDedupBytes = machine.maxDedupBytes →
        ∃ restored, other.restore state = .ok restored ∧ ∀ calls,
          (machine.serve calls).2 = (restored.serve calls).2 ∧
          (∀ key, (machine.serve calls).1.find key = (restored.serve calls).1.find key) ∧
          (machine.serve calls).1.clientCount = (restored.serve calls).1.clientCount ∧
          ∀ image, encodeSnapshotState (machine.serve calls).1.snapshot = .ok image ↔
            encodeSnapshotState (restored.serve calls).1.snapshot = .ok image := by
  obtain ⟨storable,rfl⟩ := encodeSnapshotState_iff.mp encoded
  obtain ⟨state,decoded,values,clients⟩ := decode_bytes_state storable
  refine ⟨state,decoded,fun other clientLimit byteLimit => ?_⟩
  obtain ⟨restored,ran,alike⟩ := restore_alike (reached_healthy reached) clientLimit byteLimit values clients
  refine ⟨restored,ran,fun calls => ?_⟩
  obtain ⟨told,ends⟩ := serve_alike alike calls
  exact ⟨told,ends.values,ends.clients.size,fun image => ⟨encode_alike ends,encode_alike ends.symm⟩⟩

end machines

theorem emptyMachine_reached : Reached kMaxDedupClients kMaxDedupBytes emptyMachine := .created rfl

theorem emptyMachine_standard : Standard emptyMachine := ⟨reached_healthy emptyMachine_reached,rfl,rfl⟩

theorem restore_invisible_firstMachine : ∃ state restored, decodeSnapshotState firstMachine.snapshot.bytes = .ok state ∧
    emptyMachine.restore state = .ok restored ∧ restored.find [1] = some [2] := by
  have reached : Reached kMaxDedupClients kMaxDedupBytes firstMachine := .applied emptyMachine_reached firstPut_applied
  have storable := (healthy_storable (reached_healthy reached)).mpr ⟨by decide,by decide⟩
  obtain ⟨state,decoded,restore⟩ := restore_invisible reached (encodeSnapshotState_iff.mpr ⟨storable,rfl⟩)
  obtain ⟨restored,ran,same⟩ := restore emptyMachine rfl rfl
  obtain ⟨-,found,-⟩ := same []
  exact ⟨state,restored,decoded,ran,(found [1]).symm⟩

end ForgeKv.Cluster
