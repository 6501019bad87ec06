import ForgeKv.Cluster.Restore

namespace ForgeKv.Cluster
open Raft (Bytes)
open Protocol
open RaftStorage
open BigEndian

-- An empty machine and any number of decoded commands.
inductive Fed (maxClients maxDedupBytes : Nat) : ReplicatedStateMachine → Prop where
  | empty (made : ReplicatedStateMachine.create maxClients maxDedupBytes = .ok machine) : Fed maxClients maxDedupBytes machine
  | applied (earlier : Fed maxClients maxDedupBytes machine) (decoded : decodeReplicatedCommand bytes = .ok command)
      (ran : machine.apply command bytes = .ok (after,result)) : Fed maxClients maxDedupBytes after

theorem Fed.reached (fed : Fed maxClients maxDedupBytes machine) : Reached maxClients maxDedupBytes machine := by
  induction fed with
  | empty made => exact .created made
  | applied earlier decoded ran ih => exact .applied ih ran

theorem decoded_applies (machine : ReplicatedStateMachine) (decoded : decodeReplicatedCommand bytes = .ok command) :
    machine.apply command bytes = .ok (machine.handle command bytes) :=
  ReplicatedStateMachine.apply_iff.mpr ⟨encode_decoded decoded,rfl⟩

-- A snapshot can be written up to a number of keys and a size that apply does not watch.
theorem snapshot_iff_within_limits (fed : Fed maxClients maxDedupBytes machine) :
    (∃ image, encodeSnapshotState machine.snapshot = .ok image) ↔
      machine.values.size ≤ maxSnapshotKeys ∧ payloadSize machine.snapshot ≤ maxSnapshotPayloadSize := by
  rw [← healthy_storable (reached_healthy fed.reached)]
  constructor
  · rintro ⟨image,encoded⟩
    exact (encodeSnapshotState_iff.mp encoded).1
  · exact fun storable => ⟨_,encodeSnapshotState_iff.mpr ⟨storable,rfl⟩⟩

theorem emptyMachine_fed : Fed kMaxDedupClients kMaxDedupBytes emptyMachine := .empty rfl

theorem snapshot_iff_within_limits_firstMachine : firstMachine.find [1] = some [2] ∧ firstMachine.clients.size = 1 ∧
    ∃ image, encodeSnapshotState firstMachine.snapshot = .ok image := by
  have decoded : decodeReplicatedCommand firstPut.bytes = .ok firstPut := by decide +kernel
  exact ⟨by decide,by decide,(snapshot_iff_within_limits (.applied emptyMachine_fed decoded firstPut_applied)).mpr ⟨by decide,by decide⟩⟩

section room
variable {machine : ReplicatedStateMachine} {command : ReplicatedCommand} {canonical : Bytes} {retained : Option DedupRecord}

theorem execute_room (room : DedupRecord.bytes ⟨command.requestId,canonical,machine.response command⟩ ≤
      sizeSub machine.maxDedupBytes (sizeSub machine.dedupBytes ((retained.map DedupRecord.bytes).getD 0))) :
    ∃ after, machine.execute command canonical retained = (after,⟨.applied,machine.response command⟩) ∧
      after.maxClients = machine.maxClients ∧ after.maxDedupBytes = machine.maxDedupBytes ∧
      after.values = ReplicatedStateMachine.mutate machine.values command ∧
      after.clients = ReplicatedStateMachine.retain machine.clients command.clientId
        ⟨command.requestId,canonical,machine.response command⟩ retained := by
  simp only [ReplicatedStateMachine.execute]
  rw [if_neg (Nat.not_lt.mpr room)]
  exact ⟨_,rfl,rfl,rfl,rfl,rfl⟩

end room

def newKey (number : Nat) : ReplicatedCommand := ⟨.put,.read [],UInt64.ofNat (number+1),encode 4 number,[]⟩

def newKeyRecord (number : Nat) : DedupRecord := ⟨(newKey number).requestId,(newKey number).bytes,[]⟩

theorem newKey_request (small : number+1 < 2^64) : (newKey number).requestId.toNat = number+1 :=
  UInt64.toNat_ofNat_of_lt small

theorem newKey_valid (small : number+1 < 2^64) : (newKey number).Valid := by
  refine ⟨?_,Nat.zero_le _,fun wrong => (nomatch wrong),fun zero => ?_⟩
  · simp [newKey,validKeySize,maxKeySize]
  · have request := newKey_request small
    rw [zero] at request
    simp at request

theorem newKeyRecord_bytes : (newKeyRecord number).bytes = 44 := by
  simp [newKeyRecord,DedupRecord.bytes,ReplicatedCommand.bytes_length,newKey,commandHeaderSize]

theorem encode_ne (small : number < 2^32) (other : earlier < number) : encode 4 earlier ≠ encode 4 number := by
  intro same
  have values := congrArg decode same
  rw [BigEndian.decode_encode,BigEndian.decode_encode,Nat.mod_eq_of_lt (by omega),Nat.mod_eq_of_lt (by omega)] at values
  omega

structure Filled (count : Nat) (machine : ReplicatedStateMachine) : Prop where
  fed : Fed kMaxDedupClients kMaxDedupBytes machine
  clientLimit : machine.maxClients = kMaxDedupClients
  byteLimit : machine.maxDedupBytes = kMaxDedupBytes
  size : machine.values.size = count
  below : ∀ binding ∈ machine.values.bindings, ∃ number < count, binding.1 = encode 4 number
  clients : machine.clients.bindings = if count = 0 then [] else [(.read [],newKeyRecord (count-1))]

theorem empty_filled : Filled 0 emptyMachine :=
  ⟨emptyMachine_fed,rfl,rfl,rfl,fun _ member => (nomatch member),rfl⟩

section fill
variable {machine : ReplicatedStateMachine}

section
variable (filled : Filled count machine)
include filled

theorem Filled.retained : machine.clients.find? (.read []) =
    if count = 0 then none else some (newKeyRecord (count-1)) := by
  unfold Table.find?
  rw [filled.clients]
  split
  · rfl
  · simp [Assoc.get?]

theorem Filled.counted :
    machine.dedupBytes = ((machine.clients.find? (.read [])).map DedupRecord.bytes).getD 0 := by
  rw [(reached_healthy filled.fed.reached).counted,filled.retained]
  unfold Table.total
  rw [filled.clients]
  split
  · rfl
  · simp [recordBytes]

theorem Filled.handled (small : count+1 < 2^64) :
    machine.handle (newKey count) (newKey count).bytes =
      machine.execute (newKey count) (newKey count).bytes (machine.clients.find? (.read [])) := by
  have known := filled.retained
  have id : (newKey count).clientId = .read [] := rfl
  unfold ReplicatedStateMachine.handle
  rw [id]
  cases found : machine.clients.find? (.read []) with
  | none =>
    have few : machine.clients.size ≤ 1 := by
      unfold Table.size
      rw [filled.clients]
      split <;> simp
    rw [if_neg (by rw [filled.clientLimit,kMaxDedupClients]; omega)]
  | some =>
    rw [found] at known
    split at known
    · cases known
    cases known
    have old : (newKeyRecord (count-1)).requestId.toNat = count := by
      rw [newKeyRecord,newKey_request (by omega)]
      omega
    have new := newKey_request small
    simp only
    rw [if_neg (by rw [UInt64.lt_iff_toNat_lt]; omega),if_neg (by rw [← UInt64.toNat_inj]; omega)]

theorem Filled.next (small : count+1 < 2^32) : ∃ after, Filled (count+1) after := by
  have answer : machine.response (newKey count) = [] := rfl
  have room : DedupRecord.bytes ⟨(newKey count).requestId,(newKey count).bytes,machine.response (newKey count)⟩ ≤
      sizeSub machine.maxDedupBytes (sizeSub machine.dedupBytes
        (((machine.clients.find? (.read [])).map DedupRecord.bytes).getD 0)) := by
    have bytes : (newKeyRecord count).bytes = 44 := newKeyRecord_bytes
    have limit := filled.byteLimit
    have bounded := (reached_healthy filled.fed.reached).bounded
    unfold kMaxDedupBytes at limit
    rw [← filled.counted,sizeSub_eq (Nat.le_refl _) (by omega),sizeSub_eq (by omega) (by omega),answer]
    unfold newKeyRecord at bytes
    omega
  obtain ⟨after,ran,clientLimit,byteLimit,values,clients⟩ := execute_room room
  have valid : (newKey count).Valid := newKey_valid (by omega)
  have absent : machine.values.find? (encode 4 count) = none := by
    cases found : machine.values.find? (encode 4 count) with
    | none => rfl
    | some =>
      obtain ⟨number,earlier,same⟩ := filled.below _ (Table.mem_iff.mpr found)
      exact absurd same.symm (encode_ne (by omega) earlier)
  have stored : after.values = machine.values.assign (encode 4 count) [] := values
  refine ⟨after,?_,clientLimit.trans filled.clientLimit,byteLimit.trans filled.byteLimit,?_,?_,?_⟩
  · have applied := decoded_applies machine (decode_bytes valid)
    rw [filled.handled (by omega),ran] at applied
    exact .applied filled.fed (decode_bytes valid) applied
  · rw [stored,Table.size_assign_new absent,filled.size]
  · rintro ⟨key,value⟩ member
    rw [stored] at member
    rcases Table.mem_assign.mp member with ⟨rfl,rfl⟩ | ⟨-,old⟩
    · exact ⟨count,Nat.lt_succ_self _,rfl⟩
    · obtain ⟨number,earlier,same⟩ := filled.below _ old
      exact ⟨number,Nat.lt_succ_of_lt earlier,same⟩
  · have replaced : after.clients = machine.clients.assign (.read []) (newKeyRecord count) :=
      clients.trans (ReplicatedStateMachine.retain_eq rfl)
    rw [replaced]
    simp only [Table.assign,Table.erase,filled.clients]
    split
    · rfl
    · simp

end

end fill

theorem filled_exists (small : count < 2^32) : ∃ machine, Filled count machine := by
  induction count with
  | zero => exact ⟨_,empty_filled⟩
  | succ count ih =>
    obtain ⟨machine,filled⟩ := ih (by omega)
    exact filled.next small

-- Enough puts of new keys, and the machine's snapshot is refused.
theorem snapshot_refused : ∃ machine, Fed kMaxDedupClients kMaxDedupBytes machine ∧
    encodeSnapshotState machine.snapshot = .error "snapshot state exceeds entry limits" := by
  have small : maxSnapshotKeys+1 < 2^32 := by decide
  obtain ⟨machine,filled⟩ := filled_exists small
  refine ⟨machine,filled.fed,?_⟩
  have many : maxSnapshotKeys < machine.snapshot.values.size := by
    rw [show machine.snapshot.values.size = maxSnapshotKeys+1 from filled.size]
    exact Nat.lt_succ_self _
  unfold encodeSnapshotState
  rw [if_pos (.inl many)]

end ForgeKv.Cluster
