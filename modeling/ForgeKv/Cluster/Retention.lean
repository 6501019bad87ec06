import ForgeKv.Cluster.Restore

namespace ForgeKv.Cluster
open Raft (Bytes)
open Protocol

inductive Operation where
  | apply (command : ReplicatedCommand) (canonical : Bytes)
  | restore (state : SnapshotState)

namespace ReplicatedStateMachine

-- apply and restore with the machine that they leave where they return or throw.
def applying (machine : ReplicatedStateMachine) (command : ReplicatedCommand) (canonical : Bytes) :
    ReplicatedStateMachine × Option String :=
  match encodeReplicatedCommand command with
  | .error message => (machine,some message)
  | .ok encoded =>
    if encoded ≠ canonical then (machine,some "noncanonical replicated command") else ((machine.handle command canonical).1,none)

def restoring (machine : ReplicatedStateMachine) (state : SnapshotState) : ReplicatedStateMachine × Option String :=
  match validateSnapshotState state machine.maxClients machine.maxDedupBytes with
  | .error message => (machine,some message)
  | .ok dedupBytes =>
    let machine := {machine with values := state.values}
    let machine := {machine with clients := state.clients}
    ({machine with dedupBytes := dedupBytes},none)

def perform (machine : ReplicatedStateMachine) : Operation → ReplicatedStateMachine × Option String
  | .apply command canonical => machine.applying command canonical
  | .restore state => machine.restoring state

def performs (machine : ReplicatedStateMachine) (operations : List Operation) : ReplicatedStateMachine :=
  operations.foldl (fun machine operation => (machine.perform operation).1) machine

end ReplicatedStateMachine

-- A record that stands for a command of its client, with a response that the
-- command can have.
structure Retained (client : ClientId) (record : DedupRecord) (command : ReplicatedCommand) : Prop where
  decodes : decodeReplicatedCommand record.command = .ok command
  canonical : encodeReplicatedCommand command = .ok record.command
  client : command.clientId = client
  request : command.requestId = record.requestId
  response : validateResponse command record.response = .ok ()

structure Accounted (maxClients maxDedupBytes : Nat) (machine : ReplicatedStateMachine) : Prop where
  clients : machine.clientCount ≤ maxClients
  counted : machine.dedupBytes = machine.clients.total recordBytes
  bounded : machine.dedupBytes ≤ maxDedupBytes
  -- neither subtraction of apply wraps, whichever record it retires
  subtracts : ∀ client, let retained := ((machine.clients.find? client).map DedupRecord.bytes).getD 0
    retained ≤ machine.dedupBytes ∧ sizeSub machine.dedupBytes retained = machine.dedupBytes-retained ∧
    sizeSub machine.maxDedupBytes (machine.dedupBytes-retained) = maxDedupBytes-(machine.dedupBytes-retained)
  records : ∀ client record, machine.clients.find? client = some record → ∃ command, Retained client record command
  values : ∀ key value, machine.find key = some value → key ≠ [] ∧ key.length ≤ maxKeySize ∧ value.length ≤ maxValueSize

section machines
variable {machine after : ReplicatedStateMachine} {maxClients maxDedupBytes : Nat}

section
variable (reached : Reached maxClients maxDedupBytes machine)
include reached

theorem perform_reached (operation : Operation) :
    Reached maxClients maxDedupBytes (machine.perform operation).1 := by
  cases operation with
  | apply command canonical =>
    simp only [ReplicatedStateMachine.perform,ReplicatedStateMachine.applying]
    split
    · exact reached
    · rename_i encoded ran
      split
      · exact reached
      · rename_i same
        exact .applied reached (ReplicatedStateMachine.apply_iff.mpr ⟨ran.trans (congrArg _ (not_not.mp same)),rfl⟩)
  | restore state =>
    simp only [ReplicatedStateMachine.perform,ReplicatedStateMachine.restoring]
    split
    · exact reached
    · rename_i dedupBytes ran
      exact .restored reached (bind_ok.mpr ⟨dedupBytes,ran,rfl⟩)

theorem performs_reached (operations : List Operation) :
    Reached maxClients maxDedupBytes (machine.performs operations) := by
  induction operations generalizing machine with
  | nil => exact reached
  | cons operation rest ih => exact ih (perform_reached reached operation)

theorem reached_limits :
    machine.maxClients = maxClients ∧ machine.maxDedupBytes = maxDedupBytes := by
  induction reached with
  | created made =>
    unfold ReplicatedStateMachine.create at made
    split at made
    · cases made
    · cases made
      exact ⟨rfl,rfl⟩
  | applied earlier ran ih =>
    obtain ⟨clients,bytes⟩ := apply_limits ran
    exact ⟨clients.trans ih.1,bytes.trans ih.2⟩
  | restored earlier ran ih =>
    obtain ⟨clients,bytes⟩ := restore_limits ran
    exact ⟨clients.trans ih.1,bytes.trans ih.2⟩

end

theorem storable_retained (storable : StorableRecord (client,record)) : ∃ command, Retained client record command := by
  obtain ⟨command,decoded,stored⟩ := storable_iff.mp storable
  obtain ⟨valid,client,request,bytes⟩ := decoded_iff.mp decoded
  have canonical : encodeReplicatedCommand command = .ok record.command := encode_iff.mpr ⟨valid,bytes⟩
  exact ⟨command,decode_encode canonical,canonical,client,request,validateResponse_iff.mpr stored⟩

theorem healthy_accounted (healthy : Healthy machine) (clientLimit : machine.maxClients = maxClients)
    (byteLimit : machine.maxDedupBytes = maxDedupBytes) : Accounted maxClients maxDedupBytes machine := by
  have large : maxDedupBytes < 2^64 := by
    rw [← byteLimit]
    exact Nat.lt_of_le_of_lt healthy.byteLimit (by decide)
  have bounded := healthy.bounded
  rw [byteLimit] at bounded
  refine ⟨clientLimit ▸ healthy.clients,healthy.counted,bounded,?_,?_,?_⟩
  · intro client retained
    have part : retained ≤ machine.dedupBytes := by
      rw [healthy.counted]
      exact total_retained rfl
    refine ⟨part,sizeSub_eq part (by omega),?_⟩
    rw [byteLimit]
    exact sizeSub_eq (by omega) large
  · intro client record found
    exact storable_retained (healthy.records (client,record) (Table.mem_iff.mpr found))
  · intro key value found
    obtain ⟨named,short,small⟩ := healthy.values (key,value) (Table.mem_iff.mpr found)
    exact ⟨named,short,small⟩

theorem dedup_accounting (made : ReplicatedStateMachine.create maxClients maxDedupBytes = .ok machine) (operations : List Operation) :
    Accounted maxClients maxDedupBytes (machine.performs operations) ∧
    ∀ state message, (machine.performs operations).restore state = .error message →
      (machine.performs operations).perform (.restore state) = (machine.performs operations,some message) := by
  have reached := performs_reached (.created made) operations
  obtain ⟨clientLimit,byteLimit⟩ := reached_limits reached
  refine ⟨healthy_accounted (reached_healthy reached) clientLimit byteLimit,?_⟩
  intro state message thrown
  unfold ReplicatedStateMachine.restore at thrown
  simp only [ReplicatedStateMachine.perform,ReplicatedStateMachine.restoring]
  split
  · rename_i ran
    cases ran ▸ thrown
    rfl
  · rename_i ran
    cases ran ▸ thrown

end machines

theorem dedup_accounting_firstPut : (emptyMachine.performs [.apply firstPut firstPut.bytes]).clientCount = 1 ∧
    Accounted kMaxDedupClients kMaxDedupBytes (emptyMachine.performs [.apply firstPut firstPut.bytes]) := by
  refine ⟨?_,(dedup_accounting rfl [.apply firstPut firstPut.bytes]).1⟩
  rfl

end ForgeKv.Cluster
