import ForgeKv.Raft.Incarnation
import ForgeKv.RaftStorage.History

namespace ForgeKv.Persisted
open Raft RaftStorage

inductive RaftCrashPoint where
  | beforePersist
  | afterWrite
  | afterSync
  | beforeResponse
  | afterResponse
deriving DecidableEq, Repr

inductive Thrown where
  | faulted
  | core (fault : Fault)
  | storage (error : StorageError)
  | io
  | hook (point : RaftCrashPoint)
  | sink
deriving DecidableEq, Repr

-- One call of the output sink, with what the store and the core had then.
structure Output where
  action : Action
  stored : RaftPersistentState
  core : RaftPersistentState

-- PersistedRaftNode::Impl with its directory. `fates` is what hooks, disk and
-- sink will do, operation by operation: go well, or fail after some effects.
structure PersistedRaftNode where
  storage : Store
  files : Files
  node : RaftNode
  isFailed : Bool
  snapshotAlreadyDurable : Bool
  fates : List (Option Nat)
  outputs : List Output

abbrev Routine := Procedure PersistedRaftNode Thrown

namespace PersistedRaftNode
open Procedure

-- The hook at a crash point, which may throw.
def reach (point : RaftCrashPoint) : Routine := fun driver =>
  match driver.fates with
  | some _::fates => ({driver with fates := fates},some (.hook point))
  | fates => ({driver with fates := fates.tail},none)

-- Effects on the disk, after which the store has moved on. A failure leaves some
-- of the effects and the store as it was.
def perform (effects : List Effect) (storage : Store) : Routine := fun driver =>
  match driver.fates with
  | some done::fates => ({driver with files := driver.files.run (effects.take done),fates := fates},some .io)
  | fates => ({driver with files := driver.files.run effects,storage := storage,fates := fates.tail},none)

-- A call into the store: it throws, or it has effects.
def invoke (result : PersistedRaftNode → RaftStorage.Result (Store × List Effect)) : Routine := fun driver =>
  match result driver with
  | .error error => (driver,some (.storage error))
  | .ok (storage,effects) => perform effects storage driver

def prepareHardState (update : PersistHardState) : Routine :=
  invoke fun driver => (driver.storage.prepareHardState update).map (fun storage => (storage,[]))

def prepareLog (update : PersistLog) : Routine := invoke fun driver => driver.storage.prepareLog update

def sync : Routine := invoke fun driver => driver.storage.sync

def installSnapshot (snapshot : StateMachineSnapshot) : Routine :=
  invoke fun driver => driver.storage.installSnapshot driver.files snapshot driver.snapshotAlreadyDurable

def persist (prepare : Routine) : Routine :=
  (reach .beforePersist).andThen (prepare.andThen ((reach .afterWrite).andThen (sync.andThen (reach .afterSync))))

def forgetDurable : Routine := fun driver => ({driver with snapshotAlreadyDurable := false},none)

-- The first loop of drive.
def persistAction : Action → Routine
  | .persistHardState term votedFor => persist (prepareHardState ⟨term,votedFor⟩)
  | .persistLog fromIndex entries => persist (prepareLog ⟨fromIndex,entries⟩)
  | .persistSnapshot snapshot =>
    (reach .beforePersist).andThen ((installSnapshot snapshot).andThen (forgetDurable.andThen (reach .afterSync)))
  | _ => skip

def output (action : Action) : Routine := fun driver =>
  let invocation : Output := ⟨action,driver.storage.state,driver.node.persistent⟩
  let driver := {driver with outputs := driver.outputs ++ [invocation]}
  match driver.fates with
  | some _::fates => ({driver with fates := fates},some .sink)
  | fates => ({driver with fates := fates.tail},none)

-- The second loop of drive.
def publishAction (action : Action) : Routine :=
  match action with
  | .sendMessage _ _ => (reach .beforeResponse).andThen ((output action).andThen (reach .afterResponse))
  | _ => output action

-- The persistence actions are carried out while the others are put aside.
def drive (actions : Actions) : Routine := fun driver =>
  if driver.isFailed then (driver,some .faulted)
  else
    let persists := forEach persistAction (actions.filter Action.isPersist)
    let publishes := forEach publishAction (actions.filter (fun action => !action.isPersist))
    match (persists.andThen publishes) driver with
    | (driver,none) => (driver,none)
    | (driver,some thrown) => ({driver with isFailed := true},some thrown)

end PersistedRaftNode

inductive Request where
  | advanceTime (now : Nat)
  | step (source : NodeId) (message : Message)
  | propose (command : Bytes)
  | readBarrier
  | compact (snapshot : StateMachineSnapshot) (alreadyDurable : Bool)

def Request.input : Request → Input
  | .advanceTime now => .advanceTime now
  | .step source message => .step source message
  | .propose command => .propose command
  | .readBarrier => .readBarrier
  | .compact snapshot _ => .compact snapshot

namespace PersistedRaftNode

-- What every public call does: the core moves first, and its actions are driven.
def run (input : Input) : Routine := fun driver =>
  match driver.node.call input with
  | .error thrown => ({driver with node := thrown.node},some (.core thrown.fault))
  | .ok (node,actions) => drive actions {driver with node := node}

def compact (snapshot : StateMachineSnapshot) (alreadyDurable : Bool) : Routine := fun driver =>
  match run (.compact snapshot) {driver with snapshotAlreadyDurable := alreadyDurable} with
  | (driver,none) => (driver,none)
  | (driver,some thrown) => ({driver with snapshotAlreadyDurable := false},some thrown)

def call (request : Request) : Routine := fun driver =>
  if driver.isFailed then (driver,some .faulted)
  else match request with
    | .compact snapshot alreadyDurable => compact snapshot alreadyDurable driver
    | .advanceTime now => run (.advanceTime now) driver
    | .step source message => run (.step source message) driver
    | .propose command => run (.propose command) driver
    | .readBarrier => run .readBarrier driver

-- The store's part of a call does not touch the core.
def Holds (core : RaftNode) (driver : PersistedRaftNode) : Prop := driver.node = core

section holds
open Procedure (Preserves)
variable {core : RaftNode}

theorem reach_holds : Preserves (Holds core) (reach point) := by
  intro driver holds
  unfold reach
  split <;> exact holds

theorem invoke_holds : Preserves (Holds core) (invoke result) := by
  intro driver holds
  unfold invoke perform
  split
  · exact holds
  · split <;> exact holds

theorem persistAction_holds : Preserves (Holds core) (persistAction action) := by
  have forgets : Preserves (Holds core) forgetDurable := fun driver holds => holds
  have persists : ∀ result, Preserves (Holds core) (persist (invoke result)) := fun _ =>
    reach_holds.andThen (invoke_holds.andThen (reach_holds.andThen (invoke_holds.andThen reach_holds)))
  cases action with
  | persistHardState | persistLog => exact persists _
  | persistSnapshot => exact reach_holds.andThen (invoke_holds.andThen (forgets.andThen reach_holds))
  | _ => exact .skip

end holds
end PersistedRaftNode

-- fixed_membership_fingerprint: FNV-1a over the sorted voters and their number.
def fingerprintStep (hash byte : Nat) : Nat := (Nat.xor hash byte)*0x100000001B3 % 2^64

def fixedMembershipFingerprint (voters : List NodeId) : Nat :=
  let bytes := (voters.mergeSort (· ≤ ·)).flatMap (fun voter => (List.range 8).map (fun place => voter/256^place % 256))
  let hash := fingerprintStep (bytes.foldl fingerprintStep 0xCBF29CE484222325) voters.length
  if hash = 0 then 1 else hash

-- PersistedRaftNode::open on a directory. Its sink and hooks are what `fates` says.
def PersistedRaftNode.open (clusterId : Nat) (config : RaftConfig) (files : Files) (initialTime : Nat) :
    Except Thrown PersistedRaftNode :=
  match validateConfig config with
  | .error fault => .error (.core fault)
  | .ok () =>
    match openStore ⟨clusterId,config.selfId,fixedMembershipFingerprint config.voters⟩ files with
    | .error error => .error (.storage error)
    | .ok (storage,effects) =>
      match RaftNode.create config storage.state initialTime with
      | .error fault => .error (.core fault)
      | .ok node => .ok ⟨storage,files.run effects,node,false,false,[],[]⟩

end ForgeKv.Persisted
