import ForgeKv.Cluster.Owner

namespace ForgeKv.Cluster
open Raft RaftStorage Persisted

def ClusterNodeConfig.raft (config : ClusterNodeConfig) : RaftConfig where
  selfId := config.nodeId
  voters := voterIds config
  electionTimeoutMin := config.electionTimeoutMin
  electionTimeoutMax := config.electionTimeoutMax
  heartbeatInterval := config.heartbeatInterval
  electionTimeouts := config.electionTimeouts
  maxAppendEntries := 4096
  maxAppendBytes := 1049768

-- Whose directory the snapshot store expects.
def ClusterNodeConfig.identity (config : ClusterNodeConfig) : RaftStorage.Owner :=
  ⟨config.clusterId,config.nodeId,fixedMembershipFingerprint (voterIds config)⟩

-- What the other threads have done when the owner thread takes its next step: the
-- clock went on, reads were given up, and the background task may have run, all of
-- it or up to an I/O error behind so many of its effects.
structure Moment where
  elapsed : Nat
  canceled : List Completion
  background : Option (Option Nat)

-- ClusterNode::Impl with its directory. `emitted` are all actions that the core has
-- returned; `written` and `compacted` are the images given to write_atomic by the
-- background task and to compact by the owner, with the exception that came of it.
-- The clock counts nanoseconds from the start of the loop.
structure ClusterNode where
  owner : OwnerState
  driver : PersistedRaftNode
  nextTick : Nat
  running : Bool
  failure : Option Failure
  moments : List Moment
  emitted : Actions
  written : List (StateMachineSnapshot × Option Failure)
  compacted : List (StateMachineSnapshot × Option Failure)

abbrev NodeRoutine := Procedure ClusterNode Failure

namespace ClusterNode
open Procedure

def setFuture (future : SnapshotFuture) (node : ClusterNode) : ClusterNode :=
  {node with owner := {node.owner with snapshotFuture := some future}}

-- write_atomic as the background task calls it.
def publish (snapshot : StateMachineSnapshot) (fate : Option Nat) (node : ClusterNode) : ClusterNode :=
  match writeAtomic node.owner.config.identity node.driver.files snapshot with
  | .error error =>
    {node.setFuture (.ready (.error (.storage error))) with written := node.written ++ [(snapshot,some (.storage error))]}
  | .ok effects =>
    match fate with
    | none =>
      {node.setFuture (.ready (.ok snapshot)) with
        driver := {node.driver with files := node.driver.files.run effects}
        written := node.written ++ [(snapshot,none)]}
    | some done =>
      {node.setFuture (.ready (.error (.driver .io))) with
        driver := {node.driver with files := node.driver.files.run (effects.take done)}
        written := node.written ++ [(snapshot,some (.driver .io))]}

def runBackground (fate : Option Nat) (node : ClusterNode) : ClusterNode :=
  match node.owner.snapshotFuture with
  | some (.running index term state) =>
    match encodeSnapshotState state with
    | .error message => node.setFuture (.ready (.error (.runtime message)))
    | .ok image => node.publish ⟨index,term,image⟩ fate
  | _ => node

def pass (moment : Moment) (moments : List Moment) (node : ClusterNode) : ClusterNode :=
  {node with
    owner := {node.owner with now := node.owner.now+moment.elapsed,canceled := moment.canceled}
    moments := moments}

def elapse : NodeRoutine := fun node =>
  match node.moments with
  | [] => (node,none)
  | moment::moments =>
    match moment.background with
    | none => (node.pass moment moments,none)
    | some fate => ((node.pass moment moments).runBackground fate,none)

def onDriver (routine : Persisted.Routine) : NodeRoutine := fun node =>
  ({node with driver := (routine node.driver).1},(routine node.driver).2.map .driver)

def onOwner (routine : OwnerRoutine) : NodeRoutine := fun node =>
  ({node with owner := (routine node.owner).1},(routine node.owner).2)

def persistAction (action : Action) : NodeRoutine := elapse.andThen (onDriver (PersistedRaftNode.persistAction action))

def publishAction (action : Action) : NodeRoutine := elapse.andThen (onOwner (OwnerState.onAction action))

-- The two loops of PersistedRaftNode::drive with on_action as its output.
def loops (actions : Actions) : NodeRoutine :=
  (forEach persistAction (actions.filter Action.isPersist)).andThen
    (forEach publishAction (actions.filter (fun action => !action.isPersist)))

def failDriver (node : ClusterNode) : ClusterNode := {node with driver := {node.driver with isFailed := true}}

-- An exception of the store or of on_action fails the driver.
def drive (actions : Actions) : NodeRoutine := fun node =>
  match loops actions {node with emitted := node.emitted ++ actions} with
  | (node,none) => (node,none)
  | (node,some failure) => (node.failDriver,some failure)

def setCore (core : RaftNode) (node : ClusterNode) : ClusterNode := {node with driver := {node.driver with node := core}}

-- The public calls of the driver.
def run (input : Input) : NodeRoutine := fun node =>
  if node.driver.isFailed then (node,some (.driver .faulted))
  else match node.driver.node.call input with
    | .error thrown => (node.setCore thrown.node,some (.driver (.core thrown.fault)))
    | .ok (core,actions) => drive actions (node.setCore core)

def setDurable (already : Bool) (node : ClusterNode) : ClusterNode :=
  {node with driver := {node.driver with snapshotAlreadyDurable := already}}

def compact (snapshot : StateMachineSnapshot) (already : Bool) : NodeRoutine := fun node =>
  match run (.compact snapshot) (node.setDurable already) with
  | (node,none) => ({node with compacted := node.compacted ++ [(snapshot,none)]},none)
  | (node,some failure) =>
    ({node.setDurable false with compacted := node.compacted ++ [(snapshot,some failure)]},some failure)

def process (work : Work) : NodeRoutine := fun node =>
  match node.owner.receive node.driver.node work with
  | .error failure => (node,some failure)
  | .ok (owner,none) => ({node with owner := owner},none)
  | .ok (owner,some input) =>
    ((run input).andThen (onOwner fun owner => (owner.settle work,none))) {node with owner := owner}

def pollSnapshotCreation : NodeRoutine := fun node =>
  match node.owner.collect with
  | (none,_) => (node,none)
  | (some (.error failure),owner) => ({node with owner := owner},some failure)
  | (some (.ok completed),owner) =>
    if completed.lastIncludedIndex ≤ node.driver.node.persistent.baseIndex then ({node with owner := owner},none)
    else ((compact completed true).andThen fun node =>
      ({node with owner := node.owner.compacted node.driver.node},none)) {node with owner := owner}

def tick (now : Nat) : NodeRoutine := fun node =>
  if node.nextTick ≤ now then
    ((run (.advanceTime (now/1000000))).andThen fun node => ({node with nextTick := now+10000000},none)) node
  else (node,none)

-- The body of the loop. What is popped from the queue is given from outside.
def iterate (work : Option Work) : NodeRoutine :=
  elapse.andThen fun node =>
    let now := node.owner.now
    ((tick now).andThen ((onOwner fun owner => (owner.expirePendingReads now,none)).andThen
      ((elapse.andThen (forEach process work.toList)).andThen (elapse.andThen pollSnapshotCreation)))) node

-- One turn of the loop. `fates` is what the disk will do in it.
def turn (moments : List Moment) (fates : List (Option Nat)) (work : Option Work) (node : ClusterNode) : ClusterNode :=
  if ¬ node.running then node
  else match iterate work {node with moments := moments,driver := {node.driver with fates := fates}} with
    | (node,none) => node
    | (node,some failure) =>
      {node with owner := node.owner.failPending .failed,running := false,failure := some failure}

def stop (node : ClusterNode) : ClusterNode := {node with owner := node.owner.failPending .retry,running := false}

-- owner_loop up to its loop.
def start (config : ClusterNodeConfig) (files : Files) : Except Failure ClusterNode :=
  match PersistedRaftNode.open config.clusterId config.raft files 0 with
  | .error thrown => .error (.driver thrown)
  | .ok driver =>
    match OwnerState.recover config driver.node with
    | .error failure => .error failure
    | .ok owner => .ok ⟨owner,driver,0,true,none,[],[],[],[]⟩

-- What happens to a node: its loop turns, its background task runs, or it is stopped.
inductive Event where
  | turn (moments : List Moment) (fates : List (Option Nat)) (work : Option Work)
  | background (fate : Option Nat)
  | stop

def happen (node : ClusterNode) : Event → ClusterNode
  | .turn moments fates work => node.turn moments fates work
  | .background fate => node.runBackground fate
  | .stop => node.stop

def live (node : ClusterNode) (events : List Event) : ClusterNode := events.foldl happen node

theorem runBackground_free {node : ClusterNode} (free : node.owner.snapshotFuture = none) : node.runBackground fate = node := by
  unfold runBackground
  rw [free]

variable {before after : ClusterNode → Prop} {failed : Failure → ClusterNode → Prop}

theorem onDriver_ensures {routine : Persisted.Routine} (lifted : ∀ node, before node →
      Meets (fun driver => after {node with driver := driver}) (fun thrown driver => failed (.driver thrown) {node with driver := driver})
        (routine node.driver)) : Ensures before (onDriver routine) after failed := by
  intro node holds
  have meets := lifted node holds
  unfold onDriver
  match ran : routine node.driver with
  | (driver,none) =>
    rw [ran] at meets
    exact meets
  | (driver,some thrown) =>
    rw [ran] at meets
    exact meets

theorem onOwner_ensures {routine : OwnerRoutine} (lifted : ∀ node, before node →
      Meets (fun owner => after {node with owner := owner}) (fun failure owner => failed failure {node with owner := owner})
        (routine node.owner)) : Ensures before (onOwner routine) after failed := by
  intro node holds
  have meets := lifted node holds
  unfold onOwner
  match ran : routine node.owner with
  | (owner,none) =>
    rw [ran] at meets
    exact meets
  | (owner,some failure) =>
    rw [ran] at meets
    exact meets

theorem drive_meets {actions : Actions} {node : ClusterNode}
    (looped : Meets after (fun failure node => failed failure node.failDriver) (loops actions {node with emitted := node.emitted ++ actions})) :
    Meets after failed (drive actions node) := by
  unfold drive
  match ran : loops actions {node with emitted := node.emitted ++ actions} with
  | (final,none) =>
    rw [ran] at looped
    exact looped
  | (final,some failure) =>
    rw [ran] at looped
    exact looped

theorem run_called {node : ClusterNode} (well : node.driver.isFailed = false)
    (called : node.driver.node.call input = .ok (core,actions)) : run input node = drive actions (node.setCore core) := by
  unfold run
  rw [if_neg (by simp [well]),called]

def Past (emitted : Actions) (node : ClusterNode) : Prop := emitted <+: node.emitted

section past
variable {emitted : Actions}

theorem elapse_past : Preserves (Past emitted) elapse := by
  intro node past
  unfold elapse runBackground publish setFuture pass
  repeat' split
  all_goals exact past

theorem onDriver_past : Preserves (Past emitted) (onDriver routine) := by
  refine onDriver_ensures fun node past => ?_
  match routine node.driver with
  | (driver,none) | (driver,some thrown) => exact past

theorem onOwner_past : Preserves (Past emitted) (onOwner routine) := by
  refine onOwner_ensures fun node past => ?_
  match routine node.owner with
  | (owner,none) | (owner,some thrown) => exact past

theorem loops_past : Preserves (Past emitted) (loops actions) :=
  (Ensures.forEach (fun _ => Past emitted) (fun _ _ => elapse_past.andThen onDriver_past) _).andThen
    (Ensures.forEach (fun _ => Past emitted) (fun _ _ => elapse_past.andThen onOwner_past) _)

theorem run_past : Preserves (Past emitted) (run input) := by
  intro node past
  unfold run
  split
  · exact past
  split
  · exact past
  · exact drive_meets (loops_past _ (past.trans (List.prefix_append ..)))

theorem compact_past : Preserves (Past emitted) (compact snapshot already) := by
  intro node past
  have ran : Meets (Past emitted) (fun _ => Past emitted) (run (.compact snapshot) (node.setDurable already)) := run_past _ past
  unfold compact
  match found : run (.compact snapshot) (node.setDurable already) with
  | (final,none) =>
    rw [found] at ran
    exact ran
  | (final,some failure) =>
    rw [found] at ran
    exact ran

theorem pollSnapshotCreation_past : Preserves (Past emitted) pollSnapshotCreation := by
  intro node past
  have finished : Preserves (Past emitted) (fun node : ClusterNode =>
      ({node with owner := node.owner.compacted node.driver.node},(none : Option Failure))) :=
    fun node past => past
  unfold pollSnapshotCreation
  split
  · exact past
  · exact past
  · split
    · exact past
    · exact compact_past.andThen finished _ past

end past

theorem runBackground_past {node : ClusterNode} :
    (node.runBackground fate).emitted = node.emitted ∧ (node.runBackground fate).running = node.running := by
  unfold runBackground publish setFuture
  repeat' split
  all_goals exact ⟨rfl,rfl⟩

end ClusterNode
end ForgeKv.Cluster
