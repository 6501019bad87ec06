import ForgeKv.Cluster.SnapshotCodec
import ForgeKv.Persisted.Driver

namespace ForgeKv.Cluster
open Raft

inductive ClientStatus where
  | ok
  | notFound
  | redirect
  | retry
  | failed
  | requestIdReuse
  | staleRequest
  | capacityExceeded
deriving DecidableEq, Repr

structure ClientResult where
  status : ClientStatus
  value : Bytes
  leaderEndpoint : String
deriving DecidableEq, Repr

-- A promise, by the number of the request that waits for it.
abbrev Completion := Nat

-- What a promise is set to.
inductive Answer where
  | result (result : ClientResult)
  | response (message : Message)
  | exception (message : String)
deriving DecidableEq, Repr

-- An exception that reaches the owner loop.
inductive Failure where
  | driver (thrown : Persisted.Thrown)
  | storage (error : RaftStorage.StorageError)
  | runtime (message : String)
deriving DecidableEq, Repr

structure PeerAddress where
  nodeId : NodeId
  host : String
  peerPort : Nat
  clientPort : Nat
deriving DecidableEq, Repr

-- What the owner loop reads of its configuration. `electionTimeouts` is what the
-- generator draws from the seed of the node.
structure ClusterNodeConfig where
  clusterId : Nat
  nodeId : NodeId
  peers : List PeerAddress
  electionTimeoutMin : Nat
  electionTimeoutMax : Nat
  heartbeatInterval : Nat
  electionTimeouts : Nat → Nat
  maxPendingReads : Nat
  snapshotThreshold : Nat

def voterIds (config : ClusterNodeConfig) : List NodeId := config.peers.map PeerAddress.nodeId

def formatEndpoint (host : String) (port : Nat) : String :=
  if ':' ∈ host.toList then "[" ++ host ++ "]:" ++ toString port else host ++ ":" ++ toString port

def leaderEndpoint (config : ClusterNodeConfig) : Option NodeId → String
  | none => ""
  | some leader =>
    match config.peers.find? (fun peer => peer.nodeId = leader) with
    | none => ""
    | some peer => formatEndpoint peer.host peer.clientPort

def isRequestMessage : Message → Bool
  | .requestVote _ | .appendEntries _ | .installSnapshot _ => true
  | _ => false

inductive Work where
  | proposal (command : ReplicatedCommand) (completion : Completion)
  | read (key : Bytes) (completion : Completion) (deadline : Nat)
  | peerRequest (envelope : PeerEnvelope) (completion : Completion)
  | peerResponse (source : NodeId) (message : Message)

structure PendingMutation where
  command : Bytes
  completion : Completion
deriving DecidableEq, Repr

structure PendingRead where
  key : Bytes
  completion : Completion
  deadline : Nat
deriving DecidableEq, Repr

-- The background task: it has a copy of the state, or it has ended.
inductive SnapshotFuture where
  | running (index term : Nat) (state : SnapshotState)
  | ready (result : Except Failure StateMachineSnapshot)

-- The owner thread's own variables, apart from its driver. `now` is the last
-- reading of the steady clock and `canceled` are the reads that were given up by
-- then. `answers` and `sent` are what was told to promises and to the transport.
structure OwnerState where
  config : ClusterNodeConfig
  machine : ReplicatedStateMachine
  role : Role
  leaderId : Option NodeId
  activePeerFrom : Option NodeId
  activePeerResponse : Option Message
  activeProposalIndex : Option Nat
  activeReadBarrierIndex : Option Nat
  pending : Table Nat PendingMutation
  pendingReads : Table Nat (List PendingRead)
  snapshotFuture : Option SnapshotFuture
  lastSnapshotIndex : Nat
  now : Nat
  canceled : List Completion
  answers : List (Completion × Answer)
  sent : List (NodeId × Message)

abbrev OwnerRoutine := Procedure OwnerState Failure

namespace OwnerState

def plainResult (status : ClientStatus) : ClientResult := ⟨status,[],""⟩

-- For a request that only a leader can serve.
def turnedAway (config : ClusterNodeConfig) (leader : Option NodeId) : ClientResult :=
  ⟨if leader.isSome then .redirect else .retry,[],leaderEndpoint config leader⟩

def tell (owner : OwnerState) (told : List (Completion × ClientResult)) : OwnerState :=
  {owner with answers := owner.answers ++ told.map (fun answer => (answer.1,.result answer.2))}

def failPending (status : ClientStatus) (owner : OwnerState) : OwnerState :=
  let mutations := owner.pending.bindings.map (fun binding => (binding.2.completion,plainResult status))
  let reads := owner.pendingReads.bindings.flatMap (fun binding =>
    binding.2.map (fun read => (read.completion,plainResult status)))
  {owner.tell (mutations ++ reads) with pending := .empty,pendingReads := .empty}

def expired (owner : OwnerState) (now : Nat) (read : PendingRead) : Bool :=
  owner.canceled.contains read.completion || decide (read.deadline ≤ now)

-- The keys stay, with what is left of their reads.
def expirePendingReads (now : Nat) (owner : OwnerState) : OwnerState :=
  let gone := owner.pendingReads.bindings.flatMap (fun binding =>
    (binding.2.filter (owner.expired now)).map (fun read => (read.completion,plainResult .retry)))
  {owner.tell gone with
    pendingReads := owner.pendingReads.mapValues (List.filter (fun read => !owner.expired now read))}

def readResult (owner : OwnerState) (read : PendingRead) : ClientResult :=
  if owner.expired owner.now read then plainResult .retry
  else match owner.machine.find read.key with
    | none => plainResult .notFound
    | some value => ⟨.ok,value,""⟩

def mutationStatus : MutationApplyStatus → ClientStatus
  | .applied | .duplicate => .ok
  | .requestIdReuse => .requestIdReuse
  | .staleRequest => .staleRequest
  | .capacityExceeded => .capacityExceeded

def mutationResult (pending : PendingMutation) (command : Bytes) (result : MutationApplyResult) : ClientResult :=
  if pending.command ≠ command then plainResult .failed else ⟨mutationStatus result.status,result.response,""⟩

def answerReads (index : Nat) (owner : OwnerState) : OwnerState :=
  match owner.pendingReads.find? index with
  | none => owner
  | some reads =>
    {owner.tell (reads.map (fun read => (read.completion,owner.readResult read))) with
      pendingReads := owner.pendingReads.erase index}

def answerMutation (entry : LogEntry) (result : MutationApplyResult) (owner : OwnerState) : OwnerState :=
  match owner.pending.find? entry.index with
  | none => owner
  | some pending =>
    {owner.tell [(pending.completion,mutationResult pending entry.command result)] with
      pending := owner.pending.erase entry.index}

def applyEntry (entry : LogEntry) : OwnerRoutine := fun owner =>
  match entry.kind with
  | .noOp => (owner.answerReads entry.index,none)
  | .command =>
    match decodeReplicatedCommand entry.command with
    | .error message => (owner,some (.runtime ("committed invalid state-machine command: " ++ message)))
    | .ok command =>
      match owner.machine.apply command entry.command with
      | .error message => (owner,some (.runtime message))
      | .ok (machine,result) => (answerMutation entry result {owner with machine := machine},none)

-- A snapshot of the state as it is now, unless one is on its way or too near.
def maybeStartSnapshot (index term : Nat) (owner : OwnerState) : OwnerState :=
  if owner.snapshotFuture.isSome ∨ index ≤ owner.lastSnapshotIndex ∨
      index-owner.lastSnapshotIndex < owner.config.snapshotThreshold then owner
  else {owner with snapshotFuture := some (.running index term owner.machine.snapshot)}

def sendMessage (target : NodeId) (message : Message) (owner : OwnerState) : OwnerState :=
  if isRequestMessage message then {owner with sent := owner.sent ++ [(target,message)]}
  else if owner.activePeerFrom = some target then {owner with activePeerResponse := some message}
  else owner

def roleChanged (next : Role) (leaderId : Option NodeId) (owner : OwnerState) : OwnerState :=
  let changed := {owner with role := next,leaderId := leaderId}
  if owner.role = .leader ∧ next ≠ .leader then changed.failPending .retry else changed

def restoreImage (described : String) (image : Bytes) : OwnerRoutine := fun owner =>
  match decodeSnapshotState image with
  | .error message => (owner,some (.runtime (described ++ message)))
  | .ok state =>
    match owner.machine.restore state with
    | .error message => (owner,some (.runtime message))
    | .ok machine => ({owner with machine := machine},none)

def applySnapshot (snapshot : StateMachineSnapshot) : OwnerRoutine :=
  (restoreImage "installed invalid state-machine snapshot: " snapshot.stateMachine).andThen fun owner =>
    (failPending .retry {owner with lastSnapshotIndex := snapshot.lastIncludedIndex},none)

def proposalRejected (owner : OwnerState) : OwnerState :=
  let result := turnedAway owner.config owner.leaderId
  match owner.activeProposalIndex with
  | some index =>
    match owner.pending.find? index with
    | none => owner
    | some pending => {owner.tell [(pending.completion,result)] with pending := owner.pending.erase index}
  | none =>
    match owner.activeReadBarrierIndex with
    | none => owner
    | some index =>
      match owner.pendingReads.find? index with
      | none => owner
      | some reads =>
        {owner.tell (reads.map (fun read => (read.completion,result))) with pendingReads := owner.pendingReads.erase index}

def onAction : Action → OwnerRoutine
  | .sendMessage target message => fun owner => (owner.sendMessage target message,none)
  | .roleChanged _ next _ leaderId => fun owner => (owner.roleChanged next leaderId,none)
  | .applyEntry entry => (applyEntry entry).andThen fun owner => (owner.maybeStartSnapshot entry.index entry.term,none)
  | .applySnapshot snapshot => applySnapshot snapshot
  | .proposalRejected _ => fun owner => (owner.proposalRejected,none)
  | _ => Procedure.skip

-- The index that the core's next entry gets.
def nextIndex (core : RaftNode) : Nat := core.persistent.baseIndex+core.persistent.log.length+1

-- A process function up to its call of the driver, if it makes one.
def receive (core : RaftNode) (work : Work) (owner : OwnerState) : Except Failure (OwnerState × Option Input) :=
  match work with
  | .proposal command completion =>
    if core.role ≠ .leader then .ok (owner.tell [(completion,turnedAway owner.config core.leaderId)],none)
    else match encodeReplicatedCommand command with
      | .error message => .error (.runtime message)
      | .ok encoded =>
        .ok ({owner with
          pending := owner.pending.emplace (nextIndex core) ⟨encoded,completion⟩
          activeProposalIndex := some (nextIndex core)},some (.propose encoded))
  | .read key completion deadline =>
    if owner.expired owner.now ⟨key,completion,deadline⟩ then .ok (owner.tell [(completion,plainResult .retry)],none)
    else if core.role ≠ .leader then .ok (owner.tell [(completion,turnedAway owner.config core.leaderId)],none)
    else if owner.config.maxPendingReads ≤ owner.pendingReads.size then
      .ok (owner.tell [(completion,plainResult .retry)],none)
    else
      .ok ({owner with
        pendingReads := owner.pendingReads.emplace (nextIndex core) [⟨key,completion,deadline⟩]
        activeReadBarrierIndex := some (nextIndex core)},some .readBarrier)
  | .peerRequest envelope _ =>
    .ok ({owner with activePeerFrom := some envelope.source,activePeerResponse := none},
      some (.step envelope.source envelope.message))
  | .peerResponse source message => .ok (owner,some (.step source message))

-- The rest of it, after the driver's call.
def settle (work : Work) (owner : OwnerState) : OwnerState :=
  match work with
  | .proposal _ _ => {owner with activeProposalIndex := none}
  | .read _ _ _ => {owner with activeReadBarrierIndex := none}
  | .peerRequest _ completion =>
    match owner.activePeerResponse with
    | none =>
      {owner with
        activePeerFrom := none
        answers := owner.answers ++ [(completion,.exception "Raft request produced no response")]}
    | some response =>
      {owner with
        activePeerFrom := none
        activePeerResponse := none
        answers := owner.answers ++ [(completion,.response response)]}
  | .peerResponse _ _ => owner

-- What poll_snapshot_creation takes out of a future that is ready.
def collect (owner : OwnerState) : Option (Except Failure StateMachineSnapshot) × OwnerState :=
  match owner.snapshotFuture with
  | some (.ready result) => (some result,{owner with snapshotFuture := none})
  | _ => (none,owner)

-- What it does behind a compaction.
def compacted (core : RaftNode) (owner : OwnerState) : OwnerState :=
  let owner := {owner with lastSnapshotIndex := core.persistent.baseIndex}
  if owner.lastSnapshotIndex < core.lastApplied then
    match core.persistent.log.find? (fun entry => entry.index = core.lastApplied) with
    | none => owner
    | some applied => owner.maybeStartSnapshot applied.index applied.term
  else owner

def create (config : ClusterNodeConfig) (core : RaftNode) (machine : ReplicatedStateMachine) : OwnerState :=
  {config := config
   machine := machine
   role := core.role
   leaderId := core.leaderId
   activePeerFrom := none
   activePeerResponse := none
   activeProposalIndex := none
   activeReadBarrierIndex := none
   pending := .empty
   pendingReads := .empty
   snapshotFuture := none
   lastSnapshotIndex := core.persistent.baseIndex
   now := 0
   canceled := []
   answers := []
   sent := []}

-- owner_loop up to its loop: the state of the durable snapshot, if there is one.
def recover (config : ClusterNodeConfig) (core : RaftNode) : Except Failure OwnerState :=
  match ReplicatedStateMachine.create kMaxDedupClients kMaxDedupBytes with
  | .error message => .error (.runtime message)
  | .ok machine =>
    match core.durableSnapshot with
    | none => .ok (create config core machine)
    | some snapshot =>
      match restoreImage "invalid durable state-machine snapshot: " snapshot.stateMachine (create config core machine) with
      | (owner,none) => .ok owner
      | (_,some failure) => .error failure

structure Kept (owner after : OwnerState) : Prop where
  config : after.config = owner.config
  machine : after.machine = owner.machine
  future : after.snapshotFuture = owner.snapshotFuture
  last : after.lastSnapshotIndex = owner.lastSnapshotIndex

section kept
variable {owner : OwnerState}

theorem tell_kept : Kept owner (owner.tell told) := ⟨rfl,rfl,rfl,rfl⟩
theorem failPending_kept : Kept owner (owner.failPending status) := ⟨rfl,rfl,rfl,rfl⟩
theorem expirePendingReads_kept : Kept owner (owner.expirePendingReads time) := ⟨rfl,rfl,rfl,rfl⟩

theorem answerReads_kept : Kept owner (owner.answerReads index) := by
  unfold answerReads
  split <;> exact ⟨rfl,rfl,rfl,rfl⟩

theorem answerMutation_kept : Kept owner (owner.answerMutation entry result) := by
  unfold answerMutation
  split <;> exact ⟨rfl,rfl,rfl,rfl⟩

theorem sendMessage_kept : Kept owner (owner.sendMessage target message) := by
  unfold sendMessage
  split
  · exact ⟨rfl,rfl,rfl,rfl⟩
  · split <;> exact ⟨rfl,rfl,rfl,rfl⟩

theorem roleChanged_kept : Kept owner (owner.roleChanged next leader) := by
  unfold roleChanged
  split <;> exact ⟨rfl,rfl,rfl,rfl⟩

theorem proposalRejected_kept : Kept owner owner.proposalRejected := by
  unfold proposalRejected
  repeat' split
  all_goals exact ⟨rfl,rfl,rfl,rfl⟩

theorem settle_kept : Kept owner (owner.settle work) := by
  unfold settle
  split
  case h_3 => split <;> exact ⟨rfl,rfl,rfl,rfl⟩
  all_goals exact ⟨rfl,rfl,rfl,rfl⟩

theorem receive_ok (received : owner.receive core work = .ok (after,input)) : Kept owner after ∧
    ∀ call, input = some call → (∃ command, call = .propose command) ∨ call = .readBarrier ∨
      (∃ envelope completion, work = .peerRequest envelope completion ∧ call = .step envelope.source envelope.message) ∨
      ∃ source message, work = .peerResponse source message ∧ call = .step source message := by
  unfold receive at received
  split at received
  · split at received
    · cases received
      exact ⟨tell_kept,nofun⟩
    · split at received
      · cases received
      · cases received
        exact ⟨⟨rfl,rfl,rfl,rfl⟩,fun call asked => .inl ⟨_,(Option.some.inj asked).symm⟩⟩
  · split at received
    · cases received
      exact ⟨tell_kept,nofun⟩
    · split at received
      · cases received
        exact ⟨tell_kept,nofun⟩
      · split at received
        · cases received
          exact ⟨tell_kept,nofun⟩
        · cases received
          exact ⟨⟨rfl,rfl,rfl,rfl⟩,fun call asked => .inr (.inl (Option.some.inj asked).symm)⟩
  · cases received
    exact ⟨⟨rfl,rfl,rfl,rfl⟩,fun call asked => .inr (.inr (.inl ⟨_,_,rfl,(Option.some.inj asked).symm⟩))⟩
  · cases received
    exact ⟨⟨rfl,rfl,rfl,rfl⟩,fun call asked => .inr (.inr (.inr ⟨_,_,rfl,(Option.some.inj asked).symm⟩))⟩

theorem maybeStartSnapshot_either (index term : Nat) (owner : OwnerState) : owner.maybeStartSnapshot index term = owner ∨
    (owner.snapshotFuture = none ∧ owner.lastSnapshotIndex < index ∧
      owner.maybeStartSnapshot index term = {owner with snapshotFuture := some (.running index term owner.machine.snapshot)}) := by
  unfold maybeStartSnapshot
  split
  · exact .inl rfl
  · rename_i due
    simp only [not_or,Nat.not_le,Bool.not_eq_true,Option.isSome_eq_false_iff,Option.isNone_iff_eq_none] at due
    exact .inr ⟨due.1,due.2.1,rfl⟩

theorem applyEntry_either (entry : LogEntry) (owner : OwnerState) : (∃ failure, applyEntry entry owner = (owner,some failure)) ∨
    (entry.kind = .noOp ∧ ∃ after, applyEntry entry owner = (after,none) ∧ Kept owner after) ∨
    (entry.kind = .command ∧ ∃ command machine result after, decodeReplicatedCommand entry.command = .ok command ∧
      owner.machine.apply command entry.command = .ok (machine,result) ∧ applyEntry entry owner = (after,none) ∧
      Kept {owner with machine := machine} after) := by
  unfold applyEntry
  split
  · rename_i kind
    exact .inr (.inl ⟨kind,_,rfl,answerReads_kept⟩)
  · rename_i kind
    split
    · exact .inl ⟨_,rfl⟩
    · rename_i command decoded
      split
      · exact .inl ⟨_,rfl⟩
      · rename_i machine result applied
        exact .inr (.inr ⟨kind,command,machine,result,_,decoded,applied,rfl,answerMutation_kept⟩)

theorem restoreImage_either (described : String) (image : Bytes) (owner : OwnerState) : (∃ failure, restoreImage described image owner = (owner,some failure)) ∨
    ∃ state machine, decodeSnapshotState image = .ok state ∧ owner.machine.restore state = .ok machine ∧
      restoreImage described image owner = ({owner with machine := machine},none) := by
  unfold restoreImage
  split
  · exact .inl ⟨_,rfl⟩
  · rename_i state decoded
    split
    · exact .inl ⟨_,rfl⟩
    · rename_i machine restored
      exact .inr ⟨state,machine,decoded,restored,rfl⟩

theorem recover_ok {config : ClusterNodeConfig} (recovered : recover config core = .ok owner) :
    owner = create config core owner.machine ∧ ∃ fresh, ReplicatedStateMachine.create kMaxDedupClients kMaxDedupBytes = .ok fresh ∧
      ((core.durableSnapshot = none ∧ owner.machine = fresh) ∨ ∃ image state, core.durableSnapshot = some image ∧
        decodeSnapshotState image.stateMachine = .ok state ∧ fresh.restore state = .ok owner.machine) := by
  unfold recover at recovered
  split at recovered
  · cases recovered
  rename_i fresh made
  split at recovered
  · rename_i blank
    cases recovered
    exact ⟨rfl,fresh,made,.inl ⟨blank,rfl⟩⟩
  rename_i image held
  obtain ⟨failure,ran⟩ | ⟨state,machine,decoded,restored,ran⟩ :=
    restoreImage_either "invalid durable state-machine snapshot: " image.stateMachine (create config core fresh)
  · rw [ran] at recovered
    cases recovered
  · rw [ran] at recovered
    cases recovered
    exact ⟨rfl,fresh,made,.inr ⟨image,state,held,decoded,restored⟩⟩

theorem onAction_future (action : Action) (owner : OwnerState) : (onAction action owner).1.config = owner.config ∧
    ((onAction action owner).1.snapshotFuture = owner.snapshotFuture ∨ ∃ entry state, action = .applyEntry entry ∧
      owner.snapshotFuture = none ∧ (onAction action owner).1.snapshotFuture = some (.running entry.index entry.term state)) := by
  cases action with
  | sendMessage => exact ⟨sendMessage_kept.config,.inl sendMessage_kept.future⟩
  | roleChanged => exact ⟨roleChanged_kept.config,.inl roleChanged_kept.future⟩
  | proposalRejected => exact ⟨proposalRejected_kept.config,.inl proposalRejected_kept.future⟩
  | applyEntry entry =>
    have started : ∀ after, applyEntry entry owner = (after,none) → after.config = owner.config →
        after.snapshotFuture = owner.snapshotFuture → (onAction (.applyEntry entry) owner).1.config = owner.config ∧
        ((onAction (.applyEntry entry) owner).1.snapshotFuture = owner.snapshotFuture ∨ ∃ found state,
          Action.applyEntry entry = .applyEntry found ∧ owner.snapshotFuture = none ∧
          (onAction (.applyEntry entry) owner).1.snapshotFuture = some (.running found.index found.term state)) := by
      intro after ran config future
      simp only [onAction,Procedure.andThen,ran]
      obtain same | ⟨free,-,made⟩ := maybeStartSnapshot_either entry.index entry.term after
      · rw [same]
        exact ⟨config,.inl future⟩
      · rw [made]
        exact ⟨config,.inr ⟨entry,_,rfl,future ▸ free,rfl⟩⟩
    obtain ⟨failure,ran⟩ | ⟨-,after,ran,kept⟩ | ⟨-,-,machine,-,after,-,-,ran,kept⟩ := applyEntry_either entry owner
    · simp [onAction,Procedure.andThen,ran]
    · exact started after ran kept.config kept.future
    · exact started after ran kept.config kept.future
  | applySnapshot snapshot =>
    obtain ⟨failure,ran⟩ | ⟨state,machine,-,-,ran⟩ :=
      restoreImage_either "installed invalid state-machine snapshot: " snapshot.stateMachine owner
    · simp [onAction,applySnapshot,Procedure.andThen,ran]
    · simp only [onAction,applySnapshot,Procedure.andThen,ran]
      exact ⟨rfl,.inl rfl⟩
  | _ => exact ⟨rfl,.inl rfl⟩

end kept

end OwnerState
end ForgeKv.Cluster
