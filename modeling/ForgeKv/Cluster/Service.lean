import ForgeKv.Cluster.Loop

namespace ForgeKv.Cluster
open Raft RaftStorage Persisted
open Protocol (Frame)

-- The sum of an index and a count is 64 bits wide.
def matchesPeerRequest (request response : Message) : Bool :=
  match request with
  | .requestVote _ =>
    match response with
    | .requestVoteResponse _ => true
    | _ => false
  | .installSnapshot snapshot =>
    match response with
    | .installSnapshotResponse reply =>
      reply.rpcId == snapshot.rpcId && reply.lastIncludedIndex == snapshot.lastIncludedIndex
    | _ => false
  | .appendEntries append =>
    match response with
    | .appendEntriesResponse reply =>
      reply.rpcId == append.rpcId &&
        (!reply.success || decide (reply.matchIndex ≤ (append.previousLogIndex+append.entries.length) % 2^64))
    | _ => false
  | _ => false

-- What handle_peer posts, if it posts anything.
def handlePeer (config : ClusterNodeConfig) (frame : Frame) : Except String PeerEnvelope :=
  match decodePeerFrame frame with
  | .error message => .error ("invalid peer request: " ++ message)
  | .ok envelope =>
    if envelope.clusterId ≠ config.clusterId ∨ envelope.target ≠ config.nodeId ∨ envelope.source = config.nodeId ∨
        envelope.source ∉ voterIds config ∨ isRequestMessage envelope.message = false then
      .error "invalid peer request: "
    else .ok envelope

-- What a worker of the transport makes of the answer to one request, if it is not dropped.
def peerResponse (config : ClusterNodeConfig) (target : NodeId) (request : Message) (requestId : UInt64) (frame : Frame) :
    Option Message :=
  if frame.requestId ≠ requestId then none
  else match decodePeerFrame frame with
    | .error _ => none
    | .ok envelope =>
      if envelope.clusterId ≠ config.clusterId ∨ envelope.source ≠ target ∨ envelope.target ≠ config.nodeId ∨
          isRequestMessage envelope.message = true ∨ matchesPeerRequest request envelope.message = false then none
      else some envelope.message

def Work.completion : Work → Option Completion
  | .proposal _ completion | .read _ completion _ | .peerRequest _ completion => some completion
  | .peerResponse _ _ => none

def cancel : Work → List (Completion × Answer)
  | .proposal _ completion | .read _ completion _ => [(completion,.result (OwnerState.plainResult .retry))]
  | .peerRequest _ completion => [(completion,.exception "Raft node is stopping")]
  | .peerResponse _ _ => []

-- The owner loop with its queue. `accepted` are the promises of the requests that
-- post has taken, numbered by `issued`, and `canceled` is what stop has told them.
structure Service where
  node : ClusterNode
  capacity : Nat
  queue : List Work
  stopping : Bool
  issued : Nat
  accepted : List Completion
  canceled : List (Completion × Answer)

namespace Service

def fresh (capacity : Nat) (node : ClusterNode) : Service := ⟨node,capacity,[],false,0,[],[]⟩

def post (work : Work) (service : Service) : Option Service :=
  if service.stopping ∨ service.capacity ≤ service.queue.length then none
  else some {service with queue := service.queue ++ [work]}

-- A handler makes a promise and posts a request with it.
def submit (work : Completion → Work) (service : Service) : Service :=
  match service.post (work service.issued) with
  | none => {service with issued := service.issued+1}
  | some posted => {posted with issued := service.issued+1,accepted := service.accepted ++ [service.issued]}

-- The loop sees that it shall stop, or turns once with the first of the queue.
def turn (moments : List Moment) (fates : List (Option Nat)) (service : Service) : Service :=
  if ¬ service.node.running then service
  else if service.stopping then {service with node := service.node.stop}
  else {service with node := service.node.turn moments fates service.queue.head?,queue := service.queue.tail}

-- stop up to the join.
def stop (service : Service) : Service :=
  {service with stopping := true,queue := [],canceled := service.canceled ++ service.queue.flatMap cancel}

-- What the other threads and the loop do, in any order. Between two locks of the
-- queue a turn touches nothing that they touch.
inductive Event where
  | propose (command : ReplicatedCommand)
  | get (key : Bytes) (deadline : Nat)
  | peer (frame : Frame)
  | reply (target : NodeId) (request : Message) (requestId : UInt64) (frame : Frame)
  | turn (moments : List Moment) (fates : List (Option Nat))
  | background (fate : Option Nat)
  | stop

def happen (service : Service) : Event → Service
  | .propose command => service.submit (.proposal command)
  | .get key deadline => service.submit (.read key · deadline)
  | .peer frame =>
    match handlePeer service.node.owner.config frame with
    | .error _ => service
    | .ok envelope => service.submit (.peerRequest envelope)
  | .reply target request requestId frame =>
    match peerResponse service.node.owner.config target request requestId frame with
    | none => service
    | some message => (service.post (.peerResponse target message)).getD service
  | .turn moments fates => service.turn moments fates
  | .background fate => {service with node := service.node.runBackground fate}
  | .stop => service.stop

def live (service : Service) (events : List Event) : Service := events.foldl happen service

-- The owner thread was joined.
def Returned (service : Service) : Prop := service.stopping = true ∧ service.node.running = false

def set (service : Service) (completion : Completion) : Nat :=
  ((service.node.owner.answers ++ service.canceled).map Prod.fst).count completion

end Service

theorem handlePeer_ok {config : ClusterNodeConfig} : handlePeer config frame = .ok envelope ↔
    decodePeerFrame frame = .ok envelope ∧ envelope.clusterId = config.clusterId ∧ envelope.target = config.nodeId ∧
      envelope.source ≠ config.nodeId ∧ envelope.source ∈ voterIds config ∧ isRequestMessage envelope.message = true := by
  unfold handlePeer
  split
  · rename_i message failed
    simp [failed]
  · rename_i found decoded
    constructor
    · intro posted
      split at posted
      · cases posted
      · rename_i fine
        cases posted
        simp only [not_or,ne_eq,not_not,Bool.not_eq_false] at fine
        exact ⟨decoded,fine⟩
    · rintro ⟨same,fine⟩
      cases decoded.symm.trans same
      rw [if_neg]
      simp only [not_or,ne_eq,not_not,Bool.not_eq_false]
      exact fine

theorem peerResponse_some {config : ClusterNodeConfig} (taken : peerResponse config target request requestId frame = some message) :
    ∃ envelope, decodePeerFrame frame = .ok envelope ∧ envelope.message = message := by
  unfold peerResponse at taken
  split at taken
  · cases taken
  split at taken
  · cases taken
  · rename_i envelope decoded
    split at taken
    · cases taken
    · exact ⟨envelope,decoded,Option.some.inj taken⟩

end ForgeKv.Cluster
