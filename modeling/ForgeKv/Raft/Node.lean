import ForgeKv.Raft.Types

namespace ForgeKv.Raft
open Assoc

def maximumTrackedRpcsPerPeer : Nat := 64
def snapshotChunkSize : Nat := 1024*1024
def maximumSnapshotSize : Nat := 512*1024*1024

inductive Fault where
  | invalidArgument (message : String)
  | overflowError (message : String)
  | outOfRange (message : String)
  | logicError (message : String)
deriving DecidableEq, Repr

-- RaftNode::Impl. The first entry of the log is the sentinel.
structure RaftNode where
  config : RaftConfig
  role : Role
  currentTerm : Nat
  votedFor : Option NodeId
  leaderId : Option NodeId
  durableSnapshot : Option StateMachineSnapshot
  log : List LogEntry
  commitIndex : Nat
  lastApplied : Nat
  now : Nat
  electionDeadline : Nat
  heartbeatDeadline : Nat
  draws : Nat
  votesReceived : Finset NodeId
  peerProgress : Map NodeId PeerProgress
  incomingSnapshot : Option IncomingSnapshot
  nextRpcId : Nat
  actions : Actions

-- An exception leaves the object as it was at the throw.
structure Thrown where
  fault : Fault
  node : RaftNode

abbrev Result (Value : Type u) := Except Thrown Value

def validateConfig (config : RaftConfig) : Except Fault Unit :=
  if config.voters = [] ∨ 7 < config.voters.length ∨ config.voters.length % 2 = 0 then
    .error (.invalidArgument "Raft requires 1, 3, 5, or 7 voters")
  else if 0 ∈ config.voters ∨ ¬ config.voters.Nodup then
    .error (.invalidArgument "Raft voter IDs must be unique and nonzero")
  else if config.selfId ∉ config.voters then
    .error (.invalidArgument "Raft membership must contain self ID")
  else if config.electionTimeoutMin = 0 ∨ config.electionTimeoutMax < config.electionTimeoutMin then
    .error (.invalidArgument "invalid Raft election timeout range")
  else if config.heartbeatInterval = 0 ∨ config.electionTimeoutMin ≤ config.heartbeatInterval then
    .error (.invalidArgument "heartbeat interval must be below minimum election timeout")
  else if config.maxAppendEntries = 0 ∨ config.maxAppendBytes < 24 then
    .error (.invalidArgument "invalid AppendEntries batch limits")
  else .ok ()

def saturatingAdd (left right : Nat) : Nat :=
  if maxU64-left < right then maxU64 else left+right

def validateLog (currentTerm : Nat) : Nat → Nat → List LogEntry → Except Fault Unit
  | _,_,[] => .ok ()
  | expectedIndex,previousTerm,entry::rest =>
    if entry.index ≠ expectedIndex ∨ entry.term = 0 ∨ entry.term < previousTerm ∨ currentTerm < entry.term then
      .error (.invalidArgument "persistent Raft log is invalid")
    else validateLog currentTerm (expectedIndex+1) entry.term rest

def validatePersistentState (config : RaftConfig) (persistent : RaftPersistentState) : Except Fault Unit := do
  if persistent.currentTerm = 0 ∧ persistent.votedFor.isSome then
    throw (.invalidArgument "term-zero persistent state cannot have a vote")
  match persistent.votedFor with
  | some candidate => if candidate ∉ config.voters then
      throw (.invalidArgument "persistent Raft vote refers to a non-voter")
  | none => pure ()
  if persistent.snapshot.isSome ∧ (persistent.baseIndex = 0 ∨ persistent.baseTerm = 0 ∨
      persistent.baseIndex = maxU64 ∨ persistent.currentTerm < persistent.baseTerm) then
    throw (.invalidArgument "persistent Raft snapshot is invalid")
  validateLog persistent.currentTerm (persistent.baseIndex+1) persistent.baseTerm persistent.log

namespace RaftNode

def quorum (node : RaftNode) : Nat := node.config.voters.length/2+1
def isVoter (node : RaftNode) (nodeId : NodeId) : Bool := node.config.voters.contains nodeId
def lastEntry (node : RaftNode) : LogEntry := node.log.getLastD ⟨0,0,.noOp,[]⟩
def lastLogIndex (node : RaftNode) : Nat := node.lastEntry.index
def lastLogTerm (node : RaftNode) : Nat := node.lastEntry.term
def frontEntry (node : RaftNode) : LogEntry := node.log.headD ⟨0,0,.noOp,[]⟩
def baseIndex (node : RaftNode) : Nat := node.frontEntry.index

def push (node : RaftNode) (action : Action) : RaftNode := {node with actions := node.actions ++ [action]}

def pushIf (node : RaftNode) (emitted : Bool) (action : Action) : RaftNode :=
  {node with actions := node.actions ++ if emitted then [action] else []}

def entryAt (node : RaftNode) (index : Nat) : Result LogEntry :=
  if index < node.baseIndex ∨ node.lastLogIndex < index then
    .error ⟨.outOfRange "Raft log index is outside retained range",node⟩
  else match node.log[index-node.baseIndex]? with
    | some entry => .ok entry
    | none => .error ⟨.outOfRange "vector::at",node⟩

-- The loop of verify_invariants over the log positions from one on.
def verifyLog (node : RaftNode) : Nat → LogEntry → List LogEntry → Bool
  | _,_,[] => true
  | position,previous,current::rest =>
    current.index == node.baseIndex+position && decide (previous.term ≤ current.term) &&
      decide (current.term ≤ node.currentTerm) && verifyLog node (position+1) current rest

def verifyProgress (node : RaftNode) (peer : NodeId) (progress : PeerProgress) : Except Fault Unit :=
  let imageSize := (node.durableSnapshot.map (fun snapshot => snapshot.stateMachine.length)).getD 0
  if peer = node.config.selfId ∨ ¬ node.isVoter peer ∨ node.lastLogIndex < progress.matchIndex ∨
      progress.nextIndex < progress.matchIndex+1 ∨ node.lastLogIndex+1 < progress.nextIndex ∨
      node.lastLogIndex < progress.newestRpcLastIndex ∨ maximumTrackedRpcsPerPeer < progress.recentRpcs.length then
    .error (.logicError "Raft leader peer progress is out of bounds")
  else if progress.snapshotIndex ≠ 0 ∧ (node.durableSnapshot.isNone ∨
      some progress.snapshotIndex ≠ node.durableSnapshot.map StateMachineSnapshot.lastIncludedIndex ∨
      imageSize < progress.snapshotOffset) then
    .error (.logicError "Raft snapshot replication progress is out of bounds")
  else if maximumTrackedRpcsPerPeer < progress.recentSnapshotRpcs.length then
    .error (.logicError "too many tracked snapshot RPCs")
  else if progress.recentSnapshotRpcs.any (fun rpc => decide (rpc.rpcId = 0 ∨ progress.newestRpcId < rpc.rpcId ∨
      rpc.snapshotIndex ≠ progress.snapshotIndex ∨ rpc.stop < rpc.offset ∨ node.durableSnapshot.isNone ∨
      imageSize < rpc.stop)) then
    .error (.logicError "Raft snapshot RPC history is out of bounds")
  else if progress.recentRpcs.any (fun rpc => decide (rpc.rpcId = 0 ∨ progress.newestRpcId < rpc.rpcId ∨
      node.lastLogIndex < rpc.lastIndex)) then
    .error (.logicError "Raft leader RPC history is out of bounds")
  else .ok ()

def verifyAllProgress (node : RaftNode) : Map NodeId PeerProgress → Except Fault Unit
  | [] => .ok ()
  | (peer,progress)::rest => do
    verifyProgress node peer progress
    verifyAllProgress node rest

def checkInvariants (node : RaftNode) : Except Fault Unit :=
  if node.log = [] ∨ node.frontEntry.kind ≠ .noOp ∨ node.frontEntry.command ≠ [] ∨
      decide (node.frontEntry.index = 0) ≠ decide (node.frontEntry.term = 0) then
    .error (.logicError "Raft log sentinel is invalid")
  else if node.durableSnapshot.any (fun snapshot => decide (snapshot.lastIncludedIndex ≠ node.frontEntry.index ∨
      snapshot.lastIncludedTerm ≠ node.frontEntry.term)) then
    .error (.logicError "Raft snapshot boundary disagrees with log sentinel")
  else if ¬ verifyLog node 1 node.frontEntry node.log.tail then
    .error (.logicError "Raft log is not gap-free with nondecreasing terms")
  else if node.commitIndex < node.baseIndex ∨ node.lastLogIndex < node.commitIndex ∨
      node.lastApplied < node.baseIndex ∨ node.commitIndex < node.lastApplied then
    .error (.logicError "Raft commit/apply indexes are out of bounds")
  else if node.votedFor.any (fun candidate => ¬ node.isVoter candidate) then
    .error (.logicError "Raft vote refers to a non-voter")
  else if node.leaderId.any (fun leader => ¬ node.isVoter leader) then
    .error (.logicError "Raft leader refers to a non-voter")
  else if node.role = .candidate ∧ node.votedFor ≠ some node.config.selfId then
    .error (.logicError "Raft candidate has not voted for itself")
  else if node.role ≠ .leader then
    if node.peerProgress ≠ [] then .error (.logicError "non-leader retains leader-only peer progress") else .ok ()
  else if node.leaderId ≠ some node.config.selfId ∨ node.peerProgress.length+1 ≠ node.config.voters.length then
    .error (.logicError "Raft leader identity or peer progress is incomplete")
  else verifyAllProgress node node.peerProgress

def verifyInvariants (node : RaftNode) : Result Unit :=
  (node.checkInvariants).mapError (fun fault => ⟨fault,node⟩)

def resetElectionDeadline (node : RaftNode) : RaftNode :=
  {node with
    electionDeadline := saturatingAdd node.now (node.config.electionTimeouts node.draws)
    draws := node.draws+1}

def becomeFollower (node : RaftNode) (term : Nat) (leader : Option NodeId) : RaftNode :=
  let previousRole := node.role
  let termIncreased := decide (node.currentTerm < term)
  let node := {node with
    currentTerm := if termIncreased then term else node.currentTerm
    votedFor := if termIncreased then none else node.votedFor
    role := .follower
    leaderId := leader
    votesReceived := ∅
    peerProgress := []}
  let node := node.resetElectionDeadline
  let node := node.pushIf (previousRole ≠ .follower) (.roleChanged previousRole .follower node.currentTerm node.leaderId)
  node.pushIf termIncreased (.persistHardState node.currentTerm node.votedFor)

def setProgress (node : RaftNode) (peer : NodeId) (progress : PeerProgress) : RaftNode :=
  {node with peerProgress := set node.peerProgress peer progress}

-- push_back, then erase the oldest when there are too many.
def track (rpcs : List Range) (rpc : Range) : List Range :=
  let rpcs := rpcs ++ [rpc]
  if maximumTrackedRpcsPerPeer < rpcs.length then rpcs.tail else rpcs

def PeerProgress.restartSnapshot (snapshotIndex : Nat) (progress : PeerProgress) : PeerProgress :=
  {progress with snapshotIndex := snapshotIndex,snapshotOffset := 0,recentSnapshotRpcs := []}

def PeerProgress.alignSnapshot (progress : PeerProgress) (snapshot : StateMachineSnapshot) : PeerProgress :=
  let progress := if progress.snapshotIndex ≠ snapshot.lastIncludedIndex then
    PeerProgress.restartSnapshot snapshot.lastIncludedIndex progress else progress
  {progress with snapshotOffset := min progress.snapshotOffset snapshot.stateMachine.length}

-- The snapshot branch of send_append_entries.
def sendSnapshotChunk (node : RaftNode) (peer : NodeId) (progress : PeerProgress) (snapshot : StateMachineSnapshot) :
    RaftNode :=
  let progress := PeerProgress.alignSnapshot progress snapshot
  let remaining := snapshot.stateMachine.length-progress.snapshotOffset
  let chunkSize := min remaining snapshotChunkSize
  let rpcId := node.nextRpcId
  let range : SnapshotRpcRange :=
    ⟨rpcId,snapshot.lastIncludedIndex,progress.snapshotOffset,progress.snapshotOffset+chunkSize⟩
  let progress := {progress with newestRpcId := rpcId,recentSnapshotRpcs := track progress.recentSnapshotRpcs range}
  let node := {node.setProgress peer progress with nextRpcId := rpcId+1}
  node.push (.sendMessage peer (.installSnapshot
    {term := node.currentTerm
     leaderId := node.config.selfId
     lastIncludedIndex := snapshot.lastIncludedIndex
     lastIncludedTerm := snapshot.lastIncludedTerm
     totalSize := snapshot.stateMachine.length
     offset := progress.snapshotOffset
     data := (snapshot.stateMachine.drop progress.snapshotOffset).take chunkSize
     done := chunkSize == remaining
     rpcId := rpcId}))

-- The batch loop of send_append_entries: `count` entries of `encoded` bytes are taken.
def takeBatch (config : RaftConfig) (count encoded : Nat) : List LogEntry → List LogEntry
  | [] => []
  | entry::rest =>
    if config.maxAppendEntries ≤ count then []
    else if count ≠ 0 ∧ (config.maxAppendBytes ≤ encoded ∨
        config.maxAppendBytes-encoded < 24+entry.command.length) then []
    else entry::takeBatch config (count+1) (encoded+(24+entry.command.length)) rest

-- The rest of send_append_entries, with the term of the entry before next_index.
def pushLogSuffix (node : RaftNode) (peer : NodeId) (progress : PeerProgress) (previousTerm : Nat) : RaftNode :=
  let previousIndex := progress.nextIndex-1
  let entries := takeBatch node.config 0 0 (node.log.drop (progress.nextIndex-node.baseIndex))
  let rpcId := node.nextRpcId
  let lastIndex := (entries.getLast?.map LogEntry.index).getD previousIndex
  let progress := {progress with
    newestRpcId := rpcId
    newestRpcLastIndex := lastIndex
    recentRpcs := track progress.recentRpcs ⟨rpcId,lastIndex⟩}
  let node := {node.setProgress peer progress with nextRpcId := rpcId+1}
  node.push (.sendMessage peer (.appendEntries
    {term := node.currentTerm
     leaderId := node.config.selfId
     previousLogIndex := previousIndex
     previousLogTerm := previousTerm
     entries := entries
     leaderCommit := node.commitIndex
     rpcId := rpcId}))

def sendLogSuffix (node : RaftNode) (peer : NodeId) (progress : PeerProgress) : Result RaftNode := do
  let progress := {progress with nextIndex := max progress.nextIndex (node.baseIndex+1)}
  let previous ← node.entryAt (progress.nextIndex-1)
  return node.pushLogSuffix peer progress previous.term

def sendAppendEntries (node : RaftNode) (peer : NodeId) : Result RaftNode :=
  match get? node.peerProgress peer with
  | none => .error ⟨.outOfRange "unordered_map::at",node⟩
  | some progress =>
    let progress := {progress with nextIndex := min progress.nextIndex (node.lastLogIndex+1)}
    match node.durableSnapshot with
    | none => node.sendLogSuffix peer progress
    | some snapshot =>
      if progress.nextIndex ≤ node.baseIndex then .ok (node.sendSnapshotChunk peer progress snapshot)
      else node.sendLogSuffix peer progress

def broadcastTo (node : RaftNode) : List NodeId → Result RaftNode
  | [] => .ok node
  | voter::rest =>
    if voter = node.config.selfId then broadcastTo node rest
    else do
      let node ← node.sendAppendEntries voter
      broadcastTo node rest

def broadcastAppendEntries (node : RaftNode) : Result RaftNode := node.broadcastTo node.config.voters

def appendLocalEntry (node : RaftNode) (kind : EntryKind) (command : Bytes) : RaftNode :=
  let entry : LogEntry := ⟨node.lastLogIndex+1,node.currentTerm,kind,command⟩
  let node := {node with log := node.log ++ [entry]}
  node.push (.persistLog entry.index [entry])

-- while (last_applied < commit_index), with one unit of fuel for each round.
def applyCommitted : Nat → RaftNode → Result RaftNode
  | 0,node => .ok node
  | fuel+1,node =>
    if node.lastApplied < node.commitIndex then do
      let node := {node with lastApplied := node.lastApplied+1}
      let entry ← node.entryAt node.lastApplied
      applyCommitted fuel (node.push (.applyEntry entry))
    else .ok node

def commitThrough (node : RaftNode) (index : Nat) : Result RaftNode :=
  let previous := node.commitIndex
  let node := {node with commitIndex := index}
  let node := node.push (.commitAdvanced previous index)
  applyCommitted (node.commitIndex-node.lastApplied) node

def advanceFollowerCommit (node : RaftNode) (leaderCommit : Nat) : Result RaftNode :=
  let newCommit := min leaderCommit node.lastLogIndex
  if newCommit ≤ node.commitIndex then .ok node else node.commitThrough newCommit

def replicated (node : RaftNode) (candidate : Nat) : Nat :=
  1+node.peerProgress.countP (fun binding => candidate ≤ binding.2.matchIndex)

-- The candidate loop of advance_leader_commit, from the last index down.
def commitCandidate (node : RaftNode) : Nat → Result (Option Nat)
  | 0 => .ok none
  | candidate+1 =>
    if candidate+1 ≤ node.commitIndex then .ok none
    else do
      let entry ← node.entryAt (candidate+1)
      if entry.term ≠ node.currentTerm then commitCandidate node candidate
      else if node.replicated (candidate+1) < node.quorum then commitCandidate node candidate
      else return some (candidate+1)

def advanceLeaderCommit (node : RaftNode) : Result (Bool × RaftNode) := do
  match ← node.commitCandidate node.lastLogIndex with
  | none => return (false,node)
  | some candidate =>
    let node ← node.commitThrough candidate
    return (true,node)

def takeOffice (node : RaftNode) : RaftNode :=
  let previousRole := node.role
  let progress : PeerProgress := ⟨node.lastLogIndex+1,0,0,0,[],0,0,[]⟩
  let peers := node.config.voters.filter (fun voter => voter ≠ node.config.selfId)
  let node := {node with
    role := .leader
    leaderId := some node.config.selfId
    votesReceived := ∅
    peerProgress := peers.map (fun voter => (voter,progress))
    heartbeatDeadline := saturatingAdd node.now node.config.heartbeatInterval}
  node.push (.roleChanged previousRole .leader node.currentTerm node.leaderId)

-- append_local_entry, advance_leader_commit and broadcast_append_entries in a row.
def appendAndReplicate (node : RaftNode) (kind : EntryKind) (command : Bytes) : Result RaftNode := do
  let (_,node) ← (node.appendLocalEntry kind command).advanceLeaderCommit
  node.broadcastAppendEntries

def becomeLeader (node : RaftNode) : Result RaftNode := node.takeOffice.appendAndReplicate .noOp []

def sendToOthers (node : RaftNode) (message : Message) : RaftNode :=
  let peers := node.config.voters.filter (fun voter => voter ≠ node.config.selfId)
  {node with actions := node.actions ++ peers.map (fun voter => .sendMessage voter message)}

def campaign (node : RaftNode) : RaftNode :=
  let previousRole := node.role
  let node := {node with
    currentTerm := node.currentTerm+1
    role := .candidate
    leaderId := none
    votedFor := some node.config.selfId
    votesReceived := {node.config.selfId}}
  let node := node.resetElectionDeadline
  let node := node.pushIf (previousRole ≠ .candidate) (.roleChanged previousRole .candidate node.currentTerm none)
  let node := node.push (.persistHardState node.currentTerm node.votedFor)
  node.sendToOthers (.requestVote ⟨node.currentTerm,node.config.selfId,node.lastLogIndex,node.lastLogTerm⟩)

def startElection (node : RaftNode) : Result RaftNode :=
  if node.currentTerm = maxU64 then .error ⟨.overflowError "Raft term space exhausted",node⟩
  else
    let node := node.campaign
    if node.quorum ≤ node.votesReceived.card then node.becomeLeader else .ok node

def grantsVote (node : RaftNode) (source : NodeId) (request : RequestVote) : Bool :=
  let upToDate := node.lastLogTerm < request.lastLogTerm ∨
    (request.lastLogTerm = node.lastLogTerm ∧ node.lastLogIndex ≤ request.lastLogIndex)
  let canVote := node.votedFor = none ∨ node.votedFor = some source
  decide (request.term ≠ 0 ∧ request.term = node.currentTerm ∧ request.candidateId = source ∧ canVote ∧ upToDate)

def handleRequestVote (node : RaftNode) (source : NodeId) (request : RequestVote) : RaftNode :=
  let grant := node.grantsVote source request
  let node := if grant ∧ node.votedFor ≠ some source then
    ({node with votedFor := some source}).push (.persistHardState node.currentTerm (some source)) else node
  let node := if grant then node.resetElectionDeadline else node
  node.push (.sendMessage source (.requestVoteResponse ⟨node.currentTerm,grant⟩))

def handleRequestVoteResponse (node : RaftNode) (source : NodeId) (response : RequestVoteResponse) : Result RaftNode :=
  if node.role ≠ .candidate ∨ response.term ≠ node.currentTerm ∨ ¬ response.voteGranted then .ok node
  else
    let node := {node with votesReceived := insert source node.votesReceived}
    if node.quorum ≤ node.votesReceived.card then node.becomeLeader else .ok node

def sendAppendResponse (node : RaftNode) (target : NodeId) (request : AppendEntries) (success : Bool)
    (matchIndex rejectHint : Nat) : RaftNode :=
  node.push (.sendMessage target (.appendEntriesResponse ⟨node.currentTerm,success,matchIndex,rejectHint,request.rpcId⟩))

-- The loop that walks back over the entries of the conflicting term.
def firstConflict (node : RaftNode) (localTerm : Nat) : Nat → Result Nat
  | 0 => .ok 0
  | index+1 =>
    if node.baseIndex+1 < index+1 then do
      let entry ← node.entryAt index
      if entry.term = localTerm then firstConflict node localTerm index else return index+1
    else .ok (index+1)

-- The index expected where the entries of a request are malformed.
def malformedAt (term : Nat) : Nat → Nat → List LogEntry → Option Nat
  | _,_,[] => none
  | expectedIndex,minimumTerm,incoming::rest =>
    if incoming.index ≠ expectedIndex ∨ term < incoming.term ∨ incoming.term < minimumTerm ∨ incoming.index = 0 then
      some expectedIndex
    else malformedAt term (expectedIndex+1) incoming.term rest

inductive Overlap where
  | matched
  | replace (fromIndex : Nat) (entries : List LogEntry)
  | reject (hint : Nat)
deriving DecidableEq, Repr

-- The loop that looks for the first entry to replace.
def scanOverlap (node : RaftNode) : List LogEntry → Result Overlap
  | [] => .ok .matched
  | incoming::rest =>
    if node.lastLogIndex < incoming.index then .ok (.replace incoming.index (incoming::rest))
    else do
      let existing ← node.entryAt incoming.index
      if existing.term ≠ incoming.term then
        if incoming.index ≤ node.commitIndex then return .reject (node.commitIndex+1)
        else return .replace incoming.index (incoming::rest)
      else if existing ≠ incoming then return .reject incoming.index
      else scanOverlap node rest

def replaceSuffix (node : RaftNode) (fromIndex : Nat) (entries : List LogEntry) : RaftNode :=
  ({node with log := node.log.take (fromIndex-node.baseIndex) ++ entries}).push (.persistLog fromIndex entries)

def followLeader (node : RaftNode) (leader : NodeId) : RaftNode :=
  if node.role ≠ .follower then node.becomeFollower node.currentTerm (some leader)
  else ({node with leaderId := some leader}).resetElectionDeadline

def acceptEntries (node : RaftNode) (source : NodeId) (request : AppendEntries) : Result RaftNode := do
  match ← node.scanOverlap request.entries with
  | .reject hint => return node.sendAppendResponse source request false 0 hint
  | overlap =>
    let node := match overlap with
      | .replace fromIndex entries => node.replaceSuffix fromIndex entries
      | _ => node
    let matchedIndex := request.previousLogIndex+request.entries.length
    let node ← node.advanceFollowerCommit (min request.leaderCommit matchedIndex)
    return node.sendAppendResponse source request true matchedIndex 0

def handleAppendEntries (node : RaftNode) (source : NodeId) (request : AppendEntries) : Result RaftNode :=
  if request.term = 0 ∨ request.term < node.currentTerm ∨ request.leaderId ≠ source then
    .ok (node.sendAppendResponse source request false 0 (node.lastLogIndex+1))
  else
    let node := node.followLeader source
    if request.previousLogIndex < node.baseIndex then
      .ok (node.sendAppendResponse source request false 0 (node.baseIndex+1))
    else if node.lastLogIndex < request.previousLogIndex then
      .ok (node.sendAppendResponse source request false 0 (node.lastLogIndex+1))
    else do
      let previous ← node.entryAt request.previousLogIndex
      if previous.term ≠ request.previousLogTerm then
        let conflict ← node.firstConflict previous.term request.previousLogIndex
        return node.sendAppendResponse source request false 0 conflict
      else match malformedAt request.term (request.previousLogIndex+1) request.previousLogTerm request.entries with
        | some expected => return node.sendAppendResponse source request false 0 expected
        | none => node.acceptEntries source request

def acknowledge (node : RaftNode) (source : NodeId) (progress : PeerProgress) (rpc : RpcRange) (matchIndex : Nat) :
    Result RaftNode := do
  let reported := min matchIndex rpc.lastIndex
  let matched := max progress.matchIndex reported
  let progress := {progress with recentRpcs := progress.recentRpcs.erase rpc,matchIndex := matched,nextIndex := matched+1}
  let (advanced,node) ← (node.setProgress source progress).advanceLeaderCommit
  if advanced then node.broadcastAppendEntries
  else if progress.nextIndex ≤ node.lastLogIndex then node.sendAppendEntries source
  else return node

def backUp (node : RaftNode) (source : NodeId) (progress : PeerProgress) (rpc : RpcRange) (rejectHint : Nat) :
    Result RaftNode :=
  let minimumNext := progress.matchIndex+1
  let oneBack := if 1 < progress.nextIndex then progress.nextIndex-1 else 1
  let requestedNext := if rejectHint = 0 ∨ progress.nextIndex ≤ rejectHint then oneBack else rejectHint
  let progress := {progress with recentRpcs := progress.recentRpcs.erase rpc,nextIndex := max minimumNext requestedNext}
  (node.setProgress source progress).sendAppendEntries source

def handleAppendEntriesResponse (node : RaftNode) (source : NodeId) (response : AppendEntriesResponse) : Result RaftNode :=
  if node.role ≠ .leader ∨ response.term ≠ node.currentTerm then .ok node
  else match get? node.peerProgress source with
    | none => .ok node
    | some progress => match progress.recentRpcs.find? (fun sent => sent.rpcId = response.rpcId) with
      | none => .ok node
      | some rpc =>
        if response.success then node.acknowledge source progress rpc response.matchIndex
        else if response.rpcId ≠ progress.newestRpcId then .ok node
        else node.backUp source progress rpc response.rejectHint

def sendSnapshotResponse (node : RaftNode) (target : NodeId) (request : InstallSnapshot) (success : Bool) (nextOffset : Nat) :
    RaftNode :=
  node.push (.sendMessage target (.installSnapshotResponse
    ⟨node.currentTerm,success,request.lastIncludedIndex,nextOffset,request.rpcId⟩))

def sentinel (snapshot : StateMachineSnapshot) : LogEntry :=
  ⟨snapshot.lastIncludedIndex,snapshot.lastIncludedTerm,.noOp,[]⟩

def adoptImage (node : RaftNode) (installed : StateMachineSnapshot) (suffix : List LogEntry) : RaftNode :=
  let node := {node with log := sentinel installed::suffix,durableSnapshot := some installed}
  let node := {node with commitIndex := min (max node.commitIndex installed.lastIncludedIndex) node.lastLogIndex}
  let node := {node with lastApplied := installed.lastIncludedIndex}
  (node.push (.persistSnapshot installed)).push (.applySnapshot installed)

-- The end of handle(InstallSnapshot), with the whole image assembled.
def installImage (node : RaftNode) (installed : StateMachineSnapshot) : Result RaftNode :=
  if installed.lastIncludedIndex ≤ node.lastLogIndex ∧ node.baseIndex ≤ installed.lastIncludedIndex then do
    let boundary ← node.entryAt installed.lastIncludedIndex
    if boundary.term = installed.lastIncludedTerm then
      return node.adoptImage installed (node.log.drop (installed.lastIncludedIndex-node.baseIndex+1))
    else return node.adoptImage installed []
  else .ok (node.adoptImage installed [])

def validChunk (node : RaftNode) (source : NodeId) (request : InstallSnapshot) : Bool :=
  decide (¬ (request.term = 0 ∨ request.term < node.currentTerm ∨ request.leaderId ≠ source ∨ request.rpcId = 0 ∨
    request.lastIncludedIndex = 0 ∨ request.lastIncludedIndex = maxU64 ∨ request.lastIncludedTerm = 0 ∨
    request.term < request.lastIncludedTerm ∨ maximumSnapshotSize < request.totalSize ∨
    request.totalSize < request.offset ∨ request.totalSize-request.offset < request.data.length ∨
    request.done ≠ decide (request.offset+request.data.length = request.totalSize)))

def IncomingSnapshot.accepts (incoming : IncomingSnapshot) (source : NodeId) (request : InstallSnapshot) : Bool :=
  decide (incoming.leaderId = source ∧ incoming.lastIncludedIndex = request.lastIncludedIndex ∧
    incoming.lastIncludedTerm = request.lastIncludedTerm ∧ incoming.totalSize = request.totalSize ∧
    incoming.bytes.length = request.offset)

def IncomingSnapshot.start (source : NodeId) (request : InstallSnapshot) : IncomingSnapshot :=
  ⟨source,request.lastIncludedIndex,request.lastIncludedTerm,request.totalSize,[]⟩

def assembleChunk (node : RaftNode) (source : NodeId) (request : InstallSnapshot) : Result RaftNode :=
  let node := if request.offset = 0 then
    {node with incomingSnapshot := some (IncomingSnapshot.start source request)} else node
  match node.incomingSnapshot with
  | none => .ok (node.sendSnapshotResponse source request false 0)
  | some incoming =>
    if ¬ IncomingSnapshot.accepts incoming source request then
      .ok (node.sendSnapshotResponse source request false incoming.bytes.length)
    else
      let bytes := incoming.bytes ++ request.data
      if ¬ request.done then
        let node := {node with incomingSnapshot := some {incoming with bytes := bytes}}
        .ok (node.sendSnapshotResponse source request true bytes.length)
      else do
        let node := {node with incomingSnapshot := none}
        let node ← node.installImage ⟨request.lastIncludedIndex,request.lastIncludedTerm,bytes⟩
        return node.sendSnapshotResponse source request true request.totalSize

def handleInstallSnapshot (node : RaftNode) (source : NodeId) (request : InstallSnapshot) : Result RaftNode :=
  if ¬ node.validChunk source request then .ok (node.sendSnapshotResponse source request false 0)
  else
    let node := node.followLeader source
    if request.lastIncludedIndex ≤ node.lastApplied then
      .ok (node.sendSnapshotResponse source request true request.totalSize)
    else node.assembleChunk source request

def continueTransfer (node : RaftNode) (source : NodeId) (response : InstallSnapshotResponse) (progress : PeerProgress)
    (snapshot : StateMachineSnapshot) : Result RaftNode :=
  if response.lastIncludedIndex ≠ snapshot.lastIncludedIndex ∨
      progress.snapshotIndex ≠ snapshot.lastIncludedIndex then .ok node
  else match progress.recentSnapshotRpcs.find? (fun sent => sent.rpcId = response.rpcId ∧
      sent.snapshotIndex = response.lastIncludedIndex) with
    | none => .ok node
    | some sent =>
      let remaining := progress.recentSnapshotRpcs.erase sent
      if ¬ response.success then
        if response.rpcId ≠ progress.newestRpcId ∨ sent.stop < response.nextOffset then .ok node
        else
          let progress := {progress with recentSnapshotRpcs := remaining,snapshotOffset := response.nextOffset}
          (node.setProgress source progress).sendAppendEntries source
      else if response.nextOffset ≠ sent.stop then .ok node
      else if sent.stop ≤ progress.snapshotOffset then .ok node
      else if sent.offset ≠ progress.snapshotOffset then .ok node
      else
        let progress := {progress with recentSnapshotRpcs := remaining,snapshotOffset := sent.stop}
        if progress.snapshotOffset < snapshot.stateMachine.length then
          (node.setProgress source progress).sendAppendEntries source
        else
          let matched := max progress.matchIndex snapshot.lastIncludedIndex
          let progress := {progress with matchIndex := matched,nextIndex := matched+1,snapshotOffset := 0
                                         snapshotIndex := 0,recentSnapshotRpcs := [],recentRpcs := []}
          (node.setProgress source progress).sendAppendEntries source

def handleInstallSnapshotResponse (node : RaftNode) (source : NodeId) (response : InstallSnapshotResponse) :
    Result RaftNode :=
  if node.role ≠ .leader ∨ response.term ≠ node.currentTerm then .ok node
  else match get? node.peerProgress source,node.durableSnapshot with
    | some progress,some snapshot => node.continueTransfer source response progress snapshot
    | _,_ => .ok node

def handle (node : RaftNode) (source : NodeId) : Message → Result RaftNode
  | .requestVote request => .ok (node.handleRequestVote source request)
  | .requestVoteResponse response => node.handleRequestVoteResponse source response
  | .appendEntries request => node.handleAppendEntries source request
  | .appendEntriesResponse response => node.handleAppendEntriesResponse source response
  | .installSnapshot request => node.handleInstallSnapshot source request
  | .installSnapshotResponse response => node.handleInstallSnapshotResponse source response

def incomingLeader (source : NodeId) : Message → Option NodeId
  | .appendEntries request => if request.leaderId = source then some source else none
  | .installSnapshot request => if request.leaderId = source then some source else none
  | _ => none

-- RaftNode::Impl::step
def receive (node : RaftNode) (source : NodeId) (message : Message) : Result RaftNode :=
  if source = node.config.selfId ∨ ¬ node.isVoter source then .ok node
  else if node.currentTerm < message.term then
    (node.becomeFollower message.term (incomingLeader source message)).handle source message
  else node.handle source message

-- Every public call clears the actions first, and verifies and moves them out last.
def clearActions (node : RaftNode) : RaftNode := {node with actions := []}

def finish (node : RaftNode) : Result (RaftNode × Actions) := do
  node.verifyInvariants
  return (node.clearActions,node.actions)

def tick (node : RaftNode) (now : Nat) : Result RaftNode :=
  if node.role ≠ .leader ∧ node.electionDeadline ≤ now then node.startElection
  else if node.role = .leader ∧ node.heartbeatDeadline ≤ now then do
    let node ← node.broadcastAppendEntries
    return {node with heartbeatDeadline := saturatingAdd now node.config.heartbeatInterval}
  else .ok node

def advanceTime (node : RaftNode) (now : Nat) : Result (RaftNode × Actions) :=
  if now < node.now then .error ⟨.invalidArgument "Raft logical time cannot move backward",node⟩
  else ({node with now := now}).clearActions.tick now >>= finish

def step (node : RaftNode) (source : NodeId) (message : Message) : Result (RaftNode × Actions) :=
  node.clearActions.receive source message >>= finish

-- The common body of propose and read_barrier.
def appendAsLeader (node : RaftNode) (kind : EntryKind) (command : Bytes) : Result RaftNode :=
  if node.role ≠ .leader then .ok (node.push (.proposalRejected node.leaderId))
  else node.appendAndReplicate kind command

def propose (node : RaftNode) (command : Bytes) : Result (RaftNode × Actions) :=
  node.clearActions.appendAsLeader .command command >>= finish

def readBarrier (node : RaftNode) : Result (RaftNode × Actions) := node.clearActions.appendAsLeader .noOp [] >>= finish

def cutLog (node : RaftNode) (snapshot : StateMachineSnapshot) : RaftNode :=
  let suffix := node.log.drop (snapshot.lastIncludedIndex-node.baseIndex+1)
  let node := {node with
    log := sentinel snapshot::suffix
    durableSnapshot := some snapshot
    peerProgress := mapValues node.peerProgress (PeerProgress.restartSnapshot snapshot.lastIncludedIndex)}
  node.push (.persistSnapshot snapshot)

def compact (node : RaftNode) (snapshot : StateMachineSnapshot) : Result (RaftNode × Actions) :=
  let node := node.clearActions
  let refused : Thrown := ⟨.invalidArgument "snapshot does not match an applied log prefix",node⟩
  if snapshot.lastIncludedIndex = maxU64 ∨ snapshot.lastIncludedIndex ≤ node.baseIndex ∨
      node.lastApplied < snapshot.lastIncludedIndex then .error refused
  else do
    let boundary ← node.entryAt snapshot.lastIncludedIndex
    if boundary.term ≠ snapshot.lastIncludedTerm then throw refused
    else (node.cutLog snapshot).finish

-- RaftNode::Impl::Impl
def create (config : RaftConfig) (persistent : RaftPersistentState) (initialTime : Nat) : Except Fault RaftNode := do
  validateConfig config
  validatePersistentState config persistent
  let node : RaftNode :=
    {config := config
     role := .follower
     currentTerm := persistent.currentTerm
     votedFor := persistent.votedFor
     leaderId := none
     durableSnapshot := persistent.snapshot
     log := ⟨persistent.baseIndex,persistent.baseTerm,.noOp,[]⟩::persistent.log
     commitIndex := persistent.baseIndex
     lastApplied := persistent.baseIndex
     now := initialTime
     electionDeadline := 0
     heartbeatDeadline := 0
     draws := 0
     votesReceived := ∅
     peerProgress := []
     incomingSnapshot := none
     nextRpcId := 1
     actions := []}
  let node := node.resetElectionDeadline
  node.checkInvariants
  return node

end RaftNode
end ForgeKv.Raft
