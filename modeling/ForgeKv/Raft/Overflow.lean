import ForgeKv.Raft.Restart

namespace ForgeKv.Raft
open Assoc
namespace RaftNode

-- The indexes of the source have 64 bits. In the exact core the sums
-- last_log_index()+1 of a leader never wrap; here are the functions that form them,
-- and the step that makes a leader, as the source computes them.
def appendLocalEntry64 (node : RaftNode) (kind : EntryKind) (command : Bytes) : RaftNode :=
  let entry : LogEntry := ⟨(node.lastLogIndex+1)%2^64,node.currentTerm,kind,command⟩
  let node := {node with log := node.log ++ [entry]}
  node.push (.persistLog entry.index [entry])

def sendAppendEntries64 (node : RaftNode) (peer : NodeId) : Result RaftNode :=
  match get? node.peerProgress peer with
  | none => .error ⟨.outOfRange "unordered_map::at",node⟩
  | some progress =>
    let progress := {progress with nextIndex := min progress.nextIndex ((node.lastLogIndex+1)%2^64)}
    match node.durableSnapshot with
    | none => node.sendLogSuffix peer progress
    | some snapshot =>
      if progress.nextIndex ≤ node.baseIndex then .ok (node.sendSnapshotChunk peer progress snapshot)
      else node.sendLogSuffix peer progress

theorem leader_sums_exact {node : RaftNode} (small : node.lastLogIndex+1 < 2^64) :
    node.appendLocalEntry64 kind command = node.appendLocalEntry kind command ∧
      node.sendAppendEntries64 peer = node.sendAppendEntries peer := by
  simp only [appendLocalEntry64,sendAppendEntries64,Nat.mod_eq_of_lt small]
  exact ⟨rfl,rfl⟩

def broadcastTo64 (node : RaftNode) : List NodeId → Result RaftNode
  | [] => .ok node
  | voter::rest =>
    if voter = node.config.selfId then broadcastTo64 node rest
    else do
      let node ← node.sendAppendEntries64 voter
      broadcastTo64 node rest

def becomeLeader64 (node : RaftNode) : Result RaftNode := do
  let node := node.takeOffice
  let node := {node with
    peerProgress := mapValues node.peerProgress (fun progress => {progress with nextIndex := progress.nextIndex%2^64})}
  let (_,node) ← (node.appendLocalEntry64 .noOp []).advanceLeaderCommit
  node.broadcastTo64 node.config.voters

def handleRequestVoteResponse64 (node : RaftNode) (source : NodeId) (response : RequestVoteResponse) : Result RaftNode :=
  if node.role ≠ .candidate ∨ response.term ≠ node.currentTerm ∨ ¬ response.voteGranted then .ok node
  else
    let node := {node with votesReceived := insert source node.votesReceived}
    if node.quorum ≤ node.votesReceived.card then node.becomeLeader64 else .ok node

-- step with a RequestVoteResponse of a term that is not newer.
def stepVote64 (node : RaftNode) (source : NodeId) (response : RequestVoteResponse) : Result (RaftNode × Actions) :=
  node.clearActions.handleRequestVoteResponse64 source response >>= finish

end RaftNode
end ForgeKv.Raft
