import Mathlib.Algebra.Group.Nat.Defs
import Mathlib.Data.Finset.Card
import ForgeKv.Library.Assoc

namespace ForgeKv.Raft

-- Term, LogIndex, LogicalTime and RpcId are std::uint64_t in the source and Nat here.
abbrev NodeId := Nat
abbrev Bytes := List UInt8

-- std::numeric_limits<std::uint64_t>::max()
def maxU64 : Nat := 2^64-1

inductive Role where
  | follower
  | candidate
  | leader
deriving DecidableEq, Repr

inductive EntryKind where
  | command
  | noOp
deriving DecidableEq, Repr

structure LogEntry where
  index : Nat
  term : Nat
  kind : EntryKind
  command : Bytes
deriving DecidableEq, Repr

structure StateMachineSnapshot where
  lastIncludedIndex : Nat
  lastIncludedTerm : Nat
  stateMachine : Bytes
deriving DecidableEq, Repr

structure RequestVote where
  term : Nat
  candidateId : NodeId
  lastLogIndex : Nat
  lastLogTerm : Nat
deriving DecidableEq, Repr

structure RequestVoteResponse where
  term : Nat
  voteGranted : Bool
deriving DecidableEq, Repr

structure AppendEntries where
  term : Nat
  leaderId : NodeId
  previousLogIndex : Nat
  previousLogTerm : Nat
  entries : List LogEntry
  leaderCommit : Nat
  rpcId : Nat
deriving DecidableEq, Repr

structure AppendEntriesResponse where
  term : Nat
  success : Bool
  matchIndex : Nat
  rejectHint : Nat
  rpcId : Nat
deriving DecidableEq, Repr

structure InstallSnapshot where
  term : Nat
  leaderId : NodeId
  lastIncludedIndex : Nat
  lastIncludedTerm : Nat
  totalSize : Nat
  offset : Nat
  data : Bytes
  done : Bool
  rpcId : Nat
deriving DecidableEq, Repr

structure InstallSnapshotResponse where
  term : Nat
  success : Bool
  lastIncludedIndex : Nat
  nextOffset : Nat
  rpcId : Nat
deriving DecidableEq, Repr

inductive Message where
  | requestVote (request : RequestVote)
  | requestVoteResponse (response : RequestVoteResponse)
  | appendEntries (request : AppendEntries)
  | appendEntriesResponse (response : AppendEntriesResponse)
  | installSnapshot (request : InstallSnapshot)
  | installSnapshotResponse (response : InstallSnapshotResponse)
deriving DecidableEq, Repr

inductive Action where
  | sendMessage (target : NodeId) (message : Message)
  | persistHardState (term : Nat) (votedFor : Option NodeId)
  | persistLog (fromIndex : Nat) (entries : List LogEntry)
  | persistSnapshot (snapshot : StateMachineSnapshot)
  | roleChanged (previous next : Role) (term : Nat) (leaderId : Option NodeId)
  | commitAdvanced (fromIndex toIndex : Nat)
  | applyEntry (entry : LogEntry)
  | applySnapshot (snapshot : StateMachineSnapshot)
  | proposalRejected (leaderId : Option NodeId)
deriving DecidableEq, Repr

abbrev Actions := List Action

structure RpcRange where
  rpcId : Nat
  lastIndex : Nat
deriving DecidableEq, Repr

structure SnapshotRpcRange where
  rpcId : Nat
  snapshotIndex : Nat
  offset : Nat
  stop : Nat
deriving DecidableEq, Repr

structure PeerProgress where
  nextIndex : Nat
  matchIndex : Nat
  newestRpcId : Nat
  newestRpcLastIndex : Nat
  recentRpcs : List RpcRange
  snapshotIndex : Nat
  snapshotOffset : Nat
  recentSnapshotRpcs : List SnapshotRpcRange
deriving DecidableEq, Repr

-- The timeouts stand for the draws of uniform_int_distribution over the
-- mt19937_64 stream that the source seeds from randomSeed and selfId.
structure RaftConfig where
  selfId : NodeId
  voters : List NodeId
  electionTimeoutMin : Nat
  electionTimeoutMax : Nat
  heartbeatInterval : Nat
  electionTimeouts : Nat → Nat
  maxAppendEntries : Nat
  maxAppendBytes : Nat

structure RaftPersistentState where
  currentTerm : Nat
  votedFor : Option NodeId
  snapshot : Option StateMachineSnapshot
  log : List LogEntry
deriving DecidableEq, Repr

def RaftPersistentState.empty : RaftPersistentState := ⟨0,none,none,[]⟩

def RaftPersistentState.baseIndex (state : RaftPersistentState) : Nat :=
  (state.snapshot.map StateMachineSnapshot.lastIncludedIndex).getD 0

def RaftPersistentState.baseTerm (state : RaftPersistentState) : Nat :=
  (state.snapshot.map StateMachineSnapshot.lastIncludedTerm).getD 0

structure IncomingSnapshot where
  leaderId : NodeId
  lastIncludedIndex : Nat
  lastIncludedTerm : Nat
  totalSize : Nat
  bytes : Bytes
deriving DecidableEq, Repr

def Message.term : Message → Nat
  | .requestVote request => request.term
  | .requestVoteResponse response => response.term
  | .appendEntries request => request.term
  | .appendEntriesResponse response => response.term
  | .installSnapshot request => request.term
  | .installSnapshotResponse response => response.term

end ForgeKv.Raft
