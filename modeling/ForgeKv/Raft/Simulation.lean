import ForgeKv.Raft.Cluster
import ForgeKv.Raft.LogPath

namespace ForgeKv.Raft
open Assoc Lineage Ballot

abbrev Abstract := Ballot.State NodeId Payload

def RaftPersistentState.baseId (state : RaftPersistentState) : Id := ⟨state.baseIndex,state.baseTerm⟩

-- A durable state is the abstract view of its machine. A snapshot stands for
-- positions that are committed by the machine's term.
structure Matches (voters : Finset NodeId) (ghost : Abstract) (host : NodeId) (state : RaftPersistentState) : Prop where
  term : ghost.term host = state.currentTerm
  vote : ∀ candidate, state.votedFor = some candidate ↔ ∃ behind, ghost.votes host state.currentTerm = some (candidate,behind)
  path : Path ghost.tree state.baseId state.log (ghost.head host)
  base : Committed voters ghost state.currentTerm state.baseId

-- A peer once had, in this term, the leader's log through this index.
def Matched (ghost : Abstract) (peer : NodeId) (term : Nat) (head : Id) (index : Nat) : Prop :=
  index = 0 ∨ ∃ id, id.index = index ∧ Above ghost.tree head id ∧
    ∃ place, ghost.held peer term place ∧ Above ghost.tree place id

-- A chunk is of the node's image, or of an older one.
def OfImage (node : RaftNode) (request : InstallSnapshot) : Prop :=
  request.lastIncludedIndex < node.baseIndex ∨ ∃ image, node.durableSnapshot = some image ∧
    request.lastIncludedIndex = image.lastIncludedIndex ∧ request.lastIncludedTerm = image.lastIncludedTerm ∧
    request.totalSize = image.stateMachine.length

structure Leads (sent : Packet → Prop) (ghost : Abstract) (host : NodeId) (node : RaftNode) : Prop where
  elected : ∃ start, ghost.elected node.currentTerm = some (host,start) ∧
    (ghost.head host = start ∨ (ghost.head host).term = node.currentTerm)
  top : ∀ index content, ghost.tree ⟨index,node.currentTerm⟩ = some content → index ≤ (ghost.head host).index
  matched : ∀ peer progress, (peer,progress) ∈ node.peerProgress →
    Matched ghost peer node.currentTerm (ghost.head host) progress.matchIndex
  images : ∀ target request, sent ⟨host,target,.installSnapshot request⟩ → request.term = node.currentTerm →
    OfImage node request

structure Stands (voters : Finset NodeId) (ghost : Abstract) (host : NodeId) (node : RaftNode) : Prop where
  own : ghost.votes host node.currentTerm = some (host,ghost.head host)
  received : ∀ voter ∈ node.votesReceived, voter ∈ voters ∧ ∃ behind, ghost.votes voter node.currentTerm = some (host,behind)
  pending : ∀ start, ghost.elected node.currentTerm ≠ some (host,start)

-- A running node simulates its machine's part of the abstract state.
structure Sim (voters : Finset NodeId) (sent : Packet → Prop) (ghost : Abstract) (host : NodeId) (node : RaftNode) : Prop where
  sound : Sound node
  self : node.config.selfId = host
  members : node.config.voters.toFinset = voters
  view : Matches voters ghost host node.persistent
  commit : ∃ term, Committed voters ghost node.currentTerm ⟨node.commitIndex,term⟩ ∧
    Above ghost.tree (ghost.head host) ⟨node.commitIndex,term⟩
  stands : node.role = .candidate → Stands voters ghost host node
  leads : node.role = .leader → Leads sent ghost host node

-- What every message that was ever released tells the truth about.
def PacketOk (voters : Finset NodeId) (sent : Packet → Prop) (ghost : Abstract) (packet : Packet) : Prop :=
  match packet.message with
  | .requestVote request =>
    ghost.votes packet.source request.term = some (packet.source,⟨request.lastLogIndex,request.lastLogTerm⟩)
  | .requestVoteResponse response =>
    response.voteGranted = true → ∃ behind, ghost.votes packet.source response.term = some (packet.target,behind)
  | .appendEntries request =>
    (∃ start, ghost.elected request.term = some (packet.source,start)) ∧
    (∃ last, OnLine ghost request.term last ∧
      Path ghost.tree ⟨request.previousLogIndex,request.previousLogTerm⟩ request.entries last) ∧
    ∃ done, done.index = request.leaderCommit ∧ OnLine ghost request.term done ∧ Committed voters ghost request.term done
  | .appendEntriesResponse response =>
    response.success = true → ∃ id, id.index = response.matchIndex ∧ OnLine ghost response.term id ∧
      ∃ place, ghost.held packet.source response.term place ∧ Above ghost.tree place id
  | .installSnapshot request =>
    (∃ start, ghost.elected request.term = some (packet.source,start)) ∧
    OnLine ghost request.term ⟨request.lastIncludedIndex,request.lastIncludedTerm⟩ ∧
    Committed voters ghost request.term ⟨request.lastIncludedIndex,request.lastIncludedTerm⟩
  | .installSnapshotResponse response =>
    response.success = true → ∃ request, sent ⟨packet.target,packet.source,.installSnapshot request⟩ ∧
      request.term = response.term ∧ request.lastIncludedIndex = response.lastIncludedIndex ∧
      (response.nextOffset = request.totalSize → ∃ place, ghost.held packet.source response.term place ∧
        Above ghost.tree place ⟨request.lastIncludedIndex,request.lastIncludedTerm⟩)

def Settled (voters : Finset NodeId) (ghost : Abstract) (id : Id) : Prop := ∃ term, Committed voters ghost term id

-- What an emitted action says about the node that emitted it.
def ActionOk (voters : Finset NodeId) (ghost : Abstract) (node : RaftNode) : Action → Prop
  | .roleChanged _ .leader term _ => node.role = .leader ∧ node.currentTerm = term
  | .commitAdvanced fromIndex toIndex =>
    node.baseIndex ≤ fromIndex ∧ fromIndex < toIndex ∧ toIndex ≤ node.commitIndex
  | .applyEntry entry => Settled voters ghost entry.id ∧ ∃ before, ghost.tree entry.id = some (entry.payload,before)
  | .applySnapshot snapshot | .persistSnapshot snapshot =>
    0 < snapshot.lastIncludedIndex ∧ Settled voters ghost ⟨snapshot.lastIncludedIndex,snapshot.lastIncludedTerm⟩
  | _ => True

-- Released packets together with those still among the actions of the running call.
def Sent (net : Packet → Prop) (host : NodeId) (actions : Actions) (packet : Packet) : Prop :=
  net packet ∨ (packet.source = host ∧ .sendMessage packet.target packet.message ∈ actions)

structure Within (voters : Finset NodeId) (net : Packet → Prop) (ghost : Abstract) (host : NodeId) (node : RaftNode) : Prop where
  valid : Valid voters ghost
  sim : Sim voters (Sent net host node.actions) ghost host node
  packets : ∀ packet, Sent net host node.actions packet → PacketOk voters net ghost packet
  emitted : ∀ action ∈ node.actions, ActionOk voters ghost node action

section monotone
variable {voters : Finset NodeId} {ghost later : Abstract} {host : NodeId} {sent more : Packet → Prop} {packet : Packet} {id : Id}

theorem Matched.grow (matched : Matched ghost peer term head index) (grows : Grows ghost later) :
    Matched later peer term head index := by
  cases matched with
  | inl zero => exact .inl zero
  | inr some =>
    obtain ⟨id,same,above,place,held,below⟩ := some
    exact .inr ⟨id,same,above.extend grows.tree,place,grows.held _ _ _ held,below.extend grows.tree⟩

theorem Settled.grow (settled : Settled voters ghost id) (grows : Grows ghost later) : Settled voters later id := by
  obtain ⟨term,committed⟩ := settled
  exact ⟨term,committed.grow grows⟩

theorem PacketOk.grow (ok : PacketOk voters sent ghost packet) (grows : Grows ghost later)
    (wider : ∀ packet, sent packet → more packet) : PacketOk voters more later packet := by
  obtain ⟨source,target,message⟩ := packet
  cases message with
  | requestVote => exact grows.votes _ _ _ ok
  | requestVoteResponse =>
    intro granted
    obtain ⟨behind,cast⟩ := ok granted
    exact ⟨behind,grows.votes _ _ _ cast⟩
  | appendEntries =>
    obtain ⟨⟨start,led⟩,⟨last,line,path⟩,done,index,doneLine,committed⟩ := ok
    exact ⟨⟨start,grows.elected _ _ led⟩,⟨last,line.grow grows,path.extend grows.tree⟩,
      done,index,doneLine.grow grows,committed.grow grows⟩
  | appendEntriesResponse =>
    intro success
    obtain ⟨id,index,line,place,held,above⟩ := ok success
    exact ⟨id,index,line.grow grows,place,grows.held _ _ _ held,above.extend grows.tree⟩
  | installSnapshot =>
    obtain ⟨⟨start,led⟩,line,committed⟩ := ok
    exact ⟨⟨start,grows.elected _ _ led⟩,line.grow grows,committed.grow grows⟩
  | installSnapshotResponse =>
    intro success
    obtain ⟨request,asked,term,index,whole⟩ := ok success
    refine ⟨request,wider _ asked,term,index,fun equal => ?_⟩
    obtain ⟨place,held,above⟩ := whole equal
    exact ⟨place,grows.held _ _ _ held,above.extend grows.tree⟩

theorem Matches.others (matching : Matches voters ghost host state) (turn : Turn voters mover ghost later)
    (different : host ≠ mover) : Matches voters later host state where
  term := (turn.term host different).trans matching.term
  vote := by rw [turn.votes host different]; exact matching.vote
  path := by rw [turn.head host different]; exact matching.path.extend turn.grows.tree
  base := matching.base.grow turn.grows

theorem Leads.grow (leads : Leads sent ghost host node) (grows : Grows ghost later) (head : later.head host = ghost.head host)
    (top : ∀ index content, later.tree ⟨index,node.currentTerm⟩ = some content → index ≤ (ghost.head host).index)
    (images : ∀ target request, more ⟨host,target,.installSnapshot request⟩ → sent ⟨host,target,.installSnapshot request⟩) :
    Leads more later host node where
  elected := by
    obtain ⟨start,led,tip⟩ := leads.elected
    rw [head]
    exact ⟨start,grows.elected _ _ led,tip⟩
  top := by rw [head]; exact top
  matched := by
    intro peer progress member
    rw [head]
    exact (leads.matched peer progress member).grow grows
  images := fun target request asked => leads.images target request (images target request asked)

theorem Sim.others (sim : Sim voters sent ghost host node) (turn : Turn voters mover ghost later) (different : host ≠ mover)
    (images : ∀ target request, more ⟨host,target,.installSnapshot request⟩ → sent ⟨host,target,.installSnapshot request⟩) :
    Sim voters more later host node where
  __ := sim
  view := sim.view.others turn different
  commit := by
    obtain ⟨term,committed,above⟩ := sim.commit
    rw [turn.head host different]
    exact ⟨term,committed.grow turn.grows,above.extend turn.grows.tree⟩
  stands := by
    intro role
    obtain ⟨own,received,pending⟩ := sim.stands role
    refine ⟨?_,?_,turn.elected_other different pending⟩
    · rw [turn.votes host different,turn.head host different]; exact own
    · intro voter member
      obtain ⟨inside,behind,cast⟩ := received voter member
      exact ⟨inside,behind,turn.grows.votes _ _ _ cast⟩
  leads := by
    intro role
    have leads := sim.leads role
    obtain ⟨start,led,-⟩ := leads.elected
    exact leads.grow turn.grows (turn.head host different) (turn.top_other different led leads.top) images

end monotone
end ForgeKv.Raft
