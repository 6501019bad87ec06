import ForgeKv.Raft.Sound

namespace ForgeKv.Raft
open Assoc
open RaftNode (malformedAt takeBatch track sentinel IncomingSnapshot.accepts IncomingSnapshot.start)

-- The retained log has a position of this index and term; the sentinel counts.
def HasAt (node : RaftNode) (index term : Nat) : Prop :=
  node.baseIndex ≤ index ∧ ∃ entry, node.log[index-node.baseIndex]? = some entry ∧ entry.term = term

-- The retained log has this very entry behind the sentinel.
def Holds (node : RaftNode) (entry : LogEntry) : Prop :=
  node.baseIndex < entry.index ∧ node.log[entry.index-node.baseIndex]? = some entry

-- An AppendEntries request that passed every check up to the overlap scan.
structure Accepts (node : RaftNode) (source : NodeId) (request : AppendEntries) : Prop where
  positive : request.term ≠ 0
  term : request.term = node.currentTerm
  leader : request.leaderId = source
  follower : node.role = .follower
  previous : HasAt node request.previousLogIndex request.previousLogTerm
  wellFormed : malformedAt request.term (request.previousLogIndex+1) request.previousLogTerm request.entries = none
  terms : ∀ entry ∈ request.entries, 0 < entry.term

def RaftNode.commitTo (node : RaftNode) (index : Nat) : RaftNode :=
  let applied := (node.log.drop (node.lastApplied+1-node.baseIndex)).take (index-node.lastApplied)
  {node with
    commitIndex := index
    lastApplied := index
    actions := node.actions ++ .commitAdvanced node.commitIndex index::applied.map .applyEntry}

def Action.isPersist : Action → Bool
  | .persistHardState .. | .persistLog .. | .persistSnapshot .. => true
  | _ => false

def Quiet (actions : Actions) : Prop := ∀ fromIndex toIndex, Action.commitAdvanced fromIndex toIndex ∉ actions

theorem Quiet.calm (calm : actions = []) : Quiet actions := by simp [Quiet,calm]

-- No entry was logged yet.
def Unlogged (actions : Actions) : Prop := ∀ fromIndex entries, Action.persistLog fromIndex entries ∉ actions

theorem Unlogged.calm (calm : actions = []) : Unlogged actions := by simp [Unlogged,calm]

-- A chunk that belongs to the assembly and starts where it ends.
def Assembles (node : RaftNode) (source : NodeId) (request : InstallSnapshot) (incoming : IncomingSnapshot) : Prop :=
  node.incomingSnapshot = some incoming ∧ IncomingSnapshot.accepts incoming source request = true

-- A new state of a peer that a leader may store, with the same match index.
structure Tracks (node : RaftNode) (peer : NodeId) (stored progress : PeerProgress) : Prop where
  leads : node.role = .leader
  found : get? node.peerProgress peer = some stored
  same : progress.matchIndex = stored.matchIndex
  ok : ProgressOk node.lastLogIndex node.durableSnapshot node.nextRpcId progress

-- One that counts what a peer reports.
structure CountsLog (node : RaftNode) (peer : NodeId) (response : AppendEntriesResponse) (stored progress : PeerProgress) : Prop where
  leads : node.role = .leader
  term : response.term = node.currentTerm
  success : response.success = true
  found : get? node.peerProgress peer = some stored
  reported : progress.matchIndex = stored.matchIndex ∨ progress.matchIndex ≤ response.matchIndex
  ok : ProgressOk node.lastLogIndex node.durableSnapshot node.nextRpcId progress

structure CountsImage (node : RaftNode) (peer : NodeId) (response : InstallSnapshotResponse) (snapshot : StateMachineSnapshot)
    (stored progress : PeerProgress) : Prop where
  leads : node.role = .leader
  term : response.term = node.currentTerm
  success : response.success = true
  image : node.durableSnapshot = some snapshot
  index : response.lastIncludedIndex = snapshot.lastIncludedIndex
  whole : response.nextOffset = snapshot.stateMachine.length
  found : get? node.peerProgress peer = some stored
  reported : progress.matchIndex = stored.matchIndex ∨ progress.matchIndex = snapshot.lastIncludedIndex
  ok : ProgressOk node.lastLogIndex node.durableSnapshot node.nextRpcId progress

-- The log holds the entries of a request before one.
structure Joins (node : RaftNode) (source : NodeId) (request : AppendEntries) (before : List LogEntry) (entry : LogEntry)
    (rest : List LogEntry) : Prop where
  accepts : Accepts node source request
  split : request.entries = before ++ entry::rest
  kept : ∀ earlier ∈ before, Holds node earlier

def Conflicts (node : RaftNode) (entry : LogEntry) : Prop :=
  node.lastLogIndex < entry.index ∨ (node.commitIndex < entry.index ∧
    ∃ existing, node.log[entry.index-node.baseIndex]? = some existing ∧ existing.term ≠ entry.term)

-- What is kept of the log behind an image that is ahead of it.
def Suffix (node : RaftNode) (image : StateMachineSnapshot) (rest : List LogEntry) : Prop :=
  (HasAt node image.lastIncludedIndex image.lastIncludedTerm ∧
    rest = node.log.drop (image.lastIncludedIndex-node.baseIndex+1)) ∨
  (¬ HasAt node image.lastIncludedIndex image.lastIncludedTerm ∧ rest = [])

-- A follower has the whole of an image that is ahead of its commit index.
structure Installs (node : RaftNode) (source : NodeId) (request : InstallSnapshot) (incoming : IncomingSnapshot)
    (image : StateMachineSnapshot) (rest : List LogEntry) : Prop where
  term : request.term = node.currentTerm
  leader : request.leaderId = source
  follower : node.role = .follower
  quiet : Quiet node.actions
  assembles : Assembles node source request incoming
  whole : request.offset+request.data.length = request.totalSize
  size : request.totalSize ≤ maximumSnapshotSize
  bytes : image.stateMachine = incoming.bytes ++ request.data
  index : image.lastIncludedIndex = request.lastIncludedIndex
  boundaryTerm : image.lastIncludedTerm = request.lastIncludedTerm
  positive : 0 < image.lastIncludedTerm
  bounded : image.lastIncludedTerm ≤ node.currentTerm
  forward : node.commitIndex < image.lastIncludedIndex
  suffix : Suffix node image rest

-- What the owner of the node hands it: a command to append or an image to compact to.
inductive Offer where
  | command (command : Bytes)
  | image (snapshot : StateMachineSnapshot)

-- What a leader appends of its own: the command that it is offered, or an empty entry.
def Content (offer : Option Offer) (kind : EntryKind) (command : Bytes) : Prop :=
  (kind = .noOp ∧ command = []) ∨ (kind = .command ∧ offer = some (.command command))

-- The pieces that every call is made of. `packet` is what the call handles and
-- `offer` what it is handed, if anything; the conditions are those under which the
-- code takes the piece.
inductive Move (packet : Option (NodeId × Message)) (offer : Option Offer) : RaftNode → RaftNode → Prop where
  | retime (now electionDeadline heartbeatDeadline draws : Nat) : Move packet offer node {node with
      now := now,electionDeadline := electionDeadline,heartbeatDeadline := heartbeatDeadline,draws := draws}
  | raise (arrived : packet = some (source,message)) (calm : node.actions = []) (higher : node.currentTerm < message.term)
      (voter : ∀ known, leader = some known → known ∈ node.config.voters) :
      Move packet offer node (node.becomeFollower message.term leader)
  | stepDown (calm : node.actions = []) (voter : leader ∈ node.config.voters) (active : node.role ≠ .follower) :
      Move packet offer node (node.becomeFollower node.currentTerm (some leader))
  | follow (voter : leader ∈ node.config.voters) (passive : node.role = .follower) :
      Move packet offer node {node with leaderId := some leader}
  | campaign (timer : packet = none) (calm : node.actions = []) (other : node.role ≠ .leader) (room : node.currentTerm ≠ maxU64) :
      Move packet offer node node.campaign
  | grant (arrived : packet = some (source,.requestVote request)) (voter : source ∈ node.config.voters)
      (positive : request.term ≠ 0) (term : request.term = node.currentTerm) (named : request.candidateId = source)
      (free : node.votedFor = none)
      (fresh : node.lastLogTerm < request.lastLogTerm ∨
        (request.lastLogTerm = node.lastLogTerm ∧ node.lastLogIndex ≤ request.lastLogIndex)) :
      Move packet offer node (({node with votedFor := some source}).push (.persistHardState node.currentTerm (some source)))
  | countVote (arrived : packet = some (source,.requestVoteResponse response)) (voter : source ∈ node.config.voters)
      (candidate : node.role = .candidate) (term : response.term = node.currentTerm) (granted : response.voteGranted = true) :
      Move packet offer node {node with votesReceived := insert source node.votesReceived}
  | elect (candidate : node.role = .candidate) (won : node.quorum ≤ node.votesReceived.card)
      (early : (∀ action ∈ node.actions, action.isPersist = false) ∨ node.config.voters.length = 1) :
      Move packet offer node node.takeOffice
  | append (leads : node.role = .leader) (kind : EntryKind) (command : Bytes) (content : Content offer kind command)
      (first : Unlogged node.actions) :
      Move packet offer node (node.appendLocalEntry kind command)
  | commit (leads : node.role = .leader) (forward : node.commitIndex < index) (reached : index ≤ node.lastLogIndex)
      (current : HasAt node index node.currentTerm) (agreed : node.quorum ≤ node.replicated index) :
      Move packet offer node (node.commitTo index)
  | sendSuffix (tracks : Tracks node peer stored progress) (kept : node.baseIndex < progress.nextIndex)
      (previous : HasAt node (progress.nextIndex-1) previousTerm) :
      Move packet offer node (node.pushLogSuffix peer progress previousTerm)
  | sendChunk (tracks : Tracks node peer stored progress) (image : node.durableSnapshot = some snapshot) :
      Move packet offer node (node.sendSnapshotChunk peer progress snapshot)
  | adjust (tracks : Tracks node peer stored progress) : Move packet offer node (node.setProgress peer progress)
  | matchLog (arrived : packet = some (peer,.appendEntriesResponse response)) (counts : CountsLog node peer response stored progress) :
      Move packet offer node (node.setProgress peer progress)
  | matchImage (arrived : packet = some (peer,.installSnapshotResponse response))
      (counts : CountsImage node peer response snapshot stored progress) : Move packet offer node (node.setProgress peer progress)
  | replace (arrived : packet = some (source,.appendEntries request)) (joins : Joins node source request before entry rest)
      (conflict : Conflicts node entry) :
      Move packet offer node (node.replaceSuffix entry.index (entry::rest))
  | learn (arrived : packet = some (source,.appendEntries request)) (accepts : Accepts node source request)
      (held : ∀ entry ∈ request.entries, Holds node entry) (forward : node.commitIndex < index)
      (offered : index ≤ request.leaderCommit) (covered : index ≤ request.previousLogIndex+request.entries.length) :
      Move packet offer node (node.commitTo index)
  | answerVote (arrived : packet = some (source,.requestVote request))
      (truthful : granted = true → node.votedFor = some source ∧ request.term = node.currentTerm) :
      Move packet offer node (node.push (.sendMessage source (.requestVoteResponse ⟨node.currentTerm,granted⟩)))
  | refuseEntries (arrived : packet = some (source,.appendEntries request)) (hint : Nat) :
      Move packet offer node (node.sendAppendResponse source request false 0 hint)
  | acceptEntries (arrived : packet = some (source,.appendEntries request)) (accepts : Accepts node source request)
      (held : ∀ entry ∈ request.entries, Holds node entry) :
      Move packet offer node (node.sendAppendResponse source request true (request.previousLogIndex+request.entries.length) 0)
  | refuseChunk (arrived : packet = some (source,.installSnapshot request)) (offset : Nat) :
      Move packet offer node (node.sendSnapshotResponse source request false offset)
  | acceptChunk (arrived : packet = some (source,.installSnapshot request)) (term : request.term = node.currentTerm)
      (leader : request.leaderId = source)
      (whole : offset = request.totalSize → request.lastIncludedIndex ≤ node.commitIndex) :
      Move packet offer node (node.sendSnapshotResponse source request true offset)
  | begin (arrived : packet = some (source,.installSnapshot request)) (front : request.offset = 0) :
      Move packet offer node {node with incomingSnapshot := some (IncomingSnapshot.start source request)}
  | gather (arrived : packet = some (source,.installSnapshot request)) (assembles : Assembles node source request incoming) :
      Move packet offer node {node with incomingSnapshot := some {incoming with bytes := incoming.bytes ++ request.data}}
  | discard : Move packet offer node {node with incomingSnapshot := none}
  | install (arrived : packet = some (source,.installSnapshot request)) (installs : Installs node source request incoming installed rest) :
      Move packet offer node (node.adoptImage installed rest)
  | compact (own : packet = none) (asked : offer = some (.image snapshot)) (calm : node.actions = [])
      (forward : node.baseIndex < snapshot.lastIncludedIndex)
      (applied : snapshot.lastIncludedIndex ≤ node.commitIndex)
      (current : HasAt node snapshot.lastIncludedIndex snapshot.lastIncludedTerm) :
      Move packet offer node (node.cutLog snapshot)
  | refuse : Move packet offer node (node.push (.proposalRejected node.leaderId))

inductive Moves (packet : Option (NodeId × Message)) (offer : Option Offer) (node : RaftNode) : RaftNode → Prop where
  | nil : Moves packet offer node node
  | step : Moves packet offer node middle → Move packet offer middle after → Moves packet offer node after

theorem Moves.one (move : Move packet offer node after) : Moves packet offer node after := .step .nil move

theorem Moves.trans (first : Moves packet offer node middle) (second : Moves packet offer middle after) : Moves packet offer node after := by
  induction second with
  | nil => exact first
  | step _ move ih => exact .step ih move

variable {node after : RaftNode} {image : StateMachineSnapshot}

-- What becomeFollower emits.
inductive Retreats (node : RaftNode) (term : Nat) : Action → Prop where
  | role : Retreats node term (.roleChanged previous .follower current leader)
  | stored (higher : node.currentTerm < term) : Retreats node term (.persistHardState term none)

theorem becomeFollower_tells : ∃ new, (node.becomeFollower term leader).actions = node.actions ++ new ∧
    ∀ action ∈ new, Retreats node term action := by
  refine ⟨_,List.append_assoc ..,fun action member => ?_⟩
  rcases List.mem_append.mp member with role | stored
  · split at role
    · rw [List.mem_singleton.mp role]
      exact .role
    · cases role
  · split at stored
    · rename_i higher
      rw [List.mem_singleton.mp stored]
      simp only [RaftNode.resetElectionDeadline,RaftNode.pushIf]
      exact .stored (of_decide_eq_true higher)
    · cases stored

-- What a candidate emits.
inductive Campaigns (node : RaftNode) : Action → Prop where
  | role : Campaigns node (.roleChanged previous .candidate current leader)
  | stored : Campaigns node (.persistHardState (node.currentTerm+1) (some node.config.selfId))
  | asks (voter : peer ∈ node.config.voters) : Campaigns node
      (.sendMessage peer (.requestVote ⟨node.currentTerm+1,node.config.selfId,node.lastLogIndex,node.lastLogTerm⟩))

theorem campaign_tells : ∃ new, node.campaign.actions = node.actions ++ new ∧ ∀ action ∈ new, Campaigns node action := by
  refine ⟨_,(List.append_assoc ..).trans (List.append_assoc ..),fun action member => ?_⟩
  rcases List.mem_append.mp member with role | member
  · split at role
    · rw [List.mem_singleton.mp role]
      exact .role
    · cases role
  · rcases List.mem_cons.mp member with rfl | asks
    · exact .stored
    · obtain ⟨voter,other,rfl⟩ := List.mem_map.mp asks
      exact .asks (List.mem_filter.mp other).1

theorem becomeFollower_sound (sound : Sound node) (voter : ∀ known, leader = some known → known ∈ node.config.voters) :
    Sound (node.becomeFollower term leader) where
  log := by
    refine sound.log.raise ?_
    simp only [RaftNode.becomeFollower,RaftNode.pushIf,RaftNode.resetElectionDeadline]
    split
    · simp_all; omega
    · exact Nat.le_refl _
  __ := sound
  vote := by
    intro candidate voted
    simp only [RaftNode.becomeFollower,RaftNode.pushIf,RaftNode.resetElectionDeadline] at voted ⊢
    split at voted
    · cases voted
    · rename_i kept
      rw [if_neg kept]
      exact sound.vote candidate voted
  leader := voter
  candidate := by intro wrong; cases wrong
  idle := fun _ => rfl
  leads := by intro wrong; cases wrong
  progress := by intro peer progress member; cases member

theorem campaign_sound (sound : Sound node) (other : node.role ≠ .leader) : Sound node.campaign where
  log := sound.log.raise (Nat.le_succ _)
  __ := sound
  vote := by
    intro candidate voted
    cases voted
    exact ⟨sound.configOk.member,Nat.succ_pos _⟩
  leader := by intro leader wrong; cases wrong
  candidate := fun _ => rfl
  idle := fun _ => sound.idle other
  leads := by intro wrong; cases wrong

theorem grant_sound (sound : Sound node) (voter : source ∈ node.config.voters) (positive : 0 < node.currentTerm)
    (free : node.votedFor = none) :
    Sound (({node with votedFor := some source}).push (.persistHardState node.currentTerm (some source))) :=
  {sound with
    vote := by
      intro candidate voted
      cases voted
      exact ⟨voter,positive⟩
    candidate := by
      intro candidate
      have own := sound.candidate candidate
      rw [free] at own
      cases own}

theorem takeOffice_sound (sound : Sound node) (candidate : node.role = .candidate) : Sound node.takeOffice where
  __ := sound
  leader := by
    intro leader found
    cases found
    exact sound.configOk.member
  candidate := by intro wrong; cases wrong
  idle := fun wrong => absurd rfl wrong
  leads := by
    refine fun _ => ⟨(sound.vote _ (sound.candidate candidate)).2,rfl,?_⟩
    simp [RaftNode.takeOffice,RaftNode.push,keys,Function.comp_def]
  progress := by
    intro peer progress member
    simp only [RaftNode.takeOffice,RaftNode.push,List.mem_map,Prod.mk.injEq] at member
    obtain ⟨-,-,-,rfl⟩ := member
    refine ⟨Nat.succ_pos _,Nat.le_refl _,Nat.zero_le _,sound.rpcs,Nat.zero_le _,?_,?_,Nat.zero_le _,?_⟩
    · intro rpc wrong; cases wrong
    · intro wrong; exact absurd rfl wrong
    · intro rpc wrong; cases wrong

theorem logOk_append (ok : LogOk term snapshot entries) (index : entry.index = (boundary snapshot).index+entries.length)
    (newest : entry.term = term) (positive : 0 < term) : LogOk term snapshot (entries ++ [entry]) where
  front := by
    obtain ⟨rest,rfl⟩ := ok.front
    exact ⟨rest ++ [entry],rfl⟩
  image := ok.image
  numbered := ok.numbered.append (.cons index .nil)
  sorted := by
    refine List.pairwise_append.mpr ⟨ok.sorted,List.pairwise_singleton _ _,?_⟩
    intro earlier member later only
    rw [List.mem_singleton.mp only,newest]
    exact ok.bounded earlier member
  bounded := by
    intro other member
    rcases List.mem_append.mp member with old | new
    · exact ok.bounded other old
    · rw [List.mem_singleton.mp new]; exact Nat.le_of_eq newest
  positive := by
    intro other member
    rw [List.tail_append_of_ne_nil ok.nonempty] at member
    rcases List.mem_append.mp member with old | new
    · exact ok.positive other old
    · rw [List.mem_singleton.mp new,newest]; exact positive

theorem append_last : (node.appendLocalEntry kind command).lastLogIndex = node.lastLogIndex+1 := by
  simp [RaftNode.appendLocalEntry,RaftNode.push,RaftNode.lastLogIndex,RaftNode.lastEntry]

theorem append_base (sound : Sound node) : (node.appendLocalEntry kind command).baseIndex = node.baseIndex := by
  obtain ⟨rest,shape⟩ := sound.log.front
  simp [RaftNode.appendLocalEntry,RaftNode.push,RaftNode.baseIndex,RaftNode.frontEntry,shape]

theorem append_sound (sound : Sound node) (leads : node.role = .leader) :
    Sound (node.appendLocalEntry kind command) where
  log := by
    refine logOk_append sound.log ?_ rfl (sound.leads leads).1
    have last := sound.last
    rw [sound.base] at last
    exact last
  retained := by
    rw [append_base sound]
    exact sound.retained
  reached := by
    rw [append_last]
    exact Nat.le_succ_of_le sound.reached
  __ := sound
  progress := by
    intro peer progress member
    rw [append_last]
    exact (sound.progress peer progress member).extend (Nat.le_succ _) (Nat.le_refl _)

theorem commitTo_sound (sound : Sound node) (forward : node.commitIndex < index) (reached : index ≤ node.lastLogIndex) :
    Sound (node.commitTo index) :=
  {sound with
    applied := rfl
    retained := Nat.le_trans sound.retained (Nat.le_of_lt forward)
    reached := reached}

theorem setProgress_sound (sound : Sound node) (leads : node.role = .leader)
    (ok : ProgressOk node.lastLogIndex node.durableSnapshot node.nextRpcId new) : Sound (node.setProgress peer new) :=
  {sound with
    idle := fun other => absurd leads other
    leads := fun _ => ⟨(sound.leads leads).1,(sound.leads leads).2.1,keys_set.trans (sound.leads leads).2.2⟩
    progress := by
      intro other progress member
      rcases mem_set member with ⟨-,rfl⟩ | old
      · exact ok
      · exact sound.progress other progress old}

theorem track_length {rpcs : List Range} {rpc : Range} (short : rpcs.length ≤ maximumTrackedRpcsPerPeer) :
    (track rpcs rpc).length ≤ maximumTrackedRpcsPerPeer := by
  unfold track
  dsimp only
  split
  · simpa using short
  · rename_i fits
    exact Nat.not_lt.mp fits

theorem mem_track {rpcs : List Range} (member : other ∈ track rpcs rpc) : other ∈ rpcs ∨ other = rpc := by
  unfold track at member
  dsimp only at member
  have both : other ∈ rpcs ++ [rpc] := by
    split at member
    · exact List.mem_of_mem_tail member
    · exact member
  simpa using both

theorem takeBatch_take (config : RaftConfig) (count encoded : Nat) (entries : List LogEntry) : ∃ size, takeBatch config count encoded entries = entries.take size := by
  induction entries generalizing count encoded with
  | nil => exact ⟨0,rfl⟩
  | cons entry rest ih =>
    unfold takeBatch
    split
    · exact ⟨0,rfl⟩
    · split
      · exact ⟨0,rfl⟩
      · obtain ⟨size,equal⟩ := ih (count+1) (encoded+(24+entry.command.length))
        exact ⟨size+1,by rw [equal]; rfl⟩

theorem Sound.index_le (sound : Sound node) (member : entry ∈ node.log) : entry.index ≤ node.lastLogIndex := by
  obtain ⟨position,bound,equal⟩ := List.mem_iff_getElem.mp member
  have index := sound.index_of (List.getElem?_eq_some_iff.mpr ⟨bound,equal⟩)
  have last := sound.last
  omega

theorem suffix_last (sound : Sound node) (config : RaftConfig) (count : Nat) (low : previousIndex ≤ node.lastLogIndex) :
    ((takeBatch config 0 0 (node.log.drop count)).getLast?.map LogEntry.index).getD previousIndex ≤ node.lastLogIndex := by
  obtain ⟨size,equal⟩ := takeBatch_take config 0 0 (node.log.drop count)
  rw [equal]
  cases got : ((node.log.drop count).take size).getLast? with
  | none => exact low
  | some =>
    exact sound.index_le (List.mem_of_mem_drop (List.mem_of_mem_take (List.mem_of_getLast? got)))

theorem ProgressOk.renumber (ok : ProgressOk lastIndex durable rpcId new) :
    ProgressOk lastIndex durable (rpcId+1) {new with newestRpcId := rpcId} := by
  refine {ok with issued := Nat.lt_succ_self _,ranges := fun rpc present => ?_,chunks := fun rpc present => ?_}
  · obtain ⟨positive,earlier,bounded⟩ := ok.ranges rpc present
    exact ⟨positive,Nat.le_trans earlier (Nat.le_of_lt ok.issued),bounded⟩
  · obtain ⟨positive,earlier,rest⟩ := ok.chunks rpc present
    exact ⟨positive,Nat.le_trans earlier (Nat.le_of_lt ok.issued),rest⟩

theorem sent_sound (sound : Sound node) (leads : node.role = .leader)
    (ok : ProgressOk node.lastLogIndex node.durableSnapshot (node.nextRpcId+1) new) :
    Sound (RaftNode.push {node.setProgress peer new with nextRpcId := node.nextRpcId+1} action) := by
  have numbered : Sound {node with nextRpcId := node.nextRpcId+1} := {sound with
    rpcs := Nat.succ_pos _
    progress := fun other progress member => (sound.progress other progress member).extend (Nat.le_refl _) (Nat.le_succ _)}
  exact {setProgress_sound numbered leads ok with}

theorem pushLogSuffix_sound (sound : Sound node) (leads : node.role = .leader)
    (ok : ProgressOk node.lastLogIndex node.durableSnapshot node.nextRpcId new) :
    Sound (node.pushLogSuffix peer new previousTerm) := by
  have low : new.nextIndex-1 ≤ node.lastLogIndex := by
    have := ok.next
    omega
  have last := suffix_last sound node.config (new.nextIndex-node.baseIndex) low
  have fresh := ok.renumber
  refine sent_sound sound leads {fresh with
    newest := last
    tracked := track_length ok.tracked
    ranges := fun rpc present => ?_}
  rcases mem_track present with old | rfl
  · exact fresh.ranges rpc old
  · exact ⟨sound.rpcs,Nat.le_refl _,last⟩

theorem align_ok (ok : ProgressOk lastIndex durable nextRpcId progress) (found : durable = some snapshot) :
    ProgressOk lastIndex durable nextRpcId (RaftNode.PeerProgress.alignSnapshot progress snapshot) := by
  unfold RaftNode.PeerProgress.alignSnapshot
  by_cases fresh : progress.snapshotIndex ≠ snapshot.lastIncludedIndex
  · rw [if_pos fresh]
    refine {ok with image := ?_,trackedChunks := Nat.zero_le _,chunks := ?_}
    · exact fun _ => ⟨snapshot,found,rfl,Nat.min_le_right _ _⟩
    · intro rpc wrong; cases wrong
  · rw [if_neg fresh]
    exact {ok with image := fun _ => ⟨snapshot,found,not_not.mp fresh,Nat.min_le_right _ _⟩}

theorem align_index : (RaftNode.PeerProgress.alignSnapshot progress snapshot).snapshotIndex = snapshot.lastIncludedIndex ∧
    (RaftNode.PeerProgress.alignSnapshot progress snapshot).snapshotOffset ≤ snapshot.stateMachine.length := by
  unfold RaftNode.PeerProgress.alignSnapshot
  by_cases fresh : progress.snapshotIndex ≠ snapshot.lastIncludedIndex
  · rw [if_pos fresh]; exact ⟨rfl,Nat.min_le_right _ _⟩
  · rw [if_neg fresh]; exact ⟨not_not.mp fresh,Nat.min_le_right _ _⟩

theorem align_match : (RaftNode.PeerProgress.alignSnapshot progress snapshot).matchIndex = progress.matchIndex := by
  unfold RaftNode.PeerProgress.alignSnapshot
  split <;> rfl

theorem sendSnapshotChunk_sound (sound : Sound node) (leads : node.role = .leader)
    (ok : ProgressOk node.lastLogIndex node.durableSnapshot node.nextRpcId new)
    (image : node.durableSnapshot = some snapshot) : Sound (node.sendSnapshotChunk peer new snapshot) := by
  have place := @align_index new snapshot
  have fresh := (align_ok ok image).renumber
  refine sent_sound sound leads {fresh with
    trackedChunks := track_length fresh.trackedChunks
    chunks := fun rpc present => ?_}
  rcases mem_track present with old | rfl
  · exact fresh.chunks rpc old
  · refine ⟨sound.rpcs,Nat.le_refl _,place.1.symm,Nat.le_add_right _ _,snapshot,image,?_⟩
    simp only
    omega

theorem malformedAt_none (none : malformedAt term expected minimum entries = none) :
    Numbered expected entries ∧ entries.Pairwise (fun earlier later => earlier.term ≤ later.term) ∧
      ∀ entry ∈ entries, minimum ≤ entry.term ∧ entry.term ≤ term := by
  induction entries generalizing expected minimum with
  | nil => exact ⟨.nil,.nil,fun _ member => nomatch member⟩
  | cons entry rest ih =>
    unfold malformedAt at none
    split at none
    · cases none
    · rename_i fine
      obtain ⟨numbered,sorted,bounded⟩ := ih none
      refine ⟨.cons (by omega) numbered,List.pairwise_cons.mpr ⟨fun later member => (bounded later member).1,sorted⟩,?_⟩
      intro other member
      rcases List.mem_cons.mp member with rfl | later
      · omega
      · have := bounded other later
        omega

theorem malformedAt_ok (numbered : Numbered expected entries)
    (sorted : entries.Pairwise (fun earlier later => earlier.term ≤ later.term))
    (bounded : ∀ entry ∈ entries, minimum ≤ entry.term ∧ entry.term ≤ term) (positive : 0 < expected) :
    malformedAt term expected minimum entries = none := by
  induction entries generalizing expected minimum with
  | nil => rfl
  | cons entry rest ih =>
    have index : entry.index = expected := numbered 0 entry rfl
    have first := bounded entry List.mem_cons_self
    obtain ⟨least,ordered⟩ := List.pairwise_cons.mp sorted
    unfold malformedAt
    rw [if_neg (by omega)]
    apply ih numbered.tail ordered _ (Nat.succ_pos _)
    exact fun later member => ⟨least later member,(bounded later (List.mem_cons_of_mem _ member)).2⟩

theorem Holds.position (holds : Holds node entry) :
    entry.index-node.baseIndex < node.log.length :=
  (List.getElem?_eq_some_iff.mp holds.2).1

theorem applied_entry (sound : Sound node) {index : Nat}
    (member : entry ∈ (node.log.drop (node.lastApplied+1-node.baseIndex)).take (index-node.lastApplied)) :
    Holds node entry ∧ entry.index ≤ index := by
  obtain ⟨position,bound,equal⟩ := List.mem_iff_getElem.mp member
  rw [List.getElem_take,List.getElem_drop] at equal
  have found := List.getElem?_eq_some_iff.mpr ⟨_,equal⟩
  have place := sound.index_of found
  have retained := sound.retained
  rw [← sound.applied] at retained
  have inside := Nat.lt_of_lt_of_le bound (List.length_take_le _ _)
  refine ⟨⟨by omega,?_⟩,by omega⟩
  rw [show entry.index-node.baseIndex = node.lastApplied+1-node.baseIndex+position by omega]
  exact found

theorem Joins.index (joins : Joins node source request before entry rest) :
    entry.index = request.previousLogIndex+1+before.length := by
  apply (malformedAt_none joins.accepts.wellFormed).1
  rw [joins.split]
  simp

theorem before_conflict (joins : Joins node source request before entry rest) :
    node.baseIndex < entry.index ∧ entry.index-node.baseIndex ≤ node.log.length ∧
      ∃ previous, node.log[entry.index-1-node.baseIndex]? = some previous ∧ previous.term ≤ entry.term := by
  have index := joins.index
  obtain ⟨accepts,split,kept⟩ := joins
  obtain ⟨numbered,sorted,bounded⟩ := malformedAt_none accepts.wellFormed
  have low := accepts.previous.1
  rcases List.eq_nil_or_concat before with rfl | ⟨front,final,rfl⟩
  · obtain ⟨-,previous,found,same⟩ := accepts.previous
    have bound := (List.getElem?_eq_some_iff.mp found).1
    simp only [List.length_nil] at index
    refine ⟨by omega,by omega,previous,?_,?_⟩
    · rw [index]; exact found
    · rw [same]
      refine (bounded entry ?_).1
      rw [split]; simp
  · have holds := kept final (by simp)
    have bound := holds.position
    have finalIndex : final.index = request.previousLogIndex+1+front.length := by
      apply numbered
      rw [split]
      simp
    simp only [List.length_append,List.length_singleton,List.concat_eq_append] at index
    refine ⟨by omega,by omega,final,?_,?_⟩
    · rw [show entry.index-1 = final.index by omega]
      exact holds.2
    · rw [split] at sorted
      exact (List.pairwise_append.mp sorted).2.2 final (by simp) entry (by simp)

theorem logOk_replace (ok : LogOk term snapshot entries) (kept : 0 < count) (fits : count ≤ entries.length)
    (numbered : Numbered ((boundary snapshot).index+count) more)
    (sorted : more.Pairwise (fun earlier later => earlier.term ≤ later.term))
    (joined : ∃ previous, entries[count-1]? = some previous ∧ ∀ entry ∈ more, previous.term ≤ entry.term)
    (bounded : ∀ entry ∈ more, entry.term ≤ term) (positive : ∀ entry ∈ more, 0 < entry.term) :
    LogOk term snapshot (entries.take count ++ more) where
  front := by
    obtain ⟨rest,rfl⟩ := ok.front
    obtain ⟨count,rfl⟩ := Nat.exists_eq_succ_of_ne_zero (Nat.ne_of_gt kept)
    exact ⟨rest.take count ++ more,rfl⟩
  image := ok.image
  numbered := by
    refine (ok.numbered.take count).append ?_
    rw [List.length_take,Nat.min_eq_left fits]
    exact numbered
  sorted := by
    refine List.pairwise_append.mpr ⟨ok.sorted.sublist (List.take_sublist _ _),sorted,?_⟩
    intro earlier member later new
    obtain ⟨previous,found,below⟩ := joined
    refine Nat.le_trans ?_ (below later new)
    -- Everything taken stands at or before the joint position.
    obtain ⟨position,bound,equal⟩ := List.mem_iff_getElem.mp member
    rw [List.length_take] at bound
    rw [List.getElem_take] at equal
    rcases Nat.lt_or_ge position (count-1) with before | at'
    · obtain ⟨inside,got⟩ := List.getElem?_eq_some_iff.mp found
      rw [← equal,← got]
      exact List.pairwise_iff_getElem.mp ok.sorted _ _ _ _ before
    · obtain rfl : position = count-1 := by omega
      obtain ⟨inside,got⟩ := List.getElem?_eq_some_iff.mp found
      rw [← equal,← got]
  bounded := by
    intro entry member
    rcases List.mem_append.mp member with old | new
    · exact ok.bounded entry (List.mem_of_mem_take old)
    · exact bounded entry new
  positive := by
    intro entry member
    obtain ⟨rest,rfl⟩ := ok.front
    obtain ⟨count,rfl⟩ := Nat.exists_eq_succ_of_ne_zero (Nat.ne_of_gt kept)
    rcases List.mem_append.mp member with old | new
    · exact ok.positive entry (List.mem_of_mem_take old)
    · exact positive entry new

section
variable (sound : Sound node) (joins : Joins node source request before entry rest)
include sound joins

theorem replace_log :
    LogOk node.currentTerm node.durableSnapshot (node.log.take (entry.index-node.baseIndex) ++ entry::rest) := by
  obtain ⟨low,fits,previous,found,ordered⟩ := before_conflict joins
  have first := joins.index
  obtain ⟨accepts,split,-⟩ := joins
  obtain ⟨numbered,sorted,bounded⟩ := malformedAt_none accepts.wellFormed
  have inside : ∀ other ∈ entry::rest, other ∈ request.entries := by
    intro other member
    rw [split]
    exact List.mem_append_right _ member
  rw [split] at numbered sorted
  have ordered' := (List.pairwise_append.mp sorted).2.1
  refine logOk_replace sound.log (by omega) fits ?_ ordered' ⟨previous,?_,?_⟩ ?_ ?_
  · have later := numbered.drop before.length
    rw [List.drop_left] at later
    rw [← sound.base,show node.baseIndex+(entry.index-node.baseIndex) = request.previousLogIndex+1+before.length by omega]
    exact later
  · rw [show entry.index-node.baseIndex-1 = entry.index-1-node.baseIndex by omega]
    exact found
  · intro other member
    rcases List.mem_cons.mp member with rfl | later
    · exact ordered
    · exact Nat.le_trans ordered ((List.pairwise_cons.mp ordered').1 other later)
  · intro other member
    rw [← accepts.term]
    exact (bounded other (inside other member)).2
  · exact fun other member => accepts.terms other (inside other member)

theorem replace_last :
    (node.replaceSuffix entry.index (entry::rest)).lastLogIndex = entry.index+rest.length ∧
      (node.replaceSuffix entry.index (entry::rest)).baseIndex = node.baseIndex := by
  have ok := replace_log sound joins
  obtain ⟨low,fits,-⟩ := before_conflict joins
  have base : (node.replaceSuffix entry.index (entry::rest)).baseIndex = (boundary node.durableSnapshot).index :=
    congrArg LogEntry.index ok.head
  have last : (node.replaceSuffix entry.index (entry::rest)).lastLogIndex+1 =
      (boundary node.durableSnapshot).index+(node.log.take (entry.index-node.baseIndex) ++ entry::rest).length :=
    ok.last_index _
  rw [← sound.base] at base last
  rw [List.length_append,List.length_take,Nat.min_eq_left fits,List.length_cons] at last
  exact ⟨by omega,base⟩

theorem replace_sound (conflict : node.lastLogIndex < entry.index ∨ node.commitIndex < entry.index) :
    Sound (node.replaceSuffix entry.index (entry::rest)) := by
  obtain ⟨last,base⟩ := replace_last sound joins
  have follower : node.role ≠ .leader := by rw [joins.accepts.follower]; simp
  refine {sound with log := replace_log sound joins,retained := ?_,reached := ?_,progress := ?_}
  · rw [base]; exact sound.retained
  · have reached := sound.reached
    show node.commitIndex ≤ _
    omega
  · intro peer progress member
    rw [show (node.replaceSuffix entry.index (entry::rest)).peerProgress = [] from sound.idle follower] at member
    cases member

end

theorem logOk_cut (ok : LogOk term snapshot entries) (low : (boundary snapshot).index ≤ image.lastIncludedIndex)
    (found : entries[image.lastIncludedIndex-(boundary snapshot).index]? = some entry)
    (same : entry.term = image.lastIncludedTerm) (index : 0 < image.lastIncludedIndex) (positive : 0 < image.lastIncludedTerm) :
    LogOk term (some image)
      (sentinel image::entries.drop (image.lastIncludedIndex-(boundary snapshot).index+1)) where
  front := ⟨_,rfl⟩
  image := by
    intro state equal
    cases equal
    exact ⟨index,positive⟩
  numbered := by
    refine .cons rfl ?_
    have later := ok.numbered.drop (image.lastIncludedIndex-(boundary snapshot).index+1)
    rwa [show (boundary snapshot).index+(image.lastIncludedIndex-(boundary snapshot).index+1) =
      image.lastIncludedIndex+1 by omega] at later
  sorted := by
    refine List.pairwise_cons.mpr ⟨?_,ok.sorted.sublist (List.drop_sublist _ _)⟩
    intro later member
    obtain ⟨inside,got⟩ := List.getElem?_eq_some_iff.mp found
    have tail := ok.sorted.sublist (List.drop_sublist (image.lastIncludedIndex-(boundary snapshot).index) _)
    rw [List.drop_eq_getElem_cons inside,got] at tail
    have below := (List.pairwise_cons.mp tail).1 later member
    rw [same] at below
    exact below
  bounded := by
    intro other member
    rcases List.mem_cons.mp member with rfl | old
    · show image.lastIncludedTerm ≤ term
      rw [← same]
      exact ok.bounded entry (List.mem_of_getElem? found)
    · exact ok.bounded other (List.mem_of_mem_drop old)
  positive := by
    intro other member
    obtain ⟨rest,rfl⟩ := ok.front
    exact ok.positive other (List.mem_of_mem_drop member)

theorem logOk_reset (index : 0 < image.lastIncludedIndex) (positive : 0 < image.lastIncludedTerm)
    (bounded : image.lastIncludedTerm ≤ term) : LogOk term (some image) [sentinel image] where
  front := ⟨[],rfl⟩
  image := by
    intro state equal
    cases equal
    exact ⟨index,positive⟩
  numbered := .cons rfl .nil
  sorted := List.pairwise_singleton _ _
  bounded := by
    intro other member
    rw [List.mem_singleton.mp member]
    exact bounded
  positive := by intro other member; cases member

section
variable (sound : Sound node)
include sound

theorem HasAt.positive (has : HasAt node index term) (real : node.baseIndex < index) : 0 < term := by
  obtain ⟨-,entry,found,rfl⟩ := has
  exact sound.log.positive entry (sound.log.get_real found (by omega))

theorem cut_log (has : HasAt node image.lastIncludedIndex image.lastIncludedTerm)
    (forward : node.baseIndex < image.lastIncludedIndex) :
    LogOk node.currentTerm (some image) (sentinel image::node.log.drop (image.lastIncludedIndex-node.baseIndex+1)) := by
  have positive := has.positive sound forward
  obtain ⟨low,entry,found,same⟩ := has
  rw [sound.base] at low found ⊢
  exact logOk_cut sound.log low found same (by omega) positive

theorem cut_length (has : HasAt node image.lastIncludedIndex image.lastIncludedTerm) :
    image.lastIncludedIndex+(node.log.drop (image.lastIncludedIndex-node.baseIndex+1)).length = node.lastLogIndex := by
  obtain ⟨low,entry,found,-⟩ := has
  have bound := (List.getElem?_eq_some_iff.mp found).1
  have last := sound.last
  rw [List.length_drop]
  omega

theorem adoptImage_sound (installs : Installs node source request incoming image rest) :
    Sound (node.adoptImage image rest) ∧ (node.adoptImage image rest).commitIndex = image.lastIncludedIndex := by
  have forward := installs.forward
  have ok : LogOk node.currentTerm (some image) (sentinel image::rest) := by
    rcases installs.suffix with ⟨has,rfl⟩ | ⟨-,rfl⟩
    · exact cut_log sound has (Nat.lt_of_le_of_lt sound.retained forward)
    · exact logOk_reset (Nat.zero_lt_of_lt forward) installs.positive installs.bounded
  have last : (node.adoptImage image rest).lastLogIndex+1 = image.lastIncludedIndex+(rest.length+1) := ok.last_index _
  have commit : (node.adoptImage image rest).commitIndex = image.lastIncludedIndex := by
    show min (max node.commitIndex image.lastIncludedIndex) (node.adoptImage image rest).lastLogIndex = _
    omega
  have passive : node.role ≠ .leader := by rw [installs.follower]; simp
  refine ⟨{sound with
    log := ok
    applied := commit.symm
    retained := ?_
    reached := ?_
    progress := ?_},commit⟩
  · rw [commit]; exact Nat.le_refl _
  · rw [commit]; omega
  · intro peer progress member
    rw [show (node.adoptImage image rest).peerProgress = [] from sound.idle passive] at member
    cases member

theorem cutLog_last (has : HasAt node image.lastIncludedIndex image.lastIncludedTerm)
    (forward : node.baseIndex < image.lastIncludedIndex) : (node.cutLog image).lastLogIndex = node.lastLogIndex := by
  have last : (node.cutLog image).lastLogIndex+1 =
      image.lastIncludedIndex+((node.log.drop (image.lastIncludedIndex-node.baseIndex+1)).length+1) :=
    (cut_log sound has forward).last_index _
  have length := cut_length sound has
  omega

theorem cutLog_sound (forward : node.baseIndex < image.lastIncludedIndex)
    (applied : image.lastIncludedIndex ≤ node.commitIndex)
    (has : HasAt node image.lastIncludedIndex image.lastIncludedTerm) : Sound (node.cutLog image) := by
  have last := cutLog_last sound has forward
  refine {sound with
    log := cut_log sound has forward
    retained := applied
    reached := ?_
    idle := ?_
    leads := ?_
    progress := ?_}
  · rw [last]; exact sound.reached
  · intro other
    show mapValues node.peerProgress _ = []
    rw [sound.idle other]
    rfl
  · intro leads
    obtain ⟨positive,own,all⟩ := sound.leads leads
    exact ⟨positive,own,keys_mapValues.trans all⟩
  · intro peer progress member
    obtain ⟨old,present,rfl⟩ := mem_mapValues member
    have ok := sound.progress peer old present
    rw [last]
    refine {ok with image := ?_,trackedChunks := Nat.zero_le _,chunks := ?_}
    · exact fun _ => ⟨image,rfl,rfl,Nat.zero_le _⟩
    · intro rpc wrong; cases wrong

theorem learn_reached (accepts : Accepts node source request)
    (held : ∀ entry ∈ request.entries, Holds node entry) :
    request.previousLogIndex+request.entries.length ≤ node.lastLogIndex := by
  have last := sound.last
  rcases List.eq_nil_or_concat request.entries with empty | ⟨front,final,equal⟩
  · obtain ⟨-,entry,found,-⟩ := accepts.previous
    have bound := (List.getElem?_eq_some_iff.mp found).1
    rw [empty]
    simp only [List.length_nil]
    omega
  · obtain ⟨numbered,-,-⟩ := malformedAt_none accepts.wellFormed
    have holds := held final (by rw [equal]; simp)
    have bound := holds.position
    have index : final.index = request.previousLogIndex+1+front.length := by
      apply numbered
      rw [equal]
      simp
    rw [equal]
    simp only [List.concat_eq_append,List.length_append,List.length_singleton]
    omega

theorem move_sound (move : Move packet offer node after) : Sound after := by
  cases move with
  | retime => exact {sound with}
  | raise arrived calm higher voter => exact becomeFollower_sound sound voter
  | stepDown calm voter =>
    exact becomeFollower_sound sound (fun known equal => Option.some.inj equal ▸ voter)
  | follow voter passive =>
    refine {sound with leader := fun known equal => Option.some.inj equal ▸ voter,leads := ?_}
    intro wrong
    rw [show node.role = .leader from wrong] at passive
    cases passive
  | campaign timer calm other => exact campaign_sound sound other
  | grant arrived voter positive term named free =>
    exact grant_sound sound voter (Nat.pos_of_ne_zero (term ▸ positive)) free
  | countVote => exact {sound with}
  | elect candidate => exact takeOffice_sound sound candidate
  | append leads => exact append_sound sound leads
  | commit leads forward reached => exact commitTo_sound sound forward reached
  | sendSuffix tracks => exact pushLogSuffix_sound sound tracks.leads tracks.ok
  | sendChunk tracks image => exact sendSnapshotChunk_sound sound tracks.leads tracks.ok image
  | adjust tracks => exact setProgress_sound sound tracks.leads tracks.ok
  | matchLog arrived counts | matchImage arrived counts => exact setProgress_sound sound counts.leads counts.ok
  | replace arrived joins conflict => exact replace_sound sound joins (conflict.imp_right And.left)
  | learn arrived accepts held forward offered covered =>
    exact commitTo_sound sound forward (Nat.le_trans covered (learn_reached sound accepts held))
  | answerVote | refuseEntries | acceptEntries
  | refuseChunk | acceptChunk | begin | gather
  | discard => exact {sound with}
  | install arrived installs => exact (adoptImage_sound sound installs).1
  | compact own asked calm forward applied current => exact cutLog_sound sound forward applied current
  | refuse => exact {sound with}

theorem moves_sound (moves : Moves packet offer node after) : Sound after := by
  induction moves with
  | nil => exact sound
  | step _ move ih => exact move_sound ih move

end

end ForgeKv.Raft
