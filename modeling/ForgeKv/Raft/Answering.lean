import ForgeKv.Raft.Appending

namespace ForgeKv.Raft

variable {node middle after : RaftNode} {source : NodeId} {message : Message}

-- Statements that neither send a message nor change the term.
structure Silent (node after : RaftNode) : Prop where
  term : after.currentTerm = node.currentTerm
  sent : messages after.actions = messages node.actions

theorem Silent.trans (first : Silent node middle) (second : Silent middle after) : Silent node after :=
  ⟨second.term.trans first.term,second.sent.trans first.sent⟩

theorem Silent.push (silent : Silent node after) (plain : action.addressed = none) : Silent node (after.push action) := by
  refine ⟨silent.term,Eq.trans ?_ silent.sent⟩
  show messages (after.actions ++ [action]) = _
  unfold messages
  simp [plain]

theorem Opened.sent (opened : Opened node after) : messages after.actions = messages node.actions := by
  obtain ⟨lead,grown,opens⟩ := opened.actions
  obtain ⟨silent,-,-⟩ := opens_plain opens
  unfold messages at silent ⊢
  rw [grown,List.filterMap_append,silent,List.append_nil]

-- What an answer has in common with its request.
inductive Replied : Message → Message → Prop where
  | vote : Replied (.requestVote request) (.requestVoteResponse response)
  | append (rpc : response.rpcId = request.rpcId)
      (reached : response.success = true → response.matchIndex = request.previousLogIndex+request.entries.length) :
      Replied (.appendEntries request) (.appendEntriesResponse response)
  | chunk (rpc : response.rpcId = request.rpcId) (index : response.lastIncludedIndex = request.lastIncludedIndex) :
      Replied (.installSnapshot request) (.installSnapshotResponse response)

def Message.isRequest : Message → Bool
  | .requestVote _ | .appendEntries _ | .installSnapshot _ => true
  | _ => false

theorem handleRequestVote_answers (node : RaftNode) (source : NodeId) (request : RequestVote) :
    ∃ silent granted, node.handleRequestVote source request =
      silent.push (.sendMessage source (.requestVoteResponse ⟨silent.currentTerm,granted⟩)) ∧ Silent node silent := by
  unfold RaftNode.handleRequestVote
  dsimp only
  generalize written : (if node.grantsVote source request = true ∧ node.votedFor ≠ some source then _ else node) = recorded
  have quiet : Silent node recorded := by
    rw [← written]
    split
    · have voted : Silent node {node with votedFor := some source} := ⟨rfl,rfl⟩
      exact voted.push rfl
    · exact ⟨rfl,rfl⟩
  refine ⟨_,_,rfl,?_⟩
  split
  · exact {quiet with}
  · exact quiet

theorem adoptImage_silent : Silent node (node.adoptImage image rest) := by
  refine ⟨rfl,?_⟩
  unfold RaftNode.adoptImage RaftNode.push messages
  simp [Action.addressed]

theorem assembleChunk_answers (source : NodeId) (request : InstallSnapshot) (sound : Sound node) (forward : node.commitIndex < request.lastIncludedIndex) :
    ∃ silent success offset, node.assembleChunk source request = .ok (silent.sendSnapshotResponse source request success offset) ∧
      Silent node silent := by
  obtain ⟨after,success,nextOffset,ran,assembled⟩ := assembleChunk_cases source sound forward
  refine ⟨after,success,nextOffset,ran,?_⟩
  cases assembled with
  | absent | misplaced | stored => exact ⟨rfl,rfl⟩
  | installed =>
    have cleared : Silent node {node with incomingSnapshot := none} := ⟨rfl,rfl⟩
    exact cleared.trans adoptImage_silent

theorem handleInstallSnapshot_answers (request : InstallSnapshot) (sound : Sound node) (calm : node.role ≠ .follower → node.actions = [])
    (voter : source ∈ node.config.voters) :
    ∃ silent success offset, node.handleInstallSnapshot source request =
      .ok (silent.sendSnapshotResponse source request success offset) ∧ Silent node silent := by
  unfold RaftNode.handleInstallSnapshot
  split
  · exact ⟨_,_,_,rfl,⟨rfl,rfl⟩⟩
  have followed : Silent node (node.followLeader source) := ⟨followLeader_follows.term,followLeader_opened.sent⟩
  have moved : Moves none none node (node.followLeader source) := followLeader_moves calm voter
  have sound' := moves_sound sound moved
  dsimp only
  split
  · exact ⟨_,_,_,rfl,followed⟩
  · rename_i new
    have applied := sound'.applied
    obtain ⟨silent,success,offset,handled,quiet⟩ := assembleChunk_answers source request sound' (by omega)
    exact ⟨silent,success,offset,handled,followed.trans quiet⟩

theorem request_answered (sound : Sound node) (voter : source ∈ node.config.voters) (apart : source ≠ node.config.selfId)
    (positive : message.Positive) (asks : message.isRequest = true) :
    ∃ after actions response, node.step source message = .ok (after,actions) ∧ messages actions = [(source,response)] ∧
      Replied message response ∧ response.term = after.currentTerm ∧ after.currentTerm = max node.currentTerm message.term := by
  obtain ⟨moves,calm⟩ := raised_moves voter message
  have sound' := moves_sound (clear_sound sound) moves
  have opened : Opened node.clearActions (node.clearActions.raised source message) := raised_opened
  have term : (node.clearActions.raised source message).currentTerm = max node.currentTerm message.term := raised_term
  -- A handler that is silent but for its answer.
  have answers : ∀ silent response, Silent (node.clearActions.raised source message) silent → response.term = silent.currentTerm →
      (node.clearActions.raised source message).handle source message = .ok (silent.push (.sendMessage source response)) →
      Replied message response → ∃ after actions response, node.step source message = .ok (after,actions) ∧
        messages actions = [(source,response)] ∧ Replied message response ∧ response.term = after.currentTerm ∧
        after.currentTerm = max node.currentTerm message.term := by
    intro silent response quiet same handled replied
    obtain ⟨stepped,-⟩ := step_raised voter sound apart positive handled
    refine ⟨_,_,response,stepped,?_,replied,same,quiet.term.trans term⟩
    have before := quiet.sent.trans opened.sent
    unfold messages at before
    show (silent.actions ++ _).filterMap _ = _
    rw [List.filterMap_append,before]
    rfl
  cases message with
  | requestVote request =>
    obtain ⟨silent,granted,handled,quiet⟩ := handleRequestVote_answers _ source request
    exact answers silent _ quiet rfl (congrArg Except.ok handled) .vote
  | installSnapshot request =>
    have member : source ∈ (node.clearActions.raised source (.installSnapshot request)).config.voters := by
      rw [opened.config]
      exact voter
    obtain ⟨silent,success,offset,handled,quiet⟩ := handleInstallSnapshot_answers request sound' calm member
    exact answers silent _ quiet rfl handled (.chunk rfl rfl)
  | appendEntries =>
    rcases step_answers sound voter apart positive with ⟨hint,after,actions,answered,-⟩ | ⟨after,actions,answered,-⟩
    · exact ⟨after,actions,_,answered.stepped,answered.sent,.append rfl nofun,rfl,answered.term⟩
    · exact ⟨after,actions,_,answered.stepped,answered.sent,.append rfl (fun _ => rfl),rfl,answered.term⟩
  | requestVoteResponse | appendEntriesResponse | installSnapshotResponse => cases asks

end ForgeKv.Raft
