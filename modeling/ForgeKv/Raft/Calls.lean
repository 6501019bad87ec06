import ForgeKv.Raft.Moves

namespace ForgeKv.Raft
open Assoc
open RaftNode (malformedAt Overlap IncomingSnapshot.accepts IncomingSnapshot.start)

section pieces
variable {node : RaftNode} {image : StateMachineSnapshot} {packet : Option (NodeId × Message)}
  {offer : Option Offer}

theorem move_config {after : RaftNode} (move : Move packet offer node after) : after.config = node.config := by
  cases move <;> rfl

theorem moves_config (moves : Moves packet offer node after) : after.config = node.config := by
  induction moves with
  | nil => rfl
  | step _ move ih => exact (move_config move).trans ih

-- A function of the source that runs to its end in pieces.
def Reaches (packet : Option (NodeId × Message)) (offer : Option Offer) (node : RaftNode) (result : Result RaftNode)
    (post : RaftNode → Prop) : Prop :=
  ∃ after, result = .ok after ∧ Moves packet offer node after ∧ post after

theorem Reaches.bind (first : Reaches packet offer node result middle)
    (second : ∀ after, Moves packet offer node after → middle after → Reaches packet offer after (next after) post) :
    Reaches packet offer node (result >>= next) post := by
  obtain ⟨after,equal,moves,fact⟩ := first
  obtain ⟨final,equal',moves',fact'⟩ := second after moves fact
  refine ⟨final,?_,moves.trans moves',fact'⟩
  rw [equal]
  exact equal'

theorem Reaches.following (moves : Moves packet offer node middle) (rest : Reaches packet offer middle result post) :
    Reaches packet offer node result post := by
  obtain ⟨final,equal,moves',fact⟩ := rest
  exact ⟨final,equal,moves.trans moves',fact⟩

theorem Reaches.done (moves : Moves packet offer node after) (fact : post after) : Reaches packet offer node (.ok after) post :=
  ⟨after,rfl,moves,fact⟩

theorem Reaches.weaken (reaches : Reaches packet offer node result post) (implied : ∀ after, post after → other after) :
    Reaches packet offer node result other := by
  obtain ⟨final,equal,moves,fact⟩ := reaches
  exact ⟨final,equal,moves,implied _ fact⟩

abbrev Leading (node : RaftNode) : Prop := node.role = .leader
abbrev Following (node : RaftNode) : Prop := node.role = .follower

section
variable (sound : Sound node) (leads : Leading node)
include sound leads

theorem sendLogSuffix_reaches (tracks : Tracks node peer stored progress) :
    Reaches packet offer node (node.sendLogSuffix peer progress) Leading := by
  have ok := tracks.ok
  have bounds := sound.base_le_last
  have matched := ok.matched
  have next := ok.next
  have aligned : ProgressOk node.lastLogIndex node.durableSnapshot node.nextRpcId
      {progress with nextIndex := max progress.nextIndex (node.baseIndex+1)} :=
    {ok with matched := by simp only; omega,next := by simp only; omega}
  have low : node.baseIndex ≤ max progress.nextIndex (node.baseIndex+1)-1 := by omega
  obtain ⟨previous,read,got,-⟩ := sound.entryAt low (by omega)
  have move : Move packet offer node
      (node.pushLogSuffix peer {progress with nextIndex := max progress.nextIndex (node.baseIndex+1)} previous.term) :=
    .sendSuffix {tracks with ok := aligned} (by simp only; omega) ⟨low,previous,got,rfl⟩
  refine ⟨_,?_,.one move,leads⟩
  unfold RaftNode.sendLogSuffix
  simp only [read]
  rfl

theorem sendAppendEntries_reaches (voter : peer ∈ node.config.voters)
    (other : peer ≠ node.config.selfId) : Reaches packet offer node (node.sendAppendEntries peer) Leading := by
  obtain ⟨stored,found⟩ := sound.leads_get leads voter other
  have ok := sound.progress_get found
  have matched := ok.matched
  have next := ok.next
  have tracks : Tracks node peer stored {stored with nextIndex := min stored.nextIndex (node.lastLogIndex+1)} :=
    ⟨leads,found,rfl,{ok with matched := by simp only; omega,next := by simp only; omega}⟩
  unfold RaftNode.sendAppendEntries
  simp only [found]
  cases image : node.durableSnapshot with
  | none => exact sendLogSuffix_reaches sound leads tracks
  | some snapshot =>
    simp only
    split
    · have move : Move packet offer node (node.sendSnapshotChunk peer
          {stored with nextIndex := min stored.nextIndex (node.lastLogIndex+1)} snapshot) :=
        .sendChunk tracks image
      exact .done (.one move) leads
    · exact sendLogSuffix_reaches sound leads tracks

theorem broadcastTo_reaches (members : ∀ voter ∈ peers, voter ∈ node.config.voters) :
    Reaches packet offer node (node.broadcastTo peers) Leading := by
  induction peers generalizing node with
  | nil => exact .done .nil leads
  | cons voter rest ih =>
    have later : ∀ voter ∈ rest, voter ∈ node.config.voters := fun voter member => members voter (List.mem_cons_of_mem _ member)
    unfold RaftNode.broadcastTo
    split
    · exact ih sound leads later
    · rename_i other
      refine (sendAppendEntries_reaches sound leads (members voter List.mem_cons_self) other).bind ?_
      intro after moves leads'
      refine ih (moves_sound sound moves) leads' ?_
      rw [moves_config moves]
      exact later

theorem broadcast_reaches :
    Reaches packet offer node node.broadcastAppendEntries Leading :=
  broadcastTo_reaches sound leads (fun _ member => member)

end

theorem applyCommitted_ok (node : RaftNode) (count : Nat) (ok : LogOk term snapshot node.log) (low : node.baseIndex ≤ node.lastApplied)
    (reached : node.commitIndex ≤ node.lastLogIndex) (fuel : node.lastApplied+count = node.commitIndex) :
    RaftNode.applyCommitted count node = .ok {node with
      lastApplied := node.commitIndex
      actions := node.actions ++ ((node.log.drop (node.lastApplied+1-node.baseIndex)).take count).map .applyEntry} := by
  induction count generalizing node with
  | zero =>
    have equal : node.lastApplied = node.commitIndex := fuel
    obtain ⟨config,role,currentTerm,votedFor,leaderId,durableSnapshot,log,commitIndex,lastApplied⟩ := node
    simp only at equal
    subst equal
    simp [RaftNode.applyCommitted]
  | succ count ih =>
    obtain ⟨entry,read,got,-⟩ : ∃ entry, RaftNode.entryAt {node with lastApplied := node.lastApplied+1} (node.lastApplied+1) =
        .ok entry ∧ node.log[node.lastApplied+1-node.baseIndex]? = some entry ∧ entry.index = node.lastApplied+1 :=
      LogOk.entryAt ok (Nat.le_succ_of_le low) (Nat.le_trans (by omega : node.lastApplied+1 ≤ node.commitIndex) reached)
    have rest := ih (({node with lastApplied := node.lastApplied+1}).push (.applyEntry entry)) ok
      (Nat.le_succ_of_le low) reached (by simp only [RaftNode.push]; omega)
    have position := (List.getElem?_eq_some_iff.mp got).1
    have cut : node.log.drop (node.lastApplied+1-node.baseIndex) =
        entry::node.log.drop (node.lastApplied+1+1-node.baseIndex) := by
      rw [List.drop_eq_getElem_cons position,(List.getElem?_eq_some_iff.mp got).2]
      congr 2
      omega
    unfold RaftNode.applyCommitted
    rw [if_pos (by omega),cut]
    simp only [read]
    refine Eq.trans rest ?_
    simp [RaftNode.push,RaftNode.baseIndex,RaftNode.frontEntry]

theorem commitThrough_ok (sound : Sound node) (forward : node.commitIndex < index) (reached : index ≤ node.lastLogIndex) :
    node.commitThrough index = .ok (node.commitTo index) := by
  have applied := sound.applied
  have retained := sound.retained
  have run := applyCommitted_ok (({node with commitIndex := index}).push (.commitAdvanced node.commitIndex index))
    (index-node.lastApplied) sound.log
    (show node.baseIndex ≤ node.lastApplied by omega) reached (show node.lastApplied+(index-node.lastApplied) = index by omega)
  refine Eq.trans run ?_
  simp [RaftNode.commitTo,RaftNode.push,RaftNode.baseIndex,RaftNode.frontEntry]

theorem commitCandidate_ok (sound : Sound node) (reached : candidate ≤ node.lastLogIndex) :
    node.commitCandidate candidate = .ok none ∨ ∃ index, node.commitCandidate candidate = .ok (some index) ∧
      node.commitIndex < index ∧ index ≤ node.lastLogIndex ∧ HasAt node index node.currentTerm ∧
      node.quorum ≤ node.replicated index := by
  induction candidate with
  | zero => exact .inl rfl
  | succ candidate ih =>
    have earlier := ih (by omega)
    unfold RaftNode.commitCandidate
    split
    · exact .inl rfl
    · rename_i above
      have low : node.baseIndex ≤ candidate+1 := Nat.le_trans sound.retained (by omega)
      obtain ⟨entry,read,got,-⟩ := sound.entryAt low reached
      simp only [read,bind,Except.bind]
      split
      · exact earlier
      · rename_i current
        split
        · exact earlier
        · rename_i agreed
          exact .inr ⟨candidate+1,rfl,by omega,reached,⟨low,entry,got,not_not.mp current⟩,Nat.not_lt.mp agreed⟩

theorem advanceLeaderCommit_ok (packet : Option (NodeId × Message)) (offer : Option Offer) (sound : Sound node) (leads : Leading node) :
    ∃ advanced after, node.advanceLeaderCommit = .ok (advanced,after) ∧ Moves packet offer node after ∧ Leading after ∧
      after.peerProgress = node.peerProgress := by
  unfold RaftNode.advanceLeaderCommit
  rcases commitCandidate_ok sound (Nat.le_refl _) with nothing | ⟨index,found,forward,reached,current,agreed⟩
  · exact ⟨false,node,by rw [nothing]; rfl,.nil,leads,rfl⟩
  · refine ⟨true,node.commitTo index,?_,.one (.commit leads forward reached current agreed),leads,rfl⟩
    rw [found]
    simp only [bind,Except.bind,commitThrough_ok sound forward reached]
    rfl

theorem appendAndReplicate_reaches (sound : Sound node) (leads : Leading node) (content : Content offer kind command)
    (first : Unlogged node.actions) :
    Reaches packet offer node (node.appendAndReplicate kind command) Leading := by
  have appended : Move packet offer node (node.appendLocalEntry kind command) := .append leads kind command content first
  have sound' := move_sound sound appended
  obtain ⟨advanced,after,equal,moves,leads',-⟩ := advanceLeaderCommit_ok packet offer sound' leads
  have rest : Reaches packet offer after after.broadcastAppendEntries Leading :=
    broadcast_reaches (moves_sound sound' moves) leads'
  refine Reaches.following ((Moves.one appended).trans moves) ?_
  unfold RaftNode.appendAndReplicate
  rw [equal]
  exact rest

theorem takeOffice_unlogged (first : Unlogged node.actions) : Unlogged node.takeOffice.actions := by
  intro fromIndex entries member
  rcases List.mem_append.mp member with old | new
  · exact first _ _ old
  · cases List.mem_singleton.mp new

theorem becomeLeader_reaches (sound : Sound node) (candidate : node.role = .candidate)
    (won : node.quorum ≤ node.votesReceived.card)
    (early : (∀ action ∈ node.actions, action.isPersist = false) ∨ node.config.voters.length = 1)
    (first : Unlogged node.actions) : Reaches packet offer node node.becomeLeader Leading := by
  have elected : Move packet offer node node.takeOffice := .elect candidate won early
  exact .following (.one elected) (appendAndReplicate_reaches (move_sound sound elected) rfl (.inl ⟨rfl,rfl⟩) (takeOffice_unlogged first))

theorem campaign_unlogged (calm : node.actions = []) : Unlogged node.campaign.actions := by
  simp [Unlogged,RaftNode.campaign,RaftNode.sendToOthers,RaftNode.push,RaftNode.pushIf,RaftNode.resetElectionDeadline,calm]

theorem startElection_reaches (sound : Sound node) (calm : node.actions = []) (other : node.role ≠ .leader) (room : node.currentTerm ≠ maxU64) :
    Reaches none offer node node.startElection (fun _ => True) := by
  have stood : Move none offer node node.campaign := .campaign rfl calm other room
  unfold RaftNode.startElection
  rw [if_neg room]
  refine .following (.one stood) ?_
  dsimp only
  split
  · rename_i won
    refine (becomeLeader_reaches (move_sound sound stood) rfl won (.inr ?_) (campaign_unlogged calm)).weaken (fun _ _ => trivial)
    -- One's own vote is a majority only of one voter.
    have size : node.config.voters.length/2+1 ≤ 1 := won
    have nonempty := List.length_pos_of_ne_nil sound.configOk.size
    show node.config.voters.length = 1
    omega
  · exact .done .nil trivial

theorem handleRequestVote_moves (voter : source ∈ node.config.voters) :
    Moves (some (source,.requestVote request)) offer node (node.handleRequestVote source request) := by
  unfold RaftNode.handleRequestVote
  cases decision : node.grantsVote source request with
  | false =>
    exact .one (.answerVote rfl (fun wrong => nomatch wrong))
  | true =>
    simp only [RaftNode.grantsVote,decide_eq_true_eq] at decision
    obtain ⟨positive,term,named,free,fresh⟩ := decision
    by_cases voted : node.votedFor = some source
    · simp only [voted,ne_eq,not_true_eq_false,and_false,if_false,if_true]
      have timed : Move (some (source,.requestVote request)) offer node node.resetElectionDeadline := .retime _ _ _ _
      exact (Moves.one timed).step (.answerVote rfl (fun _ => ⟨voted,term⟩))
    · simp only [voted,ne_eq,not_false_eq_true,and_self,if_true]
      have cast : Move (some (source,.requestVote request)) offer node
          (({node with votedFor := some source}).push (.persistHardState node.currentTerm (some source))) :=
        .grant rfl voter positive term named (free.resolve_right voted) fresh
      have timed : Move (some (source,.requestVote request)) offer
          (({node with votedFor := some source}).push (.persistHardState node.currentTerm (some source)))
          (({node with votedFor := some source}).push
            (.persistHardState node.currentTerm (some source))).resetElectionDeadline := .retime _ _ _ _
      exact ((Moves.one cast).step timed).step (.answerVote rfl (fun _ => ⟨rfl,term⟩))

theorem handleRequestVoteResponse_reaches (sound : Sound node) (voter : source ∈ node.config.voters)
    (calm : node.role ≠ .follower → node.actions = []) :
    Reaches (some (source,.requestVoteResponse response)) offer node (node.handleRequestVoteResponse source response)
      (fun _ => True) := by
  unfold RaftNode.handleRequestVoteResponse
  split
  · exact .done .nil trivial
  · rename_i counted
    simp only [ne_eq,not_or,not_not] at counted
    have move : Move (some (source,.requestVoteResponse response)) offer node
        {node with votesReceived := insert source node.votesReceived} :=
      .countVote rfl voter counted.1 counted.2.1 (by simpa using counted.2.2)
    refine .following (.one move) ?_
    dsimp only
    split
    · rename_i won
      have none : node.actions = [] := calm (by rw [counted.1]; simp)
      refine (becomeLeader_reaches (move_sound sound move) counted.1 won (.inl ?_) (.calm none)).weaken (fun _ _ => trivial)
      rw [none]
      exact List.forall_mem_nil _
    · exact .done .nil trivial

theorem Quiet.append (quiet : Quiet actions) (more : Quiet others) : Quiet (actions ++ others) := by
  intro fromIndex toIndex member
  rcases List.mem_append.mp member with old | new
  · exact quiet _ _ old
  · exact more _ _ new

theorem becomeFollower_quiet (quiet : Quiet node.actions) : Quiet (node.becomeFollower term leader).actions := by
  obtain ⟨new,emitted,told⟩ := becomeFollower_tells
  rw [emitted]
  refine quiet.append fun fromIndex toIndex member => ?_
  cases told _ member

-- What following a leader of the current term leaves alone.
structure Follows (node after : RaftNode) : Prop where
  role : after.role = .follower
  term : after.currentTerm = node.currentTerm
  log : after.log = node.log
  commit : after.commitIndex = node.commitIndex
  applied : after.lastApplied = node.lastApplied
  image : after.durableSnapshot = node.durableSnapshot
  incoming : after.incomingSnapshot = node.incomingSnapshot

theorem followLeader_follows : Follows node (node.followLeader leader) := by
  unfold RaftNode.followLeader
  split
  · exact ⟨rfl,by simp [RaftNode.becomeFollower,RaftNode.pushIf,RaftNode.resetElectionDeadline],rfl,rfl,rfl,rfl,rfl⟩
  · rename_i passive
    exact ⟨not_not.mp passive,rfl,rfl,rfl,rfl,rfl,rfl⟩

theorem followLeader_moves (calm : node.role ≠ .follower → node.actions = []) (voter : leader ∈ node.config.voters) :
    Moves packet offer node (node.followLeader leader) := by
  unfold RaftNode.followLeader
  split
  · rename_i active
    exact .one (.stepDown (calm active) voter active)
  · rename_i passive
    have named : Move packet offer node {node with leaderId := some leader} := .follow voter (not_not.mp passive)
    exact (Moves.one named).step (.retime _ _ _ _)

theorem followLeader_quiet (quiet : Quiet node.actions) : Quiet (node.followLeader leader).actions := by
  unfold RaftNode.followLeader
  split
  · exact becomeFollower_quiet quiet
  · exact quiet

theorem firstConflict_ok (sound : Sound node) (reached : index ≤ node.lastLogIndex) :
    ∃ conflict, node.firstConflict localTerm index = .ok conflict ∧ conflict ≤ index ∧
      (node.baseIndex < index → node.baseIndex < conflict) := by
  induction index with
  | zero => exact ⟨0,rfl,Nat.le_refl _,id⟩
  | succ index ih =>
    unfold RaftNode.firstConflict
    split
    · rename_i inside
      obtain ⟨entry,read,-,-⟩ := sound.entryAt (show node.baseIndex ≤ index by omega) (by omega)
      obtain ⟨conflict,equal,low,high⟩ := ih (by omega)
      simp only [read,bind,Except.bind]
      split
      · exact ⟨conflict,equal,Nat.le_succ_of_le low,fun _ => high (Nat.lt_of_succ_lt_succ inside)⟩
      · exact ⟨index+1,rfl,Nat.le_refl _,id⟩
    · exact ⟨index+1,rfl,Nat.le_refl _,id⟩

-- Why an entry of a request cannot stand in the log: it contradicts something
-- committed, or another entry of the same term.
def Contradicts (node : RaftNode) (incoming : LogEntry) : Prop :=
  ∃ existing, node.log[incoming.index-node.baseIndex]? = some existing ∧
    ((existing.term ≠ incoming.term ∧ incoming.index ≤ node.commitIndex) ∨
      (existing.term = incoming.term ∧ existing ≠ incoming))

theorem scanOverlap_ok (sound : Sound node) (numbered : Numbered expected entries) (above : node.baseIndex < expected) :
    (node.scanOverlap entries = .ok .matched ∧ ∀ entry ∈ entries, Holds node entry) ∨
    (∃ before entry rest, node.scanOverlap entries = .ok (.replace entry.index (entry::rest)) ∧
      entries = before ++ entry::rest ∧ (∀ earlier ∈ before, Holds node earlier) ∧ Conflicts node entry) ∨
    ∃ hint, node.scanOverlap entries = .ok (.reject hint) ∧ ∃ incoming ∈ entries, Contradicts node incoming := by
  induction entries generalizing expected with
  | nil => exact .inl ⟨rfl,List.forall_mem_nil _⟩
  | cons incoming rest ih =>
    have index : incoming.index = expected := numbered 0 incoming rfl
    unfold RaftNode.scanOverlap
    split
    · rename_i beyond
      exact .inr (.inl ⟨[],incoming,rest,rfl,rfl,List.forall_mem_nil _,.inl beyond⟩)
    · rename_i inside
      obtain ⟨existing,read,got,-⟩ := sound.entryAt (show node.baseIndex ≤ incoming.index by omega) (Nat.not_lt.mp inside)
      simp only [read,bind,Except.bind]
      split
      · rename_i different
        split
        · rename_i committed
          exact .inr (.inr ⟨_,rfl,incoming,List.mem_cons_self,existing,got,.inl ⟨different,committed⟩⟩)
        · rename_i uncommitted
          exact .inr (.inl ⟨[],incoming,rest,rfl,rfl,List.forall_mem_nil _,
            .inr ⟨Nat.not_le.mp uncommitted,existing,got,different⟩⟩)
      · rename_i same
        split
        · rename_i different
          exact .inr (.inr ⟨_,rfl,incoming,List.mem_cons_self,existing,got,.inr ⟨not_not.mp same,different⟩⟩)
        · rename_i equal
          have equal := not_not.mp equal
          subst equal
          have holds : Holds node existing := ⟨by omega,got⟩
          rcases ih numbered.tail (by omega) with ⟨matched,held⟩ | ⟨before,entry,later,found,split,kept,conflict⟩ |
            ⟨hint,rejected,wrong,member,contradicts⟩
          · refine .inl ⟨matched,fun entry member => ?_⟩
            rcases List.mem_cons.mp member with rfl | later
            · exact holds
            · exact held entry later
          · refine .inr (.inl ⟨existing::before,entry,later,found,by rw [split]; rfl,fun earlier member => ?_,conflict⟩)
            rcases List.mem_cons.mp member with rfl | old
            · exact holds
            · exact kept earlier old
          · exact .inr (.inr ⟨hint,rejected,wrong,List.mem_cons_of_mem _ member,contradicts⟩)

theorem replace_keeps (joins : Joins node source request before entry rest) (bound : position < entry.index-node.baseIndex) :
    (node.replaceSuffix entry.index (entry::rest)).log[position]? = node.log[position]? := by
  obtain ⟨-,fits,-⟩ := before_conflict joins
  show (node.log.take (entry.index-node.baseIndex) ++ entry::rest)[position]? = _
  rw [List.getElem?_append_left (by rw [List.length_take]; omega),List.getElem?_take_of_lt bound]

theorem replace_holds (sound : Sound node) (joins : Joins node source request before entry rest) :
    Accepts (node.replaceSuffix entry.index (entry::rest)) source request ∧
      ∀ other ∈ request.entries, Holds (node.replaceSuffix entry.index (entry::rest)) other := by
  obtain ⟨low,fits,-⟩ := before_conflict joins
  obtain ⟨-,base⟩ := replace_last sound joins
  have first := joins.index
  have ⟨accepts,split,kept⟩ := joins
  obtain ⟨numbered,-,-⟩ := malformedAt_none accepts.wellFormed
  have size : (node.log.take (entry.index-node.baseIndex)).length = entry.index-node.baseIndex := by
    rw [List.length_take,Nat.min_eq_left fits]
  refine ⟨{accepts with previous := ?_},?_⟩
  · obtain ⟨lower,previous,found,same⟩ := accepts.previous
    refine ⟨base ▸ lower,previous,?_,same⟩
    rw [base,replace_keeps joins (by omega)]
    exact found
  · intro other member
    rw [split] at member
    rcases List.mem_append.mp member with earlier | later
    · have holds := kept other earlier
      obtain ⟨place,bound,equal⟩ := List.mem_iff_getElem.mp earlier
      have index : other.index = request.previousLogIndex+1+place := by
        apply numbered
        rw [split,List.getElem?_append_left bound,List.getElem?_eq_getElem bound,equal]
      refine ⟨base ▸ holds.1,?_⟩
      rw [base,replace_keeps joins (by have := holds.1; omega)]
      exact holds.2
    · obtain ⟨place,bound,equal⟩ := List.mem_iff_getElem.mp later
      have found : (entry::rest)[place]? = some other := by rw [List.getElem?_eq_getElem bound,equal]
      have index : other.index = request.previousLogIndex+1+(before.length+place) := by
        apply numbered
        rw [split,List.getElem?_append_right (Nat.le_add_right _ _),Nat.add_sub_cancel_left]
        exact found
      refine ⟨by rw [base]; omega,?_⟩
      rw [base]
      show (node.log.take (entry.index-node.baseIndex) ++ entry::rest)[other.index-node.baseIndex]? = _
      rw [List.getElem?_append_right (by omega),size]
      rw [show other.index-node.baseIndex-(entry.index-node.baseIndex) = place by omega]
      exact found

theorem finishEntries_reaches (sound : Sound node) (accepts : Accepts node source request)
    (held : ∀ entry ∈ request.entries, Holds node entry) :
    Reaches (some (source,.appendEntries request)) offer node (do
      let matchedIndex := request.previousLogIndex+request.entries.length
      let node ← node.advanceFollowerCommit (min request.leaderCommit matchedIndex)
      return node.sendAppendResponse source request true matchedIndex 0) Following := by
  unfold RaftNode.advanceFollowerCommit
  dsimp only
  split
  · exact .done (.one (.acceptEntries rfl accepts held)) accepts.follower
  · rename_i forward
    have forward := Nat.not_le.mp forward
    rw [commitThrough_ok sound forward (Nat.min_le_right _ _)]
    have learned : Move (some (source,.appendEntries request)) offer node (node.commitTo
        (min (min request.leaderCommit (request.previousLogIndex+request.entries.length)) node.lastLogIndex)) :=
      .learn rfl accepts held forward (by omega) (by omega)
    exact .done ((Moves.one learned).step (.acceptEntries rfl {accepts with} held)) accepts.follower

-- The checks of handle(AppendEntries) up to the change of the log.
def RaftNode.verdict (node : RaftNode) (source : NodeId) (request : AppendEntries) : Result Overlap :=
  if request.term = 0 ∨ request.term < node.currentTerm ∨ request.leaderId ≠ source then .ok (.reject (node.lastLogIndex+1))
  else if request.previousLogIndex < node.baseIndex then .ok (.reject (node.baseIndex+1))
  else if node.lastLogIndex < request.previousLogIndex then .ok (.reject (node.lastLogIndex+1))
  else do
    let previous ← node.entryAt request.previousLogIndex
    if previous.term ≠ request.previousLogTerm then
      let conflict ← node.firstConflict previous.term request.previousLogIndex
      return .reject conflict
    else match malformedAt request.term (request.previousLogIndex+1) request.previousLogTerm request.entries with
      | some expected => return .reject expected
      | none => node.scanOverlap request.entries

-- The rest of it, with the commit index that the request allows.
def RaftNode.conclude (node : RaftNode) (source : NodeId) (request : AppendEntries) : Overlap → Result RaftNode
  | .reject hint => .ok (node.sendAppendResponse source request false 0 hint)
  | overlap => do
    let node := match overlap with
      | .replace fromIndex entries => node.replaceSuffix fromIndex entries
      | _ => node
    let matchedIndex := request.previousLogIndex+request.entries.length
    let node ← node.advanceFollowerCommit (min request.leaderCommit matchedIndex)
    return node.sendAppendResponse source request true matchedIndex 0

-- A request that is not stale makes the node follow its sender.
def RaftNode.heeding (node : RaftNode) (source : NodeId) (request : AppendEntries) : RaftNode :=
  if request.term = 0 ∨ request.term < node.currentTerm ∨ request.leaderId ≠ source then node else node.followLeader source

theorem handleAppendEntries_verdict : node.handleAppendEntries source request =
    (node.heeding source request).verdict source request >>= (node.heeding source request).conclude source request := by
  unfold RaftNode.handleAppendEntries RaftNode.heeding RaftNode.verdict
  split
  · rfl
  · rename_i current
    have term : (node.followLeader source).currentTerm = node.currentTerm := followLeader_follows.term
    dsimp only
    rw [term,if_neg current]
    split
    · rfl
    split
    · rfl
    cases (node.followLeader source).entryAt request.previousLogIndex with
    | error => rfl
    | ok previous =>
      simp only [bind,Except.bind]
      split
      · cases (node.followLeader source).firstConflict previous.term request.previousLogIndex <;> rfl
      · cases malformedAt request.term (request.previousLogIndex+1) request.previousLogTerm request.entries with
        | some => rfl
        | none =>
          unfold RaftNode.acceptEntries
          cases (node.followLeader source).scanOverlap request.entries with
          | error => rfl
          | ok overlap => cases overlap <;> rfl

-- What the checks establish about the log.
inductive Ruled (node : RaftNode) (source : NodeId) (request : AppendEntries) : Overlap → Prop where
  | refused : Ruled node source request (.reject hint)
  | matched (accepts : Accepts node source request) (held : ∀ entry ∈ request.entries, Holds node entry) :
      Ruled node source request .matched
  | replaced (joins : Joins node source request before entry rest) (conflict : Conflicts node entry) :
      Ruled node source request (.replace entry.index (entry::rest))

theorem verdict_ruled (sound : Sound node) (bounded : request.term ≤ node.currentTerm)
    (terms : ∀ entry ∈ request.entries, 0 < entry.term)
    (follower : ¬ (request.term = 0 ∨ request.term < node.currentTerm ∨ request.leaderId ≠ source) → node.role = .follower) :
    ∃ overlap, node.verdict source request = .ok overlap ∧ Ruled node source request overlap := by
  unfold RaftNode.verdict
  split
  · exact ⟨_,rfl,.refused⟩
  rename_i current
  split
  · exact ⟨_,rfl,.refused⟩
  rename_i low
  split
  · exact ⟨_,rfl,.refused⟩
  rename_i high
  obtain ⟨previous,read,got,-⟩ := sound.entryAt (Nat.not_lt.mp low) (Nat.not_lt.mp high)
  simp only [read,bind,Except.bind]
  split
  · obtain ⟨conflict,walked,-⟩ := firstConflict_ok sound (Nat.not_lt.mp high)
    rw [walked]
    exact ⟨_,rfl,.refused⟩
  rename_i agreed
  split
  · exact ⟨_,rfl,.refused⟩
  rename_i wellFormed
  have role := follower current
  simp only [not_or,Nat.not_lt,ne_eq,not_not] at current
  have accepts : Accepts node source request := {
    positive := current.1
    term := Nat.le_antisymm bounded current.2.1
    leader := current.2.2
    follower := role
    previous := ⟨Nat.not_lt.mp low,previous,got,not_not.mp agreed⟩
    wellFormed := wellFormed
    terms := terms}
  obtain ⟨numbered,-,-⟩ := malformedAt_none wellFormed
  rcases scanOverlap_ok sound numbered (Nat.lt_succ_of_le (Nat.not_lt.mp low)) with
    ⟨found,held⟩ | ⟨before,entry,rest,found,split,kept,conflict⟩ | ⟨hint,found,-⟩
  · exact ⟨_,found,.matched accepts held⟩
  · exact ⟨_,found,.replaced ⟨accepts,split,kept⟩ conflict⟩
  · exact ⟨_,found,.refused⟩

theorem conclude_reaches (sound : Sound node) (follower : Following node) (ruled : Ruled node source request overlap) :
    Reaches (some (source,.appendEntries request)) offer node (node.conclude source request overlap) Following := by
  cases ruled with
  | refused => exact .done (.one (.refuseEntries rfl _)) follower
  | matched accepts held => exact finishEntries_reaches sound accepts held
  | replaced joins conflict =>
    have replaced : Move (some (source,.appendEntries request)) offer node _ := .replace rfl joins conflict
    obtain ⟨accepts',held⟩ := replace_holds sound joins
    exact .following (.one replaced) (finishEntries_reaches (move_sound sound replaced) accepts' held)

theorem handleAppendEntries_reaches (sound : Sound node) (calm : node.role ≠ .follower → node.actions = []) (voter : source ∈ node.config.voters)
    (terms : ∀ entry ∈ request.entries, 0 < entry.term) (bounded : request.term ≤ node.currentTerm) :
    Reaches (some (source,.appendEntries request)) offer node (node.handleAppendEntries source request) (fun after =>
      after = node.sendAppendResponse source request false 0 (node.lastLogIndex+1) ∨ Following after) := by
  by_cases stale : request.term = 0 ∨ request.term < node.currentTerm ∨ request.leaderId ≠ source
  · unfold RaftNode.handleAppendEntries
    rw [if_pos stale]
    exact .done (.one (.refuseEntries rfl _)) (.inl rfl)
  · have moved : Moves (some (source,.appendEntries request)) offer node (node.followLeader source) := followLeader_moves calm voter
    have follows : Follows node (node.followLeader source) := followLeader_follows
    have sound' := moves_sound sound moved
    obtain ⟨overlap,judged,ruled⟩ : ∃ overlap, (node.followLeader source).verdict source request = .ok overlap ∧ _ :=
      verdict_ruled sound' (follows.term ▸ bounded) terms fun _ => follows.role
    have heeded : node.heeding source request = node.followLeader source := if_neg stale
    rw [handleAppendEntries_verdict,heeded,judged]
    exact .following moved ((conclude_reaches sound' follows.role ruled).weaken fun _ => .inr)

def acknowledged (stored : PeerProgress) (rpc : RpcRange) (matchIndex : Nat) : PeerProgress :=
  {stored with
    recentRpcs := stored.recentRpcs.erase rpc
    matchIndex := max stored.matchIndex (min matchIndex rpc.lastIndex)
    nextIndex := max stored.matchIndex (min matchIndex rpc.lastIndex)+1}

theorem acknowledged_ok (ok : ProgressOk lastIndex snapshot nextRpcId stored) (tracked : rpc ∈ stored.recentRpcs) (matchIndex : Nat) :
    ProgressOk lastIndex snapshot nextRpcId (acknowledged stored rpc matchIndex) := by
  have matched := ok.matched
  have next := ok.next
  have range := ok.ranges rpc tracked
  exact {ok with
    matched := Nat.lt_succ_self _
    next := by simp only [acknowledged]; omega
    tracked := Nat.le_trans (List.length_erase_le ..) ok.tracked
    ranges := fun other member => ok.ranges other (List.mem_of_mem_erase member)}

theorem acknowledge_reaches (sound : Sound node) (leads : Leading node) (voter : source ∈ node.config.voters)
    (other : source ≠ node.config.selfId) (term : response.term = node.currentTerm) (success : response.success = true)
    (found : get? node.peerProgress source = some stored) (tracked : rpc ∈ stored.recentRpcs) :
    Reaches (some (source,.appendEntriesResponse response)) offer node
      (node.acknowledge source stored rpc response.matchIndex) (fun _ => True) := by
  have reported : (acknowledged stored rpc response.matchIndex).matchIndex = stored.matchIndex ∨
      (acknowledged stored rpc response.matchIndex).matchIndex ≤ response.matchIndex := by
    simp only [acknowledged]
    omega
  have counted : Move (some (source,.appendEntriesResponse response)) offer node
      (node.setProgress source (acknowledged stored rpc response.matchIndex)) :=
    .matchLog rfl ⟨leads,term,success,found,reported,acknowledged_ok (sound.progress_get found) tracked _⟩
  have sound' := move_sound sound counted
  obtain ⟨advanced,after,equal,moves,leads',-⟩ :=
    advanceLeaderCommit_ok (some (source,.appendEntriesResponse response)) offer sound' leads
  have sound'' := moves_sound sound' moves
  have config : after.config = (node.setProgress source (acknowledged stored rpc response.matchIndex)).config := moves_config moves
  refine Reaches.following ((Moves.one counted).trans moves) ?_
  unfold RaftNode.acknowledge
  simp only [acknowledged] at equal
  simp only [equal,bind,Except.bind]
  split
  · exact (broadcast_reaches sound'' leads').weaken (fun _ _ => trivial)
  · split
    · refine (sendAppendEntries_reaches sound'' leads' ?_ ?_).weaken (fun _ _ => trivial)
      · rw [config]; exact voter
      · rw [config]; exact other
    · exact .done .nil trivial

theorem adjustAndSend_reaches (sound : Sound node) (voter : peer ∈ node.config.voters) (other : peer ≠ node.config.selfId)
    (tracks : Tracks node peer stored progress) :
    Reaches packet offer node ((node.setProgress peer progress).sendAppendEntries peer) (fun _ => True) := by
  have adjusted : Move packet offer node (node.setProgress peer progress) := .adjust tracks
  refine .following (.one adjusted) ?_
  exact (sendAppendEntries_reaches (move_sound sound adjusted) tracks.leads voter other).weaken (fun _ _ => trivial)

theorem handleAppendEntriesResponse_reaches (sound : Sound node) (voter : source ∈ node.config.voters)
    (other : source ≠ node.config.selfId) :
    Reaches (some (source,.appendEntriesResponse response)) offer node (node.handleAppendEntriesResponse source response)
      (fun _ => True) := by
  unfold RaftNode.handleAppendEntriesResponse
  split
  · exact .done .nil trivial
  · rename_i current
    simp only [ne_eq,not_or,not_not] at current
    cases found : get? node.peerProgress source with
    | none => exact .done .nil trivial
    | some stored =>
      simp only
      cases sent : stored.recentRpcs.find? (fun rpc => rpc.rpcId = response.rpcId) with
      | none => exact .done .nil trivial
      | some =>
        have tracked := List.mem_of_find?_eq_some sent
        simp only
        split
        · rename_i success
          exact acknowledge_reaches sound current.1 voter other current.2 success found tracked
        · split
          · exact .done .nil trivial
          · have ok := sound.progress_get found
            have matched := ok.matched
            have next := ok.next
            refine adjustAndSend_reaches sound voter other ⟨current.1,found,rfl,?_⟩
            refine {ok with matched := ?_,next := ?_,tracked := ?_,ranges := ?_}
            · simp only; omega
            · simp only
              split
              · split <;> omega
              · omega
            · exact Nat.le_trans (List.length_erase_le ..) ok.tracked
            · exact fun other member => ok.ranges other (List.mem_of_mem_erase member)

theorem hasAt_of_get (got : node.log[index-node.baseIndex]? = some entry) (low : node.baseIndex ≤ index) :
    HasAt node index term ↔ entry.term = term := by
  constructor
  · rintro ⟨-,other,found,same⟩
    rw [got] at found
    cases found
    exact same
  · exact fun same => ⟨low,entry,got,same⟩

theorem installImage_ok (sound : Sound node) (forward : node.commitIndex < image.lastIncludedIndex) :
    ∃ rest, node.installImage image = .ok (node.adoptImage image rest) ∧ Suffix node image rest := by
  have low : node.baseIndex ≤ image.lastIncludedIndex := Nat.le_trans sound.retained (Nat.le_of_lt forward)
  unfold RaftNode.installImage
  split
  · rename_i inside
    obtain ⟨entry,read,got,-⟩ := sound.entryAt low inside.1
    simp only [read,bind,Except.bind]
    by_cases same : entry.term = image.lastIncludedTerm
    · rw [if_pos same]
      exact ⟨_,rfl,.inl ⟨(hasAt_of_get got low).mpr same,rfl⟩⟩
    · rw [if_neg same]
      exact ⟨_,rfl,.inr ⟨fun has => same ((hasAt_of_get got low).mp has),rfl⟩⟩
  · rename_i outside
    refine ⟨_,rfl,.inr ⟨?_,rfl⟩⟩
    rintro ⟨-,entry,got,-⟩
    have bound := (List.getElem?_eq_some_iff.mp got).1
    have last := sound.last
    omega

-- The assembly that a chunk is added to. A chunk at the front starts a new one.
def Gathers (node : RaftNode) (source : NodeId) (chunk : InstallSnapshot) (incoming : IncomingSnapshot) : Prop :=
  (chunk.offset = 0 ∧ incoming = IncomingSnapshot.start source chunk) ∨
  (chunk.offset ≠ 0 ∧ node.incomingSnapshot = some incoming ∧ IncomingSnapshot.accepts incoming source chunk = true)

theorem gathers_size (gathers : Gathers node source chunk incoming) : incoming.bytes.length = chunk.offset := by
  rcases gathers with ⟨first,rfl⟩ | ⟨-,-,accepted⟩
  · rw [first]
    rfl
  · simp only [IncomingSnapshot.accepts,decide_eq_true_eq] at accepted
    exact accepted.2.2.2.2

theorem Gathers.begins (gathers : Gathers node source request incoming) :
    Moves (some (source,.installSnapshot request)) offer node {node with incomingSnapshot := some incoming} ∧
      IncomingSnapshot.accepts incoming source request = true := by
  rcases gathers with ⟨first,rfl⟩ | ⟨-,found,accepted⟩
  · exact ⟨.one (.begin rfl first),by simp [IncomingSnapshot.accepts,IncomingSnapshot.start,first]⟩
  · rw [← found]
    exact ⟨.nil,accepted⟩

-- What a chunk of a new image makes of the node, before the answer with this result and offset.
inductive Assembled (node : RaftNode) (source : NodeId) (request : InstallSnapshot) : RaftNode → Bool → Nat → Prop where
  | absent (later : request.offset ≠ 0) (empty : node.incomingSnapshot = none) : Assembled node source request node false 0
  | misplaced (later : request.offset ≠ 0) (found : node.incomingSnapshot = some incoming)
      (refused : IncomingSnapshot.accepts incoming source request = false) :
      Assembled node source request node false incoming.bytes.length
  | stored (gathers : Gathers node source request incoming) (unfinished : request.done = false) :
      Assembled node source request {node with incomingSnapshot := some {incoming with bytes := incoming.bytes ++ request.data}} true
        (incoming.bytes ++ request.data).length
  | installed (gathers : Gathers node source request incoming) (done : request.done = true)
      (suffix : Suffix node ⟨request.lastIncludedIndex,request.lastIncludedTerm,incoming.bytes ++ request.data⟩ rest) :
      Assembled node source request (({node with incomingSnapshot := none}).adoptImage
        ⟨request.lastIncludedIndex,request.lastIncludedTerm,incoming.bytes ++ request.data⟩ rest) true request.totalSize

theorem assembleChunk_cases (source : NodeId) (sound : Sound node) (forward : node.commitIndex < request.lastIncludedIndex) :
    ∃ after success nextOffset, node.assembleChunk source request =
        .ok (after.sendSnapshotResponse source request success nextOffset) ∧
      Assembled node source request after success nextOffset := by
  have ends : ∀ {incoming} (_ : Gathers node source request incoming), ∃ after success nextOffset, (if ¬ request.done then
        Except.ok (({node with incomingSnapshot := some {incoming with bytes := incoming.bytes ++ request.data}}).sendSnapshotResponse
          source request true (incoming.bytes ++ request.data).length)
      else do
        let node ← ({node with incomingSnapshot := none}).installImage
          ⟨request.lastIncludedIndex,request.lastIncludedTerm,incoming.bytes ++ request.data⟩
        return node.sendSnapshotResponse source request true request.totalSize) =
      .ok (after.sendSnapshotResponse source request success nextOffset) ∧
      Assembled node source request after success nextOffset := by
    intro incoming gathers
    cases done : request.done with
    | false => exact ⟨_,_,_,rfl,.stored gathers done⟩
    | true =>
      have emptied : Sound {node with incomingSnapshot := none} := {sound with}
      have ahead : node.commitIndex < (StateMachineSnapshot.mk request.lastIncludedIndex request.lastIncludedTerm
          (incoming.bytes ++ request.data)).lastIncludedIndex := forward
      obtain ⟨rest,ran,suffix⟩ := installImage_ok emptied ahead
      rw [ran]
      exact ⟨_,_,_,rfl,.installed gathers done suffix⟩
  unfold RaftNode.assembleChunk
  by_cases first : request.offset = 0
  · have accepted : IncomingSnapshot.accepts (IncomingSnapshot.start source request) source request = true := by
      simp [IncomingSnapshot.accepts,IncomingSnapshot.start,first]
    simp only [first,if_true,accepted,not_true_eq_false,if_false]
    exact ends (.inl ⟨first,rfl⟩)
  · simp only [first,if_false]
    cases found : node.incomingSnapshot with
    | none => exact ⟨_,_,_,rfl,.absent first found⟩
    | some incoming =>
      cases accepted : IncomingSnapshot.accepts incoming source request with
      | false =>
        simp only [accepted,Bool.false_eq_true,not_false_eq_true,if_true]
        exact ⟨_,_,_,rfl,.misplaced first found accepted⟩
      | true =>
        simp only [accepted,not_true_eq_false,if_false]
        exact ends (.inr ⟨first,found,accepted⟩)

structure ChunkOk (node : RaftNode) (source : NodeId) (request : InstallSnapshot) : Prop where
  term : node.currentTerm ≤ request.term
  leader : request.leaderId = source
  index : request.lastIncludedIndex ≠ 0
  positive : 0 < request.lastIncludedTerm
  bounded : request.lastIncludedTerm ≤ request.term
  size : request.totalSize ≤ maximumSnapshotSize
  done : request.done = decide (request.offset+request.data.length = request.totalSize)

theorem validChunk_ok (valid : node.validChunk source request = true) : ChunkOk node source request := by
  simp only [RaftNode.validChunk,decide_eq_true_eq,not_or] at valid
  obtain ⟨-,term,leader,-,index,-,positive,bounded,size,-,-,done⟩ := valid
  exact ⟨Nat.not_lt.mp term,not_not.mp leader,index,Nat.pos_of_ne_zero positive,Nat.not_lt.mp bounded,Nat.not_lt.mp size,not_not.mp done⟩

theorem assembleChunk_reaches (sound : Sound node) (valid : ChunkOk node source request)
    (term : request.term = node.currentTerm) (follower : node.role = .follower) (quiet : Quiet node.actions)
    (forward : node.commitIndex < request.lastIncludedIndex) :
    Reaches (some (source,.installSnapshot request)) offer node (node.assembleChunk source request) Following := by
  obtain ⟨after,success,nextOffset,ran,assembled⟩ := assembleChunk_cases source sound forward
  rw [ran]
  cases assembled with
  | absent | misplaced => exact .done (.one (.refuseChunk rfl _)) follower
  | stored gathers unfinished =>
    obtain ⟨begun,accepted⟩ := gathers.begins
    refine .done ((begun.step (.gather rfl ⟨rfl,accepted⟩)).step (.acceptChunk rfl term valid.leader fun whole => ?_)) follower
    rw [valid.done,decide_eq_false_iff_not] at unfinished
    rw [List.length_append,gathers_size gathers] at whole
    exact absurd whole unfinished
  | @installed incoming rest gathers done suffix =>
    obtain ⟨begun,accepted⟩ := gathers.begins
    rw [valid.done,decide_eq_true_eq] at done
    have installs : Installs {node with incomingSnapshot := some incoming} source request incoming _ rest :=
      ⟨term,valid.leader,follower,quiet,⟨rfl,accepted⟩,done,valid.size,rfl,rfl,rfl,valid.positive,term ▸ valid.bounded,forward,suffix⟩
    refine .done (((begun.step (.install rfl installs)).step .discard).step (.acceptChunk rfl term valid.leader fun _ => ?_)) follower
    exact Nat.le_of_eq (adoptImage_sound (moves_sound sound begun) installs).2.symm

theorem handleInstallSnapshot_reaches (sound : Sound node) (calm : node.role ≠ .follower → node.actions = [])
    (voter : source ∈ node.config.voters) (quiet : Quiet node.actions) (bounded : request.term ≤ node.currentTerm) :
    Reaches (some (source,.installSnapshot request)) offer node (node.handleInstallSnapshot source request) (fun after =>
      after = node.sendSnapshotResponse source request false 0 ∨ Following after) := by
  unfold RaftNode.handleInstallSnapshot
  split
  · exact .done (.one (.refuseChunk rfl _)) (.inl rfl)
  · rename_i checked
    have valid := validChunk_ok (not_not.mp checked)
    have moved : Moves (some (source,.installSnapshot request)) offer node (node.followLeader source) := followLeader_moves calm voter
    have follows : Follows node (node.followLeader source) := followLeader_follows
    have sound' := moves_sound sound moved
    have term : request.term = (node.followLeader source).currentTerm := by
      rw [follows.term]
      exact Nat.le_antisymm bounded valid.term
    have applied := sound'.applied
    refine .following moved ?_
    dsimp only
    split
    · rename_i old
      exact .done (.one (.acceptChunk rfl term valid.leader fun _ => applied ▸ old)) (.inr follows.role)
    · rename_i new
      refine (assembleChunk_reaches sound' {valid with term := Nat.le_of_eq term.symm} term follows.role
        (followLeader_quiet quiet) ?_).weaken fun _ => .inr
      omega

theorem continueTransfer_reaches (sound : Sound node) (leads : Leading node) (voter : source ∈ node.config.voters)
    (other : source ≠ node.config.selfId) (term : response.term = node.currentTerm)
    (found : get? node.peerProgress source = some stored) (durable : node.durableSnapshot = some image) :
    Reaches (some (source,.installSnapshotResponse response)) offer node (node.continueTransfer source response stored image)
      (fun _ => True) := by
  have ok := sound.progress_get found
  have matched := ok.matched
  have next := ok.next
  unfold RaftNode.continueTransfer
  split
  · exact .done .nil trivial
  rename_i aligned
  simp only [ne_eq,not_or,not_not] at aligned
  cases sent : stored.recentSnapshotRpcs.find? (fun sent => sent.rpcId = response.rpcId ∧
      sent.snapshotIndex = response.lastIncludedIndex) with
  | none => exact .done .nil trivial
  | some rpc =>
    obtain ⟨-,-,-,-,state,same,fits⟩ := ok.chunks rpc (List.mem_of_find?_eq_some sent)
    rw [durable] at same
    cases same
    -- Any offset within the image may be recorded as the next one.
    have resume : ∀ {offset}, offset ≤ image.stateMachine.length → Reaches (some (source,.installSnapshotResponse response)) offer node
        ((node.setProgress source {stored with
          recentSnapshotRpcs := stored.recentSnapshotRpcs.erase rpc,snapshotOffset := offset}).sendAppendEntries source)
        (fun _ => True) := by
      intro offset inside
      refine adjustAndSend_reaches sound voter other ⟨leads,found,rfl,{ok with image := ?_,trackedChunks := ?_,chunks := ?_}⟩
      · exact fun _ => ⟨image,durable,aligned.2,inside⟩
      · exact Nat.le_trans (List.length_erase_le ..) ok.trackedChunks
      · exact fun other member => ok.chunks other (List.mem_of_mem_erase member)
    simp only
    split
    · split
      · exact .done .nil trivial
      · rename_i newest
        simp only [ne_eq,not_or,not_not,Nat.not_lt] at newest
        exact resume (Nat.le_trans newest.2 fits)
    rename_i success
    split
    · exact .done .nil trivial
    rename_i stop
    split
    · exact .done .nil trivial
    split
    · exact .done .nil trivial
    split
    · exact resume fits
    · rename_i whole
      have base : image.lastIncludedIndex = node.baseIndex := by
        rw [sound.base,durable]
        rfl
      have bounds := sound.base_le_last
      let progress : PeerProgress := {stored with
        matchIndex := max stored.matchIndex image.lastIncludedIndex
        nextIndex := max stored.matchIndex image.lastIncludedIndex+1
        snapshotOffset := 0
        snapshotIndex := 0
        recentSnapshotRpcs := []
        recentRpcs := []}
      have fine : ProgressOk node.lastLogIndex node.durableSnapshot node.nextRpcId progress :=
        {ok with
          matched := Nat.lt_succ_self _
          next := by simp only [progress]; omega
          tracked := Nat.zero_le _
          ranges := List.forall_mem_nil _
          image := fun wrong => absurd rfl wrong
          trackedChunks := Nat.zero_le _
          chunks := List.forall_mem_nil _}
      have counted : Move (some (source,.installSnapshotResponse response)) offer node (node.setProgress source progress) := by
        refine .matchImage rfl ⟨leads,term,by simpa using success,durable,aligned.1,?_,found,?_,fine⟩
        · rw [not_not.mp stop]
          omega
        · simp only [progress]
          omega
      refine .following (.one counted) ?_
      exact (sendAppendEntries_reaches (move_sound sound counted) leads voter other).weaken (fun _ _ => trivial)

theorem handleInstallSnapshotResponse_reaches (sound : Sound node) (voter : source ∈ node.config.voters)
    (other : source ≠ node.config.selfId) :
    Reaches (some (source,.installSnapshotResponse response)) offer node (node.handleInstallSnapshotResponse source response)
      (fun _ => True) := by
  unfold RaftNode.handleInstallSnapshotResponse
  split
  · exact .done .nil trivial
  · rename_i current
    simp only [ne_eq,not_or,not_not] at current
    split
    · rename_i found durable
      exact continueTransfer_reaches sound current.1 voter other current.2 found durable
    · exact .done .nil trivial

-- decode_peer_frame lets no entry of term zero through.
def Message.Positive : Message → Prop
  | .appendEntries request => ∀ entry ∈ request.entries, 0 < entry.term
  | _ => True

theorem handle_reaches (sound : Sound node) (voter : source ∈ node.config.voters) (other : source ≠ node.config.selfId)
    (quiet : Quiet node.actions) (calm : node.role ≠ .follower → node.actions = [])
    (positive : message.Positive) (bounded : message.term ≤ node.currentTerm) :
    Reaches (some (source,message)) offer node (node.handle source message) (fun _ => True) := by
  cases message with
  | requestVote => exact .done (handleRequestVote_moves voter) trivial
  | requestVoteResponse => exact handleRequestVoteResponse_reaches sound voter calm
  | appendEntries => exact (handleAppendEntries_reaches sound calm voter positive bounded).weaken fun _ _ => trivial
  | appendEntriesResponse => exact handleAppendEntriesResponse_reaches sound voter other
  | installSnapshot => exact (handleInstallSnapshot_reaches sound calm voter quiet bounded).weaken fun _ _ => trivial
  | installSnapshotResponse => exact handleInstallSnapshotResponse_reaches sound voter other

theorem incomingLeader_source (named : RaftNode.incomingLeader source message = some leader) : leader = source := by
  unfold RaftNode.incomingLeader at named
  split at named
  · split at named <;> cases named
    rfl
  · split at named <;> cases named
    rfl
  · cases named

theorem receive_reaches (sound : Sound node) (calm : node.actions = []) (positive : message.Positive) :
    Reaches (some (source,message)) offer node (node.receive source message) (fun _ => True) := by
  have quiet : Quiet node.actions := by
    rw [calm]
    intro fromIndex toIndex member
    cases member
  unfold RaftNode.receive
  split
  · exact .done .nil trivial
  rename_i accepted
  simp only [not_or,not_not] at accepted
  have voter : source ∈ node.config.voters := by simpa [RaftNode.isVoter] using accepted.2
  split
  · rename_i higher
    have raised : Move (some (source,message)) offer node
        (node.becomeFollower message.term (RaftNode.incomingLeader source message)) := by
      refine .raise rfl calm higher fun known named => ?_
      rw [incomingLeader_source named]
      exact voter
    refine .following (.one raised) ?_
    refine handle_reaches (move_sound sound raised) voter accepted.1 (becomeFollower_quiet quiet) ?_ positive ?_
    · exact fun active => absurd rfl active
    · simp [RaftNode.becomeFollower,RaftNode.pushIf,RaftNode.resetElectionDeadline,higher]
  · rename_i current
    exact handle_reaches sound voter accepted.1 quiet (fun _ => calm) positive (Nat.not_lt.mp current)

end pieces

-- The public calls of a node.
inductive Input where
  | advanceTime (now : Nat)
  | step (source : NodeId) (message : Message)
  | propose (command : Bytes)
  | readBarrier
  | compact (snapshot : StateMachineSnapshot)

def Input.packet : Input → Option (NodeId × Message)
  | .step source message => some (source,message)
  | _ => none

def Input.offer : Input → Option Offer
  | .propose command => some (.command command)
  | .compact snapshot => some (.image snapshot)
  | _ => none

def Input.Positive : Input → Prop
  | .step _ message => message.Positive
  | _ => True

def RaftNode.call (node : RaftNode) : Input → Result (RaftNode × Actions)
  | .advanceTime now => node.advanceTime now
  | .step source message => node.step source message
  | .propose command => node.propose command
  | .readBarrier => node.readBarrier
  | .compact snapshot => node.compact snapshot

-- A call that is known to return.
def RaftNode.returns (node : RaftNode) (input : Input) : RaftNode × Actions :=
  (node.call input).toOption.getD (node,[])

variable {node : RaftNode} {image : StateMachineSnapshot}

-- How a call ends: with its pieces done, or with one of the three exceptions
-- and nothing but the clock and the action list touched.
inductive Ends (node : RaftNode) (input : Input) : Result (RaftNode × Actions) → Prop where
  | returned (moves : Moves input.packet input.offer node.clearActions final) :
      Ends node input (.ok (final.clearActions,final.actions))
  | backward (late : input = .advanceTime now) (earlier : now < node.now) :
      Ends node input (.error ⟨.invalidArgument "Raft logical time cannot move backward",node⟩)
  | exhausted (timer : input = .advanceTime now) (full : node.currentTerm = maxU64) :
      Ends node input (.error ⟨.overflowError "Raft term space exhausted",({node with now := now}).clearActions⟩)
  | refused (asked : input = .compact snapshot) :
      Ends node input (.error ⟨.invalidArgument "snapshot does not match an applied log prefix",node.clearActions⟩)

section
variable (sound : Sound node)
include sound

theorem clear_sound : Sound node.clearActions := {sound with}

theorem finish_ok : node.finish = .ok (node.clearActions,node.actions) := by
  unfold RaftNode.finish RaftNode.verifyInvariants
  rw [checkInvariants_ok sound]
  rfl

theorem ends_of_reaches (reaches : Reaches input.packet input.offer node.clearActions result post) :
    Ends node input (result >>= RaftNode.finish) := by
  obtain ⟨final,rfl,moves,-⟩ := reaches
  show Ends node input final.finish
  rw [finish_ok (moves_sound (clear_sound sound) moves)]
  exact .returned moves

theorem tick_reaches (calm : node.actions = [])
    (room : node.role ≠ .leader → node.electionDeadline ≤ now → node.currentTerm ≠ maxU64) :
    Reaches none offer node (node.tick now) (fun _ => True) := by
  unfold RaftNode.tick
  split
  · rename_i due
    exact startElection_reaches sound calm due.1 (room due.1 due.2)
  · split
    · rename_i due
      exact (broadcast_reaches sound due.1).bind fun after moves leads => .done (.one (.retime _ _ _ _)) trivial
    · exact .done .nil trivial

theorem advanceTime_ends : Ends node (.advanceTime now) (node.advanceTime now) := by
  unfold RaftNode.advanceTime
  split
  · rename_i earlier
    exact .backward rfl earlier
  have ticked : Move none none node.clearActions ({node with now := now}).clearActions := .retime _ _ _ _
  have sound' : Sound ({node with now := now}).clearActions := move_sound (clear_sound sound) ticked
  by_cases fails : node.role ≠ .leader ∧ node.electionDeadline ≤ now ∧ node.currentTerm = maxU64
  · have thrown : RaftNode.tick ({node with now := now}).clearActions now =
        .error ⟨.overflowError "Raft term space exhausted",({node with now := now}).clearActions⟩ := by
      refine (if_pos ⟨fails.1,fails.2.1⟩).trans ?_
      exact if_pos fails.2.2
    rw [thrown]
    exact .exhausted rfl fails.2.2
  · exact ends_of_reaches sound (.following (.one ticked)
      (tick_reaches sound' rfl (fun other due full => fails ⟨other,due,full⟩)))

theorem appendAsLeader_reaches (content : Content offer kind command) (first : Unlogged node.actions) :
    Reaches packet offer node (node.appendAsLeader kind command) (fun _ => True) := by
  unfold RaftNode.appendAsLeader
  split
  · exact .done (.one .refuse) trivial
  · rename_i leads
    exact (appendAndReplicate_reaches sound (not_not.mp leads) content first).weaken (fun _ _ => trivial)

theorem compact_ends : Ends node (.compact image) (node.compact image) := by
  have sound' := clear_sound sound
  unfold RaftNode.compact
  dsimp only
  split
  · exact .refused rfl
  have applied := sound'.applied
  have reached := sound'.reached
  obtain ⟨boundary,read,got,-⟩ := sound'.entryAt (show node.clearActions.baseIndex ≤ image.lastIncludedIndex by omega) (by omega)
  simp only [read,bind,Except.bind]
  by_cases different : boundary.term ≠ image.lastIncludedTerm
  · rw [if_pos different]
    exact .refused rfl
  · rw [if_neg different]
    have cut : Move none (some (.image image)) node.clearActions (node.clearActions.cutLog image) := by
      exact .compact rfl rfl rfl (by omega) (by omega) ⟨by omega,boundary,got,not_not.mp different⟩
    rw [finish_ok (move_sound sound' cut)]
    exact .returned (.one cut)

-- No call ends in any other way: verify_invariants never fires and entry_at never throws.
theorem call_ends (positive : input.Positive) :
    Ends node input (node.call input) := by
  cases input with
  | advanceTime => exact advanceTime_ends sound
  | step =>
    exact ends_of_reaches sound (receive_reaches (clear_sound sound) rfl positive)
  | propose => exact ends_of_reaches sound (appendAsLeader_reaches (clear_sound sound) (.inr ⟨rfl,rfl⟩) (.calm rfl))
  | readBarrier => exact ends_of_reaches sound (appendAsLeader_reaches (clear_sound sound) (.inl ⟨rfl,rfl⟩) (.calm rfl))
  | compact => exact compact_ends sound

end

end ForgeKv.Raft
