import ForgeKv.Raft.Resend
import ForgeKv.Raft.Reply

namespace ForgeKv.Raft
open Assoc

variable {node after leader : RaftNode} {progress : PeerProgress} {snapshot : StateMachineSnapshot} {chunk : InstallSnapshot}

-- The chunk of an image from an offset on, as its sender builds it.
def chunkAt (node : RaftNode) (snapshot : StateMachineSnapshot) (offset rpcId : Nat) : InstallSnapshot where
  term := node.currentTerm
  leaderId := node.config.selfId
  lastIncludedIndex := snapshot.lastIncludedIndex
  lastIncludedTerm := snapshot.lastIncludedTerm
  totalSize := snapshot.stateMachine.length
  offset := offset
  data := (snapshot.stateMachine.drop offset).take (min (snapshot.stateMachine.length-offset) snapshotChunkSize)
  done := min (snapshot.stateMachine.length-offset) snapshotChunkSize == snapshot.stateMachine.length-offset
  rpcId := rpcId

theorem chunkAt_size : (chunkAt node snapshot offset rpcId).data.length =
    min (snapshot.stateMachine.length-offset) snapshotChunkSize := by
  simp only [chunkAt,List.length_take,List.length_drop]
  omega

theorem chunkAt_done (inside : offset ≤ snapshot.stateMachine.length) : (chunkAt node snapshot offset rpcId).done =
    decide (offset+(chunkAt node snapshot offset rpcId).data.length = snapshot.stateMachine.length) := by
  rw [chunkAt_size]
  unfold chunkAt
  by_cases whole : min (snapshot.stateMachine.length-offset) snapshotChunkSize = snapshot.stateMachine.length-offset
  · simp only [whole,beq_self_eq_true,true_eq_decide_iff]
    omega
  · simp only [beq_eq_false_iff_ne.mpr whole,false_eq_decide_iff]
    omega

-- The newest request to a peer is a chunk of the leader's durable snapshot.
structure NewestChunk (node : RaftNode) (peer : NodeId) (chunk : InstallSnapshot) (progress : PeerProgress)
    (snapshot : StateMachineSnapshot) : Prop where
  found : get? node.peerProgress peer = some progress
  image : node.durableSnapshot = some snapshot
  low : progress.nextIndex ≤ node.baseIndex
  transfer : progress.snapshotIndex = snapshot.lastIncludedIndex
  offset : progress.snapshotOffset = chunk.offset
  inside : chunk.offset ≤ snapshot.stateMachine.length
  rpc : chunk.rpcId = progress.newestRpcId
  positive : chunk.rpcId ≠ 0
  tracked : progress.recentSnapshotRpcs.find? (fun sent => sent.rpcId = chunk.rpcId ∧
    sent.snapshotIndex = snapshot.lastIncludedIndex) =
      some ⟨chunk.rpcId,snapshot.lastIncludedIndex,chunk.offset,chunk.offset+chunk.data.length⟩
  shape : chunk = chunkAt node snapshot chunk.offset chunk.rpcId

theorem NewestChunk.clear (newest : NewestChunk node peer chunk progress snapshot) :
    NewestChunk node.clearActions peer chunk progress snapshot :=
  {newest with}

theorem align_next : (RaftNode.PeerProgress.alignSnapshot progress snapshot).nextIndex = progress.nextIndex := by
  unfold RaftNode.PeerProgress.alignSnapshot
  split <;> rfl

section
variable (sound : Sound node) (found : get? node.peerProgress peer = some progress) (image : node.durableSnapshot = some snapshot) (low : progress.nextIndex ≤ node.baseIndex)
include sound found image low

theorem sendSnapshotChunk_newest :
    ∃ chunk current, lastMessageTo peer (node.sendSnapshotChunk peer progress snapshot).actions = some (.installSnapshot chunk) ∧
      NewestChunk (node.sendSnapshotChunk peer progress snapshot) peer chunk current snapshot ∧
      chunk = chunkAt node snapshot (RaftNode.PeerProgress.alignSnapshot progress snapshot).snapshotOffset node.nextRpcId ∧
      current.matchIndex = progress.matchIndex := by
  have ok := align_ok (sound.progress_get found) image
  obtain ⟨transfer,inside⟩ := @align_index progress snapshot
  refine ⟨_,_,lastMessageTo_push _ _,⟨get?_set_self found,image,?_,transfer,rfl,inside,rfl,?_,?_,rfl⟩,rfl,align_match⟩
  · exact Nat.le_trans (Nat.le_of_eq align_next) low
  · exact Nat.ne_of_gt sound.rpcs
  · have fresh : ∀ sent ∈ (RaftNode.PeerProgress.alignSnapshot progress snapshot).recentSnapshotRpcs, sent.rpcId ≠ node.nextRpcId := by
      intro sent member
      have := (ok.chunks sent member).2.1
      have := ok.issued
      omega
    show _ = some (SnapshotRpcRange.mk _ _ _ (_+(chunkAt node snapshot _ _).data.length))
    rw [chunkAt_size]
    exact find_track (fun sent member => by simpa using fun same => absurd same (fresh sent member)) (by simp)

theorem sendAppendEntries_chunk :
    ∃ chunk current after, node.sendAppendEntries peer = .ok after ∧ Frame node after ∧
      lastMessageTo peer after.actions = some (.installSnapshot chunk) ∧ NewestChunk after peer chunk current snapshot ∧
      chunk = chunkAt node snapshot (RaftNode.PeerProgress.alignSnapshot progress snapshot).snapshotOffset node.nextRpcId ∧
      current.matchIndex = progress.matchIndex := by
  have next := (sound.progress_get found).next
  have capped : min progress.nextIndex (node.lastLogIndex+1) = progress.nextIndex := Nat.min_eq_left next
  have sent : node.sendAppendEntries peer = .ok (node.sendSnapshotChunk peer progress snapshot) := by
    unfold RaftNode.sendAppendEntries
    simp only [found,image,capped,if_pos low]
  obtain ⟨chunk,current,message,newest,shape,same⟩ := sendSnapshotChunk_newest sound found image low
  exact ⟨chunk,current,_,sent,⟨rfl,rfl,rfl,rfl,rfl,Nat.le_refl _⟩,message,newest,shape,same⟩

end

-- The answer of a follower to the newest chunk.
def answerTo (chunk : InstallSnapshot) (success : Bool) (nextOffset : Nat) : InstallSnapshotResponse :=
  ⟨chunk.term,success,chunk.lastIncludedIndex,nextOffset,chunk.rpcId⟩

structure Resumes (leader : RaftNode) (peer : NodeId) (snapshot : StateMachineSnapshot) (offset : Nat) (after : RaftNode)
    (sent : Actions) : Prop where
  sound : Sound after
  frame : Frame leader after
  resent : ∃ chunk progress, lastMessageTo peer sent = some (.installSnapshot chunk) ∧
    NewestChunk after peer chunk progress snapshot ∧ chunk.offset = offset

def InstallSnapshot.stop (chunk : InstallSnapshot) : Nat := chunk.offset+chunk.data.length

-- A peer's progress when the transfer goes on at an offset, and when it is done.
def PeerProgress.resumeAt (progress : PeerProgress) (chunk : InstallSnapshot) (offset : Nat) : PeerProgress :=
  {progress with
    recentSnapshotRpcs := progress.recentSnapshotRpcs.erase ⟨chunk.rpcId,chunk.lastIncludedIndex,chunk.offset,chunk.stop⟩
    snapshotOffset := offset}

def PeerProgress.transferred (progress : PeerProgress) (snapshot : StateMachineSnapshot) : PeerProgress :=
  {progress with
    matchIndex := max progress.matchIndex snapshot.lastIncludedIndex
    nextIndex := max progress.matchIndex snapshot.lastIncludedIndex+1
    snapshotOffset := 0
    snapshotIndex := 0
    recentSnapshotRpcs := []
    recentRpcs := []}

section
variable (newest : NewestChunk leader peer chunk progress snapshot)
include newest

theorem NewestChunk.fields :
    chunk.term = leader.currentTerm ∧ chunk.leaderId = leader.config.selfId ∧
    chunk.lastIncludedIndex = snapshot.lastIncludedIndex ∧ chunk.lastIncludedTerm = snapshot.lastIncludedTerm ∧
    chunk.totalSize = snapshot.stateMachine.length := by
  rw [newest.shape]
  exact ⟨rfl,rfl,rfl,rfl,rfl⟩

theorem NewestChunk.stop_le :
    chunk.stop ≤ snapshot.stateMachine.length := by
  have inside := newest.inside
  unfold InstallSnapshot.stop
  rw [newest.shape,chunkAt_size]
  simp only [chunkAt]
  omega

theorem continue_eq :
    leader.continueTransfer peer (answerTo chunk success nextOffset) progress snapshot =
      if success = false then
        if chunk.stop < nextOffset then .ok leader
        else (leader.setProgress peer (progress.resumeAt chunk nextOffset)).sendAppendEntries peer
      else if nextOffset ≠ chunk.stop ∨ chunk.stop ≤ chunk.offset then .ok leader
      else if chunk.stop < snapshot.stateMachine.length then
        (leader.setProgress peer (progress.resumeAt chunk chunk.stop)).sendAppendEntries peer
      else (leader.setProgress peer (progress.transferred snapshot)).sendAppendEntries peer := by
  obtain ⟨-,-,index,-,-⟩ := newest.fields
  have tracked : progress.recentSnapshotRpcs.find? (fun sent => sent.rpcId = (answerTo chunk success nextOffset).rpcId ∧
      sent.snapshotIndex = (answerTo chunk success nextOffset).lastIncludedIndex) =
      some ⟨chunk.rpcId,chunk.lastIncludedIndex,chunk.offset,chunk.stop⟩ := by
    have tracked := newest.tracked
    rw [← index] at tracked
    exact tracked
  unfold RaftNode.continueTransfer
  rw [if_neg (by simp [answerTo,index,newest.transfer])]
  rw [tracked]
  cases success with
  | false =>
    have settled : ¬ (chunk.rpcId ≠ progress.newestRpcId) := not_not.mpr newest.rpc
    simp only [answerTo,settled,Bool.false_eq_true,not_false_eq_true,if_true,false_or]
    rfl
  | true =>
    simp only [answerTo,not_true_eq_false,if_false,Bool.true_eq_false,newest.offset]
    by_cases same : nextOffset = chunk.stop
    · by_cases empty : chunk.stop ≤ chunk.offset
      · simp [same,empty]
      · simp only [same,empty,ne_eq,not_true_eq_false,if_false,or_self]
        rfl
    · simp [same]

theorem NewestChunk.resume_ok (sound : Sound leader)
    {position : Nat} (inside : position ≤ snapshot.stateMachine.length) :
    ProgressOk leader.lastLogIndex leader.durableSnapshot leader.nextRpcId (progress.resumeAt chunk position) := by
  have ok := sound.progress_get newest.found
  exact {ok with
    image := fun _ => ⟨snapshot,newest.image,newest.transfer,inside⟩
    trackedChunks := Nat.le_trans (List.length_erase_le ..) ok.trackedChunks
    chunks := fun other member => ok.chunks other (List.mem_of_mem_erase member)}

theorem align_resumed (inside : offset ≤ snapshot.stateMachine.length) :
    (RaftNode.PeerProgress.alignSnapshot (progress.resumeAt chunk offset) snapshot).snapshotOffset = offset := by
  have same : (progress.resumeAt chunk offset).snapshotIndex = snapshot.lastIncludedIndex := newest.transfer
  unfold RaftNode.PeerProgress.alignSnapshot
  rw [if_neg (not_not.mpr same)]
  exact Nat.min_eq_left inside

end

section answered
variable (sound : Sound leader) (role : leader.role = .leader) (voter : peer ∈ leader.config.voters)
  (other : peer ≠ leader.config.selfId) (newest : NewestChunk leader peer chunk progress snapshot)
include sound role voter other newest

theorem chunk_handled (ran : leader.clearActions.continueTransfer peer (answerTo chunk success nextOffset) progress snapshot =
    .ok after) : leader.step peer (.installSnapshotResponse (answerTo chunk success nextOffset)) =
      .ok (after.clearActions,after.actions) ∧ Sound after := by
  obtain ⟨term,-⟩ := newest.fields
  have handled : leader.clearActions.handle peer (.installSnapshotResponse (answerTo chunk success nextOffset)) = .ok after := by
    show leader.clearActions.handleInstallSnapshotResponse peer _ = _
    unfold RaftNode.handleInstallSnapshotResponse
    rw [if_neg (by simp [RaftNode.clearActions,role,answerTo,term]),newest.clear.found,newest.clear.image]
    exact ran
  have positive : Message.Positive (.installSnapshotResponse (answerTo chunk success nextOffset)) := trivial
  exact step_handled sound positive voter other (Nat.le_of_eq term) handled

theorem chunk_ignored (useless : if success then nextOffset ≠ chunk.stop ∨ chunk.stop ≤ chunk.offset else chunk.stop < nextOffset) :
    leader.step peer (.installSnapshotResponse (answerTo chunk success nextOffset)) = .ok (leader.clearActions,[]) := by
  have ran : leader.clearActions.continueTransfer peer (answerTo chunk success nextOffset) progress snapshot =
      .ok leader.clearActions := by
    rw [continue_eq newest.clear]
    cases success with
    | false => rw [if_pos rfl,if_pos (by simpa using useless)]
    | true => rw [if_neg (by simp),if_pos (by simpa using useless)]
  exact (chunk_handled sound role voter other newest ran).1

theorem chunk_resumed (useful : if success then nextOffset = chunk.stop ∧ chunk.offset < chunk.stop ∧
    chunk.stop < snapshot.stateMachine.length else nextOffset ≤ chunk.stop) :
    ∃ after sent, leader.step peer (.installSnapshotResponse (answerTo chunk success nextOffset)) = .ok (after,sent) ∧
      Resumes leader peer snapshot nextOffset after sent := by
  have stop := newest.stop_le
  have fits : nextOffset ≤ snapshot.stateMachine.length := by
    cases success with
    | false => exact Nat.le_trans (by simpa using useful) stop
    | true => exact Nat.le_trans (Nat.le_of_eq useful.1) stop
  have ready : Sound (leader.clearActions.setProgress peer (progress.resumeAt chunk nextOffset)) :=
    setProgress_sound (clear_sound sound) role (newest.resume_ok sound fits)
  obtain ⟨chunk',current,after,sent,frame,message,newest',shape,-⟩ :=
    sendAppendEntries_chunk ready (get?_set_self newest.found) newest.image newest.low
  have ran : leader.clearActions.continueTransfer peer (answerTo chunk success nextOffset) progress snapshot = .ok after := by
    rw [continue_eq newest.clear]
    cases success with
    | false => rw [if_pos rfl,if_neg (Nat.not_lt.mpr (by simpa using useful)),sent]
    | true =>
      obtain ⟨rfl,more,short⟩ := useful
      rw [if_neg (by simp),if_neg (by simpa using more),if_pos short,sent]
  obtain ⟨stepped,sound'⟩ := chunk_handled sound role voter other newest ran
  exact ⟨_,_,stepped,clear_sound sound',{frame with},chunk',current,message,newest'.clear,
    (congrArg InstallSnapshot.offset shape).trans (align_resumed newest fits)⟩

theorem chunk_finished (whole : chunk.stop = snapshot.stateMachine.length) (more : chunk.offset < chunk.stop) :
    ∃ after sent current, leader.step peer (.installSnapshotResponse (answerTo chunk true chunk.stop)) = .ok (after,sent) ∧
      get? after.peerProgress peer = some current ∧ snapshot.lastIncludedIndex ≤ current.matchIndex := by
  have ok := sound.progress_get newest.found
  have matched := ok.matched
  have low := newest.low
  have base : leader.baseIndex = snapshot.lastIncludedIndex := by
    rw [sound.base,newest.image]
    rfl
  have last := sound.base_le_last
  have fine : ProgressOk leader.lastLogIndex leader.durableSnapshot leader.nextRpcId (progress.transferred snapshot) :=
    {ok with
      matched := Nat.lt_succ_self _
      next := by simp only [PeerProgress.transferred]; omega
      tracked := Nat.zero_le _
      ranges := List.forall_mem_nil _
      image := fun wrong => absurd rfl wrong
      trackedChunks := Nat.zero_le _
      chunks := List.forall_mem_nil _}
  have ready : Sound (leader.clearActions.setProgress peer (progress.transferred snapshot)) :=
    setProgress_sound (clear_sound sound) role fine
  have above : leader.baseIndex < (progress.transferred snapshot).nextIndex := by
    simp only [PeerProgress.transferred]
    omega
  obtain ⟨request,current,after,sent,-,-,newest',same,-⟩ := sendAppendEntries_log ready (get?_set_self newest.found) above
  have ran : leader.clearActions.continueTransfer peer (answerTo chunk true chunk.stop) progress snapshot = .ok after := by
    rw [continue_eq newest.clear,if_neg (by simp),if_neg (by simpa using more),if_neg (by omega),sent]
  refine ⟨_,_,current,(chunk_handled sound role voter other newest ran).1,newest'.found,?_⟩
  rw [same]
  exact Nat.le_max_right _ _

-- Everything the leader can do with an answer to its newest chunk.
inductive Continues (leader : RaftNode) (peer : NodeId) (chunk : InstallSnapshot) (snapshot : StateMachineSnapshot)
    (success : Bool) (nextOffset : Nat) (after : RaftNode) (sent : Actions) : Prop where
  | dropped (useless : if success then nextOffset ≠ chunk.stop ∨ chunk.stop ≤ chunk.offset else chunk.stop < nextOffset)
      (same : after = leader.clearActions) (silent : sent = [])
  | resumed (useful : if success then nextOffset = chunk.stop ∧ chunk.offset < chunk.stop ∧
        chunk.stop < snapshot.stateMachine.length else nextOffset ≤ chunk.stop)
      (resumes : Resumes leader peer snapshot nextOffset after sent)
  | finished (success : success = true) (answered : nextOffset = chunk.stop) (more : chunk.offset < chunk.stop)
      (whole : chunk.stop = snapshot.stateMachine.length) (found : get? after.peerProgress peer = some current)
      (matched : snapshot.lastIncludedIndex ≤ current.matchIndex)

theorem leader_continues (success : Bool) (nextOffset : Nat) :
    ∃ after sent, leader.step peer (.installSnapshotResponse (answerTo chunk success nextOffset)) = .ok (after,sent) ∧
      Continues leader peer chunk snapshot success nextOffset after sent := by
  have stop := newest.stop_le
  cases success with
  | false =>
    by_cases late : chunk.stop < nextOffset
    · exact ⟨_,_,chunk_ignored sound role voter other newest (by simpa using late),.dropped (by simpa using late) rfl rfl⟩
    · have useful : if false then nextOffset = chunk.stop ∧ chunk.offset < chunk.stop ∧
          chunk.stop < snapshot.stateMachine.length else nextOffset ≤ chunk.stop := by simpa using late
      obtain ⟨after,sent,stepped,resumes⟩ := chunk_resumed sound role voter other newest useful
      exact ⟨after,sent,stepped,.resumed useful resumes⟩
  | true =>
    by_cases useless : nextOffset ≠ chunk.stop ∨ chunk.stop ≤ chunk.offset
    · exact ⟨_,_,chunk_ignored sound role voter other newest (by simpa using useless),.dropped (by simpa using useless) rfl rfl⟩
    · simp only [ne_eq,not_or,not_not,Nat.not_le] at useless
      obtain ⟨rfl,more⟩ := useless
      by_cases short : chunk.stop < snapshot.stateMachine.length
      · have useful : if true then chunk.stop = chunk.stop ∧ chunk.offset < chunk.stop ∧
            chunk.stop < snapshot.stateMachine.length else chunk.stop ≤ chunk.stop := ⟨rfl,more,short⟩
        obtain ⟨after,sent,stepped,resumes⟩ := chunk_resumed sound role voter other newest useful
        exact ⟨after,sent,stepped,.resumed useful resumes⟩
      · have whole : chunk.stop = snapshot.stateMachine.length := by omega
        obtain ⟨after,sent,current,stepped,found,matched⟩ := chunk_finished sound role voter other newest whole more
        exact ⟨after,sent,stepped,.finished rfl rfl more whole found matched⟩

end answered

end ForgeKv.Raft
