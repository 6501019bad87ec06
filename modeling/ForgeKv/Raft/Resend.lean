import ForgeKv.Raft.Session

namespace ForgeKv.Raft
open Assoc
open RaftNode (takeBatch)

variable {node after leader follower : RaftNode} {progress : PeerProgress} {request : AppendEntries}

-- The newest request to a peer is a part of the leader's log from the peer's next index on.
structure Newest (node : RaftNode) (peer : NodeId) (request : AppendEntries) (progress : PeerProgress) : Prop where
  found : get? node.peerProgress peer = some progress
  rpc : request.rpcId = progress.newestRpcId
  tracked : progress.recentRpcs.find? (fun sent => sent.rpcId = request.rpcId) =
    some ⟨request.rpcId,request.previousLogIndex+request.entries.length⟩
  next : progress.nextIndex = request.previousLogIndex+1
  term : request.term = node.currentTerm
  leader : request.leaderId = node.config.selfId
  previous : (node.slot request.previousLogIndex).map LogEntry.term = some request.previousLogTerm
  entries : ∃ size, request.entries = (node.log.drop (progress.nextIndex-node.baseIndex)).take size
  more : progress.nextIndex ≤ node.lastLogIndex → request.entries ≠ []
  commit : request.leaderCommit ≤ node.commitIndex

theorem Newest.apart (newest : Newest node peer request progress) (apart : Apart peer node after) :
    Newest after peer request progress where
  found := apart.progress.trans newest.found
  __ := newest
  term := newest.term.trans apart.term.symm
  leader := newest.leader.trans (congrArg RaftConfig.selfId apart.config).symm
  previous := by rw [slot_log apart.log]; exact newest.previous
  entries := by
    unfold RaftNode.baseIndex RaftNode.frontEntry
    rw [apart.log]
    exact newest.entries
  more := by
    unfold RaftNode.lastLogIndex RaftNode.lastEntry
    rw [apart.log]
    exact newest.more
  commit := Nat.le_trans newest.commit apart.commit

theorem takeBatch_some (config : ConfigOk node.config) (more : entries ≠ []) : takeBatch node.config 0 0 entries ≠ [] := by
  cases entries with
  | nil => exact absurd rfl more
  | cons =>
    have batch := config.batch
    unfold takeBatch
    rw [if_neg (by omega),if_neg (by simp)]
    simp

theorem batch_last (sound : Sound node) (kept : node.baseIndex < next) (size : Nat) :
    ((((node.log.drop (next-node.baseIndex)).take size).getLast?.map LogEntry.index).getD (next-1)) =
      next-1+((node.log.drop (next-node.baseIndex)).take size).length := by
  generalize batch : (node.log.drop (next-node.baseIndex)).take size = entries
  rcases List.eq_nil_or_concat entries with rfl | ⟨front,final,rfl⟩
  · simp
  · have found : ((node.log.drop (next-node.baseIndex)).take size)[front.length]? = some final := by
      rw [batch]
      simp
    rw [List.getElem?_take] at found
    split at found
    · rw [List.getElem?_drop] at found
      have place := sound.index_of found
      simp only [List.concat_eq_append,List.getLast?_append,List.getLast?_singleton,Option.some_or,Option.map_some,
        Option.getD_some,List.length_append,List.length_singleton]
      omega
    · cases found

section
variable (sound : Sound node) (found : get? node.peerProgress peer = some progress) (kept : node.baseIndex < progress.nextIndex)
include sound found kept

theorem pushLogSuffix_newest (previous : (node.slot (progress.nextIndex-1)).map LogEntry.term = some term) :
    ∃ request current, lastMessageTo peer (node.pushLogSuffix peer progress term).actions = some (.appendEntries request) ∧
      Newest (node.pushLogSuffix peer progress term) peer request current ∧
      current.matchIndex = progress.matchIndex ∧ current.nextIndex = progress.nextIndex := by
  have ok := sound.progress_get found
  obtain ⟨size,batch⟩ := takeBatch_take node.config 0 0 (node.log.drop (progress.nextIndex-node.baseIndex))
  refine ⟨_,_,lastMessageTo_push _ _,⟨get?_set_self found,rfl,?_,?_,rfl,rfl,previous,⟨size,batch⟩,?_,Nat.le_refl _⟩,rfl,rfl⟩
  · have last := batch_last sound kept size
    rw [← batch] at last
    rw [← last]
    have fresh : ∀ sent ∈ progress.recentRpcs, sent.rpcId ≠ node.nextRpcId := by
      intro sent member
      have := (ok.ranges sent member).2.1
      have := ok.issued
      omega
    exact find_track (fun sent member => by simpa using fresh sent member) (by simp)
  · exact (Nat.succ_pred_eq_of_pos (Nat.zero_lt_of_lt kept)).symm
  · intro low
    refine takeBatch_some sound.configOk ?_
    have last := sound.last
    have low' : progress.nextIndex ≤ node.lastLogIndex := low
    intro empty
    have short := List.drop_eq_nil_iff.mp empty
    omega

theorem sendAppendEntries_log :
    ∃ request current after, node.sendAppendEntries peer = .ok after ∧ Frame node after ∧
      lastMessageTo peer after.actions = some (.appendEntries request) ∧ Newest after peer request current ∧
      current.matchIndex = progress.matchIndex ∧ current.nextIndex = progress.nextIndex := by
  have ok := sound.progress_get found
  obtain ⟨entry,read,got,-⟩ := sound.entryAt (show node.baseIndex ≤ progress.nextIndex-1 by omega)
    (by have := ok.next; omega)
  have previous : (node.slot (progress.nextIndex-1)).map LogEntry.term = some entry.term := by
    rw [slot_of_le (by omega),got]
    rfl
  have capped : min progress.nextIndex (node.lastLogIndex+1) = progress.nextIndex := Nat.min_eq_left ok.next
  have floored : max progress.nextIndex (node.baseIndex+1) = progress.nextIndex := Nat.max_eq_left kept
  have suffix : node.sendLogSuffix peer progress = .ok (node.pushLogSuffix peer progress entry.term) := by
    unfold RaftNode.sendLogSuffix
    simp only [floored,read,bind,Except.bind]
    rfl
  have sent : node.sendAppendEntries peer = .ok (node.pushLogSuffix peer progress entry.term) := by
    unfold RaftNode.sendAppendEntries
    simp only [found,capped]
    split
    · exact suffix
    · rw [if_neg (Nat.not_le.mpr kept)]
      exact suffix
  obtain ⟨request,current,message,newest,same,next⟩ := pushLogSuffix_newest sound found kept previous
  exact ⟨request,current,_,sent,⟨rfl,rfl,rfl,rfl,rfl,Nat.le_refl _⟩,message,newest,same,next⟩

end

theorem Newest.clear (newest : Newest node peer request progress) : Newest node.clearActions peer request progress :=
  {newest with}

theorem response_handled (role : leader.role = .leader) (newest : Newest leader peer request progress) (success : Bool)
    (matchIndex hint : Nat) : leader.clearActions.handle peer
        (.appendEntriesResponse ⟨leader.currentTerm,success,matchIndex,hint,request.rpcId⟩) =
      if success then
        leader.clearActions.acknowledge peer progress ⟨request.rpcId,request.previousLogIndex+request.entries.length⟩ matchIndex
      else leader.clearActions.backUp peer progress ⟨request.rpcId,request.previousLogIndex+request.entries.length⟩ hint := by
  show leader.clearActions.handleAppendEntriesResponse peer _ = _
  unfold RaftNode.handleAppendEntriesResponse
  rw [if_neg (by simp [RaftNode.clearActions,role]),newest.clear.found]
  dsimp only
  rw [newest.tracked]
  dsimp only
  rw [if_neg (not_not.mpr newest.rpc)]

-- The leader answers with a new request, or has nothing more to send.
structure Answers (leader : RaftNode) (peer : NodeId) (response : AppendEntriesResponse) (matchIndex nextIndex : Nat)
    (after : RaftNode) (sent : Actions) : Prop where
  stepped : leader.step peer (.appendEntriesResponse response) = .ok (after,sent)
  sound : Sound after
  frame : Frame leader after
  resent : ∃ request progress, lastMessageTo peer sent = some (.appendEntries request) ∧ Newest after peer request progress ∧
    progress.matchIndex = matchIndex ∧ progress.nextIndex = nextIndex

-- The next index after a rejection, between the hint and the match index.
def PeerProgress.backTo (progress : PeerProgress) (hint : Nat) : Nat :=
  max (progress.matchIndex+1) (if hint = 0 ∨ progress.nextIndex ≤ hint then
    (if 1 < progress.nextIndex then progress.nextIndex-1 else 1) else hint)

theorem leader_backs_up (sound : Sound leader) (role : leader.role = .leader) (voter : peer ∈ leader.config.voters)
    (other : peer ≠ leader.config.selfId) (newest : Newest leader peer request progress)
    (kept : leader.baseIndex ≤ progress.matchIndex) (hint : Nat) :
    ∃ after sent, Answers leader peer ⟨leader.currentTerm,false,0,hint,request.rpcId⟩ progress.matchIndex
      (progress.backTo hint) after sent := by
  have ok := sound.progress_get newest.found
  have matched := ok.matched
  have next := ok.next
  have handled := (response_handled role newest false 0 hint).trans (if_neg (by decide))
  unfold RaftNode.backUp at handled
  unfold PeerProgress.backTo
  dsimp only at handled
  generalize target : max (progress.matchIndex+1) (if hint = 0 ∨ progress.nextIndex ≤ hint then
    (if 1 < progress.nextIndex then progress.nextIndex-1 else 1) else hint) = goal at handled ⊢
  have low : progress.matchIndex < goal ∧ goal ≤ leader.lastLogIndex+1 := by
    rw [← target]
    split
    · split <;> omega
    · omega
  have fine : ProgressOk leader.lastLogIndex leader.durableSnapshot leader.nextRpcId {progress with
      recentRpcs := progress.recentRpcs.erase ⟨request.rpcId,request.previousLogIndex+request.entries.length⟩
      nextIndex := goal} :=
    {ok with
      matched := low.1
      next := low.2
      tracked := Nat.le_trans (List.length_erase_le ..) ok.tracked
      ranges := fun other member => ok.ranges other (List.mem_of_mem_erase member)}
  have ready : Sound (leader.clearActions.setProgress peer _) := setProgress_sound (clear_sound sound) role fine
  obtain ⟨request',current,after,sent,frame,message,fresh,same,index⟩ :=
    sendAppendEntries_log ready (get?_set_self newest.found) (show leader.baseIndex < goal by omega)
  rw [sent] at handled
  have positive : Message.Positive (.appendEntriesResponse ⟨leader.currentTerm,false,0,hint,request.rpcId⟩) := trivial
  obtain ⟨stepped,sound'⟩ := step_handled sound positive voter other (Nat.le_refl _) handled
  exact ⟨_,_,stepped,clear_sound sound',{frame with},request',current,message,fresh.clear,same,index⟩

theorem broadcast_log (sound : Sound node) (role : node.role = .leader) (voter : peer ∈ node.config.voters)
    (other : peer ≠ node.config.selfId) (found : get? node.peerProgress peer = some progress)
    (kept : node.baseIndex < progress.nextIndex) :
    ∃ request current after, node.broadcastAppendEntries = .ok after ∧ Frame node after ∧
      lastMessageTo peer after.actions = some (.appendEntries request) ∧ Newest after peer request current ∧
      current.matchIndex = progress.matchIndex ∧ current.nextIndex = progress.nextIndex := by
  have sends : Reaches none none node node.broadcastAppendEntries Leading := broadcast_reaches sound role
  obtain ⟨after,sent,-,-⟩ := sends
  obtain ⟨before,between,fine,earlier,here,rest⟩ :=
    broadcastTo_peer sound role (fun _ member => member) sound.configOk.unique voter other sent
  have base : before.baseIndex = node.baseIndex := by
    unfold RaftNode.baseIndex RaftNode.frontEntry
    rw [earlier.log]
  obtain ⟨request,current,next,ran,frame,message,newest,same,index⟩ :=
    sendAppendEntries_log fine (earlier.progress.trans found) (by rw [base]; exact kept)
  rw [here] at ran
  cases ran
  exact ⟨request,current,after,sent,(earlier.toFrame.trans frame).trans rest.toFrame,rest.messages.trans message,newest.apart rest,
    same,index⟩

def PeerProgress.upTo (progress : PeerProgress) (rpc : RpcRange) (index : Nat) : PeerProgress :=
  {progress with recentRpcs := progress.recentRpcs.erase rpc,matchIndex := index,nextIndex := index+1}

theorem acknowledge_eq (counted : max progress.matchIndex (min matchIndex rpc.lastIndex) = index) :
    node.acknowledge source progress rpc matchIndex =
      (node.setProgress source (progress.upTo rpc index)).advanceLeaderCommit >>= fun result =>
        if result.1 then result.2.broadcastAppendEntries
        else if index+1 ≤ result.2.lastLogIndex then result.2.sendAppendEntries source
        else .ok result.2 := by
  subst counted
  rfl

theorem leader_acknowledges (sound : Sound leader) (role : leader.role = .leader) (voter : peer ∈ leader.config.voters)
    (other : peer ≠ leader.config.selfId) (newest : Newest leader peer request progress)
    (kept : leader.baseIndex ≤ progress.matchIndex) {matched : Nat}
    (reported : matched = request.previousLogIndex+request.entries.length) :
    ∃ after sent, leader.step peer (.appendEntriesResponse ⟨leader.currentTerm,true,matched,0,request.rpcId⟩) = .ok (after,sent) ∧
      Sound after ∧ Frame leader after ∧ (∃ current, get? after.peerProgress peer = some current ∧ current.matchIndex = matched) ∧
      (matched < leader.lastLogIndex → Answers leader peer ⟨leader.currentTerm,true,matched,0,request.rpcId⟩ matched (matched+1)
        after sent) := by
  have ok := sound.progress_get newest.found
  have low := ok.matched
  have range := ok.ranges _ (List.mem_of_find?_eq_some newest.tracked)
  have index := newest.next
  have handled := (response_handled role newest true matched 0).trans (if_pos rfl)
  have counted : max progress.matchIndex (min matched (request.previousLogIndex+request.entries.length)) = matched := by omega
  rw [acknowledge_eq counted] at handled
  generalize shape : progress.upTo ⟨request.rpcId,request.previousLogIndex+request.entries.length⟩ matched = adjusted at handled
  have fine : ProgressOk leader.lastLogIndex leader.durableSnapshot leader.nextRpcId adjusted := by
    rw [← shape]
    exact {ok with
      matched := Nat.lt_succ_self _
      next := by simp only [PeerProgress.upTo] at range ⊢; omega
      tracked := Nat.le_trans (List.length_erase_le ..) ok.tracked
      ranges := fun other member => ok.ranges other (List.mem_of_mem_erase member)}
  have counted : adjusted.matchIndex = matched ∧ adjusted.nextIndex = matched+1 := by rw [← shape]; exact ⟨rfl,rfl⟩
  have ready : Sound (leader.clearActions.setProgress peer adjusted) := setProgress_sound (clear_sound sound) role fine
  have present : get? (leader.clearActions.setProgress peer adjusted).peerProgress peer = some adjusted := get?_set_self newest.found
  have above : leader.baseIndex < adjusted.nextIndex := by omega
  have finish : ∀ after, leader.clearActions.handle peer
      (.appendEntriesResponse ⟨leader.currentTerm,true,matched,0,request.rpcId⟩) = .ok after →
      leader.step peer (.appendEntriesResponse ⟨leader.currentTerm,true,matched,0,request.rpcId⟩) =
        .ok (after.clearActions,after.actions) ∧ Sound after :=
    fun after => step_handled sound (show Message.Positive (.appendEntriesResponse _) from trivial) voter other (Nat.le_refl _)
  cases advanceLeaderCommit_cases ready with
  | inr advanced =>
    obtain ⟨index,advanced,forward,reached⟩ := advanced
    have committed := commitTo_sound ready forward reached
    obtain ⟨request',current,after,sent,frame,message,fresh,same,nextIndex⟩ :=
      broadcast_log committed role voter other present above
    simp only [advanced,bind,Except.bind,if_true,sent] at handled
    obtain ⟨stepped,sound'⟩ := finish after handled
    have framed : Frame leader after.clearActions :=
      {frame with commit := Nat.le_trans (Nat.le_of_lt forward) frame.commit}
    refine ⟨_,_,stepped,clear_sound sound',framed,⟨current,fresh.found,same.trans counted.1⟩,fun _ => ?_⟩
    exact ⟨stepped,clear_sound sound',framed,request',current,message,fresh.clear,same.trans counted.1,nextIndex.trans counted.2⟩
  | inl kept =>
    simp only [kept,bind,Except.bind,Bool.false_eq_true,if_false] at handled
    by_cases more : matched+1 ≤ leader.lastLogIndex
    · obtain ⟨request',current,after,sent,frame,message,fresh,same,nextIndex⟩ := sendAppendEntries_log ready present above
      rw [if_pos (show matched+1 ≤ (leader.clearActions.setProgress peer adjusted).lastLogIndex from more),sent] at handled
      obtain ⟨stepped,sound'⟩ := finish after handled
      have framed : Frame leader after.clearActions := {frame with}
      refine ⟨_,_,stepped,clear_sound sound',framed,⟨current,fresh.found,same.trans counted.1⟩,fun _ => ?_⟩
      exact ⟨stepped,clear_sound sound',framed,request',current,message,fresh.clear,same.trans counted.1,nextIndex.trans counted.2⟩
    · rw [if_neg (show ¬ matched+1 ≤ (leader.clearActions.setProgress peer adjusted).lastLogIndex from more)] at handled
      obtain ⟨stepped,sound'⟩ := finish _ handled
      refine ⟨_,_,stepped,clear_sound sound',⟨rfl,rfl,rfl,rfl,rfl,Nat.le_refl _⟩,⟨adjusted,present,counted.1⟩,fun less => ?_⟩
      omega

end ForgeKv.Raft
