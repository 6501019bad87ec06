import ForgeKv.Raft.Appending

namespace ForgeKv.Raft
open Assoc

variable {node middle after : RaftNode} {source peer : NodeId}

-- An index that a leader may commit: its entry is of the current term, and the
-- leader and enough peers have it.
def Committable (node : RaftNode) (index : Nat) : Prop :=
  HasAt node index node.currentTerm ∧ node.quorum ≤ node.replicated index

def Tight (node : RaftNode) : Prop := ∀ index, node.commitIndex < index → ¬ Committable node index

-- The commit index stays, and nothing above it becomes committable.
structure Even (node after : RaftNode) : Prop where
  commit : after.commitIndex = node.commitIndex
  ready : ∀ index, node.commitIndex < index → Committable after index → Committable node index

-- The commit index stays, the same indexes are committable, and the same peers are known.
structure Level (node after : RaftNode) : Prop where
  commit : after.commitIndex = node.commitIndex
  ready : ∀ index, Committable after index ↔ Committable node index
  peers : keys after.peerProgress = keys node.peerProgress

theorem Level.even (level : Level node after) : Even node after := ⟨level.commit,fun index _ => (level.ready index).mp⟩

theorem Level.refl (node : RaftNode) : Level node node := ⟨rfl,fun _ => Iff.rfl,rfl⟩

theorem Level.trans (first : Level node middle) (second : Level middle after) : Level node after :=
  ⟨second.commit.trans first.commit,fun index => (second.ready index).trans (first.ready index),second.peers.trans first.peers⟩

theorem Even.trans (first : Even node middle) (second : Even middle after) : Even node after :=
  ⟨second.commit.trans first.commit,
    fun index above ready => first.ready index above (second.ready index (first.commit ▸ above) ready)⟩

theorem Even.tight (even : Even node after) (tight : Tight node) : Tight after := by
  intro index above ready
  rw [even.commit] at above
  exact tight index above (even.ready index above ready)

theorem level_same (config : after.config = node.config) (term : after.currentTerm = node.currentTerm) (log : after.log = node.log)
    (commit : after.commitIndex = node.commitIndex) (progress : after.peerProgress = node.peerProgress) : Level node after := by
  refine ⟨commit,fun index => ?_,congrArg keys progress⟩
  unfold Committable HasAt RaftNode.baseIndex RaftNode.frontEntry RaftNode.quorum RaftNode.replicated
  rw [config,term,log,progress]

theorem progress_unique (sound : Sound node) (leads : node.role = .leader) : (keys node.peerProgress).Nodup := by
  rw [(sound.leads leads).2.2]
  exact sound.configOk.unique.filter _

section progress
variable (unique : (keys node.peerProgress).Nodup)
include unique

section
variable (found : get? node.peerProgress peer = some stored)
include found

theorem setProgress_counts (progress : PeerProgress) (index : Nat) :
    ((index ≤ progress.matchIndex → index ≤ stored.matchIndex) →
      (node.setProgress peer progress).replicated index ≤ node.replicated index) ∧
    ((index ≤ stored.matchIndex → index ≤ progress.matchIndex) →
      node.replicated index ≤ (node.setProgress peer progress).replicated index) := by
  have known : ∀ binding ∈ node.peerProgress, binding.1 = peer → binding.2 = stored := by
    intro binding member same
    have held : get? node.peerProgress binding.1 = some binding.2 := get?_of_mem unique member
    rw [same,found] at held
    exact (Option.some.inj held).symm
  unfold RaftNode.replicated RaftNode.setProgress Assoc.set
  rw [List.countP_map]
  refine ⟨fun counted => Nat.add_le_add_left (List.countP_mono_left fun binding member => ?_) 1,
    fun counted => Nat.add_le_add_left (List.countP_mono_left fun binding member => ?_) 1⟩
  · simp only [Function.comp_apply,decide_eq_true_eq]
    split
    · rename_i same
      rw [known binding member same]
      exact counted
    · exact id
  · simp only [Function.comp_apply,decide_eq_true_eq]
    split
    · rename_i same
      rw [known binding member same]
      exact counted
    · exact id

theorem setProgress_even (counted : ∀ index, node.commitIndex < index → index ≤ progress.matchIndex → index ≤ stored.matchIndex) :
    Even node (node.setProgress peer progress) :=
  ⟨rfl,fun index above ready => ⟨ready.1,Nat.le_trans ready.2 ((setProgress_counts unique found _ index).1 (counted index above))⟩⟩

theorem setProgress_level (same : progress.matchIndex = stored.matchIndex) :
    Level node (node.setProgress peer progress) := by
  refine ⟨rfl,fun index => ?_,keys_set⟩
  obtain ⟨fewer,more⟩ := setProgress_counts unique found progress index
  have equal := Nat.le_antisymm (fewer fun low => same ▸ low) (more fun low => same ▸ low)
  unfold Committable
  rw [equal]
  exact Iff.rfl

end

theorem sendAppendEntries_level (sent : node.sendAppendEntries peer = .ok after) : Level node after := by
  obtain ⟨stored,progress,-,rfl,found,same⟩ := sendAppendEntries_sent sent
  exact (setProgress_level unique found same).trans (level_same rfl rfl rfl rfl rfl)

theorem broadcastTo_level (sent : node.broadcastTo peers = .ok after) : Level node after :=
  broadcastTo_keeps (fun _ level first => level.trans (sendAppendEntries_level (level.peers ▸ unique) first)) (.refl node) sent

end progress

theorem commitCandidate_greatest (sound : Sound node) (reached : candidate ≤ node.lastLogIndex)
    (found : node.commitCandidate candidate = .ok result) :
    (∀ index ∈ result, node.commitIndex < index ∧ Committable node index) ∧
      ∀ index, node.commitIndex < index → index ≤ candidate → Committable node index → ∃ best ∈ result, index ≤ best := by
  induction candidate with
  | zero =>
    cases found
    exact ⟨by simp,fun index above low => by omega⟩
  | succ candidate ih =>
    unfold RaftNode.commitCandidate at found
    split at found
    · rename_i committed
      cases found
      exact ⟨by simp,fun index above low => by omega⟩
    have low : node.baseIndex ≤ candidate+1 := Nat.le_trans sound.retained (by omega)
    obtain ⟨entry,read,got,-⟩ := sound.entryAt low reached
    simp only [read,bind,Except.bind] at found
    -- The index at hand cannot be committed, so the search below it decides.
    have below : ¬ Committable node (candidate+1) → node.commitCandidate candidate = .ok result →
        (∀ index ∈ result, node.commitIndex < index ∧ Committable node index) ∧
          ∀ index, node.commitIndex < index → index ≤ candidate+1 → Committable node index → ∃ best ∈ result, index ≤ best := by
      intro barred searched
      obtain ⟨good,covers⟩ := ih (by omega) searched
      refine ⟨good,fun index higher small ready => ?_⟩
      rcases Nat.lt_or_eq_of_le small with smaller | rfl
      · exact covers index higher (Nat.le_of_lt_succ smaller) ready
      · exact absurd ready barred
    split at found
    · rename_i older
      exact below (fun ready => older ((hasAt_of_get got low).mp ready.1)) found
    · rename_i current
      split at found
      · rename_i few
        exact below (fun ready => absurd ready.2 (Nat.not_le.mpr few)) found
      · rename_i agreed
        cases found
        refine ⟨fun index member => ?_,fun index higher small ready => ⟨candidate+1,rfl,small⟩⟩
        cases member
        exact ⟨by omega,(hasAt_of_get got low).mpr (not_not.mp current),Nat.not_lt.mp agreed⟩

theorem Committable.reached (sound : Sound node) (ready : Committable node index) : index ≤ node.lastLogIndex := by
  obtain ⟨⟨-,entry,got,-⟩,-⟩ := ready
  have bound := (List.getElem?_eq_some_iff.mp got).1
  have last := sound.last
  omega

-- What a call leaves of a leader: nothing to commit, and a commit index that was
-- raised to an index that may be committed.
structure Balanced (commit : Nat) (after : RaftNode) : Prop where
  tight : Tight after
  greatest : commit < after.commitIndex → Committable after after.commitIndex

theorem Balanced.level (settled : Balanced commit node) (level : Level node after) : Balanced commit after := by
  refine ⟨level.even.tight settled.tight,fun raised => ?_⟩
  rw [level.commit] at raised ⊢
  exact (level.ready _).mpr (settled.greatest raised)

theorem Even.settled (even : Even node after) (tight : Tight node) : Balanced node.commitIndex after := by
  refine ⟨even.tight tight,fun raised => ?_⟩
  rw [even.commit] at raised
  exact absurd raised (Nat.lt_irrefl _)

theorem advanceLeaderCommit_settles (sound : Sound node) (leads : node.role = .leader)
    (advanced : node.advanceLeaderCommit = .ok (raised,after)) :
    Balanced node.commitIndex after ∧ Sound after ∧ after.role = .leader ∧ after.config = node.config ∧
      after.peerProgress = node.peerProgress := by
  obtain ⟨raised',after',ran,moves,leads',progress⟩ := advanceLeaderCommit_ok none none sound leads
  cases advanced.symm.trans ran
  refine ⟨?_,moves_sound sound moves,leads',moves_config moves,progress⟩
  obtain ⟨result,searched,rest⟩ := bind_ok.mp advanced
  obtain ⟨good,covers⟩ := commitCandidate_greatest sound (Nat.le_refl _) searched
  cases result with
  | none =>
    cases rest
    refine ⟨fun index above ready => ?_,fun raised => absurd raised (Nat.lt_irrefl _)⟩
    obtain ⟨best,wrong,-⟩ := covers index above (ready.reached sound) ready
    cases wrong
  | some best =>
    obtain ⟨forward,ready⟩ := good best rfl
    simp only [commitThrough_ok sound forward (ready.reached sound),bind,Except.bind] at rest
    cases rest
    refine ⟨fun index above fit => ?_,fun _ => ready⟩
    have above : best < index := above
    obtain ⟨other,same,low⟩ := covers index (Nat.lt_trans forward above) (fit.reached sound) fit
    cases same
    omega

theorem appendAndReplicate_settles (sound : Sound node) (leads : node.role = .leader) (first : Unlogged node.actions)
    (content : Content offer kind command) (ran : node.appendAndReplicate kind command = .ok after) : Balanced node.commitIndex after := by
  have appended : Move none offer node (node.appendLocalEntry kind command) := .append leads kind command content first
  obtain ⟨⟨raised,middle⟩,advanced,sent⟩ := bind_ok.mp ran
  obtain ⟨settled,sound',leads',-⟩ := advanceLeaderCommit_settles (move_sound sound appended) leads advanced
  exact settled.level (broadcastTo_level (progress_unique sound' leads') sent)

def Abides (node after : RaftNode) : Prop := after.role = .leader → Balanced node.commitIndex after

theorem Level.leads (level : Level node after) (tight : node.role = .leader → Tight node) (role : after.role = node.role) : Abides node after :=
  fun leading => level.even.settled (tight (role ▸ leading))

theorem becomeLeader_leads (sound : Sound node) (candidate : node.role = .candidate) (won : node.quorum ≤ node.votesReceived.card)
    (early : (∀ action ∈ node.actions, action.isPersist = false) ∨ node.config.voters.length = 1) (first : Unlogged node.actions)
    (ran : node.becomeLeader = .ok after) : Abides node after := by
  have elected : Move none none node node.takeOffice := .elect candidate won early
  have content : Content none .noOp [] := .inl ⟨rfl,rfl⟩
  have settled : Balanced node.takeOffice.commitIndex after :=
    appendAndReplicate_settles (move_sound sound elected) rfl (takeOffice_unlogged first) content ran
  exact fun _ => settled

theorem startElection_leads (sound : Sound node) (calm : node.actions = []) (other : node.role ≠ .leader)
    (ran : node.startElection = .ok after) : Abides node after := by
  unfold RaftNode.startElection at ran
  split at ran
  · cases ran
  rename_i room
  have stood : Move none none node node.campaign := .campaign rfl calm other room
  dsimp only at ran
  split at ran
  · rename_i won
    have size : node.config.voters.length/2+1 ≤ 1 := won
    have nonempty := List.length_pos_of_ne_nil sound.configOk.size
    have alone : node.config.voters.length = 1 := by omega
    have led : Abides node.campaign after :=
      becomeLeader_leads (move_sound sound stood) rfl won (.inr alone) (campaign_unlogged calm) ran
    exact led
  · cases ran
    intro wrong
    cases wrong

theorem tick_leads (sound : Sound node) (calm : node.actions = []) (tight : node.role = .leader → Tight node)
    (ran : node.tick now = .ok after) : Abides node after := by
  unfold RaftNode.tick at ran
  split at ran
  · rename_i due
    exact startElection_leads sound calm due.1 ran
  split at ran
  · rename_i due
    obtain ⟨middle,sent,timed⟩ := bind_ok.mp ran
    cases timed
    have level : Level node {middle with heartbeatDeadline := saturatingAdd now middle.config.heartbeatInterval} :=
      (broadcastTo_level (progress_unique sound due.1) sent).trans (level_same rfl rfl rfl rfl rfl)
    exact fun _ => level.even.settled (tight due.1)
  · cases ran
    exact (Level.refl node).leads tight rfl

theorem handleRequestVote_leads (tight : node.role = .leader → Tight node) : Abides node (node.handleRequestVote source request) := by
  have kept : Level node (node.handleRequestVote source request) ∧ (node.handleRequestVote source request).role = node.role := by
    unfold RaftNode.handleRequestVote
    dsimp only
    split <;> split <;> exact ⟨level_same rfl rfl rfl rfl rfl,rfl⟩
  exact kept.1.leads tight kept.2

theorem handleRequestVoteResponse_leads (sound : Sound node) (voter : source ∈ node.config.voters)
    (calm : node.role ≠ .follower → node.actions = []) (tight : node.role = .leader → Tight node)
    (ran : node.handleRequestVoteResponse source response = .ok after) : Abides node after := by
  unfold RaftNode.handleRequestVoteResponse at ran
  split at ran
  · cases ran
    exact (Level.refl node).leads tight rfl
  rename_i counted
  simp only [ne_eq,not_or,not_not] at counted
  obtain ⟨candidate,term,granted⟩ := counted
  have quiet : node.actions = [] := calm (by simp [candidate])
  have voted : Move (some (source,.requestVoteResponse response)) none node {node with votesReceived := insert source node.votesReceived} :=
    .countVote rfl voter candidate term granted
  dsimp only at ran
  split at ran
  · rename_i won
    have early : ∀ action ∈ RaftNode.actions {node with votesReceived := insert source node.votesReceived}, action.isPersist = false := by
      intro action member
      rw [show RaftNode.actions {node with votesReceived := insert source node.votesReceived} = [] from quiet] at member
      cases member
    have led : Abides {node with votesReceived := insert source node.votesReceived} after :=
      becomeLeader_leads (move_sound sound voted) candidate won (.inl early) (.calm quiet) ran
    exact led
  · cases ran
    intro wrong
    rw [show RaftNode.role {node with votesReceived := insert source node.votesReceived} = .candidate from candidate] at wrong
    cases wrong

theorem answered_leads (tight : node.role = .leader → Tight node) (ran : result = .ok after)
    (reaches : Reaches packet none node result (fun after => after = told ∨ Following after)) (level : Level node told)
    (role : told.role = node.role) : Abides node after := by
  obtain ⟨final,same,-,either⟩ := reaches
  cases ran.symm.trans same
  rcases either with rfl | follower
  · exact level.leads tight role
  · intro leading
    cases follower.symm.trans leading

section responses
variable (sound : Sound node) (tight : node.role = .leader → Tight node)
include sound

theorem acknowledge_leads (leads : node.role = .leader) (found : get? node.peerProgress source = some stored)
    (tracked : rpc ∈ stored.recentRpcs) (ran : node.acknowledge source stored rpc matchIndex = .ok after) : Abides node after := by
  have counted : Sound (node.setProgress source (acknowledged stored rpc matchIndex)) :=
    setProgress_sound sound leads (acknowledged_ok (sound.progress_get found) tracked matchIndex)
  obtain ⟨⟨raised,middle⟩,advanced,sent⟩ := bind_ok.mp ran
  obtain ⟨settled,sound',leads',-⟩ := advanceLeaderCommit_settles counted leads advanced
  dsimp only at sent
  intro _
  split at sent
  · exact settled.level (broadcastTo_level (progress_unique sound' leads') sent)
  split at sent
  · exact settled.level (sendAppendEntries_level (progress_unique sound' leads') sent)
  · cases sent
    exact settled

theorem adjusted_leads (leads : node.role = .leader) (tight : Tight node) (found : get? node.peerProgress source = some stored)
    (sent : (node.setProgress source progress).sendAppendEntries source = .ok after)
    (counted : ∀ index, node.commitIndex < index → index ≤ progress.matchIndex → index ≤ stored.matchIndex) : Abides node after := by
  have unique := progress_unique sound leads
  have even := setProgress_even unique found counted
  have unique' : (keys (node.setProgress source progress).peerProgress).Nodup := by
    rw [show keys (node.setProgress source progress).peerProgress = keys node.peerProgress from keys_set]
    exact unique
  exact fun _ => (even.trans (sendAppendEntries_level unique' sent).even).settled tight

include tight

theorem handleAppendEntriesResponse_leads (ran : node.handleAppendEntriesResponse source response = .ok after) : Abides node after := by
  have unchanged : Abides node node := (Level.refl node).leads tight rfl
  unfold RaftNode.handleAppendEntriesResponse at ran
  split at ran
  · cases ran
    exact unchanged
  rename_i current
  simp only [ne_eq,not_or,not_not] at current
  split at ran
  · cases ran
    exact unchanged
  rename_i stored found
  split at ran
  · cases ran
    exact unchanged
  rename_i rpc sent
  split at ran
  · exact acknowledge_leads sound current.1 found (List.mem_of_find?_eq_some sent) ran
  split at ran
  · cases ran
    exact unchanged
  · unfold RaftNode.backUp at ran
    exact adjusted_leads sound current.1 (tight current.1) found ran (fun _ _ matched => matched)

theorem continueTransfer_leads (leads : node.role = .leader) (found : get? node.peerProgress source = some stored)
    (durable : node.durableSnapshot = some image) (ran : node.continueTransfer source response stored image = .ok after) :
    Abides node after := by
  have unchanged : Abides node node := (Level.refl node).leads tight rfl
  have base : image.lastIncludedIndex = node.baseIndex := by
    rw [sound.base,durable]
    rfl
  have retained := sound.retained
  unfold RaftNode.continueTransfer at ran
  dsimp only at ran
  split at ran
  · cases ran
    exact unchanged
  split at ran
  · cases ran
    exact unchanged
  split at ran
  · split at ran
    · cases ran
      exact unchanged
    · exact adjusted_leads sound leads (tight leads) found ran (fun _ _ matched => matched)
  split at ran
  · cases ran
    exact unchanged
  split at ran
  · cases ran
    exact unchanged
  split at ran
  · cases ran
    exact unchanged
  split at ran
  · exact adjusted_leads sound leads (tight leads) found ran (fun _ _ matched => matched)
  · refine adjusted_leads sound leads (tight leads) found ran (fun index above matched => ?_)
    simp only at matched
    omega

theorem handleInstallSnapshotResponse_leads (ran : node.handleInstallSnapshotResponse source response = .ok after) : Abides node after := by
  have unchanged : Abides node node := (Level.refl node).leads tight rfl
  unfold RaftNode.handleInstallSnapshotResponse at ran
  split at ran
  · cases ran
    exact unchanged
  rename_i current
  simp only [ne_eq,not_or,not_not] at current
  split at ran
  · rename_i stored image found durable
    exact continueTransfer_leads sound tight current.1 found durable ran
  · cases ran
    exact unchanged

end responses

theorem handle_leads (sound : Sound node) (voter : source ∈ node.config.voters) (calm : node.role ≠ .follower → node.actions = [])
    (quiet : Quiet node.actions) (positive : message.Positive) (bounded : message.term ≤ node.currentTerm) (tight : node.role = .leader → Tight node)
    (ran : node.handle source message = .ok after) : Abides node after := by
  cases message with
  | requestVote =>
    cases ran
    exact handleRequestVote_leads tight
  | requestVoteResponse => exact handleRequestVoteResponse_leads sound voter calm tight ran
  | appendEntries => 
    exact answered_leads tight ran (handleAppendEntries_reaches sound calm voter positive bounded) (level_same rfl rfl rfl rfl rfl) rfl
  | appendEntriesResponse => exact handleAppendEntriesResponse_leads sound tight ran
  | installSnapshot => 
    exact answered_leads tight ran (handleInstallSnapshot_reaches sound calm voter quiet bounded) (level_same rfl rfl rfl rfl rfl) rfl
  | installSnapshotResponse => exact handleInstallSnapshotResponse_leads sound tight ran

theorem receive_leads (sound : Sound node) (positive : message.Positive) (tight : node.role = .leader → Tight node)
    (ran : node.clearActions.receive source message = .ok after) : Abides node after := by
  unfold RaftNode.receive at ran
  split at ran
  · cases ran
    exact (level_same rfl rfl rfl rfl rfl : Level node node.clearActions).leads tight rfl
  rename_i accepted
  simp only [not_or,not_not] at accepted
  have voter : source ∈ node.config.voters := by simpa [RaftNode.isVoter,RaftNode.clearActions] using accepted.2
  obtain ⟨moves,calm⟩ := raised_moves voter message
  have opened : Opened node.clearActions (node.clearActions.raised source message) := raised_opened
  have handled : (node.clearActions.raised source message).handle source message = .ok after := by
    unfold RaftNode.raised
    split at ran
    · rename_i higher
      rw [if_pos higher]
      exact ran
    · rename_i current
      rw [if_neg current]
      exact ran
  have quiet : Quiet (node.clearActions.raised source message).actions := by
    unfold RaftNode.raised
    split
    · exact becomeFollower_quiet (.calm rfl)
    · exact .calm rfl
  have level : (node.clearActions.raised source message).currentTerm = max node.currentTerm message.term := raised_term
  have led : Abides (node.clearActions.raised source message) after := by
    refine handle_leads (moves_sound (clear_sound sound) moves) (opened.config ▸ voter) calm quiet positive (by omega) ?_ handled
    intro leads
    have same : node.clearActions.raised source message = node.clearActions := by
      refine if_neg fun higher => ?_
      unfold RaftNode.raised at leads
      rw [if_pos higher] at leads
      cases leads
    rw [same] at leads ⊢
    exact tight leads
  intro leading
  have settled := led leading
  rw [opened.commit] at settled
  exact settled

theorem cutLog_even (forward : node.baseIndex < image.lastIncludedIndex)
    (applied : image.lastIncludedIndex ≤ node.commitIndex) : Even node (node.cutLog image) := by
  have replicated : ∀ index, (node.cutLog image).replicated index = node.replicated index := by
    intro index
    unfold RaftNode.replicated RaftNode.cutLog RaftNode.push Assoc.mapValues
    rw [List.countP_map]
    rfl
  refine ⟨rfl,fun index above ready => ?_⟩
  obtain ⟨⟨-,entry,got,same⟩,agreed⟩ := ready
  rw [replicated] at agreed
  refine ⟨⟨by omega,entry,?_,same⟩,agreed⟩
  have got : (RaftNode.sentinel image::node.log.drop (image.lastIncludedIndex-node.baseIndex+1))[index-image.lastIncludedIndex]? =
    some entry := got
  rw [show index-image.lastIncludedIndex = index-image.lastIncludedIndex-1+1 by omega,List.getElem?_cons_succ,
    List.getElem?_drop] at got
  rw [← got]
  congr 1
  omega

theorem appendAsLeader_leads (sound : Sound node) (content : Content offer kind command) (tight : node.role = .leader → Tight node)
    (ran : node.clearActions.appendAsLeader kind command = .ok after) : Abides node after := by
  unfold RaftNode.appendAsLeader at ran
  split at ran
  · cases ran
    exact (level_same rfl rfl rfl rfl rfl : Level node (node.clearActions.push _)).leads tight rfl
  · rename_i leads
    have settled : Balanced node.clearActions.commitIndex after :=
      appendAndReplicate_settles (clear_sound sound) (not_not.mp leads) (.calm rfl) content ran
    exact fun _ => settled

theorem finish_result (ran : node.finish = .ok (after,actions)) : after = node.clearActions := by
  obtain ⟨-,-,same⟩ := bind_ok.mp ran
  cases same
  rfl

theorem Abides.clear (leads : Abides node after) : Abides node after.clearActions := fun leading =>
  (leads leading).level (level_same rfl rfl rfl rfl rfl)

theorem call_leads (sound : Sound node) (positive : input.Positive) (tight : node.role = .leader → Tight node)
    (ran : node.call input = .ok (after,actions)) : Abides node after := by
  cases input with
  | advanceTime now =>
    unfold RaftNode.call RaftNode.advanceTime at ran
    dsimp only at ran
    split at ran
    · cases ran
    obtain ⟨middle,ticked,finished⟩ := bind_ok.mp ran
    have timed : Sound ({node with now := now}).clearActions := {sound with}
    have led : Abides ({node with now := now}).clearActions middle := tick_leads timed rfl tight ticked
    rw [finish_result finished]
    exact led.clear
  | step =>
    obtain ⟨middle,received,finished⟩ := bind_ok.mp ran
    rw [finish_result finished]
    exact (receive_leads sound positive tight received).clear
  | propose command =>
    obtain ⟨middle,appended,finished⟩ := bind_ok.mp ran
    have content : Content (some (.command command)) .command command := .inr ⟨rfl,rfl⟩
    rw [finish_result finished]
    exact (appendAsLeader_leads sound content tight appended).clear
  | readBarrier =>
    obtain ⟨middle,appended,finished⟩ := bind_ok.mp ran
    have content : Content none .noOp [] := .inl ⟨rfl,rfl⟩
    rw [finish_result finished]
    exact (appendAsLeader_leads sound content tight appended).clear
  | compact snapshot =>
    unfold RaftNode.call RaftNode.compact at ran
    dsimp only at ran
    split at ran
    · cases ran
    rename_i inside
    simp only [not_or,Nat.not_le,Nat.not_lt] at inside
    obtain ⟨boundary,-,cut⟩ := bind_ok.mp ran
    split at cut
    · cases cut
    have applied := sound.applied
    have kept : Even node.clearActions (node.clearActions.cutLog snapshot) :=
      cutLog_even inside.2.1 (Nat.le_trans inside.2.2 (Nat.le_of_eq applied))
    rw [finish_result cut]
    intro leading
    exact (kept.settled (tight leading)).level (level_same rfl rfl rfl rfl rfl)

-- A leader has committed all it can after every call, and what it commits in a
-- call is the greatest index that it can.
theorem leader_commit_tight (config : RaftConfig) (persistent : RaftPersistentState) (time : Nat)
    (valid : validateConfig config = .ok ()) (fine : validatePersistentState config persistent = .ok ()) :
    ∃ start, RaftNode.create config persistent time = .ok start ∧ ∀ emitted node, Runs start emitted node →
      (node.role = .leader → ∀ index, node.commitIndex < index → ¬ Committable node index) ∧
      ∀ input, input.Arrives → ∀ after actions, node.call input = .ok (after,actions) → after.role = .leader →
        node.commitIndex < after.commitIndex → Committable after after.commitIndex ∧
          ∀ index, Committable after index → index ≤ after.commitIndex := by
  have created : Created config persistent (fresh config persistent time) :=
    fresh_created valid (validatePersistentState_ok fine)
  refine ⟨_,create_fresh valid fine,fun emitted node runs => ?_⟩
  have sound := runs_sound created.sound runs
  have tight : node.role = .leader → Tight node := by
    induction runs with
    | nil => exact fun wrong => by cases wrong
    | returned earlier arrives ran ih =>
      have before := runs_sound created.sound earlier
      exact fun leading => (call_leads before arrives.positive (ih before) ran leading).tight
    | threw earlier arrives ran ih =>
      have before := runs_sound created.sound earlier
      obtain ⟨-,untouched,-⟩ := call_throws before arrives.positive ran
      have config := (call_config before arrives.positive).2 _ ran
      intro leading
      have level : Level _ _ := level_same config untouched.term untouched.log untouched.commit untouched.progress
      exact level.even.tight (ih before (untouched.role ▸ leading))
  refine ⟨tight,fun input arrives after actions ran leading raised => ?_⟩
  have settled := call_leads sound arrives.positive tight ran leading
  refine ⟨settled.greatest raised,fun index ready => ?_⟩
  by_contra beyond
  exact settled.tight index (Nat.not_le.mp beyond) ready

-- A single voter wins its election and commits its first entry in one call.
theorem leader_commit_tight_solo : ∃ start after actions, RaftNode.create soloConfig .empty 0 = .ok start ∧
    start.call (.advanceTime 10) = .ok (after,actions) ∧ after.role = .leader ∧ start.commitIndex < after.commitIndex ∧
    Committable after after.commitIndex ∧ ∀ index, Committable after index → index ≤ after.commitIndex := by
  obtain ⟨start,created,tight⟩ := leader_commit_tight soloConfig .empty 0 rfl rfl
  cases (create_fresh rfl rfl).symm.trans created
  obtain ⟨-,raises⟩ := tight [] _ .nil
  have called : (fresh soloConfig .empty 0).call (.advanceTime 10) = .ok ((fresh soloConfig .empty 0).returns (.advanceTime 10)) := rfl
  have led : ((fresh soloConfig .empty 0).returns (.advanceTime 10)).1.role = .leader := rfl
  have forward : (fresh soloConfig .empty 0).commitIndex < ((fresh soloConfig .empty 0).returns (.advanceTime 10)).1.commitIndex := by
    decide
  exact ⟨_,_,_,created,called,led,forward,raises (.advanceTime 10) trivial _ _ called led forward⟩

end ForgeKv.Raft
