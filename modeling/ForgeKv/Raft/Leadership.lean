import ForgeKv.Raft.Incarnation
import ForgeKv.Raft.Session

namespace ForgeKv.Raft

variable {node middle after : RaftNode}

def Action.nextRole (role : Role) : Action → Role
  | .roleChanged _ next _ _ => next
  | _ => role

-- The role that the reported changes end in.
def roleAfter (role : Role) (actions : Actions) : Role := actions.foldl Action.nextRole role

def Action.demotes : Action → Bool
  | .roleChanged _ next _ _ => next ≠ .leader
  | _ => false

def Action.promotes : Action → Bool
  | .roleChanged .. => true
  | _ => false

theorem Action.demotes_promotes {action : Action} (demotes : action.demotes = true) : action.promotes = true := by
  cases action <;> first | rfl | cases demotes

theorem roleAfter_append : roleAfter role (actions ++ more) = roleAfter (roleAfter role actions) more := List.foldl_append ..

theorem roleAfter_plain (plain : ∀ action ∈ actions, action.promotes = false) : roleAfter role actions = role := by
  induction actions with
  | nil => rfl
  | cons action rest ih =>
    have first := plain action List.mem_cons_self
    have later := ih fun other member => plain other (List.mem_cons_of_mem _ member)
    cases action <;> first | exact later | cases first

theorem roleAfter_published (role : Role) (actions : Actions) :
    roleAfter role (actions.filter (fun action => !action.isPersist)) = roleAfter role actions := by
  induction actions generalizing role with
  | nil => rfl
  | cons action rest ih => cases action <;> exact ih _

-- What a piece of a call reports of the role. A leader that goes on leading only
-- makes its log longer.
structure Reports (node after : RaftNode) (new : Actions) : Prop where
  actions : after.actions = node.actions ++ new
  role : roleAfter node.role new = after.role
  kept : node.role = .leader → (∃ action ∈ new, action.demotes = true) ∨
    (after.role = .leader ∧ node.lastLogIndex ≤ after.lastLogIndex)

theorem Reports.nil (node : RaftNode) : Reports node node [] :=
  ⟨(List.append_nil _).symm,rfl,fun leads => .inr ⟨leads,Nat.le_refl _⟩⟩

theorem Reports.trans (first : Reports node middle new) (second : Reports middle after more) : Reports node after (new ++ more) := by
  refine ⟨by rw [second.actions,first.actions,List.append_assoc],by rw [roleAfter_append,first.role,second.role],fun leads => ?_⟩
  rcases first.kept leads with ⟨action,member,demotes⟩ | ⟨leads',longer⟩
  · exact .inl ⟨action,List.mem_append_left _ member,demotes⟩
  · rcases second.kept leads' with ⟨action,member,demotes⟩ | ⟨leads'',longer'⟩
    · exact .inl ⟨action,List.mem_append_right _ member,demotes⟩
    · exact .inr ⟨leads'',Nat.le_trans longer longer'⟩

theorem reports_plain (actions : after.actions = node.actions ++ new) (role : after.role = node.role)
    (plain : ∀ action ∈ new, action.promotes = false) (longer : node.role = .leader → node.lastLogIndex ≤ after.lastLogIndex) :
    Reports node after new :=
  ⟨actions,by rw [roleAfter_plain plain,role],fun leads => .inr ⟨role.trans leads,longer leads⟩⟩

theorem reports_pushed (log : after.log = node.log) (role : after.role = node.role) (actions : after.actions = node.actions ++ [action])
    (plain : action.promotes = false) : Reports node after [action] := by
  refine reports_plain actions role (by simpa using plain) fun _ => Nat.le_of_eq ?_
  unfold RaftNode.lastLogIndex RaftNode.lastEntry
  rw [log]

theorem reports_silent (log : after.log = node.log) (role : after.role = node.role) (actions : after.actions = node.actions) :
    Reports node after [] := by
  refine reports_plain (by rw [actions,List.append_nil]) role (List.forall_mem_nil _) fun _ => Nat.le_of_eq ?_
  unfold RaftNode.lastLogIndex RaftNode.lastEntry
  rw [log]

theorem becomeFollower_reports : ∃ new, Reports node (node.becomeFollower term leader) new := by
  refine ⟨_,List.append_assoc ..,?_,fun leads => .inl ?_⟩
  · by_cases active : node.role = .follower <;> by_cases higher : node.currentTerm < term <;>
      simp [roleAfter,RaftNode.becomeFollower,RaftNode.pushIf,RaftNode.resetElectionDeadline,Action.nextRole,active,higher]
  · have active : decide (node.role ≠ .follower) = true := by simp [leads]
    rw [if_pos active]
    exact ⟨_,List.mem_append_left _ (List.mem_singleton_self _),rfl⟩

theorem campaign_reports (other : node.role ≠ .leader) : ∃ new, Reports node node.campaign new := by
  refine ⟨_,by simp only [RaftNode.campaign,RaftNode.sendToOthers,RaftNode.push,RaftNode.pushIf,
    RaftNode.resetElectionDeadline,List.append_assoc]; rfl,?_,fun leads => absurd leads other⟩
  have sent : ∀ (peers : List NodeId) (message : Message) (role : Role),
      roleAfter role (peers.map fun voter => Action.sendMessage voter message) = role := by
    intro peers message role
    refine roleAfter_plain fun action member => ?_
    obtain ⟨-,-,rfl⟩ := List.mem_map.mp member
    rfl
  rw [roleAfter_append,roleAfter_append,sent]
  by_cases standing : node.role = .candidate <;>
    simp [roleAfter,RaftNode.campaign,RaftNode.sendToOthers,RaftNode.push,RaftNode.pushIf,RaftNode.resetElectionDeadline,
      Action.nextRole,standing]

theorem takeOffice_reports (candidate : node.role = .candidate) : ∃ new, Reports node node.takeOffice new :=
  ⟨_,rfl,rfl,fun leads => by rw [candidate] at leads; cases leads⟩

theorem commitTo_reports : ∃ new, Reports node (node.commitTo index) new := by
  refine ⟨_,reports_plain rfl rfl ?_ fun _ => Nat.le_refl _⟩
  intro action member
  rcases List.mem_cons.mp member with rfl | applied
  · rfl
  · obtain ⟨-,-,rfl⟩ := List.mem_map.mp applied
    rfl

theorem move_reports (sound : Sound node) (move : Move packet offer node after) : ∃ new, Reports node after new := by
  cases move with
  | retime => exact ⟨_,reports_silent rfl rfl rfl⟩
  | raise | stepDown => exact becomeFollower_reports
  | follow => exact ⟨_,reports_silent rfl rfl rfl⟩
  | campaign timer calm other => exact campaign_reports other
  | grant => exact ⟨_,reports_pushed rfl rfl rfl rfl⟩
  | countVote => exact ⟨_,reports_silent rfl rfl rfl⟩
  | elect candidate => exact takeOffice_reports candidate
  | append =>
    refine ⟨_,reports_plain rfl rfl (by simp [Action.promotes]) fun _ => ?_⟩
    rw [append_last]
    exact Nat.le_succ _
  | commit => exact commitTo_reports
  | sendSuffix | sendChunk => exact ⟨_,reports_pushed rfl rfl rfl rfl⟩
  | adjust | matchLog
  | matchImage => exact ⟨_,reports_silent rfl rfl rfl⟩
  | replace arrived joins =>
    refine ⟨_,reports_plain rfl rfl (by simp [Action.promotes]) fun leads => ?_⟩
    rw [joins.accepts.follower] at leads
    cases leads
  | learn => exact commitTo_reports
  | answerVote | refuseEntries | acceptEntries
  | refuseChunk | acceptChunk => exact ⟨_,reports_pushed rfl rfl rfl rfl⟩
  | begin | gather | discard => exact ⟨_,reports_silent rfl rfl rfl⟩
  | install arrived installs =>
    refine ⟨_,reports_plain (List.append_assoc ..) rfl (by simp [Action.promotes]) fun leads => ?_⟩
    rw [installs.follower] at leads
    cases leads
  | compact own asked calm forward applied current =>
    refine ⟨_,reports_plain rfl rfl (by simp [Action.promotes]) fun _ => Nat.le_of_eq ?_⟩
    exact (cutLog_last sound current forward).symm
  | refuse => exact ⟨_,reports_pushed rfl rfl rfl rfl⟩

theorem moves_reports (sound : Sound node) (moves : Moves packet offer node after) : ∃ new, Reports node after new := by
  induction moves with
  | nil => exact ⟨_,.nil node⟩
  | step earlier move ih =>
    obtain ⟨new,reports⟩ := ih
    obtain ⟨more,reports'⟩ := move_reports (moves_sound sound earlier) move
    exact ⟨_,reports.trans reports'⟩

theorem call_reports (sound : Sound node) (positive : input.Positive) (ran : node.call input = .ok (after,actions)) :
    roleAfter node.role actions = after.role ∧ (node.role = .leader → (∃ action ∈ actions, action.demotes = true) ∨
      (after.role = .leader ∧ node.lastLogIndex ≤ after.lastLogIndex)) := by
  obtain ⟨final,moves,rfl,rfl⟩ := call_returns sound positive ran
  obtain ⟨new,reports⟩ := moves_reports (clear_sound sound) moves
  have same : final.actions = new := reports.actions
  rw [same]
  exact ⟨reports.role,reports.kept⟩

def Input.entry : Input → Option (EntryKind × Bytes)
  | .propose command => some (.command,command)
  | .readBarrier => some (.noOp,[])
  | _ => none

def Action.rejects : Action → Bool
  | .proposalRejected _ => true
  | _ => false

structure Remains (node after : RaftNode) : Prop extends Frame node after where
  rejected : ∀ action ∈ after.actions, action.rejects = true → action ∈ node.actions

theorem Remains.trans (one : Remains node middle) (two : Remains middle after) : Remains node after :=
  ⟨one.toFrame.trans two.toFrame,fun action member rejects => one.rejected action (two.rejected action member rejects) rejects⟩

theorem sendAppendEntries_continues (sent : node.sendAppendEntries peer = .ok after) : Remains node after := by
  obtain ⟨-,-,-,rfl,-⟩ := sendAppendEntries_sent sent
  refine ⟨⟨rfl,rfl,rfl,rfl,rfl,Nat.le_refl _⟩,fun action member rejects => ?_⟩
  rcases List.mem_append.mp member with old | new
  · exact old
  · cases List.mem_singleton.mp new
    cases rejects

theorem broadcastTo_continues (sent : node.broadcastTo peers = .ok after) : Remains node after :=
  broadcastTo_keeps (fun _ remains first => remains.trans (sendAppendEntries_continues first))
    ⟨⟨rfl,rfl,rfl,rfl,rfl,Nat.le_refl _⟩,fun _ member _ => member⟩ sent

theorem commitTo_continues (forward : node.commitIndex ≤ index) : Remains node (node.commitTo index) := by
  refine ⟨⟨rfl,rfl,rfl,rfl,rfl,forward⟩,fun action member rejects => ?_⟩
  rcases List.mem_append.mp member with old | new
  · exact old
  rcases List.mem_cons.mp new with rfl | applied
  · cases rejects
  · obtain ⟨entry,-,rfl⟩ := List.mem_map.mp applied
    cases rejects

theorem appendAndReplicate_continues (sound : Sound (node.appendLocalEntry kind command))
    (ran : node.appendAndReplicate kind command = .ok after) : Remains (node.appendLocalEntry kind command) after := by
  obtain ⟨⟨raised,middle⟩,advanced,sent⟩ := bind_ok.mp ran
  have rest := broadcastTo_continues sent
  rcases advanceLeaderCommit_cases sound with nothing | ⟨index,commits,forward,-⟩
  · rw [nothing] at advanced
    cases advanced
    exact rest
  · rw [commits] at advanced
    cases advanced
    exact (commitTo_continues (Nat.le_of_lt forward)).trans rest

theorem leader_appends (sound : Sound node) (leads : node.role = .leader) (own : input.entry = some (kind,command))
    (ran : node.call input = .ok (after,actions)) :
    after.role = .leader ∧ after.log = node.log ++ [⟨node.lastLogIndex+1,node.currentTerm,kind,command⟩] ∧
      ∀ action ∈ actions, action.rejects = false := by
  have leads' : node.clearActions.role = .leader := leads
  have sound' := clear_sound sound
  obtain ⟨final,asked,content,finished⟩ : ∃ final, node.clearActions.appendAndReplicate kind command = .ok final ∧
      Content input.offer kind command ∧ final.finish = .ok (after,actions) := by
    cases input with
    | propose =>
      cases own
      obtain ⟨final,asked,finished⟩ := bind_ok.mp ran
      unfold RaftNode.appendAsLeader at asked
      rw [if_neg (not_not.mpr leads')] at asked
      exact ⟨final,asked,.inr ⟨rfl,rfl⟩,finished⟩
    | readBarrier =>
      cases own
      obtain ⟨final,asked,finished⟩ := bind_ok.mp ran
      unfold RaftNode.appendAsLeader at asked
      rw [if_neg (not_not.mpr leads')] at asked
      exact ⟨final,asked,.inl ⟨rfl,rfl⟩,finished⟩
    | _ => cases own
  obtain ⟨⟨⟩,-,returned⟩ := bind_ok.mp finished
  cases returned
  have appended : Move none input.offer node.clearActions (node.clearActions.appendLocalEntry kind command) :=
    .append leads' kind command content (.calm rfl)
  have continues := appendAndReplicate_continues (move_sound sound' appended) asked
  refine ⟨continues.role.trans leads,continues.log,fun action member => ?_⟩
  cases rejects : action.rejects with
  | false => rfl
  | true =>
    have only : action = .persistLog (node.lastLogIndex+1) [⟨node.lastLogIndex+1,node.currentTerm,kind,command⟩] :=
      List.mem_singleton.mp (continues.rejected action member rejects)
    rw [only] at rejects
    cases rejects

end ForgeKv.Raft
