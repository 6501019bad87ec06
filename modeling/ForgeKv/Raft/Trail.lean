import ForgeKv.Raft.Following

namespace ForgeKv.Raft
open Assoc Lineage Ballot

variable {voters : Finset NodeId} {net : Packet → Prop} {ghost middle later : Abstract} {host : NodeId}
  {node between after : RaftNode} {durable : RaftPersistentState}

def Actions.persists (actions : Actions) : Actions := actions.filter Action.isPersist

theorem commitTo_announces (announced : .roleChanged previous .leader term leader ∈ (node.commitTo index).actions) :
    .roleChanged previous .leader term leader ∈ node.actions := by
  cases List.mem_append.mp announced with
  | inl old => exact old
  | inr new =>
    cases List.mem_cons.mp new with
    | inl first => cases first
    | inr applied =>
      obtain ⟨entry,-,wrong⟩ := List.mem_map.mp applied
      cases wrong

-- Only a node that was just elected announces a leader. It has persisted nothing
-- in the same call unless it is the only voter.
theorem move_leader (move : Move packet offer node after)
    (announced : .roleChanged previous .leader term leader ∈ after.actions) :
    .roleChanged previous .leader term leader ∈ node.actions ∨
      (after.actions.persists = node.actions.persists ∧ (node.actions.persists = [] ∨ node.config.voters.length = 1)) := by
  cases move with
  | elect candidate won early =>
    refine .inr ⟨?_,early.imp (fun none => ?_) id⟩
    · simp [RaftNode.takeOffice,RaftNode.push,Actions.persists,List.filter_append,List.filter,Action.isPersist]
    · exact List.filter_eq_nil_iff.mpr (fun action member => by simp [none action member])
  | commit | learn => exact .inl (commitTo_announces announced)
  | _ =>
    refine .inl ?_
    simpa [RaftNode.becomeFollower,RaftNode.campaign,RaftNode.sendToOthers,RaftNode.resetElectionDeadline,
      RaftNode.appendLocalEntry,RaftNode.commitTo,RaftNode.pushLogSuffix,RaftNode.sendSnapshotChunk,RaftNode.setProgress,
      RaftNode.replaceSuffix,RaftNode.sendAppendResponse,RaftNode.sendSnapshotResponse,RaftNode.adoptImage,RaftNode.cutLog,
      RaftNode.push,RaftNode.pushIf] using announced

theorem persists_append (actions new : Actions) : Actions.persists (actions ++ new) = actions.persists ++ new.persists :=
  List.filter_append ..

theorem ActionOk.persisted (ok : ActionOk voters ghost node action) (persists : action.isPersist = true) :
    ActionOk voters ghost after action := by
  cases action with
  | persistSnapshot => exact ok
  | persistHardState | persistLog => trivial
  | sendMessage | roleChanged | commitAdvanced | applyEntry
  | applySnapshot | proposalRejected => cases persists

-- An abstract state for a machine that crashes after `done` of the persistence
-- actions of a call. Whoever was announced as leader in the call is elected in it.
structure Halfway (voters : Finset NodeId) (ghost : Abstract) (host : NodeId) (durable : RaftPersistentState) (node : RaftNode)
    (done : Actions) (half : Abstract) : Prop where
  turn : Turn voters host ghost half
  view : Matches voters half host (durable.persistAll done)
  fine : ∀ action ∈ done, ∀ state, ActionOk voters half state action
  leader : ∀ previous term leader, .roleChanged previous .leader term leader ∈ node.actions →
    node.config.voters.length = 1 ∨ ∃ start, half.elected term = some (host,start)

-- A node in the middle of a call, with the durable state the call began with.
structure Trail (voters : Finset NodeId) (net : Packet → Prop) (ghost : Abstract) (host : NodeId)
    (durable : RaftPersistentState) (node : RaftNode) : Prop where
  now : ∃ later, Turn voters host ghost later ∧ Within voters net later host node
  stored : node.persistent = durable.persistAll node.actions
  crash : ∀ count < node.actions.persists.length, ∃ half, Halfway voters ghost host durable node (node.actions.persists.take count) half

theorem move_trail (trail : Trail voters net ghost host durable node) (move : Move packet offer node after)
    (delivered : ∀ source message, packet = some (source,message) → net ⟨source,host,message⟩) :
    Trail voters net ghost host durable after := by
  obtain ⟨⟨middle,turn,within⟩,stored,crash⟩ := trail
  obtain ⟨later,step,next⟩ := move_within within move delivered
  obtain ⟨new,emits⟩ := move_emits within.sim.sound move
  refine ⟨⟨later,turn.trans step,next⟩,?_,?_⟩
  · rw [emits.durable,stored,emits.actions,persistAll_append]
  intro count low
  have config := move_config move
  rw [emits.actions,persists_append] at low ⊢
  by_cases old : count < node.actions.persists.length
  · obtain ⟨half,turn,view,fine,leader⟩ := crash count old
    rw [List.take_append_of_le_length (Nat.le_of_lt old)]
    refine ⟨half,turn,view,fine,?_⟩
    intro previous term known announced
    rw [config]
    cases move_leader move announced with
    | inl before => exact leader previous term known before
    | inr elected =>
      cases elected.2 with
      | inl none => rw [none] at old; cases old
      | inr alone => exact .inl alone
  · -- The crash comes right before the one action that the piece persists.
    have single := emits.single
    have here : count = node.actions.persists.length := by
      rw [List.length_append] at low
      unfold Actions.persists at *
      omega
    rw [here,List.take_left]
    refine ⟨middle,turn,?_,?_,?_⟩
    · rw [Actions.persists,persistAll_filter,← stored]; exact within.sim.view
    · intro action member state
      obtain ⟨inside,persists⟩ := List.mem_filter.mp member
      exact (within.emitted action inside).persisted persists
    · intro previous term known announced
      cases move_leader move announced with
      | inl before =>
        obtain ⟨role,same⟩ := within.emitted _ before
        obtain ⟨start,led,-⟩ := (within.sim.leads role).elected
        rw [same] at led
        exact .inr ⟨start,led⟩
      | inr elected =>
        have plain := elected.1
        rw [emits.actions,persists_append] at plain
        rw [plain] at low
        exact absurd low old

theorem moves_trail (within : Within voters net ghost host node) (calm : node.actions = []) (moves : Moves packet offer node after)
    (delivered : ∀ source message, packet = some (source,message) → net ⟨source,host,message⟩) :
    Trail voters net ghost host node.persistent after := by
  induction moves with
  | nil =>
    refine ⟨⟨ghost,.refl _ _ _,within⟩,?_,?_⟩
    · rw [calm]; rfl
    · rw [calm]
      intro count low
      cases low
  | step _ move ih => exact move_trail ih move delivered

end ForgeKv.Raft
