import ForgeKv.Cluster.Completion
import ForgeKv.Cluster.Received
import ForgeKv.Raft.Answering

namespace ForgeKv.Cluster
open Raft RaftStorage Persisted
open Procedure (Ensures Meets Keeps)
open ClusterNode

theorem isRequestMessage_eq (message : Message) : isRequestMessage message = message.isRequest := by
  cases message <;> rfl

theorem replied_matches (replied : Replied request response)
    (small : ∀ append, request = .appendEntries append → append.previousLogIndex+append.entries.length < 2^64) :
    matchesPeerRequest request response = true := by
  cases replied with
  | vote => rfl
  | append rpc reached =>
    rename_i append reply
    cases good : reply.success with
    | false => simp [matchesPeerRequest,rpc,good]
    | true =>
      have whole : (append.previousLogIndex+append.entries.length) % 2^64 = reply.matchIndex :=
        (Nat.mod_eq_of_lt (small append rfl)).trans (reached good).symm
      simp only [matchesPeerRequest,rpc,good,whole]
      simp
  | chunk rpc index => simp [matchesPeerRequest,rpc,index]

theorem replied_answer (replied : Replied request response) : isRequestMessage response = false := by
  cases replied <;> rfl

theorem arrives_small (arrives : Arrives message) :
    ∀ append, message = .appendEntries append → append.previousLogIndex+append.entries.length < 2^64 := by
  rintro append rfl
  obtain ⟨⟨frame,decodes⟩,bounded⟩ := arrives
  have index : append.previousLogIndex < 2^63 := bounded _ List.mem_cons_self
  have count := decodes.entries.1
  have limit : maxRaftLogEntriesPerRecord < 2^63 := by decide
  omega

theorem peerResponse_honest {requester : ClusterNodeConfig} (matched : matchesPeerRequest request response = true)
    (answer : isRequestMessage response = false) (same : frame.requestId = requestId)
    (decoded : decodePeerFrame frame = .ok ⟨requester.clusterId,target,requester.nodeId,response⟩) :
    peerResponse requester target request requestId frame = some response := by
  unfold peerResponse
  rw [if_neg (not_not.mpr same),decoded]
  simp [matched,answer]

-- While the actions of a step are published, the owner waits for the one message
-- that they still hold, or has it.
structure Hears (source : NodeId) (response : Message) (rest : Actions) (node : ClusterNode) : Prop where
  listens : node.owner.activePeerFrom = some source
  hears : messages rest = [(source,response)] ∨ (messages rest = [] ∧ node.owner.activePeerResponse = some response)

section hears
variable {source : NodeId} {response : Message} {rest : Actions}

theorem Hears.undisturbed (heard : Hears source response rest node) (listens : after.owner.activePeerFrom = node.owner.activePeerFrom)
    (same : after.owner.activePeerResponse = node.owner.activePeerResponse) : Hears source response rest after :=
  ⟨listens.trans heard.listens,heard.hears.imp_right fun ⟨silent,got⟩ => ⟨silent,same.trans got⟩⟩

theorem elapse_hears : Keeps (Hears source response rest) elapse (fun _ _ => True) := by
  intro node heard
  unfold ClusterNode.elapse ClusterNode.runBackground ClusterNode.publish ClusterNode.setFuture ClusterNode.pass
  repeat' split
  all_goals exact heard.undisturbed rfl rfl

theorem persistAction_hears : Keeps (Hears source response rest) (persistAction action) (fun _ _ => True) := by
  refine elapse_hears.andThen (ClusterNode.onDriver_ensures fun node heard => ?_)
  match PersistedRaftNode.persistAction action node.driver with
  | (driver,none) => exact heard.undisturbed rfl rfl
  | (driver,some thrown) => trivial

theorem onAction_deaf {owner : OwnerState} (plain : action.addressed = none) : Meets (fun after =>
    after.activePeerFrom = owner.activePeerFrom ∧ after.activePeerResponse = owner.activePeerResponse) (fun _ _ => True)
      (OwnerState.onAction action owner) := by
  cases action with
  | sendMessage => cases plain
  | roleChanged =>
    dsimp only [OwnerState.onAction,OwnerState.roleChanged]
    split <;> exact ⟨rfl,rfl⟩
  | proposalRejected =>
    dsimp only [OwnerState.onAction,OwnerState.proposalRejected]
    repeat' split
    all_goals exact ⟨rfl,rfl⟩
  | applyEntry entry =>
    have applied : Meets (fun after => after.activePeerFrom = owner.activePeerFrom ∧ after.activePeerResponse = owner.activePeerResponse)
        (fun _ _ => True) (OwnerState.applyEntry entry owner) := by
      unfold OwnerState.applyEntry OwnerState.answerReads OwnerState.answerMutation
      repeat' split
      all_goals trivial
    refine applied.andThen fun middle kept => ?_
    obtain same | ⟨-,-,started⟩ := OwnerState.maybeStartSnapshot_either entry.index entry.term middle
    · rw [same]
      exact kept
    · rw [started]
      exact kept
  | applySnapshot snapshot =>
    obtain ⟨failure,ran⟩ | ⟨state,machine,-,-,ran⟩ :=
      OwnerState.restoreImage_either "installed invalid state-machine snapshot: " snapshot.stateMachine owner
    · simp only [OwnerState.onAction,OwnerState.applySnapshot,Procedure.andThen,ran]
      trivial
    · simp only [OwnerState.onAction,OwnerState.applySnapshot,Procedure.andThen,ran]
      exact ⟨rfl,rfl⟩
  | _ => exact ⟨rfl,rfl⟩

theorem publishAction_hears (answer : isRequestMessage response = false) : Ensures (Hears source response (action::rest)) (publishAction action)
    (Hears source response rest) (fun _ _ => True) := by
  refine elapse_hears.andThen (ClusterNode.onOwner_ensures fun node heard => ?_)
  cases sent : action.addressed with
  | none =>
    have same : messages (action::rest) = messages rest := List.filterMap_cons_none sent
    obtain ⟨listens,hears⟩ := heard
    rw [same] at hears
    exact (onAction_deaf sent).imp (fun after ⟨from',got⟩ => ⟨from'.trans listens,hears.imp_right fun ⟨silent,had⟩ => ⟨silent,got.trans had⟩⟩)
      (fun _ _ _ => trivial)
  | some addressed =>
    have shape : messages (action::rest) = addressed::messages rest := List.filterMap_cons_some sent
    rcases heard.hears with one | ⟨none',-⟩
    · rw [shape] at one
      obtain ⟨rfl,silent⟩ := List.cons.inj one
      cases action with
      | sendMessage =>
        cases sent
        dsimp only [OwnerState.onAction,OwnerState.sendMessage]
        rw [if_neg (by simp [answer]),if_pos heard.listens]
        exact ⟨heard.listens,.inr ⟨silent,rfl⟩⟩
      | _ => cases sent
    · rw [shape] at none'
      cases none'

theorem messages_published (actions : Actions) : messages (actions.filter (fun action => !action.isPersist)) = messages actions := by
  induction actions with
  | nil => rfl
  | cons action rest ih =>
    cases action <;> first | exact ih | exact congrArg (List.cons _) ih

theorem run_hears {node : ClusterNode} (ran : run input node = (after,none)) (called : node.driver.node.call input = .ok (core,actions)) (sent : messages actions = [(source,response)])
    (answer : isRequestMessage response = false) (listens : node.owner.activePeerFrom = some source) :
    Hears source response [] after := by
  have begun : Hears source response (actions.filter (fun action => !action.isPersist))
      {node.setCore core with emitted := node.emitted ++ actions} := ⟨listens,.inl ((messages_published actions).trans sent)⟩
  have persists : Keeps (Hears source response (actions.filter (fun action => !action.isPersist))) (Procedure.forEach persistAction (actions.filter Action.isPersist)) (fun _ _ => True) :=
    .forEach (fun _ => Hears source response _) (fun _ _ => persistAction_hears) _
  have publishes : Ensures (Hears source response (actions.filter (fun action => !action.isPersist)))
      (Procedure.forEach publishAction (actions.filter (fun action => !action.isPersist))) (Hears source response []) (fun _ _ => True) :=
    .forEach (Hears source response) (fun _ _ => publishAction_hears answer) _
  unfold ClusterNode.run at ran
  split at ran
  · cases ran
  · rw [called] at ran
    have driven : Meets (Hears source response []) (fun _ _ => True) (ClusterNode.drive actions (node.setCore core)) :=
      drive_meets ((persists.andThen publishes) _ begun)
    rw [show ClusterNode.drive actions (node.setCore core) = (after,none) from ran] at driven
    exact driven

end hears

theorem process_answers {ledger : OwnerState.Ledger} {node : ClusterNode} (quiet : Quiet ledger node)
    (decoded : ∃ frame, decodePeerFrame frame = .ok envelope) (vetted : (Work.peerRequest envelope completion).Vetted node.owner.config)
    (ran : ClusterNode.process (.peerRequest envelope completion) node = (after,none)) :
    ∃ told response, after.owner.answers = told ++ [(completion,.response response)] ∧ Replied envelope.message response := by
  obtain ⟨apart,voter,asks⟩ := vetted
  have settings := quiet.able.settings
  rw [← quiet.records.config] at settings
  obtain ⟨frame,read⟩ := decoded
  have arrived : (Input.step envelope.source envelope.message).Decoded := ⟨frame,envelope,read,rfl⟩
  obtain ⟨core,actions,response,called,sent,replied,-⟩ := request_answered quiet.able.sound (by rw [settings]; exact voter)
    (by rw [settings]; exact apart) arrived.positive ((isRequestMessage_eq _).symm.trans asks)
  obtain ⟨middle,stepped,settled⟩ := Procedure.andThen_returned.mp ran
  cases settled
  obtain ⟨-,wrong | ⟨-,got⟩⟩ := run_hears stepped called sent (replied_answer replied) rfl
  · cases wrong
  · refine ⟨middle.owner.answers,response,?_,replied⟩
    dsimp only [OwnerState.settle]
    rw [got]

-- Every request of a peer gets one answer, and the transport of the peer takes it.
theorem peer_request_answered (config : RaftConfig) (persistent : RaftPersistentState) (time : Nat)
    (valid : validateConfig config = .ok ()) (fine : validatePersistentState config persistent = .ok ())
    (short : persistent.baseIndex+persistent.log.length < 2^63) :
    (∃ start, RaftNode.create config persistent time = .ok start ∧ start.lastLogIndex < 2^63 ∧
      ∀ emitted node, ShortRuns start emitted node → node.lastLogIndex < 2^63 → ∀ source request,
        source ∈ config.voters → source ≠ config.selfId → isRequestMessage request = true → Arrives request →
        ∃ after actions response, node.step source request = .ok (after,actions) ∧ messages actions = [(source,response)] ∧
          response.term = after.currentTerm ∧ request.term ≤ after.currentTerm ∧ matchesPeerRequest request response = true ∧
          ∀ (requester : ClusterNodeConfig) target frame,
            decodePeerFrame frame = .ok ⟨requester.clusterId,target,requester.nodeId,response⟩ →
              peerResponse requester target request frame.requestId frame = some response) ∧
    ∀ settings files first room events, ClusterNode.start settings files = .ok first →
      ((Service.fresh room first).live events).node.failure = none → ∀ moments fates arrived envelope completion after,
        approach (((Service.fresh room first).live events).node.begin moments fates) = (arrived,none) →
        ((Service.fresh room first).live events).queue.head? = some (.peerRequest envelope completion) →
        ClusterNode.process (.peerRequest envelope completion) arrived = (after,none) →
          ∃ told response, after.owner.answers = told ++ [(completion,.response response)] := by
  refine ⟨?_,?_⟩
  · have created : Created config persistent (fresh config persistent time) := fresh_created valid (validatePersistentState_ok fine)
    refine ⟨_,create_fresh valid fine,fresh_short valid fine short,fun emitted node runs _ source request voter apart asks arrives => ?_⟩
    have same : node.config = config := (runs_config created.sound runs.runs).trans rfl
    rw [← same] at voter apart
    have arrived : (Input.step source request).Arrives := arrives
    obtain ⟨after,actions,response,stepped,sent,replied,term,newer⟩ := request_answered (runs_sound created.sound runs.runs) voter apart
      arrived.positive ((isRequestMessage_eq _).symm.trans asks)
    have matched := replied_matches replied (arrives_small arrives)
    refine ⟨after,actions,response,stepped,sent,term,newer ▸ Nat.le_max_right _ _,matched,fun requester target frame decoded => ?_⟩
    exact peerResponse_honest matched (replied_answer replied) rfl decoded
  · intro settings files first room events started unfailed moments fates arrived envelope completion after reached head ran
    have served := Service.live_served started events unfailed
    have begun : Quiet ((Service.fresh room first).live events).node.standing (((Service.fresh room first).live events).node.begin moments fates) :=
      ⟨served.quiet.able,served.quiet.awaited,served.quiet.records,served.quiet.running,served.quiet.unfailed⟩
    have quiet := (approach_quiet (Service.standing_closed _)).returned begun reached
    have configured : arrived.owner.config = settings := quiet.records.config.trans served.configured
    have queued := List.mem_of_mem_head? head
    have vetted := served.vetted _ queued
    rw [← configured] at vetted
    obtain ⟨told,response,answered,-⟩ := process_answers quiet (served.decoded _ queued) vetted ran
    exact ⟨told,response,answered⟩

-- Node 2 sends its first entry to node 1 of three.
theorem peer_request_answered_trio : (∃ start, RaftNode.create (trioConfig 1) .empty 0 = .ok start ∧
    ∃ after actions response, start.step 2 (.appendEntries firstAppend) = .ok (after,actions) ∧ messages actions = [(2,response)] ∧
      matchesPeerRequest (.appendEntries firstAppend) response = true) ∧
    ∃ frame told response, (ClusterNode.process (.peerRequest ⟨7,2,1,.appendEntries firstAppend⟩ 0)
      (approach (((Service.fresh 4 (trioFirst ⟨7,1,14256920213425207090⟩)).live [.peer frame]).node.begin [] [])).1).1.owner.answers =
        told ++ [(0,.response response)] := by
  obtain ⟨⟨start,created,few,answers⟩,never⟩ := peer_request_answered (trioConfig 1) .empty 0 rfl rfl (by decide)
  obtain ⟨after,actions,response,stepped,sent,-,-,matched,-⟩ :=
    answers [] start .nil few 2 (.appendEntries firstAppend) (by decide) (by decide) rfl firstAppend_arrives
  refine ⟨⟨start,created,after,actions,response,stepped,sent,matched⟩,?_⟩
  obtain ⟨frame,decoded⟩ := firstAppend_decodes
  have posted : handlePeer trioNode frame = .ok ⟨7,2,1,.appendEntries firstAppend⟩ :=
    handlePeer_ok.mpr ⟨decoded,rfl,rfl,by decide,by decide,rfl⟩
  have lives : (Service.fresh 4 (trioFirst ⟨7,1,14256920213425207090⟩)).live [.peer frame] =
      ⟨trioFirst ⟨7,1,14256920213425207090⟩,4,[.peerRequest ⟨7,2,1,.appendEntries firstAppend⟩ 0],false,1,[0],[]⟩ := by
    have config : (trioFirst ⟨7,1,14256920213425207090⟩).owner.config = trioNode := rfl
    simp only [Service.live,List.foldl,Service.happen,Service.fresh,config,posted]
    rfl
  refine ⟨frame,?_⟩
  refine never trioNode _ _ 4 [.peer frame] trioNode_starts ?_ [] [] _ _ 0 _ (Prod.ext rfl ?_) ?_ (Prod.ext rfl ?_)
  · rw [lives]
    rfl
  · rw [lives]
    decide +kernel
  · rw [lives]
    rfl
  · rw [lives]
    decide +kernel

-- The core that threw keeps its leadership, and throws at every request of its term.
theorem last_index_unanswered : ∃ start candidate actions thrown failed, RaftNode.create (trioConfig 1) lastState 0 = .ok start ∧
    start.call (.advanceTime 10) = .ok (candidate,actions) ∧ candidate.stepVote64 2 ⟨2,true⟩ = .error thrown ∧
    Arrives (.requestVote ⟨2,2,0,0⟩) ∧ thrown.node.step 2 (.requestVote ⟨2,2,0,0⟩) = .error failed ∧
    failed.fault = .logicError "Raft leader peer progress is out of bounds" :=
  ⟨_,_,_,_,_,create_fresh rfl rfl,rfl,rfl,
    encoded_arrives ⟨by decide,by decide,by decide,by simp [Words,messageWords]⟩ rfl (by simp [Message.indexes]),rfl,rfl⟩

end ForgeKv.Cluster
