import ForgeKv.Raft.Simulation

namespace ForgeKv.Raft
open Assoc Lineage Ballot

variable {voters : Finset NodeId} {net : Packet → Prop} {ghost later : Abstract} {host : NodeId} {node after : RaftNode}
  {id : Id} {image : StateMachineSnapshot}

theorem Sent.split (sent : Sent net host (actions ++ new) packet) : Sent net host actions packet ∨
    (packet.source = host ∧ .sendMessage packet.target packet.message ∈ new) := by
  cases sent with
  | inl released => exact .inl (.inl released)
  | inr pending =>
    obtain ⟨own,member⟩ := pending
    cases List.mem_append.mp member with
    | inl old => exact .inl (.inr ⟨own,old⟩)
    | inr fresh => exact .inr ⟨own,fresh⟩

theorem ActionOk.carry (ok : ActionOk voters ghost node action) (grows : Grows ghost later)
    (leading : node.role = .leader → after.role = .leader ∧ after.currentTerm = node.currentTerm)
    (base : ∀ fromIndex toIndex, action = .commitAdvanced fromIndex toIndex → after.baseIndex ≤ node.baseIndex)
    (commit : node.commitIndex ≤ after.commitIndex) : ActionOk voters later after action := by
  cases action with
  | roleChanged previous next term leader =>
    cases next with
    | leader => exact ⟨(leading ok.1).1,(leading ok.1).2.trans ok.2⟩
    | follower | candidate => trivial
  | commitAdvanced =>
    exact ⟨Nat.le_trans (base _ _ rfl) ok.1,ok.2.1,Nat.le_trans ok.2.2 commit⟩
  | applyEntry =>
    obtain ⟨settled,before,written⟩ := ok
    exact ⟨settled.grow grows,before,grows.tree _ _ written⟩
  | applySnapshot | persistSnapshot => exact ⟨ok.1,ok.2.grow grows⟩
  | sendMessage | persistHardState | persistLog | proposalRejected => trivial

theorem OfImage.same (own : OfImage node request) (base : after.baseIndex = node.baseIndex)
    (snapshot : after.durableSnapshot = node.durableSnapshot) : OfImage after request := by
  unfold OfImage
  rw [base,snapshot]
  exact own

section
variable (within : Within voters net ghost host node) (new : Actions) (fine : ∀ action ∈ new, ActionOk voters ghost node action)
include within new fine

theorem Within.emit (packets : ∀ target message, .sendMessage target message ∈ new →
      PacketOk voters net ghost ⟨host,target,message⟩)
    (images : ∀ target request, .sendMessage target (.installSnapshot request) ∈ new → OfImage node request) :
    Within voters net ghost host {node with actions := node.actions ++ new} where
  valid := within.valid
  sim :=
    {within.sim with
      sound := {within.sim.sound with}
      stands := fun role => {within.sim.stands role with}
      leads := by
        intro role
        have leads := within.sim.leads role
        refine {leads with images := ?_}
        intro target request sent term
        cases sent.split with
        | inl old => exact leads.images target request old term
        | inr fresh => exact images target request fresh.2}
  packets := by
    intro packet sent
    cases sent.split with
    | inl old => exact within.packets packet old
    | inr fresh =>
      obtain ⟨source,target,message⟩ := packet
      obtain ⟨rfl,member⟩ := fresh
      exact packets target message member
  emitted := by
    intro action member
    cases List.mem_append.mp member with
    | inl old => exact within.emitted action old
    | inr fresh => exact fine action fresh

theorem Within.note (silent : ∀ target message, .sendMessage target message ∉ new) :
    Within voters net ghost host {node with actions := node.actions ++ new} :=
  within.emit new fine (fun target message member => absurd member (silent target message))
    (fun target _ member => absurd member (silent target _))

end

theorem Within.send (within : Within voters net ghost host node)
    (ok : PacketOk voters net ghost ⟨host,target,message⟩)
    (other : ∀ request, message ≠ .installSnapshot request) :
    Within voters net ghost host (node.push (.sendMessage target message)) := by
  refine within.emit _ ?_ ?_ ?_
  · intro action member
    rw [List.mem_singleton.mp member]
    trivial
  · intro target' message' member
    cases List.mem_singleton.mp member
    exact ok
  · intro target' request member
    cases List.mem_singleton.mp member
    exact absurd rfl (other request)

theorem persistent_baseId : node.persistent.baseId = node.baseId := by
  unfold RaftPersistentState.baseId RaftPersistentState.baseIndex RaftPersistentState.baseTerm RaftNode.persistent
    RaftNode.baseId
  cases node.durableSnapshot <;> rfl

section facts
variable (within : Within voters net ghost host node)
include within

theorem Within.path : Path ghost.tree node.baseId node.log.tail (ghost.head host) := by
  have path := within.sim.view.path
  rw [persistent_baseId] at path
  exact path

theorem Within.base : Committed voters ghost node.currentTerm node.baseId := by
  have committed := within.sim.view.base
  rw [persistent_baseId] at committed
  exact committed

theorem Within.hasAt : HasAt node index term ↔ node.baseIndex ≤ index ∧ Above ghost.tree (ghost.head host) ⟨index,term⟩ :=
  hasAt_above within.sim.sound within.path

theorem Within.head : ghost.head host = ⟨node.lastLogIndex,node.lastLogTerm⟩ := path_last within.sim.sound within.path

theorem Within.holding : ghost.held host node.currentTerm (ghost.head host) := by
  have present := within.valid.present host
  have term : ghost.term host = node.currentTerm := within.sim.view.term
  rw [term] at present
  exact present

theorem Within.tip (role : node.role = .leader) : ∃ start, ghost.elected node.currentTerm = some (host,start) ∧
    (ghost.head host = start ∨ ((ghost.head host).term = node.currentTerm ∧ ∃ content, ghost.tree (ghost.head host) = some content)) := by
  obtain ⟨start,led,tip⟩ := (within.sim.leads role).elected
  refine ⟨start,led,?_⟩
  by_cases same : ghost.head host = start
  · exact .inl same
  · have now := tip.resolve_left same
    refine .inr ⟨now,?_⟩
    cases (within.valid.current host).1 with
    | inr written => exact written
    | inl zero =>
      have positive := (within.valid.started _ _ _ led).2
      rw [← now,zero] at positive
      exact absurd positive (Nat.not_lt_zero _)

theorem Within.line (role : node.role = .leader) : OnLine ghost node.currentTerm (ghost.head host) := by
  obtain ⟨start,led,tip⟩ := within.tip role
  exact ⟨host,start,led,ghost.head host,tip,.refl⟩

theorem Within.settled (above : Above ghost.tree (ghost.head host) id) (low : id.index ≤ node.commitIndex) :
    Committed voters ghost node.currentTerm id := by
  obtain ⟨term,committed,reach⟩ := within.sim.commit
  exact committed.below within.valid (reach.comparable above low)

section
variable (sound : Sound after) (config : after.config = node.config) (role : after.role = node.role) (durable : after.persistent = node.persistent) (commit : after.commitIndex = node.commitIndex) (votes : after.votesReceived = node.votesReceived) (actions : after.actions = node.actions)
include sound config role durable commit votes actions

theorem Within.same (matched : node.role = .leader → ∀ peer progress, (peer,progress) ∈ after.peerProgress →
      Matched ghost peer node.currentTerm (ghost.head host) progress.matchIndex) :
    Within voters net ghost host after := by
  have term : after.currentTerm = node.currentTerm := congrArg RaftPersistentState.currentTerm durable
  have snapshot : after.durableSnapshot = node.durableSnapshot := congrArg RaftPersistentState.snapshot durable
  have base : after.baseIndex = node.baseIndex := by rw [sound.base,within.sim.sound.base,snapshot]
  refine ⟨within.valid,⟨sound,?_,?_,?_,?_,?_,?_⟩,?_,?_⟩
  · rw [config]; exact within.sim.self
  · rw [config]; exact within.sim.members
  · rw [durable]; exact within.sim.view
  · rw [term,commit]; exact within.sim.commit
  · intro standing
    obtain ⟨own,received,pending⟩ := within.sim.stands (role ▸ standing)
    exact ⟨by rw [term]; exact own,by rw [term,votes]; exact received,by rw [term]; exact pending⟩
  · intro leading
    obtain ⟨elected,top,-,images⟩ := within.sim.leads (role ▸ leading)
    refine ⟨by rw [term]; exact elected,by rw [term]; exact top,by rw [term]; exact matched (role ▸ leading),?_⟩
    rw [term,actions]
    exact fun target request sent newest => (images target request sent newest).same base snapshot
  · rw [actions]; exact within.packets
  · rw [actions]
    intro action member
    have ok := within.emitted action member
    unfold ActionOk at ok ⊢
    rw [role,term,base,commit]
    exact ok

theorem Within.quiet (progress : after.peerProgress = node.peerProgress) : Within voters net ghost host after := by
  refine within.same sound config role durable commit votes actions ?_
  rw [progress]
  exact fun leading => (within.sim.leads leading).matched

end

theorem Within.adjusted (sound : Sound (node.setProgress peer new)) (known : node.role = .leader →
    Matched ghost peer node.currentTerm (ghost.head host) new.matchIndex) :
    Within voters net ghost host (node.setProgress peer new) := by
  refine within.same sound rfl rfl rfl rfl rfl rfl ?_
  intro leading other progress member
  cases mem_set member with
  | inl changed =>
    obtain ⟨rfl,rfl⟩ := changed
    exact known leading
  | inr old => exact (within.sim.leads leading).matched other progress old

end facts

theorem raised_view (valid : Valid voters ghost) (view : Matches voters ghost host state) (higher : state.currentTerm < term) :
    Matches voters (ghost.record host term (ghost.head host)) host {state with currentTerm := term,votedFor := none} where
  term := Function.update_self ..
  vote := by
    intro candidate
    refine ⟨(fun wrong => nomatch wrong),?_⟩
    rintro ⟨behind,cast⟩
    have bounded := (valid.voted _ _ _ _ cast).2.1
    rw [view.term] at bounded
    exact absurd bounded (Nat.not_le.mpr higher)
  path := by
    have head : (ghost.record host term (ghost.head host)).head host = ghost.head host := Function.update_self ..
    rw [head]
    exact view.path
  base := (view.base.later (Nat.le_of_lt higher)).grow (record_grows (by rw [view.term]; exact Nat.le_of_lt higher))

section
variable (within : Within voters net ghost host node)
include within

theorem Within.follower (turn : Turn voters host ghost later)
    (sound : Sound after) (config : after.config = node.config) (role : after.role = .follower)
    (view : Matches voters later host after.persistent) (actions : after.actions = node.actions)
    (commit : ∃ term, Committed voters later after.currentTerm ⟨after.commitIndex,term⟩ ∧
      Above later.tree (later.head host) ⟨after.commitIndex,term⟩)
    (emitted : ∀ action ∈ node.actions, ActionOk voters later after action) : Within voters net later host after where
  valid := turn.valid within.valid
  sim :=
    {sound := sound
     self := by rw [config]; exact within.sim.self
     members := by rw [config]; exact within.sim.members
     view := view
     commit := commit
     stands := by intro wrong; rw [role] at wrong; cases wrong
     leads := by intro wrong; rw [role] at wrong; cases wrong}
  packets := by
    intro packet sent
    rw [actions] at sent
    exact (within.packets packet sent).grow turn.grows (fun _ sent => sent)
  emitted := by rw [actions]; exact emitted

theorem becomeFollower_within (turn : Turn voters host ghost later)
    (calm : node.actions = []) (voter : ∀ known, leader = some known → known ∈ node.config.voters)
    (term : node.currentTerm ≤ (node.becomeFollower newTerm leader).currentTerm)
    (view : Matches voters later host (node.becomeFollower newTerm leader).persistent)
    (head : later.head host = ghost.head host) : Within voters net later host (node.becomeFollower newTerm leader) := by
  have sound : Sound (node.becomeFollower newTerm leader) := becomeFollower_sound within.sim.sound voter
  have silent : Within voters net later host {node.becomeFollower newTerm leader with actions := []} := by
    obtain ⟨epoch,committed,above⟩ := within.sim.commit
    refine within.follower turn {sound with} rfl rfl view calm.symm ⟨epoch,(committed.later term).grow turn.grows,?_⟩ (by simp [calm])
    rw [head]
    exact above.extend turn.grows.tree
  obtain ⟨new,emitted,told⟩ : ∃ new, (node.becomeFollower newTerm leader).actions = _ ∧ _ := becomeFollower_tells
  rw [calm,List.nil_append] at emitted
  refine silent.note (node.becomeFollower newTerm leader).actions ?_ ?_
  · intro action member
    cases told action (emitted ▸ member) <;> trivial
  · intro target message member
    cases told _ (emitted ▸ member)

theorem raise_within (calm : node.actions = []) (higher : node.currentTerm < term)
    (voter : ∀ known, leader = some known → known ∈ node.config.voters) :
    ∃ later, Turn voters host ghost later ∧ Within voters net later host (node.becomeFollower term leader) := by
  have now : ghost.term host = node.currentTerm := within.sim.view.term
  have newTerm : (node.becomeFollower term leader).currentTerm = term := by
    simp [RaftNode.becomeFollower,RaftNode.pushIf,RaftNode.resetElectionDeadline,higher]
  have projection : (node.becomeFollower term leader).persistent = {node.persistent with currentTerm := term,votedFor := none} := by
    simp [RaftNode.becomeFollower,RaftNode.pushIf,RaftNode.resetElectionDeadline,RaftNode.persistent,higher]
  have turn : Turn voters host ghost (ghost.record host term (ghost.head host)) := raise_turn (by rw [now]; exact higher)
  refine ⟨_,turn,becomeFollower_within within turn calm voter ?_ ?_ (Function.update_self ..)⟩
  · rw [newTerm]; exact Nat.le_of_lt higher
  · rw [projection]; exact raised_view within.valid within.sim.view higher

theorem stepDown_within (calm : node.actions = [])
    (voter : leader ∈ node.config.voters) :
    Within voters net ghost host (node.becomeFollower node.currentTerm (some leader)) := by
  have projection : (node.becomeFollower node.currentTerm (some leader)).persistent = node.persistent := by
    simp [RaftNode.becomeFollower,RaftNode.pushIf,RaftNode.resetElectionDeadline,RaftNode.persistent]
  refine becomeFollower_within within (.refl _ _ _) calm (fun known equal => Option.some.inj equal ▸ voter) ?_ ?_ rfl
  · exact Nat.le_of_eq (congrArg RaftPersistentState.currentTerm projection).symm
  · rw [projection]; exact within.sim.view

end

-- The abstract state after a node voted for itself in the next term.
def standing (ghost : Abstract) (host : NodeId) : Abstract :=
  (ghost.record host (ghost.term host+1) (ghost.head host)).cast host host

theorem standing_turn (valid : Valid voters ghost) : Turn voters host ghost (standing ghost host) := by
  have raised : Turn voters host ghost (ghost.record host (ghost.term host+1) (ghost.head host)) :=
    raise_turn (Nat.lt_succ_self _)
  have term : (ghost.record host (ghost.term host+1) (ghost.head host)).term host = ghost.term host+1 := Function.update_self ..
  refine raised.trans (cast_turn ?_ ?_ (.inl rfl))
  · rw [term]; exact Nat.succ_pos _
  · rw [term]
    cases cast : ghost.votes host (ghost.term host+1) with
    | none => exact cast
    | some ballot =>
      have := (valid.voted host _ ballot.1 ballot.2 cast).2.1
      omega

theorem standing_vote : (standing ghost host).votes host (ghost.term host+1) = some (host,ghost.head host) := by
  simp [standing,State.cast,State.record]

theorem standing_head : (standing ghost host).head host = ghost.head host := by simp [standing,State.cast,State.record]
theorem standing_term : (standing ghost host).term host = ghost.term host+1 := by simp [standing,State.cast,State.record]

theorem campaign_within (within : Within voters net ghost host node) (calm : node.actions = []) (other : node.role ≠ .leader) :
    ∃ later, Turn voters host ghost later ∧ Within voters net later host node.campaign := by
  have now : ghost.term host = node.currentTerm := within.sim.view.term
  have turn : Turn voters host ghost (standing ghost host) := standing_turn within.valid
  have vote : (standing ghost host).votes host (node.currentTerm+1) = some (host,ghost.head host) := by
    rw [← now]; exact standing_vote
  have sound := campaign_sound within.sim.sound other
  refine ⟨_,turn,?_⟩
  have silent : Within voters net (standing ghost host) host {node.campaign with actions := []} := by
    refine ⟨turn.valid within.valid,⟨{sound with},within.sim.self,within.sim.members,⟨?_,?_,?_,?_⟩,?_,?_,?_⟩,?_,?_⟩
    · rw [standing_term,now]; rfl
    · intro candidate
      show some node.config.selfId = some candidate ↔ ∃ behind, (standing ghost host).votes host (node.currentTerm+1) = _
      rw [vote,within.sim.self]
      simp
    · rw [standing_head]
      exact within.sim.view.path.extend turn.grows.tree
    · exact (within.sim.view.base.later (Nat.le_succ _)).grow turn.grows
    · obtain ⟨epoch,committed,above⟩ := within.sim.commit
      rw [standing_head]
      exact ⟨epoch,(committed.later (Nat.le_succ _)).grow turn.grows,above.extend turn.grows.tree⟩
    · refine fun _ => ⟨?_,?_,?_⟩
      · rw [standing_head]; exact vote
      · intro voter member
        have own : voter = node.config.selfId := Finset.mem_singleton.mp member
        rw [own,within.sim.self]
        refine ⟨?_,_,vote⟩
        rw [← within.sim.members,← within.sim.self]
        exact List.mem_toFinset.mpr within.sim.sound.configOk.member
      · -- Whoever won the next term voted in it.
        intro start led
        have cast := (within.valid.backed _ _ _ led).1
        have bounded := (within.valid.voted _ _ _ _ cast).2.1
        rw [now] at bounded
        exact absurd bounded (Nat.not_succ_le_self _)
    · intro wrong; cases wrong
    · intro packet sent
      rw [show ({node.campaign with actions := []} : RaftNode).actions = node.actions from calm.symm] at sent
      exact (within.packets packet sent).grow turn.grows (fun _ sent => sent)
    · exact List.forall_mem_nil _
  obtain ⟨new,emitted,told⟩ : ∃ new, node.campaign.actions = _ ∧ _ := campaign_tells
  rw [calm,List.nil_append] at emitted
  refine silent.emit node.campaign.actions ?_ ?_ ?_
  · intro action member
    cases told action (emitted ▸ member) <;> trivial
  · intro target message member
    cases told _ (emitted ▸ member) with
    | asks =>
      show (standing ghost host).votes host (node.currentTerm+1) = some (host,⟨node.lastLogIndex,node.lastLogTerm⟩)
      rw [vote,within.head]
  · intro target request member
    cases told _ (emitted ▸ member)

theorem grant_within (within : Within voters net ghost host node) (delivered : net ⟨source,host,.requestVote request⟩)
    (voter : source ∈ node.config.voters) (positive : request.term ≠ 0) (term : request.term = node.currentTerm)
    (free : node.votedFor = none) (fresh : node.lastLogTerm < request.lastLogTerm ∨
      (request.lastLogTerm = node.lastLogTerm ∧ node.lastLogIndex ≤ request.lastLogIndex)) :
    ∃ later, Turn voters host ghost later ∧ Within voters net later host
      (({node with votedFor := some source}).push (.persistHardState node.currentTerm (some source))) := by
  have now : ghost.term host = node.currentTerm := within.sim.view.term
  have above : 0 < node.currentTerm := Nat.pos_of_ne_zero (term ▸ positive)
  have unused : ghost.votes host (ghost.term host) = none := by
    cases cast : ghost.votes host (ghost.term host) with
    | none => rfl
    | some ballot =>
      rw [now] at cast
      have voted := (within.sim.view.vote ballot.1).mpr ⟨ballot.2,cast⟩
      rw [show node.persistent.votedFor = none from free] at voted
      cases voted
  have asked : ghost.votes source node.currentTerm = some (source,⟨request.lastLogIndex,request.lastLogTerm⟩) := by
    rw [← term]
    exact within.packets _ (.inl delivered)
  have newer : Fresh ⟨request.lastLogIndex,request.lastLogTerm⟩ (ghost.head host) := by
    rw [within.head]
    exact fresh.imp_right (fun same => ⟨same.1.symm,same.2⟩)
  have turn : Turn voters host ghost (ghost.cast host source) :=
    cast_turn (by rw [now]; exact above) unused (.inr ⟨_,by rw [now]; exact asked,newer⟩)
  have vote : (ghost.cast host source).votes host node.currentTerm = some (source,ghost.head host) := by
    rw [← now]
    simp [State.cast]
  have sound := grant_sound within.sim.sound voter above free
  refine ⟨_,turn,?_⟩
  have silent : Within voters net (ghost.cast host source) host {node with votedFor := some source} := by
    refine ⟨turn.valid within.valid,⟨{sound with},within.sim.self,within.sim.members,⟨now,?_,?_,?_⟩,?_,?_,?_⟩,?_,?_⟩
    · intro candidate
      show some source = some candidate ↔ ∃ behind, (ghost.cast host source).votes host node.currentTerm = _
      rw [vote]
      simp
    · exact within.sim.view.path
    · exact within.sim.view.base.grow turn.grows
    · obtain ⟨epoch,committed,reach⟩ := within.sim.commit
      exact ⟨epoch,committed.grow turn.grows,reach⟩
    · intro standing
      have own := within.sim.sound.candidate standing
      rw [free] at own
      cases own
    · intro leading
      exact {within.sim.leads leading with}
    · exact fun packet sent => (within.packets packet sent).grow turn.grows (fun _ sent => sent)
    · intro action member
      exact (within.emitted action member).carry turn.grows (fun leading => ⟨leading,rfl⟩) (fun _ _ _ => Nat.le_refl _)
        (Nat.le_refl _)
  refine silent.note [.persistHardState node.currentTerm (some source)] ?_ ?_
  · intro action member
    rw [List.mem_singleton.mp member]
    trivial
  · intro target message member
    cases List.mem_singleton.mp member

theorem countVote_within (within : Within voters net ghost host node) (delivered : net ⟨source,host,.requestVoteResponse response⟩)
    (voter : source ∈ node.config.voters) (term : response.term = node.currentTerm) (granted : response.voteGranted = true) :
    Within voters net ghost host {node with votesReceived := insert source node.votesReceived} := by
  have cast := within.packets _ (.inl delivered) granted
  rw [term] at cast
  refine ⟨within.valid,{within.sim with sound := {within.sim.sound with},stands := ?_,leads := ?_},within.packets,?_⟩
  · intro standing
    have stands := within.sim.stands standing
    refine ⟨stands.own,?_,stands.pending⟩
    intro other member
    cases Finset.mem_insert.mp member with
    | inl equal =>
      rw [equal,← within.sim.members]
      exact ⟨List.mem_toFinset.mpr voter,cast⟩
    | inr old => exact stands.received other old
  · exact fun leading => {within.sim.leads leading with}
  · exact fun action member => (within.emitted action member).carry (.refl _) (fun leading => ⟨leading,rfl⟩)
      (fun _ _ _ => Nat.le_refl _) (Nat.le_refl _)

theorem majority_of_quorum (sound : Sound node) (members : node.config.voters.toFinset = voters) {set : Finset NodeId}
    (inside : ∀ voter ∈ set, voter ∈ voters) (enough : node.quorum ≤ set.card) : Majority voters set := by
  refine ⟨inside,?_⟩
  have size : voters.card = node.config.voters.length := by
    rw [← members]
    exact List.toFinset_card_of_nodup sound.configOk.unique
  unfold RaftNode.quorum at enough
  omega

theorem elect_within (within : Within voters net ghost host node) (candidate : node.role = .candidate)
    (won : node.quorum ≤ node.votesReceived.card) :
    ∃ later, Turn voters host ghost later ∧ Within voters net later host node.takeOffice := by
  obtain ⟨own,received,pending⟩ := within.sim.stands candidate
  have majority : Majority voters node.votesReceived :=
    majority_of_quorum within.sim.sound within.sim.members (fun voter member => (received voter member).1) won
  -- Two winners of one term would share a voter.
  have vacant : ghost.elected node.currentTerm = none := by
    cases led : ghost.elected node.currentTerm with
    | none => rfl
    | some result =>
      obtain ⟨winner,start⟩ := result
      obtain ⟨-,quorum,elected,votes⟩ := within.valid.backed _ _ _ led
      obtain ⟨voter,inQuorum,inReceived⟩ := elected.meet majority
      obtain ⟨behind,cast,-⟩ := votes voter inQuorum
      obtain ⟨-,behind',cast'⟩ := received voter inReceived
      rw [cast] at cast'
      cases cast'
      exact absurd led (pending start)
  have turn : Turn voters host ghost (ghost.elect node.currentTerm host (ghost.head host)) :=
    elect_turn vacant own majority (fun voter member => (received voter member).2)
  have led : (ghost.elect node.currentTerm host (ghost.head host)).elected node.currentTerm = some (host,ghost.head host) :=
    Function.update_self ..
  have sound := takeOffice_sound within.sim.sound candidate
  refine ⟨_,turn,?_⟩
  have silent : Within voters net (ghost.elect node.currentTerm host (ghost.head host)) host
      {node.takeOffice with actions := node.actions} := by
    refine ⟨turn.valid within.valid,⟨{sound with},within.sim.self,within.sim.members,?_,?_,?_,?_⟩,?_,?_⟩
    · exact ⟨within.sim.view.term,within.sim.view.vote,within.sim.view.path,within.sim.view.base.grow turn.grows⟩
    · obtain ⟨epoch,committed,reach⟩ := within.sim.commit
      exact ⟨epoch,committed.grow turn.grows,reach⟩
    · intro wrong; cases wrong
    · refine fun _ => ⟨⟨_,led,.inl rfl⟩,?_,?_,?_⟩
      · intro index content found
        obtain ⟨winner,start,elected,-,-⟩ := term_start within.valid found
        rw [show ghost.elected node.takeOffice.currentTerm = none from vacant] at elected
        cases elected
      · intro peer progress member
        simp only [RaftNode.takeOffice,RaftNode.push,List.mem_map,Prod.mk.injEq] at member
        obtain ⟨-,-,-,rfl⟩ := member
        exact .inl rfl
      · intro target request sent term
        obtain ⟨⟨start,elected⟩,-,-⟩ := within.packets _ sent
        rw [term,show ghost.elected node.takeOffice.currentTerm = none from vacant] at elected
        cases elected
    · exact fun packet sent => (within.packets packet sent).grow turn.grows (fun _ sent => sent)
    · intro action member
      refine (within.emitted action member).carry turn.grows ?_ (fun _ _ _ => Nat.le_refl _) (Nat.le_refl _)
      intro leading
      rw [candidate] at leading
      cases leading
  refine silent.note [.roleChanged node.role .leader node.currentTerm (some node.config.selfId)] ?_ ?_
  · intro action member
    rw [List.mem_singleton.mp member]
    exact ⟨rfl,rfl⟩
  · intro target message member
    cases List.mem_singleton.mp member

end ForgeKv.Raft
