import ForgeKv.Library.Procedure
import ForgeKv.Library.Rounds
import ForgeKv.Raft.Durable

namespace ForgeKv.Raft
open Assoc

-- The newest message among some actions for one node.
def messageTo (target : NodeId) : Action → Option Message
  | .sendMessage peer message => if peer = target then some message else none
  | _ => none

def lastMessageTo (target : NodeId) (actions : Actions) : Option Message := (actions.filterMap (messageTo target)).getLast?

-- A leader, one of its followers and the leader's newest request to it.
structure Session where
  leader : RaftNode
  follower : RaftNode
  request : Message

-- The leader sends to the follower what its progress asks for.
def Session.begin (leader follower : RaftNode) : Option Session :=
  match leader.sendAppendEntries follower.config.selfId with
  | .error _ => none
  | .ok sent => (lastMessageTo follower.config.selfId sent.actions).map (fun request => ⟨sent.clearActions,follower,request⟩)

-- Deliver the newest request, then the answer to it. A call that throws ends the session.
def Session.round (session : Session) : Option Session :=
  match session.follower.step session.leader.config.selfId session.request with
  | .error _ => none
  | .ok (follower,answers) =>
    match lastMessageTo session.leader.config.selfId answers with
    | none => none
    | some response =>
      match session.leader.step follower.config.selfId response with
      | .error _ => none
      | .ok (leader,sent) => some ⟨leader,follower,(lastMessageTo follower.config.selfId sent).getD session.request⟩

theorem lastMessageTo_push (node : RaftNode) (message : Message) :
    lastMessageTo target (node.push (.sendMessage target message)).actions = some message := by
  unfold RaftNode.push
  simp [lastMessageTo,messageTo]

theorem lastMessageTo_other (node : RaftNode) (message : Message) (different : peer ≠ target) :
    lastMessageTo target (node.push (.sendMessage peer message)).actions = lastMessageTo target node.actions := by
  unfold RaftNode.push
  simp [lastMessageTo,messageTo,different]

variable {node middle after leader follower : RaftNode}

-- The retained entry at an index; the sentinel counts.
def RaftNode.slot (node : RaftNode) (index : Nat) : Option LogEntry :=
  if node.baseIndex ≤ index then node.log[index-node.baseIndex]? else none

theorem slot_of_le (low : node.baseIndex ≤ index) : node.slot index = node.log[index-node.baseIndex]? := if_pos low

theorem slot_place (sound : Sound node) (found : node.slot index = some entry) :
    node.baseIndex ≤ index ∧ index ≤ node.lastLogIndex ∧ entry.index = index := by
  unfold RaftNode.slot at found
  split at found
  · rename_i low
    have place := sound.index_of found
    have bound := (List.getElem?_eq_some_iff.mp found).1
    have last := sound.last
    omega
  · cases found

theorem slot_some (sound : Sound node) (low : node.baseIndex ≤ index) (high : index ≤ node.lastLogIndex) :
    ∃ entry, node.slot index = some entry := by
  obtain ⟨entry,found,-⟩ := sound.get low high
  exact ⟨entry,(slot_of_le low).trans found⟩

theorem slot_of_hasAt (has : HasAt node index term) : (node.slot index).map LogEntry.term = some term := by
  obtain ⟨low,entry,found,same⟩ := has
  simp [slot_of_le low,found,same]

theorem slot_of_holds (holds : Holds node entry) : node.slot entry.index = some entry :=
  (slot_of_le (Nat.le_of_lt holds.1)).trans holds.2

theorem slot_beyond (sound : Sound node) (beyond : node.lastLogIndex < index) : node.slot index = none := by
  cases found : node.slot index with
  | none => rfl
  | some =>
    have place := slot_place sound found
    omega

theorem slot_log (same : after.log = node.log) : after.slot index = node.slot index := by
  unfold RaftNode.slot RaftNode.baseIndex RaftNode.frontEntry
  rw [same]

theorem find_track {rpcs : List Range} {wanted : Range → Bool} (fresh : ∀ sent ∈ rpcs, wanted sent = false) (here : wanted rpc = true) :
    (RaftNode.track rpcs rpc).find? wanted = some rpc := by
  have nothing : ∀ part : List Range, (∀ sent ∈ part, sent ∈ rpcs) → part.find? wanted = none := by
    intro part inside
    exact List.find?_eq_none.mpr (fun sent member => by simp [fresh sent (inside sent member)])
  unfold RaftNode.track
  dsimp only
  split
  · rename_i long
    cases rpcs with
    | nil => simp [maximumTrackedRpcsPerPeer] at long
    | cons first rest =>
      rw [List.cons_append,List.tail_cons,List.find?_append,nothing rest (fun _ => List.mem_cons_of_mem _)]
      simp [here]
  · rw [List.find?_append,nothing rpcs (fun _ member => member)]
    simp [here]

-- A leader and a follower of one term that know each other.
structure Talk (leader follower : RaftNode) : Prop where
  leads : Sound leader
  follows : Sound follower
  leading : leader.role = .leader
  following : follower.role = .follower
  term : follower.currentTerm = leader.currentTerm
  peer : follower.config.selfId ∈ leader.config.voters
  source : leader.config.selfId ∈ follower.config.voters
  distinct : leader.config.selfId ≠ follower.config.selfId

theorem step_received (sound : Sound node) (positive : message.Positive)
    (received : node.clearActions.receive source message = .ok after) :
    node.step source message = .ok (after.clearActions,after.actions) ∧ Sound after := by
  have reaches : Reaches (some (source,message)) none node.clearActions (node.clearActions.receive source message) (fun _ => True) :=
    receive_reaches (clear_sound sound) rfl positive
  obtain ⟨final,same,moves,-⟩ := reaches
  cases received.symm.trans same
  have sound' := moves_sound (clear_sound sound) moves
  refine ⟨?_,sound'⟩
  unfold RaftNode.step
  rw [received]
  exact finish_ok sound'

theorem step_handled (sound : Sound node) (positive : message.Positive) (voter : source ∈ node.config.voters)
    (other : source ≠ node.config.selfId) (bounded : message.term ≤ node.currentTerm)
    (handled : node.clearActions.handle source message = .ok after) :
    node.step source message = .ok (after.clearActions,after.actions) ∧ Sound after := by
  refine step_received sound positive ?_
  unfold RaftNode.receive
  rw [if_neg (by simpa [RaftNode.isVoter,RaftNode.clearActions] using ⟨other,voter⟩)]
  exact (if_neg (Nat.not_lt.mpr bounded)).trans handled

-- What a leader keeps while it sends requests.
structure Frame (node after : RaftNode) : Prop where
  config : after.config = node.config
  role : after.role = node.role
  term : after.currentTerm = node.currentTerm
  log : after.log = node.log
  image : after.durableSnapshot = node.durableSnapshot
  commit : node.commitIndex ≤ after.commitIndex

structure Apart (peer : NodeId) (node after : RaftNode) : Prop extends Frame node after where
  progress : get? after.peerProgress peer = get? node.peerProgress peer
  messages : lastMessageTo peer after.actions = lastMessageTo peer node.actions

theorem Apart.refl (peer : NodeId) (node : RaftNode) : Apart peer node node := ⟨⟨rfl,rfl,rfl,rfl,rfl,Nat.le_refl _⟩,rfl,rfl⟩

theorem Frame.trans (one : Frame node middle) (two : Frame middle after) : Frame node after :=
  ⟨two.config.trans one.config,two.role.trans one.role,two.term.trans one.term,two.log.trans one.log,two.image.trans one.image,
    Nat.le_trans one.commit two.commit⟩

theorem Apart.trans (one : Apart peer node middle) (two : Apart peer middle after) : Apart peer node after :=
  ⟨one.toFrame.trans two.toFrame,two.progress.trans one.progress,two.messages.trans one.messages⟩

theorem sendAppendEntries_sent (sent : node.sendAppendEntries peer = .ok after) : ∃ stored progress message,
    after = ({node.setProgress peer progress with nextRpcId := node.nextRpcId+1}).push (.sendMessage peer message) ∧
      get? node.peerProgress peer = some stored ∧ progress.matchIndex = stored.matchIndex := by
  have suffix : ∀ {aligned : PeerProgress}, node.sendLogSuffix peer aligned = .ok after → ∃ progress message,
      after = ({node.setProgress peer progress with nextRpcId := node.nextRpcId+1}).push (.sendMessage peer message) ∧
        progress.matchIndex = aligned.matchIndex := by
    intro aligned sent
    obtain ⟨previous,-,pushed⟩ := bind_ok.mp sent
    cases pushed
    exact ⟨_,_,rfl,rfl⟩
  unfold RaftNode.sendAppendEntries at sent
  split at sent
  · cases sent
  rename_i stored found
  dsimp only at sent
  split at sent
  · obtain ⟨progress,message,pushed,same⟩ := suffix sent
    exact ⟨stored,progress,message,pushed,found,same⟩
  · split at sent
    · cases sent
      exact ⟨stored,_,_,rfl,found,align_match⟩
    · obtain ⟨progress,message,pushed,same⟩ := suffix sent
      exact ⟨stored,progress,message,pushed,found,same⟩

theorem broadcastTo_keeps {Holds : RaftNode → Prop}
    (keeps : ∀ {node after peer}, peer ∈ peers → Holds node → node.sendAppendEntries peer = .ok after → Holds after)
    (start : Holds node) (sent : node.broadcastTo peers = .ok after) : Holds after := by
  induction peers generalizing node with
  | nil =>
    cases sent
    exact start
  | cons voter rest ih =>
    unfold RaftNode.broadcastTo at sent
    split at sent
    · exact ih (fun member => keeps (List.mem_cons_of_mem _ member)) start sent
    · obtain ⟨middle,first,others⟩ := bind_ok.mp sent
      exact ih (fun member => keeps (List.mem_cons_of_mem _ member)) (keeps List.mem_cons_self start first) others

theorem sendAppendEntries_apart (different : other ≠ peer) (sent : node.sendAppendEntries other = .ok after) :
    Apart peer node after := by
  obtain ⟨-,-,-,rfl,-⟩ := sendAppendEntries_sent sent
  exact ⟨⟨rfl,rfl,rfl,rfl,rfl,Nat.le_refl _⟩,get?_set_of_ne different.symm,lastMessageTo_other _ _ different⟩

theorem broadcastTo_apart (absent : peer ∉ others) (sent : node.broadcastTo others = .ok after) : Apart peer node after :=
  broadcastTo_keeps (fun member apart first => apart.trans (sendAppendEntries_apart (fun same => absent (same ▸ member)) first))
    (.refl peer node) sent

theorem broadcastTo_peer (sound : Sound node) (role : node.role = .leader) (members : ∀ voter ∈ others, voter ∈ node.config.voters)
    (distinct : others.Nodup) (member : peer ∈ others) (foreign : peer ≠ node.config.selfId)
    (sent : node.broadcastTo others = .ok after) :
    ∃ before between, Sound before ∧ Apart peer node before ∧ before.sendAppendEntries peer = .ok between ∧
      Apart peer between after := by
  induction others generalizing node with
  | nil => cases member
  | cons voter rest ih =>
    obtain ⟨absent,unique⟩ := List.nodup_cons.mp distinct
    have others : ∀ voter ∈ rest, voter ∈ node.config.voters := fun voter inside => members voter (List.mem_cons_of_mem _ inside)
    unfold RaftNode.broadcastTo at sent
    by_cases same : voter = peer
    · subst same
      rw [if_neg foreign] at sent
      simp only [bind,Except.bind] at sent
      split at sent
      · cases sent
      · rename_i first
        exact ⟨_,_,sound,.refl _ _,first,broadcastTo_apart absent sent⟩
    · have later : peer ∈ rest := (List.mem_cons.mp member).resolve_left (Ne.symm same)
      split at sent
      · exact ih sound role others unique later foreign sent
      · rename_i own
        have sends : Reaches none none node (node.sendAppendEntries voter) Leading :=
          sendAppendEntries_reaches sound role (members voter List.mem_cons_self) own
        obtain ⟨next,first,moves,leads⟩ := sends
        rw [first] at sent
        have apart := sendAppendEntries_apart same first
        obtain ⟨before,between,fine,earlier,here,rest⟩ := ih (moves_sound sound moves) leads (by rw [apart.config]; exact others)
          unique later (by rw [apart.config]; exact foreign) sent
        exact ⟨before,between,fine,apart.trans earlier,here,rest⟩

theorem advanceLeaderCommit_cases (sound : Sound node) : node.advanceLeaderCommit = .ok (false,node) ∨
    ∃ index, node.advanceLeaderCommit = .ok (true,node.commitTo index) ∧ node.commitIndex < index ∧ index ≤ node.lastLogIndex := by
  unfold RaftNode.advanceLeaderCommit
  cases commitCandidate_ok sound (Nat.le_refl _) with
  | inl nothing =>
    rw [nothing]
    exact .inl rfl
  | inr candidate =>
    obtain ⟨index,found,forward,reached,-⟩ := candidate
    refine .inr ⟨index,?_,forward,reached⟩
    rw [found]
    simp only [bind,Except.bind,commitThrough_ok sound forward reached]
    rfl

end ForgeKv.Raft
