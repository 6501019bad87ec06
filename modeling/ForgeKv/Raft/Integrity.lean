import ForgeKv.Raft.Safety

namespace ForgeKv.Raft
open Assoc
open RaftNode (IncomingSnapshot.accepts IncomingSnapshot.start)

structure ChunkOf (image : StateMachineSnapshot) (request : InstallSnapshot) : Prop where
  index : request.lastIncludedIndex = image.lastIncludedIndex
  term : request.lastIncludedTerm = image.lastIncludedTerm
  size : request.totalSize = image.stateMachine.length
  data : request.data <+: image.stateMachine.drop request.offset

structure FrontOf (image : StateMachineSnapshot) (incoming : IncomingSnapshot) : Prop where
  index : incoming.lastIncludedIndex = image.lastIncludedIndex
  term : incoming.lastIncludedTerm = image.lastIncludedTerm
  size : incoming.totalSize = image.stateMachine.length
  bytes : incoming.bytes <+: image.stateMachine

-- Which node has had which images as a leader.
abbrev Images := NodeId → StateMachineSnapshot → Prop

-- No leader has two images that a receiver could not tell apart.
def Images.Distinct (held : Images) : Prop :=
  ∀ leader left right, held leader left → held leader right → left.lastIncludedIndex = right.lastIncludedIndex →
    left.lastIncludedTerm = right.lastIncludedTerm → left.stateMachine.length = right.stateMachine.length → left = right

-- The actions that carry bytes of an image.
def Action.carries : Action → Bool
  | .sendMessage _ (.installSnapshot _) | .applySnapshot _ | .persistSnapshot _ => true
  | _ => false

-- What may be put together of the chunks that arrive, and what comes of it.
structure Composes (part : IncomingSnapshot → Prop) (whole : StateMachineSnapshot → Prop) (source : NodeId) (request : InstallSnapshot) :
    Prop where
  front : request.offset = 0 → part (IncomingSnapshot.start source request)
  next : part incoming → IncomingSnapshot.accepts incoming source request = true →
    part {incoming with bytes := incoming.bytes ++ request.data}
  last : part incoming → incoming.bytes.length = incoming.totalSize →
    whole ⟨incoming.lastIncludedIndex,incoming.lastIncludedTerm,incoming.bytes⟩

-- Whatever a node has of an image in the middle of a call was put together so;
-- what it sends is of its own.
structure Genuine (part : IncomingSnapshot → Prop) (whole : StateMachineSnapshot → Prop) (packet : Option (NodeId × Message))
    (node : RaftNode) : Prop where
  assembly : ∀ incoming, node.incomingSnapshot = some incoming → part incoming
  chunks : ∀ target request, .sendMessage target (.installSnapshot request) ∈ node.actions →
    node.role = .leader ∧ ∃ image, node.durableSnapshot = some image ∧ ChunkOf image request
  applied : ∀ image, .applySnapshot image ∈ node.actions → whole image
  stored : ∀ image, .persistSnapshot image ∈ node.actions → packet = none ∨ whole image

section pieces
variable {part : IncomingSnapshot → Prop} {whole : StateMachineSnapshot → Prop} {packet : Option (NodeId × Message)} {node after : RaftNode} {new : Actions}
  {image : StateMachineSnapshot} {request : InstallSnapshot} {incoming : IncomingSnapshot} {source : NodeId}

theorem Genuine.emit (genuine : Genuine part whole packet node) (same : after.incomingSnapshot = node.incomingSnapshot)
    (actions : after.actions = node.actions ++ new) (bare : ∀ action ∈ new, action.carries = false)
    (kept : node.actions = [] ∨ (node.role = .leader → after.role = .leader ∧ after.durableSnapshot = node.durableSnapshot)) :
    Genuine part whole packet after := by
  have old : ∀ action ∈ after.actions, action.carries = true → action ∈ node.actions := by
    intro action member carries
    rw [actions] at member
    refine (List.mem_append.mp member).resolve_right fun fresh => ?_
    rw [bare action fresh] at carries
    cases carries
  refine ⟨same ▸ genuine.assembly,?_,?_,?_⟩
  · intro target request member
    have sent := old _ member rfl
    obtain ⟨leads,image,durable,chunk⟩ := genuine.chunks target request sent
    rcases kept with calm | kept
    · rw [calm] at sent
      cases sent
    · exact ⟨(kept leads).1,image,(kept leads).2.trans durable,chunk⟩
  · exact fun image member => genuine.applied image (old _ member rfl)
  · exact fun image member => genuine.stored image (old _ member rfl)

theorem sendChunk_genuine (genuine : Genuine part whole packet node) (leads : node.role = .leader)
    (durable : node.durableSnapshot = some image) (progress : PeerProgress) :
    Genuine part whole packet (node.sendSnapshotChunk peer progress image) := by
  refine ⟨genuine.assembly,?_,?_,?_⟩
  · intro target request member
    refine ⟨leads,image,durable,?_⟩
    rcases List.mem_append.mp member with old | new
    · obtain ⟨-,other,same,chunk⟩ := genuine.chunks target request old
      rw [durable] at same
      cases same
      exact chunk
    · cases List.mem_singleton.mp new
      exact ⟨rfl,rfl,rfl,List.take_prefix ..⟩
  · intro other member
    rcases List.mem_append.mp member with old | new
    · exact genuine.applied other old
    · cases List.mem_singleton.mp new
  · intro other member
    rcases List.mem_append.mp member with old | new
    · exact genuine.stored other old
    · cases List.mem_singleton.mp new

theorem install_genuine (genuine : Genuine part whole packet node) (composes : Composes part whole source request)
    (installs : Installs node source request incoming image rest) : Genuine part whole packet (node.adoptImage image rest) := by
  obtain ⟨found,accepted⟩ := installs.assembles
  have grown := composes.next (genuine.assembly incoming found) accepted
  simp only [IncomingSnapshot.accepts,decide_eq_true_eq] at accepted
  obtain ⟨-,index,term,size,fits⟩ := accepted
  have has : whole ⟨incoming.lastIncludedIndex,incoming.lastIncludedTerm,incoming.bytes ++ request.data⟩ :=
    composes.last grown (by rw [List.length_append,fits,installs.whole,size])
  rw [index,term,← installs.index,← installs.boundaryTerm,← installs.bytes] at has
  have follower := installs.follower
  refine ⟨genuine.assembly,?_,?_,?_⟩
  · intro target request member
    simp only [RaftNode.adoptImage,RaftNode.push,List.mem_append,List.mem_singleton,reduceCtorEq,or_false] at member
    rw [(genuine.chunks target request member).1] at follower
    cases follower
  · intro other member
    simp only [RaftNode.adoptImage,RaftNode.push,List.mem_append,List.mem_singleton,reduceCtorEq,or_false,
      Action.applySnapshot.injEq] at member
    rcases member with old | rfl
    · exact genuine.applied other old
    · exact has
  · intro other member
    simp only [RaftNode.adoptImage,RaftNode.push,List.mem_append,List.mem_singleton,reduceCtorEq,or_false,
      Action.persistSnapshot.injEq] at member
    rcases member with old | rfl
    · exact genuine.stored other old
    · exact .inr has

section
variable (genuine : Genuine part whole packet node)
include genuine

theorem cutLog_genuine (own : packet = none) (calm : node.actions = []) :
    Genuine part whole packet (node.cutLog image) := by
  have emitted : (node.cutLog image).actions = [.persistSnapshot image] := by
    simp [RaftNode.cutLog,RaftNode.push,calm]
  refine ⟨genuine.assembly,?_,?_,fun _ _ => .inl own⟩
  · intro target request member
    rw [emitted] at member
    cases List.mem_singleton.mp member
  · intro other member
    rw [emitted] at member
    cases List.mem_singleton.mp member

theorem becomeFollower_genuine (calm : node.actions = []) :
    Genuine part whole packet (node.becomeFollower term leader) := by
  obtain ⟨new,emitted,told⟩ := becomeFollower_tells
  refine genuine.emit rfl emitted (fun action member => ?_) (.inl calm)
  cases told action member <;> rfl

theorem campaign_genuine (calm : node.actions = []) : Genuine part whole packet node.campaign := by
  obtain ⟨new,emitted,told⟩ := campaign_tells
  refine genuine.emit rfl emitted (fun action member => ?_) (.inl calm)
  cases told action member <;> rfl

theorem commitTo_genuine : Genuine part whole packet (node.commitTo index) := by
  refine genuine.emit rfl rfl ?_ (.inr fun leads => ⟨leads,rfl⟩)
  intro action member
  rcases List.mem_cons.mp member with rfl | applied
  · rfl
  · obtain ⟨-,-,rfl⟩ := List.mem_map.mp applied
    rfl

end

section
variable (genuine : Genuine part whole packet node)
  (delivered : ∀ source request, packet = some (source,.installSnapshot request) → Composes part whole source request)
include genuine delivered

theorem move_genuine (move : Move packet offer node after) : Genuine part whole packet after := by
  have one : ∀ {action : Action}, action.carries = false → ∀ other ∈ [action], other.carries = false := by
    intro action bare other member
    rw [List.mem_singleton.mp member]
    exact bare
  have stays : ∀ {after : RaftNode}, after.role = node.role → after.durableSnapshot = node.durableSnapshot →
      node.actions = [] ∨ (node.role = .leader → after.role = .leader ∧ after.durableSnapshot = node.durableSnapshot) :=
    fun role durable => .inr fun leads => ⟨role.trans leads,durable⟩
  cases move with
  | raise arrived calm | stepDown calm => exact becomeFollower_genuine genuine calm
  | campaign timer calm => exact campaign_genuine genuine calm
  | commit | learn => exact commitTo_genuine genuine
  | sendChunk tracks image => exact sendChunk_genuine genuine tracks.leads image _
  | begin arrived front =>
    refine ⟨?_,genuine.chunks,genuine.applied,genuine.stored⟩
    intro incoming same
    cases same
    exact (delivered _ _ arrived).front front
  | gather arrived assembles =>
    refine ⟨?_,genuine.chunks,genuine.applied,genuine.stored⟩
    intro incoming same
    cases same
    exact (delivered _ _ arrived).next (genuine.assembly _ assembles.1) assembles.2
  | discard => exact ⟨(fun _ wrong => nomatch wrong),genuine.chunks,genuine.applied,genuine.stored⟩
  | install arrived installs => exact install_genuine genuine (delivered _ _ arrived) installs
  | compact own asked calm => exact cutLog_genuine genuine own calm
  | elect candidate =>
    refine genuine.emit rfl rfl (one rfl) (.inr fun leads => ?_)
    rw [candidate] at leads
    cases leads
  | grant | append | replace | sendSuffix | answerVote | refuseEntries | acceptEntries | refuseChunk | acceptChunk | refuse => exact genuine.emit rfl rfl (one rfl) (stays rfl rfl)
  | _ => exact genuine.emit rfl (List.append_nil _).symm (List.forall_mem_nil _) (stays rfl rfl)

theorem moves_genuine (moves : Moves packet offer node after) : Genuine part whole packet after := by
  induction moves with
  | nil => exact genuine
  | step _ move ih => exact move_genuine ih delivered move

end

theorem enters_genuine (assembly : ∀ incoming, node.incomingSnapshot = some incoming → part incoming) :
    Genuine part whole packet node.clearActions :=
  ⟨assembly,(fun _ _ wrong => nomatch wrong),(fun _ wrong => nomatch wrong),fun _ wrong => nomatch wrong⟩

end pieces

-- A part of an image that its sender has had.
def Images.Begins (held : Images) (incoming : IncomingSnapshot) : Prop :=
  ∃ image, held incoming.leaderId image ∧ FrontOf image incoming

theorem FrontOf.extend (front : FrontOf image incoming) (chunk : ChunkOf image request)
    (fits : incoming.bytes.length = request.offset) : incoming.bytes ++ request.data <+: image.stateMachine := by
  obtain ⟨rest,whole⟩ := front.bytes
  have data := chunk.data
  rw [← fits,← whole,List.drop_left] at data
  rw [← whole]
  exact List.prefix_append_right_inj _ |>.mpr data

theorem Images.Distinct.composes {held : Images} (distinct : held.Distinct) (delivered : ∃ image, held source image ∧ ChunkOf image request) :
    Composes held.Begins (fun image => ∃ leader, held leader image) source request where
  front _ := by
    obtain ⟨image,has,chunk⟩ := delivered
    exact ⟨image,has,⟨chunk.index,chunk.term,chunk.size,List.nil_prefix⟩⟩
  next begins accepted := by
    simp only [IncomingSnapshot.accepts,decide_eq_true_eq] at accepted
    obtain ⟨leader,index,term,size,fits⟩ := accepted
    obtain ⟨image,has,front⟩ := begins
    obtain ⟨other,sent,chunk⟩ := delivered
    obtain rfl : image = other := by
      refine distinct source image other (leader ▸ has) sent ?_ ?_ ?_
      · rw [← front.index,index,chunk.index]
      · rw [← front.term,term,chunk.term]
      · rw [← front.size,size,chunk.size]
    exact ⟨image,has,⟨front.index,front.term,front.size,front.extend chunk fits⟩⟩
  last begins full := by
    obtain ⟨image,has,front⟩ := begins
    rw [front.index,front.term,front.bytes.eq_of_length (full.trans front.size)]
    exact ⟨_,has⟩

-- The images that leaders had when they released something.
def Cluster.heldBy (cluster : Cluster) : Images := fun leader image =>
  ∃ event ∈ cluster.released, event.node = leader ∧ event.state.role = .leader ∧ event.state.durableSnapshot = some image

structure Intact (cluster : Cluster) : Prop where
  packets : ∀ source target request, ⟨source,target,.installSnapshot request⟩ ∈ cluster.network →
    ∃ image, cluster.heldBy source image ∧ ChunkOf image request
  assemblies : ∀ host core, (cluster.hosts host).core = some core → ∀ incoming, core.incomingSnapshot = some incoming →
    cluster.heldBy.Begins incoming

section cluster
variable {voters : List NodeId} {cluster next : Cluster} {host : NodeId} {core node : RaftNode}

theorem call_genuine (intact : Intact cluster) (distinct : cluster.heldBy.Distinct) (up : (cluster.hosts host).core = some core)
    (offered : cluster.Offers host input) (moves : Moves input.packet input.offer core.clearActions node) :
    Genuine cluster.heldBy.Begins (fun image => ∃ leader, cluster.heldBy leader image) input.packet node := by
  refine moves_genuine (enters_genuine (intact.assemblies host core up)) ?_ moves
  intro source request same
  cases input with
  | step =>
    cases same
    exact distinct.composes (intact.packets _ _ _ (offered _ _ rfl))
  | _ => cases same

theorem setCore_intact (intact : Intact cluster)
    (alive : ∀ running, state = some running → ∀ incoming, running.incomingSnapshot = some incoming →
      cluster.heldBy.Begins incoming) : Intact (cluster.setCore host state) where
  packets := intact.packets
  assemblies := by
    intro other core found
    by_cases same : other = host
    · subst same
      exact alive core (by simpa [Cluster.setCore] using found)
    · exact intact.assemblies other core (by simpa [Cluster.setCore,same] using found)

theorem execute_held (found : cluster.heldBy leader image) : (cluster.execute host node state actions done).heldBy leader image := by
  obtain ⟨event,released,facts⟩ := found
  exact ⟨event,List.mem_append_left _ released,facts⟩

theorem Images.Distinct.earlier (distinct : (cluster.execute host node state actions done).heldBy.Distinct) :
    cluster.heldBy.Distinct :=
  fun leader left right first second => distinct leader left right (execute_held first) (execute_held second)

theorem execute_intact (intact : Intact cluster) (genuine : Genuine cluster.heldBy.Begins whole packet node)
    (inside : ∀ action ∈ done, action ∈ node.actions) (whole : state = none ∨ state = some node.clearActions) :
    Intact (cluster.execute host node.clearActions state node.actions done) where
  packets := by
    intro source target request sent
    rcases List.mem_append.mp sent with old | new
    · obtain ⟨image,has,chunk⟩ := intact.packets source target request old
      exact ⟨image,execute_held has,chunk⟩
    · obtain ⟨rfl,member⟩ := mem_packets.mp new
      obtain ⟨leads,image,durable,chunk⟩ := genuine.chunks target request (inside _ member)
      exact ⟨image,⟨_,List.mem_append_right _ (List.mem_map_of_mem member),rfl,leads,durable⟩,chunk⟩
  assemblies := by
    intro other core found incoming gathered
    have earlier : cluster.heldBy.Begins incoming := by
      by_cases same : other = host
      · subst same
        have now : state = some core := by simpa [Cluster.execute] using found
        rcases whole with down | up
        · rw [down] at now
          cases now
        · rw [up] at now
          cases now
          exact genuine.assembly incoming gathered
      · exact intact.assemblies other core (by simpa [Cluster.execute,same] using found) incoming gathered
    obtain ⟨image,has,front⟩ := earlier
    exact ⟨image,execute_held has,front⟩

theorem step_intact (inv : Inv voters cluster ghost) (intact : cluster.heldBy.Distinct → Intact cluster)
    (step : Cluster.Step voters cluster next) (distinct : next.heldBy.Distinct) : Intact next := by
  cases step with
  | start down self shared created =>
    refine setCore_intact (intact distinct) ?_
    intro running same incoming wrong
    cases same
    obtain ⟨-,-,rfl⟩ := created_fresh created
    cases wrong
  | crash => exact setCore_intact (intact distinct) (fun running wrong => nomatch wrong)
  | throw up offered ran =>
    have ends := inv.ends up offered ran
    have intact := intact distinct
    have kept := intact.assemblies _ _ up
    refine setCore_intact intact ?_
    intro next same
    cases same
    cases ends with
    | backward | exhausted | refused => exact kept
  | call up offered ran =>
    cases inv.ends up offered ran with
    | returned moves =>
      have intact := intact distinct.earlier
      exact execute_intact intact (call_genuine intact distinct.earlier up offered moves) (fun _ => mem_schedule.mp) (.inr rfl)
  | interrupt up offered ran =>
    cases inv.ends up offered ran with
    | returned moves =>
      have intact := intact distinct.earlier
      exact execute_intact intact (call_genuine intact distinct.earlier up offered moves)
        (fun _ member => mem_schedule.mp (List.mem_of_mem_take member)) (.inl rfl)

theorem reachable_intact (reachable : Cluster.Reachable voters cluster) (distinct : cluster.heldBy.Distinct) : Intact cluster := by
  induction reachable with
  | initial => exact ⟨(fun _ _ _ wrong => nomatch wrong),fun _ _ wrong => nomatch wrong⟩
  | step earlier step ih =>
    obtain ⟨ghost,inv⟩ := reachable_inv earlier
    exact step_intact inv ih step distinct

-- Whatever chunks arrive in whatever order, an installed image is one that a
-- leader had.
theorem chunked_snapshot_integrity (reachable : Cluster.Reachable voters cluster) (distinct : cluster.heldBy.Distinct)
    (up : (cluster.hosts host).core = some core) (offered : cluster.Offers host input)
    (ran : core.call input = .ok (after,actions)) (image : StateMachineSnapshot)
    (emitted : .applySnapshot image ∈ actions ∨ (.persistSnapshot image ∈ actions ∧ input.packet ≠ none)) :
    ∃ leader, cluster.heldBy leader image := by
  obtain ⟨ghost,inv⟩ := reachable_inv reachable
  cases inv.ends up offered ran with
  | returned moves =>
    have genuine := call_genuine (reachable_intact reachable distinct) distinct up offered moves
    rcases emitted with applied | ⟨stored,received⟩
    · exact genuine.applied image applied
    · exact (genuine.stored image stored).resolve_left received

end cluster

-- The leader compacts its entry and sends the image to node 3.
def chunkSent : Cluster := .play [1,2,3] (opening ++ [.call 1 (.compact ⟨1,1,[7]⟩) none,.call 1 (.advanceTime 15) none])

theorem chunked_snapshot_integrity_chunkSent :
    ((chunkSent.running 3 (by decide)).returns (.step 1 (.installSnapshot ⟨1,1,1,1,1,0,[7],true,6⟩))).1.durableSnapshot =
      some ⟨1,1,[7]⟩ ∧ ∃ leader, chunkSent.heldBy leader ⟨1,1,[7]⟩ := by
  have only : ∀ event ∈ chunkSent.released, event.state.durableSnapshot = none ∨ event.state.durableSnapshot = some ⟨1,1,[7]⟩ := by
    decide
  have distinct : chunkSent.heldBy.Distinct := by
    rintro leader left right ⟨first,one,-,-,has⟩ ⟨second,two,-,-,has'⟩ - - -
    have single := only first one
    have single' := only second two
    rw [has] at single
    rw [has'] at single'
    simp only [reduceCtorEq,false_or,Option.some.injEq] at single single'
    exact single.trans single'.symm
  have up : (chunkSent.hosts 3).core = some (chunkSent.running 3 (by decide)) := running_core _
  have offered : chunkSent.Offers 3 (.step 1 (.installSnapshot ⟨1,1,1,1,1,0,[7],true,6⟩)) := offers_of_now (by decide)
  exact ⟨by decide,chunked_snapshot_integrity (play_reachable _) distinct up offered rfl _ (.inl (by decide))⟩

end ForgeKv.Raft
