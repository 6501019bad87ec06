import ForgeKv.Raft.Restart
import ForgeKv.Raft.Trail

namespace ForgeKv.Raft
open Assoc Lineage Ballot

variable {voters : List NodeId} {cluster next : Cluster} {ghost later : Abstract} {host : NodeId} {core node after : RaftNode}

-- The state in which a node was when it emitted something, seen from any later time.
structure Placed (voters : List NodeId) (ghost : Abstract) (host : NodeId) (state : RaftNode) : Prop where
  sound : Sound state
  path : ∃ tip, Path ghost.tree state.baseId state.log.tail tip ∧
    (∃ term, Committed voters.toFinset ghost state.currentTerm ⟨state.commitIndex,term⟩ ∧
      Above ghost.tree tip ⟨state.commitIndex,term⟩) ∧
    (state.role = .leader → ∃ start, ghost.elected state.currentTerm = some (host,start) ∧ Above ghost.tree tip start)

structure Told (voters : List NodeId) (ghost : Abstract) (event : Event) : Prop where
  fine : ActionOk voters.toFinset ghost event.state event.action
  placed : event.action.isPersist = false → Placed voters ghost event.node event.state

structure Running (voters : List NodeId) (cluster : Cluster) (ghost : Abstract) (host : NodeId) (core : RaftNode) : Prop where
  sim : Sim voters.toFinset (fun packet => packet ∈ cluster.network) ghost host core
  stored : core.persistent = (cluster.hosts host).durable
  calm : core.actions = []
  shared : core.config.voters = voters

-- Who announced itself as leader of a term.
def Announced (voters : List NodeId) (ghost : Abstract) (event : Event) : Prop :=
  ∀ previous term leader, event.action = .roleChanged previous .leader term leader →
    event.node ∈ voters ∧ (voters.length = 1 ∨ ∃ start, ghost.elected term = some (event.node,start))

-- A cluster simulates an abstract state.
structure Inv (voters : List NodeId) (cluster : Cluster) (ghost : Abstract) : Prop where
  valid : Valid voters.toFinset ghost
  durable : ∀ host, Matches voters.toFinset ghost host (cluster.hosts host).durable
  running : ∀ host core, (cluster.hosts host).core = some core → Running voters cluster ghost host core
  packets : ∀ packet ∈ cluster.network, PacketOk voters.toFinset (fun packet => packet ∈ cluster.network) ghost packet
  returned : ∀ event ∈ cluster.returned, Announced voters ghost event
  released : ∀ event ∈ cluster.released, Told voters ghost event

theorem Placed.grow (placed : Placed voters ghost host node) (grows : Grows ghost later) : Placed voters later host node := by
  obtain ⟨sound,tip,path,⟨term,committed,above⟩,leads⟩ := placed
  refine ⟨sound,tip,path.extend grows.tree,⟨term,committed.grow grows,above.extend grows.tree⟩,fun role => ?_⟩
  obtain ⟨start,led,below⟩ := leads role
  exact ⟨start,grows.elected _ _ led,below.extend grows.tree⟩

theorem Told.grow (told : Told voters ghost event) (grows : Grows ghost later) : Told voters later event where
  fine := told.fine.carry grows (fun role => ⟨role,rfl⟩) (fun _ _ _ => Nat.le_refl _) (Nat.le_refl _)
  placed := fun other => (told.placed other).grow grows

theorem Announced.grow (announced : Announced voters ghost event) (grows : Grows ghost later) : Announced voters later event := by
  intro previous term leader same
  obtain ⟨member,alone | ⟨start,led⟩⟩ := announced previous term leader same
  · exact ⟨member,.inl alone⟩
  · exact ⟨member,.inr ⟨start,grows.elected _ _ led⟩⟩

theorem initial_inv (voters : List NodeId) : Inv voters Cluster.initial (initial NodeId Payload) where
  valid := initial_valid _
  durable := by
    intro host
    refine ⟨rfl,?_,rfl,.inl rfl⟩
    intro candidate
    constructor
    · intro wrong; cases wrong
    · rintro ⟨behind,wrong⟩; cases wrong
  running := by intro host core wrong; cases wrong
  packets := List.forall_mem_nil _
  returned := List.forall_mem_nil _
  released := List.forall_mem_nil _

theorem Running.within (inv : Inv voters cluster ghost) (running : Running voters cluster ghost host core) :
    Within voters.toFinset (fun packet => packet ∈ cluster.network) ghost host core.clearActions := by
  have same : Sent (fun packet => packet ∈ cluster.network) host core.clearActions.actions = (fun packet => packet ∈ cluster.network) := by
    funext packet
    simp [Sent,RaftNode.clearActions]
  have core' : core.clearActions = core := by
    unfold RaftNode.clearActions
    rw [← running.calm]
  refine ⟨inv.valid,?_,?_,?_⟩
  · rw [same,core']; exact running.sim
  · rw [same]; exact inv.packets
  · exact List.forall_mem_nil _

theorem Within.placed (within : Within voters.toFinset net ghost host node) : Placed voters ghost host node := by
  refine ⟨within.sim.sound,_,within.path,within.sim.commit,fun role => ?_⟩
  obtain ⟨start,led,tip⟩ := within.tip role
  refine ⟨start,led,?_⟩
  cases tip with
  | inl same => rw [same]; exact .refl
  | inr own =>
    obtain ⟨now,content,found⟩ := own
    obtain ⟨leader,start',led',-,above⟩ := term_start within.valid found
    rw [now,led] at led'
    cases led'
    exact above

theorem mem_packets {done : Actions} {packet : Packet} : packet ∈ done.filterMap (Action.packet host) ↔
    packet.source = host ∧ .sendMessage packet.target packet.message ∈ done := by
  rw [List.mem_filterMap]
  constructor
  · rintro ⟨action,inside,made⟩
    cases action with
    | sendMessage => cases made; exact ⟨rfl,inside⟩
    | _ => cases made
  · rintro ⟨rfl,inside⟩
    exact ⟨_,inside,rfl⟩

theorem execute_inv (inv : Inv voters cluster ghost) (turn : Turn voters.toFinset host ghost later)
    (view : Matches voters.toFinset later host ((cluster.hosts host).durable.persistAll done))
    (sends : ∀ target message, .sendMessage target message ∈ done →
      PacketOk voters.toFinset (fun packet => packet ∈ cluster.network) later ⟨host,target,message⟩)
    (returns : ∀ action ∈ actions, Announced voters later ⟨host,node,action⟩)
    (releases : ∀ action ∈ done, Told voters later ⟨host,node,action⟩)
    (alive : ∀ running, state = some running → Running voters (cluster.execute host node state actions done) later host running) :
    Inv voters (cluster.execute host node state actions done) later where
  valid := turn.valid inv.valid
  durable := by
    intro other
    by_cases same : other = host
    · subst same
      simpa [Cluster.execute] using view
    · simpa [Cluster.execute,same] using (inv.durable other).others turn same
  running := by
    intro other core found
    by_cases same : other = host
    · subst same
      exact alive core (by simpa [Cluster.execute] using found)
    · have running := inv.running other core (by simpa [Cluster.execute,same] using found)
      refine ⟨running.sim.others turn same ?_,?_,running.calm,running.shared⟩
      · intro target request sent
        cases List.mem_append.mp sent with
        | inl old => exact old
        | inr new => exact absurd (mem_packets.mp new).1 same
      · simpa [Cluster.execute,same] using running.stored
  packets := by
    intro packet sent
    have wider : ∀ packet, packet ∈ cluster.network → packet ∈ (cluster.execute host node state actions done).network :=
      fun _ old => List.mem_append_left _ old
    cases List.mem_append.mp sent with
    | inl old => exact (inv.packets packet old).grow turn.grows wider
    | inr new =>
      obtain ⟨source,target,message⟩ := packet
      obtain ⟨rfl,member⟩ := mem_packets.mp new
      exact (sends target message member).grow (.refl _) wider
  returned := by
    intro event member
    cases List.mem_append.mp member with
    | inl old => exact (inv.returned event old).grow turn.grows
    | inr new =>
      obtain ⟨action,inside,rfl⟩ := List.mem_map.mp new
      exact returns action inside
  released := by
    intro event member
    cases List.mem_append.mp member with
    | inl old => exact (inv.released event old).grow turn.grows
    | inr new =>
      obtain ⟨action,inside,rfl⟩ := List.mem_map.mp new
      exact releases action inside

theorem persistAll_plain (plain : ∀ action ∈ actions, action.isPersist = false) :
    RaftPersistentState.persistAll state actions = state := by
  rw [← persistAll_filter,List.filter_eq_nil_iff.mpr (fun action member => by simp [plain action member])]
  rfl

theorem mem_schedule : action ∈ schedule actions ↔ action ∈ actions := by
  unfold schedule
  cases persists : action.isPersist <;> simp [persists]

theorem persistAll_schedule (enough : (Actions.persists actions).length ≤ count) :
    RaftPersistentState.persistAll state ((schedule actions).take count) = RaftPersistentState.persistAll state actions := by
  unfold Actions.persists at enough
  unfold schedule
  rw [List.take_append,List.take_of_length_le enough,persistAll_append,persistAll_filter]
  refine persistAll_plain (fun action member => ?_)
  have inside := (List.mem_filter.mp (List.mem_of_mem_take member)).2
  simpa using inside

theorem persistAll_whole (state : RaftPersistentState) (actions : Actions) :
    state.persistAll (schedule actions) = state.persistAll actions := by
  have enough : (Actions.persists actions).length ≤ (schedule actions).length := by
    unfold schedule Actions.persists
    rw [List.length_append]
    exact Nat.le_add_right _ _
  rw [← persistAll_schedule enough,List.take_length]

theorem Told.emitted (within : Within voters.toFinset net ghost host node) (member : action ∈ node.actions) :
    Told voters ghost ⟨host,node.clearActions,action⟩ where
  fine := (within.emitted action member).carry (.refl _) (fun role => ⟨role,rfl⟩) (fun _ _ _ => Nat.le_refl _) (Nat.le_refl _)
  placed := by
    intro _
    obtain ⟨sound,path⟩ := within.placed
    exact ⟨{sound with},path⟩

theorem finished_inv (inv : Inv voters cluster ghost) (running : Running voters cluster ghost host core)
    (trail : Trail voters.toFinset (fun packet => packet ∈ cluster.network) ghost host core.clearActions.persistent node)
    (config : node.config = core.config) (inside : ∀ action ∈ done, action ∈ node.actions)
    (enough : (cluster.hosts host).durable.persistAll done = (cluster.hosts host).durable.persistAll node.actions)
    (whole : state = none ∨ (state = some node.clearActions ∧ ∀ action ∈ node.actions, action ∈ done)) :
    ∃ later, Turn voters.toFinset host ghost later ∧
      Inv voters (cluster.execute host node.clearActions state node.actions done) later := by
  obtain ⟨later,turn,within⟩ := trail.now
  have durable : (cluster.hosts host).durable.persistAll done = node.persistent := by
    rw [enough,trail.stored,← running.stored]
    rfl
  have member : host ∈ voters := by
    rw [← running.shared,← running.sim.self]
    exact running.sim.sound.configOk.member
  refine ⟨later,turn,execute_inv inv turn ?_ ?_ ?_ ?_ ?_⟩
  · rw [durable]; exact within.sim.view
  · exact fun target message sent => within.packets _ (.inr ⟨rfl,inside _ sent⟩)
  · intro action emitted previous term leader same
    simp only at same
    rw [same] at emitted
    obtain ⟨role,now⟩ := within.emitted _ emitted
    obtain ⟨start,led,-⟩ := (within.sim.leads role).elected
    exact ⟨member,.inr ⟨start,now ▸ led⟩⟩
  · exact fun action sent => Told.emitted within (inside action sent)
  · intro next up
    cases whole with
    | inl crashed => rw [crashed] at up; cases up
    | inr finished =>
      obtain ⟨rfl,all⟩ := finished
      cases up
      have same : Sent (fun packet => packet ∈ cluster.network) host node.actions =
          (fun packet => packet ∈ (cluster.execute host node.clearActions (some node.clearActions) node.actions done).network) := by
        funext packet
        refine propext (or_congr_right (Iff.trans (and_congr_right fun _ => ⟨all _,inside _⟩) mem_packets.symm) |>.trans ?_)
        exact List.mem_append.symm
      have sim := within.sim
      rw [same] at sim
      refine ⟨{sim with
        sound := {sim.sound with}
        stands := fun role => {sim.stands role with}
        leads := fun role => {sim.leads role with}},?_,rfl,?_⟩
      · show node.persistent = _
        simpa [Cluster.execute] using durable.symm
      · exact (congrArg RaftConfig.voters config).trans running.shared

theorem crashed_inv (inv : Inv voters cluster ghost) (running : Running voters cluster ghost host core)
    (config : node.config = core.config) (short : count ≤ node.actions.persists.length)
    (half : Halfway voters.toFinset ghost host core.clearActions.persistent node (node.actions.persists.take count) later) :
    Inv voters (cluster.execute host node.clearActions none node.actions ((schedule node.actions).take count)) later := by
  have done : (schedule node.actions).take count = node.actions.persists.take count := by
    unfold Actions.persists at short ⊢
    unfold schedule
    rw [List.take_append_of_le_length short]
  have persists : ∀ action ∈ node.actions.persists.take count, action.isPersist = true :=
    fun action member => (List.mem_filter.mp (List.mem_of_mem_take member)).2
  have member : host ∈ voters := by
    rw [← running.shared,← running.sim.self]
    exact running.sim.sound.configOk.member
  rw [done]
  refine execute_inv inv half.turn ?_ ?_ ?_ ?_ ?_
  · have view := half.view
    rw [show core.clearActions.persistent = (cluster.hosts host).durable from running.stored] at view
    exact view
  · intro target message sent
    cases persists _ sent
  · intro action emitted previous term leader same
    simp only at same
    rw [same] at emitted
    refine ⟨member,(half.leader previous term leader emitted).imp (fun alone => ?_) id⟩
    rw [← running.shared,← config]
    exact alone
  · intro action sent
    refine ⟨half.fine action sent _,fun other => ?_⟩
    rw [persists action sent] at other
    cases other
  · intro next wrong
    cases wrong

theorem PacketOk.positive (valid : Valid voters.toFinset ghost) (ok : PacketOk voters.toFinset sent ghost ⟨source,target,message⟩) :
    message.Positive := by
  cases message with
  | appendEntries =>
    obtain ⟨-,⟨last,-,path⟩,-⟩ := ok
    intro entry member
    obtain ⟨position,found⟩ := List.mem_iff_getElem?.mp member
    obtain ⟨-,-,-,before,written⟩ := path.member found
    exact (valid.rooted.positive _ _ written).2
  | _ => trivial

section
variable (inv : Inv voters cluster ghost)
include inv

theorem offered_positive (offered : cluster.Offers host input) : input.Positive := by
  cases input with
  | step source message => exact (inv.packets _ (offered source message rfl)).positive inv.valid
  | _ => trivial

theorem Inv.ends (up : (cluster.hosts host).core = some core) (offered : cluster.Offers host input) (ran : core.call input = result) :
    Ends core input result :=
  ran ▸ call_ends (inv.running host core up).sim.sound (offered_positive inv offered)

theorem call_trail (running : Running voters cluster ghost host core)
    (offered : cluster.Offers host input) (moves : Moves input.packet input.offer core.clearActions node) :
    Trail voters.toFinset (fun packet => packet ∈ cluster.network) ghost host core.clearActions.persistent node := by
  refine moves_trail (running.within inv) rfl moves ?_
  intro source message same
  cases input with
  | step => cases same; exact offered source message rfl
  | _ => cases same

theorem setCore_inv (alive : ∀ running, state = some running → Running voters (cluster.setCore host state) ghost host running) :
    Inv voters (cluster.setCore host state) ghost where
  durable := by
    intro other
    by_cases same : other = host
    · subst same
      simpa [Cluster.setCore] using inv.durable other
    · simpa [Cluster.setCore,same] using inv.durable other
  running := by
    intro other core found
    by_cases same : other = host
    · subst same
      exact alive core (by simpa [Cluster.setCore] using found)
    · obtain ⟨sim,stored,calm,shared⟩ := inv.running other core (by simpa [Cluster.setCore,same] using found)
      exact ⟨sim,by simpa [Cluster.setCore,same] using stored,calm,shared⟩
  __ := inv

theorem created_running (self : config.selfId = host) (shared : config.voters = voters)
    (created : RaftNode.create config (cluster.hosts host).durable time = .ok core) :
    Running voters (cluster.setCore host (some core)) ghost host core := by
  obtain ⟨sound,same,durable,role,commit,actions⟩ := create_ok created
  have view := inv.durable host
  refine ⟨⟨sound,by rw [same]; exact self,by rw [same,shared],by rw [durable]; exact view,?_,?_,?_⟩,?_,actions,by rw [same]; exact shared⟩
  · -- The commit index restarts at the snapshot.
    have term : core.currentTerm = (cluster.hosts host).durable.currentTerm := congrArg RaftPersistentState.currentTerm durable
    rw [term,commit]
    exact ⟨_,view.base,view.path.above⟩
  · intro wrong; rw [role] at wrong; cases wrong
  · intro wrong; rw [role] at wrong; cases wrong
  · simpa [Cluster.setCore] using durable

end

theorem thrown_running (running : Running voters cluster ghost host core) (now : Nat) :
    Running voters (cluster.setCore host (some {core with now := now,actions := []})) ghost host {core with now := now,actions := []} where
  sim :=
    {running.sim with
      sound := {running.sim.sound with}
      stands := fun role => {running.sim.stands role with}
      leads := fun role => {running.sim.leads role with}}
  stored := by
    show core.persistent = _
    simpa [Cluster.setCore] using running.stored
  calm := rfl
  shared := running.shared

theorem step_inv (inv : Inv voters cluster ghost) (step : Cluster.Step voters cluster next) :
    ∃ later, Runs voters.toFinset ghost later ∧ Inv voters next later := by
  cases step with
  | start down self shared created =>
    refine ⟨ghost,.nil,setCore_inv inv (fun running same => ?_)⟩
    cases same
    exact created_running inv self shared created
  | crash =>
    refine ⟨ghost,.nil,setCore_inv inv (fun running wrong => ?_)⟩
    cases wrong
  | throw up offered ran =>
    have running := inv.running _ _ up
    have ends := inv.ends up offered ran
    refine ⟨ghost,.nil,setCore_inv inv (fun next same => ?_)⟩
    cases same
    cases ends with
    | backward => exact ⟨running.sim,by simpa [Cluster.setCore] using running.stored,running.calm,running.shared⟩
    | exhausted | refused => exact thrown_running running _
  | call up offered ran =>
    have running := inv.running _ _ up
    cases inv.ends up offered ran with
    | returned moves =>
      have trail := call_trail inv running offered moves
      have config := moves_config moves
      obtain ⟨later,turn,inv⟩ := finished_inv inv running trail config (fun action => mem_schedule.mp)
        (persistAll_whole _ _) (.inr ⟨rfl,fun action => mem_schedule.mpr⟩)
      exact ⟨later,turn.path,inv⟩
  | interrupt up offered ran count =>
    have running := inv.running _ _ up
    cases inv.ends up offered ran with
    | returned moves =>
      have trail := call_trail inv running offered moves
      have config := moves_config moves
      rcases Nat.lt_or_ge count (Actions.persists _).length with early | late
      · obtain ⟨half,halfway⟩ := trail.crash count early
        exact ⟨half,halfway.turn.path,crashed_inv inv running config (Nat.le_of_lt early) halfway⟩
      · obtain ⟨later,turn,inv⟩ := finished_inv inv running trail config
          (fun action member => mem_schedule.mp (List.mem_of_mem_take member)) (persistAll_schedule late) (.inl rfl)
        exact ⟨later,turn.path,inv⟩

theorem reachable_inv (reachable : Cluster.Reachable voters cluster) : ∃ ghost, Inv voters cluster ghost := by
  refine reachable.invariant (fun cluster => ∃ ghost, Inv voters cluster ghost) ⟨_,initial_inv voters⟩ ?_
  intro before after simulated step
  obtain ⟨ghost,inv⟩ := simulated
  obtain ⟨later,-,inv⟩ := step_inv inv step
  exact ⟨later,inv⟩

end ForgeKv.Raft
