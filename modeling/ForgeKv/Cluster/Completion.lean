import ForgeKv.Cluster.Attending
import ForgeKv.Cluster.Background

namespace ForgeKv.Cluster
open Raft RaftStorage Persisted
open OwnerState (Ledger waits)
open ClusterNode (approach)

def ClusterNode.standing (node : ClusterNode) : Ledger := ⟨node.running,node.owner.config,node.owner.tally,node.owner.Redirected,none,none⟩

theorem Quiet.own {ledger : Ledger} {node : ClusterNode} (quiet : Quiet ledger node) (closed : ledger.Closed) : Quiet node.standing node :=
  ⟨(show Able node.owner.config node.driver.node from quiet.records.config ▸ quiet.able),quiet.awaited,⟨rfl,fun _ => rfl,fun _ _ told => told,quiet.records.proposal.trans closed.proposal,
    quiet.records.barrier.trans closed.barrier⟩,rfl,quiet.unfailed⟩

theorem start_quiet (started : ClusterNode.start config files = .ok first) : Quiet first.standing first ∧ first.owner.config = config ∧
    first.running = true ∧ ∀ completion, first.owner.tally completion = 0 := by
  unfold ClusterNode.start at started
  split at started
  · cases started
  rename_i driver created
  split at started
  · cases started
  rename_i owner recovered
  cases started
  obtain ⟨same,-⟩ := OwnerState.recover_ok recovered
  generalize owner.machine = machine at same
  subst same
  have nothing : ∀ index, ¬ (OwnerState.create config driver.node machine).Waiting index := by
    intro index waiting
    rcases waiting with found | found <;> cases found
  refine ⟨⟨⟨(open_ready created).made.sound,(open_ready created).made.config⟩,⟨rfl,fun _ => nothing,.inr fun index waiting => absurd waiting (nothing index),Nat.zero_le _⟩,
    ⟨rfl,fun _ => rfl,fun _ _ told => told,rfl,rfl⟩,rfl,rfl⟩,rfl,rfl,fun _ => rfl⟩

-- What handle_peer has made sure of.
def Work.Vetted (config : ClusterNodeConfig) : Work → Prop
  | .peerRequest envelope _ => envelope.source ≠ config.nodeId ∧ envelope.source ∈ voterIds config ∧ isRequestMessage envelope.message = true
  | _ => True

namespace Service
variable {config : ClusterNodeConfig} {service : Service} {room : Nat}

-- Every accepted promise is in one place.
structure Served (config : ClusterNodeConfig) (service : Service) : Prop where
  quiet : Quiet service.node.standing service.node
  configured : service.node.owner.config = config
  balance : ∀ completion, service.node.owner.tally completion+(service.queue.flatMap (fun work => work.completion.toList)).count completion+
    (service.canceled.map Prod.fst).count completion = service.accepted.count completion
  distinct : service.accepted.Nodup
  numbered : ∀ completion ∈ service.accepted, completion < service.issued
  drained : service.stopping = true → service.queue = []
  decoded : ∀ work ∈ service.queue, work.Decoded
  vetted : ∀ work ∈ service.queue, work.Vetted config
  ended : service.node.running = false → ∀ index, ¬ service.node.owner.Waiting index

theorem post_some (posted : service.post work = some after) :
    service.stopping = false ∧ after = {service with queue := service.queue ++ [work]} := by
  unfold post at posted
  split at posted
  · cases posted
  · rename_i room
    exact ⟨Bool.eq_false_iff.mpr (not_or.mp room).1,(Option.some.inj posted).symm⟩

theorem submit_served {work : Completion → Work} (served : Served config service) (promised : ∀ completion, (work completion).completion = some completion)
    (decoded : ∀ completion, (work completion).Decoded)
    (vetted : ∀ completion, (work completion).Vetted config) : Served config (service.submit work) := by
  unfold submit
  split
  · exact {served with numbered := fun completion member => Nat.lt_succ_of_lt (served.numbered completion member)}
  · rename_i after posted
    obtain ⟨going,rfl⟩ := post_some posted
    have unused : service.issued ∉ service.accepted := fun member => Nat.lt_irrefl _ (served.numbered _ member)
    refine ⟨served.quiet,served.configured,fun completion => ?_,?_,fun completion member => ?_,fun stops => ?_,?_,?_,served.ended⟩
    · have before := served.balance completion
      rw [List.flatMap_append,List.count_append,List.count_append,← before,List.flatMap_singleton,promised]
      dsimp only [Option.toList]
      omega
    · exact List.nodup_append.mpr ⟨served.distinct,List.nodup_singleton _,by
        intro one member other new same
        rw [List.mem_singleton.mp new] at same
        exact unused (same ▸ member)⟩
    · rcases List.mem_append.mp member with old | new
      · exact Nat.lt_succ_of_lt (served.numbered completion old)
      · rw [List.mem_singleton.mp new]
        exact Nat.lt_succ_self _
    · rw [going] at stops
      cases stops
    · intro found member
      rcases List.mem_append.mp member with old | new
      · exact served.decoded found old
      · rw [List.mem_singleton.mp new]
        exact decoded _
    · intro found member
      rcases List.mem_append.mp member with old | new
      · exact served.vetted found old
      · rw [List.mem_singleton.mp new]
        exact vetted _

theorem respond_served (served : Served config service) (silent : work.completion = none) (decoded : work.Decoded) (vetted : work.Vetted config) :
    Served config ((service.post work).getD service) := by
  cases posted : service.post work with
  | none => exact served
  | some =>
    obtain ⟨going,rfl⟩ := post_some posted
    refine ⟨served.quiet,served.configured,fun completion => ?_,served.distinct,served.numbered,fun stops => ?_,?_,?_,served.ended⟩
    · have before := served.balance completion
      dsimp only [Option.getD]
      rw [List.flatMap_append,List.flatMap_singleton,silent,Option.toList_none,List.append_nil]
      exact before
    · exact absurd (stops.symm.trans going) (by decide)
    · intro found member
      rcases List.mem_append.mp member with old | new
      · exact served.decoded found old
      · rw [List.mem_singleton.mp new]
        exact decoded
    · intro found member
      rcases List.mem_append.mp member with old | new
      · exact served.vetted found old
      · rw [List.mem_singleton.mp new]
        exact vetted

theorem cancel_promises (work : Work) : (cancel work).map Prod.fst = work.completion.toList := by
  cases work <;> rfl

theorem stop_served (served : Served config service) : Served config service.stop := by
  refine ⟨served.quiet,served.configured,fun completion => ?_,served.distinct,served.numbered,fun _ => rfl,List.forall_mem_nil _,List.forall_mem_nil _,served.ended⟩
  have before := served.balance completion
  have told : (service.queue.flatMap cancel).map Prod.fst = service.queue.flatMap (fun work => work.completion.toList) := by
    simp only [List.map_flatMap,cancel_promises]
  dsimp only [stop]
  rw [List.map_append,List.count_append,told]
  simp only [List.flatMap_nil,List.count_nil]
  omega

theorem standing_closed (node : ClusterNode) : node.standing.Closed := ⟨rfl,rfl⟩

theorem exit_served (served : Served config service) : Served config {service with node := service.node.stop} := by
  have resolves : OwnerState.Resolves service.node.owner (service.node.owner.failPending .retry) := OwnerState.failPending_resolves (by decide)
  have quiet : Quiet service.node.standing {service.node with owner := service.node.owner.failPending .retry} :=
    served.quiet.resolved rfl resolves
  refine ⟨⟨quiet.able,quiet.awaited,⟨rfl,fun _ => rfl,fun _ _ told => told,quiet.records.proposal,quiet.records.barrier⟩,rfl,quiet.unfailed⟩,
    served.configured,fun completion => ?_,served.distinct,served.numbered,served.drained,served.decoded,served.vetted,fun _ index waiting => ?_⟩
  · have before := served.balance completion
    rw [← resolves.tally completion] at before
    exact before
  · rcases waiting with found | found <;> cases found

theorem loop_served (served : Served config service) (running : service.node.running = true)
    (ran : ClusterNode.iterate service.queue.head? (service.node.begin moments fates) = (after,none)) :
    Served config {service with node := after,queue := service.queue.tail} := by
  have decoded : ∀ posted ∈ service.queue.head?, posted.Decoded := fun posted first => served.decoded posted (List.mem_of_mem_head? first)
  obtain ⟨arrived,-,-,idle,busy⟩ := iterate_quiet served.quiet (standing_closed _) decoded ran
  have ends : ∀ node ledger, Quiet ledger node → ledger.running = true → node.running = false →
      ∀ index, ¬ node.owner.Waiting index := by
    intro node ledger quiet going stopped
    rw [quiet.running,going] at stopped
    cases stopped
  cases shape : service.queue with
  | nil =>
    have quiet := idle (by rw [shape]; rfl)
    refine ⟨quiet.own (standing_closed _),quiet.records.config.trans served.configured,fun completion => ?_,served.distinct,served.numbered,
      fun _ => rfl,List.forall_mem_nil _,List.forall_mem_nil _,ends _ _ quiet running⟩
    have before := served.balance completion
    have counted : _ = service.node.owner.tally completion := quiet.records.tally completion
    rw [shape,← counted] at before
    exact before
  | cons work =>
    have quiet := busy work (by rw [shape]; rfl)
    refine ⟨quiet.own ⟨rfl,rfl⟩,quiet.records.config.trans served.configured,fun completion => ?_,served.distinct,served.numbered,
      fun stops => ?_,fun other member => served.decoded other (shape ▸ List.mem_cons_of_mem _ member),
      fun other member => served.vetted other (shape ▸ List.mem_cons_of_mem _ member),ends _ _ quiet running⟩
    · have before := served.balance completion
      have counted := quiet.records.tally completion
      rw [shape,List.flatMap_cons,List.count_append] at before
      dsimp only [OwnerState.Ledger.after,ClusterNode.standing] at counted
      dsimp only [List.tail_cons]
      omega
    · have empty := served.drained stops
      rw [shape] at empty
      cases empty

theorem turn_served (served : Served config service) : Served config (service.turn moments fates) ∨
    ((service.turn moments fates).node.failure ≠ none ∧ (service.turn moments fates).node.running = false) := by
  unfold turn
  split
  · exact .inl served
  · rename_i running
    have running : service.node.running = true := by simpa using running
    split
    · exact .inl (exit_served served)
    · exact (turn_either running).imp_left (loop_served served running)

theorem background_served (served : Served config service) : Served config {service with node := service.node.runBackground fate} := by
  obtain ⟨moved,role,resolves,running,failure⟩ : (service.node.runBackground fate).driver.node = _ ∧ _ := runBackground_undisturbed
  have quiet := (served.quiet.attending.undisturbed moved role resolves running failure).quiet served.quiet.able
  refine ⟨quiet.own (standing_closed _),resolves.config.trans served.configured,fun completion => ?_,served.distinct,served.numbered,
    served.drained,served.decoded,served.vetted,fun stopped index waiting => ?_⟩
  · have before := served.balance completion
    rw [← resolves.tally completion] at before
    exact before
  · exact served.ended (running ▸ stopped) index (resolves.waiting index waiting)

theorem happen_served (served : Served config service) : Served config (service.happen event) ∨
    ((service.happen event).node.failure ≠ none ∧ (service.happen event).node.running = false) := by
  cases event with
  | propose => exact .inl (submit_served served (fun _ => rfl) (fun _ => trivial) (fun _ => trivial))
  | get =>
    dsimp only [happen]
    exact .inl (submit_served served (fun _ => rfl) (fun _ => trivial) (fun _ => trivial))
  | peer frame =>
    dsimp only [happen]
    split
    · exact .inl served
    · rename_i envelope posted
      obtain ⟨decoded,-,-,vetted⟩ := handlePeer_ok.mp posted
      rw [served.configured] at vetted
      exact .inl (submit_served served (fun _ => rfl) (fun _ => ⟨frame,decoded⟩) fun _ => vetted)
  | reply target request requestId frame =>
    dsimp only [happen]
    split
    · exact .inl served
    · rename_i message taken
      obtain ⟨envelope,decoded,same⟩ := peerResponse_some taken
      exact .inl (respond_served served rfl ⟨frame,envelope,decoded,same⟩ trivial)
  | turn => exact turn_served served
  | background => exact .inl (background_served served)
  | stop => exact .inl (stop_served served)

theorem happen_failed (failed : service.node.failure ≠ none) (ended : service.node.running = false) :
    (service.happen event).node.failure ≠ none ∧ (service.happen event).node.running = false := by
  have submits : ∀ work, (service.submit work).node = service.node := by
    intro work
    unfold submit
    split
    · rfl
    · rename_i posted
      rw [(post_some posted).2]
  cases event with
  | propose | get => exact submits _ ▸ ⟨failed,ended⟩
  | peer =>
    dsimp only [happen]
    split
    · exact ⟨failed,ended⟩
    · exact submits _ ▸ ⟨failed,ended⟩
  | reply target =>
    dsimp only [happen]
    split
    · exact ⟨failed,ended⟩
    · rename_i message taken
      cases posted : service.post (.peerResponse target message) with
      | none => exact ⟨failed,ended⟩
      | some =>
        rw [(post_some posted).2]
        exact ⟨failed,ended⟩
  | turn =>
    dsimp only [happen]
    unfold turn
    rw [if_pos (by simp [ended])]
    exact ⟨failed,ended⟩
  | background fate =>
    obtain ⟨-,-,-,running,failure⟩ : (service.node.runBackground fate).driver.node = _ ∧ _ := runBackground_undisturbed
    exact ⟨failure ▸ failed,running ▸ ended⟩
  | stop => exact ⟨failed,ended⟩

theorem fresh_served (started : ClusterNode.start config files = .ok first) : Served config (fresh room first) := by
  obtain ⟨quiet,configured,running,blank⟩ := start_quiet started
  refine ⟨quiet,configured,fun completion => congrArg (·+0+0) (blank completion),List.nodup_nil,List.forall_mem_nil _,fun _ => rfl,
    List.forall_mem_nil _,List.forall_mem_nil _,fun stopped => ?_⟩
  have going : (fresh room first).node.running = true := running
  rw [going] at stopped
  cases stopped

theorem live_served (started : ClusterNode.start config files = .ok first) (events : List Event)
    (unfailed : ((fresh room first).live events).node.failure = none) : Served config ((fresh room first).live events) := by
  have every : ∀ service, Served config service ∨ (service.node.failure ≠ none ∧ service.node.running = false) →
      Served config (service.live events) ∨ ((service.live events).node.failure ≠ none ∧ (service.live events).node.running = false) := by
    clear unfailed
    induction events with
    | nil => exact fun service holds => holds
    | cons event rest ih =>
      intro service holds
      exact ih _ (holds.elim happen_served fun ⟨failed,ended⟩ => .inr (happen_failed failed ended))
  exact (every _ (.inl (fresh_served started))).resolve_right fun broken => broken.1 unfailed

theorem Served.set (served : Served config service) (completion : Completion) : service.set completion+
    waits service.node.owner.pending service.node.owner.pendingReads completion+
      (service.queue.flatMap (fun work => work.completion.toList)).count completion = service.accepted.count completion := by
  have balance := served.balance completion
  unfold Service.set OwnerState.tally at *
  rw [List.map_append,List.count_append]
  omega

theorem Served.returned (served : Served config service) (returned : service.Returned) (accepted : completion ∈ service.accepted) :
    service.set completion = 1 := by
  have set := served.set completion
  have nothing := served.ended returned.2
  have mutations : ∀ index, service.node.owner.pending.find? index = none := fun index =>
    Option.not_isSome_iff_eq_none.mp (not_or.mp (nothing index)).1
  have reads : ∀ index, service.node.owner.pendingReads.find? index = none := fun index =>
    Option.not_isSome_iff_eq_none.mp (not_or.mp (nothing index)).2
  unfold waits at set
  rw [Table.total_absent mutations,Table.total_absent reads,served.drained returned.1,
    List.count_eq_one_of_mem served.distinct accepted] at set
  exact set

end Service

-- The index that a process function announces is free, and the core gives it to the new entry.
def Announced (arrived : ClusterNode) (work : Work) : Prop :=
  ∀ owner input core actions kind command, arrived.owner.receive arrived.driver.node work = .ok (owner,some input) →
    input.entry = some (kind,command) → arrived.driver.node.call input = .ok (core,actions) →
      arrived.owner.pending.find? (OwnerState.nextIndex arrived.driver.node) = none ∧
        arrived.owner.pendingReads.find? (OwnerState.nextIndex arrived.driver.node) = none ∧
        core.log = arrived.driver.node.log ++
          [⟨OwnerState.nextIndex arrived.driver.node,arrived.driver.node.currentTerm,kind,command⟩]

theorem Quiet.announced {ledger : Ledger} {arrived : ClusterNode} (quiet : Quiet ledger arrived) (work : Work) : Announced arrived work := by
  intro owner input core actions kind command received own called
  have leads : arrived.driver.node.role = .leader := by
    cases OwnerState.receive_asks received with
    | proposal leads | read leads => exact leads
    | peerRequest | peerResponse => cases own
  obtain ⟨-,log,-⟩ := leader_appends quiet.able.sound leads own called
  obtain ⟨mutations,reads⟩ := quiet.absent
  refine ⟨mutations,reads,?_⟩
  rw [nextIndex_last quiet.able.sound]
  exact log

theorem Quiet.roomy {ledger : Ledger} {arrived : ClusterNode} (quiet : Quiet ledger arrived)
    (received : arrived.owner.receive arrived.driver.node work = .ok (owner,input)) :
    owner.pendingReads.size ≤ arrived.owner.config.maxPendingReads := by
  cases input with
  | none =>
    obtain ⟨-,-,-,rfl⟩ := OwnerState.receive_told received
    exact quiet.awaited.room
  | some =>
    cases OwnerState.receive_asks received with
    | proposal => exact quiet.awaited.room
    | read leads space =>
      rw [Table.emplace_new quiet.absent.2,Table.size_assign_new quiet.absent.2]
      exact space
    | peerRequest | peerResponse => exact quiet.awaited.room

theorem Service.Served.redirects {config : ClusterNodeConfig} {service : Service} (served : Served config service)
    (unfailed : (service.turn moments fates).node.failure = none)
    (told : (service.turn moments fates).node.owner.Redirected completion result) (new : ¬ service.node.owner.Redirected completion result) :
    ∃ work arrived, service.queue.head? = some work ∧ approach (service.node.begin moments fates) = (arrived,none) ∧
      work.completion = some completion ∧ (ClusterNode.process work arrived).1.driver = arrived.driver := by
  unfold turn at unfailed told
  split at told
  · exact absurd told new
  rename_i running
  rw [if_neg running] at unfailed
  split at told
  · have resolves : OwnerState.Resolves service.node.owner (service.node.owner.failPending .retry) := OwnerState.failPending_resolves (by decide)
    exact absurd (resolves.redirected completion result told) new
  rename_i going
  rw [if_neg going] at unfailed
  have ran := (turn_either (by simpa using running)).resolve_right fun broken => broken.1 unfailed
  have decoded : ∀ posted ∈ service.queue.head?, posted.Decoded := fun posted first => served.decoded posted (List.mem_of_mem_head? first)
  obtain ⟨arrived,reached,-,idle,busy⟩ := iterate_quiet served.quiet (standing_closed _) decoded ran
  cases shape : service.queue.head? with
  | none => exact absurd ((idle shape).records.redirected completion result told) new
  | some work =>
    obtain ⟨promised,untouched⟩ := ((busy work shape).records.redirected completion result told).resolve_left new
    exact ⟨work,arrived,rfl,reached,promised,untouched⟩

structure CompletesOnce (config : ClusterNodeConfig) (service : Service) : Prop where
  once : ∀ completion, service.set completion ≤ 1
  returned : service.Returned → ∀ completion ∈ service.accepted, service.set completion = 1
  reads : service.node.owner.pendingReads.size ≤ config.maxPendingReads
  arrives : ∀ moments fates arrived, approach (service.node.begin moments fates) = (arrived,none) → ∀ work ∈ service.queue.head?,
    Announced arrived work ∧ ∀ owner input, arrived.owner.receive arrived.driver.node work = .ok (owner,input) →
      owner.pendingReads.size ≤ config.maxPendingReads
  redirects : ∀ moments fates, (service.turn moments fates).node.failure = none → ∀ completion result,
    (service.turn moments fates).node.owner.Redirected completion result → ¬ service.node.owner.Redirected completion result →
      ∃ work arrived, service.queue.head? = some work ∧ approach (service.node.begin moments fates) = (arrived,none) ∧
        work.completion = some completion ∧ (ClusterNode.process work arrived).1.driver = arrived.driver

-- Every request that was accepted is completed once, whenever the node is stopped.
theorem requests_complete_once (started : ClusterNode.start config files = .ok first) (room : Nat) (events : List Service.Event)
    (unfailed : ((Service.fresh room first).live events).node.failure = none) :
    CompletesOnce config ((Service.fresh room first).live events) := by
  have served := Service.live_served started events unfailed
  refine ⟨fun completion => ?_,fun returned completion member => served.returned returned member,
    served.configured ▸ served.quiet.awaited.room,?_,fun moments fates fine completion result => served.redirects fine⟩
  · have set := served.set completion
    have few := List.nodup_iff_count_le_one.mp served.distinct completion
    omega
  · intro moments fates arrived reached work first
    have begun : Quiet ((Service.fresh room _).live events).node.standing (((Service.fresh room _).live events).node.begin moments fates) :=
      ⟨served.quiet.able,served.quiet.awaited,served.quiet.records,served.quiet.running,served.quiet.unfailed⟩
    have quiet := (approach_quiet (Service.standing_closed _)).returned begun reached
    refine ⟨quiet.announced work,fun owner input received => ?_⟩
    have limit := quiet.roomy received
    rw [quiet.records.config] at limit
    exact served.configured ▸ limit

-- A single voter is asked for a put and a get, and is stopped between the two.
def soloRequests : List Service.Event :=
  [.turn [⟨10000000,[],none⟩] [],.propose ⟨.put,.read [1],1,[7],[8]⟩,.get [7] 100000000,.turn [] [],.stop,.turn [] []]

theorem requests_complete_once_solo : ((Service.fresh 8 soloStart).live soloRequests).accepted = [0,1] ∧
    ((Service.fresh 8 soloStart).live soloRequests).Returned ∧
    ∀ completion ∈ [0,1], ((Service.fresh 8 soloStart).live soloRequests).set completion = 1 := by
  have accepted : ((Service.fresh 8 soloStart).live soloRequests).accepted = [0,1] := by decide +kernel
  have returned : ((Service.fresh 8 soloStart).live soloRequests).Returned := ⟨by decide +kernel,by decide +kernel⟩
  have completes := requests_complete_once soloNode_starts 8 soloRequests (by decide +kernel)
  exact ⟨accepted,returned,accepted ▸ completes.returned returned⟩

end ForgeKv.Cluster
