import ForgeKv.Cluster.Resolving
import ForgeKv.Raft.Emission

namespace ForgeKv.Cluster
open Raft RaftStorage Persisted
open Procedure (Ensures Meets Keeps)
open ClusterNode (elapse run loops pollSnapshotCreation persistAction publishAction drive_meets)
open OwnerState

variable {ledger : Ledger} {core : RaftNode} {node : ClusterNode}

-- In the middle of a call.
structure Attending (ledger : Ledger) (core : RaftNode) (rest : Actions) (node : ClusterNode) : Prop where
  moved : node.driver.node = core
  awaited : node.owner.Awaited core rest
  records : Records ledger node.owner
  running : node.running = ledger.running
  unfailed : node.failure = none

-- A core of this configuration.
structure Able (config : ClusterNodeConfig) (core : RaftNode) : Prop where
  sound : Sound core
  settings : core.config = config.raft

-- Between calls.
structure Quiet (ledger : Ledger) (node : ClusterNode) : Prop where
  able : Able ledger.config node.driver.node
  awaited : node.owner.Awaited node.driver.node []
  records : Records ledger node.owner
  running : node.running = ledger.running
  unfailed : node.failure = none

theorem Attending.undisturbed (attending : Attending ledger core rest node) (moved : after.driver.node = node.driver.node)
    (role : after.owner.role = node.owner.role) (resolves : Resolves node.owner after.owner) (running : after.running = node.running)
    (failure : after.failure = node.failure) : Attending ledger core rest after := by
  refine ⟨moved.trans attending.moved,⟨role ▸ attending.awaited.role,?_,?_,?_⟩,attending.records.resolved resolves,
    running.trans attending.running,failure.trans attending.unfailed⟩
  · rw [role]
    exact fun other index waiting => attending.awaited.idle other index (resolves.waiting index waiting)
  · exact attending.awaited.held.imp_right fun low index waiting => low index (resolves.waiting index waiting)
  · rw [resolves.config]
    exact Nat.le_trans resolves.size attending.awaited.room

theorem runBackground_undisturbed : (node.runBackground fate).driver.node = node.driver.node ∧
    (node.runBackground fate).owner.role = node.owner.role ∧ Resolves node.owner (node.runBackground fate).owner ∧
      (node.runBackground fate).running = node.running ∧ (node.runBackground fate).failure = node.failure := by
  unfold ClusterNode.runBackground ClusterNode.publish ClusterNode.setFuture
  repeat' split
  all_goals exact ⟨rfl,rfl,⟨fun _ => rfl,fun _ waiting => waiting,Nat.le_refl _,fun _ _ told => told,rfl,rfl,rfl⟩,rfl,rfl⟩

theorem elapse_attending : Keeps (Attending ledger core rest) elapse (fun _ _ => True) := by
  intro node attending
  have passed : ∀ moment moments, Attending ledger core rest (node.pass moment moments) := fun _ _ =>
    attending.undisturbed rfl rfl ⟨fun _ => rfl,fun _ waiting => waiting,Nat.le_refl _,fun _ _ told => told,rfl,rfl,rfl⟩ rfl rfl
  unfold ClusterNode.elapse
  split
  · exact attending
  split
  · exact passed _ _
  · obtain ⟨moved,role,resolves,running,failure⟩ := runBackground_undisturbed
    exact (passed _ _).undisturbed moved role resolves running failure

theorem persistAction_attending : Keeps (Attending ledger core rest) (persistAction action) (fun _ _ => True) := by
  refine elapse_attending.andThen (ClusterNode.onDriver_ensures fun node attending => ?_)
  exact (PersistedRaftNode.persistAction_holds node.driver attending.moved).imp
    (fun driver holds => ⟨holds,attending.awaited,attending.records,attending.running,attending.unfailed⟩) (fun _ _ _ => trivial)

theorem publishAction_attending (polite : action.rejects = false ∨ ledger.Closed) :
    Ensures (Attending ledger core (action::rest)) (publishAction action) (Attending ledger core rest) (fun _ _ => True) := by
  refine elapse_attending.andThen (ClusterNode.onOwner_ensures fun node attending => ?_)
  have still : action.rejects = false ∨ (node.owner.activeProposalIndex = none ∧ node.owner.activeReadBarrierIndex = none) :=
    polite.imp_right fun closed => ⟨attending.records.proposal.trans closed.proposal,attending.records.barrier.trans closed.barrier⟩
  exact (onAction_awaited attending.awaited still).imp
    (fun owner ⟨resolves,awaited⟩ => ⟨attending.moved,awaited,attending.records.resolved resolves,attending.running,attending.unfailed⟩) (fun _ _ _ => trivial)

theorem publishes_attending (polite : (∀ action ∈ actions, action.rejects = false) ∨ ledger.Closed) :
    Ensures (Attending ledger core actions) (Procedure.forEach publishAction actions) (Attending ledger core []) (fun _ _ => True) := by
  induction actions with
  | nil => exact .skip
  | cons action rest ih =>
    exact (publishAction_attending (polite.imp_left fun plain => plain action List.mem_cons_self)).andThen
      (ih (polite.imp_left fun plain other member => plain other (List.mem_cons_of_mem _ member)))

-- The owner is prepared for a call: whatever waits will be in the log, unless the
-- node steps down, and no index is announced, unless the call refuses nothing.
structure Prepared (ledger : Ledger) (input : Input) (node : ClusterNode) : Prop where
  able : Able ledger.config node.driver.node
  role : node.owner.role = node.driver.node.role
  idle : node.owner.role ≠ .leader → ∀ index, ¬ node.owner.Waiting index
  room : node.owner.pendingReads.size ≤ node.owner.config.maxPendingReads
  records : Records ledger node.owner
  running : node.running = ledger.running
  unfailed : node.failure = none
  low : ∀ core actions, node.driver.node.call input = .ok (core,actions) →
    (∃ action ∈ actions, action.demotes = true) ∨ ∀ index, node.owner.Waiting index → index ≤ core.lastLogIndex
  polite : ∀ core actions, node.driver.node.call input = .ok (core,actions) →
    (∀ action ∈ actions, action.rejects = false) ∨ ledger.Closed

theorem Quiet.prepared (quiet : Quiet ledger node) (closed : ledger.Closed) (positive : input.Positive) : Prepared ledger input node := by
  have role : node.owner.role = node.driver.node.role := quiet.awaited.role
  refine ⟨quiet.able,role,quiet.awaited.idle,quiet.awaited.room,quiet.records,quiet.running,quiet.unfailed,fun core actions called => ?_,
    fun _ _ _ => .inr closed⟩
  by_cases leads : node.owner.role = .leader
  · obtain ⟨-,kept⟩ := call_reports quiet.able.sound positive called
    refine (kept (role ▸ leads)).imp_right fun ⟨_,longer⟩ index waiting => ?_
    rcases quiet.awaited.held with ⟨action,member,-⟩ | low
    · cases member
    · exact Nat.le_trans (low index waiting) longer
  · exact .inr fun index waiting => absurd waiting (quiet.awaited.idle leads index)

theorem run_quiet (positive : input.Positive) : Ensures (Prepared ledger input) (run input) (Quiet ledger) (fun _ _ => True) := by
  intro node prepared
  unfold ClusterNode.run
  split
  · trivial
  split
  · trivial
  rename_i core actions called
  obtain ⟨reported,-⟩ := call_reports prepared.able.sound positive called
  obtain ⟨final,moves,rfl,-⟩ := call_returns prepared.able.sound positive called
  have able : Able ledger.config final.clearActions :=
    ⟨clear_sound (moves_sound (clear_sound prepared.able.sound) moves),
      ((call_config prepared.able.sound positive).1 _ _ called).trans prepared.able.settings⟩
  have published : ∀ action, action.demotes = true → action ∈ actions → action ∈ actions.filter (fun action => !action.isPersist) := by
    intro action demotes member
    refine List.mem_filter.mpr ⟨member,?_⟩
    cases action <;> first | rfl | cases demotes
  have begun : Attending ledger final.clearActions (actions.filter (fun action => !action.isPersist))
      {node.setCore final.clearActions with emitted := node.emitted ++ actions} := by
    refine ⟨rfl,⟨?_,prepared.idle,?_,prepared.room⟩,prepared.records,prepared.running,prepared.unfailed⟩
    · rw [roleAfter_published,← reported,← prepared.role]
      rfl
    · refine (prepared.low _ _ called).imp_left fun ⟨action,member,demotes⟩ => ⟨action,published action demotes member,demotes⟩
  have polite : (∀ action ∈ actions.filter (fun action => !action.isPersist), action.rejects = false) ∨ ledger.Closed :=
    (prepared.polite _ _ called).imp_left fun plain action member => plain action (List.mem_filter.mp member).1
  have persists : Keeps (Attending ledger final.clearActions (actions.filter (fun action => !action.isPersist))) (Procedure.forEach persistAction (actions.filter Action.isPersist)) (fun _ _ => True) :=
    .forEach (fun _ => Attending ledger _ _) (fun _ _ => persistAction_attending) _
  refine drive_meets ((persists.andThen (publishes_attending polite) _ begun).imp (fun after attending => ?_) (fun _ _ _ => trivial))
  exact ⟨attending.moved ▸ able,attending.moved ▸ attending.awaited,attending.records,attending.running,attending.unfailed⟩

theorem nextIndex_last (sound : Sound core) : nextIndex core = core.lastLogIndex+1 := congrArg (·+1) (persistent_last sound)

theorem Quiet.unannounced (quiet : Quiet ledger node) : ¬ node.owner.Waiting (nextIndex node.driver.node) := by
  intro waiting
  rw [nextIndex_last quiet.able.sound] at waiting
  rcases quiet.awaited.held with ⟨action,member,-⟩ | low
  · cases member
  · exact Nat.not_succ_le_self _ (low _ waiting)

theorem Quiet.absent (quiet : Quiet ledger node) : node.owner.pending.find? (nextIndex node.driver.node) = none ∧
    node.owner.pendingReads.find? (nextIndex node.driver.node) = none := by
  obtain ⟨mutation,read⟩ := not_or.mp quiet.unannounced
  exact ⟨Option.not_isSome_iff_eq_none.mp mutation,Option.not_isSome_iff_eq_none.mp read⟩

theorem Quiet.announces (quiet : Quiet ledger node) (leads : node.driver.node.role = .leader) (own : input.entry = some (kind,command))
    (role : owner.role = node.owner.role) (waiting : ∀ index, owner.Waiting index → index = nextIndex node.driver.node ∨ node.owner.Waiting index)
    (room : owner.pendingReads.size ≤ owner.config.maxPendingReads) (records : Records ledger' owner)
    (running : ledger'.running = ledger.running) (settings : ledger'.config = ledger.config) : Prepared ledger' input {node with owner := owner} := by
  have same : node.owner.role = node.driver.node.role := quiet.awaited.role
  refine ⟨settings ▸ quiet.able,role.trans same,fun other => absurd (role.trans (same.trans leads)) other,room,records,quiet.running.trans running.symm,quiet.unfailed,?_,?_⟩
  · intro core actions called
    obtain ⟨-,log,-⟩ := leader_appends quiet.able.sound leads own called
    have last : core.lastLogIndex = node.driver.node.lastLogIndex+1 := by
      simp [RaftNode.lastLogIndex,RaftNode.lastEntry,log]
    refine .inr fun index found => ?_
    rw [last,← nextIndex_last quiet.able.sound]
    rcases waiting index found with rfl | old
    · exact Nat.le_refl _
    · rcases quiet.awaited.held with ⟨action,member,-⟩ | low
      · cases member
      · rw [nextIndex_last quiet.able.sound]
        exact Nat.le_succ_of_le (low index old)
  · intro core actions called
    exact .inl (leader_appends quiet.able.sound leads own called).2.2

-- The ledger once a request was processed. A redirect is new only where the request
-- was turned away.
def OwnerState.Ledger.after (ledger : Ledger) (work : Work) (sentAway : Prop) : Ledger where
  running := ledger.running
  config := ledger.config
  tally completion := ledger.tally completion+work.completion.toList.count completion
  redirected completion result := ledger.redirected completion result ∨ (work.completion = some completion ∧ sentAway)
  proposal := none
  barrier := none

theorem waits_mutation {pending : Table Nat PendingMutation} (absent : pending.find? index = none) :
    waits (pending.emplace index ⟨encoded,mine⟩) reads completion = [mine].count completion+waits pending reads completion := by
  unfold waits
  rw [Table.emplace_new absent,Table.total_assign_new absent,Nat.add_comm (pending.total _),Nat.add_assoc]

theorem waits_read {pending : Table Nat PendingMutation} {reads : Table Nat (List PendingRead)} (absent : reads.find? index = none) :
    waits pending (reads.emplace index [⟨key,mine,deadline⟩]) completion = [mine].count completion+waits pending reads completion := by
  unfold waits
  rw [Table.emplace_new absent,Table.total_assign_new absent,← Nat.add_assoc,Nat.add_comm]
  rfl

theorem emplaced {table : Table Nat Value} (found : ((table.emplace key value).find? index).isSome = true) :
    index = key ∨ (table.find? index).isSome = true := by
  unfold Table.emplace at found
  split at found
  · exact .inr found
  · by_cases same : index = key
    · exact .inl same
    · rw [Table.find?_assign_of_ne same] at found
      exact .inr found

theorem Quiet.answered (quiet : Quiet ledger node) (closed : ledger.Closed) (promised : work.completion = some completion)
    (role : owner.role = node.owner.role) (config : owner.config = node.owner.config) (pending : owner.pending = node.owner.pending)
    (reads : owner.pendingReads = node.owner.pendingReads) (proposal : owner.activeProposalIndex = node.owner.activeProposalIndex)
    (barrier : owner.activeReadBarrierIndex = node.owner.activeReadBarrierIndex) (answers : owner.answers = node.owner.answers ++ [(completion,answer)])
    (plain : ∀ result, answer = .result result → result.status = .redirect → sentAway) :
    Quiet (ledger.after work sentAway) {node with owner := owner} := by
  obtain ⟨sound,⟨leads,idle,held,room⟩,⟨configured,counted,redirected,proposed,barred⟩,running,unfailed⟩ := quiet
  have waiting : ∀ index, owner.Waiting index ↔ node.owner.Waiting index := by
    intro index
    unfold Waiting
    rw [pending,reads]
  refine ⟨sound,⟨role ▸ leads,?_,?_,?_⟩,⟨config.trans configured,?_,?_,?_,?_⟩,running,unfailed⟩
  · rw [role]
    exact fun other index found => idle other index ((waiting index).mp found)
  · exact held.imp_right fun low index found => low index ((waiting index).mp found)
  · dsimp only
    rw [reads,config]
    exact room
  · intro other
    have before := counted other
    unfold tally at before ⊢
    dsimp only [Ledger.after]
    rw [answers,pending,reads,List.map_append,List.count_append,← before,promised,Nat.add_right_comm]
    rfl
  · rintro other result ⟨member,redirect⟩
    rw [answers] at member
    rcases List.mem_append.mp member with old | new
    · exact .inl (redirected other result ⟨old,redirect⟩)
    · cases List.mem_singleton.mp new
      exact .inr ⟨promised,plain result rfl redirect⟩
  · exact proposal.trans (proposed.trans closed.proposal)
  · exact barrier.trans (barred.trans closed.barrier)

theorem OwnerState.Asks.prepares (asks : Asks node.driver.node node.owner work owner input) (quiet : Quiet ledger node) (closed : ledger.Closed)
    (positive : input.Positive) (sentAway : Prop) : ∃ during, Prepared during input {node with owner := owner} ∧
      ∀ after, Quiet during after → Quiet (ledger.after work sentAway) {after with owner := after.owner.settle work} := by
  have records := quiet.records
  obtain ⟨mutations,barriers⟩ := quiet.absent
  cases asks with
  | proposal leads canonical =>
    rename_i command encoded mine
    refine ⟨⟨ledger.running,ledger.config,fun completion => ledger.tally completion+[mine].count completion,ledger.redirected,some (nextIndex node.driver.node),none⟩,
      quiet.announces leads rfl rfl (fun index found => ?_) quiet.awaited.room
        ⟨records.config,fun completion => ?_,records.redirected,rfl,records.barrier.trans closed.barrier⟩ rfl rfl,fun after quiet => ?_⟩
    · rcases found with mutation | read
      · exact (emplaced mutation).imp_right .inl
      · exact .inr (.inr read)
    · unfold tally
      dsimp only
      rw [waits_mutation mutations,← records.tally completion,Nat.add_left_comm,Nat.add_comm]
      rfl
    · exact ⟨quiet.able,⟨quiet.awaited.role,quiet.awaited.idle,quiet.awaited.held,quiet.awaited.room⟩,⟨quiet.records.config,quiet.records.tally,
        fun completion result told => .inl (quiet.records.redirected completion result told),rfl,quiet.records.barrier⟩,quiet.running,quiet.unfailed⟩
  | read leads room =>
    rename_i key mine deadline
    refine ⟨⟨ledger.running,ledger.config,fun completion => ledger.tally completion+[mine].count completion,ledger.redirected,none,some (nextIndex node.driver.node)⟩,
      quiet.announces leads rfl rfl (fun index found => ?_) ?_
        ⟨records.config,fun completion => ?_,records.redirected,records.proposal.trans closed.proposal,rfl⟩ rfl rfl,fun after quiet => ?_⟩
    · rcases found with mutation | read
      · exact .inr (.inl mutation)
      · exact (emplaced read).imp_right .inr
    · dsimp only
      rw [Table.emplace_new barriers,Table.size_assign_new barriers]
      exact room
    · unfold tally
      dsimp only
      rw [waits_read barriers,← records.tally completion,Nat.add_left_comm,Nat.add_comm]
      rfl
    · exact ⟨quiet.able,⟨quiet.awaited.role,quiet.awaited.idle,quiet.awaited.held,quiet.awaited.room⟩,⟨quiet.records.config,quiet.records.tally,
        fun completion result told => .inl (quiet.records.redirected completion result told),quiet.records.proposal,rfl⟩,quiet.running,quiet.unfailed⟩
  | peerRequest =>
    rename_i envelope mine
    have begun : Quiet ledger {node with owner := {node.owner with activePeerFrom := some envelope.source,activePeerResponse := none}} :=
      ⟨quiet.able,⟨quiet.awaited.role,quiet.awaited.idle,quiet.awaited.held,quiet.awaited.room⟩,{records with},quiet.running,quiet.unfailed⟩
    refine ⟨ledger,begun.prepared closed positive,fun after quiet => ?_⟩
    dsimp only [settle]
    split
    · exact quiet.answered closed rfl rfl rfl rfl rfl rfl rfl rfl (fun _ wrong => by cases wrong)
    · exact quiet.answered closed rfl rfl rfl rfl rfl rfl rfl rfl (fun _ wrong => by cases wrong)
  | peerResponse =>
    refine ⟨ledger,quiet.prepared closed positive,fun after quiet => ?_⟩
    exact ⟨quiet.able,quiet.awaited,⟨quiet.records.config,quiet.records.tally,fun completion result told =>
      .inl (quiet.records.redirected completion result told),quiet.records.proposal.trans closed.proposal,
        quiet.records.barrier.trans closed.barrier⟩,quiet.running,quiet.unfailed⟩

theorem process_quiet (quiet : Quiet ledger node) (closed : ledger.Closed) (decoded : work.Decoded)
    (untouched : (ClusterNode.process work node).1.driver = node.driver → sentAway) :
    Meets (Quiet (ledger.after work sentAway)) (fun _ _ => True) (ClusterNode.process work node) := by
  unfold ClusterNode.process at untouched ⊢
  split
  · trivial
  · rename_i owner received
    obtain ⟨mine,result,promised,rfl⟩ := receive_told received
    rw [received] at untouched
    exact quiet.answered closed promised rfl rfl rfl rfl rfl rfl rfl fun _ _ _ => untouched rfl
  · rename_i owner input received
    have positive := (decoded.posted received).1.positive
    obtain ⟨during,prepared,finished⟩ := (receive_asks received).prepares quiet closed positive sentAway
    exact (run_quiet positive _ prepared).andThen finished

theorem Attending.quiet (attending : Attending ledger core [] node) (able : Able ledger.config core) : Quiet ledger node :=
  ⟨attending.moved ▸ able,attending.moved ▸ attending.awaited,attending.records,attending.running,attending.unfailed⟩

theorem Quiet.attending (quiet : Quiet ledger node) : Attending ledger node.driver.node [] node := ⟨rfl,quiet.awaited,quiet.records,quiet.running,quiet.unfailed⟩

theorem elapse_quiet : Keeps (Quiet ledger) elapse (fun _ _ => True) := fun node quiet =>
  (elapse_attending node quiet.attending).weaken fun _ attending => attending.quiet quiet.able

theorem Quiet.resolved (quiet : Quiet ledger node) (role : owner.role = node.owner.role) (resolves : Resolves node.owner owner) :
    Quiet ledger {node with owner := owner} := by
  have attending : Attending ledger node.driver.node [] {node with owner := owner} := quiet.attending.undisturbed rfl role resolves rfl rfl
  exact attending.quiet quiet.able

theorem Quiet.runs (quiet : Quiet ledger node) (closed : ledger.Closed) (positive : input.Positive) :
    Meets (Quiet ledger) (fun _ _ => True) (run input node) := run_quiet positive node (quiet.prepared closed positive)

theorem tick_quiet (closed : ledger.Closed) : Keeps (Quiet ledger) (ClusterNode.tick time) (fun _ _ => True) := by
  intro node quiet
  unfold ClusterNode.tick
  split
  · have ran : Meets (Quiet ledger) (fun _ _ => True) (run (.advanceTime (time/1000000)) node) := quiet.runs closed trivial
    exact ran.andThen fun after quiet => {quiet with}
  · exact quiet

theorem pollSnapshotCreation_quiet (closed : ledger.Closed) : Keeps (Quiet ledger) pollSnapshotCreation (fun _ _ => True) := by
  intro node quiet
  have free : Quiet ledger {node with owner := {node.owner with snapshotFuture := none}} :=
    quiet.resolved rfl ⟨fun _ => rfl,fun _ waiting => waiting,Nat.le_refl _,fun _ _ told => told,rfl,rfl,rfl⟩
  unfold ClusterNode.pollSnapshotCreation OwnerState.collect
  split
  · rename_i result owner collected
    exact quiet
  · trivial
  · rename_i completed owner collected
    have same : owner = {node.owner with snapshotFuture := none} := by
      split at collected <;> cases collected
      rfl
    subst same
    split
    · exact free
    · have durable : Quiet ledger (ClusterNode.setDurable true {node with owner := {node.owner with snapshotFuture := none}}) :=
        {free with}
      have compacts : Meets (Quiet ledger) (fun _ _ => True) (ClusterNode.compact completed true
          {node with owner := {node.owner with snapshotFuture := none}}) := by
        have ran : Meets (Quiet ledger) (fun _ _ => True) (run (.compact completed) _) := durable.runs closed trivial
        unfold ClusterNode.compact
        split
        · rename_i after finished
          rw [finished] at ran
          exact {ran with}
        · trivial
      refine compacts.andThen fun after quiet => ?_
      have moved : Resolves after.owner {after.owner with lastSnapshotIndex := after.driver.node.persistent.baseIndex} :=
        ⟨fun _ => rfl,fun _ waiting => waiting,Nat.le_refl _,fun _ _ told => told,rfl,rfl,rfl⟩
      refine quiet.resolved ?_ ?_
      · unfold OwnerState.compacted maybeStartSnapshot
        dsimp only
        repeat' split
        all_goals rfl
      · unfold OwnerState.compacted
        dsimp only
        split
        · split
          · exact moved
          · exact moved.trans maybeStartSnapshot_resolves
        · exact moved

namespace ClusterNode

-- The body of the loop up to the request that was popped.
def approach : NodeRoutine :=
  elapse.andThen fun node =>
    let now := node.owner.now
    ((tick now).andThen ((onOwner fun owner => (owner.expirePendingReads now,none)).andThen elapse)) node

def begin (moments : List Moment) (fates : List (Option Nat)) (node : ClusterNode) : ClusterNode :=
  {node with moments := moments,driver := {node.driver with fates := fates}}

theorem iterate_approach (work : Option Work) : iterate work =
    approach.andThen ((Procedure.forEach process work.toList).andThen (elapse.andThen pollSnapshotCreation)) := by
  refine Eq.trans ?_ (Procedure.andThen_assoc ..).symm
  refine congrArg (Procedure.andThen elapse) (funext fun node => ?_)
  have same : (tick node.owner.now).andThen ((onOwner fun owner => (owner.expirePendingReads node.owner.now,none)).andThen
      ((elapse.andThen (Procedure.forEach process work.toList)).andThen (elapse.andThen pollSnapshotCreation))) =
      ((tick node.owner.now).andThen ((onOwner fun owner => (owner.expirePendingReads node.owner.now,none)).andThen elapse)).andThen
        ((Procedure.forEach process work.toList).andThen (elapse.andThen pollSnapshotCreation)) := by
    simp only [Procedure.andThen_assoc]
  exact congrFun same node

end ClusterNode

open ClusterNode (approach)

theorem approach_quiet (closed : ledger.Closed) : Keeps (Quiet ledger) approach (fun _ _ => True) := by
  refine elapse_quiet.andThen fun node quiet => ?_
  have expires : Keeps (Quiet ledger) (ClusterNode.onOwner fun owner => (owner.expirePendingReads node.owner.now,none)) (fun _ _ => True) := fun node quiet => quiet.resolved rfl expirePendingReads_resolves
  exact ((tick_quiet closed).andThen (expires.andThen elapse_quiet)) node quiet

theorem turn_either (running : node.running = true) :
    ClusterNode.iterate work (node.begin moments fates) = (node.turn moments fates work,none) ∨
      ((node.turn moments fates work).failure ≠ none ∧ (node.turn moments fates work).running = false) := by
  unfold ClusterNode.turn
  rw [if_neg (by simp [running])]
  split
  · rename_i after ran
    exact .inl ran
  · exact .inr ⟨(fun wrong => by cases wrong),rfl⟩

theorem iterate_quiet (quiet : Quiet ledger node) (closed : ledger.Closed) (decoded : ∀ posted ∈ work, posted.Decoded)
    (ran : ClusterNode.iterate work (node.begin moments fates) = (after,none)) :
    ∃ arrived, approach (node.begin moments fates) = (arrived,none) ∧ Quiet ledger arrived ∧ (work = none → Quiet ledger after) ∧
      ∀ posted, work = some posted → Quiet (ledger.after posted ((ClusterNode.process posted arrived).1.driver = arrived.driver)) after := by
  have begun : Quiet ledger (node.begin moments fates) := {quiet with}
  have rest : ∀ ledger : Ledger, ledger.Closed → Keeps (Quiet ledger) (elapse.andThen pollSnapshotCreation) (fun _ _ => True) :=
    fun _ closed => elapse_quiet.andThen (pollSnapshotCreation_quiet closed)
  rw [ClusterNode.iterate_approach] at ran
  obtain ⟨arrived,reached,ran⟩ := Procedure.andThen_returned.mp ran
  obtain ⟨processed,served,finished⟩ := Procedure.andThen_returned.mp ran
  have arrives : Quiet ledger arrived := (approach_quiet closed).returned begun reached
  refine ⟨arrived,reached,arrives,?_,?_⟩
  · rintro rfl
    cases served
    exact (rest ledger closed).returned arrives finished
  · rintro posted rfl
    obtain ⟨middle,answered,same⟩ := Procedure.andThen_returned.mp served
    cases same
    have answers := process_quiet arrives closed (decoded posted rfl) fun same => same
    rw [answered] at answers
    rw [answered]
    exact (rest _ ⟨rfl,rfl⟩).returned answers finished

end ForgeKv.Cluster
