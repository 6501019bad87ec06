import ForgeKv.Cluster.AtMostOnce
import ForgeKv.Cluster.Loop
import ForgeKv.Cluster.SnapshotRoundTrip
import ForgeKv.Persisted.SnapshotFile
import ForgeKv.RaftStorage.Validity

namespace ForgeKv.Cluster
open Raft RaftStorage Persisted
open Procedure (Ensures Meets Keeps)
open ClusterNode (elapse persistAction publishAction drive run compact pollSnapshotCreation loops)

def SnapshotFuture.boundary : SnapshotFuture → Option (Nat × Nat)
  | .running index term _ => some (index,term)
  | .ready (.ok snapshot) => some (snapshot.lastIncludedIndex,snapshot.lastIncludedTerm)
  | .ready (.error _) => none

def Awaits (future : Option SnapshotFuture) (index term : Nat) : Prop :=
  ∃ task, future = some task ∧ task.boundary = some (index,term)

-- What the snapshot file holds beside a log that starts at `base`: the snapshot of
-- that boundary, or the newer one that the background task has just written.
structure Filed (base : Nat) (file : Option StateMachineSnapshot) (future : Option SnapshotFuture) : Prop where
  blank : file = none → base = 0
  held : ∀ held, file = some held → held.lastIncludedIndex = base ∨
    (future = some (.ready (.ok held)) ∧ base < held.lastIncludedIndex)
  ready : ∀ snapshot, future = some (.ready (.ok snapshot)) → base < snapshot.lastIncludedIndex → file = some snapshot
  apart : ∀ index term state, future = some (.running index term state) → index ≠ base

-- The snapshot store has no room for the last index of all.
def boundaryInvalid : Failure := .storage (invalid "invalid Raft snapshot boundary or payload size")

-- No write of the background task and no compaction has thrown.
structure Fine (node : ClusterNode) : Prop where
  written : ∀ record ∈ node.written, record.2 = none ∨ (record.1.lastIncludedIndex = maxU64 ∧ record.2 = some boundaryInvalid)
  compacted : ∀ record ∈ node.compacted, record.2 = none

def Smooth (moments : List Moment) : Prop := ∀ moment ∈ moments, ∀ done, moment.background ≠ some (some done)

structure Shelved (base : Nat) (node : ClusterNode) : Prop where
  mine : node.owner.config.identity.Fits
  file : ∃ file, loadSnapshot node.owner.config.identity (node.driver.files .snapshot) = .ok file ∧
    Filed base file node.owner.snapshotFuture
  numbers : ∀ index term, Awaits node.owner.snapshotFuture index term →
    0 < index ∧ index < 2^64 ∧ 0 < term ∧ term < 2^64
  fine : Fine node
  smooth : Smooth node.moments

section background
variable {base : Nat} {node : ClusterNode}

theorem Filed.failed {failure : Failure} (filed : Filed base file (some (.running index term state))) :
    Filed base file (some (.ready (.error failure))) where
  blank := filed.blank
  held held found := (filed.held held found).imp_right fun ready => by cases ready.1
  ready snapshot wrong := by cases wrong
  apart index term state wrong := by cases wrong

theorem Filed.published {snapshot held : StateMachineSnapshot}
    (filed : Filed base file (some (.running snapshot.lastIncludedIndex snapshot.lastIncludedTerm state)))
    (either : (held = snapshot ∧ ∀ current, file = some current → current.lastIncludedIndex ≤ snapshot.lastIncludedIndex) ∨
      (file = some held ∧ snapshot.lastIncludedIndex < held.lastIncludedIndex)) :
    Filed base (some held) (some (.ready (.ok snapshot))) := by
  have apart := filed.apart _ _ _ rfl
  have old : ∀ current, file = some current → current.lastIncludedIndex = base :=
    fun current found => (filed.held current found).resolve_right fun ready => by cases ready.1
  have newer : held = snapshot → base < snapshot.lastIncludedIndex := by
    intro same
    rcases either with ⟨-,low⟩ | ⟨found,beyond⟩
    · cases found : file with
      | none =>
        have := filed.blank found
        omega
      | some current =>
        have := old current found
        have := low current found
        omega
    · rw [same] at beyond
      omega
  refine ⟨nofun,fun other found => ?_,fun other ready ahead => ?_,fun index term state wrong => by cases wrong⟩
  · cases found
    rcases either with ⟨rfl,-⟩ | ⟨found,-⟩
    · exact .inr ⟨rfl,newer rfl⟩
    · exact .inl (old held found)
  · cases ready
    rcases either with ⟨rfl,-⟩ | ⟨found,beyond⟩
    · rfl
    · have := old held found
      omega

theorem publish_shelved (shelved : Shelved base node)
    (running : node.owner.snapshotFuture = some (.running snapshot.lastIncludedIndex snapshot.lastIncludedTerm state))
    (small : snapshot.stateMachine.length ≤ maxSnapshotPayloadSize) : Shelved base (node.publish snapshot none) := by
  obtain ⟨mine,⟨file,read,filed⟩,numbers,fine,smooth⟩ := shelved
  rw [running] at filed
  obtain ⟨real,room,elected,wide⟩ := numbers _ _ ⟨_,running,rfl⟩
  have apart := filed.apart _ _ _ rfl
  have same : ∀ held, file = some held → held.lastIncludedIndex = snapshot.lastIncludedIndex → held = snapshot := by
    intro held found equal
    rcases filed.held held found with old | ⟨ready,-⟩
    · exact absurd (equal.symm.trans old) apart
    · cases ready
  have recorded : ∀ outcome, outcome = none ∨ (snapshot.lastIncludedIndex = maxU64 ∧ outcome = some boundaryInvalid) →
      ∀ record ∈ node.written ++ [(snapshot,outcome)],
        record.2 = none ∨ (record.1.lastIncludedIndex = maxU64 ∧ record.2 = some boundaryInvalid) := by
    intro outcome fine' record member
    rcases List.mem_append.mp member with old | new
    · exact fine.written record old
    · rw [List.mem_singleton.mp new]
      exact fine'
  unfold ClusterNode.publish
  by_cases last : snapshot.lastIncludedIndex = maxU64
  · have refused : writeAtomic node.owner.config.identity node.driver.files snapshot =
        .error (invalid "invalid Raft snapshot boundary or payload size") := if_pos (.inr (.inl last))
    rw [refused]
    refine ⟨mine,⟨file,read,filed.failed⟩,?_,⟨recorded _ (.inr ⟨last,rfl⟩),fine.compacted⟩,smooth⟩
    rintro index term ⟨task,found,wrong⟩
    cases found
    cases wrong
  · have room : snapshot.lastIncludedIndex < maxU64 := Nat.lt_of_le_of_ne (Nat.le_pred_of_lt room) last
    obtain ⟨effects,held,wrote,reads,either⟩ := writeAtomic_takes mine ⟨room,wide,real,elected⟩ small read same
    rw [wrote]
    refine ⟨mine,⟨some held,reads,filed.published either⟩,?_,⟨recorded _ (.inl rfl),fine.compacted⟩,smooth⟩
    rintro index term ⟨task,found,boundary⟩
    cases found
    cases boundary
    exact ⟨real,Nat.lt_succ_of_lt room,elected,wide⟩

theorem runBackground_shelved (shelved : Shelved base node) : Shelved base (node.runBackground none) := by
  unfold ClusterNode.runBackground
  split
  · rename_i index term state running
    split
    · rename_i message refused
      obtain ⟨mine,⟨file,read,filed⟩,-,fine,smooth⟩ := shelved
      rw [running] at filed
      refine ⟨mine,⟨file,read,filed.failed⟩,?_,⟨fine.written,fine.compacted⟩,smooth⟩
      rintro index term ⟨task,found,wrong⟩
      cases found
      cases wrong
    · rename_i image encoded
      obtain ⟨storable,rfl⟩ := encodeSnapshotState_iff.mp encoded
      exact publish_shelved shelved running storable.length
  · exact shelved

theorem runBackground_awaits (awaits : Awaits (node.runBackground fate).owner.snapshotFuture index term) :
    Awaits node.owner.snapshotFuture index term := by
  unfold ClusterNode.runBackground ClusterNode.publish at awaits
  split at awaits
  · rename_i index' term' state running
    rw [running]
    refine ⟨_,rfl,?_⟩
    obtain ⟨task,found,boundary⟩ := awaits
    repeat' split at found
    all_goals cases found
    all_goals cases boundary
    exact rfl
  · exact awaits

end background

-- A task for an applied entry that the core has, or had before a newer snapshot.
structure Tasked (core : RaftNode) (floor index term : Nat) : Prop where
  real : 0 < index
  applied : index ≤ floor
  elected : 0 < term
  past : term ≤ core.currentTerm
  kept : index ≤ core.baseIndex ∨ ∃ entry, Holds core entry ∧ entry.index = index ∧ entry.term = term

-- A node in the middle of a call, with nothing failing. The core has moved on
-- already, and the store has `state`. `floor` bounds the tasks that are under way.
structure Midway (core : RaftNode) (state : RaftPersistentState) (floor : Nat) (node : ClusterNode) : Prop where
  shelved : Shelved state.baseIndex node
  moved : node.driver.node = core
  well : node.driver.isFailed = false
  safe : node.driver.fates = []
  unset : node.driver.snapshotAlreadyDurable = false
  store : Idle node.owner.config.identity state node.driver.storage
  tasked : ∀ index term, Awaits node.owner.snapshotFuture index term → Tasked core floor index term

-- Where an exception left the node, its snapshot file is in order.
def Broken (node : ClusterNode) : Prop := ∃ base, Shelved base node

section routines
variable {core : RaftNode} {state : RaftPersistentState} {floor : Nat} {node : ClusterNode}

theorem Midway.calm (midway : Midway core state floor node)
    (read : loadSnapshot node.owner.config.identity (node.driver.files .snapshot) = .ok file) :
    Calm core (Idle node.owner.config.identity state) (fun held already => already = false ∧ held = file) node.driver := by
  refine ⟨midway.moved,midway.well,midway.safe,midway.store,file,?_,midway.unset,rfl⟩
  obtain ⟨generation,store⟩ := midway.store
  unfold PersistedRaftNode.held
  rw [store]
  exact read

theorem runBackground_midway (midway : Midway core state floor node) : Midway core state floor (node.runBackground none) := by
  obtain ⟨shelved,same,well,safe,unset,store,tasked⟩ := midway
  refine ⟨runBackground_shelved shelved,?_,?_,?_,?_,?_,fun index term awaits => tasked index term (runBackground_awaits awaits)⟩
  all_goals
    unfold ClusterNode.runBackground ClusterNode.publish ClusterNode.setFuture
    repeat' split
    all_goals assumption

theorem elapse_midway : Keeps (Midway core state floor) elapse (fun _ => Broken) := by
  intro node midway
  unfold ClusterNode.elapse
  split
  · exact midway
  rename_i moment moments found
  have smooth := midway.shelved.smooth
  rw [found] at smooth
  have passed : Midway core state floor (node.pass moment moments) := by
    obtain ⟨⟨mine,file,numbers,⟨written,compacted⟩,-⟩,same,well,safe,unset,store,tasked⟩ := midway
    exact ⟨⟨mine,file,numbers,⟨written,compacted⟩,fun other member => smooth other (List.mem_cons_of_mem _ member)⟩,
      same,well,safe,unset,store,tasked⟩
  split
  · exact passed
  · rename_i fate ran
    cases fate with
    | some done => exact absurd ran (smooth moment List.mem_cons_self done)
    | none => exact runBackground_midway passed

theorem persistAction_midway (fits : Fits floor packet offer state action) (own : ∀ image, offer ≠ some (.image image))
    (stable : Stable config (state.persist action)) (term : (state.persist action).currentTerm < 2^64)
    (wide : ∀ source request, packet = some (source,.installSnapshot request) → request.lastIncludedIndex < 2^64) :
    Ensures (Midway core state floor) (persistAction action) (Midway core (state.persist action) floor) (fun _ => Broken) := by
  refine elapse_midway.andThen (ClusterNode.onDriver_ensures fun node midway => ?_)
  obtain ⟨file,read,filed⟩ := midway.shelved.file
  -- An image that a peer sent is newer than everything that is under way.
  have newer : ∀ image, action = .persistSnapshot image → floor < image.lastIncludedIndex ∧ image.lastIncludedIndex < 2^64 := by
    rintro image rfl
    obtain ⟨-,-,-,⟨asked,-⟩ | ⟨source,request,arrived,ahead,index,-⟩⟩ := fits
    · exact absurd asked (own image)
    · exact ⟨ahead,index ▸ wide source request arrived⟩
  have replaceable : Replaceable file action := by
    rintro image rfl
    obtain ⟨ahead,index⟩ := newer image rfl
    refine ⟨index,Nat.lt_of_le_of_lt fits.2.2.1 term,fun held found => .inl ?_⟩
    rcases filed.held held found with old | ⟨ready,-⟩
    · exact old ▸ fits.1
    · exact Nat.lt_of_le_of_lt (midway.tasked _ _ ⟨_,ready,rfl⟩).applied ahead
  have meets := persistAction_leaves midway.shelved.mine fits stable replaceable node.driver (midway.calm read)
  match ran : PersistedRaftNode.persistAction action node.driver with
  | (driver,some thrown) =>
    rw [ran] at meets
    obtain ⟨held,left,-,rfl⟩ := meets
    exact ⟨_,{midway.shelved with file := ⟨held,left,filed⟩,fine := {midway.shelved.fine with}}⟩
  | (driver,none) =>
    rw [ran] at meets
    have calm : Calm core _ _ driver := meets
    obtain ⟨held,reads,-,rfl⟩ := calm.reads
    obtain ⟨_,_,unset,-⟩ := calm.file
    have filed : Filed (state.persist action).baseIndex (fileAfter file action) node.owner.snapshotFuture := by
      cases action with
      | persistSnapshot image =>
        obtain ⟨ahead,-⟩ := newer image rfl
        refine ⟨nofun,fun held found => .inl ?_,fun snapshot ready beyond => ?_,fun index term running future => ?_⟩
        · cases found
          rfl
        · have low := (midway.tasked _ _ ⟨_,ready,rfl⟩).applied
          have beyond : image.lastIncludedIndex < snapshot.lastIncludedIndex := beyond
          omega
        · have low := (midway.tasked _ _ ⟨_,future,rfl⟩).applied
          show index ≠ image.lastIncludedIndex
          omega
      | _ => exact filed
    exact ⟨{midway.shelved with file := ⟨_,reads,filed⟩,fine := {midway.shelved.fine with}},calm.node,calm.well,calm.safe,unset,
      calm.stores,midway.tasked⟩

theorem Midway.told (midway : Midway core state floor node) (config : owner.config = node.owner.config)
    (future : owner.snapshotFuture = node.owner.snapshotFuture) : Midway core state floor {node with owner := owner} := by
  obtain ⟨⟨mine,file,numbers,⟨written,compacted⟩,smooth⟩,same,well,safe,unset,store,tasked⟩ := midway
  rw [← config] at mine file store
  rw [← future] at file numbers tasked
  exact ⟨⟨mine,file,numbers,⟨written,compacted⟩,smooth⟩,same,well,safe,unset,store,tasked⟩

theorem Midway.started (midway : Midway core core.persistent core.lastApplied node) (sound : Sound core)
    (wide : core.currentTerm < 2^64) (small : core.lastApplied < 2^64) (holds : Holds core entry)
    (applied : entry.index ≤ core.lastApplied) (free : node.owner.snapshotFuture = none)
    (config : owner.config = node.owner.config)
    (future : owner.snapshotFuture = some (.running entry.index entry.term copy)) :
    Midway core core.persistent core.lastApplied {node with owner := owner} := by
  obtain ⟨⟨mine,⟨file,read,filed⟩,-,⟨written,compacted⟩,smooth⟩,same,well,safe,unset,store,-⟩ := midway
  obtain ⟨elected,past⟩ := holds_term sound holds
  have real : 0 < entry.index := Nat.lt_of_le_of_lt (Nat.zero_le _) holds.1
  rw [free] at filed
  rw [← config] at mine read store
  refine ⟨⟨mine,⟨file,read,?_⟩,?_,⟨written,compacted⟩,smooth⟩,same,well,safe,unset,store,?_⟩
  · refine ⟨filed.blank,fun held found => (filed.held held found).imp_right (fun ready => by cases ready.1),?_,?_⟩
    · intro snapshot ready
      rw [future] at ready
      cases ready
    · intro index term other running
      rw [future] at running
      cases running
      rw [persistent_base sound]
      exact Nat.ne_of_gt holds.1
  · rintro index term ⟨task,found,boundary⟩
    rw [future] at found
    cases found
    cases boundary
    exact ⟨real,Nat.lt_of_le_of_lt applied small,elected,Nat.lt_of_le_of_lt past wide⟩
  · rintro index term ⟨task,found,boundary⟩
    rw [future] at found
    cases found
    cases boundary
    exact ⟨real,applied,elected,past,.inr ⟨entry,holds,rfl,rfl⟩⟩

theorem publishAction_midway (sound : Sound core) (wide : core.currentTerm < 2^64) (small : core.lastApplied < 2^64)
    (shown : ∀ entry, action = .applyEntry entry → Holds core entry ∧ entry.index ≤ core.commitIndex) :
    Keeps (Midway core core.persistent core.lastApplied) (publishAction action) (fun _ => Broken) := by
  refine elapse_midway.andThen (ClusterNode.onOwner_ensures fun node midway => ?_)
  obtain ⟨config,future⟩ := OwnerState.onAction_future action node.owner
  have kept : Midway core core.persistent core.lastApplied {node with owner := (OwnerState.onAction action node.owner).1} := by
    obtain same | ⟨entry,copy,applies,free,started⟩ := future
    · exact midway.told config same
    · obtain ⟨holds,low⟩ := shown entry applies
      exact midway.started sound wide small holds (sound.applied ▸ low) free config started
  match ran : OwnerState.onAction action node.owner with
  | (owner,none) =>
    rw [ran] at kept
    exact kept
  | (owner,some failure) =>
    rw [ran] at kept
    exact ⟨_,kept.shelved⟩

end routines

-- Between calls.
structure Steady (node : ClusterNode) : Prop where
  midway : Midway node.driver.node node.driver.node.persistent node.driver.node.lastApplied node
  sound : Sound node.driver.node
  term : node.driver.node.currentTerm < 2^64
  small : node.driver.node.lastApplied < 2^64

section calls
variable {node : ClusterNode} {core : RaftNode} {actions rest : Actions} {input : Input}

theorem Shelved.failDriver (shelved : Shelved base node) : Shelved base node.failDriver :=
  {shelved with fine := {shelved.fine with}}

-- What the core has yet to be told leads to the state that it has.
def Wanting (config : RaftConfig) (packet : Option (NodeId × Message)) (offer : Option Offer) (core : RaftNode) (floor : Nat)
    (actions : Actions) (node : ClusterNode) : Prop :=
  ∃ state, Midway core state floor node ∧
    Asks (fun state => Stable config state ∧ state.currentTerm < 2^64) floor packet offer state actions core.persistent

theorem persists_midway (own : ∀ image, offer ≠ some (.image image))
    (wide : ∀ source request, packet = some (source,.installSnapshot request) → request.lastIncludedIndex < 2^64) (actions : Actions) :
    Ensures (Wanting config packet offer core floor actions) (Procedure.forEach persistAction actions)
      (Midway core core.persistent floor) (fun _ => Broken) := by
  have step : ∀ action rest, Ensures (Wanting config packet offer core floor (action::rest)) (persistAction action)
      (Wanting config packet offer core floor rest) (fun _ => Broken) := by
    rintro action rest node ⟨state,midway,asks⟩
    cases asks with
    | cons fits fine asks =>
      exact (persistAction_midway fits own fine.1 fine.2 wide node midway).weaken fun final midway => ⟨_,midway,asks⟩
  intro node wanting
  refine (Ensures.forEach _ step actions node wanting).weaken ?_
  rintro final ⟨state,midway,asks⟩
  cases asks
  exact midway

theorem Tasked.forward (tasked : Tasked core floor index term) (forward : Forward core after) (low : floor ≤ core.commitIndex) :
    Tasked after floor index term := by
  refine ⟨tasked.real,tasked.applied,tasked.elected,Nat.le_trans tasked.past forward.term,?_⟩
  rcases tasked.kept with behind | ⟨entry,holds,index,term⟩
  · exact .inl (Nat.le_trans behind forward.base)
  · have applied := tasked.applied
    rcases forward.kept entry holds (by omega) with still | behind
    · exact .inr ⟨entry,still,index,term⟩
    · exact .inl (index ▸ behind)

theorem Midway.raise (midway : Midway core state floor node) (higher : floor ≤ top) : Midway core state top node :=
  {midway with tasked := fun index term awaits =>
    {midway.tasked index term awaits with applied := Nat.le_trans (midway.tasked index term awaits).applied higher}}

theorem publishes_midway (sound : Sound core) (wide : core.currentTerm < 2^64) (small : core.lastApplied < 2^64)
    (shown : ∀ entry, .applyEntry entry ∈ actions → Holds core entry ∧ entry.index ≤ core.commitIndex)
    (chosen : ∀ action ∈ rest, action ∈ actions) :
    Keeps (Midway core core.persistent core.lastApplied) (Procedure.forEach publishAction rest) (fun _ => Broken) := by
  induction rest with
  | nil => exact .skip
  | cons action rest ih =>
    refine (publishAction_midway sound wide small fun entry applies => ?_).andThen
      (ih fun other member => chosen other (List.mem_cons_of_mem _ member))
    exact shown entry (applies ▸ chosen action List.mem_cons_self)

theorem loops_steady (steady : Steady node) (decoded : input.Decoded) (own : ∀ image, input ≠ .compact image)
    (bounded : Bounded actions) (called : node.driver.node.call input = .ok (core,actions)) :
    Meets Steady (fun _ => Broken) (loops actions {node.setCore core with emitted := shown}) := by
  obtain ⟨forward,order,applies⟩ := call_forward steady.sound decoded.positive called
  obtain ⟨final,moves,rfl,-⟩ := call_returns steady.sound decoded.positive called
  have sound := clear_sound (moves_sound (clear_sound steady.sound) moves)
  have begins : node.driver.node.clearActions.currentTerm < 2^64 := steady.term
  have ends : final.currentTerm < 2^64 := moves_term decoded.term begins moves
  have wide : final.clearActions.currentTerm < 2^64 := ends
  have small := appliedFrom_bounded bounded steady.small order
  have offered : ∀ image, input.offer ≠ some (.image image) := by
    intro image asked
    cases input with
    | compact snapshot => exact own snapshot rfl
    | _ => cases asked
  have asks : Asks (fun state => Stable node.driver.node.clearActions.config state ∧ state.currentTerm < 2^64) node.driver.node.commitIndex
      input.packet input.offer node.driver.node.persistent (actions.filter Action.isPersist) final.clearActions.persistent :=
    call_asks steady.sound decoded.positive called fun middle through =>
      ⟨moves_stable (clear_sound steady.sound) through,moves_term decoded.term begins through⟩
  have begun : Midway final.clearActions node.driver.node.persistent node.driver.node.commitIndex
      {node.setCore final.clearActions with emitted := shown} := by
    obtain ⟨⟨mine,file,numbers,⟨written,compacted⟩,smooth⟩,-,well,safe,unset,store,tasked⟩ := steady.midway
    rw [steady.sound.applied] at tasked
    exact ⟨⟨mine,file,numbers,⟨written,compacted⟩,smooth⟩,rfl,well,safe,unset,store,
      fun index term awaits => (tasked index term awaits).forward forward (Nat.le_refl _)⟩
  have reached : node.driver.node.commitIndex ≤ final.clearActions.lastApplied := sound.applied ▸ forward.commit
  have published : Ensures (Midway final.clearActions final.clearActions.persistent node.driver.node.commitIndex)
      (Procedure.forEach publishAction (actions.filter (fun action => !action.isPersist)))
      (Midway final.clearActions final.clearActions.persistent final.clearActions.lastApplied) (fun _ => Broken) := fun after midway =>
    publishes_midway sound wide small applies (fun action member => (List.mem_filter.mp member).1) after (midway.raise reached)
  refine ((persists_midway offered decoded.image _).andThen published _ ⟨_,begun,asks⟩).weaken fun after midway => ?_
  have same := midway.moved
  rw [← same] at midway sound wide small
  exact ⟨midway,sound,wide,small⟩

theorem run_steady (decoded : input.Decoded) (own : ∀ image, input ≠ .compact image) :
    Keeps (Once Bounded Steady) (run input) (fun _ => Once Bounded Broken) := by
  refine Once.call Bounded.closed (fun node steady => ⟨_,steady.midway.shelved⟩) ?_ ?_
  · rintro node core ⟨base,shelved⟩
    exact ⟨base,{shelved with fine := {shelved.fine with}}⟩
  · intro node core actions steady called bounded
    refine (loops_steady steady decoded own bounded.right called).imp (fun _ steady => steady) ?_
    rintro failure after ⟨base,shelved⟩
    exact ⟨base,shelved.failDriver⟩

theorem Midway.steady (midway : Midway core core.persistent core.lastApplied node) (sound : Sound core)
    (term : core.currentTerm < 2^64) (small : core.lastApplied < 2^64) : Steady node := by
  have same := midway.moved
  subst same
  exact ⟨midway,sound,term,small⟩

theorem elapse_steady : Keeps Steady elapse (fun _ => Broken) := fun node steady =>
  (elapse_midway node steady.midway).weaken fun _ midway => midway.steady steady.sound steady.term steady.small

theorem Steady.told (steady : Steady node) (config : owner.config = node.owner.config)
    (future : owner.snapshotFuture = node.owner.snapshotFuture) : Steady {node with owner := owner} :=
  (steady.midway.told config future).steady steady.sound steady.term steady.small

structure Compacting (core : RaftNode) (state : RaftPersistentState) (snapshot : StateMachineSnapshot) (node : ClusterNode) : Prop where
  mine : node.owner.config.identity.Fits
  calm : Calm core (Idle node.owner.config.identity state) (fun file already => already = true ∧ file = some snapshot) node.driver
  free : node.owner.snapshotFuture = none
  fine : Fine node
  smooth : Smooth node.moments

theorem elapse_compacting : Keeps (Compacting core state snapshot) elapse (fun _ _ => False) := by
  intro node compacting
  unfold ClusterNode.elapse
  split
  · exact compacting
  rename_i moment moments found
  have smooth := compacting.smooth
  rw [found] at smooth
  obtain ⟨mine,calm,free,⟨written,compacted⟩,-⟩ := compacting
  have passed : Compacting core state snapshot (node.pass moment moments) :=
    ⟨mine,calm,free,⟨written,compacted⟩,fun other member => smooth other (List.mem_cons_of_mem _ member)⟩
  split
  · exact passed
  · rw [ClusterNode.runBackground_free passed.free]
    exact passed

theorem persistSnapshot_compacting (installable : Installable state snapshot)
    (next : state.persist (.persistSnapshot snapshot) = core.persistent) :
    Ensures (Compacting core state snapshot) (persistAction (.persistSnapshot snapshot))
      (fun node => Midway core core.persistent core.lastApplied node ∧ node.owner.snapshotFuture = none) (fun _ _ => False) := by
  refine elapse_compacting.andThen (ClusterNode.onDriver_ensures fun node compacting => ?_)
  obtain ⟨mine,calm,free,⟨written,compacted⟩,smooth⟩ := compacting
  refine (persistSnapshot_prewritten installable node.driver calm).imp (fun driver calm => ?_) (fun _ _ impossible => impossible)
  obtain ⟨held,reads,unset,rfl⟩ := calm.reads
  have base : core.persistent.baseIndex = snapshot.lastIncludedIndex := by
    rw [← next]
    rfl
  rw [next] at calm
  refine ⟨⟨⟨mine,⟨_,reads,nofun,fun held found => .inl ?_,?_,?_⟩,?_,⟨written,compacted⟩,smooth⟩,calm.node,calm.well,calm.safe,unset,
    calm.stores,?_⟩,free⟩
  · cases found
    exact base.symm
  all_goals
    rw [free]
  · intro snapshot ready
    cases ready
  · intro index term state running
    cases running
  · rintro index term ⟨task,found,-⟩
    cases found
  · rintro index term ⟨task,found,-⟩
    cases found

def ClusterNode.collected (node : ClusterNode) : ClusterNode := {node with owner := {node.owner with snapshotFuture := none}}

theorem compact_steady (steady : Steady node) (ready : node.owner.snapshotFuture = some (.ready (.ok snapshot)))
    (newer : node.driver.node.baseIndex < snapshot.lastIncludedIndex) :
    Meets (fun after => Steady after ∧ after.owner.snapshotFuture = none) (fun _ _ => False) (compact snapshot true node.collected) := by
  have sound := steady.sound
  have tasked := steady.midway.tasked _ _ ⟨_,ready,rfl⟩
  obtain ⟨file,read,filed⟩ := steady.midway.shelved.file
  rw [filed.ready snapshot ready (persistent_base sound ▸ newer)] at read
  have room := (loadSnapshot_fits read).1.index
  obtain ⟨entry,holds,index,term⟩ := tasked.kept.resolve_left (Nat.not_le.mpr newer)
  obtain ⟨core,called,advanced,unchanged⟩ : ∃ core, node.driver.node.call (.compact snapshot) = .ok (core,[.persistSnapshot snapshot]) ∧
      core.lastApplied = node.driver.node.lastApplied ∧ core.currentTerm = node.driver.node.currentTerm :=
    ⟨_,compact_accepts sound (Nat.ne_of_lt room) newer tasked.applied holds index term,rfl,rfl⟩
  have positive : (Input.compact snapshot).Positive := trivial
  obtain ⟨_,moves,same,-⟩ := call_returns sound positive called
  have sound' : Sound core := same ▸ clear_sound (moves_sound (clear_sound sound) moves)
  have asks : Asks (fun _ => True) _ _ _ _ [.persistSnapshot snapshot] _ := call_asks sound positive called fun _ _ => trivial
  obtain ⟨fits,next⟩ := asks.only
  obtain ⟨⟨mine,-,-,⟨written,compacted⟩,smooth⟩,-,well,safe,-,⟨generation,store⟩,-⟩ := steady.midway
  have installable : Installable node.driver.node.persistent snapshot :=
    ⟨Nat.ne_of_lt room,fits.1,Nat.ne_of_gt fits.2.1,fits.2.2.1,(loadSnapshot_fits read).2⟩
  have calm : Calm core (Idle node.owner.config.identity node.driver.node.persistent)
      (fun file already => already = true ∧ file = some snapshot) ((node.collected.setDurable true).setCore core).driver := by
    refine ⟨rfl,well,safe,⟨generation,store⟩,some snapshot,?_,rfl,rfl⟩
    dsimp only [ClusterNode.setCore,ClusterNode.setDurable,ClusterNode.collected]
    rw [store]
    exact read
  have ran : Meets (fun after => Midway core core.persistent core.lastApplied after ∧ after.owner.snapshotFuture = none) (fun _ _ => False)
      (drive [.persistSnapshot snapshot] ((node.collected.setDurable true).setCore core)) :=
    ClusterNode.drive_meets (((persistSnapshot_compacting installable next).andThen .skip).andThen .skip _
      ⟨mine,calm,rfl,⟨written,compacted⟩,smooth⟩)
  have same : run (.compact snapshot) (node.collected.setDurable true) = _ := ClusterNode.run_called well called
  rw [← same] at ran
  unfold ClusterNode.compact
  match done : run (.compact snapshot) (node.collected.setDurable true) with
  | (after,some failure) =>
    rw [done] at ran
    exact ran
  | (after,none) =>
    rw [done] at ran
    obtain ⟨midway,free⟩ := ran
    obtain ⟨⟨mine,file,numbers,⟨written,compacted⟩,smooth⟩,moved,well,safe,unset,store,tasked⟩ := midway
    have compacted : ∀ record ∈ after.compacted ++ [(snapshot,none)], record.2 = none := by
      intro record member
      rcases List.mem_append.mp member with old | new
      · exact compacted record old
      · rw [List.mem_singleton.mp new]
    refine ⟨Midway.steady ?_ sound' (unchanged ▸ steady.term) (advanced ▸ steady.small),free⟩
    exact ⟨⟨mine,file,numbers,⟨written,compacted⟩,smooth⟩,moved,well,safe,unset,store,tasked⟩

theorem collected_midway (midway : Midway core state floor node)
    (stale : ∀ snapshot, node.owner.snapshotFuture = some (.ready (.ok snapshot)) → snapshot.lastIncludedIndex ≤ state.baseIndex) :
    Midway core state floor node.collected := by
  obtain ⟨⟨mine,⟨file,read,filed⟩,-,⟨written,compacted⟩,smooth⟩,moved,well,safe,unset,store,-⟩ := midway
  refine ⟨⟨mine,⟨file,read,filed.blank,fun held found => .inl ?_,nofun,nofun⟩,?_,⟨written,compacted⟩,smooth⟩,moved,well,safe,unset,store,?_⟩
  · rcases filed.held held found with old | ⟨ready,ahead⟩
    · exact old
    · have low := stale held ready
      omega
  · rintro index term ⟨task,found,-⟩
    cases found
  · rintro index term ⟨task,found,-⟩
    cases found

theorem compacted_steady (steady : Steady node) (free : node.owner.snapshotFuture = none) :
    Steady {node with owner := node.owner.compacted node.driver.node} := by
  unfold OwnerState.compacted
  dsimp only
  split
  · split
    · exact steady.told rfl rfl
    · rename_i applied found
      have index : applied.index = node.driver.node.lastApplied := by simpa using List.find?_some found
      have holds := holds_logged steady.sound (List.mem_of_find?_eq_some found)
      obtain same | ⟨-,-,started⟩ := OwnerState.maybeStartSnapshot_either applied.index applied.term
        {node.owner with lastSnapshotIndex := node.driver.node.persistent.baseIndex}
      · rw [same]
        exact steady.told rfl rfl
      · rw [started]
        exact Midway.steady (steady.midway.started steady.sound steady.term steady.small holds (Nat.le_of_eq index) free rfl rfl)
          steady.sound steady.term steady.small
  · exact steady.told rfl rfl

theorem pollSnapshotCreation_steady : Keeps Steady pollSnapshotCreation (fun _ => Broken) := by
  intro node steady
  have emptied := collected_midway steady.midway
  unfold ClusterNode.pollSnapshotCreation OwnerState.collect
  match found : node.owner.snapshotFuture with
  | none | some (.running index term state) => exact steady
  | some (.ready (.error failure)) =>
    rw [found] at emptied
    exact ⟨_,(emptied fun snapshot ready => by cases ready).shelved⟩
  | some (.ready (.ok completed)) =>
    dsimp only
    split
    · rename_i stale
      rw [found] at emptied
      refine Midway.steady (emptied fun snapshot ready => ?_) steady.sound steady.term steady.small
      cases ready
      exact stale
    · rename_i newer
      rw [persistent_base steady.sound,Nat.not_le] at newer
      have taken : Meets (fun after => Steady after ∧ after.owner.snapshotFuture = none) (fun _ => Broken) (compact completed true node.collected) :=
        (compact_steady steady found newer).imp (fun _ fine => fine) (fun _ _ wrong => wrong.elim)
      exact taken.andThen fun after fine => compacted_steady fine.1 fine.2

theorem Shelved.ended {cause : Option Failure} (shelved : Shelved base node) : Shelved base
    {node with owner := node.owner.failPending status,running := false,failure := cause} :=
  {shelved with fine := {shelved.fine with}}

end calls

def ClusterNode.Event.Calm : ClusterNode.Event → Prop
  | .turn moments fates _ => Smooth moments ∧ fates = []
  | .background fate => fate = none
  | .stop => True

theorem background_loop : Loop (fun _ => True) ClusterNode.Event.Calm (Once Bounded Steady) (Once Bounded Broken) where
  hears _ _ _ _ _ _ := trivial
  weaker node once bounded := ⟨_,(once bounded).midway.shelved⟩
  begins node moments fates work calm once bounded := by
    obtain ⟨smooth,rfl⟩ := calm
    obtain ⟨⟨⟨mine,file,numbers,⟨written,compacted⟩,-⟩,moved,well,-,unset,store,tasked⟩,sound,term,small⟩ := once bounded
    exact ⟨⟨⟨mine,file,numbers,⟨written,compacted⟩,smooth⟩,moved,well,rfl,unset,store,tasked⟩,sound,term,small⟩
  timed node time once bounded := by
    obtain ⟨⟨⟨mine,file,numbers,⟨written,compacted⟩,smooth⟩,moved,well,safe,unset,store,tasked⟩,sound,term,small⟩ := once bounded
    exact ⟨⟨⟨mine,file,numbers,⟨written,compacted⟩,smooth⟩,moved,well,safe,unset,store,tasked⟩,sound,term,small⟩
  told node owner kept once bounded := (once bounded).told kept.config kept.future
  elapses := Once.keeps Bounded.closed (fun _ => ClusterNode.elapse_past) elapse_steady
  runs input decoded _ := run_steady decoded
  polls := Once.keeps Bounded.closed (fun _ => ClusterNode.pollSnapshotCreation_past) pollSnapshotCreation_steady
  ended node status cause once bounded := by
    obtain ⟨base,shelved⟩ := once bounded
    exact ⟨base,shelved.ended⟩
  tasked node fate calm once bounded := by
    cases calm
    have steady := once (ClusterNode.runBackground_past.1 ▸ bounded)
    exact (runBackground_midway steady.midway).steady steady.sound steady.term steady.small
  abandoned node fate calm once bounded := by
    cases calm
    obtain ⟨base,shelved⟩ := once (ClusterNode.runBackground_past.1 ▸ bounded)
    exact ⟨base,runBackground_shelved shelved⟩

section runs
variable {first : ClusterNode}

theorem start_steady (started : ClusterNode.start config files = .ok first) (cluster : config.clusterId < 2^64)
    (self : config.nodeId < 2^64) : Steady first := by
  unfold ClusterNode.start at started
  split at started
  · cases started
  rename_i driver created
  split at started
  · cases started
  rename_i owner recovered
  cases started
  obtain ⟨made,store,term,read,-,well,safe,unset⟩ := open_ready created
  obtain ⟨begun,-⟩ := OwnerState.recover_ok recovered
  have same : owner.config = config := congrArg OwnerState.config begun
  have free : owner.snapshotFuture = none := congrArg OwnerState.snapshotFuture begun
  have applied : driver.node.lastApplied = driver.node.persistent.baseIndex := made.sound.applied.trans made.commit
  have small : driver.node.lastApplied < 2^64 := by
    rw [applied]
    unfold RaftPersistentState.baseIndex
    cases found : driver.node.persistent.snapshot with
    | none => exact Nat.two_pow_pos 64
    | some =>
      rw [found] at read
      exact Nat.lt_succ_of_lt (loadSnapshot_fits read).1.index
  have filed : Filed driver.node.persistent.baseIndex driver.node.persistent.snapshot none := by
    unfold RaftPersistentState.baseIndex
    refine ⟨fun blank => by rw [blank]; rfl,fun held found => .inl ?_,nofun,nofun⟩
    rw [found]
    rfl
  have idle : ∀ index term, ¬ Awaits owner.snapshotFuture index term := by
    rw [free]
    rintro index term ⟨task,found,-⟩
    cases found
  have midway : Midway driver.node driver.node.persistent driver.node.lastApplied ⟨owner,driver,0,true,none,[],[],[],[]⟩ := by
    rw [← free] at filed
    subst same
    exact ⟨⟨⟨cluster,self,fingerprint_small _⟩,⟨_,read,filed⟩,fun index term awaits => absurd awaits (idle index term),
      ⟨nofun,nofun⟩,nofun⟩,rfl,well,safe,unset,store,fun index term awaits => absurd awaits (idle index term)⟩
  exact midway.steady made.sound term small

-- Background snapshots never fault the node: whenever the task runs, write_atomic finds
-- no other image of its boundary, RaftNode::compact takes what the owner offers it, and
-- the store finds the same image on its disk.
theorem background_never_faults (started : ClusterNode.start config files = .ok first) (cluster : config.clusterId < 2^64)
    (self : config.nodeId < 2^64) (events : List ClusterNode.Event) (fine : ∀ event ∈ events, event.Decoded ∧ event.Calm)
    (bounded : Bounded (first.live events).emitted) :
    (∀ record ∈ (first.live events).written, record.2 = none ∨
      (record.1.lastIncludedIndex = maxU64 ∧ record.2 = some boundaryInvalid)) ∧
    ∀ record ∈ (first.live events).compacted, record.2 = none := by
  have begun : Once Bounded Steady first := fun _ => start_steady started cluster self
  obtain ⟨base,shelved⟩ := (background_loop.live begun events fine).2 bounded
  exact ⟨shelved.fine.written,shelved.fine.compacted⟩

def firstNode (config : ClusterNodeConfig) : ClusterNode :=
  ⟨.create config (fresh config.raft .empty 0) emptyMachine,
    firstDriver config.identity config.raft 0 (CrashDisk.Disk.empty.run (startEffects config.identity 3)),0,true,none,[],[],[],[]⟩

theorem start_empty (valid : validateConfig config.raft = .ok ()) (named : config.clusterId ≠ 0) (cluster : config.clusterId < 2^64)
    (self : config.nodeId < 2^64) : ClusterNode.start config CrashDisk.Disk.empty = .ok (firstNode config) := by
  have created : PersistedRaftNode.open config.clusterId config.raft CrashDisk.Disk.empty 0 = _ :=
    open_new valid (ownerOf_valid valid named cluster self)
  unfold ClusterNode.start
  rw [created]
  rfl

-- A single voter that takes a snapshot of everything it applies.
def soloNode : ClusterNodeConfig :=
  {clusterId := 7,nodeId := 1,peers := [⟨1,"127.0.0.1",7001,6001⟩],electionTimeoutMin := 10,electionTimeoutMax := 20,
   heartbeatInterval := 1,electionTimeouts := fun _ => 10,maxPendingReads := 4,snapshotThreshold := 1}

def soloStart : ClusterNode := firstNode soloNode

theorem soloNode_starts : ClusterNode.start soloNode CrashDisk.Disk.empty = .ok soloStart :=
  start_empty rfl (by decide) (by decide) (by decide)

-- It elects itself and applies its first entry, its task runs, and it compacts.
def soloEvents : List ClusterNode.Event := [.turn [⟨10000000,[],none⟩] [] none,.background none,.turn [] [] none]

theorem soloEvents_bounded : Bounded (soloStart.live soloEvents).emitted := .of_all (by decide +kernel)

theorem background_never_faults_solo : ClusterNode.start soloNode CrashDisk.Disk.empty = .ok soloStart ∧
    (soloStart.live soloEvents).compacted.length = 1 ∧ ∀ record ∈ (soloStart.live soloEvents).compacted, record.2 = none := by
  refine ⟨soloNode_starts,by decide +kernel,?_⟩
  refine (background_never_faults soloNode_starts (by decide) (by decide) soloEvents ?_ soloEvents_bounded).2
  simp [soloEvents,ClusterNode.Event.Decoded,ClusterNode.Event.Calm,Smooth]

end runs
end ForgeKv.Cluster
