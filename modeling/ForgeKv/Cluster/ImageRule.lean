import ForgeKv.Cluster.Loop
import ForgeKv.Cluster.Restore
import ForgeKv.Persisted.SnapshotFile
import ForgeKv.RaftStorage.Validity

namespace ForgeKv.Cluster
open Raft RaftStorage Persisted
open Procedure (Ensures Meets Keeps)
open ClusterNode (elapse persistAction publishAction run compact pollSnapshotCreation loops)

-- A rule for the images of the state machine: which images are `good`, which machine
-- `fits` an applied index, and what the core may have `shown` to its owner, if it `keeps`
-- something about itself while it is called with what was `heard`.
structure Rule (good : StateMachineSnapshot → Prop) (fits : Nat → ReplicatedStateMachine → Prop) (shown : Action → Prop)
    (keeps : RaftNode → Prop) (heard : NodeId × Message → Prop) : Prop where
  narrow : good image → image.lastIncludedIndex < 2^64 ∧ image.lastIncludedTerm < 2^64
  fresh : node.incomingSnapshot = none → keeps node
  called : Sound node → keeps node → input.Positive → (∀ packet, input.packet = some packet → heard packet) →
    node.call input = .ok (core,actions) → keeps core ∧ ∀ image, .applySnapshot image ∈ actions → shown (.applySnapshot image) →
      image.lastIncludedIndex < 2^64 → image.lastIncludedTerm < 2^64 → good image
  empty : fits 0 emptyMachine
  skipped : shown (.applyEntry entry) → entry.index = index+1 → fits index machine → entry.kind = .noOp → fits entry.index machine
  applied : shown (.applyEntry entry) → entry.index = index+1 → fits index machine → entry.kind = .command →
    decodeReplicatedCommand entry.command = .ok command → machine.apply command entry.command = .ok (after,result) →
    fits entry.index after
  restored : good image → fits index machine → decodeSnapshotState image.stateMachine = .ok state →
    machine.restore state = .ok after → fits image.lastIncludedIndex after
  taken : fits index machine → encodeSnapshotState machine.snapshot = .ok bytes → index < 2^64 → term < 2^64 →
    good ⟨index,term,bytes⟩

def ClusterNode.Event.Heard (heard : NodeId × Message → Prop) : ClusterNode.Event → Prop
  | .turn _ _ work => ∀ posted ∈ work, ∀ packet, posted.packet = some packet → heard packet
  | _ => True

theorem ClusterNode.Event.heard_all {event : ClusterNode.Event} : event.Heard (fun _ => True) := by
  cases event with
  | turn => exact fun _ _ _ _ => trivial
  | _ => trivial

-- A snapshot file that holds a good image, if it can be read at all.
def Filing (good : StateMachineSnapshot → Prop) (owner : Owner) (contents : Option Bytes) : Prop :=
  ∀ held, loadSnapshot owner contents = .ok (some held) → good held

-- Every image that the node has anything to do with is good.
structure Upheld (identity : Owner) (good : StateMachineSnapshot → Prop) (node : ClusterNode) : Prop where
  mine : identity.Fits
  owned : node.owner.config.identity = identity
  stored : node.driver.storage.owner = identity
  slot : ∀ file contents state, node.driver.storage.pending = .hardState file contents state → file ≠ .snapshot
  file : Filing good identity (node.driver.files .snapshot)
  task : ∀ index term state bytes, node.owner.snapshotFuture = some (.running index term state) →
    encodeSnapshotState state = .ok bytes → good ⟨index,term,bytes⟩
  ready : ∀ image, node.owner.snapshotFuture = some (.ready (.ok image)) → good image
  written : ∀ record ∈ node.written, good record.1
  compacted : ∀ record ∈ node.compacted, good record.1
  asked : ∀ image, .persistSnapshot image ∈ node.emitted → good image

structure Midst (identity : Owner) (good : StateMachineSnapshot → Prop) (fits : Nat → ReplicatedStateMachine → Prop) (core : RaftNode) (index : Nat)
    (node : ClusterNode) : Prop where
  upheld : Upheld identity good node
  moved : node.driver.node = core
  machine : fits index node.owner.machine

structure Current (identity : Owner) (good : StateMachineSnapshot → Prop) (fits : Nat → ReplicatedStateMachine → Prop)
    (keeps : RaftNode → Prop) (node : ClusterNode) : Prop where
  midst : Midst identity good fits node.driver.node node.driver.node.lastApplied node
  sound : Sound node.driver.node
  term : node.driver.node.currentTerm < 2^64
  small : node.driver.node.lastApplied < 2^64
  keeps : keeps node.driver.node

structure Granted (shown : Action → Prop) (emitted : Actions) : Prop where
  bounded : Bounded emitted
  shown : ∀ action ∈ emitted, shown action

theorem Granted.closed {shown : Action → Prop} (earlier later : Actions) (past : earlier <+: later) (granted : Granted shown later) :
    Granted shown earlier :=
  ⟨Bounded.closed earlier later past granted.bounded,fun action member => granted.shown action (past.subset member)⟩

section rule
variable {good : StateMachineSnapshot → Prop} {fits : Nat → ReplicatedStateMachine → Prop} {shown : Action → Prop}
  {keeps : RaftNode → Prop} {heard : NodeId × Message → Prop} (rule : Rule good fits shown keeps heard) {identity : Owner} {node : ClusterNode} {core : RaftNode}
  {image : StateMachineSnapshot}

theorem recorded {records : List (StateMachineSnapshot × Option Failure)} (old : ∀ record ∈ records, good record.1) (fine : good image)
    (outcome : Option Failure) : ∀ record ∈ records ++ [(image,outcome)], good record.1 := by
  intro record member
  rcases List.mem_append.mp member with earlier | new
  · exact old record earlier
  · rw [List.mem_singleton.mp new]
    exact fine

theorem runBackground_kept : (node.runBackground fate).driver.node = node.driver.node ∧
    (node.runBackground fate).owner.machine = node.owner.machine := by
  unfold ClusterNode.runBackground ClusterNode.publish ClusterNode.setFuture
  repeat' split
  all_goals exact ⟨rfl,rfl⟩

theorem Midst.told (midst : Midst identity good fits core index node) (kept : OwnerState.Kept node.owner owner) :
    Midst identity good fits core index {node with owner := owner} := by
  obtain ⟨⟨mine,owned,stored,slot,file,task,ready,written,compacted,asked⟩,moved,machine⟩ := midst
  rw [← kept.config] at owned
  rw [← kept.future] at task ready
  rw [← kept.machine] at machine
  exact ⟨⟨mine,owned,stored,slot,file,task,ready,written,compacted,asked⟩,moved,machine⟩

theorem Midst.current (midst : Midst identity good fits core core.lastApplied node) (sound : Sound core) (term : core.currentTerm < 2^64)
    (small : core.lastApplied < 2^64) (kept : keeps core) : Current identity good fits keeps node := by
  have same := midst.moved
  subst same
  exact ⟨midst,sound,term,small,kept⟩

theorem collected_midst (midst : Midst identity good fits core index node) :
    Midst identity good fits core index {node with owner := {node.owner with snapshotFuture := none}} :=
  ⟨{midst.upheld with task := by simp,ready := by simp},midst.moved,midst.machine⟩

include rule

theorem Rule.filing {owner : Owner} (mine : owner.Fits) (fine : good image) (publishable : Publishable image) :
    Filing good owner (some (encodeSnapshot owner image)) := by
  intro held read
  rw [load_snapshot owner mine image (publishable.boundary (rule.narrow fine)) publishable.small] at read
  cases read
  exact fine

theorem publish_upheld (upheld : Upheld identity good node) (fine : good image) : Upheld identity good (node.publish image fate) := by
  obtain ⟨mine,owned,stored,slot,file,-,-,written,compacted,asked⟩ := upheld
  have written := recorded written fine
  unfold ClusterNode.publish
  rw [owned]
  split
  · exact ⟨mine,owned,stored,slot,file,by simp [ClusterNode.setFuture],by simp [ClusterNode.setFuture],written _,compacted,asked⟩
  rename_i effects wrote
  have allowed := writeAtomic_allows wrote file (rule.filing mine fine) (List.forall_mem_nil _)
  rw [List.append_nil] at allowed
  split
  · have whole := allowed effects.length
    rw [List.take_length] at whole
    refine ⟨mine,owned,stored,slot,whole,by simp [ClusterNode.setFuture],fun other ready => ?_,written _,compacted,asked⟩
    cases ready
    exact fine
  · exact ⟨mine,owned,stored,slot,allowed _,by simp [ClusterNode.setFuture],by simp [ClusterNode.setFuture],written _,compacted,asked⟩

theorem runBackground_upheld (upheld : Upheld identity good node) : Upheld identity good (node.runBackground fate) := by
  unfold ClusterNode.runBackground
  split
  · rename_i index term state running
    split
    · obtain ⟨mine,owned,stored,slot,file,-,-,written,compacted,asked⟩ := upheld
      exact ⟨mine,owned,stored,slot,file,by simp [ClusterNode.setFuture],by simp [ClusterNode.setFuture],written,compacted,asked⟩
    · rename_i bytes encoded
      exact publish_upheld rule upheld (upheld.task index term state bytes running encoded)
  · exact upheld

theorem runBackground_midst (midst : Midst identity good fits core index node) : Midst identity good fits core index (node.runBackground fate) := by
  obtain ⟨same,machine⟩ : (node.runBackground fate).driver.node = _ ∧ (node.runBackground fate).owner.machine = _ := runBackground_kept
  exact ⟨runBackground_upheld rule midst.upheld,same.trans midst.moved,machine ▸ midst.machine⟩

theorem elapse_midst : Keeps (Midst identity good fits core index) elapse (fun _ => Upheld identity good) := by
  intro node midst
  have passed : ∀ moment moments, Midst identity good fits core index (node.pass moment moments) := fun _ _ =>
    ⟨{midst.upheld with},midst.moved,midst.machine⟩
  unfold ClusterNode.elapse
  split
  · exact midst
  split
  · exact passed _ _
  · exact runBackground_midst rule (passed _ _)

theorem persistAction_midst (fine : ∀ image, action = .persistSnapshot image → good image) :
    Keeps (Midst identity good fits core index) (persistAction action) (fun _ => Upheld identity good) := by
  refine (elapse_midst rule).andThen (ClusterNode.onDriver_ensures fun node midst => ?_)
  obtain ⟨upheld,moved,machine⟩ := midst
  have guards : Guards core identity (Filing good identity) node.driver :=
    ⟨moved,upheld.stored,upheld.slot,upheld.file⟩
  have kept : ∀ driver, Guards core identity (Filing good identity) driver →
      Midst identity good fits core index {node with driver := driver} := fun driver guards =>
    ⟨{upheld with stored := guards.mine,slot := guards.slot,file := guards.file},guards.moved,machine⟩
  refine (persistAction_guards (fun image asked => rule.filing upheld.mine (fine image asked)) node.driver guards).imp kept ?_
  exact fun _ driver guards => (kept driver guards).upheld

theorem Midst.started (midst : Midst identity good fits core index node) (small : index < 2^64) (wide : term < 2^64) :
    Midst identity good fits core index {node with owner := node.owner.maybeStartSnapshot index term} := by
  obtain same | ⟨-,-,started⟩ := OwnerState.maybeStartSnapshot_either index term node.owner
  · rw [same]
    exact midst
  · rw [started]
    obtain ⟨⟨mine,owned,stored,slot,file,-,-,written,compacted,asked⟩,moved,machine⟩ := midst
    refine ⟨⟨mine,owned,stored,slot,file,fun index' term' state bytes running encoded => ?_,by simp,written,compacted,asked⟩,moved,machine⟩
    cases running
    exact rule.taken machine encoded small wide

theorem persists_midst (fine : ∀ image, .persistSnapshot image ∈ actions → good image) :
    Keeps (Midst identity good fits core index) (Procedure.forEach persistAction actions) (fun _ => Upheld identity good) := by
  induction actions with
  | nil => exact .skip
  | cons action rest ih =>
    refine (persistAction_midst rule ?_).andThen (ih fun image member => fine image (List.mem_cons_of_mem _ member))
    rintro image rfl
    exact fine image List.mem_cons_self

theorem applyEntry_midst (midst : Midst identity good fits core index node) (allowed : shown (.applyEntry entry)) (next : entry.index = index+1) :
    Meets (fun owner => Midst identity good fits core entry.index {node with owner := owner}) (fun _ owner => Upheld identity good {node with owner := owner})
      (OwnerState.applyEntry entry node.owner) := by
  obtain ⟨failure,ran⟩ | ⟨kind,after,ran,kept⟩ | ⟨kind,command,machine,result,after,decoded,applied,ran,kept⟩ :=
    OwnerState.applyEntry_either entry node.owner
  · rw [ran]
    exact midst.upheld
  · rw [ran]
    have moved : Midst identity good fits core entry.index node := {midst with machine := rule.skipped allowed next midst.machine kind}
    exact moved.told kept
  · rw [ran]
    have moved : Midst identity good fits core entry.index {node with owner := {node.owner with machine := machine}} :=
      ⟨{midst.upheld with},midst.moved,rule.applied allowed next midst.machine kind decoded applied⟩
    exact moved.told kept

theorem applySnapshot_midst (midst : Midst identity good fits core index node) (fine : good image) :
    Meets (fun owner => Midst identity good fits core image.lastIncludedIndex {node with owner := owner})
      (fun _ owner => Upheld identity good {node with owner := owner}) (OwnerState.applySnapshot image node.owner) := by
  have restored : Meets (fun owner => Midst identity good fits core image.lastIncludedIndex {node with owner := owner})
      (fun _ owner => Upheld identity good {node with owner := owner})
      (OwnerState.restoreImage "installed invalid state-machine snapshot: " image.stateMachine node.owner) := by
    obtain ⟨failure,ran⟩ | ⟨state,machine,decoded,restored,ran⟩ :=
      OwnerState.restoreImage_either "installed invalid state-machine snapshot: " image.stateMachine node.owner
    · rw [ran]
      exact midst.upheld
    · rw [ran]
      exact ⟨{midst.upheld with},midst.moved,rule.restored fine midst.machine decoded restored⟩
  refine restored.andThen fun owner midst => ?_
  have moved : Midst identity good fits core image.lastIncludedIndex {node with owner := {owner with lastSnapshotIndex := image.lastIncludedIndex}} :=
    ⟨{midst.upheld with},midst.moved,midst.machine⟩
  exact moved.told OwnerState.failPending_kept

theorem publishAction_midst (allowed : shown action) (step : appliedFrom index [action] = some reached)
    (wide : ∀ entry, action = .applyEntry entry → entry.index < 2^64 ∧ entry.term < 2^64)
    (fine : ∀ image, action = .applySnapshot image → good image) :
    Ensures (Midst identity good fits core index) (publishAction action) (Midst identity good fits core reached) (fun _ => Upheld identity good) := by
  refine (elapse_midst rule).andThen (ClusterNode.onOwner_ensures fun node midst => ?_)
  cases action with
  | applyEntry entry =>
    simp only [appliedFrom,Option.ite_none_right_eq_some,Option.some.injEq] at step
    obtain ⟨follows,rfl⟩ := step
    obtain ⟨small,term⟩ := wide entry rfl
    exact (applyEntry_midst rule midst allowed follows).andThen fun owner midst => midst.started rule small term
  | applySnapshot image =>
    simp only [appliedFrom,Option.ite_none_right_eq_some,Option.some.injEq] at step
    obtain ⟨-,rfl⟩ := step
    exact applySnapshot_midst rule midst (fine image rfl)
  | sendMessage =>
    cases step
    exact midst.told OwnerState.sendMessage_kept
  | roleChanged =>
    cases step
    exact midst.told OwnerState.roleChanged_kept
  | proposalRejected =>
    cases step
    exact midst.told OwnerState.proposalRejected_kept
  | _ =>
    cases step
    exact midst

theorem publishes_midst (allowed : ∀ action ∈ actions, shown action)
    (wide : ∀ entry, .applyEntry entry ∈ actions → entry.index < 2^64 ∧ entry.term < 2^64)
    (fine : ∀ image, .applySnapshot image ∈ actions → good image) (order : appliedFrom index actions = some last) :
    Ensures (Midst identity good fits core index) (Procedure.forEach publishAction actions) (Midst identity good fits core last) (fun _ => Upheld identity good) := by
  induction actions generalizing index with
  | nil =>
    cases order
    exact .skip
  | cons action rest ih =>
    have parts := appliedFrom_append index [action] rest
    rw [List.singleton_append,order] at parts
    obtain ⟨next,step,later⟩ := Option.bind_eq_some_iff.mp parts.symm
    refine (publishAction_midst rule (allowed action List.mem_cons_self) step ?_ ?_).andThen
      (ih (fun other member => allowed other (List.mem_cons_of_mem _ member)) (fun entry member => wide entry (List.mem_cons_of_mem _ member))
        (fun image member => fine image (List.mem_cons_of_mem _ member)) later)
    · rintro entry rfl
      exact wide entry List.mem_cons_self
    · rintro image rfl
      exact fine image List.mem_cons_self

theorem call_good (current : Current identity good fits keeps node) (decoded : input.Decoded)
    (arrived : ∀ packet, input.packet = some packet → heard packet) (offered : ∀ image, input.offer = some (.image image) → good image) (granted : Granted shown actions)
    (called : node.driver.node.call input = .ok (core,actions)) (asked : .persistSnapshot image ∈ actions) : good image := by
  have passed : .applySnapshot image ∈ actions ∨ input.offer = some (.image image) :=
    call_passed current.sound decoded.positive called asked
  rcases passed with told | own
  · have begins : node.driver.node.clearActions.currentTerm < 2^64 := current.term
    have asks : Asks (fun state => state.currentTerm < 2^64) node.driver.node.commitIndex input.packet input.offer
        node.driver.node.persistent (actions.filter Action.isPersist) core.persistent :=
      call_asks current.sound decoded.positive called fun middle through => moves_term decoded.term begins through
    obtain ⟨state,term,-,-,past,-⟩ := asks.fits current.term (List.mem_filter.mpr ⟨asked,rfl⟩)
    exact (rule.called current.sound current.keeps decoded.positive arrived called).2 image told (granted.shown _ told)
      (granted.bounded.snapshots image told) (Nat.lt_of_le_of_lt past term)
  · exact offered image own

theorem loops_current (current : Current identity good fits keeps node) (decoded : input.Decoded)
    (arrived : ∀ packet, input.packet = some packet → heard packet) (offered : ∀ image, input.offer = some (.image image) → good image)
    (called : node.driver.node.call input = .ok (core,actions)) (granted : Granted shown (node.emitted ++ actions)) :
    Meets (Current identity good fits keeps) (fun _ => Upheld identity good) (loops actions {node.setCore core with emitted := node.emitted ++ actions}) := by
  obtain ⟨-,order,applies⟩ := call_forward current.sound decoded.positive called
  obtain ⟨final,moves,rfl,-⟩ := call_returns current.sound decoded.positive called
  have sound := clear_sound (moves_sound (clear_sound current.sound) moves)
  have begins : node.driver.node.clearActions.currentTerm < 2^64 := current.term
  have ends : final.currentTerm < 2^64 := moves_term decoded.term begins moves
  have wide : final.clearActions.currentTerm < 2^64 := ends
  have granted' : Granted shown actions :=
    ⟨granted.bounded.right,fun action member => granted.shown action (List.mem_append_right _ member)⟩
  have small := appliedFrom_bounded granted'.bounded current.small order
  have fine : ∀ image, .persistSnapshot image ∈ actions → good image :=
    fun image => call_good rule current decoded arrived offered granted' called
  have kept := (rule.called current.sound current.keeps decoded.positive arrived called).1
  have begun : Midst identity good fits final.clearActions node.driver.node.lastApplied
      {node.setCore final.clearActions with emitted := node.emitted ++ actions} := by
    refine ⟨{current.midst.upheld with asked := fun image member => ?_},rfl,current.midst.machine⟩
    exact (List.mem_append.mp member).elim (current.midst.upheld.asked image) (fine image)
  have persists : Keeps (Midst identity good fits final.clearActions node.driver.node.lastApplied) (Procedure.forEach persistAction (actions.filter Action.isPersist)) (fun _ => Upheld identity good) :=
    persists_midst rule fun image member => fine image (List.mem_filter.mp member).1
  have publishes : Ensures (Midst identity good fits final.clearActions node.driver.node.lastApplied)
      (Procedure.forEach publishAction (actions.filter (fun action => !action.isPersist)))
      (Midst identity good fits final.clearActions final.clearActions.lastApplied) (fun _ => Upheld identity good) := by
    refine publishes_midst rule (fun action member => granted'.shown action (List.mem_filter.mp member).1) ?_ ?_ ?_
    · intro entry member
      obtain ⟨holds,-⟩ := applies entry (List.mem_filter.mp member).1
      exact ⟨granted'.bounded.entries entry (List.mem_filter.mp member).1,Nat.lt_of_le_of_lt (holds_term sound holds).2 wide⟩
    · intro image member
      exact fine image (call_passed current.sound decoded.positive called (List.mem_filter.mp member).1)
    · exact (appliedFrom_published _ _).trans order
  exact (persists.andThen publishes _ begun).weaken fun after midst => midst.current sound wide small kept

theorem run_current (decoded : input.Decoded) (arrived : ∀ packet, input.packet = some packet → heard packet)
    (offered : ∀ image, input.offer = some (.image image) → good image) :
    Keeps (Once (Granted shown) (Current identity good fits keeps)) (run input) (fun _ => Once (Granted shown) (Upheld identity good)) := by
  refine Once.call Granted.closed (fun node current => current.midst.upheld) (fun node core upheld => {upheld with}) ?_
  intro node core actions current called granted
  exact (loops_current rule current decoded arrived offered called granted).imp (fun _ current => current) (fun _ _ upheld => {upheld with})

theorem compact_current (fine : good image) : Keeps (Once (Granted shown) (Current identity good fits keeps)) (compact image already) (fun _ => Once (Granted shown) (Upheld identity good)) := by
  intro node once
  have begun : Once (Granted shown) (Current identity good fits keeps) (node.setDurable already) := by
    intro granted
    obtain ⟨⟨upheld,moved,machine⟩,sound,term,small,kept⟩ := once granted
    exact ⟨⟨{upheld with},moved,machine⟩,sound,term,small,kept⟩
  have offered : ∀ other, (Input.compact image).offer = some (.image other) → good other := by
    intro other same
    cases same
    exact fine
  have decoded : (Input.compact image).Decoded := trivial
  have ran := run_current rule decoded nofun offered _ begun
  unfold ClusterNode.compact
  split
  · rename_i after found
    rw [found] at ran
    intro granted
    obtain ⟨⟨upheld,moved,machine⟩,sound,term,small,kept⟩ := ran granted
    exact ⟨⟨{upheld with compacted := recorded upheld.compacted fine _},moved,machine⟩,sound,term,small,kept⟩
  · rename_i after failure found
    rw [found] at ran
    intro granted
    have upheld : Upheld identity good after := ran granted
    exact {upheld with compacted := recorded upheld.compacted fine _}

theorem compacted_current (current : Current identity good fits keeps node) :
    Current identity good fits keeps {node with owner := node.owner.compacted node.driver.node} := by
  obtain ⟨midst,sound,term,small,kept⟩ := current
  have moved : Midst identity good fits node.driver.node node.driver.node.lastApplied
      {node with owner := {node.owner with lastSnapshotIndex := node.driver.node.persistent.baseIndex}} :=
    ⟨{midst.upheld with},midst.moved,midst.machine⟩
  refine Midst.current ?_ sound term small kept
  unfold OwnerState.compacted
  dsimp only
  split
  · split
    · exact moved
    · rename_i applied found
      have index : applied.index = node.driver.node.lastApplied := by simpa using List.find?_some found
      have past := (holds_term sound (holds_logged sound (List.mem_of_find?_eq_some found))).2
      rw [index]
      exact moved.started rule small (Nat.lt_of_le_of_lt past term)
  · exact moved

theorem pollSnapshotCreation_current : Keeps (Once (Granted shown) (Current identity good fits keeps)) pollSnapshotCreation (fun _ => Once (Granted shown) (Upheld identity good)) := by
  intro node once
  by_cases granted : Granted shown node.emitted
  · have current := once granted
    have emptied : Current identity good fits keeps {node with owner := {node.owner with snapshotFuture := none}} :=
      (collected_midst current.midst).current current.sound current.term current.small current.keeps
    unfold ClusterNode.pollSnapshotCreation OwnerState.collect
    match found : node.owner.snapshotFuture with
    | none | some (.running index term state) => exact once
    | some (.ready (.error failure)) => exact fun _ => emptied.midst.upheld
    | some (.ready (.ok completed)) =>
      dsimp only
      split
      · exact fun _ => emptied
      · refine (compact_current rule (current.midst.upheld.ready completed found) _ fun _ => emptied).andThen ?_
        exact fun after once granted => compacted_current rule (once granted)
  · exact Once.past Granted.closed granted (ClusterNode.pollSnapshotCreation_past _ (List.prefix_refl _))

theorem rule_loop : Loop heard (ClusterNode.Event.Heard heard) (Once (Granted shown) (Current identity good fits keeps)) (Once (Granted shown) (Upheld identity good)) where
  hears _ _ _ packet fine posted := fine _ rfl packet posted
  weaker node once granted := (once granted).midst.upheld
  begins node moments fates work _ once granted := by
    obtain ⟨⟨upheld,moved,machine⟩,sound,term,small,kept⟩ := once granted
    exact ⟨⟨{upheld with},moved,machine⟩,sound,term,small,kept⟩
  timed node time once granted := by
    obtain ⟨⟨upheld,moved,machine⟩,sound,term,small,kept⟩ := once granted
    exact ⟨⟨{upheld with},moved,machine⟩,sound,term,small,kept⟩
  told node owner kept once granted :=
    ((once granted).midst.told kept).current (once granted).sound (once granted).term (once granted).small (once granted).keeps
  elapses := Once.keeps Granted.closed (fun _ => ClusterNode.elapse_past) fun node current =>
    (elapse_midst rule node current.midst).weaken fun _ midst => midst.current current.sound current.term current.small current.keeps
  runs input decoded arrived own := by
    refine run_current rule decoded arrived fun image offered => ?_
    cases input with
    | compact snapshot => exact absurd rfl (own snapshot)
    | _ => cases offered
  polls := pollSnapshotCreation_current rule
  ended node status cause once granted := {once granted with}
  tasked node fate _ once granted := by
    have current := once (ClusterNode.runBackground_past.1 ▸ granted)
    exact (runBackground_midst rule current.midst).current current.sound current.term current.small current.keeps
  abandoned node fate _ once granted := runBackground_upheld rule (once (ClusterNode.runBackground_past.1 ▸ granted))

theorem start_current (started : ClusterNode.start config files = .ok first) (cluster : config.clusterId < 2^64)
    (self : config.nodeId < 2^64) (filing : Filing good config.identity (files .snapshot)) : Current config.identity good fits keeps first := by
  unfold ClusterNode.start at started
  split at started
  · cases started
  rename_i driver created
  split at started
  · cases started
  rename_i owner recovered
  cases started
  obtain ⟨made,⟨generation,store⟩,term,read,kept,-,-,-⟩ := open_ready created
  obtain ⟨begun,fresh,new,restored⟩ := OwnerState.recover_ok recovered
  have free : owner.snapshotFuture = none := congrArg OwnerState.snapshotFuture begun
  have same : owner.config = config := congrArg OwnerState.config begun
  subst same
  cases new
  have applied : driver.node.lastApplied = driver.node.persistent.baseIndex := made.sound.applied.trans made.commit
  have begins : keeps driver.node := rule.fresh made.incoming
  have upheld : Upheld owner.config.identity good ⟨owner,driver,0,true,none,[],[],[],[]⟩ := by
    refine ⟨⟨cluster,self,fingerprint_small _⟩,rfl,by rw [store]; rfl,?_,kept ▸ filing,?_,?_,by simp,by simp,by simp⟩
    · intro file contents state pending
      rw [store] at pending
      cases pending
    all_goals
      rw [free]
      simp
  rcases restored with ⟨blank,machine⟩ | ⟨image,state,held,decoded,machine⟩
  · have base : driver.node.lastApplied = 0 := by
      rw [applied]
      unfold RaftPersistentState.baseIndex RaftNode.persistent
      rw [blank]
      rfl
    refine Midst.current ⟨upheld,rfl,?_⟩ made.sound term (base ▸ Nat.two_pow_pos 64) begins
    rw [base]
    rw [machine]
    exact rule.empty
  · have base : driver.node.lastApplied = image.lastIncludedIndex := by
      rw [applied]
      unfold RaftPersistentState.baseIndex RaftNode.persistent
      rw [held]
      rfl
    have snapshot : driver.node.persistent.snapshot = some image := held
    rw [snapshot] at read
    have fine := upheld.file image read
    refine Midst.current ⟨upheld,rfl,?_⟩ made.sound term (base ▸ (rule.narrow fine).1) begins
    rw [base]
    exact rule.restored fine rule.empty decoded machine

theorem rule_lives (started : ClusterNode.start config files = .ok first) (cluster : config.clusterId < 2^64)
    (self : config.nodeId < 2^64) (filing : Filing good config.identity (files .snapshot)) (events : List ClusterNode.Event)
    (decoded : ∀ event ∈ events, event.Decoded) (listened : ∀ event ∈ events, event.Heard heard)
    (granted : Granted shown (first.live events).emitted) :
    ((first.live events).running = true → Current config.identity good fits keeps (first.live events)) ∧ Upheld config.identity good (first.live events) := by
  have begun : Once (Granted shown) (Current config.identity good fits keeps) first := fun _ => start_current rule started cluster self filing
  obtain ⟨current,upheld⟩ := (rule_loop rule).live begun events fun event member => ⟨decoded event member,listened event member⟩
  exact ⟨fun running => current running granted,upheld granted⟩

end rule
end ForgeKv.Cluster
