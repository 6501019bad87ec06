import ForgeKv.Cluster.ClusterNode
import ForgeKv.Raft.Forward

namespace ForgeKv.Cluster
open Raft RaftStorage Persisted
open Procedure (Meets Preserves Keeps)
open ClusterNode (elapse run loops pollSnapshotCreation tick process iterate Past drive_meets loops_past runBackground_past)

-- The peer port and the transport only post what decode_peer_frame made.
def Work.Decoded : Work → Prop
  | .peerRequest envelope _ => ∃ frame, decodePeerFrame frame = .ok envelope
  | .peerResponse _ message => ∃ frame, Decodes frame message
  | _ => True

def Work.packet : Work → Option (NodeId × Message)
  | .peerRequest envelope _ => some (envelope.source,envelope.message)
  | .peerResponse source message => some (source,message)
  | _ => none

theorem Work.Decoded.posted {work : Work} (decoded : work.Decoded)
    (received : OwnerState.receive core work owner = .ok (after,some input)) :
    input.Decoded ∧ (∀ packet, input.packet = some packet → work.packet = some packet) ∧ ∀ image, input ≠ .compact image := by
  obtain ⟨-,posts⟩ := OwnerState.receive_ok received
  rcases posts input rfl with ⟨command,rfl⟩ | rfl | ⟨envelope,completion,rfl,rfl⟩ | ⟨source,message,rfl,rfl⟩
  · exact ⟨trivial,nofun,nofun⟩
  · exact ⟨trivial,nofun,nofun⟩
  · obtain ⟨frame,read⟩ := decoded
    exact ⟨⟨frame,envelope,read,rfl⟩,fun _ => id,nofun⟩
  · exact ⟨decoded,fun _ => id,nofun⟩

def ClusterNode.Event.Decoded : ClusterNode.Event → Prop
  | .turn _ _ work => ∀ posted ∈ work, posted.Decoded
  | _ => True

-- The indexes that were applied are 64 bits wide.
structure Bounded (emitted : Actions) : Prop where
  entries : ∀ entry, .applyEntry entry ∈ emitted → entry.index < 2^64
  snapshots : ∀ snapshot, .applySnapshot snapshot ∈ emitted → snapshot.lastIncludedIndex < 2^64

def Action.narrow : Action → Bool
  | .applyEntry entry => decide (entry.index < 2^64)
  | .applySnapshot snapshot => decide (snapshot.lastIncludedIndex < 2^64)
  | _ => true

theorem Bounded.of_all (narrow : emitted.all Action.narrow = true) : Bounded emitted :=
  ⟨fun _ member => of_decide_eq_true (List.all_eq_true.mp narrow _ member),
    fun _ member => of_decide_eq_true (List.all_eq_true.mp narrow _ member)⟩

theorem Bounded.tail (bounded : Bounded (action::actions)) : Bounded actions :=
  ⟨fun entry member => bounded.entries entry (List.mem_cons_of_mem _ member),
    fun snapshot member => bounded.snapshots snapshot (List.mem_cons_of_mem _ member)⟩

theorem appliedFrom_bounded (bounded : Bounded actions) (small : applied < 2^64)
    (ends : appliedFrom applied actions = some after) : after < 2^64 := by
  fun_induction appliedFrom applied actions with
  | case1 applied =>
    cases ends
    exact small
  | case2 applied entry rest next ih => exact ih bounded.tail (bounded.entries entry List.mem_cons_self) ends
  | case3 applied entry rest next => cases ends
  | case4 applied snapshot rest next ih => exact ih bounded.tail (bounded.snapshots snapshot List.mem_cons_self) ends
  | case5 applied snapshot rest next => cases ends
  | case6 applied action rest other another ih => exact ih bounded.tail small ends

theorem Bounded.closed (actions more : Actions) (past : actions <+: more) (bounded : Bounded more) : Bounded actions :=
  ⟨fun entry member => bounded.entries entry (past.subset member),
    fun snapshot member => bounded.snapshots snapshot (past.subset member)⟩

theorem Bounded.right {actions more : Actions} (bounded : Bounded (actions ++ more)) : Bounded more :=
  ⟨fun entry member => bounded.entries entry (List.mem_append_right _ member),
    fun snapshot member => bounded.snapshots snapshot (List.mem_append_right _ member)⟩

-- What holds as long as the actions of the core have been such.
def Once (grant : Actions → Prop) (holds : ClusterNode → Prop) (node : ClusterNode) : Prop := grant node.emitted → holds node

section once
variable {grant : Actions → Prop} {steady left : ClusterNode → Prop}
  (closed : ∀ earlier later, earlier <+: later → grant later → grant earlier)
include closed

theorem Once.past (refused : ¬ grant emitted) (past : Meets (Past emitted) (fun _ => Past emitted) result) :
    Meets (Once grant steady) (fun _ => Once grant left) result :=
  past.imp (fun _ grown granted => absurd (closed _ _ grown granted) refused)
    (fun _ _ grown granted => absurd (closed _ _ grown granted) refused)

theorem Once.keeps (past : ∀ emitted, Preserves (Past emitted) routine)
    (kept : Keeps steady routine (fun _ => left)) :
    Keeps (Once grant steady) routine (fun _ => Once grant left) := by
  intro node once
  by_cases granted : grant node.emitted
  · exact (kept node (once granted)).imp (fun _ kept _ => kept) (fun _ _ kept _ => kept)
  · exact Once.past closed granted (past node.emitted node (List.prefix_refl _))

theorem Once.call (weaker : ∀ node, steady node → left node) (threw : ∀ node core, left node → left (node.setCore core))
    (called : ∀ node core actions, steady node → node.driver.node.call input = .ok (core,actions) →
      grant (node.emitted ++ actions) → Meets steady (fun _ node => left node.failDriver)
        (loops actions {node.setCore core with emitted := node.emitted ++ actions})) :
    Keeps (Once grant steady) (run input) (fun _ => Once grant left) := by
  intro node once
  unfold ClusterNode.run
  split
  · exact fun granted => weaker node (once granted)
  split
  · exact fun granted => threw node _ (weaker node (once granted))
  rename_i core actions ran
  by_cases granted : grant (node.emitted ++ actions)
  · have steady := once (closed _ _ (List.prefix_append ..) granted)
    exact drive_meets ((called node core actions steady ran granted).imp (fun _ kept _ => kept) (fun _ _ kept _ => kept))
  · exact Once.past closed granted (drive_meets (loops_past _ (List.prefix_refl _)))

end once

-- What the loop keeps: `steady` while it runs, and `left` behind an exception or a stop.
structure Loop (heard : NodeId × Message → Prop) (allowed : ClusterNode.Event → Prop) (steady left : ClusterNode → Prop) : Prop where
  hears : ∀ moments fates work packet, allowed (.turn moments fates (some work)) → work.packet = some packet → heard packet
  weaker : ∀ node, steady node → left node
  begins : ∀ node moments fates work, allowed (.turn moments fates work) → steady node →
    steady {node with moments := moments,driver := {node.driver with fates := fates}}
  timed : ∀ node time, steady node → steady {node with nextTick := time}
  told : ∀ node owner, OwnerState.Kept node.owner owner → steady node → steady {node with owner := owner}
  elapses : Keeps steady elapse (fun _ => left)
  runs : ∀ input, input.Decoded → (∀ packet, input.packet = some packet → heard packet) → (∀ image, input ≠ .compact image) → Keeps steady (run input) (fun _ => left)
  polls : Keeps steady pollSnapshotCreation (fun _ => left)
  ended : ∀ node status cause, left node → left {node with owner := node.owner.failPending status,running := false,failure := cause}
  tasked : ∀ node fate, allowed (.background fate) → steady node → steady (node.runBackground fate)
  abandoned : ∀ node fate, allowed (.background fate) → left node → left (node.runBackground fate)

namespace Loop
variable {heard : NodeId × Message → Prop} {allowed : ClusterNode.Event → Prop} {steady left : ClusterNode → Prop}
  (loop : Loop heard allowed steady left)
include loop

theorem onOwner {change : OwnerState → OwnerState} (kept : ∀ owner, OwnerState.Kept owner (change owner)) :
    Keeps steady (ClusterNode.onOwner fun owner => (change owner,none)) (fun _ => left) :=
  fun node holds => loop.told node _ (kept node.owner) holds

theorem tick : Keeps steady (ClusterNode.tick now) (fun _ => left) := by
  intro node holds
  unfold ClusterNode.tick
  split
  · have ran : Keeps steady (ClusterNode.run (.advanceTime (now/1000000))) (fun _ => left) := loop.runs _ trivial nofun nofun
    exact (ran node holds).andThen fun after holds => loop.timed after _ holds
  · exact holds

theorem process (decoded : work.Decoded) (fine : allowed (.turn moments fates (some work))) : Keeps steady (ClusterNode.process work) (fun _ => left) := by
  intro node holds
  unfold ClusterNode.process
  split
  · exact loop.weaker node holds
  · rename_i owner received
    exact loop.told node owner (OwnerState.receive_ok received).1 holds
  · rename_i owner input received
    obtain ⟨arrived,posted,own⟩ := decoded.posted received
    exact (loop.runs input arrived (fun packet same => loop.hears _ _ _ packet fine (posted packet same)) own).andThen (loop.onOwner fun owner => OwnerState.settle_kept) _
      (loop.told node owner (OwnerState.receive_ok received).1 holds)

theorem iterate (decoded : ∀ posted ∈ work, posted.Decoded) (fine : allowed (.turn moments fates work)) : Keeps steady (ClusterNode.iterate work) (fun _ => left) := by
  have processed : Keeps steady (Procedure.forEach ClusterNode.process work.toList) (fun _ => left) := by
    cases work with
    | none => exact .skip
    | some posted => exact (loop.process (decoded posted rfl) fine).andThen .skip
  exact loop.elapses.andThen fun node => (loop.tick.andThen ((loop.onOwner fun owner => OwnerState.expirePendingReads_kept).andThen
    ((loop.elapses.andThen processed).andThen (loop.elapses.andThen loop.polls)))) node

theorem turn {node : ClusterNode} (decoded : ∀ posted ∈ work, posted.Decoded) (fine : allowed (.turn moments fates work))
    (holds : (node.running = true → steady node) ∧ left node) :
    ((node.turn moments fates work).running = true → steady (node.turn moments fates work)) ∧ left (node.turn moments fates work) := by
  unfold ClusterNode.turn
  split
  · exact holds
  rename_i running
  have running : node.running = true := by simpa using running
  have turned := loop.iterate decoded fine _ (loop.begins node moments fates work fine (holds.1 running))
  split
  · rename_i after ran
    rw [ran] at turned
    exact ⟨fun _ => turned,loop.weaker after turned⟩
  · rename_i after failure ran
    rw [ran] at turned
    exact ⟨(fun wrong => by cases wrong),loop.ended after _ _ turned⟩

theorem happen {node : ClusterNode} (event : ClusterNode.Event) (fine : event.Decoded ∧ allowed event)
    (holds : (node.running = true → steady node) ∧ left node) :
    ((node.happen event).running = true → steady (node.happen event)) ∧ left (node.happen event) := by
  cases event with
  | turn => exact loop.turn fine.1 fine.2 holds
  | background fate =>
    refine ⟨fun running => ?_,loop.abandoned node fate fine.2 holds.2⟩
    exact loop.tasked node fate fine.2 (holds.1 (runBackground_past.2 ▸ running))
  | stop => exact ⟨(fun wrong => by cases wrong),loop.ended node _ _ holds.2⟩

theorem live {first : ClusterNode} (begins : steady first) (events : List ClusterNode.Event) (fine : ∀ event ∈ events, event.Decoded ∧ allowed event) :
    ((first.live events).running = true → steady (first.live events)) ∧ left (first.live events) := by
  have every : ∀ node, (node.running = true → steady node) ∧ left node →
      ((node.live events).running = true → steady (node.live events)) ∧ left (node.live events) := by
    induction events with
    | nil => exact fun node holds => holds
    | cons event rest ih =>
      intro node holds
      exact ih (fun other member => fine other (List.mem_cons_of_mem _ member)) _ (loop.happen event (fine event List.mem_cons_self) holds)
  exact every first ⟨fun _ => begins,loop.weaker first begins⟩

end Loop
end ForgeKv.Cluster
