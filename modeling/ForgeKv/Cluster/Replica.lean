import ForgeKv.Cluster.Background
import ForgeKv.Cluster.ImageRule

namespace ForgeKv.Cluster
open Raft RaftStorage Persisted

namespace ReplicatedStateMachine

-- What a committed entry does to the state machine.
def advance (machine : ReplicatedStateMachine) (entry : LogEntry) : Except String ReplicatedStateMachine :=
  match entry.kind with
  | .noOp => .ok machine
  | .command => do
    let command ← decodeReplicatedCommand entry.command
    let (after,_) ← machine.apply command entry.command
    return after

def replay (machine : ReplicatedStateMachine) : List LogEntry → Except String ReplicatedStateMachine
  | [] => .ok machine
  | entry::rest => do
    let after ← machine.advance entry
    after.replay rest

theorem replay_append (machine : ReplicatedStateMachine) (entries more : List LogEntry) :
    machine.replay (entries ++ more) = (machine.replay entries).bind (fun after => after.replay more) := by
  induction entries generalizing machine with
  | nil => rfl
  | cons entry rest ih =>
    simp only [List.cons_append,replay]
    cases machine.advance entry with
    | error => rfl
    | ok after => exact ih after

end ReplicatedStateMachine

-- The committed entries up to an index, applied in order to the empty machine.
def stateAt (committed : List LogEntry) (index : Nat) : Except String ReplicatedStateMachine :=
  emptyMachine.replay (committed.take index)

-- An image of the machine at its boundary.
structure Encodes (committed : List LogEntry) (image : StateMachineSnapshot) : Prop where
  within : image.lastIncludedIndex ≤ committed.length
  bytes : ∃ machine, stateAt committed image.lastIncludedIndex = .ok machine ∧
    encodeSnapshotState machine.snapshot = .ok image.stateMachine

-- A machine that cannot be told from the one at an index.
structure Mirrors (committed : List LogEntry) (index : Nat) (machine : ReplicatedStateMachine) : Prop where
  within : index ≤ committed.length
  alike : ∃ folded, stateAt committed index = .ok folded ∧ Alike folded machine

-- The core shows its owner nothing but the committed log and images of it.
def Follows (committed : List LogEntry) : Action → Prop
  | .applyEntry entry => committed[entry.index-1]? = some entry
  | .applySnapshot image => Encodes committed image
  | _ => True

section fold
variable {committed : List LogEntry} {machine after folded : ReplicatedStateMachine} {image : StateMachineSnapshot}

theorem stateAt_next (found : committed[index]? = some entry) :
    stateAt committed (index+1) = (stateAt committed index).bind (fun machine => machine.advance entry) := by
  unfold stateAt
  rw [List.take_add_one,found,Option.toList_some,ReplicatedStateMachine.replay_append]
  congr 1
  funext machine
  unfold ReplicatedStateMachine.replay
  cases machine.advance entry <;> rfl

theorem advance_noOp (kind : entry.kind = .noOp) : machine.advance entry = .ok machine := by
  unfold ReplicatedStateMachine.advance
  rw [kind]

theorem advance_command (kind : entry.kind = .command) (decoded : decodeReplicatedCommand entry.command = .ok command)
    (applied : machine.apply command entry.command = .ok (after,result)) : machine.advance entry = .ok after := by
  unfold ReplicatedStateMachine.advance
  rw [kind]
  simp only [decoded,applied,bind,Except.bind]
  rfl

theorem advance_standard (standard : Standard machine) (ran : machine.advance entry = .ok after) : Standard after := by
  unfold ReplicatedStateMachine.advance at ran
  split at ran
  · cases ran
    exact standard
  · obtain ⟨command,-,ran⟩ := bind_ok.mp ran
    obtain ⟨⟨next,result⟩,applied,ran⟩ := bind_ok.mp ran
    cases ran
    exact apply_standard standard applied

theorem replay_standard (standard : Standard machine) (ran : machine.replay entries = .ok after) : Standard after := by
  induction entries generalizing machine with
  | nil =>
    cases ran
    exact standard
  | cons entry rest ih =>
    obtain ⟨next,advanced,ran⟩ := bind_ok.mp ran
    exact ih (advance_standard standard advanced) ran

theorem stateAt_standard (found : stateAt committed index = .ok folded) : Standard folded :=
  replay_standard emptyMachine_standard found

theorem Mirrors.next (mirrors : Mirrors committed index machine) (found : committed[index]? = some entry)
    (moved : ∀ folded, Alike folded machine → ∃ reached, folded.advance entry = .ok reached ∧ Alike reached after) :
    Mirrors committed (index+1) after := by
  obtain ⟨-,folded,state,alike⟩ := mirrors
  obtain ⟨reached,advanced,alike⟩ := moved folded alike
  refine ⟨(List.getElem?_eq_some_iff.mp found).1,reached,?_,alike⟩
  rw [stateAt_next found,state]
  exact advanced

theorem Encodes.restored (encodes : Encodes committed image) (mirrors : Mirrors committed index machine)
    (decoded : decodeSnapshotState image.stateMachine = .ok state) (restored : machine.restore state = .ok after) :
    Mirrors committed image.lastIncludedIndex after := by
  obtain ⟨within,folded,reached,encoded⟩ := encodes
  obtain ⟨-,current,found,alike⟩ := mirrors
  have standard := stateAt_standard reached
  have limits := stateAt_standard found
  obtain ⟨storable,same⟩ := encodeSnapshotState_iff.mp encoded
  obtain ⟨read,readable,values,clients⟩ := decode_bytes_state storable
  rw [← same,decoded] at readable
  cases readable
  obtain ⟨copy,ran,copied⟩ := restore_alike standard.healthy (alike.clientLimit.symm.trans (limits.clientLimit.trans standard.clientLimit.symm))
    (alike.byteLimit.symm.trans (limits.byteLimit.trans standard.byteLimit.symm)) values clients
  rw [restored] at ran
  cases ran
  exact ⟨within,folded,reached,copied⟩

end fold

-- Such an image within the widths of its fields.
structure TrueImage (committed : List LogEntry) (image : StateMachineSnapshot) : Prop where
  encodes : Encodes committed image
  index : image.lastIncludedIndex < 2^64
  term : image.lastIncludedTerm < 2^64

theorem fold_rule (committed : List LogEntry) :
    Rule (TrueImage committed) (Mirrors committed) (Follows committed) (fun _ => True) (fun _ => True) where
  narrow image := ⟨image.index,image.term⟩
  fresh _ := trivial
  called _ _ _ _ _ := ⟨trivial,fun _ _ encodes index term => ⟨encodes,index,term⟩⟩
  empty := ⟨Nat.zero_le _,emptyMachine,rfl,.refl _⟩
  skipped := by
    intro entry index machine follows next mirrors kind
    have found : committed[entry.index-1]? = some entry := follows
    rw [next,Nat.add_sub_cancel] at found
    rw [next]
    exact mirrors.next found fun folded alike => ⟨folded,advance_noOp kind,alike⟩
  applied := by
    intro entry index machine command after result follows next mirrors kind decoded applied
    have found : committed[entry.index-1]? = some entry := follows
    rw [next,Nat.add_sub_cancel] at found
    rw [next]
    refine mirrors.next found fun folded alike => ?_
    rcases apply_alike alike command entry.command with ⟨message,-,failed⟩ | ⟨other,reached,after',ran,ran',alike⟩
    · rw [applied] at failed
      cases failed
    · rw [applied] at ran'
      cases ran'
      exact ⟨reached,advance_command kind decoded ran,alike⟩
  restored image mirrors decoded restored := image.encodes.restored mirrors decoded restored
  taken := by
    intro index machine bytes term mirrors encoded small wide
    obtain ⟨within,folded,state,alike⟩ := mirrors
    exact ⟨⟨within,folded,state,encode_alike alike.symm encoded⟩,small,wide⟩

-- A node over all its starts. What it finds in its snapshot file is what it left there,
-- whatever has happened to its other files.
inductive Lived (config : ClusterNodeConfig) (committed : List LogEntry) : ClusterNode → Prop where
  | first (blank : files .snapshot = none) (started : ClusterNode.start config files = .ok node)
      (decoded : ∀ event ∈ events, event.Decoded) (follows : Granted (Follows committed) (node.live events).emitted) :
      Lived config committed (node.live events)
  | again (earlier : Lived config committed before) (kept : files .snapshot = before.driver.files .snapshot)
      (started : ClusterNode.start config files = .ok node) (decoded : ∀ event ∈ events, event.Decoded)
      (follows : Granted (Follows committed) (node.live events).emitted) : Lived config committed (node.live events)

theorem lived_rule (cluster : config.clusterId < 2^64) (self : config.nodeId < 2^64) (lived : Lived config committed node) :
    (node.running = true → Current config.identity (TrueImage committed) (Mirrors committed) (fun _ => True) node) ∧
      Upheld config.identity (TrueImage committed) node := by
  induction lived with
  | first blank started decoded follows =>
    refine rule_lives (fold_rule committed) started cluster self ?_ _ decoded (fun _ _ => ClusterNode.Event.heard_all) follows
    intro held read
    rw [blank] at read
    cases read
  | again earlier kept started decoded follows ih =>
    refine rule_lives (fold_rule committed) started cluster self ?_ _ decoded (fun _ _ => ClusterNode.Event.heard_all) follows
    rw [kept]
    exact ih.2.file

-- Replica state is the fold of the committed log, and so is every image that is given
-- to the snapshot store or to compact.
theorem replica_is_fold (cluster : config.clusterId < 2^64) (self : config.nodeId < 2^64) (lived : Lived config committed node) :
    (node.running = true → Mirrors committed node.driver.node.lastApplied node.owner.machine) ∧
    (∀ record ∈ node.written, Encodes committed record.1) ∧ (∀ record ∈ node.compacted, Encodes committed record.1) ∧
    ∀ image, .persistSnapshot image ∈ node.emitted → Encodes committed image := by
  obtain ⟨current,upheld⟩ := lived_rule cluster self lived
  exact ⟨fun running => (current running).midst.machine,fun record member => (upheld.written record member).encodes,
    fun record member => (upheld.compacted record member).encodes,fun image asked => (upheld.asked image asked).encodes⟩

def Action.follows (committed : List LogEntry) : Action → Bool
  | .applyEntry entry => decide (committed[entry.index-1]? = some entry)
  | .applySnapshot _ => false
  | _ => true

theorem Follows.of_all {emitted : Actions} (fine : emitted.all (Action.follows committed) = true) : ∀ action ∈ emitted, Follows committed action := by
  intro action member
  have shown := List.all_eq_true.mp fine action member
  cases action with
  | applyEntry =>
    simp only [Action.follows,decide_eq_true_eq] at shown
    exact shown
  | applySnapshot => cases shown
  | _ => trivial

-- The single voter compacts to its first entry, applies a command, and compacts to that.
def putEvents : List ClusterNode.Event :=
  soloEvents ++ [.turn [] [] (some (.proposal firstPut 0)),.background none,.turn [] [] none]

theorem replica_is_fold_put : (soloStart.live putEvents).compacted.length = 2 ∧
    Mirrors [⟨1,1,.noOp,[]⟩,⟨2,1,.command,firstPut.bytes⟩] 2 (soloStart.live putEvents).owner.machine := by
  obtain ⟨narrow,follows,applied,running,compacted⟩ : (soloStart.live putEvents).emitted.all Action.narrow = true ∧
      (soloStart.live putEvents).emitted.all (Action.follows [⟨1,1,.noOp,[]⟩,⟨2,1,.command,firstPut.bytes⟩]) = true ∧
      (soloStart.live putEvents).driver.node.lastApplied = 2 ∧ (soloStart.live putEvents).running = true ∧
      (soloStart.live putEvents).compacted.length = 2 := by decide +kernel
  have decoded : ∀ event ∈ putEvents, event.Decoded := by
    simp [putEvents,soloEvents,ClusterNode.Event.Decoded,Work.Decoded]
  have mirrors := (replica_is_fold (by decide) (by decide)
    (.first rfl soloNode_starts decoded ⟨.of_all narrow,Follows.of_all follows⟩)).1 running
  rw [applied] at mirrors
  exact ⟨compacted,mirrors⟩

end ForgeKv.Cluster
