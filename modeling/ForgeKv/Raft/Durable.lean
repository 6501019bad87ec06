import ForgeKv.Raft.Calls

namespace ForgeKv.Raft
open Assoc

-- The log entries behind a new snapshot that the snapshot does not contradict.
def RaftPersistentState.suffixAfter (state : RaftPersistentState) (snapshot : StateMachineSnapshot) : List LogEntry :=
  let position := snapshot.lastIncludedIndex-state.baseIndex-1
  if state.baseIndex < snapshot.lastIncludedIndex ∧
      (state.log[position]?).map LogEntry.term = some snapshot.lastIncludedTerm then state.log.drop (position+1)
  else []

-- What one action does to the durable state once it was executed.
def RaftPersistentState.persist (state : RaftPersistentState) : Action → RaftPersistentState
  | .persistHardState term votedFor => {state with currentTerm := term,votedFor := votedFor}
  | .persistLog fromIndex entries => {state with log := state.log.take (fromIndex-state.baseIndex-1) ++ entries}
  | .persistSnapshot snapshot => {state with snapshot := some snapshot,log := state.suffixAfter snapshot}
  | _ => state

def RaftPersistentState.persistAll (state : RaftPersistentState) (actions : Actions) : RaftPersistentState :=
  actions.foldl RaftPersistentState.persist state

-- The part of a node that must survive a crash.
def RaftNode.persistent (node : RaftNode) : RaftPersistentState :=
  ⟨node.currentTerm,node.votedFor,node.durableSnapshot,node.log.tail⟩

theorem persist_other (other : action.isPersist = false) : RaftPersistentState.persist state action = state := by
  cases action <;> first | rfl | cases other

theorem persistAll_append : RaftPersistentState.persistAll state (actions ++ more) =
    RaftPersistentState.persistAll (RaftPersistentState.persistAll state actions) more := List.foldl_append ..

theorem persistAll_filter : RaftPersistentState.persistAll state (actions.filter Action.isPersist) =
    RaftPersistentState.persistAll state actions := by
  induction actions generalizing state with
  | nil => rfl
  | cons action rest ih =>
    cases persists : action.isPersist with
    | true =>
      rw [List.filter_cons_of_pos persists]
      exact ih
    | false =>
      rw [List.filter_cons_of_neg (by simp [persists]),ih]
      show _ = RaftPersistentState.persistAll (state.persist action) rest
      rw [persist_other persists]

section moves
variable {node after : RaftNode} {image : StateMachineSnapshot}

section
variable (sound : Sound node)
include sound

theorem persistent_base : node.persistent.baseIndex = node.baseIndex := by
  rw [sound.base]
  unfold RaftPersistentState.baseIndex RaftNode.persistent
  cases node.durableSnapshot <;> rfl

theorem tail_get (real : node.baseIndex < index) :
    node.log.tail[index-node.baseIndex-1]? = node.log[index-node.baseIndex]? := by
  obtain ⟨rest,shape⟩ := sound.log.front
  rw [shape,List.tail_cons,show index-node.baseIndex = index-node.baseIndex-1+1 by omega,List.getElem?_cons_succ]
  rfl

theorem holds_term (holds : Holds node entry) : 0 < entry.term ∧ entry.term ≤ node.currentTerm := by
  obtain ⟨real,found⟩ := holds
  have inside : entry ∈ node.log.tail := by
    rw [← tail_get sound real] at found
    exact List.mem_of_getElem? found
  exact ⟨sound.log.positive entry inside,sound.log.bounded entry (List.mem_of_mem_tail inside)⟩

theorem holds_logged (logged : entry ∈ node.persistent.log) : Holds node entry := by
  obtain ⟨position,found⟩ := List.mem_iff_getElem?.mp logged
  have found : node.log[position+1]? = some entry := by
    rw [← found]
    exact (List.getElem?_tail).symm
  have place := sound.index_of found
  refine ⟨by omega,?_⟩
  rw [place,Nat.add_sub_cancel_left]
  exact found

theorem tail_drop (real : node.baseIndex < index) :
    node.log.drop (index-node.baseIndex+1) = node.log.tail.drop (index-node.baseIndex-1+1) := by
  obtain ⟨rest,shape⟩ := sound.log.front
  rw [shape,List.tail_cons,List.drop_succ_cons]
  congr 1
  omega

theorem suffixAfter_has (real : node.baseIndex < image.lastIncludedIndex)
    (has : HasAt node image.lastIncludedIndex image.lastIncludedTerm) :
    node.persistent.suffixAfter image = node.log.drop (image.lastIncludedIndex-node.baseIndex+1) := by
  obtain ⟨-,entry,found,same⟩ := has
  unfold RaftPersistentState.suffixAfter
  rw [persistent_base sound]
  refine (if_pos ⟨real,?_⟩).trans (tail_drop sound real).symm
  show (node.log.tail[image.lastIncludedIndex-node.baseIndex-1]?).map LogEntry.term = _
  rw [tail_get sound real,found,Option.map_some,same]

theorem suffixAfter_lacks (real : node.baseIndex < image.lastIncludedIndex)
    (lacks : ¬ HasAt node image.lastIncludedIndex image.lastIncludedTerm) : node.persistent.suffixAfter image = [] := by
  unfold RaftPersistentState.suffixAfter
  rw [persistent_base sound]
  refine if_neg ?_
  rintro ⟨-,found⟩
  have found : (node.log.tail[image.lastIncludedIndex-node.baseIndex-1]?).map LogEntry.term = _ := found
  rw [tail_get sound real] at found
  obtain ⟨entry,got,same⟩ := Option.map_eq_some_iff.mp found
  exact lacks ⟨Nat.le_of_lt real,entry,got,same⟩

end

-- What a piece emits, and that it emits exactly the persistence it needs.
structure Emits (node after : RaftNode) (new : Actions) : Prop where
  actions : after.actions = node.actions ++ new
  durable : after.persistent = node.persistent.persistAll new
  single : (new.filter Action.isPersist).length ≤ 1

theorem emits_nothing (same : after.persistent = node.persistent) (kept : after.actions = node.actions) : Emits node after [] :=
  ⟨by rw [kept]; simp,same,Nat.zero_le _⟩

theorem emits_plain (same : after.persistent = node.persistent) (actions : after.actions = node.actions ++ new)
    (plain : new.filter Action.isPersist = []) : Emits node after new := by
  refine ⟨actions,?_,by rw [plain]; exact Nat.zero_le _⟩
  rw [← persistAll_filter,plain,same]
  rfl

theorem becomeFollower_emits : ∃ new, Emits node (node.becomeFollower term leader) new := by
  refine ⟨_,List.append_assoc ..,?_,?_⟩
  · by_cases higher : node.currentTerm < term
    · by_cases active : node.role = .follower <;>
        simp [RaftNode.becomeFollower,RaftNode.pushIf,RaftNode.resetElectionDeadline,RaftNode.persistent,
          RaftPersistentState.persistAll,RaftPersistentState.persist,higher,active]
    · by_cases active : node.role = .follower <;>
        simp [RaftNode.becomeFollower,RaftNode.pushIf,RaftNode.resetElectionDeadline,RaftNode.persistent,
          RaftPersistentState.persistAll,RaftPersistentState.persist,higher,active]
  · split <;> split <;> simp [List.filter,Action.isPersist]

theorem others_plain (message : Message) (peers : List NodeId) :
    (peers.map (fun voter => Action.sendMessage voter message)).filter Action.isPersist = [] := by
  induction peers with
  | nil => rfl
  | cons peer rest ih => exact ih

theorem campaign_emits : ∃ new, Emits node node.campaign new := by
  refine ⟨_,by simp only [RaftNode.campaign,RaftNode.sendToOthers,RaftNode.push,RaftNode.pushIf,
    RaftNode.resetElectionDeadline,List.append_assoc]; rfl,?_,?_⟩
  · rw [← persistAll_filter,List.filter_append,List.filter_append,others_plain]
    by_cases active : node.role = .candidate <;>
      simp [RaftNode.campaign,RaftNode.sendToOthers,RaftNode.push,RaftNode.pushIf,RaftNode.resetElectionDeadline,
        RaftNode.persistent,RaftPersistentState.persistAll,List.filter,Action.isPersist,RaftPersistentState.persist,active]
  · rw [List.filter_append,List.filter_append,others_plain]
    split <;> simp [List.filter,Action.isPersist]

theorem persist_log (sound : Sound node) : node.persistent.persistAll [.persistLog fromIndex entries] =
    ⟨node.currentTerm,node.votedFor,node.durableSnapshot,node.log.tail.take (fromIndex-node.baseIndex-1) ++ entries⟩ := by
  show RaftPersistentState.mk _ _ _ (node.log.tail.take (fromIndex-node.persistent.baseIndex-1) ++ entries) = _
  rw [persistent_base sound]
  rfl

theorem append_emits (sound : Sound node) : Emits node (node.appendLocalEntry kind command)
    [.persistLog (node.lastLogIndex+1) [⟨node.lastLogIndex+1,node.currentTerm,kind,command⟩]] := by
  refine ⟨rfl,?_,Nat.le_refl _⟩
  rw [persist_log sound]
  have last := sound.last
  have whole : node.log.tail.take (node.lastLogIndex+1-node.baseIndex-1) = node.log.tail := by
    apply List.take_of_length_le
    rw [List.length_tail]
    omega
  rw [whole]
  simp only [RaftNode.appendLocalEntry,RaftNode.push,RaftNode.persistent]
  rw [List.tail_append_of_ne_nil sound.log.nonempty]

theorem replace_emits (sound : Sound node) (low : node.baseIndex < fromIndex) :
    Emits node (node.replaceSuffix fromIndex entries) [.persistLog fromIndex entries] := by
  refine ⟨rfl,?_,Nat.le_refl _⟩
  rw [persist_log sound]
  simp only [RaftNode.replaceSuffix,RaftNode.push,RaftNode.persistent]
  obtain ⟨rest,shape⟩ := sound.log.front
  rw [shape,show fromIndex-node.baseIndex = fromIndex-node.baseIndex-1+1 by omega]
  rfl

theorem install_emits (sound : Sound node) (forward : node.commitIndex < image.lastIncludedIndex)
    (suffix : Suffix node image rest) : Emits node (node.adoptImage image rest) [.persistSnapshot image,.applySnapshot image] := by
  have real : node.baseIndex < image.lastIncludedIndex := Nat.lt_of_le_of_lt sound.retained forward
  refine ⟨List.append_assoc ..,?_,Nat.le_refl _⟩
  have same : node.persistent.suffixAfter image = rest := by
    rcases suffix with ⟨has,rfl⟩ | ⟨lacks,rfl⟩
    · exact suffixAfter_has sound real has
    · exact suffixAfter_lacks sound real lacks
  show _ = RaftPersistentState.mk node.currentTerm node.votedFor (some image) (node.persistent.suffixAfter image)
  rw [same]
  rfl

theorem cut_emits (sound : Sound node) (forward : node.baseIndex < image.lastIncludedIndex)
    (has : HasAt node image.lastIncludedIndex image.lastIncludedTerm) :
    Emits node (node.cutLog image) [.persistSnapshot image] := by
  refine ⟨rfl,?_,Nat.le_refl _⟩
  show _ = RaftPersistentState.mk node.currentTerm node.votedFor (some image) (node.persistent.suffixAfter image)
  rw [suffixAfter_has sound forward has]
  rfl

theorem applied_plain (entries : List LogEntry) : (entries.map Action.applyEntry).filter Action.isPersist = [] := by
  induction entries with
  | nil => rfl
  | cons entry rest ih => exact ih

theorem commitTo_emits : ∃ new, Emits node (node.commitTo index) new :=
  ⟨_,emits_plain rfl rfl (applied_plain _)⟩

-- The persistence actions that a piece emits turn the durable projection of the
-- node before it into that of the node after it.
theorem move_emits (sound : Sound node) (move : Move packet offer node after) : ∃ new, Emits node after new := by
  cases move with
  | retime => exact ⟨_,emits_nothing rfl rfl⟩
  | raise | stepDown => exact becomeFollower_emits
  | follow => exact ⟨_,emits_nothing rfl rfl⟩
  | campaign => exact campaign_emits
  | grant => exact ⟨_,rfl,rfl,Nat.le_refl _⟩
  | countVote => exact ⟨_,emits_nothing rfl rfl⟩
  | elect => exact ⟨_,emits_plain rfl rfl rfl⟩
  | append => exact ⟨_,append_emits sound⟩
  | commit => exact commitTo_emits
  | sendSuffix | sendChunk => exact ⟨_,emits_plain rfl rfl rfl⟩
  | adjust | matchLog
  | matchImage => exact ⟨_,emits_nothing rfl rfl⟩
  | replace arrived joins => exact ⟨_,replace_emits sound (before_conflict joins).1⟩
  | learn => exact commitTo_emits
  | answerVote | refuseEntries | acceptEntries
  | refuseChunk | acceptChunk => exact ⟨_,emits_plain rfl rfl rfl⟩
  | begin | gather | discard => exact ⟨_,emits_nothing rfl rfl⟩
  | install arrived installs => exact ⟨_,install_emits sound installs.forward installs.suffix⟩
  | compact own asked calm forward applied current => exact ⟨_,cut_emits sound forward current⟩
  | refuse => exact ⟨_,emits_plain rfl rfl rfl⟩

end moves
end ForgeKv.Raft
