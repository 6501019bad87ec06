import ForgeKv.Raft.Incarnation

namespace ForgeKv.Raft
open Assoc

-- What never moves backward in a node. A committed entry stays where it is
-- until a snapshot covers it.
structure Forward (node after : RaftNode) : Prop where
  term : node.currentTerm ≤ after.currentTerm
  commit : node.commitIndex ≤ after.commitIndex
  applied : node.lastApplied ≤ after.lastApplied
  base : node.baseIndex ≤ after.baseIndex
  vote : ∀ candidate, node.votedFor = some candidate → after.currentTerm = node.currentTerm → after.votedFor = some candidate
  kept : ∀ entry, Holds node entry → entry.index ≤ node.commitIndex → Holds after entry ∨ entry.index ≤ after.baseIndex

-- The last index applied or installed, provided that each applied entry comes
-- right behind the index before it and each installed image lies above it.
def appliedFrom : Nat → Actions → Option Nat
  | applied,[] => some applied
  | applied,.applyEntry entry::rest => if entry.index = applied+1 then appliedFrom entry.index rest else none
  | applied,.applySnapshot snapshot::rest =>
    if applied < snapshot.lastIncludedIndex then appliedFrom snapshot.lastIncludedIndex rest else none
  | applied,_::rest => appliedFrom applied rest

def Action.applies : Action → Bool
  | .applyEntry _ | .applySnapshot _ => true
  | _ => false

variable {node after middle start : RaftNode}

theorem Forward.refl (node : RaftNode) : Forward node node :=
  ⟨Nat.le_refl _,Nat.le_refl _,Nat.le_refl _,Nat.le_refl _,fun _ voted _ => voted,fun _ holds _ => .inl holds⟩

theorem Forward.trans (first : Forward node middle) (second : Forward middle after) : Forward node after where
  term := Nat.le_trans first.term second.term
  commit := Nat.le_trans first.commit second.commit
  applied := Nat.le_trans first.applied second.applied
  base := Nat.le_trans first.base second.base
  vote := by
    intro candidate voted same
    have between : middle.currentTerm = node.currentTerm :=
      Nat.le_antisymm (same ▸ second.term) first.term
    exact second.vote candidate (first.vote candidate voted between) (same.trans between.symm)
  kept := by
    intro entry holds low
    cases first.kept entry holds low with
    | inl still => exact second.kept entry still (Nat.le_trans low first.commit)
    | inr covered => exact .inr (Nat.le_trans covered second.base)

theorem appliedFrom_append (applied : Nat) (actions more : Actions) :
    appliedFrom applied (actions ++ more) = (appliedFrom applied actions).bind (fun reached => appliedFrom reached more) := by
  induction actions generalizing applied with
  | nil => rfl
  | cons action rest ih =>
    cases action with
    | applyEntry =>
      simp only [List.cons_append,appliedFrom]
      split
      · exact ih _
      · rfl
    | applySnapshot =>
      simp only [List.cons_append,appliedFrom]
      split
      · exact ih _
      · rfl
    | _ => exact ih applied

theorem appliedFrom_published (applied : Nat) (actions : Actions) :
    appliedFrom applied (actions.filter (fun action => !action.isPersist)) = appliedFrom applied actions := by
  induction actions generalizing applied with
  | nil => rfl
  | cons action rest ih =>
    cases action with
    | applyEntry =>
      simp only [List.filter_cons,Action.isPersist,Bool.not_false,if_true,appliedFrom]
      split
      · exact ih _
      · rfl
    | applySnapshot =>
      simp only [List.filter_cons,Action.isPersist,Bool.not_false,if_true,appliedFrom]
      split
      · exact ih _
      · rfl
    | _ => exact ih applied

theorem appliedFrom_idle (idle : ∀ action ∈ actions, action.applies = false) : appliedFrom applied actions = some applied := by
  induction actions with
  | nil => rfl
  | cons action rest ih =>
    have later := ih (fun other member => idle other (List.mem_cons_of_mem _ member))
    have first := idle action List.mem_cons_self
    cases action with
    | applyEntry | applySnapshot => cases first
    | _ => exact later

theorem appliedFrom_entries (numbered : Numbered (applied+1) entries) :
    appliedFrom applied (entries.map .applyEntry) = some (applied+entries.length) := by
  induction entries generalizing applied with
  | nil => rfl
  | cons entry rest ih =>
    have first : entry.index = applied+1 := numbered 0 entry rfl
    simp only [List.map_cons,appliedFrom,first,if_pos]
    rw [ih numbered.tail,List.length_cons,Nat.add_assoc,Nat.add_comm 1]

-- What one piece of a call does: its new actions, and that the entries it applies
-- are committed entries of the log. Only a piece that comes before any commit
-- report of the call moves the base.
structure Advance (node after : RaftNode) (new : Actions) : Prop where
  forward : Forward node after
  actions : after.actions = node.actions ++ new
  order : appliedFrom node.lastApplied new = some after.lastApplied
  shown : ∀ entry, .applyEntry entry ∈ new → ¬ Quiet new ∧ Holds after entry ∧ entry.index ≤ after.commitIndex
  base : after.baseIndex = node.baseIndex ∨ Quiet node.actions

theorem Advance.idle (log : ∀ entry, Holds node entry → entry.index ≤ node.commitIndex → Holds after entry)
    (base : after.baseIndex = node.baseIndex) (commit : after.commitIndex = node.commitIndex)
    (applied : after.lastApplied = node.lastApplied) (term : node.currentTerm ≤ after.currentTerm)
    (vote : ∀ candidate, node.votedFor = some candidate → after.currentTerm = node.currentTerm → after.votedFor = some candidate)
    (actions : after.actions = node.actions ++ new) (idle : ∀ action ∈ new, action.applies = false) :
    Advance node after new where
  forward := ⟨term,Nat.le_of_eq commit.symm,Nat.le_of_eq applied.symm,Nat.le_of_eq base.symm,vote,
    fun entry holds low => .inl (log entry holds low)⟩
  actions := actions
  order := by rw [appliedFrom_idle idle,applied]
  shown := by
    intro entry member
    cases idle _ member
  base := .inl base

theorem Advance.steady (log : after.log = node.log) (commit : after.commitIndex = node.commitIndex)
    (applied : after.lastApplied = node.lastApplied) (term : after.currentTerm = node.currentTerm)
    (vote : after.votedFor = node.votedFor) (actions : after.actions = node.actions ++ new)
    (idle : ∀ action ∈ new, action.applies = false) : Advance node after new := by
  have base : after.baseIndex = node.baseIndex := by
    unfold RaftNode.baseIndex RaftNode.frontEntry
    rw [log]
  refine .idle (fun entry holds _ => ?_) base commit applied (Nat.le_of_eq term.symm) ?_ actions idle
  · unfold Holds
    rw [base,log]
    exact holds
  · intro candidate voted _
    rw [vote]
    exact voted

theorem becomeFollower_advance (higher : node.currentTerm ≤ term) : ∃ new, Advance node (node.becomeFollower term leader) new := by
  obtain ⟨new,emitted,told⟩ := becomeFollower_tells
  refine ⟨new,.idle (fun _ holds _ => holds) rfl rfl rfl ?_ ?_ emitted fun action member => ?_⟩
  · simp only [RaftNode.becomeFollower,RaftNode.pushIf,RaftNode.resetElectionDeadline]
    split
    · exact higher
    · exact Nat.le_refl _
  · intro candidate voted same
    simp only [RaftNode.becomeFollower,RaftNode.pushIf,RaftNode.resetElectionDeadline] at same ⊢
    split at same
    · rename_i raised
      have raised := of_decide_eq_true raised
      omega
    · rename_i kept
      rw [if_neg kept]
      exact voted
  · cases told action member <;> rfl

theorem campaign_advance : ∃ new, Advance node node.campaign new := by
  obtain ⟨new,emitted,told⟩ := campaign_tells
  refine ⟨new,.idle (fun _ holds _ => holds) rfl rfl rfl (Nat.le_succ _) ?_ emitted fun action member => ?_⟩
  · intro candidate _ same
    exact absurd same (Nat.succ_ne_self _)
  · cases told action member <;> rfl

theorem append_advance (sound : Sound node) : ∃ new, Advance node (node.appendLocalEntry kind command) new := by
  refine ⟨_,.idle ?_ (append_base sound) rfl rfl (Nat.le_refl _) (fun _ voted _ => voted) rfl ?_⟩
  · intro entry holds _
    refine ⟨append_base sound ▸ holds.1,?_⟩
    rw [append_base sound]
    exact (List.getElem?_append_left holds.position).trans holds.2
  · intro action member
    rw [List.mem_singleton.mp member]
    rfl

theorem replace_advance (sound : Sound node) (joins : Joins node source request before entry rest)
    (conflict : node.commitIndex < entry.index) : ∃ new, Advance node (node.replaceSuffix entry.index (entry::rest)) new := by
  obtain ⟨-,base⟩ := replace_last sound joins
  refine ⟨_,.idle ?_ base rfl rfl (Nat.le_refl _) (fun _ voted _ => voted) rfl ?_⟩
  · intro other holds low
    have retained := holds.1
    refine ⟨base ▸ retained,?_⟩
    rw [base,replace_keeps joins (by omega)]
    exact holds.2
  · intro action member
    rw [List.mem_singleton.mp member]
    rfl

theorem commitTo_advance (sound : Sound node) (forward : node.commitIndex < index) (reached : index ≤ node.lastLogIndex) :
    ∃ new, Advance node (node.commitTo index) new := by
  have applied := sound.applied
  have retained := sound.retained
  have last := sound.last
  refine ⟨_,⟨Nat.le_refl _,Nat.le_of_lt forward,?_,Nat.le_refl _,fun _ voted _ => voted,fun _ holds _ => .inl holds⟩,rfl,?_,?_,.inl rfl⟩
  · rw [applied]
    exact Nat.le_of_lt forward
  · have numbered : Numbered (node.lastApplied+1)
        ((node.log.drop (node.lastApplied+1-node.baseIndex)).take (index-node.lastApplied)) := by
      have whole := (sound.log.numbered.drop (node.lastApplied+1-node.baseIndex)).take (index-node.lastApplied)
      rw [← sound.base] at whole
      rwa [show node.baseIndex+(node.lastApplied+1-node.baseIndex) = node.lastApplied+1 by omega] at whole
    have size : ((node.log.drop (node.lastApplied+1-node.baseIndex)).take (index-node.lastApplied)).length =
        index-node.lastApplied := by
      rw [List.length_take,List.length_drop]
      omega
    refine (appliedFrom_entries numbered).trans ?_
    show some _ = some index
    congr 1
    omega
  · intro entry member
    refine ⟨fun quiet => quiet _ _ List.mem_cons_self,?_⟩
    cases List.mem_cons.mp member with
    | inl wrong => cases wrong
    | inr present =>
      obtain ⟨other,inside,same⟩ := List.mem_map.mp present
      cases same
      exact applied_entry sound inside

theorem install_advance {image : StateMachineSnapshot} (sound : Sound node) (quiet : Quiet node.actions)
    (forward : node.commitIndex < image.lastIncludedIndex)
    (commit : (node.adoptImage image rest).commitIndex = image.lastIncludedIndex) :
    ∃ new, Advance node (node.adoptImage image rest) new := by
  have applied := sound.applied
  have retained := sound.retained
  refine ⟨[.persistSnapshot image,.applySnapshot image],⟨Nat.le_refl _,?_,?_,?_,fun _ voted _ => voted,?_⟩,
    List.append_assoc ..,?_,?_,.inr quiet⟩
  · rw [commit]
    exact Nat.le_of_lt forward
  · show node.lastApplied ≤ image.lastIncludedIndex
    omega
  · show node.baseIndex ≤ image.lastIncludedIndex
    omega
  · intro entry _ low
    exact .inr (Nat.le_trans low (Nat.le_of_lt forward))
  · exact if_pos (applied ▸ forward)
  · intro entry member
    simp at member

theorem cut_advance {image : StateMachineSnapshot} (quiet : Quiet node.actions)
    (forward : node.baseIndex < image.lastIncludedIndex) : ∃ new, Advance node (node.cutLog image) new := by
  refine ⟨[.persistSnapshot image],⟨Nat.le_refl _,Nat.le_refl _,Nat.le_refl _,Nat.le_of_lt forward,fun _ voted _ => voted,?_⟩,
    rfl,rfl,?_,.inr quiet⟩
  · intro entry holds _
    by_cases covered : entry.index ≤ image.lastIncludedIndex
    · exact .inr covered
    · refine .inl ⟨Nat.not_le.mp covered,?_⟩
      obtain ⟨place,equal⟩ := Nat.exists_eq_add_of_lt (Nat.not_le.mp covered)
      show (RaftNode.sentinel image::node.log.drop (image.lastIncludedIndex-node.baseIndex+1))[entry.index-image.lastIncludedIndex]? = _
      rw [show entry.index-image.lastIncludedIndex = place+1 by omega,List.getElem?_cons_succ,List.getElem?_drop,
        show image.lastIncludedIndex-node.baseIndex+1+place = entry.index-node.baseIndex by omega]
      exact holds.2
  · intro entry member
    simp at member

theorem move_advance (sound : Sound node) (move : Move packet offer node after) : ∃ new, Advance node after new := by
  have one : ∀ {action : Action}, action.applies = false → ∀ other ∈ [action], other.applies = false := by
    intro action idle other member
    rw [List.mem_singleton.mp member]
    exact idle
  cases move with
  | raise arrived calm higher => exact becomeFollower_advance (Nat.le_of_lt higher)
  | stepDown => exact becomeFollower_advance (Nat.le_refl _)
  | campaign => exact campaign_advance
  | grant arrived voter positive term named free =>
    refine ⟨_,.idle (fun _ holds _ => holds) rfl rfl rfl (Nat.le_refl _) ?_ rfl (one rfl)⟩
    intro candidate voted _
    rw [free] at voted
    cases voted
  | append => exact append_advance sound
  | commit leads forward reached => exact commitTo_advance sound forward reached
  | learn arrived accepts held forward offered covered =>
    exact commitTo_advance sound forward (Nat.le_trans covered (learn_reached sound accepts held))
  | replace arrived joins conflict =>
    refine replace_advance sound joins (conflict.elim ?_ And.left)
    exact fun behind => Nat.lt_of_le_of_lt sound.reached behind
  | install arrived installs =>
    exact install_advance sound installs.quiet installs.forward (adoptImage_sound sound installs).2
  | compact own asked calm forward => exact cut_advance (.calm calm) forward
  | elect | sendSuffix | sendChunk | answerVote | refuseEntries | acceptEntries | refuseChunk | acceptChunk | refuse => exact ⟨_,.steady rfl rfl rfl rfl rfl rfl (one rfl)⟩
  | _ => exact ⟨_,.steady rfl rfl rfl rfl rfl (List.append_nil _).symm (List.forall_mem_nil _)⟩

-- A call seen from its start: `begun` is the node that entered it.
structure Underway (begun node : RaftNode) : Prop where
  forward : Forward begun node
  order : appliedFrom begun.lastApplied node.actions = some node.lastApplied
  shown : ∀ entry, .applyEntry entry ∈ node.actions →
    ¬ Quiet node.actions ∧ Holds node entry ∧ entry.index ≤ node.commitIndex

theorem Underway.advance (under : Underway start node) (step : Advance node after new) : Underway start after where
  forward := under.forward.trans step.forward
  order := by rw [step.actions,appliedFrom_append,under.order]; exact step.order
  shown := by
    intro entry member
    rw [step.actions] at member ⊢
    rcases List.mem_append.mp member with old | fresh
    · obtain ⟨loud,holds,low⟩ := under.shown entry old
      refine ⟨fun quiet => loud (fun _ _ inside => quiet _ _ (List.mem_append_left _ inside)),?_,
        Nat.le_trans low step.forward.commit⟩
      -- The base stays where it is once a commit was reported.
      refine (step.forward.kept entry holds low).resolve_right fun covered => ?_
      rw [step.base.resolve_right loud] at covered
      exact Nat.not_le.mpr holds.1 covered
    · obtain ⟨loud,holds,low⟩ := step.shown entry fresh
      exact ⟨fun quiet => loud (fun _ _ inside => quiet _ _ (List.mem_append_right _ inside)),holds,low⟩

theorem moves_underway (sound : Sound node) (calm : node.actions = []) (moves : Moves packet offer node after) : Underway node after := by
  induction moves with
  | nil =>
    refine ⟨.refl _,by rw [calm]; rfl,fun entry member => ?_⟩
    rw [calm] at member
    cases member
  | step earlier move ih =>
    obtain ⟨new,step⟩ := move_advance (moves_sound sound earlier) move
    exact ih.advance step

theorem call_forward (sound : Sound node) (positive : input.Positive) (ran : node.call input = .ok (after,actions)) :
    Forward node after ∧ appliedFrom node.lastApplied actions = some after.lastApplied ∧
      ∀ entry, .applyEntry entry ∈ actions → Holds after entry ∧ entry.index ≤ after.commitIndex := by
  obtain ⟨final,moves,rfl,rfl⟩ := call_returns sound positive ran
  obtain ⟨forward,order,shown⟩ := moves_underway (clear_sound sound) rfl moves
  exact ⟨{forward with},order,fun entry member => (shown entry member).2⟩

theorem Untouched.forward (untouched : Untouched node after) : Forward node after := by
  have base : after.baseIndex = node.baseIndex := by
    unfold RaftNode.baseIndex RaftNode.frontEntry
    rw [untouched.log]
  refine ⟨Nat.le_of_eq untouched.term.symm,Nat.le_of_eq untouched.commit.symm,Nat.le_of_eq untouched.applied.symm,
    Nat.le_of_eq base.symm,?_,?_⟩
  · intro candidate voted _
    rw [untouched.vote]
    exact voted
  · intro entry holds _
    refine .inl ?_
    unfold Holds
    rw [base,untouched.log]
    exact holds

theorem runs_forward (sound : Sound start) (runs : Runs start emitted node) :
    Forward start node ∧ appliedFrom start.lastApplied emitted = some node.lastApplied := by
  induction runs with
  | nil => exact ⟨.refl _,rfl⟩
  | returned earlier arrives ran ih =>
    obtain ⟨forward,order,-⟩ := call_forward (runs_sound sound earlier) arrives.positive ran
    refine ⟨ih.1.trans forward,?_⟩
    rw [appliedFrom_append,ih.2]
    exact order
  | threw earlier arrives ran ih =>
    obtain ⟨-,untouched,-⟩ := call_throws (runs_sound sound earlier) arrives.positive ran
    refine ⟨ih.1.trans untouched.forward,?_⟩
    rw [untouched.applied]
    exact ih.2

theorem Runs.append (first : Runs start emitted node) (second : Runs node more after) : Runs start (emitted ++ more) after := by
  induction second with
  | nil => simpa using first
  | returned earlier arrives ran ih =>
    rw [← List.append_assoc]
    exact .returned ih arrives ran
  | threw earlier arrives ran ih => exact .threw ih arrives ran

-- Between any two moments of one node's life nothing moves backward, whoever
-- sends what; and the applies of the whole life are in order, each showing the
-- committed entry that the log has at its index.
theorem node_never_goes_backward (created : RaftNode.create config persistent time = .ok start)
    (before : Runs start emitted middle) (later : Runs middle more node) :
    Forward middle node ∧ appliedFrom start.lastApplied (emitted ++ more) = some node.lastApplied ∧
      ∀ input after actions, input.Arrives → node.call input = .ok (after,actions) →
        ∀ entry, .applyEntry entry ∈ actions → Holds after entry ∧ entry.index ≤ after.commitIndex := by
  have sound := (create_ok created).sound
  have between := runs_sound sound before
  refine ⟨(runs_forward between later).1,(runs_forward sound (before.append later)).2,?_⟩
  intro input after actions arrives ran
  exact (call_forward (runs_sound between later) arrives.positive ran).2.2

-- A single voter wins its first election and then takes a proposal.
def soloLeader : RaftNode × Actions := (fresh soloConfig .empty 0).returns (.advanceTime 10)
def soloProposal : RaftNode × Actions := soloLeader.1.returns (.propose [7])

theorem node_never_goes_backward_solo : soloLeader.1.commitIndex = 1 ∧ soloProposal.1.commitIndex = 2 ∧
    Forward soloLeader.1 soloProposal.1 ∧ appliedFrom 0 (soloLeader.2 ++ soloProposal.2) = some 2 := by
  have elected : Runs (fresh soloConfig .empty 0) ([] ++ soloLeader.2) soloLeader.1 :=
    .returned .nil (show Input.Arrives (.advanceTime 10) from trivial) rfl
  have proposed : Runs soloLeader.1 ([] ++ soloProposal.2) soloProposal.1 :=
    .returned .nil (show Input.Arrives (.propose [7]) from trivial) rfl
  obtain ⟨forward,order,-⟩ := node_never_goes_backward (create_fresh rfl rfl) elected proposed
  exact ⟨rfl,rfl,forward,order⟩

end ForgeKv.Raft
