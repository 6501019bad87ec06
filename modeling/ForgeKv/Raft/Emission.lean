import ForgeKv.Raft.Forward

namespace ForgeKv.Raft

-- Where the entries of a log update come from.
def Sourced (packet : Option (NodeId × Message)) (offer : Option Offer) (entries : List LogEntry) : Prop :=
  (∃ entry, entries = [entry] ∧ Content offer entry.kind entry.command) ∨
    ∃ source request before, packet = some (source,.appendEntries request) ∧ request.entries = before ++ entries

-- Where a new image comes from: the owner, for a prefix of the log, or a peer, for
-- more than what was committed when the call began.
def Imaged (floor : Nat) (packet : Option (NodeId × Message)) (offer : Option Offer) (state : RaftPersistentState)
    (image : StateMachineSnapshot) : Prop :=
  (offer = some (.image image) ∧ image.lastIncludedIndex ≤ state.baseIndex+state.log.length) ∨
    ∃ source request, packet = some (source,.installSnapshot request) ∧ floor < image.lastIncludedIndex ∧
      image.lastIncludedIndex = request.lastIncludedIndex ∧ image.stateMachine.length ≤ maximumSnapshotSize

-- What the core asks the store for fits the state that the store has then.
def Fits (floor : Nat) (packet : Option (NodeId × Message)) (offer : Option Offer) (state : RaftPersistentState) : Action → Prop
  | .persistHardState term votedFor =>
    state.currentTerm ≤ term ∧ (term = state.currentTerm → state.votedFor ≠ none → votedFor = state.votedFor)
  | .persistLog fromIndex entries =>
    entries ≠ [] ∧ state.baseIndex < fromIndex ∧ fromIndex ≤ state.baseIndex+state.log.length+1 ∧ Sourced packet offer entries
  | .persistSnapshot image =>
    state.baseIndex < image.lastIncludedIndex ∧ 0 < image.lastIncludedTerm ∧ image.lastIncludedTerm ≤ state.currentTerm ∧
      Imaged floor packet offer state image
  | _ => True

-- The durable part of a sound node.
structure Stable (config : RaftConfig) (state : RaftPersistentState) : Prop where
  log : LogOk state.currentTerm state.snapshot (boundary state.snapshot::state.log)
  vote : ∀ candidate, state.votedFor = some candidate → candidate ∈ config.voters ∧ 0 < state.currentTerm

-- The persistence actions of a call, in order, from one durable state to another,
-- through states that are `fine`.
inductive Asks (fine : RaftPersistentState → Prop) (floor : Nat) (packet : Option (NodeId × Message)) (offer : Option Offer) :
    RaftPersistentState → Actions → RaftPersistentState → Prop where
  | nil : Asks fine floor packet offer state [] state
  | cons (fits : Fits floor packet offer state action) (after : fine (state.persist action))
      (rest : Asks fine floor packet offer (state.persist action) actions final) :
      Asks fine floor packet offer state (action::actions) final

section moves
variable {node after : RaftNode} {fine : RaftPersistentState → Prop} {floor : Nat} {packet : Option (NodeId × Message)} {offer : Option Offer}

theorem Asks.append (first : Asks fine floor packet offer state actions middle)
    (second : Asks fine floor packet offer middle more final) : Asks fine floor packet offer state (actions ++ more) final := by
  induction first with
  | nil => exact second
  | cons fits after _ ih => exact .cons fits after (ih second)

theorem Asks.only (asks : Asks fine floor packet offer state [action] final) :
    Fits floor packet offer state action ∧ state.persist action = final := by
  cases asks with
  | cons fits _ rest =>
    cases rest
    exact ⟨fits,rfl⟩

theorem Asks.fits (asks : Asks fine floor packet offer state actions final) (begins : fine state) (member : action ∈ actions) :
    ∃ middle, fine middle ∧ Fits floor packet offer middle action := by
  induction asks with
  | nil => cases member
  | cons fits after rest ih =>
    rcases List.mem_cons.mp member with rfl | later
    · exact ⟨_,begins,fits⟩
    · exact ih after later

theorem sound_stable (sound : Sound node) : Stable node.config node.persistent := by
  refine ⟨?_,sound.vote⟩
  obtain ⟨rest,shape⟩ := sound.log.front
  have log := sound.log
  rw [shape] at log
  simp only [RaftNode.persistent,shape]
  exact log

theorem persistent_last (sound : Sound node) : node.persistent.baseIndex+node.persistent.log.length = node.lastLogIndex := by
  have last := sound.last
  have front := List.length_pos_iff.mpr sound.log.nonempty
  have length : node.persistent.log.length = node.log.length-1 := List.length_tail
  rw [persistent_base sound,length]
  omega

-- The image of a peer goes to the store and to the owner.
def Passed (offer : Option Offer) (actions : Actions) : Action → Prop
  | .persistSnapshot image => .applySnapshot image ∈ actions ∨ offer = some (.image image)
  | .applySnapshot image => .persistSnapshot image ∈ actions
  | _ => True

theorem Passed.mono (passed : Passed offer actions action) (within : ∀ other ∈ actions, other ∈ more) : Passed offer more action := by
  cases action with
  | persistSnapshot => exact passed.imp_left (within _)
  | applySnapshot => exact within _ passed
  | _ => trivial

def Action.matters : Action → Bool
  | .applySnapshot _ => true
  | action => action.isPersist

theorem applied_light (entries : List LogEntry) : (entries.map Action.applyEntry).filter Action.matters = [] := by
  induction entries with
  | nil => rfl
  | cons entry rest ih => exact ih

-- The new actions of a piece, each of which the state before the piece fits.
def Proposes (floor : Nat) (packet : Option (NodeId × Message)) (offer : Option Offer) (node after : RaftNode) : Prop :=
  ∃ new, after.actions = node.actions ++ new ∧ ∀ action ∈ new, Fits floor packet offer node.persistent action ∧ Passed offer new action

theorem Proposes.plain (actions : after.actions = node.actions ++ new) (plain : new.filter Action.matters = []) :
    Proposes floor packet offer node after := by
  refine ⟨new,actions,fun action member => ?_⟩
  have other := List.filter_eq_nil_iff.mp plain action member
  cases action with
  | persistHardState | persistLog | persistSnapshot | applySnapshot => exact absurd rfl other
  | _ => exact ⟨trivial,trivial⟩

theorem Proposes.silent (actions : after.actions = node.actions) : Proposes floor packet offer node after :=
  .plain (by rw [actions]; exact (List.append_nil _).symm) rfl

theorem Proposes.one (actions : after.actions = node.actions ++ [action]) (fits : Fits floor packet offer node.persistent action)
    (passed : Passed offer [action] action) : Proposes floor packet offer node after :=
  ⟨[action],actions,List.forall_mem_singleton.mpr ⟨fits,passed⟩⟩

theorem becomeFollower_proposes : Proposes floor packet offer node (node.becomeFollower term leader) := by
  obtain ⟨new,emitted,told⟩ := becomeFollower_tells
  refine ⟨new,emitted,fun action member => ?_⟩
  cases told action member with
  | role => exact ⟨trivial,trivial⟩
  | stored higher => exact ⟨⟨Nat.le_of_lt higher,fun same => absurd same (Nat.ne_of_gt higher)⟩,trivial⟩

theorem campaign_proposes : Proposes floor packet offer node node.campaign := by
  obtain ⟨new,emitted,told⟩ := campaign_tells
  refine ⟨new,emitted,fun action member => ?_⟩
  cases told action member with
  | role | asks => exact ⟨trivial,trivial⟩
  | stored => exact ⟨⟨Nat.le_succ _,fun same => absurd same (Nat.succ_ne_self _)⟩,trivial⟩

section
variable (sound : Sound node)
include sound

theorem append_proposes (content : Content offer kind command) :
    Proposes floor packet offer node (node.appendLocalEntry kind command) := by
  have last := persistent_last sound
  have low := sound.base_le_last
  refine .one rfl ⟨List.cons_ne_nil _ _,?_,?_,.inl ⟨_,rfl,content⟩⟩ trivial
  · rw [persistent_base sound]
    exact Nat.lt_succ_of_le low
  · exact Nat.le_of_eq (congrArg (· + 1) last.symm)

theorem replace_proposes (arrived : packet = some (source,.appendEntries request))
    (joins : Joins node source request before entry rest) :
    Proposes floor packet offer node (node.replaceSuffix entry.index (entry::rest)) := by
  obtain ⟨low,inside,-⟩ := before_conflict joins
  have last := persistent_last sound
  have length := sound.last
  refine .one rfl ⟨List.cons_ne_nil _ _,?_,?_,.inr ⟨source,request,before,arrived,joins.split⟩⟩ trivial
  · rw [persistent_base sound]
    exact low
  · omega

theorem install_proposes (arrived : packet = some (source,.installSnapshot request))
    (installs : Installs node source request incoming image rest) (later : floor ≤ node.commitIndex) :
    Proposes floor packet offer node (node.adoptImage image rest) := by
  have accepted := of_decide_eq_true installs.assembles.2
  have forward := installs.forward
  have fits : Fits floor packet offer node.persistent (.persistSnapshot image) := by
    refine ⟨?_,installs.positive,installs.bounded,.inr ⟨source,request,arrived,Nat.lt_of_le_of_lt later forward,installs.index,?_⟩⟩
    · rw [persistent_base sound]
      exact Nat.lt_of_le_of_lt sound.retained forward
    · rw [installs.bytes,List.length_append,accepted.2.2.2.2,installs.whole]
      exact installs.size
  refine ⟨[.persistSnapshot image,.applySnapshot image],List.append_assoc ..,?_⟩
  refine List.forall_mem_cons.mpr ⟨⟨fits,.inl ?_⟩,List.forall_mem_singleton.mpr ⟨trivial,List.mem_cons_self⟩⟩
  exact List.mem_cons_of_mem _ (List.mem_singleton_self _)

theorem cut_proposes (asked : offer = some (.image image)) (forward : node.baseIndex < image.lastIncludedIndex)
    (applied : image.lastIncludedIndex ≤ node.commitIndex) (current : HasAt node image.lastIncludedIndex image.lastIncludedTerm) :
    Proposes floor packet offer node (node.cutLog image) := by
  obtain ⟨-,entry,found,same⟩ := current
  have member : entry ∈ node.log.tail := by
    rw [← tail_get sound forward] at found
    exact List.mem_of_getElem? found
  refine .one rfl ⟨?_,?_,?_,.inl ⟨asked,?_⟩⟩ (.inr asked)
  · rw [persistent_base sound]
    exact forward
  · exact same ▸ sound.log.positive entry member
  · exact same ▸ sound.log.bounded entry (List.mem_of_mem_tail member)
  · rw [persistent_last sound]
    exact Nat.le_trans applied sound.reached

theorem move_proposes (later : floor ≤ node.commitIndex) (move : Move packet offer node after) :
    Proposes floor packet offer node after := by
  cases move with
  | raise | stepDown => exact becomeFollower_proposes
  | campaign => exact campaign_proposes
  | grant arrived voter positive term named free => exact .one rfl ⟨Nat.le_refl _,fun _ voted => absurd free voted⟩ trivial
  | append leads kind command content => exact append_proposes sound content
  | replace arrived joins => exact replace_proposes sound arrived joins
  | install arrived installs => exact install_proposes sound arrived installs later
  | compact own asked calm forward applied current => exact cut_proposes sound asked forward applied current
  | commit | learn => exact .plain rfl (applied_light _)
  | elect | sendSuffix | sendChunk | answerVote | refuseEntries | acceptEntries | refuseChunk | acceptChunk | refuse => exact .plain rfl rfl
  | _ => exact .silent rfl

theorem move_asks (later : floor ≤ node.commitIndex) (move : Move packet offer node after)
    (reached : fine after.persistent) : ∃ new, after.actions = node.actions ++ new ∧
      Asks fine floor packet offer node.persistent (new.filter Action.isPersist) after.persistent := by
  obtain ⟨new,actions,durable,single⟩ := move_emits sound move
  obtain ⟨same,actions',fits⟩ := move_proposes sound later move
  cases List.append_cancel_left (actions.symm.trans actions')
  refine ⟨new,actions,?_⟩
  rw [← persistAll_filter] at durable
  rw [durable] at reached ⊢
  match shape : new.filter Action.isPersist with
  | [] => exact .nil
  | [action] =>
    rw [shape] at reached
    refine .cons (fits action ?_).1 reached .nil
    exact (List.mem_filter.mp (shape ▸ List.mem_singleton_self action)).1
  | first::second::rest =>
    rw [shape] at single
    exact absurd single (by simp)

theorem moves_asks (calm : node.actions = []) (moves : Moves packet offer node after)
    (through : ∀ middle, Moves packet offer node middle → fine middle.persistent) :
    Asks fine node.commitIndex packet offer node.persistent (after.actions.filter Action.isPersist) after.persistent := by
  induction moves with
  | nil =>
    rw [calm]
    exact .nil
  | step earlier move ih =>
    have reached := (moves_underway sound calm earlier).forward.commit
    obtain ⟨new,actions,asks⟩ := move_asks (moves_sound sound earlier) reached move (through _ (earlier.step move))
    rw [actions,List.filter_append]
    exact ih.append asks

theorem call_asks (positive : input.Positive) (ran : node.call input = .ok (after,actions))
    (through : ∀ middle, Moves input.packet input.offer node.clearActions middle → fine middle.persistent) :
    Asks fine node.commitIndex input.packet input.offer node.persistent (actions.filter Action.isPersist) after.persistent := by
  obtain ⟨final,moves,rfl,rfl⟩ := call_returns sound positive ran
  have asked := moves_asks (clear_sound sound) rfl moves through
  exact asked

theorem moves_passed (calm : node.actions = []) (moves : Moves packet offer node after) :
    ∀ action ∈ after.actions, Passed offer after.actions action := by
  induction moves with
  | nil =>
    rw [calm]
    exact List.forall_mem_nil _
  | step earlier move ih =>
    obtain ⟨new,actions,fits⟩ := move_proposes (moves_sound sound earlier) (Nat.zero_le _) move
    rw [actions]
    intro action member
    rcases List.mem_append.mp member with old | added
    · exact (ih action old).mono fun other inside => List.mem_append_left _ inside
    · exact (fits action added).2.mono fun other inside => List.mem_append_right _ inside

theorem call_passed (positive : input.Positive) (ran : node.call input = .ok (after,actions))
    (member : action ∈ actions) : Passed input.offer actions action := by
  obtain ⟨final,moves,rfl,rfl⟩ := call_returns sound positive ran
  exact moves_passed (clear_sound sound) rfl moves _ member

theorem moves_stable (moves : Moves packet offer node after) : Stable node.config after.persistent := by
  rw [← moves_config moves]
  exact sound_stable (moves_sound sound moves)

end

theorem compact_returns (ran : node.call (.compact image) = .ok (after,actions)) :
    node.baseIndex < image.lastIncludedIndex ∧ after = (node.clearActions.cutLog image).clearActions := by
  simp only [RaftNode.call,RaftNode.compact] at ran
  split at ran
  · cases ran
  rename_i inside
  simp only [not_or,not_le] at inside
  refine ⟨inside.2.1,?_⟩
  cases read : node.clearActions.entryAt image.lastIncludedIndex with
  | error =>
    rw [read] at ran
    cases ran
  | ok =>
    rw [read] at ran
    simp only [bind,Except.bind] at ran
    split at ran
    · cases ran
    · unfold RaftNode.finish at ran
      cases checked : (node.clearActions.cutLog image).verifyInvariants with
      | error =>
        rw [checked] at ran
        cases ran
      | ok =>
        rw [checked] at ran
        cases ran
        rfl

theorem compact_accepts (sound : Sound node) (room : image.lastIncludedIndex ≠ maxU64) (newer : node.baseIndex < image.lastIncludedIndex)
    (applied : image.lastIncludedIndex ≤ node.lastApplied) (holds : Holds node entry) (index : entry.index = image.lastIncludedIndex)
    (term : entry.term = image.lastIncludedTerm) :
    node.call (.compact image) = .ok ((node.clearActions.cutLog image).clearActions,[.persistSnapshot image]) := by
  have sound' := clear_sound sound
  have same := sound.applied
  have reached := sound.reached
  have found : node.clearActions.log[image.lastIncludedIndex-node.clearActions.baseIndex]? = some entry := index ▸ holds.2
  obtain ⟨boundary,read,got,-⟩ := sound'.entryAt (show node.clearActions.baseIndex ≤ image.lastIncludedIndex from Nat.le_of_lt newer)
    (show image.lastIncludedIndex ≤ node.clearActions.lastLogIndex from by
      show image.lastIncludedIndex ≤ node.lastLogIndex
      omega)
  rw [found] at got
  cases got
  have cut : Move none (some (.image image)) node.clearActions (node.clearActions.cutLog image) :=
    .compact rfl rfl rfl newer (same ▸ applied) ⟨Nat.le_of_lt newer,entry,found,term⟩
  have inside : ¬ (image.lastIncludedIndex = maxU64 ∨ image.lastIncludedIndex ≤ node.clearActions.baseIndex ∨
      node.clearActions.lastApplied < image.lastIncludedIndex) := by
    rintro (full | old | ahead)
    · exact room full
    · exact Nat.not_lt.mpr old newer
    · exact Nat.not_lt.mpr applied ahead
  simp only [RaftNode.call,RaftNode.compact,if_neg inside,read,bind,Except.bind,term,ne_eq,not_true_eq_false,if_false]
  exact finish_ok (move_sound sound' cut)

end moves
end ForgeKv.Raft
