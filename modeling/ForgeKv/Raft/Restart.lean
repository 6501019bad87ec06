import ForgeKv.Raft.Durable

namespace ForgeKv.Raft
open Assoc

theorem validateLog_ok (valid : validateLog term expected previous entries = .ok ()) :
    Numbered expected entries ∧ entries.Pairwise (fun earlier later => earlier.term ≤ later.term) ∧
      ∀ entry ∈ entries, previous ≤ entry.term ∧ 0 < entry.term ∧ entry.term ≤ term := by
  induction entries generalizing expected previous with
  | nil => exact ⟨.nil,.nil,List.forall_mem_nil _⟩
  | cons entry rest ih =>
    unfold validateLog at valid
    split at valid
    · cases valid
    rename_i fine
    simp only [not_or,not_not,Nat.not_lt] at fine
    obtain ⟨index,positive,ordered,bounded⟩ := fine
    obtain ⟨numbered,sorted,all⟩ := ih valid
    refine ⟨.cons index numbered,List.pairwise_cons.mpr ⟨fun later member => (all later member).1,sorted⟩,?_⟩
    intro other member
    cases List.mem_cons.mp member with
    | inl first => rw [first]; exact ⟨ordered,Nat.pos_of_ne_zero positive,bounded⟩
    | inr later =>
      have := all other later
      omega

structure StateOk (config : RaftConfig) (persistent : RaftPersistentState) : Prop where
  vote : ∀ candidate, persistent.votedFor = some candidate → candidate ∈ config.voters ∧ 0 < persistent.currentTerm
  image : ∀ image, persistent.snapshot = some image →
    0 < image.lastIncludedIndex ∧ 0 < image.lastIncludedTerm ∧ image.lastIncludedTerm ≤ persistent.currentTerm
  log : validateLog persistent.currentTerm (persistent.baseIndex+1) persistent.baseTerm persistent.log = .ok ()

theorem validatePersistentState_ok (valid : validatePersistentState config persistent = .ok ()) : StateOk config persistent := by
  unfold validatePersistentState at valid
  by_cases early : persistent.currentTerm = 0 ∧ persistent.votedFor.isSome
  · rw [if_pos early] at valid
    cases valid
  rw [if_neg early] at valid
  have voted : ∀ candidate, persistent.votedFor = some candidate → candidate ∈ config.voters := by
    intro candidate found
    rw [found] at valid
    by_contra stranger
    simp only [stranger] at valid
    cases valid
  have rest : (if persistent.snapshot.isSome ∧ (persistent.baseIndex = 0 ∨ persistent.baseTerm = 0 ∨
      persistent.baseIndex = maxU64 ∨ persistent.currentTerm < persistent.baseTerm) then
        (.error (.invalidArgument "persistent Raft snapshot is invalid") : Except Fault Unit)
      else validateLog persistent.currentTerm (persistent.baseIndex+1) persistent.baseTerm persistent.log) = .ok () := by
    cases vote : persistent.votedFor with
    | none =>
      rw [vote] at valid
      exact valid
    | some candidate =>
      rw [vote] at valid
      simp only [voted candidate vote,not_true_eq_false,if_false] at valid
      exact valid
  split at rest
  · cases rest
  rename_i fine
  refine ⟨?_,?_,rest⟩
  · intro candidate found
    refine ⟨voted candidate found,Nat.pos_of_ne_zero (fun zero => early ⟨zero,?_⟩)⟩
    rw [found]
    rfl
  · intro image found
    simp only [found,Option.isSome_some,true_and,not_or,Nat.not_lt,RaftPersistentState.baseIndex,RaftPersistentState.baseTerm] at fine
    obtain ⟨index,positive,-,bounded⟩ := fine
    exact ⟨Nat.pos_of_ne_zero index,Nat.pos_of_ne_zero positive,bounded⟩

theorem base_boundary (persistent : RaftPersistentState) : persistent.baseIndex = (boundary persistent.snapshot).index := by
  unfold RaftPersistentState.baseIndex
  cases persistent.snapshot <;> rfl

theorem StateOk.logOk (ok : StateOk config persistent) : LogOk persistent.currentTerm persistent.snapshot
    (⟨persistent.baseIndex,persistent.baseTerm,.noOp,[]⟩::persistent.log) := by
  obtain ⟨numbered,sorted,all⟩ := validateLog_ok ok.log
  have front : (⟨persistent.baseIndex,persistent.baseTerm,.noOp,[]⟩ : LogEntry) = boundary persistent.snapshot := by
    unfold RaftPersistentState.baseIndex RaftPersistentState.baseTerm
    cases persistent.snapshot <;> rfl
  refine ⟨⟨_,congrArg (·::persistent.log) front⟩,?_,?_,?_,?_,?_⟩
  · exact fun image found => ⟨(ok.image image found).1,(ok.image image found).2.1⟩
  · rw [← base_boundary]; exact .cons rfl numbered
  · exact List.pairwise_cons.mpr ⟨fun later member => (all later member).1,sorted⟩
  · intro entry member
    cases List.mem_cons.mp member with
    | inr later => exact (all entry later).2.2
    | inl first =>
      rw [first]
      unfold RaftPersistentState.baseTerm
      cases found : persistent.snapshot with
      | none => exact Nat.zero_le _
      | some image => exact (ok.image image found).2.2
  · exact fun entry member => (all entry member).2.1

-- A created node is a sound follower with exactly the durable state it was given.
structure Created (config : RaftConfig) (persistent : RaftPersistentState) (node : RaftNode) : Prop where
  sound : Sound node
  config : node.config = config
  durable : node.persistent = persistent
  role : node.role = .follower
  commit : node.commitIndex = persistent.baseIndex
  actions : node.actions = []
  incoming : node.incomingSnapshot = none

def fresh (config : RaftConfig) (persistent : RaftPersistentState) (time : Nat) : RaftNode :=
  RaftNode.resetElectionDeadline
    {config := config
     role := .follower
     currentTerm := persistent.currentTerm
     votedFor := persistent.votedFor
     leaderId := none
     durableSnapshot := persistent.snapshot
     log := ⟨persistent.baseIndex,persistent.baseTerm,.noOp,[]⟩::persistent.log
     commitIndex := persistent.baseIndex
     lastApplied := persistent.baseIndex
     now := time
     electionDeadline := 0
     heartbeatDeadline := 0
     draws := 0
     votesReceived := ∅
     peerProgress := []
     incomingSnapshot := none
     nextRpcId := 1
     actions := []}

theorem fresh_created (valid : validateConfig config = .ok ()) (ok : StateOk config persistent) :
    Created config persistent (fresh config persistent time) := by
  have log := ok.logOk
  refine ⟨⟨valid,log,rfl,Nat.le_refl _,?_,ok.vote,?_,?_,fun _ => rfl,?_,Nat.one_pos,?_⟩,rfl,rfl,rfl,rfl,rfl,rfl⟩
  · -- The log reaches at least its own sentinel.
    have last := log.last_index ⟨0,0,.noOp,[]⟩
    rw [← base_boundary persistent,List.length_cons] at last
    have reached : persistent.baseIndex+1 ≤ persistent.baseIndex+(persistent.log.length+1) := by omega
    exact Nat.le_of_succ_le_succ (Nat.le_trans reached (Nat.le_of_eq last.symm))
  · intro leader wrong; cases wrong
  · intro wrong; cases wrong
  · intro wrong; cases wrong
  · intro peer progress wrong; cases wrong

theorem create_fresh (valid : validateConfig config = .ok ()) (fine : validatePersistentState config persistent = .ok ()) :
    RaftNode.create config persistent time = .ok (fresh config persistent time) := by
  have created : Created config persistent (fresh config persistent time) :=
    fresh_created valid (validatePersistentState_ok fine)
  have checked := checkInvariants_ok created.sound
  unfold RaftNode.create
  rw [valid,fine]
  simp only [bind,Except.bind]
  unfold fresh at checked
  rw [checked]
  rfl

theorem created_fresh (created : RaftNode.create config persistent time = .ok node) :
    validateConfig config = .ok () ∧ validatePersistentState config persistent = .ok () ∧ node = fresh config persistent time := by
  cases valid : validateConfig config with
  | error =>
    unfold RaftNode.create at created
    rw [valid] at created
    cases created
  | ok =>
  cases fine : validatePersistentState config persistent with
  | error =>
    unfold RaftNode.create at created
    rw [valid,fine] at created
    cases created
  | ok =>
  rw [create_fresh valid fine] at created
  cases created
  exact ⟨rfl,rfl,rfl⟩

theorem create_ok (created : RaftNode.create config persistent time = .ok node) : Created config persistent node := by
  obtain ⟨valid,fine,rfl⟩ := created_fresh created
  exact fresh_created valid (validatePersistentState_ok fine)

def soloConfig : RaftConfig :=
  {selfId := 1,voters := [1],electionTimeoutMin := 10,electionTimeoutMax := 20,heartbeatInterval := 1,
   electionTimeouts := fun _ => 10,maxAppendEntries := 4,maxAppendBytes := 64}

def trioConfig (selfId : NodeId) : RaftConfig :=
  {selfId := selfId,voters := [1,2,3],electionTimeoutMin := 10,electionTimeoutMax := 20,heartbeatInterval := 1,
   electionTimeouts := fun _ => 10,maxAppendEntries := 4,maxAppendBytes := 64}

-- A vote of term 1, a snapshot at index 1 and an entry behind it.
def votedState : RaftPersistentState := ⟨1,some 1,some ⟨1,1,[7]⟩,[⟨2,1,.command,[5]⟩]⟩

end ForgeKv.Raft
