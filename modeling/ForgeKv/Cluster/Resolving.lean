import ForgeKv.Cluster.Service
import ForgeKv.Raft.Leadership

namespace ForgeKv.Cluster
open Raft RaftStorage Persisted
open Procedure (Ensures Meets)

namespace OwnerState

-- How often a promise waits in the two tables.
def waits (pending : Table Nat PendingMutation) (reads : Table Nat (List PendingRead)) (completion : Completion) : Nat :=
  pending.total (fun _ mutation => [mutation.completion].count completion)+
    reads.total (fun _ reads => (reads.map PendingRead.completion).count completion)

-- How often a promise was set or waits.
def tally (owner : OwnerState) (completion : Completion) : Nat :=
  (owner.answers.map Prod.fst).count completion+waits owner.pending owner.pendingReads completion

-- A key of one of the two tables.
def Waiting (owner : OwnerState) (index : Nat) : Prop :=
  (owner.pending.find? index).isSome ∨ (owner.pendingReads.find? index).isSome

def Redirected (owner : OwnerState) (completion : Completion) (result : ClientResult) : Prop :=
  (completion,.result result) ∈ owner.answers ∧ result.status = .redirect

-- Promises that waited were set, and none of them to a redirect.
structure Resolves (owner after : OwnerState) : Prop where
  tally : ∀ completion, after.tally completion = owner.tally completion
  waiting : ∀ index, after.Waiting index → owner.Waiting index
  size : after.pendingReads.size ≤ owner.pendingReads.size
  redirected : ∀ completion result, after.Redirected completion result → owner.Redirected completion result
  config : after.config = owner.config
  proposal : after.activeProposalIndex = owner.activeProposalIndex
  barrier : after.activeReadBarrierIndex = owner.activeReadBarrierIndex

theorem Resolves.refl (owner : OwnerState) : Resolves owner owner :=
  ⟨fun _ => rfl,fun _ waiting => waiting,Nat.le_refl _,fun _ _ told => told,rfl,rfl,rfl⟩

theorem Resolves.trans {owner middle after : OwnerState} (one : Resolves owner middle) (two : Resolves middle after) : Resolves owner after :=
  ⟨fun completion => (two.tally completion).trans (one.tally completion),fun index waiting => one.waiting index (two.waiting index waiting),
    Nat.le_trans two.size one.size,fun completion result told => one.redirected completion result (two.redirected completion result told),
    two.config.trans one.config,two.proposal.trans one.proposal,two.barrier.trans one.barrier⟩

section resolves
variable {owner : OwnerState}

theorem tell_answers {told : List (Completion × ClientResult)} :
    (owner.tell told).answers.map Prod.fst = owner.answers.map Prod.fst ++ told.map Prod.fst := by
  simp [tell,Function.comp_def]

theorem resolves_told {told : List (Completion × ClientResult)} {pending : Table Nat PendingMutation} {reads : Table Nat (List PendingRead)}
    (counted : ∀ completion, (told.map Prod.fst).count completion+waits pending reads completion =
      waits owner.pending owner.pendingReads completion)
    (mutations : ∀ index, (pending.find? index).isSome → (owner.pending.find? index).isSome)
    (barriers : ∀ index, (reads.find? index).isSome → (owner.pendingReads.find? index).isSome)
    (size : reads.size ≤ owner.pendingReads.size) (plain : ∀ answer ∈ told, answer.2.status ≠ .redirect) :
    Resolves owner {owner.tell told with pending := pending,pendingReads := reads} := by
  refine ⟨fun completion => ?_,fun index waiting => waiting.imp (mutations index) (barriers index),size,?_,rfl,rfl,rfl⟩
  · have sum := counted completion
    have answers : ({owner.tell told with pending := pending,pendingReads := reads} : OwnerState).answers.map Prod.fst =
        owner.answers.map Prod.fst ++ told.map Prod.fst := tell_answers
    unfold tally
    rw [answers,List.count_append]
    exact (Nat.add_assoc ..).trans (congrArg _ sum)
  · rintro completion result ⟨member,redirect⟩
    refine ⟨(List.mem_append.mp member).resolve_right fun new => ?_,redirect⟩
    obtain ⟨answer,among,same⟩ := List.mem_map.mp new
    cases same
    exact plain answer among redirect

theorem failPending_resolves (plain : status ≠ .redirect) : Resolves owner (owner.failPending status) := by
  refine resolves_told (fun completion => ?_) (by simp) (by simp) (Nat.zero_le _) ?_
  · have mutations : (owner.pending.bindings.map (fun binding => binding.2.completion)).count completion =
        owner.pending.total (fun _ mutation => [mutation.completion].count completion) := by
      unfold Table.total
      induction owner.pending.bindings with
      | nil => rfl
      | cons binding rest ih =>
        rw [List.map_cons,List.map_cons,List.sum_cons,← ih,← List.count_append]
        rfl
    have reads : (owner.pendingReads.bindings.flatMap (fun binding => binding.2.map PendingRead.completion)).count completion =
        owner.pendingReads.total (fun _ reads => (reads.map PendingRead.completion).count completion) := List.count_flatMap ..
    simp only [List.map_append,List.map_map,List.map_flatMap,List.count_append,Function.comp_def]
    rw [mutations,reads]
    rfl
  · intro answer member
    rcases List.mem_append.mp member with mutation | read
    · obtain ⟨binding,-,rfl⟩ := List.mem_map.mp mutation
      exact plain
    · obtain ⟨binding,-,inner⟩ := List.mem_flatMap.mp read
      obtain ⟨-,-,rfl⟩ := List.mem_map.mp inner
      exact plain

theorem expirePendingReads_resolves : Resolves owner (owner.expirePendingReads time) := by
  refine resolves_told (fun completion => ?_) (fun _ found => found) (fun index found => ?_) (Nat.le_of_eq (by simp [Table.size,Table.mapValues])) ?_
  · have split : ∀ reads : List PendingRead, ((reads.filter (owner.expired time)).map PendingRead.completion).count completion+
        ((reads.filter (fun read => !owner.expired time read)).map PendingRead.completion).count completion =
          (reads.map PendingRead.completion).count completion := by
      intro reads
      rw [← List.count_append,← List.map_append]
      exact ((List.filter_append_perm _ reads).map _).count_eq _
    have gone : ((owner.pendingReads.bindings.flatMap (fun binding =>
        (binding.2.filter (owner.expired time)).map PendingRead.completion)).count completion) =
          owner.pendingReads.total (fun _ reads => ((reads.filter (owner.expired time)).map PendingRead.completion).count completion) :=
      List.count_flatMap ..
    unfold waits
    rw [Table.total_mapValues]
    simp only [List.map_flatMap,List.map_map,Function.comp_def]
    rw [gone,Nat.add_left_comm]
    rw [Table.total_add]
    simp only [split]
    rfl
  · rw [Table.find?_mapValues] at found
    simpa using found
  · intro answer member
    obtain ⟨binding,-,inner⟩ := List.mem_flatMap.mp member
    obtain ⟨-,-,rfl⟩ := List.mem_map.mp inner
    simp [plainResult]

theorem resolves_reads {results : PendingRead → ClientResult} (found : owner.pendingReads.find? index = some reads)
    (plain : ∀ read ∈ reads, (results read).status ≠ .redirect) :
    Resolves owner {owner.tell (reads.map (fun read => (read.completion,results read))) with pendingReads := owner.pendingReads.erase index} := by
  refine resolves_told (fun completion => ?_) (fun _ found => found) (fun other there => ?_) Table.size_erase_le ?_
  · unfold waits
    rw [Table.total_erase found,List.map_map,Nat.add_left_comm]
    rfl
  · by_cases same : other = index
    · simp [same] at there
    · rwa [Table.find?_erase_of_ne same] at there
  · intro answer member
    obtain ⟨read,among,rfl⟩ := List.mem_map.mp member
    exact plain read among

theorem resolves_mutation (found : owner.pending.find? index = some mutation) (plain : result.status ≠ .redirect) :
    Resolves owner {owner.tell [(mutation.completion,result)] with pending := owner.pending.erase index} := by
  refine resolves_told (fun completion => ?_) (fun other there => ?_) (fun _ found => found) (Nat.le_refl _) ?_
  · unfold waits
    rw [Table.total_erase found,← Nat.add_assoc]
    rfl
  · by_cases same : other = index
    · simp [same] at there
    · rwa [Table.find?_erase_of_ne same] at there
  · intro answer member
    rw [List.mem_singleton.mp member]
    exact plain

theorem readResult_plain {read : PendingRead} : (owner.readResult read).status ≠ .redirect := by
  unfold readResult
  repeat' split
  all_goals simp [plainResult]

theorem mutationResult_plain : (mutationResult mutation command result).status ≠ .redirect := by
  unfold mutationResult
  split
  · simp [plainResult]
  · unfold mutationStatus
    split <;> simp

theorem answerReads_resolves : Resolves owner (owner.answerReads index) := by
  unfold answerReads
  split
  · exact .refl owner
  · rename_i reads found
    exact resolves_reads found fun _ _ => readResult_plain

theorem answerMutation_resolves : Resolves owner (owner.answerMutation entry result) := by
  unfold answerMutation
  split
  · exact .refl owner
  · rename_i mutation found
    exact resolves_mutation found mutationResult_plain

theorem sendMessage_resolves : Resolves owner (owner.sendMessage target message) := by
  unfold sendMessage
  repeat' split
  all_goals exact ⟨fun _ => rfl,fun _ waiting => waiting,Nat.le_refl _,fun _ _ told => told,rfl,rfl,rfl⟩

theorem maybeStartSnapshot_resolves : Resolves owner (owner.maybeStartSnapshot index term) := by
  unfold maybeStartSnapshot
  split
  · exact .refl owner
  · exact ⟨fun _ => rfl,fun _ waiting => waiting,Nat.le_refl _,fun _ _ told => told,rfl,rfl,rfl⟩

theorem applyEntry_resolves (entry : LogEntry) : Meets (fun after => Resolves owner after ∧ after.role = owner.role) (fun _ _ => True)
    (onAction (.applyEntry entry) owner) := by
  have applied : Meets (fun after => Resolves owner after ∧ after.role = owner.role) (fun _ _ => True) (applyEntry entry owner) := by
    unfold applyEntry
    split
    · refine ⟨answerReads_resolves,?_⟩
      unfold answerReads
      split <;> rfl
    · split
      · trivial
      · split
        · trivial
        · rename_i machine result applied
          have moved : Resolves owner {owner with machine := machine} :=
            ⟨fun _ => rfl,fun _ waiting => waiting,Nat.le_refl _,fun _ _ told => told,rfl,rfl,rfl⟩
          refine ⟨moved.trans answerMutation_resolves,?_⟩
          unfold answerMutation
          split <;> rfl
  refine applied.andThen fun middle ⟨resolves,role⟩ => ⟨resolves.trans maybeStartSnapshot_resolves,?_⟩
  obtain same | ⟨-,-,started⟩ := maybeStartSnapshot_either entry.index entry.term middle
  · exact (congrArg OwnerState.role same).trans role
  · exact (congrArg OwnerState.role started).trans role

theorem applySnapshot_resolves (snapshot : StateMachineSnapshot) : Meets (fun after => Resolves owner after ∧ after.role = owner.role)
    (fun _ _ => True) (onAction (.applySnapshot snapshot) owner) := by
  obtain ⟨failure,ran⟩ | ⟨state,machine,-,-,ran⟩ :=
    restoreImage_either "installed invalid state-machine snapshot: " snapshot.stateMachine owner
  · simp only [onAction,applySnapshot,Procedure.andThen,ran]
    trivial
  · simp only [onAction,applySnapshot,Procedure.andThen,ran]
    have moved : Resolves owner {owner with machine := machine,lastSnapshotIndex := snapshot.lastIncludedIndex} :=
      ⟨fun _ => rfl,fun _ waiting => waiting,Nat.le_refl _,fun _ _ told => told,rfl,rfl,rfl⟩
    exact ⟨moved.trans (failPending_resolves (by decide)),rfl⟩

theorem roleChanged_resolves : Resolves owner (owner.roleChanged newRole leader) := by
  have moved : Resolves owner {owner with role := newRole,leaderId := leader} :=
    ⟨fun _ => rfl,fun _ waiting => waiting,Nat.le_refl _,fun _ _ told => told,rfl,rfl,rfl⟩
  unfold roleChanged
  split
  · exact moved.trans (failPending_resolves (by decide))
  · exact moved

theorem proposalRejected_idle (proposal : owner.activeProposalIndex = none) (barrier : owner.activeReadBarrierIndex = none) :
    owner.proposalRejected = owner := by
  unfold proposalRejected
  rw [proposal,barrier]

-- What waits in the middle of a call of the core that has returned, with these
-- actions still to come: keys above the log are there only up to a step down.
structure Awaited (core : RaftNode) (rest : Actions) (owner : OwnerState) : Prop where
  role : roleAfter owner.role rest = core.role
  idle : owner.role ≠ .leader → ∀ index, ¬ owner.Waiting index
  held : (∃ action ∈ rest, action.demotes = true) ∨ ∀ index, owner.Waiting index → index ≤ core.lastLogIndex
  room : owner.pendingReads.size ≤ owner.config.maxPendingReads

theorem Awaited.resolved (awaited : Awaited core (action::rest) owner) (plain : action.promotes = false) (resolves : Resolves owner after)
    (role : after.role = owner.role) : Awaited core rest after := by
  have same : roleAfter owner.role (action::rest) = roleAfter owner.role rest := by
    cases action <;> first | rfl | cases plain
  refine ⟨?_,?_,?_,?_⟩
  · rw [role,← same]
    exact awaited.role
  · rw [role]
    exact fun other index waiting => awaited.idle other index (resolves.waiting index waiting)
  · rcases awaited.held with ⟨found,member,demotes⟩ | low
    · rcases List.mem_cons.mp member with rfl | later
      · exact absurd (Action.demotes_promotes demotes) (by simp [plain])
      · exact .inl ⟨found,later,demotes⟩
    · exact .inr fun index waiting => low index (resolves.waiting index waiting)
  · rw [resolves.config]
    exact Nat.le_trans resolves.size awaited.room

theorem Awaited.changed (awaited : Awaited core (.roleChanged previous newRole term leader::rest) owner) :
    Awaited core rest (owner.roleChanged newRole leader) := by
  have resolves : Resolves owner (owner.roleChanged newRole leader) := roleChanged_resolves
  have role : (owner.roleChanged newRole leader).role = newRole := by
    unfold roleChanged
    split <;> rfl
  have size : (owner.roleChanged newRole leader).pendingReads.size ≤ (owner.roleChanged newRole leader).config.maxPendingReads := by
    rw [resolves.config]
    exact Nat.le_trans resolves.size awaited.room
  have ends : roleAfter (owner.roleChanged newRole leader).role rest = core.role := by
    rw [role]
    exact awaited.role
  by_cases stays : owner.role = .leader ∧ newRole = .leader
  · obtain ⟨leads,rfl⟩ := stays
    refine ⟨ends,fun other => absurd role other,?_,size⟩
    rcases awaited.held with ⟨found,member,demotes⟩ | low
    · rcases List.mem_cons.mp member with rfl | later
      · cases demotes
      · exact .inl ⟨found,later,demotes⟩
    · exact .inr fun index waiting => low index (resolves.waiting index waiting)
  · have nothing : ∀ index, ¬ (owner.roleChanged newRole leader).Waiting index := by
      intro index waiting
      by_cases leads : owner.role = .leader
      · have demoted : owner.role = .leader ∧ newRole ≠ .leader := ⟨leads,fun same => stays ⟨leads,same⟩⟩
        unfold roleChanged at waiting
        rw [if_pos demoted] at waiting
        rcases waiting with found | found <;> cases found
      · exact awaited.idle leads index (resolves.waiting index waiting)
    exact ⟨ends,fun _ => nothing,.inr fun index waiting => absurd waiting (nothing index),size⟩

theorem onAction_awaited (awaited : Awaited core (action::rest) owner)
    (polite : action.rejects = false ∨ (owner.activeProposalIndex = none ∧ owner.activeReadBarrierIndex = none)) :
    Meets (fun after => Resolves owner after ∧ Awaited core rest after) (fun _ _ => True) (onAction action owner) := by
  cases action with
  | sendMessage =>
    refine ⟨sendMessage_resolves,awaited.resolved rfl sendMessage_resolves ?_⟩
    unfold sendMessage
    repeat' split
    all_goals rfl
  | roleChanged => exact ⟨roleChanged_resolves,awaited.changed⟩
  | applyEntry entry => exact (applyEntry_resolves entry).weaken fun after ⟨resolves,role⟩ => ⟨resolves,awaited.resolved rfl resolves role⟩
  | applySnapshot snapshot =>
    exact (applySnapshot_resolves snapshot).weaken fun after ⟨resolves,role⟩ => ⟨resolves,awaited.resolved rfl resolves role⟩
  | proposalRejected leader =>
    obtain ⟨proposal,barrier⟩ := polite.resolve_left (by simp [Action.rejects])
    have same : onAction (.proposalRejected leader) owner = (owner,none) := by
      simp only [onAction,proposalRejected_idle proposal barrier]
    rw [same]
    exact ⟨.refl owner,awaited.resolved rfl (.refl owner) rfl⟩
  | _ => exact ⟨.refl owner,awaited.resolved rfl (.refl owner) rfl⟩

theorem receive_told {work : Work} (received : owner.receive core work = .ok (after,none)) :
    ∃ completion result, work.completion = some completion ∧ after = owner.tell [(completion,result)] := by
  unfold receive at received
  split at received
  · split at received
    · cases received
      exact ⟨_,_,rfl,rfl⟩
    · split at received <;> cases received
  · repeat' split at received
    all_goals cases received
    all_goals exact ⟨_,_,rfl,rfl⟩
  · cases received
  · cases received

-- What a process function leaves for the driver's call.
inductive Asks (core : RaftNode) (owner : OwnerState) : Work → OwnerState → Input → Prop where
  | proposal (leads : core.role = .leader) (canonical : encodeReplicatedCommand command = .ok encoded) :
      Asks core owner (.proposal command completion) {owner with
        pending := owner.pending.emplace (nextIndex core) ⟨encoded,completion⟩
        activeProposalIndex := some (nextIndex core)} (.propose encoded)
  | read (leads : core.role = .leader) (room : owner.pendingReads.size < owner.config.maxPendingReads) :
      Asks core owner (.read key completion deadline) {owner with
        pendingReads := owner.pendingReads.emplace (nextIndex core) [⟨key,completion,deadline⟩]
        activeReadBarrierIndex := some (nextIndex core)} .readBarrier
  | peerRequest : Asks core owner (.peerRequest envelope completion)
      {owner with activePeerFrom := some envelope.source,activePeerResponse := none} (.step envelope.source envelope.message)
  | peerResponse : Asks core owner (.peerResponse source message) owner (.step source message)

theorem receive_asks {work : Work} (received : owner.receive core work = .ok (after,some input)) : Asks core owner work after input := by
  unfold receive at received
  split at received
  · split at received
    · cases received
    · rename_i leads
      split at received
      · cases received
      · rename_i encoded canonical
        cases received
        exact .proposal (not_not.mp leads) canonical
  · split at received
    · cases received
    · split at received
      · cases received
      · rename_i leads
        split at received
        · cases received
        · rename_i room
          cases received
          exact .read (not_not.mp leads) (Nat.lt_of_not_le room)
  · cases received
    exact .peerRequest
  · cases received
    exact .peerResponse

end resolves

-- What the promises have come to, and which index a process function has announced.
structure Ledger where
  running : Bool
  config : ClusterNodeConfig
  tally : Completion → Nat
  redirected : Completion → ClientResult → Prop
  proposal : Option Nat
  barrier : Option Nat

structure Records (ledger : Ledger) (owner : OwnerState) : Prop where
  config : owner.config = ledger.config
  tally : ∀ completion, owner.tally completion = ledger.tally completion
  redirected : ∀ completion result, owner.Redirected completion result → ledger.redirected completion result
  proposal : owner.activeProposalIndex = ledger.proposal
  barrier : owner.activeReadBarrierIndex = ledger.barrier

theorem Records.resolved {owner after : OwnerState} (records : Records ledger owner) (resolves : Resolves owner after) : Records ledger after :=
  ⟨resolves.config.trans records.config,fun completion => (resolves.tally completion).trans (records.tally completion),
    fun completion result told => records.redirected completion result (resolves.redirected completion result told),
    resolves.proposal.trans records.proposal,resolves.barrier.trans records.barrier⟩

structure Ledger.Closed (ledger : Ledger) : Prop where
  proposal : ledger.proposal = none
  barrier : ledger.barrier = none

end OwnerState

end ForgeKv.Cluster
