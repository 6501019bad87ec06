import ForgeKv.Cluster.StateMachine

namespace ForgeKv.Cluster
open Raft (Bytes)

abbrev Call := ReplicatedCommand × MutationApplyResult

-- Any calls with canonical commands, in order, with what they returned.
inductive Applies (start : ReplicatedStateMachine) : List Call → ReplicatedStateMachine → Prop where
  | nil : Applies start [] start
  | call (earlier : Applies start trace machine) (canonical : encodeReplicatedCommand command = .ok bytes)
      (ran : machine.apply command bytes = .ok (after,result)) : Applies start (trace ++ [(command,result)]) after

section outcome
variable {machine after : ReplicatedStateMachine} {command : ReplicatedCommand}

structure Stored (machine after : ReplicatedStateMachine) (command : ReplicatedCommand) (response : Bytes) : Prop where
  newer : ∀ retained, machine.clients.find? command.clientId = some retained → retained.requestId < command.requestId
  self : after.clients.find? command.clientId = some ⟨command.requestId,command.bytes,response⟩
  others : ∀ client, client ≠ command.clientId → after.clients.find? client = machine.clients.find? client

theorem execute_outcome (found : machine.clients.find? command.clientId = retained)
    (newer : ∀ record, retained = some record → record.requestId < command.requestId)
    (ran : machine.execute command command.bytes retained = (after,result)) :
    (result.status ≠ .applied ∧ after = machine) ∨ (result.status = .applied ∧ Stored machine after command result.response) := by
  unfold ReplicatedStateMachine.execute at ran
  simp only at ran
  split at ran
  · cases ran
    exact .inl ⟨by simp,rfl⟩
  rw [ReplicatedStateMachine.retain_eq found] at ran
  cases ran
  refine .inr ⟨rfl,fun record present => newer record (found ▸ present),Table.find?_assign_self,?_⟩
  exact fun client different => Table.find?_assign_of_ne different

theorem handle_outcome (ran : machine.handle command command.bytes = (after,result)) :
    (result.status ≠ .applied ∧ after = machine) ∨ (result.status = .applied ∧ Stored machine after command result.response) := by
  unfold ReplicatedStateMachine.handle at ran
  cases found : machine.clients.find? command.clientId with
  | none =>
    simp only [found] at ran
    split at ran
    · cases ran
      exact .inl ⟨by simp,rfl⟩
    · exact execute_outcome found (by simp) ran
  | some =>
    simp only [found] at ran
    split at ran
    · cases ran
      exact .inl ⟨by simp,rfl⟩
    rename_i older
    split at ran
    · split at ran
      · cases ran
        exact .inl ⟨by simp,rfl⟩
      · cases ran
        exact .inl ⟨by simp,rfl⟩
    · rename_i different
      refine execute_outcome found (fun record same => ?_) ran
      cases same
      exact Std.lt_of_le_of_ne (Std.not_lt.mp older) (Ne.symm different)

theorem apply_canonical (ran : machine.apply command bytes = .ok (after,result)) :
    (result.status ≠ .applied ∧ after = machine) ∨ (result.status = .applied ∧ Stored machine after command result.response) := by
  obtain ⟨encoded,handled⟩ := ReplicatedStateMachine.apply_iff.mp ran
  obtain ⟨-,rfl⟩ := encode_iff.mp encoded
  exact handle_outcome handled

theorem apply_recorded (encoded : encodeReplicatedCommand command = .ok bytes)
    (found : machine.clients.find? command.clientId = some ⟨command.requestId,command.bytes,response⟩) :
    machine.apply command bytes = .ok (machine,⟨.duplicate,response⟩) := by
  obtain ⟨-,rfl⟩ := encode_iff.mp encoded
  refine ReplicatedStateMachine.apply_iff.mpr ⟨encoded,?_⟩
  simp [ReplicatedStateMachine.handle,found]

end outcome

def appliedIds (client : ClientId) (trace : List Call) : List UInt64 :=
  (trace.filter (fun call => call.1.clientId = client ∧ call.2.status = .applied)).map (fun call => call.1.requestId)

-- No later call of the same client was applied.
def Latest (command : ReplicatedCommand) (later : List Call) : Prop :=
  ∀ call ∈ later, call.1.clientId = command.clientId → call.2.status ≠ .applied

structure Recorded (trace : List Call) (machine : ReplicatedStateMachine) : Prop where
  rising : ∀ client, (appliedIds client trace).Pairwise (· < ·)
  covered : ∀ client, ∀ id ∈ appliedIds client trace, ∃ record, machine.clients.find? client = some record ∧ id ≤ record.requestId
  latest : ∀ earlier command response later, trace = earlier ++ (command,⟨.applied,response⟩)::later → Latest command later →
    machine.clients.find? command.clientId = some ⟨command.requestId,command.bytes,response⟩

theorem appliedIds_snoc (client : ClientId) (trace : List Call) (call : Call) : appliedIds client (trace ++ [call]) =
    appliedIds client trace ++ if call.1.clientId = client ∧ call.2.status = .applied then [call.1.requestId] else [] := by
  unfold appliedIds
  by_cases own : call.1.clientId = client ∧ call.2.status = .applied
  · simp [own]
  · simp [own]

theorem snoc_split {trace earlier later : List Call} {call found : Call} (split : trace ++ [call] = earlier ++ found::later) :
    (later = [] ∧ found = call) ∨ ∃ rest, later = rest ++ [call] ∧ trace = earlier ++ found::rest := by
  rcases List.eq_nil_or_concat later with rfl | ⟨rest,last,rfl⟩
  · obtain ⟨-,same⟩ := List.append_inj' split rfl
    cases same
    exact .inl ⟨rfl,rfl⟩
  · rw [List.concat_eq_append,← List.cons_append,← List.append_assoc] at split
    obtain ⟨front,same⟩ := List.append_inj' split rfl
    cases same
    exact .inr ⟨rest,List.concat_eq_append,front⟩

section trace
variable {machine after start : ReplicatedStateMachine} {command : ReplicatedCommand}

theorem Recorded.skip (recorded : Recorded trace machine) (refused : result.status ≠ .applied) :
    Recorded (trace ++ [(command,result)]) machine := by
  have same : ∀ client, appliedIds client (trace ++ [(command,result)]) = appliedIds client trace := by
    intro client
    rw [appliedIds_snoc,if_neg (fun wrong => refused wrong.2),List.append_nil]
  refine ⟨fun client => same client ▸ recorded.rising client,fun client => same client ▸ recorded.covered client,?_⟩
  intro earlier found response later split latest
  rcases snoc_split split with ⟨-,wrong⟩ | ⟨rest,rfl,shorter⟩
  · cases wrong
    exact absurd rfl refused
  · exact recorded.latest earlier found response rest shorter (fun call member => latest call (List.mem_append_left _ member))

theorem Recorded.store (recorded : Recorded trace machine) (stored : Stored machine after command response) :
    Recorded (trace ++ [(command,⟨.applied,response⟩)]) after := by
  refine ⟨fun client => ?_,fun client id member => ?_,?_⟩
  · rw [appliedIds_snoc]
    split
    · rename_i own
      obtain ⟨rfl,-⟩ := own
      refine List.pairwise_append.mpr ⟨recorded.rising _,List.pairwise_singleton _ _,fun old member new only => ?_⟩
      obtain ⟨record,found,low⟩ := recorded.covered _ old member
      rw [List.mem_singleton.mp only]
      exact Std.lt_of_le_of_lt low (stored.newer record found)
    · rw [List.append_nil]
      exact recorded.rising client
  · rw [appliedIds_snoc] at member
    by_cases own : client = command.clientId
    · subst own
      refine ⟨_,stored.self,?_⟩
      rcases List.mem_append.mp member with old | new
      · obtain ⟨record,found,low⟩ := recorded.covered _ id old
        exact Std.le_of_lt (Std.lt_of_le_of_lt low (stored.newer record found))
      · simp only [true_and,if_true,List.mem_singleton] at new
        rw [new]
        exact Std.le_refl _
    · rw [if_neg (fun wrong => own wrong.1.symm),List.append_nil] at member
      rw [stored.others client own]
      exact recorded.covered client id member
  · intro earlier found answer later split latest
    rcases snoc_split split with ⟨-,same⟩ | ⟨rest,rfl,shorter⟩
    · cases same
      exact stored.self
    · have other : found.clientId ≠ command.clientId := fun same =>
        latest (command,⟨.applied,response⟩) (List.mem_append_right _ List.mem_cons_self) same.symm rfl
      rw [stored.others _ other]
      exact recorded.latest earlier found answer rest shorter (fun call member => latest call (List.mem_append_left _ member))

theorem applies_recorded (applies : Applies start trace machine) : Recorded trace machine := by
  induction applies with
  | nil =>
    refine ⟨fun _ => .nil,fun _ _ member => (nomatch member),fun earlier _ _ _ split => ?_⟩
    exact absurd split (by simp)
  | call earlier canonical ran ih =>
    rename_i result
    rcases apply_canonical ran with ⟨refused,rfl⟩ | ⟨accepted,stored⟩
    · exact ih.skip refused
    · obtain ⟨status,response⟩ := result
      cases accepted
      exact ih.store stored

-- In any interleaving of any clients' calls: the ids a client gets applied rise,
-- a call that is not applied changes nothing, and the latest applied command of
-- a client is answered as it was, whatever came in between.
theorem at_most_once (applies : Applies start trace machine) :
    (∀ client, (appliedIds client trace).Pairwise (· < ·)) ∧
    (∀ command bytes after result, encodeReplicatedCommand command = .ok bytes →
      machine.apply command bytes = .ok (after,result) → result.status ≠ .applied → after = machine) ∧
    (∀ earlier command response later, trace = earlier ++ (command,⟨.applied,response⟩)::later → Latest command later →
      ∀ bytes, encodeReplicatedCommand command = .ok bytes →
        machine.apply command bytes = .ok (machine,⟨.duplicate,response⟩)) := by
  have recorded := applies_recorded applies
  refine ⟨recorded.rising,?_,?_⟩
  · intro command bytes after result canonical ran refused
    rcases apply_canonical ran with ⟨-,same⟩ | ⟨accepted,-⟩
    · exact same
    · exact absurd accepted refused
  · intro earlier command response later split latest bytes canonical
    exact apply_recorded canonical (recorded.latest earlier command response later split latest)

end trace

def emptyMachine : ReplicatedStateMachine := ⟨kMaxDedupClients,kMaxDedupBytes,0,.empty,.empty⟩

def firstPut : ReplicatedCommand := ⟨.put,.read [],1,[1],[2]⟩

def firstMachine : ReplicatedStateMachine := (emptyMachine.execute firstPut firstPut.bytes none).1

theorem firstPut_canonical : encodeReplicatedCommand firstPut = .ok firstPut.bytes := rfl

theorem firstPut_applied : emptyMachine.apply firstPut firstPut.bytes = .ok (firstMachine,⟨.applied,[]⟩) := by
  have told : (emptyMachine.execute firstPut firstPut.bytes none).2 = ⟨.applied,[]⟩ := by decide
  have absent : emptyMachine.clients.find? firstPut.clientId = none := rfl
  have room : ¬ emptyMachine.maxClients ≤ emptyMachine.clients.size := by decide
  refine ReplicatedStateMachine.apply_iff.mpr ⟨firstPut_canonical,?_⟩
  rw [← told]
  simp only [ReplicatedStateMachine.handle,absent,room,if_false,firstMachine]

theorem at_most_once_firstPut : firstMachine.find [1] = some [2] ∧
    firstMachine.apply firstPut firstPut.bytes = .ok (firstMachine,⟨.duplicate,[]⟩) := by
  obtain ⟨-,-,repeated⟩ := at_most_once (.call .nil firstPut_canonical firstPut_applied)
  exact ⟨by decide,repeated [] firstPut [] [] rfl (fun _ member => (nomatch member)) _ firstPut_canonical⟩

end ForgeKv.Cluster
