import ForgeKv.Raft.Invariant

namespace ForgeKv.Raft
open Assoc

def Covers (actions : Actions) (index : Nat) : Prop :=
  ∃ fromIndex toIndex, .commitAdvanced fromIndex toIndex ∈ actions ∧ fromIndex < index ∧ index ≤ toIndex

def UpTo (known : Nat → Prop) (bound : Nat) : Prop := ∀ index, 0 < index → index ≤ bound → known index

-- Every snapshot boundary that leaves a node was reported as committed before the call.
def Timely (known : Nat → Prop) : Action → Prop
  | .sendMessage _ (.installSnapshot request) => UpTo known request.lastIncludedIndex
  | .persistSnapshot snapshot => UpTo known snapshot.lastIncludedIndex
  | .applySnapshot snapshot => UpTo known snapshot.lastIncludedIndex
  | _ => True

-- What the commit index and the base of a node rest on in the middle of a call.
structure Accounted (known : Nat → Prop) (node : RaftNode) : Prop where
  commit : UpTo (fun index => known index ∨ Covers node.actions index) node.commitIndex
  base : UpTo known node.baseIndex
  actions : ∀ action ∈ node.actions, Timely known action

variable {known more : Nat → Prop} {node after : RaftNode} {image : StateMachineSnapshot}

theorem Covers.wider (covers : Covers actions index) (inside : ∀ action ∈ actions, action ∈ later) : Covers later index := by
  obtain ⟨fromIndex,toIndex,member,behind,ahead⟩ := covers
  exact ⟨fromIndex,toIndex,inside _ member,behind,ahead⟩

theorem UpTo.weaken (all : UpTo known bound) (step : ∀ index, known index → more index) : UpTo more bound :=
  fun index positive low => step index (all index positive low)

theorem Timely.weaken (timely : Timely known action) (step : ∀ index, known index → more index) : Timely more action := by
  cases action with
  | sendMessage target message =>
    cases message with
    | installSnapshot => exact UpTo.weaken timely step
    | _ => trivial
  | persistSnapshot | applySnapshot => exact UpTo.weaken timely step
  | _ => trivial

section
variable (accounted : Accounted known node)
include accounted

theorem Accounted.quiet (quiet : Quiet node.actions) : UpTo known node.commitIndex := by
  intro index positive low
  refine (accounted.commit index positive low).resolve_right ?_
  rintro ⟨fromIndex,toIndex,member,-⟩
  exact quiet _ _ member

theorem Accounted.emit (emits : after.actions = node.actions ++ new)
    (commit : after.commitIndex = node.commitIndex) (base : after.baseIndex = node.baseIndex)
    (timely : ∀ action ∈ new, Timely known action) : Accounted known after := by
  refine ⟨?_,by rw [base]; exact accounted.base,?_⟩
  · rw [emits,commit]
    exact accounted.commit.weaken (fun _ => Or.imp id (fun covers => covers.wider (fun _ => List.mem_append_left _)))
  · rw [emits]
    intro action member
    exact (List.mem_append.mp member).elim (accounted.actions action) (timely action)

theorem commitTo_accounted : Accounted known (node.commitTo index) := by
  refine ⟨?_,accounted.base,?_⟩
  · intro place positive low
    by_cases old : place ≤ node.commitIndex
    · exact (accounted.commit place positive old).imp id (fun covers => covers.wider (fun _ => List.mem_append_left _))
    · exact .inr ⟨node.commitIndex,index,List.mem_append_right _ List.mem_cons_self,Nat.not_le.mp old,low⟩
  · intro action member
    cases List.mem_append.mp member with
    | inl old => exact accounted.actions action old
    | inr new =>
      cases List.mem_cons.mp new with
      | inl first => rw [first]; trivial
      | inr applied =>
        obtain ⟨-,-,rfl⟩ := List.mem_map.mp applied
        trivial

theorem becomeFollower_accounted : Accounted known (node.becomeFollower term leader) := by
  obtain ⟨new,emitted,told⟩ := becomeFollower_tells
  refine accounted.emit emitted rfl rfl fun action member => ?_
  cases told action member <;> trivial

theorem campaign_accounted : Accounted known node.campaign := by
  obtain ⟨new,emitted,told⟩ := campaign_tells
  refine accounted.emit emitted rfl rfl fun action member => ?_
  cases told action member <;> trivial

end

theorem move_accounted (sound : Sound node) (accounted : Accounted known node) (move : Move packet offer node after)
    (delivered : ∀ source request, packet = some (source,.installSnapshot request) → UpTo known request.lastIncludedIndex) :
    Accounted known after := by
  have one : ∀ {action : Action}, Timely known action → ∀ other ∈ [action], Timely known other := by
    intro action timely other member
    rw [List.mem_singleton.mp member]
    exact timely
  cases move with
  | raise | stepDown => exact becomeFollower_accounted accounted
  | campaign => exact campaign_accounted accounted
  | commit | learn => exact commitTo_accounted accounted
  | sendChunk tracks image =>
    refine accounted.emit rfl rfl rfl (one ?_)
    have base := baseId_index sound
    rw [baseId_image image] at base
    simp only at base
    rw [base]
    exact accounted.base
  | install arrived installs =>
    have reported : UpTo known _ := installs.index ▸ delivered _ _ arrived
    obtain ⟨-,commit⟩ := adoptImage_sound sound installs
    refine ⟨?_,reported,?_⟩
    · rw [commit]
      exact reported.weaken (fun _ => .inl)
    · intro action member
      simp only [RaftNode.adoptImage,RaftNode.push,List.mem_append,List.mem_singleton] at member
      rcases member with (old | rfl) | rfl
      · exact accounted.actions action old
      · exact reported
      · exact reported
  | compact own asked calm forward applied =>
    have reported : UpTo known _ := fun place positive low => accounted.quiet (.calm calm) place positive (Nat.le_trans low applied)
    refine ⟨?_,reported,?_⟩
    · exact accounted.commit.weaken (fun _ => Or.imp id (fun covers => covers.wider (fun _ => List.mem_append_left _)))
    · intro action member
      exact (List.mem_append.mp member).elim (accounted.actions action) (one (show Timely known (.persistSnapshot _) from reported) action)
  | append => exact accounted.emit rfl rfl (append_base sound) (one trivial)
  | replace arrived joins => exact accounted.emit rfl rfl (replace_last sound joins).2 (one trivial)
  | grant | elect | sendSuffix | answerVote | refuseEntries | acceptEntries | refuseChunk | acceptChunk | refuse => exact accounted.emit rfl rfl rfl (one trivial)
  | _ => exact accounted.emit (List.append_nil _).symm rfl rfl (List.forall_mem_nil _)

theorem moves_accounted (sound : Sound node) (accounted : Accounted known node) (moves : Moves packet offer node after)
    (delivered : ∀ source request, packet = some (source,.installSnapshot request) → UpTo known request.lastIncludedIndex) :
    Accounted known after := by
  induction moves with
  | nil => exact accounted
  | step earlier move ih => exact move_accounted (moves_sound sound earlier) ih move delivered

def Cluster.Covered (cluster : Cluster) : Nat → Prop := Covers (cluster.released.map Event.action)

-- Everything below a snapshot or a commit index was reported as committed.
structure Cover (cluster : Cluster) : Prop where
  base : ∀ host, UpTo cluster.Covered (cluster.hosts host).durable.baseIndex
  commit : ∀ host core, (cluster.hosts host).core = some core → UpTo cluster.Covered core.commitIndex
  packets : ∀ source target request, ⟨source,target,.installSnapshot request⟩ ∈ cluster.network →
    UpTo cluster.Covered request.lastIncludedIndex
  released : ∀ event ∈ cluster.released, Timely cluster.Covered event.action

variable {voters : List NodeId} {cluster next : Cluster} {host : NodeId} {core : RaftNode}

theorem initial_cover : Cover Cluster.initial where
  base := fun _ _ positive low => absurd positive (Nat.not_lt.mpr low)
  commit := by intro host core wrong; cases wrong
  packets := fun _ _ _ sent => nomatch sent
  released := List.forall_mem_nil _

theorem persistAll_base (state : RaftPersistentState) (done : Actions) : (RaftPersistentState.persistAll state done).baseIndex = state.baseIndex ∨
    ∃ snapshot, .persistSnapshot snapshot ∈ done ∧
      (RaftPersistentState.persistAll state done).baseIndex = snapshot.lastIncludedIndex := by
  induction done generalizing state with
  | nil => exact .inl rfl
  | cons action rest ih =>
    cases ih (state.persist action) with
    | inr later =>
      obtain ⟨snapshot,member,same⟩ := later
      exact .inr ⟨snapshot,List.mem_cons_of_mem _ member,same⟩
    | inl kept =>
      cases action with
      | persistSnapshot snapshot => exact .inr ⟨snapshot,List.mem_cons_self,kept⟩
      | _ => exact .inl kept

theorem execute_cover (cover : Cover cluster) (inside : ∀ action ∈ done, Timely cluster.Covered action)
    (alive : ∀ running, state = some running → UpTo (fun index => cluster.Covered index ∨ Covers done index) running.commitIndex) :
    Cover (cluster.execute host node state actions done) := by
  have grown : ∀ index, cluster.Covered index ∨ Covers done index →
      (cluster.execute host node state actions done).Covered index := by
    intro index covered
    unfold Cluster.Covered Cluster.execute
    simp only [List.map_append,List.map_map]
    cases covered with
    | inl old => exact old.wider (fun _ => List.mem_append_left _)
    | inr new =>
      refine new.wider (fun action member => List.mem_append_right _ (List.mem_map.mpr ⟨action,member,rfl⟩))
  have old : ∀ index, cluster.Covered index → (cluster.execute host node state actions done).Covered index :=
    fun index covered => grown index (.inl covered)
  refine ⟨?_,?_,?_,?_⟩
  · intro other
    by_cases same : other = host
    · subst same
      simp only [Cluster.execute,Function.update_self]
      cases persistAll_base (cluster.hosts other).durable done with
      | inl kept => rw [kept]; exact (cover.base other).weaken old
      | inr stored =>
        obtain ⟨snapshot,member,equal⟩ := stored
        rw [equal]
        exact UpTo.weaken (inside _ member) old
    · simp only [Cluster.execute,Function.update_of_ne same]
      exact (cover.base other).weaken old
  · intro other core found
    by_cases same : other = host
    · subst same
      exact (alive core (by simpa [Cluster.execute] using found)).weaken grown
    · exact (cover.commit other core (by simpa [Cluster.execute,same] using found)).weaken old
  · intro source target request sent
    cases List.mem_append.mp sent with
    | inl before => exact (cover.packets _ _ _ before).weaken old
    | inr new => exact UpTo.weaken (inside _ (mem_packets.mp new).2) old
  · intro event member
    cases List.mem_append.mp member with
    | inl before => exact (cover.released event before).weaken old
    | inr new =>
      obtain ⟨action,sent,rfl⟩ := List.mem_map.mp new
      exact (inside action sent).weaken old

theorem setCore_cover (cover : Cover cluster) (alive : ∀ running, state = some running → UpTo cluster.Covered running.commitIndex) :
    Cover (cluster.setCore host state) := by
  refine ⟨?_,?_,cover.packets,cover.released⟩
  · intro other
    have durable : ((cluster.setCore host state).hosts other).durable = (cluster.hosts other).durable := by
      by_cases same : other = host
      · subst same
        simp [Cluster.setCore]
      · simp [Cluster.setCore,same]
    rw [durable]
    exact cover.base other
  · intro other core found
    by_cases same : other = host
    · subst same
      exact alive core (by simpa [Cluster.setCore] using found)
    · exact cover.commit other core (by simpa [Cluster.setCore,same] using found)

theorem call_accounted (inv : Inv voters cluster ghost) (cover : Cover cluster) (up : (cluster.hosts host).core = some core)
    (offered : cluster.Offers host input) (moves : Moves input.packet input.offer core.clearActions node) :
    Accounted cluster.Covered node := by
  have running := inv.running host core up
  refine moves_accounted (clear_sound running.sim.sound) ⟨?_,?_,List.forall_mem_nil _⟩ moves ?_
  · exact (cover.commit host core up).weaken (fun _ => .inl)
  · have base := cover.base host
    rw [← running.stored,persistent_base running.sim.sound] at base
    exact base
  · intro source request same
    cases input with
    | step => cases same; exact cover.packets _ _ _ (offered source _ rfl)
    | _ => cases same

theorem step_cover (inv : Inv voters cluster ghost) (cover : Cover cluster) (step : Cluster.Step voters cluster next) :
    Cover next := by
  cases step with
  | start down self shared created =>
    refine setCore_cover cover (fun running same => ?_)
    cases same
    rw [(create_ok created).commit]
    exact cover.base _
  | crash => exact setCore_cover cover (fun running wrong => nomatch wrong)
  | throw up offered ran =>
    have ends := inv.ends up offered ran
    have kept := cover.commit _ _ up
    refine setCore_cover cover (fun next same => ?_)
    cases same
    cases ends with
    | backward | exhausted | refused => exact kept
  | call up offered ran =>
    cases inv.ends up offered ran with
    | returned moves =>
      have accounted := call_accounted inv cover up offered moves
      refine execute_cover cover (fun action member => accounted.actions action (mem_schedule.mp member)) ?_
      intro running same
      cases same
      exact accounted.commit.weaken (fun _ => Or.imp id (fun covers => covers.wider (fun _ => mem_schedule.mpr)))
  | interrupt up offered ran =>
    cases inv.ends up offered ran with
    | returned moves =>
      have accounted := call_accounted inv cover up offered moves
      refine execute_cover cover ?_ (fun running wrong => nomatch wrong)
      exact fun action member => accounted.actions action (mem_schedule.mp (List.mem_of_mem_take member))

theorem reachable_cover (reachable : Cluster.Reachable voters cluster) : (∃ ghost, Inv voters cluster ghost) ∧ Cover cluster := by
  refine reachable.invariant (fun cluster => (∃ ghost, Inv voters cluster ghost) ∧ Cover cluster)
    ⟨⟨_,initial_inv voters⟩,initial_cover⟩ ?_
  intro before after holds step
  obtain ⟨⟨ghost,inv⟩,cover⟩ := holds
  obtain ⟨later,-,next⟩ := step_inv inv step
  exact ⟨⟨later,next⟩,step_cover inv cover step⟩

end ForgeKv.Raft
