import ForgeKv.Persisted.Acceptance

namespace ForgeKv.Persisted
open Raft RaftStorage
open Procedure (Ensures Preserves)
open CrashDisk (run_spared run_append)
open PersistedRaftNode (reach perform invoke prepareHardState prepareLog sync installSnapshot persist forgetDurable persistAction)

def Leaves (owner : Owner) (holds : Option StateMachineSnapshot → Bool → Prop) (_ : Thrown) (driver : PersistedRaftNode) : Prop :=
  ∃ file, loadSnapshot owner (driver.files .snapshot) = .ok file ∧ holds file driver.snapshotAlreadyDurable

section routines
variable {node : RaftNode} {owner : Owner} {stores stores' : Store → Prop} {holds : Option StateMachineSnapshot → Bool → Prop}
  {state : RaftPersistentState} {config : RaftConfig} {image : StateMachineSnapshot}

theorem Calm.reads (calm : Calm node (Idle owner state) holds driver) :
    ∃ file, loadSnapshot owner (driver.files .snapshot) = .ok file ∧ holds file driver.snapshotAlreadyDurable := by
  obtain ⟨generation,store⟩ := calm.stores
  obtain ⟨file,read,fine⟩ := calm.file
  unfold PersistedRaftNode.held at read
  rw [store] at read
  exact ⟨file,read,fine⟩

theorem invoke_leaves (taken : ∀ driver storage effects, Idle owner state driver.storage → result driver = .ok (storage,effects) →
    stores' storage ∧ storage.owner = driver.storage.owner ∧ ∀ effect ∈ effects, effect.changes ≠ some .snapshot) :
    Ensures (Calm node (Idle owner state) holds) (invoke result) (Calm node stores' holds) (Leaves owner holds) := by
  refine invoke_calm fun driver calm => ?_
  match ran : result driver with
  | .ok (storage,effects) => exact .inl ⟨storage,effects,rfl,taken driver storage effects calm.stores ran⟩
  | .error error => exact .inr ⟨error,rfl,calm.reads⟩

theorem prepareHardState_leaves : Ensures (Calm node (Idle owner state) holds) (prepareHardState ⟨term,votedFor⟩)
    (Calm node (Due owner (state.persist (.persistHardState term votedFor))) holds) (Leaves owner holds) := by
  refine invoke_leaves fun driver storage effects idle done => ?_
  obtain ⟨generation,store⟩ := idle
  rw [store] at done ⊢
  unfold Store.prepareHardState at done
  simp only [opened_ready,bind,Except.bind] at done
  split at done
  · cases done
  split at done
  · cases done
  split at done
  · cases done
  cases done
  exact ⟨⟨_,_,_,rfl,.inr ⟨_,_,hardSlot_snapshot,rfl⟩⟩,rfl,List.forall_mem_nil _⟩

theorem prepareLog_leaves (fits : Fits floor packet offer state (.persistLog fromIndex entries))
    (stable : Stable config (state.persist (.persistLog fromIndex entries))) :
    Ensures (Calm node (Idle owner state) holds) (prepareLog ⟨fromIndex,entries⟩)
      (Calm node (Due owner (state.persist (.persistLog fromIndex entries))) holds) (Leaves owner holds) := by
  refine invoke_leaves fun driver storage effects idle done => ?_
  obtain ⟨generation,store⟩ := idle
  rw [store] at done ⊢
  obtain ⟨_,-,done⟩ := bind_ok.mp done
  obtain ⟨next,applied,done⟩ := bind_ok.mp done
  obtain ⟨-,rfl⟩ := applyLogUpdate_iff.mp applied
  cases done
  refine ⟨⟨_,_,_,rfl,.inl ?_⟩,rfl,?_⟩
  · rw [updatedLog_persist fits.1 fits.2.1 stable]
    rfl
  · simp [CrashDisk.Effect.changes]

theorem publishSnapshot_replaces (mine : owner.Fits) (boundary : BoundaryFits image)
    (small : image.stateMachine.length ≤ maxSnapshotPayloadSize) (read : loadSnapshot owner (files .snapshot) = .ok file)
    (older : ∀ held, file = some held → held.lastIncludedIndex < image.lastIncludedIndex ∨ held = image)
    (done : (opened owner generation state).publishSnapshot files image already = .ok published) :
    loadSnapshot owner (files.run published .snapshot) = .ok (some image) := by
  unfold Store.publishSnapshot at done
  split at done
  · obtain ⟨durable,loaded,done⟩ := bind_ok.mp done
    split at done
    · cases done
    rename_i same
    cases done
    rw [← not_not.mp same]
    exact loaded
  · have same : ∀ held, file = some held → held.lastIncludedIndex = image.lastIncludedIndex → held = image :=
      fun held found equal => (older held found).resolve_left (by omega)
    obtain ⟨effects,held,wrote,reads,either⟩ := writeAtomic_takes mine boundary small read same
    rw [show writeAtomic owner files image = .ok published from done] at wrote
    cases wrote
    rcases either with ⟨rfl,-⟩ | ⟨old,beyond⟩
    · exact reads
    · rcases older held old with low | rfl
      · omega
      · exact reads

theorem installSnapshot_leaves (mine : owner.Fits) (newer : state.baseIndex < image.lastIncludedIndex)
    (wide : image.lastIncludedIndex < 2^64 ∧ image.lastIncludedTerm < 2^64)
    (older : ∀ file already, holds file already → ∀ held, file = some held →
      held.lastIncludedIndex < image.lastIncludedIndex ∨ held = image) :
    Ensures (Calm node (Idle owner state) holds) (installSnapshot image)
      (Calm node (Idle owner (state.persist (.persistSnapshot image))) (fun file _ => file = some image)) (Leaves owner holds) := by
  intro driver calm
  obtain ⟨generation,store⟩ := calm.stores
  obtain ⟨file,read,fine⟩ := calm.reads
  unfold installSnapshot invoke
  split
  · exact calm.reads
  rename_i storage effects done
  dsimp only at done
  rw [store] at done
  obtain ⟨installable,published,wrote,rfl,rfl⟩ := install_iff.mp done
  have boundary : BoundaryFits image := by
    have room := installable.room
    refine ⟨?_,wide.2,Nat.lt_of_le_of_lt (Nat.zero_le _) newer,Nat.pos_of_ne_zero installable.elected⟩
    simp only [maxU64] at room ⊢
    omega
  have reads := publishSnapshot_replaces mine boundary installable.small read (older file _ fine) wrote
  rw [perform_calm calm]
  refine {calm with stores := ⟨generation,?_⟩,file := ⟨some image,?_,rfl⟩}
  · simp only [installed,RaftPersistentState.persist,suffixBehind_after newer]
  · unfold PersistedRaftNode.held
    dsimp only
    rw [run_append,run_spared (create_spares (by decide))]
    exact reads

theorem forgetDurable_leaves : Ensures (Calm node stores (fun file _ => file = some image)) forgetDurable
    (Calm node stores (fun file already => already = false ∧ file = some image)) failed := by
  intro driver calm
  obtain ⟨file,read,same⟩ := calm.file
  exact {calm with file := ⟨file,read,rfl,same⟩}

-- What the snapshot file holds behind a persistence action.
def fileAfter (file : Option StateMachineSnapshot) : Action → Option StateMachineSnapshot
  | .persistSnapshot image => some image
  | _ => file

-- A file that the image of an action may replace.
def Replaceable (file : Option StateMachineSnapshot) (action : Action) : Prop :=
  ∀ image, action = .persistSnapshot image → image.lastIncludedIndex < 2^64 ∧ image.lastIncludedTerm < 2^64 ∧
    ∀ held, file = some held → held.lastIncludedIndex < image.lastIncludedIndex ∨ held = image

theorem persistAction_leaves {file : Option StateMachineSnapshot} (mine : owner.Fits) (fits : Fits floor packet offer state action)
    (stable : Stable config (state.persist action)) (replaceable : Replaceable file action) :
    Ensures (Calm node (Idle owner state) (fun held already => already = false ∧ held = file)) (persistAction action)
      (Calm node (Idle owner (state.persist action)) (fun held already => already = false ∧ held = fileAfter file action))
      (Leaves owner (fun held already => already = false ∧ held = file)) := by
  cases action with
  | persistHardState => exact persist_calm prepareHardState_leaves
  | persistLog => exact persist_calm (prepareLog_leaves fits stable)
  | persistSnapshot image =>
    obtain ⟨index,term,older⟩ := replaceable image rfl
    refine reach_calm.andThen ((installSnapshot_leaves mine fits.1 ⟨index,term⟩ ?_).andThen
      (forgetDurable_leaves.andThen reach_calm))
    rintro held already ⟨-,rfl⟩
    exact older
  | _ => exact .skip

theorem persistSnapshot_prewritten (installable : Installable state image) :
    Ensures (Calm node (Idle owner state) (fun file already => already = true ∧ file = some image)) (persistAction (.persistSnapshot image))
      (Calm node (Idle owner (state.persist (.persistSnapshot image))) (fun file already => already = false ∧ file = some image))
      (fun _ _ => False) := by
  refine reach_calm.andThen (.andThen ?_ (forgetDurable_leaves.andThen reach_calm))
  intro driver calm
  obtain ⟨generation,store⟩ := calm.stores
  obtain ⟨file,read,flag,rfl⟩ := calm.reads
  have published : (opened owner generation state).publishSnapshot driver.files image true = .ok [] := by
    unfold Store.publishSnapshot
    rw [read]
    exact if_neg (not_not.mpr rfl)
  have done := install_iff.mpr ⟨installable,[],published,rfl,rfl⟩
  unfold installSnapshot
  simp only [invoke,flag,store,done,perform_calm calm]
  refine {calm with stores := ⟨generation,?_⟩,file := ⟨some image,?_,rfl⟩}
  · simp only [installed,RaftPersistentState.persist,suffixBehind_after installable.newer]
  · unfold PersistedRaftNode.held
    exact read

end routines

-- What the snapshot file of a driver may hold, whatever has gone wrong on the disk.
structure Guards (core : RaftNode) (owner : Owner) (allows : Option Bytes → Prop) (driver : PersistedRaftNode) : Prop where
  moved : driver.node = core
  mine : driver.storage.owner = owner
  slot : ∀ file contents state, driver.storage.pending = .hardState file contents state → file ≠ .snapshot
  file : allows (driver.files .snapshot)

-- An image that write_atomic does not refuse for itself.
structure Publishable (image : StateMachineSnapshot) : Prop where
  real : image.lastIncludedIndex ≠ 0
  room : image.lastIncludedIndex ≠ maxU64
  elected : image.lastIncludedTerm ≠ 0
  small : image.stateMachine.length ≤ maxSnapshotPayloadSize

theorem Publishable.boundary {image : StateMachineSnapshot} (publishable : Publishable image)
    (wide : image.lastIncludedIndex < 2^64 ∧ image.lastIncludedTerm < 2^64) : BoundaryFits image := by
  obtain ⟨real,room,elected,-⟩ := publishable
  refine ⟨?_,wide.2,Nat.pos_of_ne_zero real,Nat.pos_of_ne_zero elected⟩
  simp only [maxU64] at room ⊢
  omega

theorem writeAtomic_effects (wrote : writeAtomic owner files image = .ok effects) :
    Publishable image ∧ (effects = [] ∨ effects = create .snapshot (encodeSnapshot owner image)) := by
  unfold writeAtomic at wrote
  split at wrote
  · cases wrote
  rename_i fine
  simp only [not_or,Nat.not_lt] at fine
  refine ⟨⟨fine.1,fine.2.1,fine.2.2.1,fine.2.2.2⟩,?_⟩
  obtain ⟨current,-,wrote⟩ := bind_ok.mp wrote
  split at wrote
  · cases wrote
    exact .inr rfl
  split at wrote
  · cases wrote
    exact .inl rfl
  split at wrote
  · split at wrote
    · cases wrote
    · cases wrote
      exact .inl rfl
  · cases wrote
    exact .inr rfl

theorem writeAtomic_allows {allows : Option Bytes → Prop} (wrote : writeAtomic owner files image = .ok effects)
    (held : allows (files .snapshot)) (may : Publishable image → allows (some (encodeSnapshot owner image)))
    (spared : ∀ effect ∈ rest, effect.changes ≠ some .snapshot) (done : Nat) :
    allows (files.run ((effects ++ rest).take done) .snapshot) := by
  obtain ⟨publishable,shape⟩ := writeAtomic_effects wrote
  have only : ∀ effect ∈ (effects ++ rest).take done, effect.changes = some .snapshot →
      effect = .publish .snapshot (encodeSnapshot owner image) := by
    intro effect member touched
    rcases List.mem_append.mp (List.mem_of_mem_take member) with written | other
    · rcases shape with rfl | rfl
      · cases written
      · simp only [create,List.mem_cons,List.not_mem_nil,or_false] at written
        rcases written with rfl | rfl
        · rfl
        · cases touched
    · exact absurd touched (spared effect other)
  rcases CrashDisk.run_published only with same | published
  · rw [same]
    exact held
  · rw [published]
    exact may publishable

section guards
variable {core : RaftNode} {owner : Owner} {allows : Option Bytes → Prop}

theorem reach_guards : Preserves (Guards core owner allows) (reach point) := by
  intro driver guards
  unfold reach
  split
  · exact {guards with}
  · exact {guards with}

theorem invoke_guards (taken : ∀ driver storage effects, Guards core owner allows driver → result driver = .ok (storage,effects) →
      storage.owner = owner ∧ (∀ file contents state, storage.pending = .hardState file contents state → file ≠ .snapshot) ∧
      ∀ done, allows (driver.files.run (effects.take done) .snapshot)) :
    Preserves (Guards core owner allows) (invoke result) := by
  intro driver guards
  unfold invoke
  split
  · exact guards
  rename_i storage effects ran
  obtain ⟨mine,slot,files⟩ := taken driver storage effects guards ran
  unfold perform
  split
  · exact {guards with file := files _}
  · have whole := files effects.length
    rw [List.take_length] at whole
    exact {guards with mine := mine,slot := slot,file := whole}

theorem Guards.spared {effects : List Effect} (guards : Guards core owner allows driver)
    (spared : ∀ effect ∈ effects, effect.changes ≠ some .snapshot) (done : Nat) :
    allows (driver.files.run (effects.take done) .snapshot) := by
  rw [run_spared fun effect member => spared effect (List.mem_of_mem_take member)]
  exact guards.file

theorem prepareHardState_guards : Preserves (Guards core owner allows) (prepareHardState update) := by
  refine invoke_guards fun driver storage effects guards done => ?_
  unfold Store.prepareHardState at done
  cases ready : driver.storage.ready "prepare closed Raft storage" with
  | error =>
    rw [ready] at done
    cases done
  | ok =>
    simp only [ready,bind,Except.bind] at done
    split at done
    · cases done
    split at done
    · cases done
    split at done
    · cases done
    cases done
    refine ⟨guards.mine,fun file contents state pending => ?_,guards.spared (List.forall_mem_nil _)⟩
    cases pending
    exact hardSlot_snapshot

theorem prepareLog_guards : Preserves (Guards core owner allows) (prepareLog update) := by
  refine invoke_guards fun driver storage effects guards done => ?_
  obtain ⟨_,-,done⟩ := bind_ok.mp done
  obtain ⟨next,-,done⟩ := bind_ok.mp done
  cases done
  exact ⟨guards.mine,(fun file contents state pending => by cases pending),guards.spared (by simp [CrashDisk.Effect.changes])⟩

theorem sync_guards : Preserves (Guards core owner allows) sync := by
  refine invoke_guards fun driver storage effects guards done => ?_
  unfold Store.sync at done
  split at done
  · cases done
  split at done
  · cases done
  · rename_i file contents state pending
    cases done
    exact ⟨guards.mine,(fun file contents state pending => by cases pending),guards.spared (create_spares (guards.slot _ _ _ pending))⟩
  · cases done
    exact ⟨guards.mine,(fun file contents state pending => by cases pending),guards.spared (by simp [CrashDisk.Effect.changes])⟩

theorem installSnapshot_guards (may : Publishable image → allows (some (encodeSnapshot owner image))) :
    Preserves (Guards core owner allows) (installSnapshot image) := by
  refine invoke_guards fun driver storage effects guards done => ?_
  obtain ⟨_,-,done⟩ := bind_ok.mp done
  split at done
  · cases done
  obtain ⟨published,wrote,done⟩ := bind_ok.mp done
  cases done
  refine ⟨guards.mine,guards.slot,fun count => ?_⟩
  unfold Store.publishSnapshot at wrote
  split at wrote
  · obtain ⟨durable,-,wrote⟩ := bind_ok.mp wrote
    split at wrote
    · cases wrote
    · cases wrote
      exact guards.spared (create_spares (by decide)) count
  · rw [guards.mine] at wrote ⊢
    exact writeAtomic_allows wrote guards.file may (create_spares (by decide)) count

theorem persist_guards (prepared : Preserves (Guards core owner allows) prepare) :
    Preserves (Guards core owner allows) (persist prepare) :=
  reach_guards.andThen (prepared.andThen (reach_guards.andThen (sync_guards.andThen reach_guards)))

theorem persistAction_guards (may : ∀ image, action = .persistSnapshot image → Publishable image → allows (some (encodeSnapshot owner image))) :
    Preserves (Guards core owner allows) (persistAction action) := by
  have forgets : Preserves (Guards core owner allows) forgetDurable :=
    fun driver guards => {guards with}
  cases action with
  | persistHardState => exact persist_guards prepareHardState_guards
  | persistLog => exact persist_guards prepareLog_guards
  | persistSnapshot image =>
    exact reach_guards.andThen ((installSnapshot_guards (may image rfl)).andThen (forgets.andThen reach_guards))
  | _ => exact .skip

end guards
end ForgeKv.Persisted
