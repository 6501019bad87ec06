import ForgeKv.Persisted.Driver
import ForgeKv.Raft.Emission
import ForgeKv.RaftStorage.Install
import ForgeKv.RaftStorage.Opening

namespace ForgeKv.Persisted
open Raft RaftStorage
open Procedure (Ensures Keeps)
open PersistedRaftNode (reach perform invoke prepareHardState prepareLog sync installSnapshot persist forgetDurable
  persistAction output publishAction drive run compact call)

def Has (state : RaftPersistentState) (store : Store) : Prop := ∃ owner generation, store = opened owner generation state

def Pends (state : RaftPersistentState) (store : Store) : Prop :=
  store.closed = false ∧ (store.pending = .log state ∨ ∃ file contents, store.pending = .hardState file contents state)

-- The sink was only ever called with the core's state on disk.
def Faithful (outputs : List Output) : Prop := ∀ output ∈ outputs, output.stored = output.core

-- A driver in the middle of a call: the core has moved to `node` already.
structure Holding (node : RaftNode) (stores : Store → Prop) (driver : PersistedRaftNode) : Prop where
  node : driver.node = node
  well : driver.isFailed = false
  faithful : Faithful driver.outputs
  stores : stores driver.storage

def Stopped (_ : Thrown) (driver : PersistedRaftNode) : Prop := Faithful driver.outputs

section updates
variable {state : RaftPersistentState}

theorem suffixBehind_after (newer : state.baseIndex < snapshot.lastIncludedIndex) :
    suffixBehind state snapshot = state.suffixAfter snapshot := by
  unfold suffixBehind RaftPersistentState.suffixAfter
  by_cases found : (state.log[snapshot.lastIncludedIndex-state.baseIndex-1]?).map LogEntry.term = some snapshot.lastIncludedTerm
  · obtain ⟨entry,got,-⟩ := Option.map_eq_some_iff.mp found
    have inside := (List.getElem?_eq_some_iff.mp got).1
    rw [if_pos ⟨by omega,found⟩,if_pos ⟨newer,found⟩]
  · rw [if_neg (fun both => found both.2),if_neg (fun both => found both.2)]

theorem updatedLog_persist (some : entries ≠ []) (low : state.baseIndex < fromIndex)
    (stable : Stable config (state.persist (.persistLog fromIndex entries))) :
    updatedLog state ⟨fromIndex,entries⟩ = state.log.take (fromIndex-state.baseIndex-1) ++ entries := by
  have found := List.getLast?_eq_getLast_of_ne_nil some
  have place : state.baseIndex < (entries.getLast some).index := by
    have numbered := stable.log.numbered
    rw [← base_boundary] at numbered
    have whole : (Raft.boundary state.snapshot::(state.log.take (fromIndex-state.baseIndex-1) ++ entries)).getLast? =
        Option.some (entries.getLast some) := by
      rw [List.getLast?_cons,List.getLast?_append,found]
      rfl
    rw [List.getLast?_eq_getElem?] at whole
    have index := numbered _ _ whole
    have filled := List.length_pos_iff.mpr some
    rw [index,List.length_cons,List.length_append]
    show state.baseIndex < state.baseIndex+_
    omega
  have below := next_le state.baseIndex
  unfold updatedLog
  simp only [found]
  rw [if_neg (Nat.not_le.mpr place),Nat.max_eq_left (by omega),Nat.sub_self,List.drop_zero]

theorem prepareHardState_pends (has : Has state store)
    (done : (store.prepareHardState update).map (fun storage => (storage,([] : List Effect))) = .ok (after,effects)) :
    Pends {state with currentTerm := update.term,votedFor := update.votedFor} after := by
  obtain ⟨owner,generation,rfl⟩ := has
  unfold Store.prepareHardState at done
  simp only [opened_ready,bind,Except.bind] at done
  split at done
  · cases done
  split at done
  · cases done
  split at done
  · cases done
  cases done
  exact ⟨rfl,.inr ⟨_,_,rfl⟩⟩

theorem prepareLog_pends (has : Has state store) (done : store.prepareLog update = .ok (after,effects)) :
    Pends {state with log := updatedLog state update} after := by
  obtain ⟨owner,generation,rfl⟩ := has
  obtain ⟨_,-,done⟩ := bind_ok.mp done
  obtain ⟨next,applied,done⟩ := bind_ok.mp done
  obtain ⟨-,rfl⟩ := applyLogUpdate_iff.mp applied
  cases done
  exact ⟨rfl,.inl rfl⟩

theorem sync_has (pends : Pends state store) (done : store.sync = .ok (after,effects)) : Has state after := by
  obtain ⟨owned,generation,old,pending,closed⟩ := store
  obtain ⟨rfl,pending⟩ := pends
  rcases pending with rfl | ⟨file,contents,rfl⟩
  · cases done
    exact ⟨_,_,rfl⟩
  · cases done
    exact ⟨_,_,rfl⟩

theorem installSnapshot_has (has : Has state store) (newer : state.baseIndex < snapshot.lastIncludedIndex)
    (done : store.installSnapshot files snapshot already = .ok (after,effects)) : Has (state.persist (.persistSnapshot snapshot)) after := by
  obtain ⟨owner,generation,rfl⟩ := has
  obtain ⟨-,-,-,rfl,-⟩ := install_iff.mp done
  refine ⟨owner,generation,?_⟩
  simp only [installed,RaftPersistentState.persist,suffixBehind_after newer]

end updates

section routines
variable {node : RaftNode} {stores stores' : Store → Prop} {state : RaftPersistentState}

theorem reach_ensures : Keeps (Holding node stores) (reach point) Stopped := by
  intro driver holding
  unfold reach
  split
  · exact holding.faithful
  · exact {holding with}

theorem invoke_ensures
    (taken : ∀ driver storage effects, stores driver.storage → result driver = .ok (storage,effects) → stores' storage) :
    Ensures (Holding node stores) (invoke result) (Holding node stores') Stopped := by
  intro driver holding
  unfold invoke
  split
  · exact holding.faithful
  · rename_i storage effects ran
    unfold perform
    split
    · exact holding.faithful
    · exact {holding with stores := taken driver storage effects holding.stores ran}

theorem persist_ensures (prepared : Ensures (Holding node stores) prepare (Holding node (Pends state)) Stopped) :
    Ensures (Holding node stores) (persist prepare) (Holding node (Has state)) Stopped :=
  reach_ensures.andThen (prepared.andThen (reach_ensures.andThen
    ((invoke_ensures fun _ _ _ => sync_has).andThen reach_ensures)))

theorem forgetDurable_ensures : Keeps (Holding node stores) forgetDurable Stopped :=
  fun _ holding => {holding with}

theorem persistAction_ensures (fits : Fits floor packet offer state action) (stable : Stable config (state.persist action)) :
    Ensures (Holding node (Has state)) (persistAction action) (Holding node (Has (state.persist action))) Stopped := by
  cases action with
  | persistHardState =>
    exact persist_ensures (invoke_ensures fun _ _ _ => prepareHardState_pends)
  | persistLog =>
    obtain ⟨some,low,-,-⟩ := fits
    refine persist_ensures (invoke_ensures fun driver storage effects has done => ?_)
    have pends := prepareLog_pends has done
    rw [updatedLog_persist some low stable] at pends
    exact pends
  | persistSnapshot =>
    exact reach_ensures.andThen ((invoke_ensures fun _ _ _ has done => installSnapshot_has has fits.1 done).andThen
      (forgetDurable_ensures.andThen reach_ensures))
  | _ => exact .skip

-- What is left to persist leads from the state of the store to that of the core.
def Owes (config : RaftConfig) (floor : Nat) (packet : Option (NodeId × Message)) (offer : Option Offer) (node : RaftNode)
    (actions : Actions) (driver : PersistedRaftNode) : Prop :=
  ∃ state, Holding node (Has state) driver ∧ Asks (Stable config) floor packet offer state actions node.persistent

theorem persists_ensures (actions : Actions) : Ensures (Owes config floor packet offer node actions)
    (Procedure.forEach persistAction actions) (Holding node (Has node.persistent)) Stopped := by
  have step : ∀ action rest, Ensures (Owes config floor packet offer node (action::rest)) (persistAction action)
      (Owes config floor packet offer node rest) Stopped := by
    rintro action rest driver ⟨state,holding,asks⟩
    cases asks with
    | cons fits stable asks =>
      exact (persistAction_ensures fits stable driver holding).weaken fun final holding => ⟨_,holding,asks⟩
  intro driver owes
  refine (Ensures.forEach _ step actions driver owes).weaken ?_
  rintro final ⟨state,holding,asks⟩
  cases asks
  exact holding

theorem output_ensures (action : Action) : Keeps (Holding node (Has node.persistent)) (output action) Stopped := by
  intro driver holding
  have faithful : Faithful (driver.outputs ++ [⟨action,driver.storage.state,driver.node.persistent⟩]) := by
    intro output member
    rcases List.mem_append.mp member with old | new
    · exact holding.faithful output old
    · obtain ⟨owner,generation,same⟩ := holding.stores
      rw [List.mem_singleton.mp new,same,holding.node]
  unfold output
  dsimp only
  split
  · exact faithful
  · exact {holding with faithful := faithful}

theorem publishAction_ensures (action : Action) : Keeps (Holding node (Has node.persistent)) (publishAction action) Stopped := by
  cases action with
  | sendMessage => exact reach_ensures.andThen ((output_ensures _).andThen reach_ensures)
  | _ => exact output_ensures _

end routines

-- What holds of a driver between any two calls.
structure Orderly (driver : PersistedRaftNode) : Prop where
  faithful : Faithful driver.outputs
  well : driver.isFailed = false → Sound driver.node ∧ Has driver.node.persistent driver.storage

section calls
variable {driver after : PersistedRaftNode}

theorem drive_orderly (sound : Sound driver.node) (owes : Owes config floor packet offer driver.node (actions.filter Action.isPersist) driver)
    (ran : drive actions driver = (after,outcome)) : Orderly after := by
  have meets := (persists_ensures (actions.filter Action.isPersist)).andThen
    (Ensures.forEach (fun _ => Holding driver.node (Has driver.node.persistent)) (fun action _ => publishAction_ensures action)
      (actions.filter (fun action => !action.isPersist))) driver owes
  obtain ⟨-,⟨-,well,-,-⟩,-⟩ := owes
  unfold drive at ran
  simp only [well,Bool.false_eq_true,if_false] at ran
  split at ran
  · rename_i final done
    cases ran
    rw [done] at meets
    have holding : Holding driver.node _ _ := meets
    refine ⟨holding.faithful,fun _ => ?_⟩
    rw [holding.node]
    exact ⟨sound,holding.stores⟩
  · rename_i final thrown done
    cases ran
    rw [done] at meets
    exact ⟨meets,fun well => nomatch well⟩

theorem untouched_persistent (untouched : Untouched node thrown) : thrown.persistent = node.persistent := by
  unfold RaftNode.persistent
  rw [untouched.term,untouched.vote,untouched.snapshot,untouched.log]

theorem run_orderly (orderly : Orderly driver) (well : driver.isFailed = false) (arrives : input.Arrives)
    (ran : run input driver = (after,outcome)) : Orderly after := by
  obtain ⟨sound,has⟩ := orderly.well well
  unfold run at ran
  split at ran
  · rename_i thrown called
    cases ran
    obtain ⟨-,untouched,sound'⟩ := call_throws sound arrives.positive called
    refine ⟨orderly.faithful,fun _ => ⟨sound',?_⟩⟩
    rw [untouched_persistent untouched]
    exact has
  · rename_i node actions called
    obtain ⟨final,moves,same,-⟩ := call_returns sound arrives.positive called
    have sound' : Sound node := same ▸ clear_sound (moves_sound (clear_sound sound) moves)
    have holding : Holding node (Has driver.node.persistent) {driver with node := node} := ⟨rfl,well,orderly.faithful,has⟩
    exact drive_orderly sound' ⟨_,holding,call_asks sound arrives.positive called fun _ => moves_stable (clear_sound sound)⟩ ran

theorem call_orderly (orderly : Orderly driver) (arrives : request.input.Arrives) (ran : call request driver = (after,outcome)) :
    Orderly after := by
  unfold call at ran
  split at ran
  · cases ran
    exact orderly
  rename_i well
  have well := Bool.eq_false_of_not_eq_true well
  cases request with
  | compact snapshot alreadyDurable =>
    simp only [compact] at ran
    have begun : Orderly {driver with snapshotAlreadyDurable := alreadyDurable} := {orderly with}
    split at ran
    · rename_i final done
      cases ran
      exact run_orderly begun well arrives done
    · rename_i final thrown done
      cases ran
      exact {run_orderly begun well arrives done with}
  | _ => exact run_orderly orderly well arrives ran

theorem call_failed (failed : driver.isFailed = true) : call request driver = (driver,some .faulted) := by
  unfold call
  rw [if_pos failed]

end calls

-- The life of a driver: calls with any outcome, while others write to its directory
-- and hooks, disk and sink may fail at any point of the calls to come. Every call
-- starts with a last log index below 2^63, where no sum of the source wraps.
inductive Lives : PersistedRaftNode → PersistedRaftNode → Prop where
  | nil : Lives start start
  | call (earlier : Lives start driver) (short : driver.node.lastLogIndex < 2^63) (arrives : request.input.Arrives)
      (ran : call request driver = (after,outcome)) : Lives start after
  | outside (earlier : Lives start driver) (files : Files) (fates : List (Option Nat)) :
      Lives start {driver with files := files,fates := fates}

theorem lives_orderly (orderly : Orderly start) (lives : Lives start driver) : Orderly driver := by
  induction lives with
  | nil => exact orderly
  | call _ _ arrives ran ih => exact call_orderly ih arrives ran
  | outside _ files fates ih => exact {ih with}

theorem lives_failed (failed : start.isFailed = true) (lives : Lives start driver) :
    driver.isFailed = true ∧ driver.outputs = start.outputs := by
  induction lives with
  | nil => exact ⟨failed,rfl⟩
  | call _ _ arrives ran ih =>
    rw [call_failed ih.1] at ran
    cases ran
    exact ih
  | outside _ files fates ih => exact ih

theorem open_orderly (created : PersistedRaftNode.open clusterId config files time = .ok start) : Orderly start := by
  unfold PersistedRaftNode.open at created
  split at created
  · cases created
  split at created
  · cases created
  rename_i storage effects stored
  split at created
  · cases created
  rename_i node made
  cases created
  have made := create_ok made
  refine ⟨List.forall_mem_nil _,fun _ => ⟨made.sound,?_⟩⟩
  obtain ⟨generation,state,rfl,-⟩ := openStore_ok stored
  rw [made.durable]
  exact ⟨_,_,rfl⟩

-- Nothing is published before it is durable: whenever the sink is called the store
-- has the core's state, so it does between calls, and a failed driver stays silent.
theorem published_after_durable (created : PersistedRaftNode.open clusterId config files time = .ok start)
    (lives : Lives start driver) : (∀ output ∈ driver.outputs, output.stored = output.core) ∧
      (driver.isFailed = false → driver.storage.state = driver.node.persistent) ∧
      (driver.isFailed = true → ∀ later, Lives driver later → later.isFailed = true ∧ later.outputs = driver.outputs) := by
  have orderly := lives_orderly (open_orderly created) lives
  refine ⟨orderly.faithful,fun well => ?_,fun failed later => lives_failed failed⟩
  obtain ⟨-,owner,generation,same⟩ := orderly.well well
  rw [same]

theorem fingerprint_small (voters : List NodeId) : fixedMembershipFingerprint voters < 2^64 := by
  unfold fixedMembershipFingerprint
  dsimp only
  split
  · decide
  · exact Nat.mod_lt _ (by decide)

def ownerOf (clusterId : Nat) (config : RaftConfig) : Owner :=
  ⟨clusterId,config.selfId,fixedMembershipFingerprint config.voters⟩

theorem ownerOf_valid (valid : validateConfig config = .ok ()) (cluster : clusterId ≠ 0) (wide : clusterId < 2^64)
    (small : config.selfId < 2^64) : (ownerOf clusterId config).Valid := by
  refine ⟨⟨wide,small,fingerprint_small _⟩,cluster,fun zero => ?_⟩
  have member := (validateConfig_ok valid).member
  have self : config.selfId = 0 := zero
  rw [self] at member
  exact validateConfig_nonzero valid member

def firstDriver (owner : Owner) (config : RaftConfig) (time : Nat) (files : Files) : PersistedRaftNode :=
  ⟨opened owner 2 .empty,files,fresh config .empty time,false,false,[],[]⟩

theorem open_stored (valid : validateConfig config = .ok ()) (stored : openStore (ownerOf clusterId config) files = .ok (storage,effects))
    (made : RaftNode.create config storage.state time = .ok node) :
    PersistedRaftNode.open clusterId config files time = .ok ⟨storage,files.run effects,node,false,false,[],[]⟩ := by
  unfold ownerOf at stored
  unfold PersistedRaftNode.open
  simp only [valid,stored,made]

theorem open_new (valid : validateConfig config = .ok ()) (mine : (ownerOf clusterId config).Valid) :
    PersistedRaftNode.open clusterId config CrashDisk.Disk.empty time = .ok (firstDriver (ownerOf clusterId config) config time
      (CrashDisk.Disk.empty.run (startEffects (ownerOf clusterId config) 3))) :=
  open_stored valid (started_empty.opens mine) (create_fresh valid rfl)

-- A single voter whose election timer fires in a new directory.
def soloElected (owner : Owner) (files : Files) : PersistedRaftNode :=
  (call (.advanceTime 10) (firstDriver owner soloConfig 0 files)).1

theorem soloElected_lives (owner : Owner) (files : Files) : Lives (firstDriver owner soloConfig 0 files) (soloElected owner files) :=
  .call .nil (show 0 < 2^63 by decide) (show (Request.advanceTime 10).input.Arrives from trivial) Prod.mk.eta.symm

theorem published_after_durable_solo : ∃ start driver, PersistedRaftNode.open 7 soloConfig CrashDisk.Disk.empty 0 = .ok start ∧
    Lives start driver ∧ (∀ output ∈ driver.outputs, output.stored = output.core) ∧
    (driver.isFailed = false → driver.storage.state = driver.node.persistent) := by
  have created : PersistedRaftNode.open 7 soloConfig CrashDisk.Disk.empty 0 = _ :=
    open_new rfl (ownerOf_valid rfl (by decide) (by decide) (by decide))
  have lives := soloElected_lives (ownerOf 7 soloConfig) (CrashDisk.Disk.empty.run (startEffects (ownerOf 7 soloConfig) 3))
  obtain ⟨published,durable,-⟩ := published_after_durable created lives
  exact ⟨_,_,created,lives,published,durable⟩

-- A candidate behind the last index but one gets a vote. The core throws with an
-- entry that the store does not have, and the driver does not count as failed.
def Unsaved (candidate : PersistedRaftNode) : Prop := ∃ thrown, candidate.node.stepVote64 2 ⟨2,true⟩ = .error thrown ∧
  candidate.isFailed = false ∧ candidate.storage.state ≠ thrown.node.persistent

theorem lastState_unsaved (owner : Owner) (files : Files) :
    Unsaved (call (.advanceTime 10) ⟨opened owner 3 lastState,files,fresh (trioConfig 1) lastState 0,false,false,[],[]⟩).1 := by
  obtain ⟨node,vote,thrown,called,throws,grown⟩ : ∃ node vote thrown, (fresh (trioConfig 1) lastState 0).call (.advanceTime 10) =
      .ok (node,[.roleChanged .follower .candidate 2 none,.persistHardState 2 (some 1),.sendMessage 2 vote,.sendMessage 3 vote]) ∧
      node.stepVote64 2 ⟨2,true⟩ = .error thrown ∧ thrown.node.persistent.log ≠ [] := ⟨_,_,_,rfl,rfl,List.cons_ne_nil _ _⟩
  obtain ⟨storage,left,persisted,bare⟩ : ∃ storage left, persistAction (.persistHardState 2 (some 1))
      ⟨opened owner 3 lastState,files,node,false,false,[],[]⟩ = (⟨storage,left,node,false,false,[],[]⟩,none) ∧
      storage.state.log = [] := ⟨_,_,rfl,rfl⟩
  simp only [call,run,called,drive,Action.isPersist,List.filter,Procedure.forEach,Procedure.andThen,persisted,Bool.not_false,
    Bool.not_true,Procedure.skip]
  exact ⟨thrown,throws,rfl,fun same => grown (same ▸ bare)⟩

theorem last_index_unsaved : ∃ files start, PersistedRaftNode.open 7 (trioConfig 1) files 0 = .ok start ∧
    Unsaved (call (.advanceTime 10) start).1 := by
  have mine : (ownerOf 7 (trioConfig 1)).Valid := ownerOf_valid rfl (by decide) (by decide) (by decide)
  have valid : Valid lastState := by
    refine ⟨trivial,by decide,by decide,fun snapshot taken => ?_⟩
    cases taken
    exact ⟨⟨by decide,by decide,by decide,by decide⟩,by decide,by decide⟩
  have fits : HardRecord.Fits ⟨3,1,none⟩ := ⟨by decide,by decide,nofun,by decide,nofun⟩
  have image : Image _ _ 3 lastState [] := storedFiles_image (ownerOf 7 (trioConfig 1)) fits (by decide) (List.forall_mem_nil _) .nil valid
  obtain ⟨kept,stored,-⟩ := image.opens mine torn_nil
  exact ⟨_,_,open_stored rfl stored (create_fresh rfl rfl),lastState_unsaved _ _⟩

end ForgeKv.Persisted
