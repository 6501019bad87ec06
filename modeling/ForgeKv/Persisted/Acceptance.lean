import ForgeKv.Persisted.Durability
import ForgeKv.Raft.Widths

namespace ForgeKv.Persisted
open Raft RaftStorage
open Procedure (Ensures Keeps)
open CrashDisk (run_spared run_append)
open PersistedRaftNode (reach perform invoke prepareHardState prepareLog sync installSnapshot persist forgetDurable
  persistAction output publishAction drive run compact call)

structure Writable (entries : List LogEntry) : Prop where
  count : entries.length ≤ maxRaftLogEntriesPerRecord
  small : ∀ entry ∈ entries, entry.command.length ≤ maxRaftCommandSize
  plain : ∀ entry ∈ entries, entry.kind = .noOp → entry.command = []
  total : logRecordHeaderSize+(entries.map (fun entry => RaftStorage.entryHeaderSize+entry.command.length)).sum ≤ maxRaftLogRecordSize

section updates
variable {state : RaftPersistentState} {config : RaftConfig}

theorem accepted_writable (numbered : Numbered index entries) (sorted : entries.Pairwise (fun earlier later => earlier.term ≤ later.term))
    (above : ∀ entry ∈ entries, previous ≤ entry.term) (elected : ∀ entry ∈ entries, 0 < entry.term ∧ entry.term ≤ limit)
    (small : ∀ entry ∈ entries, entry.command.length ≤ maxRaftCommandSize)
    (plain : ∀ entry ∈ entries, entry.kind = .noOp → entry.command = [])
    (total : encoded+(entries.map (fun entry => RaftStorage.entryHeaderSize+entry.command.length)).sum ≤ maxRaftLogRecordSize)
    (room : index+entries.length ≤ 2^64) (after : base < index) :
    Accepted limit base baseTerm index previous encoded entries := by
  induction entries generalizing index previous encoded with
  | nil => trivial
  | cons entry rest ih =>
    have place : entry.index = index := numbered 0 entry rfl
    have member : entry ∈ entry::rest := List.mem_cons_self
    rw [List.map_cons,List.sum_cons] at total
    rw [List.length_cons] at room
    obtain ⟨behind,sorted⟩ := List.pairwise_cons.mp sorted
    refine ⟨⟨place,Nat.ne_of_gt (elected entry member).1,above entry member,(elected entry member).2,small entry member,
      plain entry member⟩,by omega,fun same => absurd (place.symm.trans same) (Nat.ne_of_gt after),?_⟩
    cases rest with
    | nil => trivial
    | cons =>
      rw [List.length_cons] at room
      rw [next_small (by omega)]
      exact ih numbered.tail sorted behind (fun other inside => elected other (List.mem_cons_of_mem _ inside))
        (fun other inside => small other (List.mem_cons_of_mem _ inside)) (fun other inside => plain other (List.mem_cons_of_mem _ inside))
        (by omega) (by rw [List.length_cons]; omega) (Nat.lt_succ_of_lt after)

theorem base_term (state : RaftPersistentState) : state.baseTerm = (Raft.boundary state.snapshot).term := by
  unfold RaftPersistentState.baseTerm
  cases state.snapshot <;> rfl

theorem termBefore_sorted (low : state.baseIndex < fromIndex) (joined : fromIndex ≤ state.baseIndex+state.log.length+1)
    (room : state.baseIndex+1 < 2^64) (stable : Stable config (state.persist (.persistLog fromIndex entries)))
    (member : entry ∈ entries) : termBefore state fromIndex ≤ entry.term := by
  have sorted := stable.log.sorted
  have inside : entry ∈ state.log.take (fromIndex-state.baseIndex-1) ++ entries := List.mem_append_right _ member
  obtain ⟨first,rest⟩ := List.pairwise_cons.mp sorted
  unfold termBefore
  rw [next_small room]
  split
  · rw [base_term]
    exact first entry inside
  · rename_i further
    have place : fromIndex-state.baseIndex-2 < (state.log.take (fromIndex-state.baseIndex-1)).length := by
      rw [List.length_take]
      omega
    have found := List.getElem?_eq_getElem place
    rw [List.getElem?_take_of_lt (by omega)] at found
    rw [if_pos (by omega),found]
    exact (List.pairwise_append.mp rest).2.2 _ (List.getElem_mem place) entry member

-- What a state needs so that nothing about an update of the core can be out of range.
structure Ample (config : RaftConfig) (state : RaftPersistentState) : Prop where
  stable : Stable config state
  term : state.currentTerm < 2^64
  last : state.baseIndex+state.log.length ≤ 2^63

theorem admits_writable (low : state.baseIndex < fromIndex)
    (joined : fromIndex ≤ state.baseIndex+state.log.length+1) (writable : Writable entries)
    (short : state.baseIndex+state.log.length ≤ 2^63) (ample : Ample config (state.persist (.persistLog fromIndex entries))) :
    Admits state ⟨fromIndex,entries⟩ := by
  have stable := ample.stable
  have last : state.baseIndex+(state.log.take (fromIndex-state.baseIndex-1) ++ entries).length ≤ 2^63 := ample.last
  have kept : (state.log.take (fromIndex-state.baseIndex-1)).length = fromIndex-state.baseIndex-1 := by
    rw [List.length_take]
    omega
  rw [List.length_append,kept] at last
  have numbered : Numbered fromIndex entries := by
    have whole := stable.log.numbered
    rw [← base_boundary] at whole
    have behind := (whole.drop 1).drop (fromIndex-state.baseIndex-1)
    rw [show (Raft.boundary (state.persist (.persistLog fromIndex entries)).snapshot::
      (state.persist (.persistLog fromIndex entries)).log).drop 1 = state.log.take (fromIndex-state.baseIndex-1) ++ entries from rfl,
      List.drop_left' kept,show (state.persist (.persistLog fromIndex entries)).baseIndex = state.baseIndex from rfl,
      show state.baseIndex+1+(fromIndex-state.baseIndex-1) = fromIndex by omega] at behind
    exact behind
  have sorted : entries.Pairwise (fun earlier later => earlier.term ≤ later.term) :=
    (List.pairwise_append.mp (List.pairwise_cons.mp stable.log.sorted).2).2.1
  have inside : ∀ entry ∈ entries, entry ∈ state.log.take (fromIndex-state.baseIndex-1) ++ entries :=
    fun entry member => List.mem_append_right _ member
  have straight : fromIndex+entries.length ≤ 2^64 := by omega
  refine ⟨Nat.ne_of_gt (Nat.lt_of_le_of_lt (Nat.zero_le _) low),fun _ => ?_,writable.count,?_,fun _ _ _ => ?_⟩
  · rw [next_small (by omega)]
    exact joined
  · exact accepted_writable numbered sorted (fun entry member => termBefore_sorted low joined (by omega) stable member)
      (fun entry member => ⟨stable.log.positive entry (inside entry member),
        stable.log.bounded entry (List.mem_cons_of_mem _ (inside entry member))⟩)
      writable.small writable.plain writable.total straight low
  · rw [next_small (by omega),next_small (by omega)]
    exact max_le joined (by omega)

def exhausted : StorageError := invalid "Raft hard-state generation exhausted"

theorem prepareHardState_promotes (valid : validateConfig config = .ok ())
    (fits : Fits floor packet offer state (.persistHardState term votedFor))
    (stable : Stable config (state.persist (.persistHardState term votedFor))) :
    (opened owner generation state).prepareHardState ⟨term,votedFor⟩ =
      if generation = maxU64 then .error exhausted
      else .ok ⟨owner,generation,state,.hardState (hardSlot (generation+1)) (encodeHardState owner ⟨generation+1,term,votedFor⟩)
        {state with currentTerm := term,votedFor := votedFor},false⟩ := by
  obtain ⟨later,once⟩ := fits
  have bounded : ∀ entry ∈ state.log, entry.term ≤ term := fun entry member => stable.log.bounded entry (List.mem_cons_of_mem _ member)
  have vote : ∀ candidate, votedFor = some candidate → candidate ∈ config.voters ∧ 0 < term := stable.vote
  unfold Store.prepareHardState
  rw [if_neg,if_neg]
  · rfl
  · rintro ⟨entry,member,high⟩
    exact absurd (bounded entry member) (Nat.not_le.mpr high)
  · rintro (low | ⟨zero,voted⟩ | bad | ⟨same,voted,other⟩)
    · exact Nat.not_lt.mpr later low
    · obtain ⟨candidate,named⟩ := Option.ne_none_iff_exists'.mp voted
      exact Nat.ne_of_gt (vote candidate named).2 zero
    · exact validateConfig_nonzero valid (vote 0 bad).1
    · exact other (once same voted)

end updates

def PersistedRaftNode.held (driver : PersistedRaftNode) : RaftStorage.Result (Option StateMachineSnapshot) :=
  loadSnapshot driver.storage.owner (driver.files .snapshot)

-- What the snapshot file may hold while a call goes on. `floor` is what was applied
-- when the call began.
structure Ready (floor : Nat) (offer : Option Offer) (base : Nat) (file : Option StateMachineSnapshot) (already : Bool) : Prop where
  low : ∀ held, file = some held → held.lastIncludedIndex ≤ floor ∨ held.lastIncludedIndex ≤ base
  size : ∀ image, offer = some (.image image) → image.stateMachine.length ≤ maxSnapshotPayloadSize
  same : ∀ image, offer = some (.image image) → base < image.lastIncludedIndex →
    (already = true → file = some image) ∧ ∀ held, file = some held → held.lastIncludedIndex = image.lastIncludedIndex → held = image
  asked : already = true → ∃ image, offer = some (.image image) ∧ base < image.lastIncludedIndex

-- A driver in the middle of a call, with nothing failing.
structure Calm (node : RaftNode) (stores : Store → Prop) (holds : Option StateMachineSnapshot → Bool → Prop)
    (driver : PersistedRaftNode) : Prop where
  node : driver.node = node
  well : driver.isFailed = false
  safe : driver.fates = []
  stores : stores driver.storage
  file : ∃ file, driver.held = .ok file ∧ holds file driver.snapshotAlreadyDurable

-- The one refusal that is left.
def Exhausted (thrown : Thrown) (driver : PersistedRaftNode) : Prop :=
  thrown = .storage exhausted ∧ driver.storage.hardGeneration = maxU64

def Idle (owner : Owner) (state : RaftPersistentState) (store : Store) : Prop := ∃ generation, store = opened owner generation state

def Due (owner : Owner) (state : RaftPersistentState) (store : Store) : Prop :=
  ∃ generation old pending, store = ⟨owner,generation,old,pending,false⟩ ∧
    (pending = .log state ∨ ∃ slot contents, slot ≠ .snapshot ∧ pending = .hardState slot contents state)

section routines
variable {node : RaftNode} {owner : Owner} {stores stores' : Store → Prop} {holds : Option StateMachineSnapshot → Bool → Prop}
  {state : RaftPersistentState} {config : RaftConfig} {failed : Thrown → PersistedRaftNode → Prop}

theorem reach_calm : Keeps (Calm node stores holds) (reach point) failed := by
  intro driver calm
  unfold reach
  split
  · rename_i fate fates found
    rw [calm.safe] at found
    cases found
  · exact {calm with safe := by rw [calm.safe]; rfl}

theorem perform_calm (calm : Calm node stores holds driver) :
    perform effects storage driver = ({driver with files := driver.files.run effects,storage := storage},none) := by
  unfold perform
  split
  · rename_i done fates found
    rw [calm.safe] at found
    cases found
  · rename_i fates other
    have safe := calm.safe
    obtain ⟨_,_,_,_,_,_,_⟩ := driver
    subst safe
    rfl

theorem invoke_calm (taken : ∀ driver, Calm node stores holds driver →
    (∃ storage effects, result driver = .ok (storage,effects) ∧ stores' storage ∧ storage.owner = driver.storage.owner ∧
      ∀ effect ∈ effects, effect.changes ≠ some .snapshot) ∨
    ∃ error, result driver = .error error ∧ failed (.storage error) driver) :
    Ensures (Calm node stores holds) (invoke result) (Calm node stores' holds) failed := by
  intro driver calm
  rcases taken driver calm with ⟨storage,effects,ran,after,same,spared⟩ | ⟨error,ran,broken⟩
  · obtain ⟨file,held,fine⟩ := calm.file
    simp only [invoke,ran,perform_calm calm]
    refine {calm with stores := after,file := ⟨file,?_,fine⟩}
    unfold PersistedRaftNode.held
    dsimp only
    rw [run_spared spared,same]
    exact held
  · simp only [invoke,ran]
    exact broken

theorem sync_calm : Ensures (Calm node (Due owner state) holds) sync (Calm node (Idle owner state) holds) failed := by
  refine invoke_calm fun driver calm => .inl ?_
  obtain ⟨generation,old,pending,store,found⟩ := calm.stores
  rw [store]
  rcases found with rfl | ⟨slot,contents,other,rfl⟩
  · refine ⟨_,_,rfl,⟨_,rfl⟩,rfl,?_⟩
    simp [CrashDisk.Effect.changes]
  · exact ⟨_,_,rfl,⟨_,rfl⟩,rfl,create_spares other⟩

theorem persist_calm (prepared : Ensures (Calm node stores holds) prepare (Calm node (Due owner state) holds) failed) :
    Ensures (Calm node stores holds) (persist prepare) (Calm node (Idle owner state) holds) failed :=
  reach_calm.andThen (prepared.andThen (reach_calm.andThen (sync_calm.andThen reach_calm)))

theorem prepareHardState_calm (valid : validateConfig config = .ok ())
    (fits : Fits floor packet offer state (.persistHardState term votedFor))
    (stable : Stable config (state.persist (.persistHardState term votedFor))) :
    Ensures (Calm node (Idle owner state) holds) (prepareHardState ⟨term,votedFor⟩)
      (Calm node (Due owner (state.persist (.persistHardState term votedFor))) holds) Exhausted := by
  refine invoke_calm fun driver calm => ?_
  obtain ⟨generation,store⟩ := calm.stores
  rw [store,prepareHardState_promotes valid fits stable]
  split
  · rename_i full
    exact .inr ⟨exhausted,rfl,rfl,by rw [store]; exact full⟩
  · refine .inl ⟨_,_,rfl,⟨_,_,_,rfl,.inr ⟨_,_,hardSlot_snapshot,rfl⟩⟩,rfl,List.forall_mem_nil _⟩

theorem prepareLog_calm (fits : Fits floor packet offer state (.persistLog fromIndex entries)) (writable : Writable entries)
    (short : state.baseIndex+state.log.length ≤ 2^63) (ample : Ample config (state.persist (.persistLog fromIndex entries))) :
    Ensures (Calm node (Idle owner state) holds) (prepareLog ⟨fromIndex,entries⟩)
      (Calm node (Due owner (state.persist (.persistLog fromIndex entries))) holds) Exhausted := by
  obtain ⟨filled,low,joined,-⟩ := fits
  have admits := admits_writable low joined writable short ample
  have applied : applyLogUpdate .invalidUpdate state ⟨fromIndex,entries⟩ = .ok (state.persist (.persistLog fromIndex entries)) := by
    refine applyLogUpdate_iff.mpr ⟨admits,?_⟩
    rw [updatedLog_persist filled low ample.stable]
    rfl
  refine invoke_calm fun driver calm => .inl ?_
  obtain ⟨generation,store⟩ := calm.stores
  rw [store]
  refine ⟨_,[.append .journal (encodeLogUpdate ⟨fromIndex,entries⟩)],?_,⟨generation,state,_,rfl,.inl rfl⟩,rfl,?_⟩
  · unfold Store.prepareLog
    rw [opened_ready,applied]
    rfl
  · simp [CrashDisk.Effect.changes]

theorem writeAtomic_takes (mine : owner.Fits) (boundary : BoundaryFits image)
    (small : image.stateMachine.length ≤ maxSnapshotPayloadSize) (read : loadSnapshot owner (files .snapshot) = .ok file)
    (same : ∀ held, file = some held → held.lastIncludedIndex = image.lastIncludedIndex → held = image) :
    ∃ published held, writeAtomic owner files image = .ok published ∧
      loadSnapshot owner (files.run published .snapshot) = .ok (some held) ∧
      ((held = image ∧ ∀ current, file = some current → current.lastIncludedIndex ≤ image.lastIncludedIndex) ∨
        (file = some held ∧ image.lastIncludedIndex < held.lastIncludedIndex)) := by
  have written : loadSnapshot owner (files.run (create .snapshot (encodeSnapshot owner image)) .snapshot) = .ok (some image) := by
    exact load_snapshot owner mine image boundary small
  obtain ⟨index,-,real,elected⟩ := boundary
  unfold writeAtomic
  rw [if_neg (by omega),read]
  simp only [bind,Except.bind]
  cases file with
  | none => exact ⟨_,_,rfl,written,.inl ⟨rfl,(fun _ found => by cases found)⟩⟩
  | some current =>
    dsimp only
    split
    · rename_i newer
      exact ⟨_,_,rfl,read,.inr ⟨rfl,newer⟩⟩
    · rename_i older
      have low : ∀ other, some current = some other → other.lastIncludedIndex ≤ image.lastIncludedIndex := by
        intro other found
        cases found
        exact Nat.not_lt.mp older
      split
      · rename_i equal
        have this := same current rfl equal
        rw [if_neg (not_not.mpr this)]
        exact ⟨_,_,rfl,read,.inl ⟨this,low⟩⟩
      · exact ⟨_,_,rfl,written,.inl ⟨rfl,low⟩⟩

section install
variable {image : StateMachineSnapshot} {floor : Nat} {packet : Option (NodeId × Message)} {offer : Option Offer}

theorem publishSnapshot_takes (generation : Nat) (mine : owner.Fits) (apart : packet ≠ none → offer = none)
    (fits : Fits floor packet offer state (.persistSnapshot image)) (boundary : BoundaryFits image)
    (read : loadSnapshot owner (files .snapshot) = .ok file) (ready : Ready floor offer state.baseIndex file already) :
    image.stateMachine.length ≤ maxSnapshotPayloadSize ∧
    ∃ published, (opened owner generation state).publishSnapshot files image already = .ok published ∧ ∃ later,
      loadSnapshot owner (files.run published .snapshot) = .ok later ∧
      ∀ held, later = some held → held.lastIncludedIndex ≤ floor ∨ held.lastIncludedIndex ≤ image.lastIncludedIndex := by
  obtain ⟨newer,-,-,imaged⟩ := fits
  -- The file is not ahead of an image that a peer sent.
  have same : image.stateMachine.length ≤ maxSnapshotPayloadSize ∧ (already = true → file = some image) ∧
      ∀ held, file = some held → held.lastIncludedIndex = image.lastIncludedIndex → held = image := by
    rcases imaged with ⟨asked,-⟩ | ⟨source,request,arrived,ahead,-,size⟩
    · obtain ⟨ahead,same⟩ := ready.same image asked newer
      exact ⟨ready.size image asked,ahead,same⟩
    · have none : offer = none := apart (by rw [arrived]; simp)
      refine ⟨size,fun flag => ?_,fun held found equal => ?_⟩
      · obtain ⟨other,asked,-⟩ := ready.asked flag
        rw [none] at asked
        cases asked
      · rcases ready.low held found with low | low <;> omega
  obtain ⟨small,ahead,same⟩ := same
  refine ⟨small,?_⟩
  cases already with
  | true =>
    have found := ahead rfl
    subst found
    refine ⟨[],?_,_,read,fun held found => .inr ?_⟩
    · unfold Store.publishSnapshot
      rw [if_pos rfl,read]
      exact if_neg (not_not.mpr rfl)
    · cases found
      exact Nat.le_refl _
  | false =>
    obtain ⟨published,held,wrote,read',taken⟩ := writeAtomic_takes mine boundary small read same
    refine ⟨published,wrote,_,read',fun later found => ?_⟩
    cases found
    rcases taken with ⟨rfl,-⟩ | ⟨old,beyond⟩
    · exact .inr (Nat.le_refl _)
    · refine (ready.low held old).imp_right fun low => ?_
      omega

theorem installSnapshot_calm (mine : owner.Fits) (apart : packet ≠ none → offer = none)
    (fits : Fits floor packet offer state (.persistSnapshot image)) (boundary : BoundaryFits image) :
    Ensures (Calm node (Idle owner state) (Ready floor offer state.baseIndex)) (installSnapshot image)
      (Calm node (Idle owner (state.persist (.persistSnapshot image)))
        (fun file _ => ∀ held, file = some held → held.lastIncludedIndex ≤ floor ∨ held.lastIncludedIndex ≤ image.lastIncludedIndex))
      Exhausted := by
  intro driver calm
  obtain ⟨generation,store⟩ := calm.stores
  obtain ⟨file,read,ready⟩ := calm.file
  have owned : driver.storage.owner = owner := by rw [store]
  unfold PersistedRaftNode.held at read
  rw [owned] at read
  obtain ⟨small,published,wrote,later,read',low⟩ := publishSnapshot_takes generation mine apart fits boundary read ready
  have installable : Installable state image :=
    ⟨Nat.ne_of_lt boundary.index,fits.1,Nat.ne_of_gt boundary.elected,fits.2.2.1,small⟩
  have ran : driver.storage.installSnapshot driver.files image driver.snapshotAlreadyDurable =
      .ok (opened owner generation (installed state image),published ++ create .journal (newJournal owner state image)) := by
    rw [store]
    exact install_iff.mpr ⟨installable,published,wrote,rfl,rfl⟩
  unfold installSnapshot
  simp only [invoke,ran,perform_calm calm]
  refine {calm with stores := ⟨generation,?_⟩,file := ⟨later,?_,low⟩}
  · simp only [installed,RaftPersistentState.persist,suffixBehind_after fits.1]
  · unfold PersistedRaftNode.held
    dsimp only
    rw [run_append,run_spared (create_spares (by decide))]
    exact read'

theorem forgetDurable_calm (size : ∀ image, offer = some (.image image) → image.stateMachine.length ≤ maxSnapshotPayloadSize)
    (settled : ∀ other, offer = some (.image other) → other.lastIncludedIndex ≤ image.lastIncludedIndex) :
    Ensures (Calm node (Idle owner (state.persist (.persistSnapshot image)))
        (fun file _ => ∀ held, file = some held → held.lastIncludedIndex ≤ floor ∨ held.lastIncludedIndex ≤ image.lastIncludedIndex))
      forgetDurable
      (Calm node (Idle owner (state.persist (.persistSnapshot image))) (Ready floor offer image.lastIncludedIndex))
      Exhausted := by
  intro driver calm
  obtain ⟨file,read,low⟩ := calm.file
  refine {calm with file := ⟨file,read,⟨low,size,fun other asked newer => ?_,fun flag => nomatch flag⟩⟩}
  have bound := settled other asked
  omega

theorem image_boundary (small : ∀ source message, packet = some (source,message) → message.Small)
    (fits : Fits floor packet offer state (.persistSnapshot image)) (short : state.baseIndex+state.log.length ≤ 2^63)
    (term : state.currentTerm < 2^64) : BoundaryFits image := by
  obtain ⟨newer,elected,past,imaged⟩ := fits
  have index : image.lastIncludedIndex ≤ 2^63 := by
    rcases imaged with ⟨-,inside⟩ | ⟨source,request,arrived,-,same,-⟩
    · exact Nat.le_trans inside short
    · rw [same]
      exact Nat.le_of_lt ((small _ _ arrived).indexes _ (List.mem_singleton_self _))
  refine ⟨?_,Nat.lt_of_le_of_lt past term,Nat.lt_of_le_of_lt (Nat.zero_le _) newer,elected⟩
  simp only [maxU64]
  omega

-- What a call must be like so that the store takes whatever it asks.
structure Tame (packet : Option (NodeId × Message)) (offer : Option Offer) : Prop where
  apart : packet ≠ none → offer = none
  small : ∀ source message, packet = some (source,message) → message.Small
  writable : ∀ entries, Sourced packet offer entries → Writable entries
  size : ∀ image, offer = some (.image image) → image.stateMachine.length ≤ maxSnapshotPayloadSize

theorem persistAction_calm (valid : validateConfig config = .ok ()) (mine : owner.Fits) (tame : Tame packet offer)
    (fits : Fits floor packet offer state action) (short : state.baseIndex+state.log.length ≤ 2^63)
    (ample : Ample config (state.persist action)) :
    Ensures (Calm node (Idle owner state) (Ready floor offer state.baseIndex)) (persistAction action)
      (Calm node (Idle owner (state.persist action)) (Ready floor offer (state.persist action).baseIndex)) Exhausted := by
  cases action with
  | persistHardState => exact persist_calm (prepareHardState_calm valid fits ample.stable)
  | persistLog fromIndex entries => exact persist_calm (prepareLog_calm fits (tame.writable entries fits.2.2.2) short ample)
  | persistSnapshot image =>
    have boundary := image_boundary tame.small fits short ample.term
    refine reach_calm.andThen ((installSnapshot_calm mine tame.apart fits boundary).andThen
      ((forgetDurable_calm tame.size fun other asked => ?_).andThen reach_calm))
    -- The owner hands over one image, and a peer's call has none.
    rcases fits.2.2.2 with ⟨this,-⟩ | ⟨source,request,arrived,-⟩
    · rw [asked] at this
      cases this
      exact Nat.le_refl _
    · rw [tame.apart (by rw [arrived]; simp)] at asked
      cases asked
  | _ => exact .skip

-- What is left to persist leads from the state of the store to that of the core.
def Wants (owner : Owner) (config : RaftConfig) (floor : Nat) (packet : Option (NodeId × Message)) (offer : Option Offer)
    (node : RaftNode) (actions : Actions) (driver : PersistedRaftNode) : Prop :=
  ∃ state, Calm node (Idle owner state) (Ready floor offer state.baseIndex) driver ∧ state.baseIndex+state.log.length ≤ 2^63 ∧
    Asks (Ample config) floor packet offer state actions node.persistent

theorem persists_calm (valid : validateConfig config = .ok ()) (mine : owner.Fits) (tame : Tame packet offer) (actions : Actions) :
    Ensures (Wants owner config floor packet offer node actions) (Procedure.forEach persistAction actions)
      (Calm node (Idle owner node.persistent) (Ready floor offer node.persistent.baseIndex)) Exhausted := by
  have step : ∀ action rest, Ensures (Wants owner config floor packet offer node (action::rest)) (persistAction action)
      (Wants owner config floor packet offer node rest) Exhausted := by
    rintro action rest driver ⟨state,calm,short,asks⟩
    cases asks with
    | cons fits ample asks =>
      exact (persistAction_calm valid mine tame fits short ample driver calm).weaken fun final calm => ⟨_,calm,ample.last,asks⟩
  intro driver wants
  refine (Ensures.forEach _ step actions driver wants).weaken ?_
  rintro final ⟨state,calm,-,asks⟩
  cases asks
  exact calm

theorem output_calm (action : Action) : Keeps (Calm node stores holds) (output action) Exhausted := by
  intro driver calm
  unfold output
  dsimp only
  split
  · rename_i fate fates found
    rw [calm.safe] at found
    cases found
  · exact {calm with safe := by rw [calm.safe]; rfl}

theorem publishAction_calm (action : Action) :
    Keeps (Calm node stores holds) (publishAction action) Exhausted := by
  cases action with
  | sendMessage => exact reach_calm.andThen ((output_calm _).andThen reach_calm)
  | _ => exact output_calm _

end install
end routines

def Outcome (after : PersistedRaftNode → Prop) (result : PersistedRaftNode × Option Thrown) : Prop :=
  (after result.1 ∧ (result.2 = none ∨ ∃ fault, result.2 = some (.core fault))) ∨
    (result.1.isFailed = true ∧ result.1.storage.hardGeneration = maxU64 ∧
      (result.2 = some (.storage exhausted) ∨ result.2 = some .faulted))

theorem Outcome.imp (outcome : Outcome before result) (implied : ∀ driver, before driver → after driver) : Outcome after result :=
  Or.imp_left (And.imp_left (implied _)) outcome

theorem drive_calm {driver : PersistedRaftNode} (valid : validateConfig config = .ok ()) (mine : owner.Fits) (tame : Tame packet offer)
    (wants : Wants owner config floor packet offer node (actions.filter Action.isPersist) driver) :
    Outcome (Calm node (Idle owner node.persistent) (Ready floor offer node.persistent.baseIndex)) (drive actions driver) := by
  have meets := (persists_calm valid mine tame (actions.filter Action.isPersist)).andThen
    (Ensures.forEach (fun _ => Calm node (Idle owner node.persistent) (Ready floor offer node.persistent.baseIndex))
      (fun action _ => publishAction_calm action) (actions.filter (fun action => !action.isPersist))) driver wants
  obtain ⟨_,calm,_⟩ := wants
  unfold drive
  simp only [calm.well,Bool.false_eq_true,if_false]
  split
  · rename_i final done
    rw [done] at meets
    exact .inl ⟨meets,.inl rfl⟩
  · rename_i final thrown done
    rw [done] at meets
    exact .inr ⟨rfl,meets.2,.inl (congrArg some meets.1)⟩

-- The calls that a driver is promised: a frame that the parser lets through, a
-- command and an image within their limits. An image that was published ahead is
-- still in its file, and no other image of the same index is.
def Permitted (driver : PersistedRaftNode) : Request → Prop
  | .step _ message => ∃ frame, Cluster.Decodes frame message ∧ frame.payload.length ≤ Protocol.maxPayloadSize ∧
      ∀ index ∈ message.indexes, index < 2^63
  | .propose command => command.length ≤ maxRaftCommandSize
  | .compact snapshot already => snapshot.stateMachine.length ≤ maxSnapshotPayloadSize ∧
      (driver.node.baseIndex < snapshot.lastIncludedIndex → (already = true → driver.held = .ok (some snapshot)) ∧
        ∀ other, driver.held = .ok (some other) → other.lastIncludedIndex = snapshot.lastIncludedIndex → other = snapshot)
  | _ => True

theorem Permitted.arrives (permitted : Permitted driver request) : request.input.Arrives := by
  cases request with
  | step =>
    obtain ⟨frame,decodes,-,indexes⟩ := permitted
    exact ⟨⟨frame,decodes⟩,indexes⟩
  | _ => trivial

theorem suffix_writable (decodes : Cluster.Decodes frame (.appendEntries request)) (small : frame.payload.length ≤ Protocol.maxPayloadSize)
    (split : request.entries = before ++ entries) : Writable entries := by
  obtain ⟨count,wire,total⟩ := decodes.entries
  have inside : ∀ entry ∈ entries, entry ∈ request.entries := fun entry member => split ▸ List.mem_append_right _ member
  rw [split,List.length_append] at count
  rw [split,List.map_append,List.sum_append] at total
  refine ⟨by omega,fun entry member => (wire entry (inside entry member)).command,
    fun entry member => (wire entry (inside entry member)).noOp,?_⟩
  have room : logRecordHeaderSize+Protocol.maxPayloadSize ≤ maxRaftLogRecordSize := by decide
  have size : (entries.map (fun entry => RaftStorage.entryHeaderSize+entry.command.length)).sum ≤ frame.payload.length :=
    Nat.le_trans (Nat.le_add_left ..) total
  exact Nat.le_trans (Nat.add_le_add_left (Nat.le_trans size small) _) room

theorem content_writable (content : Content offer entry.kind entry.command)
    (small : ∀ command, offer = some (.command command) → command.length ≤ maxRaftCommandSize) : Writable [entry] := by
  have size : entry.command.length ≤ maxRaftCommandSize ∧ (entry.kind = .noOp → entry.command = []) := by
    rcases content with ⟨kind,empty⟩ | ⟨kind,asked⟩
    · rw [empty]
      exact ⟨Nat.zero_le _,fun _ => rfl⟩
    · refine ⟨small _ asked,fun wrong => ?_⟩
      rw [kind] at wrong
      cases wrong
  refine ⟨by simp [maxRaftLogEntriesPerRecord],List.forall_mem_singleton.mpr size.1,List.forall_mem_singleton.mpr size.2,?_⟩
  have room : logRecordHeaderSize+(RaftStorage.entryHeaderSize+maxRaftCommandSize) ≤ maxRaftLogRecordSize := by decide
  rw [List.map_singleton,List.sum_singleton]
  omega

theorem Permitted.tame (permitted : Permitted driver request) : Tame request.input.packet request.input.offer := by
  refine ⟨?_,?_,?_,?_⟩
  · intro some
    cases request <;> first | rfl | exact absurd rfl some
  · intro source message arrived
    have arrives := permitted.arrives
    cases request with
    | step =>
      cases arrived
      exact Arrives.small arrives
    | _ => cases arrived
  · rintro entries (⟨entry,rfl,content⟩ | ⟨source,request',before,arrived,split⟩)
    · refine content_writable content fun command asked => ?_
      cases request with
      | propose =>
        cases asked
        exact permitted
      | _ => cases asked
    · cases request with
      | step =>
        cases arrived
        obtain ⟨frame,decodes,small,-⟩ := permitted
        exact suffix_writable decodes small split
      | _ => cases arrived
  · intro image asked
    cases request with
    | compact =>
      cases asked
      exact permitted.1
    | _ => cases asked

-- What holds between calls of a driver that nothing has failed.
structure Serving (driver : PersistedRaftNode) : Prop where
  owner : driver.storage.owner.Fits
  sound : Sound driver.node
  well : driver.isFailed = false
  safe : driver.fates = []
  unset : driver.snapshotAlreadyDurable = false
  store : driver.storage = opened driver.storage.owner driver.storage.hardGeneration driver.node.persistent
  term : driver.node.currentTerm < 2^64
  file : ∃ file, driver.held = .ok file ∧ ∀ held, file = some held → held.lastIncludedIndex ≤ driver.node.commitIndex

section calls
variable {driver after : PersistedRaftNode} {node : RaftNode} {owner : Owner}

theorem calm_serving (calm : Calm node (Idle owner node.persistent) (Ready floor offer node.persistent.baseIndex) after)
    (mine : owner.Fits) (sound : Sound node) (term : node.currentTerm < 2^64) (reached : floor ≤ node.commitIndex)
    (done : ∀ image, offer = some (.image image) → image.lastIncludedIndex ≤ node.baseIndex) : Serving after := by
  obtain ⟨same,well,safe,⟨generation,store⟩,file,read,ready⟩ := calm
  subst same
  have owned : after.storage.owner = owner := by rw [store]
  refine ⟨owned ▸ mine,sound,well,safe,?_,by rw [store],term,file,read,fun held found => ?_⟩
  · by_contra flag
    obtain ⟨image,asked,ahead⟩ := ready.asked (Bool.eq_true_of_not_eq_false flag)
    rw [persistent_base sound] at ahead
    exact Nat.not_lt.mpr (done image asked) ahead
  · rcases ready.low held found with low | low
    · exact Nat.le_trans low reached
    · rw [persistent_base sound] at low
      exact Nat.le_trans low sound.retained

theorem Serving.forget (serving : Serving driver) : Serving {driver with snapshotAlreadyDurable := false} := {serving with unset := rfl}

theorem throws_serving (serving : Serving driver) (arrives : input.Arrives) (called : driver.node.call input = .error thrown) :
    Serving {driver with node := thrown.node} := by
  obtain ⟨-,untouched,sound⟩ := call_throws serving.sound arrives.positive called
  obtain ⟨file,read,low⟩ := serving.file
  refine {serving with sound := sound,store := ?_,term := ?_,file := ⟨file,read,fun held found => ?_⟩}
  · rw [untouched_persistent untouched]
    exact serving.store
  · rw [untouched.term]
    exact serving.term
  · rw [untouched.commit]
    exact low held found

theorem moves_ample (sound : Sound node) (term : node.currentTerm < 2^64) (short : node.lastLogIndex < 2^63)
    (small : ∀ source message, packet = some (source,message) → message.Small) (moves : Moves packet offer node.clearActions middle) :
    Ample node.config middle.persistent := by
  have begun : Narrow node.clearActions := ⟨term,.inl short⟩
  have narrow := moves_narrow (clear_sound sound) small begun moves
  have stable := moves_stable (clear_sound sound) moves
  refine ⟨stable,narrow.term,?_⟩
  rw [persistent_last (moves_sound (clear_sound sound) moves)]
  exact narrow.last.elim Nat.le_of_lt And.left

theorem returns_serving (already : Bool) (serving : Serving driver) (short : driver.node.lastLogIndex < 2^63) (arrives : input.Arrives)
    (tame : Tame input.packet input.offer)
    (same : ∀ image, input = .compact image → driver.node.baseIndex < image.lastIncludedIndex →
      (already = true → driver.held = .ok (some image)) ∧
      ∀ other, driver.held = .ok (some other) → other.lastIncludedIndex = image.lastIncludedIndex → other = image)
    (flagged : already = true → ∃ image, input = .compact image) (called : driver.node.call input = .ok (node,actions)) :
    Outcome Serving (drive actions {driver with snapshotAlreadyDurable := already,node := node}) := by
  obtain ⟨final,moves,rfl,-⟩ := call_returns serving.sound arrives.positive called
  obtain ⟨file,read,low⟩ := serving.file
  have offered : ∀ image, input.offer = some (.image image) → input = .compact image := by
    intro image asked
    cases input with
    | compact =>
      cases asked
      rfl
    | _ => cases asked
  have asks := call_asks serving.sound arrives.positive called fun middle => moves_ample serving.sound serving.term short tame.small
  have ready : Ready driver.node.commitIndex input.offer driver.node.persistent.baseIndex file already := by
    refine ⟨fun held found => .inl (low held found),tame.size,fun image asked newer => ?_,fun flag => ?_⟩
    · rw [persistent_base serving.sound] at newer
      obtain ⟨ahead,alone⟩ := same image (offered image asked) newer
      refine ⟨fun flag => ?_,fun held found => alone held (found ▸ read)⟩
      rw [ahead flag] at read
      cases read
      rfl
    · obtain ⟨image,rfl⟩ := flagged flag
      refine ⟨image,rfl,?_⟩
      rw [persistent_base serving.sound]
      exact (compact_returns called).1
  have calm : Calm final.clearActions (Idle driver.storage.owner driver.node.persistent)
      (Ready driver.node.commitIndex input.offer driver.node.persistent.baseIndex)
      {driver with snapshotAlreadyDurable := already,node := final.clearActions} :=
    ⟨rfl,serving.well,serving.safe,⟨_,serving.store⟩,file,read,ready⟩
  have length : driver.node.persistent.baseIndex+driver.node.persistent.log.length ≤ 2^63 := by
    rw [persistent_last serving.sound]
    exact Nat.le_of_lt short
  have sound := moves_sound (clear_sound serving.sound) moves
  have narrow : Narrow final := moves_narrow (clear_sound serving.sound) tame.small ⟨serving.term,.inl short⟩ moves
  have reached := (moves_underway (clear_sound serving.sound) rfl moves).forward.commit
  refine (drive_calm serving.sound.config serving.owner tame ⟨_,calm,length,asks⟩).imp fun after calm =>
    calm_serving calm serving.owner (clear_sound sound) narrow.term reached fun image asked => ?_
  rw [offered image asked] at called
  rw [(compact_returns called).2]
  exact Nat.le_refl _

theorem call_serving (serving : Serving driver) (short : driver.node.lastLogIndex < 2^63) (permitted : Permitted driver request) :
    Outcome Serving (call request driver) := by
  have arrives := permitted.arrives
  have tame := permitted.tame
  unfold call
  rw [if_neg (by simp [serving.well])]
  have plain : (∀ image, request.input ≠ .compact image) → Outcome Serving (run request.input driver) := by
    intro other
    unfold run
    split
    · rename_i thrown called
      exact .inl ⟨throws_serving serving arrives called,.inr ⟨_,rfl⟩⟩
    · rename_i node actions called
      have result := returns_serving false serving short arrives tame
        (fun image asked => absurd asked (other image)) (fun flag => nomatch flag) called
      rw [← serving.unset] at result
      exact result
  cases request with
  | compact snapshot already =>
    have same := permitted.2
    simp only [compact,run]
    cases called : driver.node.call (.compact snapshot) with
    | error => exact .inl ⟨(throws_serving serving arrives called).forget,.inr ⟨_,rfl⟩⟩
    | ok =>
      have result := returns_serving already serving short arrives tame
        (fun image asked => by cases asked; exact same) (fun _ => ⟨snapshot,rfl⟩) called
      dsimp only
      split
      · rename_i final done
        rw [done] at result
        exact result
      · rename_i final thrown done
        rw [done] at result
        exact result.imp_left (And.imp_left Serving.forget)
  | advanceTime | step | propose | readBarrier => exact plain (by simp [Request.input])

theorem publish_serving (serving : Serving driver) (applied : snapshot.lastIncludedIndex ≤ driver.node.lastApplied)
    (wide : snapshot.lastIncludedIndex < 2^64 ∧ snapshot.lastIncludedTerm < 2^64)
    (wrote : writeAtomic driver.storage.owner driver.files snapshot = .ok effects) :
    Serving {driver with files := driver.files.run effects} := by
  obtain ⟨file,read,low⟩ := serving.file
  have fine : BoundaryFits snapshot ∧ snapshot.stateMachine.length ≤ maxSnapshotPayloadSize ∧
      ∀ held, file = some held → held.lastIncludedIndex = snapshot.lastIncludedIndex → held = snapshot := by
    unfold PersistedRaftNode.held at read
    unfold writeAtomic at wrote
    split at wrote
    · cases wrote
    rename_i inside
    simp only [not_or,Nat.not_lt] at inside
    obtain ⟨real,room,elected,small⟩ := inside
    refine ⟨⟨?_,wide.2,Nat.pos_of_ne_zero real,Nat.pos_of_ne_zero elected⟩,small,fun held found equal => ?_⟩
    · have bound := wide.1
      simp only [maxU64] at room ⊢
      omega
    · subst found
      rw [read] at wrote
      by_contra other
      simp only [bind,Except.bind,equal,Nat.lt_irrefl,if_false,if_true] at wrote
      rw [if_pos other] at wrote
      cases wrote
  obtain ⟨boundary,small,alone⟩ := fine
  obtain ⟨published,held,taken,read',either⟩ := writeAtomic_takes serving.owner boundary small read alone
  rw [taken] at wrote
  cases wrote
  refine {serving with file := ⟨_,read',fun image found => ?_⟩}
  cases found
  rcases either with ⟨rfl,-⟩ | ⟨old,-⟩
  · rw [← serving.sound.applied]
    exact applied
  · exact low held old

structure Fresh (owner : Owner) (config : RaftConfig) (files : Files) (driver : PersistedRaftNode) : Prop where
  made : Created config driver.node.persistent driver.node
  store : Idle owner driver.node.persistent driver.storage
  term : driver.node.currentTerm < 2^64
  read : loadSnapshot owner (driver.files .snapshot) = .ok driver.node.persistent.snapshot
  kept : driver.files .snapshot = files .snapshot
  well : driver.isFailed = false
  safe : driver.fates = []
  unset : driver.snapshotAlreadyDurable = false

theorem open_ready (created : PersistedRaftNode.open clusterId config files time = .ok start) :
    Fresh (ownerOf clusterId config) config files start := by
  unfold PersistedRaftNode.open at created
  split at created
  · cases created
  split at created
  · cases created
  rename_i storage effects stored
  split at created
  · cases created
  rename_i node made
  cases created
  have made := create_ok made
  obtain ⟨generation,state,rfl,term,read⟩ := openStore_ok stored
  have same : node.persistent = state := made.durable
  subst same
  exact ⟨made,⟨generation,rfl⟩,term,read,openStore_spares stored,rfl,rfl,rfl⟩

theorem open_serving (created : PersistedRaftNode.open clusterId config files time = .ok start) (cluster : clusterId < 2^64)
    (self : config.selfId < 2^64) : Serving start := by
  obtain ⟨made,⟨generation,store⟩,term,read,-,well,safe,unset⟩ := open_ready created
  have owner : start.storage.owner = ownerOf clusterId config := by rw [store]
  have held : start.held = .ok start.node.persistent.snapshot := by
    unfold PersistedRaftNode.held
    rw [owner]
    exact read
  refine ⟨owner ▸ ⟨cluster,self,fingerprint_small _⟩,made.sound,well,safe,unset,by rw [store],term,_,held,fun held found => ?_⟩
  rw [made.commit]
  unfold RaftPersistentState.baseIndex
  rw [found]
  exact Nat.le_refl _

end calls

-- A driver's life when nothing fails on its disk: permitted calls, while images of
-- applied prefixes are published ahead into its directory.
inductive Serves : PersistedRaftNode → PersistedRaftNode → Prop where
  | nil : Serves start start
  | call (earlier : Serves start driver) (short : driver.node.lastLogIndex < 2^63) (permitted : Permitted driver request)
      (ran : call request driver = (after,outcome)) : Serves start after
  | publish (earlier : Serves start driver) (applied : snapshot.lastIncludedIndex ≤ driver.node.lastApplied)
      (wide : snapshot.lastIncludedIndex < 2^64 ∧ snapshot.lastIncludedTerm < 2^64)
      (wrote : writeAtomic driver.storage.owner driver.files snapshot = .ok effects) :
      Serves start {driver with files := driver.files.run effects}

def Spent (driver : PersistedRaftNode) : Prop := driver.isFailed = true ∧ driver.storage.hardGeneration = maxU64

theorem serves_serving (serving : Serving start) (serves : Serves start driver) : Serving driver ∨ Spent driver := by
  induction serves with
  | nil => exact .inl serving
  | call _ short permitted ran ih =>
    rcases ih with serving | spent
    · have outcome := call_serving serving short permitted
      rw [ran] at outcome
      exact Or.imp And.left (fun failed => ⟨failed.1,failed.2.1⟩) outcome
    · rw [call_failed spent.1] at ran
      cases ran
      exact .inr spent
  | publish _ applied wide wrote ih => exact ih.imp (fun serving => publish_serving serving applied wide wrote) id

-- The store takes everything that the core asks of it, so no peer and no client can
-- fail the driver. The one refusal left comes when all generations are used up.
theorem store_accepts_core (created : PersistedRaftNode.open clusterId config files time = .ok start) (cluster : clusterId < 2^64)
    (self : config.selfId < 2^64) (serves : Serves start driver) (short : driver.node.lastLogIndex < 2^63)
    (permitted : Permitted driver request) (ran : call request driver = (after,outcome)) :
    (after.isFailed = false ∧ (outcome = none ∨ ∃ fault, outcome = some (.core fault))) ∨
      (after.isFailed = true ∧ after.storage.hardGeneration = maxU64 ∧
        (outcome = some (.storage exhausted) ∨ outcome = some .faulted)) := by
  rcases serves_serving (open_serving created cluster self) serves with serving | spent
  · have result := call_serving serving short permitted
    rw [ran] at result
    exact result.imp_left (And.imp_left Serving.well)
  · rw [call_failed spent.1] at ran
    cases ran
    exact .inr ⟨spent.1,spent.2,.inr rfl⟩

theorem store_accepts_core_solo : ∃ start, PersistedRaftNode.open 7 soloConfig CrashDisk.Disk.empty 0 = .ok start ∧
    ((call (.advanceTime 10) start).1.isFailed = false ∧
      ((call (.advanceTime 10) start).2 = none ∨ ∃ fault, (call (.advanceTime 10) start).2 = some (.core fault)) ∨
    ((call (.advanceTime 10) start).1.isFailed = true ∧ (call (.advanceTime 10) start).1.storage.hardGeneration = maxU64 ∧
      ((call (.advanceTime 10) start).2 = some (.storage exhausted) ∨ (call (.advanceTime 10) start).2 = some .faulted))) := by
  have created : PersistedRaftNode.open 7 soloConfig CrashDisk.Disk.empty 0 = _ :=
    open_new rfl (ownerOf_valid rfl (by decide) (by decide) (by decide))
  exact ⟨_,created,store_accepts_core created (by decide) (by decide) .nil (by decide)
    (show Permitted _ (.advanceTime 10) from trivial) Prod.mk.eta.symm⟩

theorem persistAction_refused {driver : PersistedRaftNode} (safe : driver.fates = [])
    (refused : driver.storage.prepareHardState ⟨term,votedFor⟩ = .error error) :
    persistAction (.persistHardState term votedFor) driver = (driver,some (.storage error)) := by
  obtain ⟨storage,files,node,isFailed,already,fates,outputs⟩ := driver
  subst safe
  simp only [persistAction,persist,Procedure.andThen,reach,List.tail_nil,prepareHardState,invoke,refused,Except.map]

theorem call_refused (driver : PersistedRaftNode) (well : driver.isFailed = false) (safe : driver.fates = [])
    (called : driver.node.call (.advanceTime now) = .ok (node,actions))
    (first : actions.filter Action.isPersist = .persistHardState term votedFor::rest)
    (refused : driver.storage.prepareHardState ⟨term,votedFor⟩ = .error error) :
    ∃ after, call (.advanceTime now) driver = (after,some (.storage error)) ∧ after.isFailed = true := by
  have stopped : persistAction (.persistHardState term votedFor) {driver with node := node} =
      ({driver with node := node},some (.storage error)) := persistAction_refused safe refused
  rw [well] at stopped
  refine ⟨{driver with node := node,isFailed := true},?_,rfl⟩
  simp [call,well,run,called,drive,first,Procedure.forEach,Procedure.andThen,stopped]

-- The first election in a directory whose hard state has the last generation of
-- all fails its driver.
theorem last_generation_refused : ∃ files start after, PersistedRaftNode.open 7 soloConfig files 0 = .ok start ∧
    Permitted start (.advanceTime 10) ∧ call (.advanceTime 10) start = (after,some (.storage exhausted)) ∧ after.isFailed = true := by
  have mine : (ownerOf 7 soloConfig).Valid := ownerOf_valid rfl (by decide) (by decide) (by decide)
  have image : Image _ _ maxU64 .empty [] := storedFiles_image (ownerOf 7 soloConfig) (baseline_fits (by decide) (by decide)) (by decide)
    (List.forall_mem_nil _) .nil ⟨trivial,by decide,by decide,nofun⟩
  obtain ⟨kept,stored,-⟩ := image.opens mine torn_nil
  have made : RaftNode.create soloConfig .empty 0 = .ok (fresh soloConfig .empty 0) := create_fresh rfl rfl
  have refused : (opened (ownerOf 7 soloConfig) maxU64 .empty).prepareHardState ⟨1,some 1⟩ = .error exhausted := rfl
  have called : ∃ node actions rest, (fresh soloConfig .empty 0).call (.advanceTime 10) = .ok (node,actions) ∧
      actions.filter Action.isPersist = .persistHardState 1 (some 1)::rest := ⟨_,_,_,rfl,rfl⟩
  obtain ⟨node,actions,rest,called,first⟩ := called
  obtain ⟨after,ran,failed⟩ := call_refused ⟨_,_,_,_,_,_,_⟩ rfl rfl called first refused
  exact ⟨_,_,after,open_stored rfl stored made,trivial,ran,failed⟩

end ForgeKv.Persisted
