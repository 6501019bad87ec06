import ForgeKv.RaftStorage.History

namespace ForgeKv.RaftStorage
open Raft
open CrashDisk

-- A snapshot that install_snapshot takes.
structure Installable (state : RaftPersistentState) (snapshot : StateMachineSnapshot) : Prop where
  room : snapshot.lastIncludedIndex ≠ maxU64
  newer : state.baseIndex < snapshot.lastIncludedIndex
  elected : snapshot.lastIncludedTerm ≠ 0
  past : snapshot.lastIncludedTerm ≤ state.currentTerm
  small : snapshot.stateMachine.length ≤ maxSnapshotPayloadSize

def installed (state : RaftPersistentState) (snapshot : StateMachineSnapshot) : RaftPersistentState :=
  {state with snapshot := some snapshot,log := suffixBehind state snapshot}

-- That the local log has the snapshot's last entry.
def Logged (state : RaftPersistentState) (snapshot : StateMachineSnapshot) : Prop :=
  snapshot.lastIncludedIndex ≤ state.baseIndex+state.log.length ∧
    (state.log[snapshot.lastIncludedIndex-state.baseIndex-1]?).map LogEntry.term = some snapshot.lastIncludedTerm

section install
variable {owner : Owner} {files : Files} {state : RaftPersistentState} {snapshot : StateMachineSnapshot}

theorem install_iff : (opened owner generation state).installSnapshot files snapshot already = .ok (after,effects) ↔
    Installable state snapshot ∧ ∃ published, (opened owner generation state).publishSnapshot files snapshot already = .ok published ∧
      after = opened owner generation (installed state snapshot) ∧
      effects = published ++ create .journal (newJournal owner state snapshot) := by
  unfold Store.installSnapshot
  simp only [opened_ready]
  constructor
  · intro done
    obtain ⟨_,_,done⟩ := bind_ok.mp done
    split at done
    · cases done
    · rename_i fine
      simp only [not_or,not_le,not_lt] at fine
      obtain ⟨room,newer,elected,past,small⟩ := fine
      obtain ⟨published,wrote,done⟩ := bind_ok.mp done
      cases done
      exact ⟨⟨room,newer,elected,past,small⟩,published,wrote,rfl,rfl⟩
  · rintro ⟨⟨room,newer,elected,past,small⟩,published,wrote,rfl,rfl⟩
    rw [if_neg (by omega),wrote]
    rfl

theorem Installable.boundary (installable : Installable state snapshot) (fits : snapshot.lastIncludedIndex < 2^64)
    (small : state.currentTerm < 2^64) : BoundaryFits snapshot := by
  have room := installable.room
  have newer := installable.newer
  have elected := installable.elected
  have past := installable.past
  simp only [maxU64] at room
  exact ⟨by simp only [maxU64]; omega,by omega,by omega,by omega⟩

section
variable (valid : Valid state) (installable : Installable state snapshot) (fits : snapshot.lastIncludedIndex < 2^64)
include valid installable fits

theorem suffixBehind_logFrom :
    LogFrom state.currentTerm (snapshot.lastIncludedIndex+1) snapshot.lastIncludedTerm (suffixBehind state snapshot) ∧
    snapshot.lastIncludedIndex+(suffixBehind state snapshot).length < 2^64 ∧
    (suffixBehind state snapshot).length ≤ state.log.length := by
  have newer := installable.newer
  unfold suffixBehind
  dsimp only
  split
  · rename_i logged
    obtain ⟨inside,term⟩ := logged
    obtain ⟨entry,found,same⟩ := Option.map_eq_some_iff.mp term
    have room := valid.room
    have later := (valid.log.split
      (show snapshot.lastIncludedIndex-state.baseIndex-1+1 ≤ state.log.length by omega)).2
    rw [lastTerm_take found,same,
      show state.baseIndex+1+(snapshot.lastIncludedIndex-state.baseIndex-1+1) = snapshot.lastIncludedIndex+1 by omega] at later
    rw [List.length_drop]
    exact ⟨later,by omega,by omega⟩
  · exact ⟨trivial,fits,Nat.zero_le _⟩

theorem installed_valid (small : state.currentTerm < 2^64) : Valid (installed state snapshot) := by
  obtain ⟨log,room,shorter⟩ := suffixBehind_logFrom valid installable fits
  refine ⟨log,room,Nat.lt_of_le_of_lt shorter valid.short,?_⟩
  intro image taken
  cases taken
  exact ⟨installable.boundary fits small,installable.small,installable.past⟩

theorem newJournal_replays (small : state.currentTerm < 2^64) :
    Replays {installed state snapshot with log := []} (batches (snapshot.lastIncludedIndex+1) (suffixBehind state snapshot))
      (suffixBehind state snapshot) ∧
    ∀ update ∈ batches (snapshot.lastIncludedIndex+1) (suffixBehind state snapshot), UpdateFits update := by
  obtain ⟨log,room,shorter⟩ := suffixBehind_logFrom valid installable fits
  have whole := installed_valid valid installable fits small
  have empty : Valid {installed state snapshot with log := []} :=
    ⟨trivial,Nat.lt_of_le_of_lt (Nat.le_add_right _ (suffixBehind state snapshot).length) room,by simp,whole.snapshot⟩
  have replays : Replays _ (batches (snapshot.lastIncludedIndex+1) (suffixBehind state snapshot)) ([] ++ suffixBehind state snapshot) :=
    batches_replay empty rfl log (by omega) (by simpa using Nat.lt_of_le_of_lt shorter valid.short)
  refine ⟨replays,replays.fits ?_⟩
  intro update member
  obtain ⟨start,entries⟩ := batches_range _ _ member
  refine ⟨by omega,?_⟩
  intro entry found
  obtain ⟨position,_,inside,fine⟩ := log.mem (entries entry found)
  have index := fine.index
  have past := fine.past
  exact ⟨by omega,by omega⟩

end

theorem image_of_journal (identity : files .identity = some (encodeIdentity owner))
    (hard : HardFiles owner files ⟨generation,state.currentTerm,state.votedFor⟩)
    (published : files .snapshot = some (encodeSnapshot owner snapshot)) (valid : Valid state)
    (installable : Installable state snapshot) (fits : snapshot.lastIncludedIndex < 2^64) :
    Image owner (files.run (create .journal (newJournal owner state snapshot))) generation (installed state snapshot) [] := by
  have small : state.currentTerm < 2^64 := hard.fits.term
  obtain ⟨replays,fit⟩ := newJournal_replays valid installable fits small
  refine ⟨(create_other (by decide)).trans identity,hard.frame (fun _ => create_other hardSlot_journal),
    (create_other (by decide)).trans published,⟨_,?_,fit,replays⟩,installed_valid valid installable fits small⟩
  refine create_same.trans ?_
  rw [List.append_nil]
  rfl

def installedFiles (owner : Owner) (files : Files) (state : RaftPersistentState) (snapshot : StateMachineSnapshot) : Files :=
  (files.run (create .snapshot (encodeSnapshot owner snapshot))).run (create .journal (newJournal owner state snapshot))

theorem Image.afterInstall (image : Image owner files generation state []) (installable : Installable state snapshot)
    (fits : snapshot.lastIncludedIndex < 2^64) :
    Image owner (installedFiles owner files state snapshot) generation (installed state snapshot) [] :=
  image_of_journal ((create_other (by decide)).trans image.identity) (image.hard.frame (fun _ => create_other hardSlot_snapshot))
    create_same image.valid installable fits

-- A snapshot that was published while the journal still starts from an older one.
structure Ahead (owner : Owner) (files : Files) (generation : Nat) (state : RaftPersistentState) (snapshot : StateMachineSnapshot)
    (tail : Bytes) : Prop where
  identity : files .identity = some (encodeIdentity owner)
  hard : HardFiles owner files ⟨generation,state.currentTerm,state.votedFor⟩
  published : files .snapshot = some (encodeSnapshot owner snapshot)
  journal : ∃ updates, files .journal = some (journalFile owner state.snapshot updates ++ tail) ∧
    (∀ update ∈ updates, UpdateFits update) ∧ Replays {state with log := []} updates state.log
  valid : Valid state
  boundary : BoundaryFits snapshot
  installable : Installable state snapshot

theorem Image.ahead (image : Image owner files generation state tail) (installable : Installable state snapshot)
    (fits : snapshot.lastIncludedIndex < 2^64) :
    Ahead owner (files.run (create .snapshot (encodeSnapshot owner snapshot))) generation state snapshot tail := by
  obtain ⟨identity,hard,_,⟨updates,present,others,replays⟩,valid⟩ := image
  exact ⟨(create_other (by decide)).trans identity,hard.frame (fun _ => create_other hardSlot_snapshot),create_same,
    ⟨updates,(create_other (by decide)).trans present,others,replays⟩,valid,installable.boundary fits hard.fits.term,installable⟩

theorem boundary_base (state : RaftPersistentState) : ((boundary state.snapshot).map Prod.fst).getD 0 = state.baseIndex := by
  unfold RaftPersistentState.baseIndex RaftStorage.boundary
  cases state.snapshot <;> rfl

section
variable (newer : state.baseIndex < snapshot.lastIncludedIndex)
include newer

theorem suffixBehind_logged (logged : Logged state snapshot) :
    suffixBehind state snapshot = state.log.drop (snapshot.lastIncludedIndex-state.baseIndex) := by
  refine (if_pos logged).trans ?_
  rw [Nat.sub_add_cancel (by omega)]

theorem boundaryMatches_iff :
    boundaryMatches (boundary state.snapshot) state.log snapshot ↔ Logged state snapshot := by
  unfold boundaryMatches Logged
  rw [boundary_base,if_neg (by omega)]
  refine ⟨fun found => ⟨?_,found⟩,And.right⟩
  obtain ⟨entry,there,-⟩ := Option.map_eq_some_iff.mp found
  have inside := (List.getElem?_eq_some_iff.mp there).1
  omega

theorem dropCovered_ahead :
    (Logged state snapshot → dropCovered (boundary state.snapshot) (some snapshot)
      ⟨state.currentTerm,state.votedFor,bare state.snapshot,state.log⟩ = .ok (installed state snapshot)) ∧
    (¬ Logged state snapshot → dropCovered (boundary state.snapshot) (some snapshot)
      ⟨state.currentTerm,state.votedFor,bare state.snapshot,state.log⟩ =
        .error (corruption "full Raft journal conflicts with snapshot boundary")) := by
  constructor
  · intro logged
    unfold dropCovered installed
    dsimp only
    rw [if_pos ((boundaryMatches_iff newer).mpr logged),suffixBehind_logged newer logged,boundary_base]
  · intro lacks
    exact if_neg (fun matched => lacks ((boundaryMatches_iff newer).mp matched))

end

section
variable (mine : owner.Valid) (ahead : Ahead owner files generation state snapshot tail) (torn : Torn tail)
include mine ahead torn

theorem Ahead.recoverLog :
    ∃ kept, openStore owner files = (do
      let recovered ← dropCovered (RaftStorage.boundary state.snapshot) (some snapshot)
        ⟨state.currentTerm,state.votedFor,bare state.snapshot,state.log⟩
      return (opened owner generation recovered,cutTail kept tail ++ [.sync .journal,.syncDirectory])) := by
  obtain ⟨identity,hard,published,⟨updates,present,fits,replays⟩,valid,boundary,installable⟩ := ahead
  have loads := loadBoundary_snapshot mine.fits (some snapshot) published (fun image taken => by
    cases taken
    exact ⟨boundary,installable.small,installable.past⟩)
  have newer : ∀ required ∈ RaftStorage.boundary state.snapshot, ¬ olderThanRequired (some snapshot) required := by
    intro required member
    have base := installable.newer
    unfold RaftPersistentState.baseIndex at base
    obtain ⟨old,taken,rfl⟩ := Option.map_eq_some_iff.mp member
    rw [taken] at base
    simp only [Option.map_some,Option.getD_some] at base
    simp only [olderThanRequired]
    omega
  refine ⟨(journalFile owner state.snapshot updates).length,?_⟩
  rw [openStore_initialized mine identity hard present,loads]
  simp only [bind,Except.bind]
  rw [recoverLog_eq mine.fits (fun snapshot taken => (valid.snapshot snapshot taken).1) fits replays torn newer]
  cases dropCovered (RaftStorage.boundary state.snapshot) (some snapshot)
    ⟨state.currentTerm,state.votedFor,bare state.snapshot,state.log⟩ <;> rfl

theorem Ahead.opens (logged : Logged state snapshot) : ∃ kept, openStore owner files =
      .ok (opened owner generation (installed state snapshot),cutTail kept tail ++ [.sync .journal,.syncDirectory]) := by
  obtain ⟨kept,opens⟩ := ahead.recoverLog mine torn
  rw [(dropCovered_ahead ahead.installable.newer).1 logged] at opens
  exact ⟨kept,opens⟩

theorem Ahead.refused (lacks : ¬ Logged state snapshot) :
    openStore owner files = .error (corruption "full Raft journal conflicts with snapshot boundary") := by
  obtain ⟨kept,opens⟩ := ahead.recoverLog mine torn
  rw [(dropCovered_ahead ahead.installable.newer).2 lacks] at opens
  exact opens

end

end install

end ForgeKv.RaftStorage
