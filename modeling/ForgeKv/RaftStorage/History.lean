import ForgeKv.RaftStorage.Recovery

namespace ForgeKv.RaftStorage
open Raft
open CrashDisk

inductive Update where
  | hardState (update : PersistHardState)
  | log (update : PersistLog)
deriving DecidableEq, Repr

-- prepare and then sync.
def Store.persist (store : Store) : Update → Result (Store × List Effect)
  | .hardState update => do
    let prepared ← store.prepareHardState update
    prepared.sync
  | .log update => do
    let (prepared,written) ← store.prepareLog update
    let (after,synced) ← prepared.sync
    return (after,written ++ synced)

-- What the types of the source bound: 64-bit fields and what a vector can hold.
def Update.Fits (update : Update) (after : Store) : Prop :=
  match update with
  | .hardState update => update.term < 2^64 ∧ ∀ candidate, update.votedFor = some candidate → candidate < 2^64
  | .log update => update.Fits ∧ after.state.log.length < 2^63

section persist
variable {owner : Owner} {files : Files} {state : RaftPersistentState} {after : Store} {effects : List Effect}

-- A hard state that the store takes.
structure Promotes (generation : Nat) (state : RaftPersistentState) (update : PersistHardState) : Prop where
  later : state.currentTerm ≤ update.term
  unelected : update.term = 0 → update.votedFor = none
  named : update.votedFor ≠ some 0
  once : update.term = state.currentTerm → state.votedFor ≠ none → update.votedFor = state.votedFor
  above : ∀ entry ∈ state.log, entry.term ≤ update.term
  room : generation ≠ maxU64

theorem persist_hardState : (opened owner generation state).persist (.hardState update) = .ok (after,effects) ↔
    Promotes generation state update ∧
    after = opened owner (generation+1) {state with currentTerm := update.term,votedFor := update.votedFor} ∧
    effects = create (hardSlot (generation+1)) (encodeHardState owner ⟨generation+1,update.term,update.votedFor⟩) := by
  unfold Store.persist Store.prepareHardState
  simp only [opened_ready,bind,Except.bind]
  constructor
  · intro done
    split at done
    · cases done
    · rename_i prepared ready
      split at ready
      · cases ready
      · rename_i regress
        simp only [not_or,not_and,not_lt,ne_eq,not_not] at regress
        obtain ⟨later,unelected,named,once⟩ := regress
        split at ready
        · cases ready
        · rename_i below
          split at ready
          · cases ready
          · rename_i room
            cases ready
            cases done
            refine ⟨⟨later,unelected,named,once,?_,room⟩,rfl,rfl⟩
            intro entry member
            exact Nat.not_lt.mp (fun high => below ⟨entry,member,high⟩)
  · rintro ⟨⟨later,unelected,named,once,above,room⟩,rfl,rfl⟩
    rw [if_neg,if_neg,if_neg room]
    · rfl
    · rintro ⟨entry,member,high⟩
      exact absurd (above entry member) (Nat.not_le.mpr high)
    · rintro (low | ⟨zero,voted⟩ | bad | ⟨same,voted,other⟩)
      · omega
      · exact voted (unelected zero)
      · exact named bad
      · exact other (once same voted)

theorem persist_log : (opened owner generation state).persist (.log update) = .ok (after,effects) ↔
    Admits state update ∧ after = opened owner generation {state with log := updatedLog state update} ∧
    effects = [.append .journal (encodeLogUpdate update),.sync .journal] := by
  unfold Store.persist Store.prepareLog
  simp only [opened_ready]
  constructor
  · intro done
    obtain ⟨⟨prepared,written⟩,first,rest⟩ := bind_ok.mp done
    obtain ⟨_,_,first⟩ := bind_ok.mp first
    obtain ⟨next,applied,first⟩ := bind_ok.mp first
    obtain ⟨admits,rfl⟩ := applyLogUpdate_iff.mp applied
    cases first
    obtain ⟨⟨synced,more⟩,second,rest⟩ := bind_ok.mp rest
    cases second
    cases rest
    exact ⟨admits,rfl,rfl⟩
  · rintro ⟨admits,rfl,rfl⟩
    have applied : applyLogUpdate .invalidUpdate state update = _ :=
      applyLogUpdate_iff.mpr ⟨admits,rfl⟩
    rw [applied]
    rfl

end persist

section image
variable {owner : Owner} {files left : Files} {state : RaftPersistentState}

theorem HardFiles.promoted (hard : HardFiles owner files ⟨generation,state.currentTerm,state.votedFor⟩)
    (promotes : Promotes generation state update) (small : update.term < 2^64)
    (named : ∀ candidate, update.votedFor = some candidate → candidate < 2^64) :
    HardFiles owner (files.run (create (hardSlot (generation+1)) (encodeHardState owner ⟨generation+1,update.term,update.votedFor⟩)))
      ⟨generation+1,update.term,update.votedFor⟩ := by
  have bound := hard.fits.generation
  have room := promotes.room
  simp only [maxU64] at bound room
  have record : HardRecord.Fits ⟨generation+1,update.term,update.votedFor⟩ := by
    refine ⟨by simp only; omega,small,named,Nat.succ_ne_zero _,?_⟩
    intro candidate (voted : update.votedFor = some candidate)
    refine ⟨fun zero => promotes.named (by rw [voted,zero]),fun zero => ?_⟩
    have none := promotes.unelected zero
    rw [none] at voted
    cases voted
  exact ⟨record,create_same,_,rfl,hard.fits,(create_other (hardSlot_next generation).symm).trans hard.newer⟩

theorem Valid.promoted (valid : Valid state) (later : state.currentTerm ≤ term) :
    Valid {state with currentTerm := term,votedFor := votedFor} := by
  refine ⟨valid.log.later later,valid.room,valid.short,?_⟩
  intro image taken
  obtain ⟨boundary,size,past⟩ := valid.snapshot image taken
  exact ⟨boundary,size,Nat.le_trans past later⟩

section
variable (image : Image owner files generation state [])
include image

theorem Image.promoted (promotes : Promotes generation state update)
    (small : update.term < 2^64) (named : ∀ candidate, update.votedFor = some candidate → candidate < 2^64) :
    Image owner (files.run (create (hardSlot (generation+1)) (encodeHardState owner ⟨generation+1,update.term,update.votedFor⟩)))
      (generation+1) {state with currentTerm := update.term,votedFor := update.votedFor} [] := by
  obtain ⟨identity,hard,snapshot,⟨updates,present,fits,replays⟩,valid⟩ := image
  exact ⟨(create_other hardSlot_identity.symm).trans identity,hard.promoted promotes small named,
    (create_other hardSlot_snapshot.symm).trans snapshot,
    ⟨updates,(create_other hardSlot_journal.symm).trans present,fits,replays.same ⟨rfl,rfl,rfl,promotes.later⟩⟩,
    valid.promoted promotes.later⟩

theorem Image.appending (tail : Bytes) :
    Image owner (CrashDisk.Effect.apply files (.append .journal tail)) generation state tail := by
  obtain ⟨identity,hard,snapshot,⟨updates,present,fits,replays⟩,valid⟩ := image
  refine ⟨(append_other (by decide)).trans identity,hard.frame (fun _ => append_other hardSlot_journal),
    (append_other (by decide)).trans snapshot,⟨updates,?_,fits,replays⟩,valid⟩
  rw [append_same,present,Option.map_some,List.append_nil]

theorem Image.appended (admits : Admits state update) (fits : update.Fits)
    (short : (updatedLog state update).length < 2^63) :
    Image owner (CrashDisk.Effect.apply files (.append .journal (encodeLogUpdate update))) generation
      {state with log := updatedLog state update} [] := by
  obtain ⟨identity,hard,snapshot,⟨updates,present,others,replays⟩,_⟩ := image.appending (encodeLogUpdate update)
  refine ⟨identity,hard,snapshot,⟨updates ++ [update],?_,?_,replays.snoc admits⟩,admits.valid image.valid fits.start short⟩
  · rw [present]
    simp [journalFile]
  · intro other member
    rcases List.mem_append.mp member with member | member
    · exact others other member
    · rw [List.mem_singleton.mp member]
      exact admits.fits fits

theorem Image.persisted {after : Store}
    (done : (opened owner generation state).persist update = .ok (after,effects)) (fits : update.Fits after) :
    ∃ later final, after = opened owner later final ∧ Image owner (files.run effects) later final [] ∧
      ∀ left, Leaves files effects left → (∃ tail, Torn tail ∧ Image owner left generation state tail) ∨
        Image owner left later final [] := by
  cases update with
  | hardState =>
    obtain ⟨promotes,rfl,rfl⟩ := persist_hardState.mp done
    have final := image.promoted promotes fits.1 fits.2
    refine ⟨_,_,rfl,final,?_⟩
    intro left leaves
    rcases CrashDisk.leaves_publish leaves with same | leaves
    · exact .inl ⟨[],torn_nil,same ▸ image⟩
    · rw [CrashDisk.leaves_nil (CrashDisk.leaves_syncDirectory leaves)]
      exact .inr final
  | log update =>
    obtain ⟨admits,rfl,rfl⟩ := persist_log.mp done
    have final := image.appended admits fits.1 fits.2
    refine ⟨_,_,rfl,final,?_⟩
    intro left leaves
    obtain ⟨kept,rfl⟩ := CrashDisk.leaves_append_sync leaves
    by_cases short : kept < (encodeLogUpdate update).length
    · exact .inl ⟨_,torn_take (admits.fits fits.1) short,image.appending _⟩
    · rw [List.take_of_length_le (Nat.not_lt.mp short)]
      exact .inr final

end

end image

end ForgeKv.RaftStorage
