import ForgeKv.Library.Procedure
import ForgeKv.RaftStorage.RoundTrip
import ForgeKv.RaftStorage.Store

namespace ForgeKv.RaftStorage
open Raft
open BigEndian (field field_front)

-- What an update checks about one entry.
structure EntryOk (currentTerm expectedIndex previousTerm : Nat) (entry : LogEntry) : Prop where
  index : entry.index = expectedIndex
  elected : entry.term ≠ 0
  sorted : previousTerm ≤ entry.term
  past : entry.term ≤ currentTerm
  small : entry.command.length ≤ maxRaftCommandSize
  plain : entry.kind = .noOp → entry.command = []

def Accepted (currentTerm baseIndex baseTerm : Nat) : Nat → Nat → Nat → List LogEntry → Prop
  | _,_,_,[] => True
  | expectedIndex,previousTerm,encodedSize,entry::rest =>
    EntryOk currentTerm expectedIndex previousTerm entry ∧
    encodedSize+(entryHeaderSize+entry.command.length) ≤ maxRaftLogRecordSize ∧
    (entry.index = baseIndex → entry.term = baseTerm) ∧
    Accepted currentTerm baseIndex baseTerm (next expectedIndex) entry.term (encodedSize+(entryHeaderSize+entry.command.length)) rest

theorem entryOk_iff : EntryOk currentTerm expectedIndex previousTerm entry ↔
    ¬ (entry.index ≠ expectedIndex ∨ entry.term = 0 ∨ entry.term < previousTerm ∨ currentTerm < entry.term ∨
      maxRaftCommandSize < entry.command.length ∨ (entry.kind = .noOp ∧ entry.command ≠ [])) := by
  constructor
  · rintro ⟨index,elected,sorted,past,small,plain⟩ (bad | bad | bad | bad | bad | ⟨bad,full⟩)
    · exact bad index
    · exact elected bad
    · omega
    · omega
    · omega
    · exact full (plain bad)
  · intro fine
    simp only [not_or,not_and,not_lt,ne_eq,not_not] at fine
    obtain ⟨index,elected,sorted,past,small,plain⟩ := fine
    exact ⟨index,elected,sorted,past,small,plain⟩

theorem checkEntries_iff : checkEntries code currentTerm baseIndex baseTerm expectedIndex previousTerm encodedSize entries = .ok () ↔
    Accepted currentTerm baseIndex baseTerm expectedIndex previousTerm encodedSize entries := by
  induction entries generalizing expectedIndex previousTerm encodedSize with
  | nil => simp [checkEntries,Accepted]
  | cons entry rest ih =>
    unfold checkEntries Accepted
    rw [entryOk_iff]
    split
    · rename_i bad
      simp [bad]
    · rename_i fine
      have wide : entryHeaderSize ≤ maxRaftLogRecordSize := by decide
      split
      · rename_i large
        have large : ¬ encodedSize+(entryHeaderSize+entry.command.length) ≤ maxRaftLogRecordSize := by omega
        simp [large]
      · rename_i room
        have room : encodedSize+(entryHeaderSize+entry.command.length) ≤ maxRaftLogRecordSize := by omega
        split
        · rename_i conflict
          simp [conflict]
        · rename_i agrees
          rw [ih]
          have agrees : entry.index = baseIndex → entry.term = baseTerm := by
            intro same
            by_contra other
            exact agrees ⟨same,other⟩
          exact ⟨fun later => ⟨fine,room,agrees,later⟩,fun all => all.2.2.2⟩

-- An update that the log takes.
structure Admits (state : RaftPersistentState) (update : PersistLog) : Prop where
  started : update.fromIndex ≠ 0
  joined : state.baseIndex < update.fromIndex → update.fromIndex ≤ next (state.baseIndex+state.log.length)
  count : update.entries.length ≤ maxRaftLogEntriesPerRecord
  accepted : Accepted state.currentTerm state.baseIndex state.baseTerm update.fromIndex (termBefore state update.fromIndex)
    logRecordHeaderSize update.entries
  retained : ∀ last, update.entries.getLast? = some last → state.baseIndex < last.index →
    max update.fromIndex (next state.baseIndex) ≤ next (state.baseIndex+state.log.length)

def updatedLog (state : RaftPersistentState) (update : PersistLog) : List LogEntry :=
  match update.entries.getLast? with
  | none => state.log
  | some last =>
    if last.index ≤ state.baseIndex then state.log
    else
      let retainedFrom := max update.fromIndex (next state.baseIndex)
      state.log.take (retainedFrom-state.baseIndex-1) ++ update.entries.drop (retainedFrom-update.fromIndex)

theorem applyLogUpdate_iff : applyLogUpdate code state update = .ok after ↔
    Admits state update ∧ after = {state with log := updatedLog state update} := by
  unfold applyLogUpdate
  dsimp only
  split
  · rename_i bad
    refine ⟨nofun,fun ⟨⟨started,joined,count,_,_⟩,_⟩ => ?_⟩
    omega
  · rename_i fine
    simp only [not_or,not_and,not_lt] at fine
    obtain ⟨started,joined,count⟩ := fine
    rw [bind_ok]
    unfold updatedLog
    constructor
    · rintro ⟨⟨⟩,checked,done⟩
      have accepted := checkEntries_iff.mp checked
      cases found : update.entries.getLast? with
      | none =>
        rw [found] at done
        cases done
        refine ⟨⟨started,joined,count,accepted,fun last same => ?_⟩,rfl⟩
        cases found.symm.trans same
      | some =>
        rw [found] at done
        dsimp only at done ⊢
        split at done
        · rename_i covered
          cases done
          refine ⟨⟨started,joined,count,accepted,fun other same later => ?_⟩,by rw [if_pos covered]⟩
          cases found.symm.trans same
          omega
        · rename_i later
          split at done
          · cases done
          · rename_i room
            cases done
            exact ⟨⟨started,joined,count,accepted,fun _ _ _ => Nat.not_lt.mp room⟩,by rw [if_neg later]⟩
    · rintro ⟨⟨_,_,_,accepted,retained⟩,rfl⟩
      refine ⟨(),checkEntries_iff.mpr accepted,?_⟩
      cases found : update.entries.getLast? with
      | none => rfl
      | some last =>
        dsimp only
        by_cases covered : last.index ≤ state.baseIndex
        · rw [if_pos covered,if_pos covered]
          rfl
        · have room := retained last found (Nat.not_le.mp covered)
          rw [if_neg covered,if_neg covered,if_neg (Nat.not_lt.mpr room)]
          rfl

-- The same log over the same boundary, at a term that is not smaller. The vote
-- and the bytes of the snapshot do not matter to an update.
structure SameLog (state other : RaftPersistentState) : Prop where
  index : other.baseIndex = state.baseIndex
  term : other.baseTerm = state.baseTerm
  log : other.log = state.log
  later : state.currentTerm ≤ other.currentTerm

theorem Accepted.later (accepted : Accepted currentTerm baseIndex baseTerm expectedIndex previousTerm encodedSize entries)
    (later : currentTerm ≤ laterTerm) : Accepted laterTerm baseIndex baseTerm expectedIndex previousTerm encodedSize entries := by
  induction entries generalizing expectedIndex previousTerm encodedSize with
  | nil => trivial
  | cons entry rest ih =>
    obtain ⟨fine,room,agrees,others⟩ := accepted
    exact ⟨{fine with past := Nat.le_trans fine.past later},room,agrees,ih others⟩

theorem SameLog.termBefore_eq (same : SameLog state other) (fromIndex : Nat) :
    termBefore other fromIndex = termBefore state fromIndex := by
  unfold termBefore
  rw [same.index,same.term,same.log]

theorem SameLog.admits (same : SameLog state other) (admits : Admits state update) : Admits other update := by
  obtain ⟨started,joined,count,accepted,retained⟩ := admits
  refine ⟨started,?_,count,?_,?_⟩
  · rwa [same.index,same.log]
  · rw [same.index,same.term,same.termBefore_eq]
    exact accepted.later same.later
  · rwa [same.index,same.log]

theorem SameLog.updatedLog_eq (same : SameLog state other) (update : PersistLog) :
    updatedLog other update = updatedLog state update := by
  unfold updatedLog
  rw [same.index,same.log]

theorem SameLog.updated (same : SameLog state other) (update : PersistLog) :
    SameLog {state with log := updatedLog state update} {other with log := updatedLog other update} :=
  ⟨same.index,same.term,same.updatedLog_eq update,same.later⟩

-- What the updates of a journal make of a log.
inductive Replays : RaftPersistentState → List PersistLog → List LogEntry → Prop where
  | nil : Replays state [] state.log
  | cons : Admits state update → Replays {state with log := updatedLog state update} rest log → Replays state (update::rest) log

theorem Replays.same (replays : Replays state updates log) (same : SameLog state other) : Replays other updates log := by
  induction replays generalizing other with
  | nil =>
    rw [← same.log]
    exact .nil
  | cons admits _ ih => exact .cons (same.admits admits) (ih (same.updated _))

theorem Replays.append (replays : Replays state updates log)
    (later : Replays {state with log := log} more final) : Replays state (updates ++ more) final := by
  induction replays with
  | nil => exact later
  | cons admits _ ih => exact .cons admits (ih later)

theorem Replays.snoc (replays : Replays state updates log) (admits : Admits {state with log := log} update) :
    Replays state (updates ++ [update]) (updatedLog {state with log := log} update) :=
  replays.append (.cons admits .nil)

section
variable (accepted : Accepted currentTerm baseIndex baseTerm expectedIndex previousTerm encodedSize entries)
include accepted

theorem Accepted.size (room : encodedSize ≤ maxRaftLogRecordSize) : encodedSize+(entries.flatMap encodeEntry).length ≤ maxRaftLogRecordSize := by
  induction entries generalizing expectedIndex previousTerm encodedSize with
  | nil => simpa using room
  | cons entry rest ih =>
    obtain ⟨_,larger,_,others⟩ := accepted
    rw [List.flatMap_cons,List.length_append,encodeEntry_length,← Nat.add_assoc]
    exact ih others larger

theorem Accepted.mem (member : entry ∈ entries) : ∃ expectedIndex previousTerm, EntryOk currentTerm expectedIndex previousTerm entry := by
  induction entries generalizing expectedIndex previousTerm encodedSize with
  | nil => cases member
  | cons head rest ih =>
    obtain ⟨fine,_,_,others⟩ := accepted
    cases member with
    | head => exact ⟨_,_,fine⟩
    | tail _ member => exact ih others member

end

-- The fields of an update that are std::uint64_t in the source.
structure PersistLog.Fits (update : PersistLog) : Prop where
  start : update.fromIndex < 2^64
  entries : ∀ entry ∈ update.entries, entry.index < 2^64 ∧ entry.term < 2^64

theorem Admits.fits (admits : Admits state update) (fits : update.Fits) : UpdateFits update := by
  refine ⟨fits.start,admits.count,?_,?_⟩
  · intro entry member
    obtain ⟨_,_,fine⟩ := admits.accepted.mem member
    exact ⟨(fits.entries entry member).1,(fits.entries entry member).2,fine.small⟩
  · rw [record_length]
    exact admits.accepted.size (by decide)

section records
variable {state : RaftPersistentState} {update : PersistLog}

theorem record_front (update : PersistLog) (rest : Bytes) :
    (encodeLogUpdate update ++ rest).take logRecordHeaderSize = recordHeader update := by
  rw [encodeLogUpdate_eq,List.append_assoc,List.take_left' (recordHeader_length update)]

theorem record_least (update : PersistLog) : logRecordHeaderSize ≤ (encodeLogUpdate update).length := by
  rw [record_length]
  exact Nat.le_add_right ..

theorem replayRecords_record (fits : UpdateFits update) (rest : Bytes) :
    replayRecords state (encodeLogUpdate update ++ rest) = (do
      let after ← applyLogUpdate .corruption state update
      replayRecords after rest) := by
  have least := record_least update
  have whole : (encodeLogUpdate update ++ rest).length = (encodeLogUpdate update).length+rest.length := List.length_append
  rw [replayRecords,if_neg (by omega),record_front]
  rw [header_size update fits,if_neg (by have := fits.size; omega),if_neg (by omega),List.take_left,List.drop_left,
    decode_logUpdate update fits,verify_recordHeader]
  rfl

theorem replayRecords_step (fits : UpdateFits update) (admits : Admits state update) (rest : Bytes) :
    replayRecords state (encodeLogUpdate update ++ rest) = replayRecords {state with log := updatedLog state update} rest := by
  rw [replayRecords_record fits,applyLogUpdate_iff.mpr ⟨admits,rfl⟩]
  rfl

theorem replayRecords_updates (fits : ∀ update ∈ updates, UpdateFits update) (replays : Replays state updates log) (rest : Bytes) :
    replayRecords state (updates.flatMap encodeLogUpdate ++ rest) = replayRecords {state with log := log} rest := by
  induction replays with
  | nil => rfl
  | cons admits _ ih =>
    rw [List.flatMap_cons,List.append_assoc,replayRecords_step (fits _ List.mem_cons_self) admits]
    exact ih (fun other member => fits other (List.mem_cons_of_mem _ member))

theorem replayRecords_torn (fits : UpdateFits update) (short : kept < (encodeLogUpdate update).length) :
    replayRecords state ((encodeLogUpdate update).take kept) = .ok (state,(encodeLogUpdate update).take kept) := by
  have size : ((encodeLogUpdate update).take kept).length = kept := List.length_take_of_le (Nat.le_of_lt short)
  rw [replayRecords,size]
  split
  · rfl
  · rename_i headed
    have front : ((encodeLogUpdate update).take kept).take logRecordHeaderSize = recordHeader update := by
      rw [List.take_take,Nat.min_eq_left (Nat.not_lt.mp headed),encodeLogUpdate_eq,List.take_left' (recordHeader_length update)]
    rw [front,verify_recordHeader]
    simp only [bind,Except.bind]
    rw [header_size update fits,if_neg (by have := fits.size; omega),if_pos short]

theorem replayRecords_nil : replayRecords state [] = .ok (state,[]) := by
  rw [replayRecords,if_pos (by decide)]

end records

end ForgeKv.RaftStorage
