import ForgeKv.RaftStorage.Replay

namespace ForgeKv.RaftStorage
open Raft

-- Entries without a gap, from an index and a term on.
def LogFrom (currentTerm : Nat) : Nat → Nat → List LogEntry → Prop
  | _,_,[] => True
  | index,previous,entry::rest => EntryOk currentTerm index previous entry ∧ LogFrom currentTerm (index+1) entry.term rest

def lastTerm : Nat → List LogEntry → Nat
  | previous,[] => previous
  | _,entry::rest => lastTerm entry.term rest

section shape
variable {limit index previous : Nat} {entries more : List LogEntry}

theorem logFrom_append : LogFrom limit index previous (entries ++ more) ↔
    LogFrom limit index previous entries ∧ LogFrom limit (index+entries.length) (lastTerm previous entries) more := by
  induction entries generalizing index previous with
  | nil => simp [LogFrom,lastTerm]
  | cons entry rest ih =>
    simp only [List.cons_append,LogFrom,lastTerm,ih,List.length_cons,and_assoc]
    rw [show index+1+rest.length = index+(rest.length+1) by omega]

section
variable (log : LogFrom limit index previous entries)
include log

theorem LogFrom.split (inside : count ≤ entries.length) :
    LogFrom limit index previous (entries.take count) ∧
    LogFrom limit (index+count) (lastTerm previous (entries.take count)) (entries.drop count) := by
  rw [← List.take_append_drop count entries,logFrom_append,List.length_take_of_le inside] at log
  exact log

theorem LogFrom.later (later : limit ≤ laterTerm) :
    LogFrom laterTerm index previous entries := by
  induction entries generalizing index previous with
  | nil => trivial
  | cons entry rest ih => exact ⟨{log.1 with past := Nat.le_trans log.1.past later},ih log.2⟩

theorem LogFrom.mem (member : entry ∈ entries) :
    ∃ position term, position < entries.length ∧ EntryOk limit (index+position) term entry := by
  induction entries generalizing index previous with
  | nil => cases member
  | cons head rest ih =>
    cases member with
    | head => exact ⟨0,previous,Nat.succ_pos _,log.1⟩
    | tail _ member =>
      obtain ⟨position,term,inside,fine⟩ := ih log.2 member
      refine ⟨position+1,term,Nat.succ_lt_succ inside,?_⟩
      rwa [show index+(position+1) = index+1+position by omega]

theorem LogFrom.at (found : entries[position]? = some entry) :
    entry.index = index+position := by
  induction entries generalizing index previous position with
  | nil => cases found
  | cons head rest ih =>
    cases position with
    | zero =>
      cases found
      exact log.1.index
    | succ =>
      rw [ih log.2 found]
      omega

theorem LogFrom.final (found : entries.getLast? = some last) :
    last.index+1 = index+entries.length := by
  rw [List.getLast?_eq_getElem?] at found
  have inside : entries.length-1 < entries.length := (List.getElem?_eq_some_iff.mp found).1
  have place := log.at found
  omega

end

theorem lastTerm_append : lastTerm previous (entries ++ more) = lastTerm (lastTerm previous entries) more := by
  induction entries generalizing previous with
  | nil => rfl
  | cons entry rest ih => exact ih

theorem lastTerm_take (found : entries[position]? = some entry) : lastTerm previous (entries.take (position+1)) = entry.term := by
  rw [List.take_add_one,found,lastTerm_append]
  rfl

theorem next_small (small : place+1 < 2^64) : next place = place+1 := Nat.mod_eq_of_lt small

theorem next_le (place : Nat) : next place ≤ place+1 := Nat.mod_le ..

section
variable (accepted : Accepted limit baseIndex baseTerm index previous encoded entries)
include accepted

theorem Accepted.logFrom (room : index+entries.length ≤ 2^64) : LogFrom limit index previous entries := by
  induction entries generalizing index previous encoded with
  | nil => trivial
  | cons entry rest ih =>
    obtain ⟨fine,_,_,others⟩ := accepted
    rw [List.length_cons] at room
    cases rest with
    | nil => exact ⟨fine,trivial⟩
    | cons =>
      rw [List.length_cons] at room
      rw [next_small (by omega)] at others
      exact ⟨fine,ih others (by rw [List.length_cons]; omega)⟩

theorem Accepted.boundary (member : entry ∈ entries)
    (place : entry.index = baseIndex) : entry.term = baseTerm := by
  induction entries generalizing index previous encoded with
  | nil => cases member
  | cons head rest ih =>
    cases member with
    | head => exact accepted.2.2.1 place
    | tail _ member => exact ih accepted.2.2.2 member

theorem Accepted.final (fits : index < 2^64)
    (found : entries.getLast? = some last) : last.index = (index+(entries.length-1)) % 2^64 := by
  induction entries generalizing index previous encoded with
  | nil => cases found
  | cons entry rest ih =>
    cases rest with
    | nil =>
      cases found
      exact accepted.1.index.trans (Nat.mod_eq_of_lt fits).symm
    | cons =>
      rw [ih accepted.2.2.2 (Nat.mod_lt _ (by decide)) found]
      unfold next
      simp only [List.length_cons]
      omega

end

end shape

-- A log without a gap over its boundary, whatever snapshot that is. The last bound
-- is about what a vector of entries can hold.
structure Chained (state : RaftPersistentState) : Prop where
  base : state.baseIndex+1 < 2^64
  log : LogFrom state.currentTerm (state.baseIndex+1) state.baseTerm state.log
  room : state.baseIndex+state.log.length < 2^64
  short : state.log.length < 2^63

-- What holds of every durable state that the store reaches.
structure Valid (state : RaftPersistentState) : Prop where
  log : LogFrom state.currentTerm (state.baseIndex+1) state.baseTerm state.log
  room : state.baseIndex+state.log.length < 2^64
  short : state.log.length < 2^63
  snapshot : ∀ snapshot, state.snapshot = some snapshot → BoundaryFits snapshot ∧
    snapshot.stateMachine.length ≤ maxSnapshotPayloadSize ∧ snapshot.lastIncludedTerm ≤ state.currentTerm

section valid
variable {state : RaftPersistentState} {update : PersistLog}

theorem Valid.base (valid : Valid state) : state.baseIndex+1 < 2^64 := by
  unfold RaftPersistentState.baseIndex
  cases taken : state.snapshot with
  | none => decide
  | some snapshot =>
    have bound := (valid.snapshot snapshot taken).1.index
    unfold maxU64 at bound
    simp only [Option.map_some,Option.getD_some]
    omega

theorem Valid.chained (valid : Valid state) : Chained state := ⟨valid.base,valid.log,valid.room,valid.short⟩

theorem termBefore_take (chained : Chained state) (after : state.baseIndex < fromIndex)
    (joined : fromIndex ≤ state.baseIndex+state.log.length+1) :
    termBefore state fromIndex = lastTerm state.baseTerm (state.log.take (fromIndex-state.baseIndex-1)) := by
  unfold termBefore
  rw [next_small chained.base]
  split
  · rename_i first
    rw [show fromIndex-state.baseIndex-1 = 0 by omega]
    rfl
  · rename_i further
    have inside : fromIndex-state.baseIndex-2 < state.log.length := by omega
    have found := List.getElem?_eq_getElem inside
    rw [if_pos (by omega),show fromIndex-state.baseIndex-1 = fromIndex-state.baseIndex-2+1 by omega,lastTerm_take found,found]
    rfl

theorem updatedLog_past (chained : Chained state) (found : update.entries.getLast? = some last)
    (past : state.baseIndex < last.index) : updatedLog state update =
    state.log.take (update.fromIndex-state.baseIndex-1) ++ update.entries.drop (state.baseIndex+1-update.fromIndex) := by
  unfold updatedLog
  rw [found,next_small chained.base]
  dsimp only
  rw [if_neg (Nat.not_le.mpr past)]
  congr 2 <;> omega

theorem updatedLog_kept (covered : ∀ last, update.entries.getLast? = some last → last.index ≤ state.baseIndex) :
    updatedLog state update = state.log := by
  unfold updatedLog
  cases found : update.entries.getLast? with
  | none => rfl
  | some last => exact if_pos (covered last found)

theorem Admits.straight (chained : Chained state) (admits : Admits state update) (fits : update.fromIndex < 2^64)
    (found : update.entries.getLast? = some last) (past : state.baseIndex < last.index) :
    update.fromIndex+update.entries.length ≤ 2^64 := by
  have place := admits.accepted.final fits found
  have count := admits.count
  have joined := admits.joined
  have short := chained.short
  have below := next_le (state.baseIndex+state.log.length)
  unfold maxRaftLogEntriesPerRecord at count
  omega

theorem Admits.logFrom (chained : Chained state) (admits : Admits state update) (fits : update.fromIndex < 2^64) :
    LogFrom state.currentTerm (state.baseIndex+1) state.baseTerm (updatedLog state update) ∧
    state.baseIndex+(updatedLog state update).length < 2^64 := by
  by_cases covered : ∀ last, update.entries.getLast? = some last → last.index ≤ state.baseIndex
  · rw [updatedLog_kept covered]
    exact ⟨chained.log,chained.room⟩
  · simp only [not_forall,not_le] at covered
    obtain ⟨last,found,past⟩ := covered
    have straight := admits.straight chained fits found past
    have entries := admits.accepted.logFrom straight
    have final := entries.final found
    rw [updatedLog_past chained found past,List.length_append,List.length_drop]
    by_cases inside : state.baseIndex < update.fromIndex
    · have joined := Nat.le_trans (admits.joined inside) (next_le _)
      have kept : update.fromIndex-state.baseIndex-1 ≤ state.log.length := by omega
      have front := (chained.log.split kept).1
      rw [show state.baseIndex+1-update.fromIndex = 0 by omega,List.drop_zero,List.length_take_of_le kept,logFrom_append,
        List.length_take_of_le kept,← termBefore_take chained inside joined,
        show state.baseIndex+1+(update.fromIndex-state.baseIndex-1) = update.fromIndex by omega]
      exact ⟨⟨front,entries⟩,by omega⟩
    · -- The update starts inside the snapshot, so it has the entry at the boundary.
      have reach : state.baseIndex-update.fromIndex < update.entries.length := by omega
      have boundary := List.getElem?_eq_getElem reach
      have place := entries.at boundary
      have term := admits.accepted.boundary (List.getElem_mem reach) (by omega)
      have later := (entries.split (show state.baseIndex-update.fromIndex+1 ≤ update.entries.length by omega)).2
      rw [lastTerm_take boundary,term,
        show update.fromIndex+(state.baseIndex-update.fromIndex+1) = state.baseIndex+1 by omega] at later
      rw [show update.fromIndex-state.baseIndex-1 = 0 by omega,List.take_zero,List.nil_append,
        show state.baseIndex+1-update.fromIndex = state.baseIndex-update.fromIndex+1 by omega]
      exact ⟨later,by simp only [List.length_nil]; omega⟩

theorem Admits.valid (valid : Valid state) (admits : Admits state update) (fits : update.fromIndex < 2^64)
    (short : (updatedLog state update).length < 2^63) : Valid {state with log := updatedLog state update} := by
  obtain ⟨log,room⟩ := admits.logFrom valid.chained fits
  exact ⟨log,room,short,valid.snapshot⟩

theorem Admits.chained (chained : Chained state) (admits : Admits state update) (fits : update.fromIndex < 2^64)
    (short : (updatedLog state update).length < 2^63) : Chained {state with log := updatedLog state update} := by
  obtain ⟨log,room⟩ := admits.logFrom chained fits
  exact ⟨chained.base,log,room,short⟩

theorem updatedLog_length (state : RaftPersistentState) (update : PersistLog) :
    (updatedLog state update).length ≤ state.log.length+update.entries.length := by
  unfold updatedLog
  split
  · exact Nat.le_add_right ..
  · split
    · exact Nat.le_add_right ..
    · simp only [List.length_append,List.length_take,List.length_drop]
      omega

end valid

section batches
variable {limit index previous : Nat} {entries : List LogEntry} {state : RaftPersistentState}

theorem batchSize_count (count encoded : Nat) (entries : List LogEntry) (low : count ≤ maxRaftLogEntriesPerRecord) :
    batchSize count encoded entries ≤ maxRaftLogEntriesPerRecord := by
  fun_induction batchSize with
  | case1 | case2 => exact low
  | case3 count encoded entry rest entrySize more ih => exact ih (by omega)

theorem batchSize_inside (count encoded : Nat) (entries : List LogEntry) :
    batchSize count encoded entries ≤ count+entries.length := by
  fun_induction batchSize with
  | case1 | case2 => exact Nat.le_add_right ..
  | case3 count encoded entry rest entrySize more ih =>
    rw [List.length_cons]
    omega

theorem batch_accepted (log : LogFrom limit index previous entries) (room : index+entries.length ≤ 2^64) (after : baseIndex < index)
    (begun : count ≠ 0 ∨ encoded = logRecordHeaderSize) : Accepted limit baseIndex baseTerm index previous encoded
      (entries.take (batchSize count encoded entries-count)) := by
  induction entries generalizing index previous count encoded with
  | nil =>
    rw [List.take_nil]
    trivial
  | cons entry rest ih =>
    obtain ⟨fine,others⟩ := log
    rw [List.length_cons] at room
    unfold batchSize
    dsimp only
    split
    · rw [Nat.sub_self]
      trivial
    · rename_i more
      have least := batchSize_le (count+1) (encoded+(entryHeaderSize+entry.command.length)) rest
      have wide : 0 < entryHeaderSize := by decide
      have larger : encoded+(entryHeaderSize+entry.command.length) ≤ maxRaftLogRecordSize := by
        rcases begun with begun | begun
        · omega
        · have small := fine.small
          unfold maxRaftCommandSize at small
          unfold entryHeaderSize maxRaftLogRecordSize
          unfold logRecordHeaderSize at begun
          omega
      rw [show batchSize (count+1) (encoded+(entryHeaderSize+entry.command.length)) rest-count =
        batchSize (count+1) (encoded+(entryHeaderSize+entry.command.length)) rest-(count+1)+1 by omega,List.take_succ_cons]
      refine ⟨fine,larger,fun same => absurd (fine.index.symm.trans same) (by omega),?_⟩
      cases rest with
      | nil =>
        rw [List.take_nil]
        trivial
      | cons =>
        rw [List.length_cons] at room
        rw [next_small (by omega)]
        exact ih others (by rw [List.length_cons]; omega) (by omega) (.inl (Nat.succ_ne_zero _))

theorem admits_behind (valid : Valid state) (count : more.length ≤ maxRaftLogEntriesPerRecord) (some : more ≠ [])
    (room : state.baseIndex+state.log.length+1 < 2^64)
    (accepted : Accepted state.currentTerm state.baseIndex state.baseTerm (state.baseIndex+state.log.length+1)
      (lastTerm state.baseTerm state.log) logRecordHeaderSize more)
    (straight : state.baseIndex+state.log.length+1+more.length ≤ 2^64) :
    Admits state ⟨state.baseIndex+state.log.length+1,more⟩ ∧
    updatedLog state ⟨state.baseIndex+state.log.length+1,more⟩ = state.log ++ more := by
  have term := termBefore_take valid.chained (show state.baseIndex < state.baseIndex+state.log.length+1 by omega) (Nat.le_refl _)
  rw [show state.baseIndex+state.log.length+1-state.baseIndex-1 = state.log.length by omega,List.take_length] at term
  have found := List.getLast?_eq_getLast_of_ne_nil some
  have final := (accepted.logFrom straight).final found
  have filled := List.length_pos_iff.mpr some
  refine ⟨⟨by simp,?_,count,?_,?_⟩,?_⟩
  · intro _
    rw [next_small room]
  · rw [term]
    exact accepted
  · intro last _ _
    rw [next_small room,next_small valid.base]
    exact max_le (Nat.le_refl _) (by omega)
  · rw [updatedLog_past valid.chained found (by omega),show state.baseIndex+state.log.length+1-state.baseIndex-1 = state.log.length by omega,
      List.take_length,show state.baseIndex+1-(state.baseIndex+state.log.length+1) = 0 by omega,List.drop_zero]

theorem batches_replay (valid : Valid state) (place : index = state.baseIndex+state.log.length+1)
    (log : LogFrom state.currentTerm index (lastTerm state.baseTerm state.log) entries) (room : index+entries.length ≤ 2^64)
    (short : state.log.length+entries.length < 2^63) : Replays state (batches index entries) (state.log ++ entries) := by
  fun_induction batches generalizing state with
  | case1 =>
    rw [List.append_nil]
    exact .nil
  | case2 index entry rest count =>
    rename_i ih
    subst place
    have positive : 0 < count := batchSize_pos entry rest
    have inside : count ≤ (entry::rest).length := by
      have inside := batchSize_inside 0 logRecordHeaderSize (entry::rest)
      rwa [Nat.zero_add] at inside
    have least : count ≤ maxRaftLogEntriesPerRecord := batchSize_count 0 logRecordHeaderSize (entry::rest) (Nat.zero_le _)
    have accepted : Accepted state.currentTerm state.baseIndex state.baseTerm (state.baseIndex+state.log.length+1)
        (lastTerm state.baseTerm state.log) logRecordHeaderSize ((entry::rest).take (count-0)) :=
      batch_accepted log room (by omega) (.inr rfl)
    have size : ((entry::rest).take count).length = count := List.length_take_of_le inside
    have left : ((entry::rest).drop count).length = (entry::rest).length-count := List.length_drop
    have more : (entry::rest).take count ≠ [] := by
      intro empty
      rw [empty] at size
      exact absurd size (Nat.ne_of_lt positive)
    obtain ⟨admits,taken⟩ := admits_behind valid (by rw [size]; exact least) more (by omega) accepted (by omega)
    have parts := log.split inside
    have later : Valid {state with log := state.log ++ (entry::rest).take count} := by
      have grown := admits.valid valid (by simp only; omega)
        (by rw [taken,List.length_append,size]; omega)
      rwa [taken] at grown
    refine .cons admits ?_
    rw [taken]
    have rest := ih later
      (by rw [List.length_append,size]; show _ = state.baseIndex+(state.log.length+count)+1; omega)
      (by rw [lastTerm_append]; exact parts.2) (by omega) (by rw [List.length_append,size,left]; omega)
    rwa [List.append_assoc,List.take_append_drop] at rest

theorem batches_range (index : Nat) (entries : List LogEntry) (member : update ∈ batches index entries) :
    update.fromIndex < index+entries.length ∧ ∀ entry ∈ update.entries, entry ∈ entries := by
  fun_induction batches with
  | case1 => cases member
  | case2 index entry rest count =>
    rename_i ih
    have inside : count ≤ 0+(entry::rest).length := batchSize_inside 0 logRecordHeaderSize (entry::rest)
    cases member with
    | head => exact ⟨by simp,fun entry found => List.mem_of_mem_take found⟩
    | tail _ member =>
      obtain ⟨start,some⟩ := ih member
      rw [List.length_drop] at start
      exact ⟨by omega,fun entry found => List.mem_of_mem_drop (some entry found)⟩

theorem Replays.fits (replays : Replays state updates log) (fits : ∀ update ∈ updates, update.Fits) :
    ∀ update ∈ updates, UpdateFits update := by
  induction replays with
  | nil => exact nofun
  | cons admits _ ih =>
    intro update member
    cases member with
    | head => exact admits.fits (fits _ List.mem_cons_self)
    | tail _ member => exact ih (fun other found => fits other (List.mem_cons_of_mem _ found)) update member

end batches

end ForgeKv.RaftStorage
