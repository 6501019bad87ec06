import ForgeKv.RaftStorage.Install

namespace ForgeKv.RaftStorage
open Raft

-- A state and what is left of it over a newer snapshot that its log has. Replay
-- works on the first, the running store on the second.
section trim
variable {state : RaftPersistentState} {middle snapshot : StateMachineSnapshot} {update : PersistLog}

theorem Logged.inside (logged : Logged state snapshot) : snapshot.lastIncludedIndex ≤ state.baseIndex+state.log.length := logged.1

section
variable (newer : state.baseIndex < middle.lastIncludedIndex) (logged : Logged state middle)
include newer logged

theorem installed_log :
    (installed state middle).log = state.log.drop (middle.lastIncludedIndex-state.baseIndex) := suffixBehind_logged newer logged

theorem installed_last :
    (installed state middle).baseIndex+(installed state middle).log.length = state.baseIndex+state.log.length := by
  have inside := logged.inside
  rw [installed_log newer logged,List.length_drop]
  show middle.lastIncludedIndex+_ = _
  omega

theorem lastTerm_boundary :
    lastTerm state.baseTerm (state.log.take (middle.lastIncludedIndex-state.baseIndex)) = middle.lastIncludedTerm := by
  obtain ⟨entry,found,term⟩ := Option.map_eq_some_iff.mp logged.2
  rw [show middle.lastIncludedIndex-state.baseIndex = middle.lastIncludedIndex-state.baseIndex-1+1 by omega,lastTerm_take found,term]

theorem logged_trim (later : middle.lastIncludedIndex < snapshot.lastIncludedIndex) :
    Logged (installed state middle) snapshot ↔ Logged state snapshot := by
  have last := installed_last newer logged
  unfold Logged
  rw [last,installed_log newer logged,List.getElem?_drop,show (installed state middle).baseIndex = middle.lastIncludedIndex from rfl,
    show middle.lastIncludedIndex-state.baseIndex+(snapshot.lastIncludedIndex-middle.lastIncludedIndex-1) =
      snapshot.lastIncludedIndex-state.baseIndex-1 by omega]

theorem installed_trim (later : middle.lastIncludedIndex < snapshot.lastIncludedIndex) (has : Logged state snapshot) :
    installed (installed state middle) snapshot = installed state snapshot := by
  have again := (logged_trim newer logged later).mpr has
  have after : (installed state middle).baseIndex < snapshot.lastIncludedIndex := later
  have log : (installed (installed state middle) snapshot).log = (installed state snapshot).log := by
    rw [installed_log after again,installed_log newer logged,installed_log (Nat.lt_trans newer later) has,List.drop_drop,
      show (installed state middle).baseIndex = middle.lastIncludedIndex from rfl]
    congr 1
    omega
  exact congrArg (RaftPersistentState.mk state.currentTerm state.votedFor (some snapshot)) log

end

theorem termBefore_trim (valid : Valid state) (trimmed : Valid (installed state middle))
    (newer : state.baseIndex < middle.lastIncludedIndex) (logged : Logged state middle)
    (above : middle.lastIncludedIndex < fromIndex) (joined : fromIndex ≤ state.baseIndex+state.log.length+1) :
    termBefore (installed state middle) fromIndex = termBefore state fromIndex := by
  have last := installed_last newer logged
  rw [termBefore_take trimmed.chained above (by omega),termBefore_take valid.chained (by omega) joined,installed_log newer logged,
    show (installed state middle).baseTerm = middle.lastIncludedTerm from rfl,
    show (installed state middle).baseIndex = middle.lastIncludedIndex from rfl,
    show fromIndex-state.baseIndex-1 = middle.lastIncludedIndex-state.baseIndex+(fromIndex-middle.lastIncludedIndex-1) by omega,
    List.take_add,lastTerm_append,lastTerm_boundary newer logged]

theorem Accepted.rebase (accepted : Accepted limit oldIndex oldTerm index previous encoded entries)
    (apart : ∀ entry ∈ entries, entry.index ≠ baseIndex) : Accepted limit baseIndex baseTerm index previous encoded entries := by
  induction entries generalizing index previous encoded with
  | nil => trivial
  | cons entry rest ih =>
    obtain ⟨fine,room,_,others⟩ := accepted
    refine ⟨fine,room,fun same => absurd same (apart entry List.mem_cons_self),ih others ?_⟩
    exact fun other member => apart other (List.mem_cons_of_mem _ member)

theorem Accepted.index_range (accepted : Accepted limit baseIndex baseTerm index previous encoded entries) (fits : index < 2^64)
    (member : entry ∈ entries) : ∃ position, position < entries.length ∧ entry.index = (index+position) % 2^64 := by
  induction entries generalizing index previous encoded with
  | nil => cases member
  | cons head rest ih =>
    cases member with
    | head => exact ⟨0,Nat.succ_pos _,accepted.1.index.trans (Nat.mod_eq_of_lt fits).symm⟩
    | tail _ member =>
      obtain ⟨position,inside,place⟩ := ih accepted.2.2.2 (Nat.mod_lt _ (by decide)) member
      refine ⟨position+1,Nat.succ_lt_succ inside,?_⟩
      unfold next at place
      omega

section
variable (valid : Valid state) (trimmed : Valid (installed state middle)) (newer : state.baseIndex < middle.lastIncludedIndex) (logged : Logged state middle) (above : middle.lastIncludedIndex < update.fromIndex) (fits : update.fromIndex < 2^64)
include valid trimmed newer logged above fits

theorem admits_trim (admits : Admits (installed state middle) update) : Admits state update := by
  obtain ⟨started,joined,count,accepted,-⟩ := admits
  have last := installed_last newer logged
  have joined := joined above
  rw [last] at joined
  have below := next_le (state.baseIndex+state.log.length)
  have short := valid.short
  rw [termBefore_trim valid trimmed newer logged above (by omega)] at accepted
  refine ⟨started,fun _ => joined,count,accepted.rebase ?_,?_⟩
  · intro entry member same
    obtain ⟨position,inside,place⟩ := accepted.index_range fits member
    unfold maxRaftLogEntriesPerRecord at count
    omega
  · intro _ _ _
    rw [next_small valid.base]
    exact max_le joined (by omega)

theorem updatedLog_trim (admits : Admits state update) :
    updatedLog (installed state middle) update =
      (updatedLog state update).drop (middle.lastIncludedIndex-state.baseIndex) := by
  have base : (installed state middle).baseIndex = middle.lastIncludedIndex := rfl
  by_cases covered : ∀ last, update.entries.getLast? = some last → last.index ≤ state.baseIndex
  · have inner : ∀ last, update.entries.getLast? = some last → last.index ≤ (installed state middle).baseIndex :=
      fun last found => Nat.le_trans (covered last found) (Nat.le_of_lt newer)
    rw [updatedLog_kept covered,updatedLog_kept inner,installed_log newer logged]
  · simp only [not_forall,not_le] at covered
    obtain ⟨last,found,past⟩ := covered
    have straight := admits.straight valid.chained fits found past
    have final := (admits.accepted.logFrom straight).final found
    have some : update.entries ≠ [] := by
      intro empty
      rw [empty] at found
      cases found
    have filled := List.length_pos_iff.mpr some
    have joined := Nat.le_trans (admits.joined (by omega)) (next_le _)
    rw [updatedLog_past valid.chained found past,updatedLog_past trimmed.chained found (by omega),base,installed_log newer logged,
      show state.baseIndex+1-update.fromIndex = 0 by omega,show middle.lastIncludedIndex+1-update.fromIndex = 0 by omega,
      List.drop_append_of_le_length (by rw [List.length_take]; omega),List.drop_take,
      show update.fromIndex-state.baseIndex-1-(middle.lastIncludedIndex-state.baseIndex) =
        update.fromIndex-middle.lastIncludedIndex-1 by omega]

end

theorem logged_updated (valid : Valid state) (newer : state.baseIndex < snapshot.lastIncludedIndex) (logged : Logged state snapshot)
    (above : snapshot.lastIncludedIndex < update.fromIndex) (admits : Admits state update) :
    Logged {state with log := updatedLog state update} snapshot := by
  by_cases covered : ∀ last, update.entries.getLast? = some last → last.index ≤ state.baseIndex
  · rw [updatedLog_kept covered]
    exact logged
  · simp only [not_forall,not_le] at covered
    obtain ⟨last,found,past⟩ := covered
    have joined := Nat.le_trans (admits.joined (by omega)) (next_le _)
    rw [updatedLog_past valid.chained found past]
    refine ⟨?_,?_⟩
    · show snapshot.lastIncludedIndex ≤ state.baseIndex+_
      rw [List.length_append,List.length_take]
      omega
    · have kept : (state.log.take (update.fromIndex-state.baseIndex-1) ++
          update.entries.drop (state.baseIndex+1-update.fromIndex))[snapshot.lastIncludedIndex-state.baseIndex-1]? =
          state.log[snapshot.lastIncludedIndex-state.baseIndex-1]? := by
        rw [List.getElem?_append_left (by rw [List.length_take]; omega),List.getElem?_take_of_lt (by omega)]
      exact (congrArg (Option.map LogEntry.term) kept).trans logged.2

end trim

end ForgeKv.RaftStorage
