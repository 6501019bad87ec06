import ForgeKv.Raft.Restart
import ForgeKv.RaftStorage.Opening

namespace ForgeKv.RaftStorage
open Raft
open BigEndian (field field_lt)

section decoded
variable {owner : Owner} {files : Files} {bytes rest : Bytes}

theorem decodeHardState_vote (decoded : decodeHardState owner bytes = some record) (early : record.term = 0) :
    record.votedFor = none := by
  unfold decodeHardState at decoded
  simp only at decoded
  split at decoded
  · cases decoded
  split at decoded
  · cases decoded
  · rename_i fine
    cases decoded
    exact if_neg fun flagged => fine (.inr (.inr (.inr (.inr ⟨early,flagged⟩))))

theorem loadSnapshot_fits (loaded : loadSnapshot owner contents = .ok (some snapshot)) :
    BoundaryFits snapshot ∧ snapshot.stateMachine.length ≤ maxSnapshotPayloadSize := by
  cases contents with
  | none => cases loaded
  | some bytes =>
    simp only [loadSnapshot,ite_ok,not_or,not_lt,ne_eq,not_not,Except.ok.injEq,Option.some.injEq] at loaded
    obtain ⟨-,-,⟨real,low,elected,small,size⟩,-,rfl⟩ := loaded
    have index : field bytes 32 8 < 2^64 := field_lt _ _ _
    have term : field bytes 40 8 < 2^64 := field_lt _ _ _
    refine ⟨⟨?_,term,Nat.pos_of_ne_zero real,Nat.pos_of_ne_zero elected⟩,?_⟩
    · unfold maxU64 at low ⊢
      simp only
      omega
    · simp only [List.length_drop]
      omega

theorem decodeEntries_length (decoded : decodeEntries count rest = .ok (entries,left)) :
    entryHeaderSize*entries.length+left.length ≤ rest.length := by
  induction count generalizing rest entries with
  | zero =>
    cases decoded
    exact Nat.le_of_eq (Nat.zero_add _)
  | succ count ih =>
    unfold decodeEntries at decoded
    split at decoded
    · cases decoded
    simp only at decoded
    split at decoded
    · cases decoded
    obtain ⟨kind,-,decoded⟩ := bind_ok.mp decoded
    obtain ⟨⟨others,behind⟩,further,decoded⟩ := bind_ok.mp decoded
    cases decoded
    have shorter := ih further
    simp only [List.length_drop] at shorter
    simp only [List.length_cons,Nat.mul_add]
    omega

theorem decodeLogUpdate_bounds (decoded : decodeLogUpdate bytes = .ok update) :
    update.fromIndex < 2^64 ∧ entryHeaderSize*update.entries.length ≤ bytes.length := by
  unfold decodeLogUpdate at decoded
  simp only at decoded
  split at decoded
  · cases decoded
  split at decoded
  · cases decoded
  obtain ⟨⟨entries,left⟩,read,decoded⟩ := bind_ok.mp decoded
  split at decoded
  · cases decoded
  cases decoded
  have size := decodeEntries_length read
  rw [List.length_drop] at size
  exact ⟨field_lt _ _ _,by simp only; omega⟩

end decoded

section recovered
variable {owner : Owner} {files : Files} {state : RaftPersistentState} {rest : Bytes}

theorem replayRecords_chained (replayed : replayRecords state rest = .ok (after,tail)) (chained : Chained state)
    (sized : entryHeaderSize*state.log.length+rest.length < 2^63) : Chained after := by
  fun_induction replayRecords state rest with
  | case1 =>
    cases replayed
    exact chained
  | case2 state rest long ih =>
    obtain ⟨_,-,replayed⟩ := bind_ok.mp replayed
    dsimp only at replayed ih
    split at replayed
    · cases replayed
    rename_i record
    split at replayed
    · cases replayed
      exact chained
    rename_i whole
    obtain ⟨update,decoded,replayed⟩ := bind_ok.mp replayed
    obtain ⟨next,applied,replayed⟩ := bind_ok.mp replayed
    obtain ⟨admits,rfl⟩ := applyLogUpdate_iff.mp applied
    obtain ⟨start,size⟩ := decodeLogUpdate_bounds decoded
    have grown := updatedLog_length state update
    rw [List.length_take_of_le (Nat.not_lt.mp whole)] at size
    have more : entryHeaderSize*(updatedLog state update).length ≤
        entryHeaderSize*state.log.length+entryHeaderSize*update.entries.length := by
      rw [← Nat.mul_add]
      exact Nat.mul_le_mul_left _ grown
    have room : entryHeaderSize*(updatedLog state update).length+
        (rest.drop (field (rest.take logRecordHeaderSize) 8 4)).length < 2^63 := by
      rw [List.length_drop]
      omega
    have short : (updatedLog state update).length < 2^63 := by
      unfold entryHeaderSize at room
      omega
    exact ih record whole _ replayed (admits.chained chained start short) room

theorem Chained.behind (chained : Chained state) (fits : BoundaryFits snapshot) (newer : state.baseIndex ≤ snapshot.lastIncludedIndex)
    (inside : snapshot.lastIncludedIndex-state.baseIndex ≤ state.log.length)
    (term : lastTerm state.baseTerm (state.log.take (snapshot.lastIncludedIndex-state.baseIndex)) = snapshot.lastIncludedTerm) :
    Chained {state with snapshot := some snapshot,log := state.log.drop (snapshot.lastIncludedIndex-state.baseIndex)} := by
  have later := (chained.log.split inside).2
  have bound := fits.index
  have room := chained.room
  have short := chained.short
  rw [term,show state.baseIndex+1+(snapshot.lastIncludedIndex-state.baseIndex) = snapshot.lastIncludedIndex+1 by omega] at later
  refine ⟨?_,later,?_,?_⟩
  · show snapshot.lastIncludedIndex+1 < 2^64
    unfold maxU64 at bound
    omega
  · show snapshot.lastIncludedIndex+(state.log.drop _).length < 2^64
    rw [List.length_drop]
    omega
  · show (state.log.drop _).length < 2^63
    rw [List.length_drop]
    omega

theorem dropCovered_chained {required : Option (Nat × Nat)} (chained : Chained state)
    (base : state.snapshot = required.map (fun boundary => ⟨boundary.1,boundary.2,[]⟩))
    (newer : ∀ snapshot, loaded = some snapshot → BoundaryFits snapshot ∧ (required.map Prod.fst).getD 0 ≤ snapshot.lastIncludedIndex)
    (dropped : dropCovered required loaded state = .ok after) : Chained after := by
  have index : (required.map Prod.fst).getD 0 = state.baseIndex := by
    unfold RaftPersistentState.baseIndex
    rw [base]
    cases required <;> rfl
  unfold dropCovered at dropped
  cases loaded with
  | none =>
    cases dropped
    exact chained
  | some snapshot =>
    obtain ⟨fits,above⟩ := newer snapshot rfl
    simp only at dropped
    split at dropped
    · rename_i matched
      cases dropped
      rw [index] at above ⊢
      simp only [boundaryMatches,index] at matched
      split at matched
      · -- The journal starts at the snapshot.
        rename_i same
        refine chained.behind fits above (by omega) ?_
        rw [same,List.take_zero]
        cases required with
        | none => cases matched
        | some boundary =>
          have term : boundary.2 = snapshot.lastIncludedTerm := Option.some.inj matched
          simp [lastTerm,RaftPersistentState.baseTerm,base,term]
      · rename_i further
        obtain ⟨entry,found,term⟩ := Option.map_eq_some_iff.mp matched
        have inside := (List.getElem?_eq_some_iff.mp found).1
        refine chained.behind fits above (by omega) ?_
        rw [show snapshot.lastIncludedIndex-state.baseIndex = snapshot.lastIncludedIndex-state.baseIndex-1+1 by omega,
          lastTerm_take found,term]
    · cases dropped

theorem recoverLog_chained (recovered : recoverLog owner state journal = .ok (after,effects)) (sized : journal.length < 2^63)
    (fits : ∀ snapshot, state.snapshot = some snapshot → BoundaryFits snapshot) : Chained after := by
  unfold recoverLog at recovered
  split at recovered
  · cases recovered
  obtain ⟨required,-,recovered⟩ := bind_ok.mp recovered
  split at recovered
  · cases recovered
  rename_i enough
  obtain ⟨⟨replayed,tail⟩,ran,recovered⟩ := bind_ok.mp recovered
  obtain ⟨final,dropped,recovered⟩ := bind_ok.mp recovered
  cases recovered
  have newer : ∀ snapshot, state.snapshot = some snapshot →
      BoundaryFits snapshot ∧ (required.map Prod.fst).getD 0 ≤ snapshot.lastIncludedIndex := by
    intro snapshot loaded
    refine ⟨fits snapshot loaded,?_⟩
    cases required with
    | none => exact Nat.zero_le _
    | some =>
      simp only [Option.mem_def,Option.some.injEq,exists_eq_left',loaded,olderThanRequired,not_or,not_lt] at enough
      exact enough.1
  -- The boundary of the journal is at or below a snapshot, so the index behind it does not wrap.
  have low : (required.map Prod.fst).getD 0+1 < 2^64 := by
    cases required with
    | none => decide
    | some boundary =>
      cases loaded : state.snapshot with
      | none => exact absurd ⟨boundary,rfl,by rw [loaded]; trivial⟩ enough
      | some snapshot =>
        obtain ⟨boundary,above⟩ := newer snapshot loaded
        have bound := boundary.index
        unfold maxU64 at bound
        omega
  have start : Chained {state with snapshot := required.map (fun boundary => StateMachineSnapshot.mk boundary.1 boundary.2 []),log := []} := by
    refine ⟨?_,trivial,?_,Nat.two_pow_pos 63⟩
    · cases required <;> exact low
    · cases required <;> exact Nat.lt_of_succ_lt low
  have chained := replayRecords_chained ran start (by simp only [List.length_nil,List.length_drop]; omega)
  exact dropCovered_chained chained (replayRecords_keeps ran).2.2 newer dropped

theorem selectHard_vote (chosen : selectHard owner files = .ok record) (early : record.term = 0) : record.votedFor = none := by
  obtain ⟨slot,read⟩ := selectHard_slot chosen
  obtain ⟨bytes,-,decoded⟩ := Option.bind_eq_some_iff.mp read
  exact decodeHardState_vote decoded early

theorem loadBoundary_fits (read : loadBoundary owner files term = .ok loaded) :
    ∀ snapshot, loaded = some snapshot → BoundaryFits snapshot ∧ snapshot.lastIncludedTerm ≤ term := by
  obtain ⟨found,contents,read⟩ := bind_ok.mp read
  split at read
  · cases read
  rename_i past
  cases read
  rintro snapshot rfl
  exact ⟨(loadSnapshot_fits contents).1,Nat.not_lt.mp fun later => past ⟨snapshot,rfl,later⟩⟩

theorem createBaselines_other (a : name ≠ .hardA) (b : name ≠ .hardB) :
    (files.run (createFirst owner files)).run (createSecond owner (files.run (createFirst owner files))) name = files name := by
  have first : files.run (createFirst owner files) name = files name := by
    unfold createFirst
    split
    · exact create_other a
    · rfl
  unfold createSecond
  split
  · exact (create_other b).trans first
  · exact first

theorem createJournal_sized (sized : ∀ journal, files .journal = some journal → journal.length < 2^63)
    (made : createJournal owner files selected = .ok third) : ((files.run third .journal).getD []).length < 2^63 := by
  unfold createJournal at made
  cases present : files .journal with
  | some journal =>
    rw [present] at made
    cases made
    rw [CrashDisk.run_nil,present]
    exact sized journal present
  | none =>
    rw [present] at made
    simp only at made
    split at made
    · cases made
    · cases made
      rw [create_same,Option.getD_some,encodeLogHeader_length]
      decide

theorem openStore_chained (done : openStore owner files = .ok (store,effects))
    (sized : ∀ journal, files .journal = some journal → journal.length < 2^63) :
    (store.state.currentTerm = 0 → store.state.votedFor = none) ∧ Chained store.state ∧
    ∀ snapshot, store.state.snapshot = some snapshot →
      BoundaryFits snapshot ∧ snapshot.lastIncludedTerm ≤ store.state.currentTerm := by
  obtain ⟨ready,selected,loaded,third,state,cut,-,baselines,chosen,read,made,recovered,rfl,-⟩ := openStore_parts done
  have same : ready .journal = files .journal := by
    rw [baselines]
    exact createBaselines_other (by decide) (by decide)
  have sized := createJournal_sized (fun journal present => sized journal (same.symm.trans present)) made
  obtain ⟨term,vote,snapshot,-⟩ := recoverLog_keeps recovered
  have fits := loadBoundary_fits read
  refine ⟨fun early => vote.trans (selectHard_vote chosen (term.symm.trans early)),?_,?_⟩
  · exact recoverLog_chained recovered sized fun snapshot found => (fits snapshot found).1
  · intro found taken
    obtain ⟨boundary,past⟩ := fits found (snapshot.symm.trans taken)
    exact ⟨boundary,term ▸ past⟩

end recovered

theorem LogFrom.validated (log : LogFrom limit index previous entries) : validateLog limit index previous entries = .ok () := by
  induction entries generalizing index previous with
  | nil => rfl
  | cons entry rest ih =>
    obtain ⟨fine,others⟩ := log
    unfold validateLog
    rw [if_neg,ih others]
    simp [fine.index,fine.elected,fine.sorted,fine.past]

theorem validated {config : RaftConfig} {state : RaftPersistentState} (vote : state.currentTerm = 0 → state.votedFor = none)
    (known : ∀ candidate, state.votedFor = some candidate → candidate ∈ config.voters)
    (snapshot : ∀ snapshot, state.snapshot = some snapshot → snapshot.lastIncludedIndex ≠ 0 ∧
      snapshot.lastIncludedIndex ≠ maxU64 ∧ snapshot.lastIncludedTerm ≠ 0 ∧ snapshot.lastIncludedTerm ≤ state.currentTerm)
    (log : LogFrom state.currentTerm (state.baseIndex+1) state.baseTerm state.log) :
    validatePersistentState config state = .ok () := by
  have early : ¬ (state.currentTerm = 0 ∧ state.votedFor.isSome) := fun ⟨zero,voted⟩ => by simp [vote zero] at voted
  have fine : ¬ (state.snapshot.isSome ∧ (state.baseIndex = 0 ∨ state.baseTerm = 0 ∨ state.baseIndex = maxU64 ∨
      state.currentTerm < state.baseTerm)) := by
    cases taken : state.snapshot with
    | none => simp
    | some image =>
      obtain ⟨real,low,elected,past⟩ := snapshot image taken
      simp [RaftPersistentState.baseIndex,RaftPersistentState.baseTerm,taken,real,low,elected,past]
  unfold validatePersistentState
  rw [if_neg early]
  cases voted : state.votedFor with
  | none =>
    rw [if_neg fine]
    exact log.validated
  | some candidate =>
    dsimp only
    rw [if_neg (not_not.mpr (known candidate voted)),if_neg fine]
    exact log.validated

-- Whatever bytes the files have: the state of a store that opens passes every check of a
-- node that knows its vote, and each of its entries is one that the store would write. The
-- size of a file is an off_t.
theorem recovery_accepts_valid {owner : Owner} {files : Files} {store : Store} {effects : List Effect}
    (sized : ∀ journal, files .journal = some journal → journal.length < 2^63)
    (done : openStore owner files = .ok (store,effects)) :
    (store.state.currentTerm = 0 → store.state.votedFor = none) ∧
    (∀ snapshot, store.state.snapshot = some snapshot → snapshot.lastIncludedIndex ≠ 0 ∧
      snapshot.lastIncludedIndex ≠ maxU64 ∧ snapshot.lastIncludedTerm ≠ 0 ∧
      snapshot.lastIncludedTerm ≤ store.state.currentTerm) ∧
    LogFrom store.state.currentTerm (store.state.baseIndex+1) store.state.baseTerm store.state.log ∧
    ∀ config : RaftConfig, (∀ candidate, store.state.votedFor = some candidate → candidate ∈ config.voters) →
      validatePersistentState config store.state = .ok () := by
  obtain ⟨vote,chained,boundary⟩ := openStore_chained done sized
  have snapshot : ∀ snapshot, store.state.snapshot = some snapshot → snapshot.lastIncludedIndex ≠ 0 ∧
      snapshot.lastIncludedIndex ≠ maxU64 ∧ snapshot.lastIncludedTerm ≠ 0 ∧
      snapshot.lastIncludedTerm ≤ store.state.currentTerm := by
    intro snapshot taken
    obtain ⟨fits,past⟩ := boundary snapshot taken
    exact ⟨Nat.ne_of_gt fits.real,Nat.ne_of_lt fits.index,Nat.ne_of_gt fits.elected,past⟩
  exact ⟨vote,snapshot,chained.log,fun config known => validated vote known snapshot chained.log⟩

theorem recovery_accepts_valid_voted : ∃ files effects, openStore ⟨1,1,0⟩ files = .ok (opened ⟨1,1,0⟩ 3 votedState,effects) ∧
    LogFrom 1 2 1 votedState.log ∧ validatePersistentState soloConfig votedState = .ok () := by
  have mine : Owner.Valid ⟨1,1,0⟩ := ⟨⟨by decide,by decide,by decide⟩,by decide,by decide⟩
  have fine : EntryOk 1 2 1 ⟨2,1,.command,[5]⟩ := ⟨rfl,by decide,by decide,by decide,by decide,nofun⟩
  have admits : Admits {votedState with log := []} ⟨2,votedState.log⟩ :=
    ⟨by decide,fun _ => by decide,by decide,⟨fine,by decide,by decide,trivial⟩,fun _ _ _ => by decide⟩
  have fits : UpdateFits ⟨2,votedState.log⟩ := ⟨by decide,by decide,List.forall_mem_singleton.mpr ⟨by decide,by decide,by decide⟩,by decide⟩
  have valid : Valid votedState := by
    refine ⟨⟨fine,trivial⟩,by decide,by decide,fun snapshot taken => ?_⟩
    cases taken
    exact ⟨⟨by decide,by decide,by decide,by decide⟩,by decide,by decide⟩
  have image : Image ⟨1,1,0⟩ (storedFiles ⟨1,1,0⟩ ⟨3,1,some 1⟩ (some ⟨1,1,[7]⟩) [⟨2,votedState.log⟩]) 3 votedState [] :=
    storedFiles_image _ ⟨by decide,by decide,by simp,by decide,by simp⟩ (by decide) (by simpa using fits) (.cons admits .nil) valid
  obtain ⟨kept,opens,-⟩ := image.opens mine torn_nil
  have accepted := recovery_accepts_valid (fun journal found => by cases found; decide +kernel) opens
  exact ⟨_,_,opens,accepted.2.2.1,accepted.2.2.2 _ (by simp [votedState,soloConfig])⟩

end ForgeKv.RaftStorage
