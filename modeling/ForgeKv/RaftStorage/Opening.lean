import ForgeKv.RaftStorage.Recovery

namespace ForgeKv.RaftStorage
open Raft
open BigEndian (field field_lt)
open CrashDisk (run_spared run_append)

section open_
variable {owner : Owner} {files : Files} {state : RaftPersistentState}

theorem decodeHardState_term (decoded : decodeHardState owner bytes = some record) : record.term < 2^64 := by
  unfold decodeHardState at decoded
  simp only at decoded
  split at decoded
  · cases decoded
  split at decoded
  · cases decoded
  · cases decoded
    exact field_lt _ _ _

theorem selectHard_slot (chosen : selectHard owner files = .ok record) : ∃ slot, readHardSlot owner files slot = some record := by
  unfold selectHard at chosen
  split at chosen
  · cases chosen
  · cases chosen
  · rename_i a b readA readB
    -- The condition has a branch of its own, so it is not split.
    obtain ⟨uneven,even⟩ := ite_eq_iff'.mp chosen
    cases even fun bad => nomatch uneven bad
    split
    · exact ⟨_,readA⟩
    · exact ⟨_,readB⟩
  · cases chosen

theorem selectHard_term (chosen : selectHard owner files = .ok record) : record.term < 2^64 := by
  obtain ⟨slot,read⟩ := selectHard_slot chosen
  obtain ⟨bytes,-,decoded⟩ := Option.bind_eq_some_iff.mp read
  exact decodeHardState_term decoded

theorem replayRecords_keeps (replayed : replayRecords state rest = .ok (after,tail)) :
    after.currentTerm = state.currentTerm ∧ after.votedFor = state.votedFor ∧ after.snapshot = state.snapshot := by
  fun_induction replayRecords state rest with
  | case1 =>
    cases replayed
    exact ⟨rfl,rfl,rfl⟩
  | case2 state rest long ih =>
    obtain ⟨_,-,replayed⟩ := bind_ok.mp replayed
    dsimp only at replayed ih
    split at replayed
    · cases replayed
    rename_i sized
    split at replayed
    · cases replayed
      exact ⟨rfl,rfl,rfl⟩
    rename_i whole
    obtain ⟨update,-,replayed⟩ := bind_ok.mp replayed
    obtain ⟨next,applied,replayed⟩ := bind_ok.mp replayed
    obtain ⟨-,rfl⟩ := applyLogUpdate_iff.mp applied
    have kept := ih sized whole _ replayed
    exact kept

theorem dropCovered_keeps (dropped : dropCovered required loaded state = .ok after) :
    after.currentTerm = state.currentTerm ∧ after.votedFor = state.votedFor ∧
      (after.snapshot = loaded ∨ loaded = none ∧ after.snapshot = state.snapshot) := by
  unfold dropCovered at dropped
  split at dropped
  · cases dropped
    exact ⟨rfl,rfl,.inr ⟨rfl,rfl⟩⟩
  · split at dropped
    · cases dropped
      exact ⟨rfl,rfl,.inl rfl⟩
    · cases dropped

theorem recoverLog_keeps (recovered : recoverLog owner state journal = .ok (after,effects)) :
    after.currentTerm = state.currentTerm ∧ after.votedFor = state.votedFor ∧ after.snapshot = state.snapshot ∧
      ∀ effect ∈ effects, effect.changes ≠ some .snapshot := by
  unfold recoverLog at recovered
  split at recovered
  · cases recovered
  obtain ⟨required,-,recovered⟩ := bind_ok.mp recovered
  split at recovered
  · cases recovered
  rename_i enough
  obtain ⟨⟨replayed,tail⟩,ran,recovered⟩ := bind_ok.mp recovered
  obtain ⟨final,dropped,recovered⟩ := bind_ok.mp recovered
  cases recovered
  obtain ⟨term,vote,base⟩ := replayRecords_keeps ran
  obtain ⟨term',vote',snapshot⟩ := dropCovered_keeps dropped
  refine ⟨term'.trans term,vote'.trans vote,?_,?_⟩
  · rcases snapshot with loaded | ⟨missing,same⟩
    · exact loaded
    · -- A journal that starts behind a snapshot is refused without one.
      have none : required = none := by
        cases required with
        | none => rfl
        | some boundary => exact absurd ⟨boundary,rfl,by rw [missing]; trivial⟩ enough
      rw [same,base,none,missing]
      rfl
  · intro effect member
    split at member
    · cases member
    · simp only [List.mem_cons,List.not_mem_nil,or_false] at member
      rcases member with rfl | rfl <;> simp [CrashDisk.Effect.changes]

theorem create_spares (other : file ≠ .snapshot) : ∀ effect ∈ create file contents, effect.changes ≠ some .snapshot := by
  simp [create,CrashDisk.Effect.changes,other]

theorem openStore_parts (done : openStore owner files = .ok (store,effects)) : ∃ ready selected loaded third state cut,
    checkArtifacts owner files = .ok () ∧
    ready = (files.run (createFirst owner files)).run (createSecond owner (files.run (createFirst owner files))) ∧
    selectHard owner ready = .ok selected ∧ loadBoundary owner ready selected.term = .ok loaded ∧
    createJournal owner ready selected = .ok third ∧
    recoverLog owner ⟨selected.term,selected.votedFor,loaded,[]⟩ ((ready.run third .journal).getD []) = .ok (state,cut) ∧
    store = opened owner selected.generation state ∧
    effects = createFirst owner files ++ (createSecond owner (files.run (createFirst owner files)) ++ (third ++
      (cut ++ [.sync .journal,.syncDirectory] ++ if files .identity = none then create .identity (encodeIdentity owner) else []))) := by
  unfold openStore at done
  split at done
  · cases done
  obtain ⟨_,artifacts,done⟩ := bind_ok.mp done
  obtain ⟨selected,chosen,done⟩ := bind_ok.mp done
  obtain ⟨loaded,read,done⟩ := bind_ok.mp done
  obtain ⟨third,made,done⟩ := bind_ok.mp done
  obtain ⟨⟨state,cut⟩,recovered,done⟩ := bind_ok.mp done
  dsimp only at done
  split at done
  · cases done
  cases done
  exact ⟨_,selected,loaded,third,state,cut,artifacts,rfl,chosen,read,made,recovered,rfl,rfl⟩

theorem createFirst_spares : ∀ effect ∈ createFirst owner files, effect.changes ≠ some .snapshot := by
  unfold createFirst
  split
  · exact create_spares (by decide)
  · exact List.forall_mem_nil _

theorem createSecond_spares : ∀ effect ∈ createSecond owner files, effect.changes ≠ some .snapshot := by
  unfold createSecond
  split
  · exact create_spares (by decide)
  · exact List.forall_mem_nil _

theorem openStore_spares (done : openStore owner files = .ok (store,effects)) : files.run effects .snapshot = files .snapshot := by
  obtain ⟨_,selected,loaded,third,state,cut,-,-,-,-,made,recovered,-,rfl⟩ := openStore_parts done
  obtain ⟨-,-,-,spared⟩ := recoverLog_keeps recovered
  have journal : ∀ effect ∈ third, effect.changes ≠ some .snapshot := by
    unfold createJournal at made
    split at made
    · cases made
      exact List.forall_mem_nil _
    · split at made
      · cases made
      · cases made
        exact create_spares (by decide)
  have settle : ∀ effect ∈ cut ++ [.sync .journal,.syncDirectory], effect.changes ≠ some .snapshot := by
    refine List.forall_mem_append.mpr ⟨spared,?_⟩
    simp [CrashDisk.Effect.changes]
  have marker : ∀ effect ∈ (if files .identity = none then create .identity (encodeIdentity owner) else []),
      effect.changes ≠ some .snapshot := by
    split
    · exact create_spares (by decide)
    · exact List.forall_mem_nil _
  rw [run_append,run_append,run_append,run_append,run_spared marker,run_spared settle,run_spared journal,
    run_spared createSecond_spares,run_spared createFirst_spares]

theorem openStore_ok (done : openStore owner files = .ok (store,effects)) : ∃ generation state,
    store = opened owner generation state ∧ state.currentTerm < 2^64 ∧
      loadSnapshot owner (files.run effects .snapshot) = .ok state.snapshot := by
  rw [openStore_spares done]
  obtain ⟨_,selected,loaded,third,state,cut,-,rfl,chosen,read,-,recovered,rfl,rfl⟩ := openStore_parts done
  obtain ⟨term,-,snapshot,-⟩ := recoverLog_keeps recovered
  refine ⟨_,_,rfl,term ▸ selectHard_term chosen,?_⟩
  unfold loadBoundary at read
  rw [run_spared createSecond_spares,run_spared createFirst_spares] at read
  obtain ⟨loaded,found,read⟩ := bind_ok.mp read
  split at read
  · cases read
  · cases read
    rw [snapshot]
    exact found

end open_
end ForgeKv.RaftStorage
