import ForgeKv.RaftStorage.ValidLog

namespace ForgeKv.RaftStorage
open Raft
open CrashDisk

structure Owner.Valid (owner : Owner) : Prop where
  fits : owner.Fits
  cluster : owner.clusterId ≠ 0
  node : owner.nodeId ≠ 0

-- What an interrupted append leaves at the end of a journal.
def Torn (tail : Bytes) : Prop := ∀ state, replayRecords state tail = .ok (state,tail)

theorem torn_nil : Torn [] := fun _ => replayRecords_nil

theorem torn_take (fits : UpdateFits update) (short : kept < (encodeLogUpdate update).length) :
    Torn ((encodeLogUpdate update).take kept) := fun _ => replayRecords_torn fits short

def boundary (snapshot : Option StateMachineSnapshot) : Option (Nat × Nat) :=
  snapshot.map (fun snapshot => (snapshot.lastIncludedIndex,snapshot.lastIncludedTerm))

-- A snapshot as a journal header knows it.
def bare (snapshot : Option StateMachineSnapshot) : Option StateMachineSnapshot :=
  (boundary snapshot).map (fun boundary => StateMachineSnapshot.mk boundary.1 boundary.2 [])

def cutTail (kept : Nat) (tail : Bytes) : List Effect :=
  if tail = [] then [] else [.truncate .journal kept,.sync .journal]

def journalFile (owner : Owner) (base : Option StateMachineSnapshot) (updates : List PersistLog) : Bytes :=
  encodeLogHeader owner base ++ updates.flatMap encodeLogUpdate

section journal
variable {owner : Owner} {base loaded : Option StateMachineSnapshot} {updates : List PersistLog} {tail : Bytes}

theorem sameLog_bare : SameLog ⟨term,vote,base,log⟩ ⟨term,vote,bare base,log⟩ := by
  cases base <;> exact ⟨rfl,rfl,rfl,Nat.le_refl _⟩

theorem recoverLog_eq (mine : owner.Fits) (named : ∀ snapshot, base = some snapshot → BoundaryFits snapshot)
    (fits : ∀ update ∈ updates, UpdateFits update) (replays : Replays ⟨term,vote,base,[]⟩ updates log) (torn : Torn tail)
    (newer : ∀ required ∈ boundary base, ¬ olderThanRequired loaded required) :
    recoverLog owner ⟨term,vote,loaded,[]⟩ (journalFile owner base updates ++ tail) =
      (dropCovered (boundary base) loaded ⟨term,vote,bare base,log⟩).map
        (fun state => (state,cutTail (journalFile owner base updates).length tail)) := by
  have headed := encodeLogHeader_length owner base
  unfold recoverLog journalFile
  rw [List.append_assoc,if_neg (by rw [List.length_append]; omega),List.take_left' headed,List.drop_left' headed,
    verify_logHeader owner mine base named]
  have fresh : ¬ ∃ required ∈ boundary base, olderThanRequired loaded required := fun ⟨required,member,older⟩ =>
    newer required member older
  show (if ∃ required ∈ boundary base, olderThanRequired loaded required then _ else _) = _
  rw [if_neg fresh]
  show (replayRecords ⟨term,vote,bare base,[]⟩ _ >>= _) = _
  rw [replayRecords_updates fits (replays.same sameLog_bare),torn]
  show (dropCovered (boundary base) loaded ⟨term,vote,bare base,log⟩ >>= _) = _
  have size : (encodeLogHeader owner base ++ (updates.flatMap encodeLogUpdate ++ tail)).length-tail.length =
      (encodeLogHeader owner base ++ updates.flatMap encodeLogUpdate).length := by
    simp only [List.length_append]
    omega
  rw [size]
  cases dropCovered (boundary base) loaded ⟨term,vote,bare base,log⟩ <;> rfl

theorem dropCovered_same : dropCovered (boundary base) base ⟨term,vote,bare base,log⟩ = .ok ⟨term,vote,base,log⟩ := by
  cases base with
  | none => rfl
  | some => simp [dropCovered,boundary,boundaryMatches]

theorem not_older_same : ∀ required ∈ boundary base, ¬ olderThanRequired base required := by
  cases base with
  | none => exact nofun
  | some =>
    intro required member
    cases member
    simp [olderThanRequired]

end journal

structure HardFiles (owner : Owner) (files : Files) (newest : HardRecord) : Prop where
  fits : newest.Fits
  newer : files (hardSlot newest.generation) = some (encodeHardState owner newest)
  older : ∃ record, record.generation+1 = newest.generation ∧ record.Fits ∧
    files (hardSlot record.generation) = some (encodeHardState owner record)

section hard
variable {owner : Owner} {files : Files} {newest : HardRecord}

theorem readHardSlot_some (mine : owner.Fits) (fits : record.Fits) (present : files slot = some (encodeHardState owner record)) :
    readHardSlot owner files slot = some record := by
  unfold readHardSlot
  rw [present,Option.bind_some,decode_hardState owner record mine fits]

theorem selectHard_newest (mine : owner.Fits) (hard : HardFiles owner files newest) : selectHard owner files = .ok newest := by
  obtain ⟨fits,newer,older,step,olderFits,olderFile⟩ := hard
  have newRead := readHardSlot_some mine fits newer
  have oldRead := readHardSlot_some mine olderFits olderFile
  unfold hardSlot at newer olderFile newRead oldRead
  unfold selectHard
  by_cases odd : newest.generation % 2 = 1
  · rw [if_pos odd] at newer newRead
    rw [if_neg (by omega)] at olderFile oldRead
    rw [newer,olderFile,newRead,oldRead]
    dsimp only
    rw [if_neg (by split <;> omega),if_pos (by omega)]
  · rw [if_neg odd] at newer newRead
    rw [if_pos (by omega)] at olderFile oldRead
    rw [newer,olderFile,newRead,oldRead]
    dsimp only
    rw [if_neg (by split <;> omega),if_neg (by omega)]

theorem hardSlot_next (generation : Nat) : hardSlot (generation+1) ≠ hardSlot generation := by
  unfold hardSlot
  split <;> split <;> first | omega | nofun

@[simp] theorem hardSlot_identity : hardSlot generation ≠ .identity := by
  unfold hardSlot
  split <;> nofun

@[simp] theorem hardSlot_journal : hardSlot generation ≠ .journal := by
  unfold hardSlot
  split <;> nofun

@[simp] theorem hardSlot_snapshot : hardSlot generation ≠ .snapshot := by
  unfold hardSlot
  split <;> nofun

theorem HardFiles.frame (hard : HardFiles owner files newest)
    (same : ∀ generation, left (hardSlot generation) = files (hardSlot generation)) : HardFiles owner left newest := by
  obtain ⟨fits,newer,older,step,olderFits,olderFile⟩ := hard
  exact ⟨fits,(same _).trans newer,older,step,olderFits,(same _).trans olderFile⟩

theorem HardFiles.both (hard : HardFiles owner files newest) : files .hardA ≠ none ∧ files .hardB ≠ none := by
  obtain ⟨_,newer,older,step,_,olderFile⟩ := hard
  unfold hardSlot at newer olderFile
  by_cases odd : newest.generation % 2 = 1
  · rw [if_pos odd] at newer
    rw [if_neg (by omega)] at olderFile
    simp [newer,olderFile]
  · rw [if_neg odd] at newer
    rw [if_pos (by omega)] at olderFile
    simp [newer,olderFile]

end hard

abbrev opened (owner : Owner) (generation : Nat) (state : RaftPersistentState) : Store := ⟨owner,generation,state,.none,false⟩

theorem opened_ready : (opened owner generation state).ready operation = .ok () := rfl

section initialized
variable {owner : Owner} {files : Files} {newest : HardRecord} {state : RaftPersistentState} {tail : Bytes}

theorem openStore_initialized (mine : owner.Valid) (identity : files .identity = some (encodeIdentity owner))
    (hard : HardFiles owner files newest) (present : files .journal = some journal) : openStore owner files = (do
      let loaded ← loadBoundary owner files newest.term
      let (state,cut) ← recoverLog owner ⟨newest.term,newest.votedFor,loaded,[]⟩ journal
      return (opened owner newest.generation state,cut ++ [.sync .journal,.syncDirectory])) := by
  obtain ⟨a,b⟩ := hard.both
  have artifacts : checkArtifacts owner files = .ok () := by
    unfold checkArtifacts
    rw [identity]
    dsimp only
    rw [verify_identity owner mine.fits]
    exact if_neg (by simp [a,b,present])
  have first : createFirst owner files = [] := if_neg (fun both => a both.1)
  have second : createSecond owner files = [] := if_neg (fun all => b all.2.2)
  have third : createJournal owner files newest = .ok [] := by
    unfold createJournal
    rw [present]
  unfold openStore
  rw [if_neg (by simp [mine.cluster,mine.node]),artifacts,first]
  simp only [run_nil,second,selectHard_newest mine.fits hard,third,present,bind,Except.bind,Option.getD_some,List.nil_append]
  cases loadBoundary owner files newest.term with
  | error => rfl
  | ok loaded =>
    dsimp only
    cases recoverLog owner ⟨newest.term,newest.votedFor,loaded,[]⟩ journal with
    | error => rfl
    | ok =>
      dsimp only
      rw [if_neg (by simp [identity]),if_neg (by simp [identity]),List.append_nil]

-- What the files of a store hold, and a torn tail of the journal.
structure Image (owner : Owner) (files : Files) (generation : Nat) (state : RaftPersistentState) (tail : Bytes) : Prop where
  identity : files .identity = some (encodeIdentity owner)
  hard : HardFiles owner files ⟨generation,state.currentTerm,state.votedFor⟩
  snapshot : files .snapshot = state.snapshot.map (encodeSnapshot owner)
  journal : ∃ updates, files .journal = some (journalFile owner state.snapshot updates ++ tail) ∧
    (∀ update ∈ updates, UpdateFits update) ∧ Replays {state with log := []} updates state.log
  valid : Valid state

theorem loadBoundary_snapshot (mine : owner.Fits) (loaded : Option StateMachineSnapshot)
    (present : files .snapshot = loaded.map (encodeSnapshot owner))
    (fine : ∀ snapshot, loaded = some snapshot → BoundaryFits snapshot ∧
      snapshot.stateMachine.length ≤ maxSnapshotPayloadSize ∧ snapshot.lastIncludedTerm ≤ term) :
    loadBoundary owner files term = .ok loaded := by
  unfold loadBoundary
  rw [present]
  cases loaded with
  | none => rfl
  | some snapshot =>
    obtain ⟨fits,small,past⟩ := fine snapshot rfl
    rw [Option.map_some,load_snapshot owner mine snapshot fits small]
    refine if_neg ?_
    rintro ⟨other,same,later⟩
    cases same
    omega

theorem Image.opens (mine : owner.Valid) (image : Image owner files generation state tail) (torn : Torn tail) :
    ∃ kept, openStore owner files = .ok (opened owner generation state,cutTail kept tail ++ [.sync .journal,.syncDirectory]) ∧
      Image owner (files.run (cutTail kept tail)) generation state [] := by
  obtain ⟨identity,hard,snapshot,⟨updates,present,fits,replays⟩,valid⟩ := image
  have loads := loadBoundary_snapshot mine.fits state.snapshot snapshot valid.snapshot
  refine ⟨(journalFile owner state.snapshot updates).length,?_,?_⟩
  · rw [openStore_initialized mine identity hard present,loads]
    simp only [bind,Except.bind]
    rw [recoverLog_eq mine.fits (fun snapshot taken => (valid.snapshot snapshot taken).1) fits replays torn not_older_same,
      dropCovered_same]
    rfl
  · unfold cutTail
    split
    · rename_i empty
      rw [empty] at present
      exact ⟨identity,hard,snapshot,⟨updates,present,fits,replays⟩,valid⟩
    · have other : ∀ name, name ≠ .journal → CrashDisk.Effect.apply files
          (.truncate .journal (journalFile owner state.snapshot updates).length) name = files name :=
        fun name different => truncate_other different
      refine ⟨(other _ (by decide)).trans identity,hard.frame (fun _ => other _ hardSlot_journal),
        (other _ (by decide)).trans snapshot,⟨updates,?_,fits,replays⟩,valid⟩
      show CrashDisk.Effect.apply files (.truncate .journal (journalFile owner state.snapshot updates).length) .journal = _
      rw [truncate_same,present,Option.map_some,List.take_left,List.append_nil]

end initialized

-- The file of the first initialisation that leaves so many files to be created.
def startFile (owner : Owner) : Nat → FileName × Bytes
  | 0 => (.journal,encodeLogHeader owner none)
  | 1 => (.hardB,encodeHardState owner (baseline 2))
  | _ => (.hardA,encodeHardState owner (baseline 1))

-- The rest of the first initialisation. The identity marker comes last.
def startEffects (owner : Owner) : Nat → List Effect
  | 0 => [.sync .journal,.syncDirectory] ++ create .identity (encodeIdentity owner)
  | missing+1 => create (startFile owner missing).1 (startFile owner missing).2 ++ startEffects owner missing

structure Started (owner : Owner) (files : Files) (missing : Nat) : Prop where
  identity : files .identity = none
  snapshot : files .snapshot = none
  hardA : files .hardA = if missing < 3 then some (encodeHardState owner (baseline 1)) else none
  hardB : files .hardB = if missing < 2 then some (encodeHardState owner (baseline 2)) else none
  journal : files .journal = if missing < 1 then some (encodeLogHeader owner none) else none
  few : missing ≤ 3

section started
variable {owner : Owner} {files : Files}

theorem baseline_fits (small : generation < 2^64) (real : generation ≠ 0) : (baseline generation).Fits :=
  ⟨small,by simp [baseline],by simp [baseline],real,by simp [baseline]⟩

theorem baselines_hard (a : files .hardA = some (encodeHardState owner (baseline 1)))
    (b : files .hardB = some (encodeHardState owner (baseline 2))) : HardFiles owner files (baseline 2) :=
  ⟨baseline_fits (by decide) (by decide),b,baseline 1,rfl,baseline_fits (by decide) (by decide),a⟩

theorem recoverLog_start (mine : owner.Fits) :
    recoverLog owner ⟨0,none,none,[]⟩ (encodeLogHeader owner none) = .ok (.empty,[]) := by
  have whole : encodeLogHeader owner none = journalFile owner none [] ++ [] := by simp [journalFile]
  rw [whole,recoverLog_eq mine (by simp) (by simp) .nil torn_nil (by simp [boundary])]
  rfl

theorem openStore_start (mine : owner.Valid) (identity : files .identity = none) (artifacts : checkArtifacts owner files = .ok ())
    (first : createFirst owner files = one) (second : createSecond owner (files.run one) = two)
    (hard : HardFiles owner ((files.run one).run two) (baseline 2)) (snapshot : ((files.run one).run two) .snapshot = none)
    (third : createJournal owner ((files.run one).run two) (baseline 2) = .ok three)
    (journal : (((files.run one).run two).run three) .journal = some (encodeLogHeader owner none)) :
    openStore owner files = .ok (opened owner 2 .empty,one ++ (two ++ (three ++ startEffects owner 0))) := by
  have loads : loadBoundary owner ((files.run one).run two) 0 = .ok none :=
    loadBoundary_snapshot mine.fits none snapshot (by simp)
  unfold openStore
  rw [if_neg (by simp [mine.cluster,mine.node]),artifacts,first]
  simp only [second,selectHard_newest mine.fits hard,bind,Except.bind]
  rw [show (baseline 2).term = 0 from rfl,loads]
  simp only [third,journal,Option.getD_some]
  rw [show (baseline 2).votedFor = none from rfl,recoverLog_start mine.fits]
  simp [identity,RaftPersistentState.empty,startEffects,opened,baseline,pure,Except.pure]

theorem checkArtifacts_start (identity : files .identity = none) (some : files .hardA ≠ none ∨ files .journal = none) :
    checkArtifacts owner files = .ok () := by
  unfold checkArtifacts
  rw [identity]
  refine if_neg ?_
  rintro ⟨a,-,journal⟩
  exact some.elim (fun present => present a) journal

theorem createFirst_present (present : files .hardA ≠ none) : createFirst owner files = [] := if_neg (fun both => present both.1)

theorem createSecond_present (present : files .hardB ≠ none) : createSecond owner files = [] := if_neg (fun all => present all.2.2)

theorem createSecond_missing (mine : owner.Fits) (identity : files .identity = none)
    (a : files .hardA = some (encodeHardState owner (baseline 1))) (b : files .hardB = none) :
    createSecond owner files = create .hardB (encodeHardState owner (baseline 2)) :=
  if_pos ⟨identity,readHardSlot_some mine (baseline_fits (by decide) (by decide)) a,b⟩

theorem createJournal_missing (identity : files .identity = none) (missing : files .journal = none) :
    createJournal owner files (baseline 2) = .ok (create .journal (encodeLogHeader owner none)) := by
  unfold createJournal
  rw [missing]
  exact if_neg (by simp [identity])

theorem create_same : files.run (create file contents) file = some contents := publish_same

theorem create_other (other : name ≠ file) : files.run (create file contents) name = files name := publish_other other

theorem Started.opens (mine : owner.Valid) (started : Started owner files missing) :
    openStore owner files = .ok (opened owner 2 .empty,startEffects owner missing) := by
  obtain ⟨identity,snapshot,a,b,journal,few⟩ := started
  match missing with
  | 0 =>
    have third : createJournal owner files (baseline 2) = .ok [] := by
      unfold createJournal
      rw [journal]
      rfl
    exact openStore_start mine identity (checkArtifacts_start identity (.inl (by simp [a]))) (createFirst_present (by simp [a]))
      (createSecond_present (by simp [b])) (baselines_hard a b) snapshot third journal
  | 1 =>
    exact openStore_start mine identity (checkArtifacts_start identity (.inl (by simp [a]))) (createFirst_present (by simp [a]))
      (createSecond_present (by simp [b])) (baselines_hard a b) snapshot (createJournal_missing identity journal) create_same
  | 2 =>
    have second := createSecond_missing mine.fits identity a b
    have kept : ∀ name, name ≠ .hardB → files.run (create .hardB (encodeHardState owner (baseline 2))) name = files name :=
      fun name other => create_other other
    exact openStore_start mine identity (checkArtifacts_start identity (.inl (by simp [a]))) (createFirst_present (by simp [a]))
      second (baselines_hard ((kept _ (by decide)).trans a) create_same) ((kept _ (by decide)).trans snapshot)
      (createJournal_missing ((kept _ (by decide)).trans identity) ((kept _ (by decide)).trans journal)) create_same
  | 3 =>
    have first : createFirst owner files = create .hardA (encodeHardState owner (baseline 1)) := if_pos ⟨a,b⟩
    have begun : ∀ name, name ≠ .hardA → files.run (create .hardA (encodeHardState owner (baseline 1))) name = files name :=
      fun name other => create_other other
    have second := createSecond_missing mine.fits ((begun _ (by decide)).trans identity) create_same
      ((begun _ (by decide)).trans b)
    have kept : ∀ name, name ≠ .hardB → (files.run (create .hardA (encodeHardState owner (baseline 1)))).run
        (create .hardB (encodeHardState owner (baseline 2))) name =
          files.run (create .hardA (encodeHardState owner (baseline 1))) name := fun name other => create_other other
    have both : ∀ name, name ≠ .hardA → name ≠ .hardB → (files.run (create .hardA (encodeHardState owner (baseline 1)))).run
        (create .hardB (encodeHardState owner (baseline 2))) name = files name :=
      fun name other another => (kept name another).trans (begun name other)
    exact openStore_start mine identity (checkArtifacts_start identity (.inr journal)) first second
      (baselines_hard ((kept _ (by decide)).trans create_same) create_same)
      ((both _ (by decide) (by decide)).trans snapshot) (createJournal_missing ((both _ (by decide) (by decide)).trans identity)
        ((both _ (by decide) (by decide)).trans journal)) create_same
  | missing+4 => omega

theorem started_empty : Started owner Disk.empty 3 := ⟨rfl,rfl,rfl,rfl,rfl,Nat.le_refl _⟩

theorem Started.advance (started : Started owner files (missing+1)) :
    Started owner (CrashDisk.Effect.apply files (.publish (startFile owner missing).1 (startFile owner missing).2)) missing := by
  obtain ⟨identity,snapshot,a,b,journal,few⟩ := started
  match missing with
  | 0 => constructor <;> simp [startFile,publish_other,identity,snapshot,a,b]
  | 1 => constructor <;> simp [startFile,publish_other,identity,snapshot,a,journal]
  | 2 => constructor <;> simp [startFile,publish_other,identity,snapshot,b,journal]
  | missing+3 => omega

theorem Started.finish (started : Started owner files 0) :
    Image owner (CrashDisk.Effect.apply files (.publish .identity (encodeIdentity owner))) 2 .empty [] := by
  obtain ⟨-,snapshot,a,b,journal,-⟩ := started
  have valid : Valid .empty := ⟨trivial,by decide,by decide,nofun⟩
  exact ⟨publish_same,baselines_hard ((publish_other (by decide)).trans a) ((publish_other (by decide)).trans b),
    (publish_other (by decide)).trans snapshot,⟨[],(publish_other (by decide)).trans (by simp [journal,journalFile,RaftPersistentState.empty]),by simp,.nil⟩,valid⟩

theorem Started.run (started : Started owner files missing) : Image owner (files.run (startEffects owner missing)) 2 .empty [] := by
  induction missing generalizing files with
  | zero => exact started.finish
  | succ missing ih => exact ih started.advance

theorem Started.leaves (started : Started owner files missing) (leaves : Leaves files (startEffects owner missing) left) :
    (∃ fewer, Started owner left fewer) ∨ Image owner left 2 .empty [] := by
  induction missing generalizing files with
  | zero =>
    rcases CrashDisk.leaves_publish (CrashDisk.leaves_syncDirectory (CrashDisk.leaves_sync leaves)) with same | leaves
    · exact .inl ⟨0,same ▸ started⟩
    · rw [CrashDisk.leaves_nil (CrashDisk.leaves_syncDirectory leaves)]
      exact .inr started.finish
  | succ missing ih =>
    rcases CrashDisk.leaves_publish leaves with same | leaves
    · exact .inl ⟨missing+1,same ▸ started⟩
    · exact ih started.advance (CrashDisk.leaves_syncDirectory leaves)

end started

-- Open succeeds with a state, and so does every later open.
def Recovers (owner : Owner) (files : Files) (state : RaftPersistentState) : Prop :=
  ∃ generation effects again, openStore owner files = .ok (opened owner generation state,effects) ∧
    openStore owner (files.run effects) = .ok (opened owner generation state,again)

section recovers
variable {owner : Owner} {files : Files} {state : RaftPersistentState} {tail : Bytes}

theorem Image.settled (mine : owner.Valid) (image : Image owner files generation state tail) (torn : Torn tail) :
    ∃ effects, openStore owner files = .ok (opened owner generation state,effects) ∧
      Image owner (files.run effects) generation state [] := by
  obtain ⟨kept,opens,cut⟩ := image.opens mine torn
  refine ⟨_,opens,?_⟩
  rw [run_append]
  exact cut

theorem Image.recovers (mine : owner.Valid) (image : Image owner files generation state tail) (torn : Torn tail) :
    Recovers owner files state := by
  obtain ⟨effects,opens,settled⟩ := image.settled mine torn
  obtain ⟨again,reopens,-⟩ := settled.settled mine torn_nil
  exact ⟨generation,effects,again,opens,reopens⟩

theorem Started.recovers (mine : owner.Valid) (started : Started owner files missing) : Recovers owner files .empty := by
  obtain ⟨again,reopens,-⟩ := started.run.settled mine torn_nil
  exact ⟨2,_,again,started.opens mine,reopens⟩

end recovers

-- The files of a store, with the given records in its journal.
def storedFiles (owner : Owner) (newest : HardRecord) (base : Option StateMachineSnapshot) (updates : List PersistLog) : Files
  | .identity => some (encodeIdentity owner)
  | .snapshot => base.map (encodeSnapshot owner)
  | .journal => some (journalFile owner base updates)
  | slot => some (encodeHardState owner (if slot = hardSlot newest.generation then newest else baseline (newest.generation-1)))

theorem storedFiles_image (owner : Owner) {newest : HardRecord} {updates : List PersistLog} (fits : newest.Fits)
    (second : 2 ≤ newest.generation) (written : ∀ update ∈ updates, UpdateFits update)
    (replays : Replays ⟨newest.term,newest.votedFor,base,[]⟩ updates log) (valid : Valid ⟨newest.term,newest.votedFor,base,log⟩) :
    Image owner (storedFiles owner newest base updates) newest.generation ⟨newest.term,newest.votedFor,base,log⟩ [] := by
  have slots : ∀ generation, storedFiles owner newest base updates (hardSlot generation) = some (encodeHardState owner
      (if hardSlot generation = hardSlot newest.generation then newest else baseline (newest.generation-1))) := by
    intro generation
    rcases Nat.mod_two_eq_zero_or_one generation with even | odd
    · simp [hardSlot,even,storedFiles]
    · simp [hardSlot,odd,storedFiles]
  have apart : hardSlot (newest.generation-1) ≠ hardSlot newest.generation := by
    unfold hardSlot
    split <;> split <;> simp <;> omega
  refine ⟨rfl,⟨fits,?_,baseline (newest.generation-1),?_,baseline_fits ?_ ?_,?_⟩,rfl,⟨updates,?_,written,replays⟩,valid⟩
  · rw [slots,if_pos rfl]
  · simp only [baseline]
    omega
  · have small := fits.generation
    omega
  · omega
  · rw [show (baseline (newest.generation-1)).generation = newest.generation-1 from rfl,slots,if_neg apart]
  · simp [storedFiles]

end ForgeKv.RaftStorage
