import ForgeKv.RaftStorage.Install

namespace ForgeKv.RaftStorage
open Raft
open CrashDisk

section publish
variable {owner : Owner} {files : Files} {state : RaftPersistentState} {snapshot : StateMachineSnapshot}

theorem Image.loads (mine : owner.Valid) (image : Image owner files generation state tail) :
    loadSnapshot owner (files .snapshot) = .ok state.snapshot := by
  rw [image.snapshot]
  cases taken : state.snapshot with
  | none => rfl
  | some old =>
    obtain ⟨boundary,small,-⟩ := image.valid.snapshot old taken
    exact load_snapshot owner mine.fits old boundary small

theorem Image.writes (mine : owner.Valid) (image : Image owner files generation state tail)
    (installable : Installable state snapshot) :
    writeAtomic owner files snapshot = .ok (create .snapshot (encodeSnapshot owner snapshot)) := by
  have newer := installable.newer
  have small := installable.small
  unfold writeAtomic
  rw [if_neg (by simp [installable.room,installable.elected]; omega),image.loads mine]
  unfold RaftPersistentState.baseIndex at newer
  cases taken : state.snapshot with
  | none => rfl
  | some =>
    rw [taken] at newer
    simp only [Option.map_some,Option.getD_some] at newer
    show (if _ then _ else if _ then _ else _) = _
    rw [if_neg (by omega),if_neg (by omega)]
    rfl

-- The files at the start of an installation. A compaction wrote its snapshot before.
def beforeInstall (owner : Owner) (files : Files) (snapshot : StateMachineSnapshot) (already : Bool) : Result Files :=
  if already then do
    let written ← writeAtomic owner files snapshot
    return files.run written
  else return files

theorem Image.installs (mine : owner.Valid) (image : Image owner files generation state [])
    (prepared : beforeInstall owner files snapshot already = .ok start)
    (done : (opened owner generation state).installSnapshot start snapshot already = .ok (after,effects)) :
    Installable state snapshot ∧ after = opened owner generation (installed state snapshot) ∧
      start = files.run (if already then create .snapshot (encodeSnapshot owner snapshot) else []) ∧
      effects = (if already then [] else create .snapshot (encodeSnapshot owner snapshot)) ++
        create .journal (newJournal owner state snapshot) := by
  obtain ⟨installable,published,wrote,rfl,rfl⟩ := install_iff.mp done
  have writes := image.writes mine installable
  refine ⟨installable,rfl,?_⟩
  cases already with
  | false =>
    cases prepared
    rw [show (opened owner generation state).publishSnapshot files snapshot false = writeAtomic owner files snapshot from rfl,
      writes] at wrote
    cases wrote
    exact ⟨rfl,rfl⟩
  | true =>
    unfold beforeInstall at prepared
    rw [if_pos rfl,writes] at prepared
    cases prepared
    refine ⟨rfl,?_⟩
    obtain ⟨durable,_,wrote⟩ := bind_ok.mp wrote
    split at wrote
    · cases wrote
    · cases wrote
      rfl

end publish

-- A store and its files after a first open, updates that were taken, finished
-- installations, reopening, and crashes inside an update or the first open.
inductive Reached (owner : Owner) : Files → Store → Prop where
  | first : openStore owner Disk.empty = .ok (store,effects) → Reached owner (Disk.empty.run effects) store
  | persist : Reached owner files store → store.persist update = .ok (after,effects) → update.Fits after →
      Reached owner (files.run effects) after
  | install : Reached owner files store → beforeInstall owner files snapshot already = .ok start →
      store.installSnapshot start snapshot already = .ok (after,effects) → snapshot.lastIncludedIndex < 2^64 →
      Reached owner (start.run effects) after
  | reopen : Reached owner files store → openStore owner files = .ok (again,effects) → Reached owner (files.run effects) again
  | restart : openStore owner Disk.empty = .ok (store,effects) → Leaves Disk.empty effects left →
      openStore owner left = .ok (again,more) → Reached owner (left.run more) again
  | recover : Reached owner files store → store.persist update = .ok (after,effects) → update.Fits after →
      Leaves files effects left → openStore owner left = .ok (again,more) → Reached owner (left.run more) again

theorem Image.reopened (mine : owner.Valid) (image : Image owner files generation state tail) (torn : Torn tail)
    (done : openStore owner files = .ok (again,more)) :
    again = opened owner generation state ∧ Image owner (files.run more) generation state [] := by
  obtain ⟨effects,opens,settled⟩ := image.settled mine torn
  rw [opens] at done
  cases done
  exact ⟨rfl,settled⟩

theorem Started.reopened (mine : owner.Valid) (started : Started owner files missing)
    (done : openStore owner files = .ok (again,more)) :
    again = opened owner 2 .empty ∧ Image owner (files.run more) 2 .empty [] := by
  rw [started.opens mine] at done
  cases done
  exact ⟨rfl,started.run⟩

theorem Reached.image (mine : owner.Valid) (reached : Reached owner files store) :
    ∃ generation state, store = opened owner generation state ∧ Image owner files generation state [] := by
  induction reached with
  | first opens => exact ⟨_,_,started_empty.reopened mine opens⟩
  | persist _ done fits ih =>
    obtain ⟨generation,state,rfl,image⟩ := ih
    obtain ⟨later,final,rfl,kept,-⟩ := image.persisted done fits
    exact ⟨later,final,rfl,kept⟩
  | @install files store snapshot already start after effects _ prepared done fits ih =>
    obtain ⟨generation,state,rfl,image⟩ := ih
    obtain ⟨installable,rfl,rfl,rfl⟩ := image.installs mine prepared done
    refine ⟨generation,_,rfl,?_⟩
    have kept := image.afterInstall installable fits
    cases already with
    | false =>
      exact kept
    | true => exact kept
  | reopen _ opens ih =>
    obtain ⟨generation,state,rfl,image⟩ := ih
    exact ⟨generation,state,image.reopened mine torn_nil opens⟩
  | restart opens leaves again =>
    rw [started_empty.opens mine] at opens
    cases opens
    rcases started_empty.leaves leaves with ⟨fewer,started⟩ | image
    · exact ⟨_,_,started.reopened mine again⟩
    · exact ⟨_,_,image.reopened mine torn_nil again⟩
  | recover _ done fits leaves again ih =>
    obtain ⟨generation,state,rfl,image⟩ := ih
    obtain ⟨later,final,rfl,_,cut⟩ := image.persisted done fits
    rcases cut _ leaves with ⟨tail,torn,kept⟩ | kept
    · exact ⟨_,_,kept.reopened mine torn again⟩
    · exact ⟨_,_,kept.reopened mine torn_nil again⟩

-- A crash inside the first open or inside an update of any history.
theorem crash_consistent (mine : owner.Valid) :
    (∃ store effects, openStore owner Disk.empty = .ok (store,effects) ∧
      ∀ left, Leaves Disk.empty effects left → Recovers owner left store.state) ∧
    ∀ files store, Reached owner files store → ∀ update after effects, store.persist update = .ok (after,effects) →
      update.Fits after →
      (∀ left, Leaves files effects left → Recovers owner left store.state ∨ Recovers owner left after.state) ∧
      Recovers owner (files.run effects) after.state := by
  constructor
  · refine ⟨_,_,started_empty.opens mine,?_⟩
    intro left leaves
    rcases started_empty.leaves leaves with ⟨fewer,started⟩ | image
    · exact started.recovers mine
    · exact image.recovers mine torn_nil
  · intro files store reached update after effects done fits
    obtain ⟨generation,state,rfl,image⟩ := reached.image mine
    obtain ⟨later,final,rfl,kept,cut⟩ := image.persisted done fits
    refine ⟨?_,kept.recovers mine torn_nil⟩
    intro left leaves
    rcases cut left leaves with ⟨tail,torn,before⟩ | whole
    · exact .inl (before.recovers mine torn)
    · exact .inr (whole.recovers mine torn_nil)

def sampleOwner : Owner := ⟨7,1,9⟩

theorem sampleOwner_valid : sampleOwner.Valid := ⟨⟨by decide,by decide,by decide⟩,by decide,by decide⟩

-- The first hard state of a new store.
def firstVote : PersistHardState := ⟨1,some 1⟩

theorem firstVote_taken : (opened sampleOwner 2 .empty).persist (.hardState firstVote) =
    .ok (opened sampleOwner 3 ⟨1,some 1,none,[]⟩,create (hardSlot 3) (encodeHardState sampleOwner ⟨3,1,some 1⟩)) :=
  persist_hardState.mpr ⟨⟨by decide,by decide,by decide,by decide,nofun,by decide⟩,rfl,rfl⟩

theorem firstVote_fits (after : Store) : (Update.hardState firstVote).Fits after := by
  refine ⟨by decide,?_⟩
  intro candidate voted
  cases voted
  decide

def sampleFiles : Files := Disk.empty.run (startEffects sampleOwner 3)

theorem sample_reached : Reached sampleOwner sampleFiles (opened sampleOwner 2 .empty) := .first (started_empty.opens sampleOwner_valid)

theorem crash_consistent_firstVote : ∃ files effects, Reached sampleOwner files (opened sampleOwner 2 .empty) ∧
    (opened sampleOwner 2 .empty).persist (.hardState firstVote) = .ok (opened sampleOwner 3 ⟨1,some 1,none,[]⟩,effects) ∧
    Recovers sampleOwner (files.run effects) ⟨1,some 1,none,[]⟩ :=
  ⟨_,_,sample_reached,firstVote_taken,
    ((crash_consistent sampleOwner_valid).2 _ _ sample_reached _ _ _ firstVote_taken (firstVote_fits _)).2⟩

-- Open succeeds with a state.
def Opens (owner : Owner) (files : Files) (state : RaftPersistentState) : Prop :=
  ∃ generation effects, openStore owner files = .ok (opened owner generation state,effects)

section install
variable {owner : Owner} {files : Files} {state : RaftPersistentState} {snapshot : StateMachineSnapshot} {already : Bool}

theorem Image.cut (image : Image owner files generation state []) (installable : Installable state snapshot)
    (fits : snapshot.lastIncludedIndex < 2^64)
    (leaves : Leaves (files.run (if already then create .snapshot (encodeSnapshot owner snapshot) else []))
      ((if already then [] else create .snapshot (encodeSnapshot owner snapshot)) ++
        create .journal (newJournal owner state snapshot)) left) :
    Image owner left generation state [] ∨ Ahead owner left generation state snapshot [] ∨
      Image owner left generation (installed state snapshot) [] := by
  have ahead := image.ahead installable fits
  have whole := image.afterInstall installable fits
  have second : ∀ {left}, Leaves (files.run (create .snapshot (encodeSnapshot owner snapshot)))
      (create .journal (newJournal owner state snapshot)) left →
      Ahead owner left generation state snapshot [] ∨ Image owner left generation (installed state snapshot) [] := by
    intro left leaves
    rcases leaves_publish leaves with same | leaves
    · exact .inl (same ▸ ahead)
    · rw [leaves_nil (leaves_syncDirectory leaves)]
      exact .inr whole
  cases already with
  | true => exact .inr (second leaves)
  | false =>
    rcases leaves_split leaves with first | leaves
    · rcases leaves_publish first with same | first
      · exact .inl (same ▸ image)
      · rw [leaves_nil (leaves_syncDirectory first)]
        exact .inr (.inl ahead)
    · exact .inr (second leaves)

theorem leaves_between (snapshot : StateMachineSnapshot) (already : Bool) (journal : Bytes) :
    Leaves (files.run (if already then create .snapshot (encodeSnapshot owner snapshot) else []))
      ((if already then [] else create .snapshot (encodeSnapshot owner snapshot)) ++ create .journal journal)
      (files.run (create .snapshot (encodeSnapshot owner snapshot))) := by
  cases already with
  | true => exact .stop
  | false => exact .step (.step .stop)

-- An installation is atomic exactly when the local log has the snapshot's last entry.
theorem install_crash_atomic_iff (mine : owner.Valid) (reached : Reached owner files store)
    (prepared : beforeInstall owner files snapshot already = .ok start)
    (done : store.installSnapshot start snapshot already = .ok (after,effects)) (fits : snapshot.lastIncludedIndex < 2^64) :
    (∀ left, Leaves start effects left → Opens owner left store.state ∨ Opens owner left after.state) ↔
      Logged store.state snapshot := by
  obtain ⟨generation,state,rfl,image⟩ := reached.image mine
  obtain ⟨installable,rfl,rfl,rfl⟩ := image.installs mine prepared done
  constructor
  · intro atomic
    by_contra lacks
    have refused := (image.ahead installable fits).refused mine torn_nil lacks
    rcases atomic _ (leaves_between snapshot already _) with ⟨_,_,opens⟩ | ⟨_,_,opens⟩
    · rw [refused] at opens
      cases opens
    · rw [refused] at opens
      cases opens
  · intro logged left leaves
    rcases image.cut installable fits leaves with before | ahead | whole
    · obtain ⟨kept,opens,-⟩ := before.opens mine torn_nil
      exact .inl ⟨_,_,opens⟩
    · obtain ⟨kept,opens⟩ := ahead.opens mine torn_nil logged
      exact .inr ⟨_,_,opens⟩
    · obtain ⟨kept,opens,-⟩ := whole.opens mine torn_nil
      exact .inr ⟨_,_,opens⟩

theorem Image.takes (mine : owner.Valid) (image : Image owner files generation state []) (installable : Installable state snapshot) :
    (opened owner generation state).installSnapshot files snapshot false = .ok (opened owner generation (installed state snapshot),
      create .snapshot (encodeSnapshot owner snapshot) ++ create .journal (newJournal owner state snapshot)) :=
  install_iff.mpr ⟨installable,_,image.writes mine installable,rfl,rfl⟩

end install

def firstEntry : LogEntry := ⟨1,1,.noOp,[]⟩

def votedFiles : Files := sampleFiles.run (create (hardSlot 3) (encodeHardState sampleOwner ⟨3,1,some 1⟩))

theorem voted_reached : Reached sampleOwner votedFiles (opened sampleOwner 3 ⟨1,some 1,none,[]⟩) :=
  sample_reached.persist firstVote_taken (firstVote_fits _)

def firstFiles : Files := votedFiles.run [.append .journal (encodeLogUpdate ⟨1,[firstEntry]⟩),.sync .journal]

theorem firstEntry_reached : Reached sampleOwner firstFiles (opened sampleOwner 3 ⟨1,some 1,none,[firstEntry]⟩) := by
  have fine : EntryOk 1 1 0 firstEntry := ⟨rfl,by decide,by decide,by decide,by decide,fun _ => rfl⟩
  have admits : Admits ⟨1,some 1,none,[]⟩ ⟨1,[firstEntry]⟩ :=
    ⟨by decide,by decide,by decide,⟨fine,by decide,by decide,trivial⟩,fun _ _ _ => by decide⟩
  have taken : (opened sampleOwner 3 ⟨1,some 1,none,[]⟩).persist (.log ⟨1,[firstEntry]⟩) =
      .ok (opened sampleOwner 3 ⟨1,some 1,none,[firstEntry]⟩,_) := persist_log.mpr ⟨admits,rfl,rfl⟩
  refine voted_reached.persist taken ⟨⟨by decide,?_⟩,by decide⟩
  intro entry member
  rw [List.mem_singleton.mp member]
  decide

theorem install_crash_atomic_firstEntry : ∃ files effects after,
    (opened sampleOwner 3 ⟨1,some 1,none,[firstEntry]⟩).installSnapshot files ⟨1,1,[7]⟩ false = .ok (after,effects) ∧
    ∀ left, Leaves files effects left →
      Opens sampleOwner left ⟨1,some 1,none,[firstEntry]⟩ ∨ Opens sampleOwner left after.state := by
  obtain ⟨generation,state,same,image⟩ := firstEntry_reached.image sampleOwner_valid
  cases same
  have takes := image.takes sampleOwner_valid (show Installable _ ⟨1,1,[7]⟩ from
    ⟨by decide,by decide,by decide,by decide,by decide⟩)
  exact ⟨_,_,_,takes,(install_crash_atomic_iff sampleOwner_valid firstEntry_reached rfl takes (by decide)).mpr ⟨by decide,by decide⟩⟩

-- A snapshot from a leader that is ahead of the local log: a crash between the
-- renames leaves a store that open refuses.
theorem leader_snapshot_bricks_store : ∃ files effects after left,
    Reached sampleOwner files (opened sampleOwner 3 ⟨1,some 1,none,[]⟩) ∧
    (opened sampleOwner 3 ⟨1,some 1,none,[]⟩).installSnapshot files ⟨5,1,[7]⟩ false = .ok (after,effects) ∧
    Leaves files effects left ∧
    openStore sampleOwner left = .error (corruption "full Raft journal conflicts with snapshot boundary") := by
  obtain ⟨generation,state,same,image⟩ := voted_reached.image sampleOwner_valid
  cases same
  have installable : Installable ⟨1,some 1,none,[]⟩ ⟨5,1,[7]⟩ := ⟨by decide,by decide,by decide,by decide,by decide⟩
  have lacks : ¬ Logged ⟨1,some 1,none,[]⟩ ⟨5,1,[7]⟩ := fun logged => absurd logged.1 (by decide)
  have between : Leaves votedFiles _ (votedFiles.run (create .snapshot (encodeSnapshot sampleOwner ⟨5,1,[7]⟩))) :=
    leaves_between ⟨5,1,[7]⟩ false (newJournal sampleOwner ⟨1,some 1,none,[]⟩ ⟨5,1,[7]⟩)
  exact ⟨_,_,_,_,voted_reached,image.takes sampleOwner_valid installable,between,
    (image.ahead installable (by decide)).refused sampleOwner_valid torn_nil lacks⟩

end ForgeKv.RaftStorage
