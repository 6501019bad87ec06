import ForgeKv.RaftStorage.CrashConsistency
import ForgeKv.RaftStorage.Trim

namespace ForgeKv.RaftStorage
open Raft
open CrashDisk

-- What an update behind a snapshot makes of the entries behind it. An update
-- without an entry behind the snapshot changes nothing.
def definedAbove (snapshot : StateMachineSnapshot) (above : List LogEntry) (update : PersistLog) : List LogEntry :=
  match update.entries.getLast? with
  | none => above
  | some last =>
    if last.index ≤ snapshot.lastIncludedIndex then above
    else above.take (update.fromIndex-snapshot.lastIncludedIndex-1) ++ update.entries

-- Sizes of files are off_t.
def JournalFits (files : Files) : Prop := ∀ journal, files .journal = some journal → journal.length < 2^63

section lengths
variable {state : RaftPersistentState} {update : PersistLog}

theorem entries_length_le (entries : List LogEntry) : entries.length ≤ (entries.flatMap encodeEntry).length := by
  induction entries with
  | nil => exact Nat.le_refl _
  | cons =>
    rw [List.flatMap_cons,List.length_append,encodeEntry_length,List.length_cons]
    unfold entryHeaderSize
    omega

theorem updatedLog_length_le : (updatedLog state update).length ≤ state.log.length+(encodeLogUpdate update).length := by
  have entries := entries_length_le update.entries
  rw [record_length]
  unfold updatedLog
  split
  · omega
  · split
    · omega
    · simp only [List.length_append,List.length_take,List.length_drop]
      omega

theorem Replays.length_le (replays : Replays state updates log) :
    log.length ≤ state.log.length+(updates.flatMap encodeLogUpdate).length := by
  induction replays with
  | nil => exact Nat.le_add_right ..
  | @cons state update rest log admits _ ih =>
    have one : (updatedLog state update).length ≤ _ := updatedLog_length_le
    rw [List.flatMap_cons,List.length_append]
    simp only at ih
    omega

end lengths

section behind
variable {state : RaftPersistentState} {snapshot : StateMachineSnapshot} {update : PersistLog}

theorem updatedLog_defined (valid : Valid state) (taken : state.snapshot = some snapshot)
    (above : snapshot.lastIncludedIndex < update.fromIndex) : updatedLog state update = definedAbove snapshot state.log update := by
  have base : state.baseIndex = snapshot.lastIncludedIndex := by
    unfold RaftPersistentState.baseIndex
    rw [taken]
    rfl
  unfold definedAbove
  cases found : update.entries.getLast? with
  | none => exact updatedLog_kept (by simp [found])
  | some =>
    dsimp only
    split
    · rename_i covered
      refine updatedLog_kept (fun other same => ?_)
      rw [found] at same
      cases same
      omega
    · rename_i past
      rw [updatedLog_past valid.chained found (by omega),base,show snapshot.lastIncludedIndex+1-update.fromIndex = 0 by omega,List.drop_zero]

end behind

-- A store and its files in any history that publishes snapshots ahead of the
-- journal. The first index is the snapshot that was published last and the
-- entries behind it that the updates since then define; it is none once the
-- history of that snapshot is not followed any more.
inductive Live (owner : Owner) : Option (StateMachineSnapshot × List LogEntry) → Files → Store → Prop where
  | reached : Reached owner files store → Live owner none files store
  | persist : Live owner none files store → store.persist update = .ok (after,effects) → update.Fits after →
      Live owner none (files.run effects) after
  | replace : Live owner none files store → beforeInstall owner files snapshot already = .ok start →
      store.installSnapshot start snapshot already = .ok (after,effects) → snapshot.lastIncludedIndex < 2^64 →
      Live owner none (start.run effects) after
  | compacted : Live owner (some (snapshot,above)) files store → store.installSnapshot files snapshot true = .ok (after,effects) →
      Live owner none (files.run effects) after
  | publish : Live owner followed files store → store.state.baseIndex < snapshot.lastIncludedIndex → Logged store.state snapshot →
      (∀ old, loadSnapshot owner (files .snapshot) = .ok (some old) → old.lastIncludedIndex < snapshot.lastIncludedIndex) →
      writeAtomic owner files snapshot = .ok written → snapshot.lastIncludedIndex < 2^64 →
      Live owner (some (snapshot,store.state.log.drop (snapshot.lastIncludedIndex-store.state.baseIndex))) (files.run written) store
  | hardState : Live owner (some followed) files store → store.persist (.hardState hard) = .ok (after,effects) →
      (Update.hardState hard).Fits after → Live owner (some followed) (files.run effects) after
  | log : Live owner (some (snapshot,above)) files store → snapshot.lastIncludedIndex < update.fromIndex →
      store.persist (.log update) = .ok (after,effects) → (Update.log update).Fits after → JournalFits (files.run effects) →
      Live owner (some (snapshot,definedAbove snapshot above update)) (files.run effects) after
  | reopen : Live owner followed files store → openStore owner files = .ok (again,effects) →
      Live owner followed (files.run effects) again
  | install : Live owner (some (snapshot,above)) files store → store.installSnapshot files snapshot true = .ok (after,effects) →
      Live owner (some (snapshot,above)) (files.run effects) after
  | interrupted : Live owner (some (snapshot,above)) files store → store.installSnapshot files snapshot true = .ok (after,effects) →
      Leaves files effects left → openStore owner left = .ok (again,more) → Live owner (some (snapshot,above)) (left.run more) again

-- The state of the running store beside the state that the journal replays to.
structure TrimmedAt (full : RaftPersistentState) (limit : Nat) (middle : StateMachineSnapshot) : Prop where
  installable : Installable full middle
  logged : Logged full middle
  fits : middle.lastIncludedIndex < 2^64
  within : middle.lastIncludedIndex ≤ limit

def Trims (full state : RaftPersistentState) (limit : Nat) : Prop :=
  state = full ∨ ∃ middle, TrimmedAt full limit middle ∧ state = installed full middle

inductive Follows (owner : Owner) : Option (StateMachineSnapshot × List LogEntry) → Files → Store → Prop where
  | free : Image owner files generation state [] → Follows owner none files (opened owner generation state)
  | whole : Image owner files generation state [] → state.snapshot = some snapshot →
      Follows owner (some (snapshot,state.log)) files (opened owner generation state)
  | ahead : Ahead owner files generation full snapshot [] → Logged full snapshot → Trims full state snapshot.lastIncludedIndex →
      Follows owner (some (snapshot,full.log.drop (snapshot.lastIncludedIndex-full.baseIndex))) files (opened owner generation state)

section ahead
variable {owner : Owner} {files : Files} {full state : RaftPersistentState} {snapshot : StateMachineSnapshot} {update : PersistLog}

theorem BoundaryFits.wide (fits : BoundaryFits snapshot) : snapshot.lastIncludedIndex < 2^64 :=
  Nat.lt_trans fits.index (by decide)

theorem Ahead.promoted (ahead : Ahead owner files generation full snapshot []) (trims : Trims full state limit)
    (promotes : Promotes generation state ballot) (small : ballot.term < 2^64)
    (named : ∀ candidate, ballot.votedFor = some candidate → candidate < 2^64) :
    Ahead owner (files.run (create (hardSlot (generation+1)) (encodeHardState owner ⟨generation+1,ballot.term,ballot.votedFor⟩)))
      (generation+1) {full with currentTerm := ballot.term,votedFor := ballot.votedFor} snapshot [] := by
  obtain ⟨identity,slots,published,⟨updates,present,fits,replays⟩,valid,boundary,installable⟩ := ahead
  have later : full.currentTerm ≤ ballot.term := by
    rcases trims with rfl | ⟨middle,_,rfl⟩ <;> exact promotes.later
  have slots : HardFiles owner files ⟨generation,state.currentTerm,state.votedFor⟩ := by
    rcases trims with rfl | ⟨middle,_,rfl⟩ <;> exact slots
  exact ⟨(create_other hardSlot_identity.symm).trans identity,slots.promoted promotes small named,
    (create_other hardSlot_snapshot.symm).trans published,
    ⟨updates,(create_other hardSlot_journal.symm).trans present,fits,replays.same ⟨rfl,rfl,rfl,later⟩⟩,
    valid.promoted later,boundary,{installable with past := Nat.le_trans installable.past later}⟩

theorem Trims.promoted (trims : Trims full state limit) (later : full.currentTerm ≤ term) :
    Trims {full with currentTerm := term,votedFor := votedFor} {state with currentTerm := term,votedFor := votedFor} limit := by
  rcases trims with rfl | ⟨middle,⟨installable,logged,fits,within⟩,rfl⟩
  · exact .inl rfl
  · exact .inr ⟨middle,⟨{installable with past := Nat.le_trans installable.past later},logged,fits,within⟩,rfl⟩

theorem TrimmedAt.valid (trimmed : TrimmedAt full limit middle) (valid : Valid full) (small : full.currentTerm < 2^64) :
    Valid (installed full middle) := installed_valid valid trimmed.installable trimmed.fits small

section
variable (trims : Trims full state limit) (valid : Valid full) (small : full.currentTerm < 2^64) (above : limit < update.fromIndex) (fits : update.fromIndex < 2^64)
include trims valid small above fits

theorem Trims.admits (admits : Admits state update) : Admits full update := by
  rcases trims with rfl | ⟨middle,trimmed,rfl⟩
  · exact admits
  · exact admits_trim valid (trimmed.valid valid small) trimmed.installable.newer trimmed.logged
      (Nat.lt_of_le_of_lt trimmed.within above) fits admits

theorem Trims.updated (admits : Admits full update) :
    Trims {full with log := updatedLog full update} {state with log := updatedLog state update} limit := by
  rcases trims with rfl | ⟨middle,trimmed,rfl⟩
  · exact .inl rfl
  · have newer := trimmed.installable.newer
    have behind := Nat.lt_of_le_of_lt trimmed.within above
    have logged := logged_updated valid newer trimmed.logged behind admits
    have inner := updatedLog_trim valid (trimmed.valid valid small) newer trimmed.logged behind fits admits
    have above' : ({full with log := updatedLog full update} : RaftPersistentState).baseIndex < middle.lastIncludedIndex := newer
    have log : (installed {full with log := updatedLog full update} middle).log = updatedLog (installed full middle) update :=
      (installed_log above' logged).trans inner.symm
    obtain ⟨⟨room,_,elected,past,size⟩,_,wide,within⟩ := trimmed
    refine .inr ⟨middle,⟨⟨room,newer,elected,past,size⟩,logged,wide,within⟩,?_⟩
    exact congrArg (RaftPersistentState.mk full.currentTerm full.votedFor (some middle)) log.symm

end

section
variable (ahead : Ahead owner files generation full snapshot [])
include ahead

theorem Ahead.appended (admits : Admits full update) (fits : update.Fits)
    (room : JournalFits (CrashDisk.Effect.apply files (.append .journal (encodeLogUpdate update)))) :
    Ahead owner (CrashDisk.Effect.apply files (.append .journal (encodeLogUpdate update))) generation
      {full with log := updatedLog full update} snapshot [] := by
  obtain ⟨identity,hard,published,⟨updates,present,others,replays⟩,valid,boundary,installable⟩ := ahead
  have journal : CrashDisk.Effect.apply files (.append .journal (encodeLogUpdate update)) .journal =
      some (journalFile owner full.snapshot (updates ++ [update]) ++ []) := by
    rw [append_same,present]
    simp [journalFile]
  have replays : Replays {full with log := []} (updates ++ [update]) (updatedLog full update) := replays.snoc admits
  have short : (updatedLog full update).length < 2^63 := by
    have size := room _ journal
    have length := replays.length_le
    simp only [journalFile,List.length_append,List.length_nil] at size length
    omega
  obtain ⟨space,newer,elected,past,small⟩ := installable
  refine ⟨(append_other (by decide)).trans identity,hard.frame (fun _ => append_other hardSlot_journal),
    (append_other (by decide)).trans published,⟨_,journal,?_,replays⟩,admits.valid valid fits.start short,boundary,
    ⟨space,newer,elected,past,small⟩⟩
  intro other member
  rcases List.mem_append.mp member with member | member
  · exact others other member
  · rw [List.mem_singleton.mp member]
    exact admits.fits fits

theorem Ahead.defined (logged : Logged full snapshot)
    (above : snapshot.lastIncludedIndex < update.fromIndex) (fits : update.fromIndex < 2^64) (admits : Admits full update) :
    (updatedLog full update).drop (snapshot.lastIncludedIndex-full.baseIndex) =
      definedAbove snapshot (full.log.drop (snapshot.lastIncludedIndex-full.baseIndex)) update := by
  have trimmed := installed_valid ahead.valid ahead.installable ahead.boundary.wide ahead.hard.fits.term
  rw [← updatedLog_trim ahead.valid trimmed ahead.installable.newer logged above fits admits,
    ← installed_log ahead.installable.newer logged]
  exact updatedLog_defined trimmed rfl above

theorem Ahead.trimmedAt (logged : Logged full snapshot) :
    TrimmedAt full snapshot.lastIncludedIndex snapshot := ⟨ahead.installable,logged,ahead.boundary.wide,Nat.le_refl _⟩

end

theorem Ahead.reopens (mine : owner.Valid) (ahead : Ahead owner files generation full snapshot []) (logged : Logged full snapshot) :
    ∃ effects, openStore owner files = .ok (opened owner generation (installed full snapshot),effects) ∧ files.run effects = files := by
  obtain ⟨kept,opens⟩ := ahead.opens mine torn_nil logged
  exact ⟨_,opens,rfl⟩

theorem logged_installable (valid : Valid state) (newer : state.baseIndex < snapshot.lastIncludedIndex) (logged : Logged state snapshot)
    (room : snapshot.lastIncludedIndex ≠ maxU64) (small : snapshot.stateMachine.length ≤ maxSnapshotPayloadSize) :
    Installable state snapshot := by
  obtain ⟨entry,found,term⟩ := Option.map_eq_some_iff.mp logged.2
  obtain ⟨_,_,_,fine⟩ := valid.log.mem (List.mem_of_getElem? found)
  exact ⟨room,newer,term ▸ fine.elected,term ▸ fine.past,small⟩

theorem writeAtomic_ok (wrote : writeAtomic owner files snapshot = .ok written) :
    (snapshot.lastIncludedIndex ≠ 0 ∧ snapshot.lastIncludedIndex ≠ maxU64 ∧ snapshot.lastIncludedTerm ≠ 0 ∧
      snapshot.stateMachine.length ≤ maxSnapshotPayloadSize) ∧
    ∃ current, loadSnapshot owner (files .snapshot) = .ok current ∧
      (((∀ old, current = some old → old.lastIncludedIndex < snapshot.lastIncludedIndex) ∧
        written = create .snapshot (encodeSnapshot owner snapshot)) ∨
      ((∃ old, current = some old ∧ snapshot.lastIncludedIndex ≤ old.lastIncludedIndex) ∧ written = [])) := by
  unfold writeAtomic at wrote
  split at wrote
  · cases wrote
  · rename_i fine
    simp only [not_or,not_lt] at fine
    refine ⟨fine,?_⟩
    obtain ⟨current,loaded,wrote⟩ := bind_ok.mp wrote
    refine ⟨current,loaded,?_⟩
    cases current with
    | none =>
      cases wrote
      exact .inl ⟨nofun,rfl⟩
    | some old =>
      dsimp only at wrote
      split at wrote
      · rename_i less
        cases wrote
        exact .inr ⟨⟨old,rfl,Nat.le_of_lt less⟩,rfl⟩
      · rename_i notLess
        split at wrote
        · rename_i same
          split at wrote
          · cases wrote
          · cases wrote
            exact .inr ⟨⟨old,rfl,Nat.le_of_eq same.symm⟩,rfl⟩
        · rename_i other
          cases wrote
          refine .inl ⟨?_,rfl⟩
          intro found taken
          cases taken
          omega

theorem writeAtomic_newer (wrote : writeAtomic owner files snapshot = .ok written)
    (later : ∀ old, loadSnapshot owner (files .snapshot) = .ok (some old) → old.lastIncludedIndex < snapshot.lastIncludedIndex) :
    written = create .snapshot (encodeSnapshot owner snapshot) ∧ snapshot.lastIncludedIndex ≠ maxU64 ∧
      snapshot.stateMachine.length ≤ maxSnapshotPayloadSize := by
  obtain ⟨⟨_,room,_,small⟩,-,loaded,⟨_,rfl⟩ | ⟨⟨old,rfl,less⟩,_⟩⟩ := writeAtomic_ok wrote
  · exact ⟨rfl,room,small⟩
  · exact absurd (later old loaded) (Nat.not_lt.mpr less)

theorem Ahead.republished (ahead : Ahead owner files generation full old []) (installable : Installable full snapshot)
    (fits : snapshot.lastIncludedIndex < 2^64) :
    Ahead owner (files.run (create .snapshot (encodeSnapshot owner snapshot))) generation full snapshot [] := by
  obtain ⟨identity,hard,_,⟨updates,present,others,replays⟩,valid,_,_⟩ := ahead
  exact ⟨(create_other (by decide)).trans identity,hard.frame (fun _ => create_other hardSlot_snapshot),create_same,
    ⟨updates,(create_other (by decide)).trans present,others,replays⟩,valid,installable.boundary fits hard.fits.term,installable⟩

theorem Ahead.loads (mine : owner.Valid) (ahead : Ahead owner files generation full snapshot []) :
    loadSnapshot owner (files .snapshot) = .ok (some snapshot) := by
  rw [ahead.published]
  exact load_snapshot owner mine.fits snapshot ahead.boundary ahead.installable.small

theorem Trims.logged (trims : Trims full state limit) (later : limit < snapshot.lastIncludedIndex) :
    (Logged state snapshot ↔ Logged full snapshot) ∧
    (Logged full snapshot → installed state snapshot = installed full snapshot) := by
  rcases trims with rfl | ⟨middle,trimmed,rfl⟩
  · exact ⟨Iff.rfl,fun _ => rfl⟩
  · have behind := Nat.lt_of_le_of_lt trimmed.within later
    exact ⟨logged_trim trimmed.installable.newer trimmed.logged behind,
      installed_trim trimmed.installable.newer trimmed.logged behind⟩

theorem Trims.base_le (trims : Trims full state limit) : full.baseIndex ≤ state.baseIndex := by
  rcases trims with rfl | ⟨middle,trimmed,rfl⟩
  · exact Nat.le_refl _
  · exact Nat.le_of_lt trimmed.installable.newer

theorem Trims.mono (trims : Trims full state limit) (later : limit ≤ higher) : Trims full state higher := by
  rcases trims with rfl | ⟨middle,trimmed,rfl⟩
  · exact .inl rfl
  · exact .inr ⟨middle,{trimmed with within := Nat.le_trans trimmed.within later},rfl⟩

theorem Trims.below (trims : Trims full state snapshot.lastIncludedIndex) (newer : state.baseIndex < snapshot.lastIncludedIndex) :
    ∃ limit, limit < snapshot.lastIncludedIndex ∧ Trims full state limit := by
  rcases trims with rfl | ⟨middle,trimmed,rfl⟩
  · exact ⟨0,Nat.lt_of_le_of_lt (Nat.zero_le _) newer,.inl rfl⟩
  · exact ⟨middle.lastIncludedIndex,newer,.inr ⟨middle,{trimmed with within := Nat.le_refl _},rfl⟩⟩

theorem Trims.valid (trims : Trims full state limit) (valid : Valid full) (small : full.currentTerm < 2^64) : Valid state := by
  rcases trims with rfl | ⟨middle,trimmed,rfl⟩
  · exact valid
  · exact trimmed.valid valid small

theorem Trims.hard (trims : Trims full state limit) : state.currentTerm = full.currentTerm ∧ state.votedFor = full.votedFor := by
  rcases trims with rfl | ⟨middle,trimmed,rfl⟩ <;> exact ⟨rfl,rfl⟩

theorem publish_true (wrote : (opened owner generation state).publishSnapshot files snapshot true = .ok published) : published = [] := by
  obtain ⟨durable,_,wrote⟩ := bind_ok.mp wrote
  split at wrote
  · cases wrote
  · cases wrote
    rfl

def Returns (owner : Owner) (files : Files) (store : Store) (snapshot : StateMachineSnapshot) (above : List LogEntry) : Prop :=
  ∃ generation effects, openStore owner files =
    .ok (opened owner generation ⟨store.state.currentTerm,store.state.votedFor,some snapshot,above⟩,effects)

theorem Ahead.compacts (ahead : Ahead owner files generation full snapshot []) (logged : Logged full snapshot)
    (trims : Trims full state snapshot.lastIncludedIndex)
    (done : (opened owner generation state).installSnapshot files snapshot true = .ok (after,effects)) :
    after = opened owner generation (installed full snapshot) ∧
    Image owner (files.run effects) generation (installed full snapshot) [] ∧
    ∀ left, Leaves files effects left → left = files ∨ left = files.run effects := by
  obtain ⟨installable,published,wrote,rfl,rfl⟩ := install_iff.mp done
  cases publish_true wrote
  obtain ⟨limit,lower,trims⟩ := trims.below installable.newer
  have same := (trims.logged lower).2 logged
  have slots : HardFiles owner files ⟨generation,state.currentTerm,state.votedFor⟩ := by
    rw [trims.hard.1,trims.hard.2]
    exact ahead.hard
  have whole := image_of_journal ahead.identity slots ahead.published (trims.valid ahead.valid ahead.hard.fits.term) installable
    ahead.boundary.wide
  rw [same] at whole ⊢
  refine ⟨rfl,whole,?_⟩
  intro left leaves
  rcases leaves_publish leaves with same | leaves
  · exact .inl same
  · exact .inr (leaves_nil (leaves_syncDirectory leaves))

end ahead

section follows
variable {owner : Owner} {files : Files} {store : Store} {snapshot : StateMachineSnapshot} {above : List LogEntry}

theorem whole_returns (mine : owner.Valid) (image : Image owner files generation state []) (taken : state.snapshot = some snapshot)
    (hard : state.currentTerm = store.state.currentTerm ∧ state.votedFor = store.state.votedFor) :
    Returns owner files store snapshot state.log := by
  obtain ⟨effects,opens,-⟩ := image.settled mine torn_nil
  refine ⟨generation,effects,?_⟩
  rw [opens,← hard.1,← hard.2,← taken]

theorem Follows.returns (mine : owner.Valid) (follows : Follows owner (some (snapshot,above)) files store) :
    Returns owner files store snapshot above := by
  cases follows with
  | whole image taken => exact whole_returns mine image taken ⟨rfl,rfl⟩
  | @ahead _ generation full _ state ahead logged trims =>
    obtain ⟨effects,opens,-⟩ := ahead.reopens mine logged
    refine ⟨generation,effects,?_⟩
    rw [opens,trims.hard.1,trims.hard.2,← installed_log ahead.installable.newer logged]
    rfl

theorem install_regressing (taken : state.snapshot = some snapshot)
    (done : (opened owner generation state).installSnapshot files snapshot true = .ok (after,effects)) : False := by
  have newer := (install_iff.mp done).1.newer
  unfold Raft.RaftPersistentState.baseIndex at newer
  rw [taken] at newer
  exact Nat.lt_irrefl _ newer

theorem Follows.install (mine : owner.Valid) (follows : Follows owner (some (snapshot,above)) files store)
    (done : store.installSnapshot files snapshot true = .ok (after,effects)) :
    Follows owner (some (snapshot,above)) (files.run effects) after ∧ Follows owner none (files.run effects) after ∧
    ∀ left, Leaves files effects left → Returns owner left store snapshot above ∧
      ∀ again more, openStore owner left = .ok (again,more) → Follows owner (some (snapshot,above)) (left.run more) again := by
  cases follows with
  | whole image taken => exact (install_regressing taken done).elim
  | @ahead _ generation full _ state ahead logged trims =>
    obtain ⟨rfl,whole,cut⟩ := ahead.compacts logged trims done
    have log := installed_log ahead.installable.newer logged
    have hard : (installed full snapshot).currentTerm = state.currentTerm ∧ (installed full snapshot).votedFor = state.votedFor :=
      ⟨trims.hard.1.symm,trims.hard.2.symm⟩
    refine ⟨log ▸ .whole whole rfl,.free whole,?_⟩
    intro left leaves
    rcases cut left leaves with rfl | rfl
    · refine ⟨(Follows.ahead ahead logged trims).returns mine,?_⟩
      intro again more opens
      obtain ⟨effects,settled,same⟩ := ahead.reopens mine logged
      rw [settled] at opens
      cases opens
      rw [same]
      exact .ahead ahead logged (.inr ⟨snapshot,ahead.trimmedAt logged,rfl⟩)
    · refine ⟨log ▸ whole_returns mine whole rfl hard,?_⟩
      intro again more opens
      obtain ⟨rfl,kept⟩ := whole.reopened mine torn_nil opens
      exact log ▸ .whole kept rfl

theorem Follows.hardState (follows : Follows owner (some followed) files store)
    (done : store.persist (.hardState ballot) = .ok (after,effects)) (fits : (Update.hardState ballot).Fits after) :
    Follows owner (some followed) (files.run effects) after := by
  cases follows with
  | whole image taken =>
    obtain ⟨promotes,rfl,rfl⟩ := persist_hardState.mp done
    exact .whole (image.promoted promotes fits.1 fits.2) taken
  | @ahead _ _ full snapshot _ ahead logged trims =>
    obtain ⟨promotes,rfl,rfl⟩ := persist_hardState.mp done
    have later := promotes.later
    rw [trims.hard.1] at later
    have kept : Logged {full with currentTerm := ballot.term,votedFor := ballot.votedFor} snapshot := logged
    have promoted := Follows.ahead (ahead.promoted trims promotes fits.1 fits.2) kept (trims.promoted later)
    exact promoted

theorem Follows.log (follows : Follows owner (some (snapshot,above)) files store) (behind : snapshot.lastIncludedIndex < update.fromIndex)
    (done : store.persist (.log update) = .ok (after,effects)) (fits : (Update.log update).Fits after)
    (room : JournalFits (files.run effects)) :
    Follows owner (some (snapshot,definedAbove snapshot above update)) (files.run effects) after := by
  cases follows with
  | whole image taken =>
    obtain ⟨admits,rfl,rfl⟩ := persist_log.mp done
    rw [← updatedLog_defined image.valid taken behind]
    exact .whole (image.appended admits fits.1 fits.2) taken
  | ahead ahead logged trims =>
    obtain ⟨admits,rfl,rfl⟩ := persist_log.mp done
    have small := ahead.hard.fits.term
    have taken := trims.admits ahead.valid small behind fits.1.start admits
    rw [← ahead.defined logged behind fits.1.start taken]
    exact .ahead (ahead.appended taken fits.1 room) (logged_updated ahead.valid ahead.installable.newer logged behind taken)
      (trims.updated ahead.valid small behind fits.1.start taken)

theorem Follows.reopen (mine : owner.Valid) (follows : Follows owner followed files store)
    (done : openStore owner files = .ok (again,effects)) : Follows owner followed (files.run effects) again := by
  cases follows with
  | free image =>
    obtain ⟨rfl,kept⟩ := image.reopened mine torn_nil done
    exact .free kept
  | whole image taken =>
    obtain ⟨rfl,kept⟩ := image.reopened mine torn_nil done
    exact .whole kept taken
  | @ahead _ _ full snapshot _ ahead logged =>
    obtain ⟨effects,opens,same⟩ := ahead.reopens mine logged
    rw [opens] at done
    cases done
    rw [same]
    exact .ahead ahead logged (.inr ⟨snapshot,ahead.trimmedAt logged,rfl⟩)

theorem publish_image (image : Image owner files generation state [])
    (newer : state.baseIndex < snapshot.lastIncludedIndex) (logged : Logged state snapshot)
    (later : ∀ old, loadSnapshot owner (files .snapshot) = .ok (some old) → old.lastIncludedIndex < snapshot.lastIncludedIndex)
    (wrote : writeAtomic owner files snapshot = .ok written) (fits : snapshot.lastIncludedIndex < 2^64) :
    Follows owner (some (snapshot,state.log.drop (snapshot.lastIncludedIndex-state.baseIndex))) (files.run written)
      (opened owner generation state) := by
  obtain ⟨rfl,room,small⟩ := writeAtomic_newer wrote later
  exact .ahead (image.ahead (logged_installable image.valid newer logged room small) fits) logged (.inl rfl)

theorem Follows.publish (mine : owner.Valid) (follows : Follows owner followed files store)
    (newer : store.state.baseIndex < snapshot.lastIncludedIndex) (logged : Logged store.state snapshot)
    (later : ∀ old, loadSnapshot owner (files .snapshot) = .ok (some old) → old.lastIncludedIndex < snapshot.lastIncludedIndex)
    (wrote : writeAtomic owner files snapshot = .ok written) (fits : snapshot.lastIncludedIndex < 2^64) :
    Follows owner (some (snapshot,store.state.log.drop (snapshot.lastIncludedIndex-store.state.baseIndex))) (files.run written)
      store := by
  cases follows with
  | free image | whole image => exact publish_image image newer logged later wrote fits
  | @ahead _ generation full old state ahead has trims =>
    have behind := later old (ahead.loads mine)
    have inFull := ((trims.logged behind).1).mp logged
    have below : full.baseIndex < snapshot.lastIncludedIndex := Nat.lt_of_le_of_lt trims.base_le newer
    obtain ⟨rfl,room,small⟩ := writeAtomic_newer wrote later
    have installable := logged_installable ahead.valid below inFull room small
    have log : state.log.drop (snapshot.lastIncludedIndex-state.baseIndex) =
        full.log.drop (snapshot.lastIncludedIndex-full.baseIndex) := by
      rw [← installed_log newer logged,← installed_log below inFull,(trims.logged behind).2 inFull]
    rw [log]
    exact .ahead (ahead.republished installable fits) inFull (trims.mono (Nat.le_of_lt behind))

theorem Live.follows (mine : owner.Valid) (live : Live owner followed files store) : Follows owner followed files store := by
  induction live with
  | reached reached =>
    obtain ⟨generation,state,rfl,image⟩ := reached.image mine
    exact .free image
  | persist _ done fits ih =>
    cases ih with
    | free image =>
      obtain ⟨later,final,rfl,kept,-⟩ := image.persisted done fits
      exact .free kept
  | @replace _ _ snapshot already _ _ _ _ prepared done fits ih =>
    cases ih with
    | free image =>
      obtain ⟨installable,rfl,rfl,rfl⟩ := image.installs mine prepared done
      have kept := image.afterInstall installable fits
      cases already with
      | false =>
        exact .free kept
      | true => exact .free kept
  | compacted _ done ih => exact (ih.install mine done).2.1
  | publish _ newer logged later wrote fits ih => exact ih.publish mine newer logged later wrote fits
  | hardState _ done fits ih => exact ih.hardState done fits
  | log _ behind done fits room ih => exact ih.log behind done fits room
  | reopen _ done ih => exact ih.reopen mine done
  | install _ done ih => exact (ih.install mine done).1
  | interrupted _ done leaves again ih => exact ((ih.install mine done).2.2 _ leaves).2 _ _ again

theorem writeAtomic_monotone (mine : owner.Valid) (fits : snapshot.lastIncludedIndex < 2^64 ∧ snapshot.lastIncludedTerm < 2^64)
    (loaded : loadSnapshot owner (files .snapshot) = .ok (some old)) (wrote : writeAtomic owner files snapshot = .ok written)
    (leaves : Leaves files written left) :
    ∃ published, loadSnapshot owner (left .snapshot) = .ok (some published) ∧
      old.lastIncludedIndex ≤ published.lastIncludedIndex := by
  obtain ⟨⟨-,room,elected,small⟩,current,found,⟨newer,rfl⟩ | ⟨_,rfl⟩⟩ := writeAtomic_ok wrote
  · rw [loaded] at found
    cases found
    have index := newer old rfl
    have boundary : BoundaryFits snapshot := ⟨by have := fits.1; simp only [maxU64] at room ⊢; omega,fits.2,by omega,by omega⟩
    rcases leaves_publish leaves with rfl | leaves
    · exact ⟨old,loaded,Nat.le_refl _⟩
    · rw [leaves_nil (leaves_syncDirectory leaves),CrashDisk.publish_same]
      exact ⟨snapshot,load_snapshot owner mine.fits snapshot boundary small,Nat.le_of_lt index⟩
  · rw [leaves_nil leaves]
    exact ⟨old,loaded,Nat.le_refl _⟩

-- A snapshot that was published ahead of the journal is what every later open
-- returns, with the entries that the updates define behind it.
theorem publish_ahead_safe (mine : owner.Valid) :
    (∀ snapshot above files store, Live owner (some (snapshot,above)) files store →
      Returns owner files store snapshot above ∧
      ∀ after effects left, store.installSnapshot files snapshot true = .ok (after,effects) → Leaves files effects left →
        Returns owner left store snapshot above) ∧
    ∀ files old snapshot written left, snapshot.lastIncludedIndex < 2^64 ∧ snapshot.lastIncludedTerm < 2^64 →
      loadSnapshot owner (files .snapshot) = .ok (some old) → writeAtomic owner files snapshot = .ok written →
      Leaves files written left → ∃ published, loadSnapshot owner (left .snapshot) = .ok (some published) ∧
        old.lastIncludedIndex ≤ published.lastIncludedIndex := by
  constructor
  · intro snapshot above files store live
    have follows := live.follows mine
    refine ⟨follows.returns mine,?_⟩
    intro after effects left done leaves
    exact ((follows.install mine done).2.2 left leaves).1
  · intro files old snapshot written left fits loaded wrote leaves
    exact writeAtomic_monotone mine fits loaded wrote leaves

end follows

def secondEntry : LogEntry := ⟨2,1,.command,[5]⟩

-- An entry is logged behind the published snapshot, and the store is opened again.
theorem publish_ahead_safe_reopened : ∃ files store, Live sampleOwner (some (⟨1,1,[7]⟩,[secondEntry])) files store ∧
    Returns sampleOwner files store ⟨1,1,[7]⟩ [secondEntry] := by
  obtain ⟨generation,state,same,image⟩ := firstEntry_reached.image sampleOwner_valid
  cases same
  have installable : Installable ⟨1,some 1,none,[firstEntry]⟩ ⟨1,1,[7]⟩ := ⟨by decide,by decide,by decide,by decide,by decide⟩
  have older : ∀ old, loadSnapshot sampleOwner (firstFiles .snapshot) = .ok (some old) → old.lastIncludedIndex < 1 := by
    intro old loaded
    rw [image.loads sampleOwner_valid] at loaded
    cases loaded
  have published : Live sampleOwner (some (⟨1,1,[7]⟩,[])) _ _ :=
    (Live.reached firstEntry_reached).publish installable.newer ⟨by decide,by decide⟩ older
      (image.writes sampleOwner_valid installable) (by decide)
  have fine : EntryOk 1 2 1 secondEntry := ⟨rfl,by decide,by decide,by decide,by decide,by decide⟩
  have admits : Admits ⟨1,some 1,none,[firstEntry]⟩ ⟨2,[secondEntry]⟩ :=
    ⟨by decide,by decide,by decide,⟨fine,by decide,by decide,trivial⟩,fun _ _ _ => by decide⟩
  have room : JournalFits ((firstFiles.run (create .snapshot (encodeSnapshot sampleOwner ⟨1,1,[7]⟩))).run
      [.append .journal (encodeLogUpdate ⟨2,[secondEntry]⟩),.sync .journal]) := by
    rintro journal ⟨⟩
    decide +kernel
  have logged : Live sampleOwner (some (⟨1,1,[7]⟩,[secondEntry])) _ _ :=
    published.log (by decide) (persist_log.mpr ⟨admits,rfl,rfl⟩) ⟨⟨by decide,by simp [secondEntry]⟩,by decide⟩ room
  obtain ⟨generation,effects,opens⟩ := ((publish_ahead_safe sampleOwner_valid).1 _ _ _ _ logged).1
  have live := logged.reopen opens
  exact ⟨_,_,live,((publish_ahead_safe sampleOwner_valid).1 _ _ _ _ live).1⟩

end ForgeKv.RaftStorage
