import ForgeKv.Library.CrashDisk
import ForgeKv.RaftStorage.Format

namespace ForgeKv.RaftStorage
open Raft
open BigEndian (field)

-- The files of a data directory that recovery reads: IDENTITY, hard-state.A,
-- hard-state.B, raft-log.wal and raft.snapshot.
inductive FileName where
  | identity
  | hardA
  | hardB
  | journal
  | snapshot
deriving DecidableEq, Repr

abbrev Files := CrashDisk.Disk FileName UInt8
abbrev Effect := CrashDisk.Effect FileName UInt8

-- atomically_create_file
def create (file : FileName) (contents : Bytes) : List Effect := [.publish file contents,.syncDirectory]

-- Indexes are std::uint64_t.
def next (index : Nat) : Nat := (index+1) % 2^64

section update
variable (code : ErrorCode)

-- The loop over the entries of an update.
def checkEntries (currentTerm baseIndex baseTerm : Nat) : Nat → Nat → Nat → List LogEntry → Result Unit
  | _,_,_,[] => .ok ()
  | expectedIndex,previousTerm,encodedSize,entry::rest =>
    if entry.index ≠ expectedIndex ∨ entry.term = 0 ∨ entry.term < previousTerm ∨ currentTerm < entry.term ∨
        maxRaftCommandSize < entry.command.length ∨ (entry.kind = .noOp ∧ entry.command ≠ []) then
      .error ⟨code,"invalid Raft log entry"⟩
    else if maxRaftLogRecordSize-entryHeaderSize < encodedSize ∨
        maxRaftLogRecordSize-encodedSize-entryHeaderSize < entry.command.length then
      .error ⟨code,"Raft log transaction exceeds maximum size"⟩
    else if entry.index = baseIndex ∧ entry.term ≠ baseTerm then
      .error ⟨code,"Raft log record conflicts with snapshot boundary"⟩
    else checkEntries currentTerm baseIndex baseTerm (next expectedIndex) entry.term
      (encodedSize+(entryHeaderSize+entry.command.length)) rest

-- The term before the first index of an update.
def termBefore (state : RaftPersistentState) (fromIndex : Nat) : Nat :=
  if fromIndex = next state.baseIndex then state.baseTerm
  else if next state.baseIndex < fromIndex then ((state.log[fromIndex-state.baseIndex-2]?).map LogEntry.term).getD 0
  else 0

def applyLogUpdate (state : RaftPersistentState) (update : PersistLog) : Result RaftPersistentState :=
  let baseIndex := state.baseIndex
  let lastIndex := baseIndex+state.log.length
  if update.fromIndex = 0 ∨ (baseIndex < update.fromIndex ∧ next lastIndex < update.fromIndex) ∨
      maxRaftLogEntriesPerRecord < update.entries.length then
    .error ⟨code,"invalid Raft log suffix boundary or entry count"⟩
  else do
    checkEntries code state.currentTerm baseIndex state.baseTerm update.fromIndex (termBefore state update.fromIndex)
      logRecordHeaderSize update.entries
    match update.entries.getLast? with
    | none => return state
    | some last =>
      if last.index ≤ baseIndex then return state
      else
        let retainedFrom := max update.fromIndex (next baseIndex)
        if next lastIndex < retainedFrom then .error ⟨code,"invalid Raft log suffix after snapshot boundary"⟩
        else return {state with
          log := state.log.take (retainedFrom-baseIndex-1) ++ update.entries.drop (retainedFrom-update.fromIndex)}

end update

-- The loop over the records of a journal, from what is left of it. A tail that is
-- not a complete record is handed back.
def replayRecords (state : RaftPersistentState) (rest : Bytes) : Result (RaftPersistentState × Bytes) :=
  if rest.length < logRecordHeaderSize then .ok (state,rest)
  else do
    verifyLogRecordHeader (rest.take logRecordHeaderSize)
    let recordSize := field (rest.take logRecordHeaderSize) 8 4
    if recordSize < logRecordHeaderSize ∨ maxRaftLogRecordSize < recordSize then
      .error (corruption "invalid Raft journal record size")
    else if rest.length < recordSize then .ok (state,rest)
    else do
      let update ← decodeLogUpdate (rest.take recordSize)
      let state ← applyLogUpdate .corruption state update
      replayRecords state (rest.drop recordSize)
termination_by rest.length
decreasing_by
  have wide : 0 < logRecordHeaderSize := by decide
  rw [List.length_drop]
  omega

-- The snapshot that the journal starts from must be there, or a newer one.
def olderThanRequired (loaded : Option StateMachineSnapshot) (required : Nat × Nat) : Prop :=
  match loaded with
  | none => True
  | some snapshot => snapshot.lastIncludedIndex < required.1 ∨
      (snapshot.lastIncludedIndex = required.1 ∧ snapshot.lastIncludedTerm ≠ required.2)

instance : Decidable (olderThanRequired loaded required) := by
  unfold olderThanRequired
  cases loaded <;> infer_instance

-- That the replayed journal has the entry at the snapshot's boundary.
def boundaryMatches (required : Option (Nat × Nat)) (log : List LogEntry) (snapshot : StateMachineSnapshot) : Prop :=
  let covered := snapshot.lastIncludedIndex-(required.map Prod.fst).getD 0
  if covered = 0 then required.map Prod.snd = some snapshot.lastIncludedTerm
  else (log[covered-1]?).map LogEntry.term = some snapshot.lastIncludedTerm

instance : Decidable (boundaryMatches required log snapshot) := by
  unfold boundaryMatches
  infer_instance

def dropCovered (required : Option (Nat × Nat)) (loaded : Option StateMachineSnapshot) (replayed : RaftPersistentState) :
    Result RaftPersistentState :=
  match loaded with
  | none => .ok replayed
  | some snapshot =>
    if boundaryMatches required replayed.log snapshot then
      .ok {replayed with
        snapshot := some snapshot,log := replayed.log.drop (snapshot.lastIncludedIndex-(required.map Prod.fst).getD 0)}
    else .error (corruption "full Raft journal conflicts with snapshot boundary")

def recoverLog (owner : Owner) (state : RaftPersistentState) (journal : Bytes) : Result (RaftPersistentState × List Effect) :=
  if journal.length < logHeaderSize then .error (corruption "truncated Raft journal header")
  else do
    let required ← verifyLogHeader owner (journal.take logHeaderSize)
    if ∃ boundary ∈ required, olderThanRequired state.snapshot boundary then
      .error (corruption "Raft journal requires a missing or older snapshot")
    else
      let base := required.map (fun boundary => StateMachineSnapshot.mk boundary.1 boundary.2 [])
      let (replayed,tail) ← replayRecords {state with snapshot := base,log := []} (journal.drop logHeaderSize)
      let cut := if tail = [] then [] else [.truncate .journal (journal.length-tail.length),.sync .journal]
      let recovered ← dropCovered required state.snapshot replayed
      return (recovered,cut)

inductive Pending where
  | none
  | hardState (file : FileName) (contents : Bytes) (state : RaftPersistentState)
  | log (state : RaftPersistentState)
deriving DecidableEq, Repr

structure Store where
  owner : Owner
  hardGeneration : Nat
  state : RaftPersistentState
  pending : Pending
  closed : Bool
deriving DecidableEq, Repr

def checkArtifacts (owner : Owner) (files : Files) : Result Unit :=
  match files .identity with
  | some marker => do
    verifyIdentity owner marker
    if files .hardA = none ∨ files .hardB = none ∨ files .journal = none then
      .error (corruption "initialized Raft store is missing a durable artifact")
    else .ok ()
  | none =>
    if files .hardA = none ∧ files .hardB = none ∧ files .journal ≠ none then
      .error (corruption "Raft journal exists without hard state or identity")
    else .ok ()

def baseline (generation : Nat) : HardRecord := ⟨generation,0,none⟩

def readHardSlot (owner : Owner) (files : Files) (slot : FileName) : Option HardRecord :=
  (files slot).bind (decodeHardState owner)

-- The hard-state baselines of a store that was not initialised to the end.
def createFirst (owner : Owner) (files : Files) : List Effect :=
  if files .hardA = none ∧ files .hardB = none then create .hardA (encodeHardState owner (baseline 1)) else []

def createSecond (owner : Owner) (files : Files) : List Effect :=
  if files .identity = none ∧ readHardSlot owner files .hardA = some (baseline 1) ∧ files .hardB = none then
    create .hardB (encodeHardState owner (baseline 2))
  else []

def selectHard (owner : Owner) (files : Files) : Result HardRecord :=
  match files .hardA,files .hardB,readHardSlot owner files .hardA,readHardSlot owner files .hardB with
  | some _,_,none,_ | _,some _,_,none => .error (corruption "invalid Raft hard-state generation")
  | _,_,some a,some b =>
    if a.generation % 2 ≠ 1 ∨ b.generation % 2 ≠ 0 ∨
        (if b.generation < a.generation then a.generation-b.generation else b.generation-a.generation) ≠ 1 then
      .error (corruption "inconsistent Raft hard-state generations")
    else .ok (if b.generation ≤ a.generation then a else b)
  | _,_,_,_ => .error (corruption "missing Raft hard-state generation")

def loadBoundary (owner : Owner) (files : Files) (term : Nat) : Result (Option StateMachineSnapshot) := do
  let loaded ← loadSnapshot owner (files .snapshot)
  if ∃ snapshot ∈ loaded, term < snapshot.lastIncludedTerm then
    .error (corruption "Raft snapshot term exceeds durable hard state")
  else return loaded

def createJournal (owner : Owner) (files : Files) (selected : HardRecord) : Result (List Effect) :=
  match files .journal with
  | some _ => .ok []
  | none =>
    if files .identity ≠ none ∨ selected ≠ baseline 2 then
      .error (corruption "Raft journal is missing from a non-pristine store")
    else .ok (create .journal (encodeLogHeader owner none))

-- RaftStorage::open
def openStore (owner : Owner) (files : Files) : Result (Store × List Effect) :=
  if owner.clusterId = 0 ∨ owner.nodeId = 0 then .error (invalid "Raft storage cluster and node IDs must be nonzero")
  else do
    checkArtifacts owner files
    let first := createFirst owner files
    let second := createSecond owner (files.run first)
    let ready := (files.run first).run second
    let selected ← selectHard owner ready
    let loaded ← loadBoundary owner ready selected.term
    let third ← createJournal owner ready selected
    let (state,cut) ← recoverLog owner ⟨selected.term,selected.votedFor,loaded,[]⟩ ((ready.run third .journal).getD [])
    if files .identity = none ∧ (selected ≠ baseline 2 ∨ state.log ≠ []) then
      .error (corruption "non-pristine Raft store is missing its identity marker")
    else
      -- Every byte that recovery accepted is made durable before it is used.
      let settle := cut ++ [.sync .journal,.syncDirectory]
      let marker := if files .identity = none then create .identity (encodeIdentity owner) else []
      return (⟨owner,selected.generation,state,.none,false⟩,first ++ (second ++ (third ++ (settle ++ marker))))

-- What prepare, sync and install_snapshot refuse before they look at anything else.
def Store.ready (store : Store) (operation : String) : Result Unit :=
  if store.closed then .error ⟨.closed,operation⟩
  else if store.pending ≠ .none then .error (invalid "Raft storage already has a pending update")
  else .ok ()

-- Generations alternate between the two files.
def hardSlot (generation : Nat) : FileName := if generation % 2 = 1 then .hardA else .hardB

-- prepare(PersistHardState) writes a temporary file only.
def Store.prepareHardState (store : Store) (update : PersistHardState) : Result Store := do
  store.ready "prepare closed Raft storage"
  let state := store.state
  if update.term < state.currentTerm ∨ (update.term = 0 ∧ update.votedFor ≠ none) ∨ update.votedFor = some 0 ∨
      (update.term = state.currentTerm ∧ state.votedFor ≠ none ∧ update.votedFor ≠ state.votedFor) then
    .error (invalid "Raft hard-state term or vote regression")
  else if ∃ entry ∈ state.log, update.term < entry.term then
    .error (invalid "Raft hard state cannot move below a log term")
  else if store.hardGeneration = maxU64 then .error (invalid "Raft hard-state generation exhausted")
  else
    let generation := store.hardGeneration+1
    let contents := encodeHardState store.owner ⟨generation,update.term,update.votedFor⟩
    let after := {state with currentTerm := update.term,votedFor := update.votedFor}
    return {store with pending := .hardState (hardSlot generation) contents after}

-- prepare(PersistLog)
def Store.prepareLog (store : Store) (update : PersistLog) : Result (Store × List Effect) := do
  store.ready "prepare closed Raft storage"
  let after ← applyLogUpdate .invalidUpdate store.state update
  return ({store with pending := .log after},[.append .journal (encodeLogUpdate update)])

def Store.sync (store : Store) : Result (Store × List Effect) :=
  if store.closed then .error ⟨.closed,"sync closed Raft storage"⟩
  else match store.pending with
    | .none => .error (invalid "Raft storage has no pending update to sync")
    | .hardState file contents state =>
      .ok ({store with hardGeneration := store.hardGeneration+1,state := state,pending := .none},create file contents)
    | .log state => .ok ({store with state := state,pending := .none},[.sync .journal])

-- SnapshotStore::write_atomic
def writeAtomic (owner : Owner) (files : Files) (snapshot : StateMachineSnapshot) : Result (List Effect) :=
  if snapshot.lastIncludedIndex = 0 ∨ snapshot.lastIncludedIndex = maxU64 ∨ snapshot.lastIncludedTerm = 0 ∨
      maxSnapshotPayloadSize < snapshot.stateMachine.length then
    .error (invalid "invalid Raft snapshot boundary or payload size")
  else do
    match ← loadSnapshot owner (files .snapshot) with
    | none => return create .snapshot (encodeSnapshot owner snapshot)
    | some current =>
      if snapshot.lastIncludedIndex < current.lastIncludedIndex then return []
      else if current.lastIncludedIndex = snapshot.lastIncludedIndex then
        if current ≠ snapshot then .error (invalid "snapshot boundary already has different contents") else return []
      else return create .snapshot (encodeSnapshot owner snapshot)

-- How many entries go into the next record of a new journal.
def batchSize (count encodedSize : Nat) : List LogEntry → Nat
  | [] => count
  | entry::rest =>
    let entrySize := entryHeaderSize+entry.command.length
    if maxRaftLogEntriesPerRecord ≤ count ∨ (count ≠ 0 ∧ maxRaftLogRecordSize-encodedSize < entrySize) then count
    else batchSize (count+1) (encodedSize+entrySize) rest

theorem batchSize_le (count encodedSize : Nat) (entries : List LogEntry) : count ≤ batchSize count encodedSize entries := by
  fun_induction batchSize with
  | case1 | case2 => exact Nat.le_refl _
  | case3 count encodedSize entry rest entrySize more ih => omega

theorem batchSize_pos (entry : LogEntry) (rest : List LogEntry) :
    0 < batchSize 0 logRecordHeaderSize (entry::rest) := by
  have least := batchSize_le (0+1) (logRecordHeaderSize+(entryHeaderSize+entry.command.length)) rest
  exact least

-- The records of a new journal.
def batches (fromIndex : Nat) : List LogEntry → List PersistLog
  | [] => []
  | entry::rest =>
    let count := batchSize 0 logRecordHeaderSize (entry::rest)
    ⟨fromIndex,(entry::rest).take count⟩::batches (fromIndex+count) ((entry::rest).drop count)
termination_by suffix => suffix.length
decreasing_by
  have some := batchSize_pos entry rest
  rw [List.length_drop,List.length_cons]
  omega

-- The local entries behind a new snapshot that it does not contradict.
def suffixBehind (state : RaftPersistentState) (snapshot : StateMachineSnapshot) : List LogEntry :=
  let position := snapshot.lastIncludedIndex-state.baseIndex-1
  if snapshot.lastIncludedIndex ≤ state.baseIndex+state.log.length ∧
      (state.log[position]?).map LogEntry.term = some snapshot.lastIncludedTerm then state.log.drop (position+1)
  else []

def newJournal (owner : Owner) (state : RaftPersistentState) (snapshot : StateMachineSnapshot) : Bytes :=
  encodeLogHeader owner (some snapshot) ++
    (batches (snapshot.lastIncludedIndex+1) (suffixBehind state snapshot)).flatMap encodeLogUpdate

-- The snapshot file of an installation. The file of a compaction was written before.
def Store.publishSnapshot (store : Store) (files : Files) (snapshot : StateMachineSnapshot) (already : Bool) :
    Result (List Effect) :=
  if already then do
    let durable ← loadSnapshot store.owner (files .snapshot)
    if durable ≠ some snapshot then .error (invalid "prewritten snapshot does not match compact request") else return []
  else writeAtomic store.owner files snapshot

def Store.installSnapshot (store : Store) (files : Files) (snapshot : StateMachineSnapshot) (already : Bool) :
    Result (Store × List Effect) := do
  store.ready "install snapshot on closed Raft storage"
  if snapshot.lastIncludedIndex = maxU64 ∨ snapshot.lastIncludedIndex ≤ store.state.baseIndex ∨
      snapshot.lastIncludedTerm = 0 ∨ store.state.currentTerm < snapshot.lastIncludedTerm ∨
      maxSnapshotPayloadSize < snapshot.stateMachine.length then
    .error (invalid "invalid or regressing Raft snapshot")
  else do
    let published ← store.publishSnapshot files snapshot already
    return ({store with state := {store.state with snapshot := some snapshot,log := suffixBehind store.state snapshot}},
      published ++ create .journal (newJournal store.owner store.state snapshot))

def Store.close (store : Store) : Store := {store with pending := .none,closed := true}

end ForgeKv.RaftStorage
