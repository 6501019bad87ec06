import ForgeKv.Library.BigEndian
import ForgeKv.Protocol.Checksum
import ForgeKv.Raft.Types

namespace ForgeKv.RaftStorage
open Raft
open BigEndian (encode field)
open Protocol

def hardMagic : Nat := 0x46524853
def identityMagic : Nat := 0x46524944
def logMagic : Nat := 0x46524C47
def logRecordMagic : Nat := 0x46524C52
def snapshotMagic : Nat := 0x4652534E
def formatVersion : Nat := 2
def logFormatVersion : Nat := 3
def snapshotFormatVersion : Nat := 1
def hardStateSize : Nat := 60
def identitySize : Nat := 40
def logHeaderSize : Nat := 52
def logRecordHeaderSize : Nat := 32
def entryHeaderSize : Nat := 24
def snapshotHeaderSize : Nat := 64
def maxRaftCommandSize : Nat := 1024+1024*1024+64
def maxRaftLogEntriesPerRecord : Nat := 4096
def maxRaftLogRecordSize : Nat := 64*1024*1024
def maxSnapshotPayloadSize : Nat := 512*1024*1024

inductive ErrorCode where
  | io
  | corruption
  | invalidUpdate
  | closed
deriving DecidableEq, Repr

structure StorageError where
  code : ErrorCode
  message : String
deriving DecidableEq, Repr

abbrev Result (Value : Type u) := Except StorageError Value

def corruption (message : String) : StorageError := ⟨.corruption,message⟩
def invalid (message : String) : StorageError := ⟨.invalidUpdate,message⟩

-- What a store is opened for.
structure Owner where
  clusterId : Nat
  nodeId : NodeId
  membershipFingerprint : Nat
deriving DecidableEq, Repr

structure HardRecord where
  generation : Nat
  term : Nat
  votedFor : Option NodeId
deriving DecidableEq, Repr

structure PersistHardState where
  term : Nat
  votedFor : Option NodeId
deriving DecidableEq, Repr

structure PersistLog where
  fromIndex : Nat
  entries : List LogEntry
deriving DecidableEq, Repr

def checksumWithoutTail (bytes : Bytes) : Nat := (crc32 (bytes.take (bytes.length-4))).toNat

-- The fields, then the checksum over all of them.
def sealed (body : Bytes) : Bytes := body ++ encode 4 (crc32 body).toNat

def encodeHardState (owner : Owner) (record : HardRecord) : Bytes :=
  sealed (encode 4 hardMagic ++ encode 2 formatVersion ++ encode 2 (if record.votedFor.isSome then 1 else 0) ++
    encode 4 hardStateSize ++ encode 4 0 ++ encode 8 owner.clusterId ++ encode 8 owner.nodeId ++
    encode 8 record.generation ++ encode 8 record.term ++ encode 8 (record.votedFor.getD 0))

def decodeHardState (owner : Owner) (bytes : Bytes) : Option HardRecord :=
  if bytes.length ≠ hardStateSize ∨ field bytes 0 4 ≠ hardMagic ∨ field bytes 4 2 ≠ formatVersion ∨
      field bytes 8 4 ≠ hardStateSize ∨ field bytes 12 4 ≠ 0 ∨ field bytes 16 8 ≠ owner.clusterId ∨
      field bytes 24 8 ≠ owner.nodeId ∨ field bytes 56 4 ≠ checksumWithoutTail bytes then none
  else
    let flags := field bytes 6 2
    let generation := field bytes 32 8
    let term := field bytes 40 8
    let vote := field bytes 48 8
    if 1 < flags ∨ generation = 0 ∨ (flags = 0 ∧ vote ≠ 0) ∨ (flags = 1 ∧ vote = 0) ∨ (term = 0 ∧ flags = 1) then none
    else some ⟨generation,term,if flags = 1 then some vote else none⟩

def encodeIdentity (owner : Owner) : Bytes :=
  sealed (encode 4 identityMagic ++ encode 2 formatVersion ++ encode 2 identitySize ++ encode 8 owner.clusterId ++
    encode 8 owner.nodeId ++ encode 8 owner.membershipFingerprint ++ encode 4 0)

-- read_and_verify_identity
def verifyIdentity (owner : Owner) (bytes : Bytes) : Result Unit :=
  if bytes.length = 32 then .error (corruption "Raft format version 1 requires offline migration or data wipe")
  else if bytes.length ≠ identitySize then .error (corruption "truncated Raft initialized identity marker")
  else if field bytes 0 4 ≠ identityMagic ∨ field bytes 4 2 ≠ formatVersion ∨ field bytes 6 2 ≠ identitySize ∨
      field bytes 8 8 ≠ owner.clusterId ∨ field bytes 16 8 ≠ owner.nodeId ∨
      field bytes 24 8 ≠ owner.membershipFingerprint ∨ field bytes 32 4 ≠ 0 ∨
      field bytes 36 4 ≠ checksumWithoutTail bytes then
    .error (corruption "invalid Raft initialized identity marker")
  else .ok ()

def encodeLogHeader (owner : Owner) (required : Option StateMachineSnapshot) : Bytes :=
  sealed (encode 4 logMagic ++ encode 2 logFormatVersion ++ encode 2 logHeaderSize ++ encode 8 owner.clusterId ++
    encode 8 owner.nodeId ++ encode 8 owner.membershipFingerprint ++
    encode 8 ((required.map StateMachineSnapshot.lastIncludedIndex).getD 0) ++
    encode 8 ((required.map StateMachineSnapshot.lastIncludedTerm).getD 0))

-- The snapshot boundary that the journal starts from.
def verifyLogHeader (owner : Owner) (bytes : Bytes) : Result (Option (Nat × Nat)) :=
  let requiredIndex := field bytes 32 8
  let requiredTerm := field bytes 40 8
  if bytes.length ≠ logHeaderSize ∨ field bytes 0 4 ≠ logMagic ∨ field bytes 4 2 ≠ logFormatVersion ∨
      field bytes 6 2 ≠ logHeaderSize ∨ field bytes 8 8 ≠ owner.clusterId ∨ field bytes 16 8 ≠ owner.nodeId ∨
      field bytes 24 8 ≠ owner.membershipFingerprint ∨ field bytes 48 4 ≠ checksumWithoutTail bytes ∨
      ¬ (requiredIndex = 0 ↔ requiredTerm = 0) then
    .error (corruption "invalid Raft journal header or node identity")
  else if requiredIndex = 0 then .ok none else .ok (some (requiredIndex,requiredTerm))

def encodeKind : EntryKind → Nat
  | .command => 0
  | .noOp => 1

def encodeEntry (entry : LogEntry) : Bytes :=
  encode 8 entry.index ++ encode 8 entry.term ++ encode 1 (encodeKind entry.kind) ++ encode 3 0 ++ encode 4 entry.command.length ++
    entry.command

-- The part of a record header that its own checksum covers.
def recordHead (size count fromIndex : Nat) : Bytes :=
  encode 4 logRecordMagic ++ encode 2 formatVersion ++ encode 2 logRecordHeaderSize ++ encode 4 size ++ encode 4 count ++
    encode 8 fromIndex

def logRecordChecksum (fixed payload : Bytes) : Nat := (Crc32.value (Crc32.update (Crc32.update Crc32.initial fixed) payload)).toNat

def encodeLogUpdate (update : PersistLog) : Bytes :=
  let payload := update.entries.flatMap encodeEntry
  let fixed := sealed (recordHead (logRecordHeaderSize+payload.length) update.entries.length update.fromIndex)
  fixed ++ encode 4 (logRecordChecksum fixed payload) ++ payload

-- A kind that is neither is rejected by apply_log_update in the source.
def decodeKind (byte : Nat) : Result EntryKind :=
  if byte = 0 then .ok .command else if byte = 1 then .ok .noOp else .error (corruption "invalid Raft log entry")

def decodeEntries : Nat → Bytes → Result (List LogEntry × Bytes)
  | 0,rest => .ok ([],rest)
  | count+1,rest =>
    if rest.length < entryHeaderSize then .error (corruption "truncated Raft log entry header")
    else
      let payloadSize := field rest 20 4
      if maxRaftCommandSize < payloadSize ∨ rest.length-entryHeaderSize < payloadSize ∨ field rest 17 3 ≠ 0 then
        .error (corruption "invalid Raft log entry length or reserved fields")
      else do
        let kind ← decodeKind (field rest 16 1)
        let payload := rest.drop entryHeaderSize
        let (entries,rest') ← decodeEntries count (payload.drop payloadSize)
        return (⟨field rest 0 8,field rest 8 8,kind,payload.take payloadSize⟩::entries,rest')

def verifyLogRecordHeader (bytes : Bytes) : Result Unit :=
  if bytes.length ≠ logRecordHeaderSize ∨ field bytes 0 4 ≠ logRecordMagic ∨ field bytes 4 2 ≠ formatVersion ∨
      field bytes 6 2 ≠ logRecordHeaderSize ∨ field bytes 24 4 ≠ (crc32 (bytes.take 24)).toNat then
    .error (corruption "invalid Raft journal fixed record header")
  else .ok ()

def decodeLogUpdate (bytes : Bytes) : Result PersistLog :=
  if bytes.length < logRecordHeaderSize ∨ field bytes 0 4 ≠ logRecordMagic ∨ field bytes 4 2 ≠ formatVersion ∨
      field bytes 6 2 ≠ logRecordHeaderSize ∨ field bytes 8 4 ≠ bytes.length ∨
      field bytes 24 4 ≠ (crc32 (bytes.take 24)).toNat ∨
      field bytes 28 4 ≠ logRecordChecksum (bytes.take 28) (bytes.drop logRecordHeaderSize) then
    .error (corruption "invalid Raft log transaction header or checksum")
  else
    let entryCount := field bytes 12 4
    if maxRaftLogEntriesPerRecord < entryCount then .error (corruption "Raft log transaction entry count exceeds limit")
    else do
      let (entries,rest) ← decodeEntries entryCount (bytes.drop logRecordHeaderSize)
      if rest ≠ [] then .error (corruption "Raft log transaction has trailing bytes")
      else return ⟨field bytes 16 8,entries⟩

def encodeSnapshot (owner : Owner) (snapshot : StateMachineSnapshot) : Bytes :=
  sealed (encode 4 snapshotMagic ++ encode 2 snapshotFormatVersion ++ encode 2 snapshotHeaderSize ++ encode 8 owner.clusterId ++
    encode 8 owner.nodeId ++ encode 8 owner.membershipFingerprint ++ encode 8 snapshot.lastIncludedIndex ++
    encode 8 snapshot.lastIncludedTerm ++ encode 8 snapshot.stateMachine.length ++
    encode 4 (crc32 snapshot.stateMachine).toNat) ++ snapshot.stateMachine

-- SnapshotStore::load
def loadSnapshot (owner : Owner) : Option Bytes → Result (Option StateMachineSnapshot)
  | none => .ok none
  | some bytes =>
    if bytes.length < snapshotHeaderSize then .error (corruption "Raft snapshot is shorter than its header")
    else if field bytes 0 4 ≠ snapshotMagic ∨ field bytes 4 2 ≠ snapshotFormatVersion ∨
        field bytes 6 2 ≠ snapshotHeaderSize ∨ field bytes 8 8 ≠ owner.clusterId ∨ field bytes 16 8 ≠ owner.nodeId ∨
        field bytes 24 8 ≠ owner.membershipFingerprint ∨ field bytes 60 4 ≠ (crc32 (bytes.take 60)).toNat then
      .error (corruption "invalid Raft snapshot header, version, or identity")
    else
      let index := field bytes 32 8
      let term := field bytes 40 8
      let payloadSize := field bytes 48 8
      if index = 0 ∨ index = maxU64 ∨ term = 0 ∨ maxSnapshotPayloadSize < payloadSize ∨
          bytes.length ≠ snapshotHeaderSize+payloadSize then
        .error (corruption "invalid Raft snapshot boundary or payload size")
      else
        let payload := bytes.drop snapshotHeaderSize
        if field bytes 56 4 ≠ (crc32 payload).toNat then .error (corruption "Raft snapshot payload checksum mismatch")
        else .ok (some ⟨index,term,payload⟩)

end ForgeKv.RaftStorage
