import ForgeKv.Cluster.StateMachine
import ForgeKv.RaftStorage.Format

namespace ForgeKv.Cluster
open Raft (Bytes)
open Protocol
open RaftStorage
open BigEndian

def stateMagic : Nat := 0x464B5653
def legacyStateFormatVersion : Nat := 1
def stateFormatVersion : Nat := 2
def legacyStateHeaderSize : Nat := 16
def stateHeaderSize : Nat := 24
def stateEntryHeaderSize : Nat := 8
def dedupEntryHeaderSize : Nat := 32
def maxSnapshotKeys : Nat := 2^20

-- The subtraction cannot wrap: the total never exceeds the limit.
def addSize (total amount : Nat) : Except String Nat :=
  if maxSnapshotPayloadSize-total < amount then .error "snapshot state exceeds payload limit" else .ok (total+amount)

def validStoredResult (command : ReplicatedCommand) (response : Bytes) : Bool :=
  match command.operation with
  | .put => response == []
  | .deleteKey => response == [0] || response == [1]

def validateRecord (client : ClientId) (record : DedupRecord) : Except String Unit :=
  if record.requestId = 0 ∨ maxClientCommandSize < record.command.length then .error "invalid snapshot dedup record length"
  else match record.decoded client with
    | none => .error "invalid snapshot dedup record"
    | some command => if validStoredResult command record.response then .ok () else .error "invalid snapshot dedup record"

-- The two loops of encode_snapshot_state that check the entries and add up their sizes.
def measureValues (size : Nat) : Assoc.Map Bytes Bytes → Except String Nat
  | [] => .ok size
  | (key,value)::rest =>
    if key = [] ∨ maxKeySize < key.length ∨ maxValueSize < value.length then .error "invalid snapshot key/value state"
    else do
      let size ← addSize size stateEntryHeaderSize
      let size ← addSize size key.length
      let size ← addSize size value.length
      measureValues size rest

def measureClients (dedupBytes size : Nat) : Assoc.Map ClientId DedupRecord → Except String Nat
  | [] => .ok size
  | (client,record)::rest =>
    match validateRecord client record with
    | .error message => .error message
    | .ok () =>
      if kMaxDedupBytes-dedupBytes < record.bytes then .error "snapshot exceeds deduplication byte limit"
      else do
        let size ← addSize size dedupEntryHeaderSize
        let size ← addSize size record.command.length
        let size ← addSize size record.response.length
        measureClients (dedupBytes+record.bytes) size rest

def encodeValue (binding : Bytes × Bytes) : Bytes :=
  encode 4 binding.1.length ++ (encode 4 binding.2.length ++ (binding.1 ++ binding.2))

def encodeClient (binding : ClientId × DedupRecord) : Bytes :=
  binding.1.bytes ++ (encode 8 binding.2.requestId.toNat ++ (encode 4 binding.2.command.length ++
    (encode 4 binding.2.response.length ++ (binding.2.command ++ binding.2.response))))

def stateHeader (state : SnapshotState) : Bytes :=
  encode 4 stateMagic ++ (encode 2 stateFormatVersion ++ (encode 2 stateHeaderSize ++ (encode 8 state.values.size ++
    encode 8 state.clients.size)))

def encodeSnapshotState (state : SnapshotState) : Except String Bytes :=
  if maxSnapshotKeys < state.values.size ∨ kMaxDedupClients < state.clients.size then
    .error "snapshot state exceeds entry limits"
  else do
    let size ← measureValues stateHeaderSize state.values.bindings
    let _ ← measureClients 0 size state.clients.bindings
    return stateHeader state ++ ((state.values.sortedBy id).flatMap encodeValue ++
      (state.clients.sortedBy ClientId.bytes).flatMap encodeClient)

-- The entry loop of decode_snapshot_state, with the key before and the bytes left.
def decodeValues : Nat → Bytes → Bytes → KeyValueState → Except String (KeyValueState × Bytes)
  | 0,_,rest,values => .ok (values,rest)
  | count+1,previousKey,rest,values =>
    if rest.length < stateEntryHeaderSize then .error "truncated snapshot state entry"
    else
      let keySize := field rest 0 4
      let valueSize := field rest 4 4
      if keySize = 0 ∨ maxKeySize < keySize ∨ maxValueSize < valueSize ∨ rest.length-stateEntryHeaderSize < keySize ∨
          rest.length-stateEntryHeaderSize-keySize < valueSize then .error "invalid snapshot key/value length"
      else
        let body := rest.drop stateEntryHeaderSize
        let key := body.take keySize
        if previousKey ≠ [] ∧ key ≤ previousKey then .error "snapshot keys are not strictly ordered"
        else
          let value := (body.drop keySize).take valueSize
          decodeValues count key ((body.drop keySize).drop valueSize) (values.emplace key value)

def decodeClients : Nat → Option ClientId → Nat → Bytes → DedupState → Except String (DedupState × Bytes)
  | 0,_,_,rest,clients => .ok (clients,rest)
  | count+1,previousClient,dedupBytes,rest,clients =>
    if rest.length < dedupEntryHeaderSize then .error "truncated snapshot dedup entry"
    else
      let client := ClientId.read rest
      let requestId := UInt64.ofNat (field rest 16 8)
      let commandSize := field rest 24 4
      let responseSize := field rest 28 4
      if previousClient.any (fun previous => ¬ previous.bytes < client.bytes) then
        .error "snapshot clients are not strictly ordered"
      else if requestId = 0 ∨ maxClientCommandSize < commandSize ∨ 1 < responseSize ∨
          rest.length-dedupEntryHeaderSize < commandSize ∨ rest.length-dedupEntryHeaderSize-commandSize < responseSize then
        .error "invalid snapshot dedup length"
      else if kMaxDedupBytes-dedupBytes < commandSize+responseSize then .error "snapshot exceeds deduplication byte limit"
      else
        let body := rest.drop dedupEntryHeaderSize
        let record : DedupRecord := ⟨requestId,body.take commandSize,(body.drop commandSize).take responseSize⟩
        match validateRecord client record with
        | .error message => .error message
        | .ok () =>
          decodeClients count (some client) (dedupBytes+(commandSize+responseSize))
            ((body.drop commandSize).drop responseSize) (clients.emplace client record)

def decodeSnapshotState (bytes : Bytes) : Except String SnapshotState :=
  if bytes.length < legacyStateHeaderSize ∨ field bytes 0 4 ≠ stateMagic then .error "invalid snapshot state header"
  else
    let version := field bytes 4 2
    let headerSize := field bytes 6 2
    if (version = legacyStateFormatVersion ∧ headerSize ≠ legacyStateHeaderSize) ∨
        (version = stateFormatVersion ∧ headerSize ≠ stateHeaderSize) ∨
        (version ≠ legacyStateFormatVersion ∧ version ≠ stateFormatVersion) ∨ bytes.length < headerSize then
      .error "invalid snapshot state version"
    else
      let keyCount := field bytes 8 8
      let clientCount := if version = stateFormatVersion then field bytes 16 8 else 0
      if maxSnapshotKeys < keyCount ∨ kMaxDedupClients < clientCount ∨
          (bytes.length-headerSize)/(stateEntryHeaderSize+1) < keyCount then .error "invalid snapshot state entry count"
      else do
        let (values,rest) ← decodeValues keyCount [] (bytes.drop headerSize) .empty
        let (clients,rest) ← decodeClients clientCount none 0 rest .empty
        if rest ≠ [] then .error "snapshot state has trailing bytes" else return ⟨values,clients⟩

end ForgeKv.Cluster
