import ForgeKv.Library.Procedure
import ForgeKv.Protocol.Frame
import ForgeKv.RaftStorage.Format

namespace ForgeKv.Cluster
open Raft
open Protocol
open BigEndian (encode field field_lt)
open RaftStorage

def peerCommonSize : Nat := 32
def entryHeaderSize : Nat := 24

structure PeerEnvelope where
  clusterId : Nat
  source : NodeId
  target : NodeId
  message : Message
deriving DecidableEq, Repr

def peerType : Message → MessageType
  | .requestVote _ | .requestVoteResponse _ => .raftRequestVote
  | .installSnapshot _ | .installSnapshotResponse _ => .raftInstallSnapshot
  | .appendEntries _ | .appendEntriesResponse _ => .raftAppendEntries

-- The numbers of PeerKind.
def peerKind : Message → Nat
  | .requestVote _ => 1
  | .requestVoteResponse _ => 2
  | .appendEntries _ => 3
  | .appendEntriesResponse _ => 4
  | .installSnapshot _ => 5
  | .installSnapshotResponse _ => 6

-- The loop of peer_payload_size over the entries of a request.
def entriesPayloadSize : Nat → List LogEntry → Except String Nat
  | size,[] => .ok size
  | size,entry::rest =>
    if entry.index = 0 ∨ entry.term = 0 ∨ maxRaftCommandSize < entry.command.length ∨ (entry.kind = .noOp ∧ entry.command ≠ []) ∨
        maxPayloadSize-entryHeaderSize < size ∨ maxPayloadSize-size-entryHeaderSize < entry.command.length then
      .error "Raft AppendEntries exceeds frame limit"
    else entriesPayloadSize (size+(entryHeaderSize+entry.command.length)) rest

def peerPayloadSize : Message → Except String Nat
  | .requestVote _ => .ok (peerCommonSize+32)
  | .requestVoteResponse _ => .ok (peerCommonSize+16)
  | .appendEntries request =>
    if request.rpcId = 0 ∨ maxRaftLogEntriesPerRecord < request.entries.length then .error "invalid Raft AppendEntries batch"
    else entriesPayloadSize (peerCommonSize+56) request.entries
  | .appendEntriesResponse _ => .ok (peerCommonSize+40)
  | .installSnapshot request =>
    if request.rpcId = 0 ∨ request.term = 0 ∨ request.leaderId = 0 ∨ request.lastIncludedIndex = 0 ∨ request.lastIncludedTerm = 0 ∨
        request.totalSize < request.offset ∨ request.totalSize-request.offset < request.data.length ∨
        request.done ≠ decide (request.offset+request.data.length = request.totalSize) ∨
        maxPayloadSize-peerCommonSize-64 < request.data.length then .error "invalid InstallSnapshot chunk"
    else .ok (peerCommonSize+64+request.data.length)
  | .installSnapshotResponse _ => .ok (peerCommonSize+40)

def flagCode (flag : Bool) : Nat := if flag then 1 else 0

def encodePeerEntry (entry : LogEntry) : Bytes :=
  encode 8 entry.index ++ (encode 8 entry.term ++ (encode 1 (encodeKind entry.kind) ++ (encode 3 0 ++
    (encode 4 entry.command.length ++ entry.command))))

-- The bytes that stay zero in the payload of the source are written here.
def peerBody : Message → Bytes
  | .requestVote request =>
    encode 8 request.term ++ (encode 8 request.candidateId ++ (encode 8 request.lastLogIndex ++ encode 8 request.lastLogTerm))
  | .requestVoteResponse response => encode 8 response.term ++ (encode 1 (flagCode response.voteGranted) ++ encode 7 0)
  | .appendEntries request =>
    encode 8 request.term ++ (encode 8 request.leaderId ++ (encode 8 request.previousLogIndex ++
      (encode 8 request.previousLogTerm ++ (encode 8 request.leaderCommit ++ (encode 8 request.rpcId ++
        (encode 4 request.entries.length ++ (encode 4 0 ++ request.entries.flatMap encodePeerEntry)))))))
  | .appendEntriesResponse response =>
    encode 8 response.term ++ (encode 1 (flagCode response.success) ++ (encode 7 0 ++ (encode 8 response.matchIndex ++
      (encode 8 response.rejectHint ++ encode 8 response.rpcId))))
  | .installSnapshot request =>
    encode 8 request.term ++ (encode 8 request.leaderId ++ (encode 8 request.lastIncludedIndex ++
      (encode 8 request.lastIncludedTerm ++ (encode 8 request.totalSize ++ (encode 8 request.offset ++
        (encode 8 request.rpcId ++ (encode 1 (flagCode request.done) ++ (encode 7 0 ++ request.data))))))))
  | .installSnapshotResponse response =>
    encode 8 response.term ++ (encode 1 (flagCode response.success) ++ (encode 7 0 ++ (encode 8 response.lastIncludedIndex ++
      (encode 8 response.nextOffset ++ encode 8 response.rpcId))))

def PeerEnvelope.payload (envelope : PeerEnvelope) : Bytes :=
  encode 8 envelope.clusterId ++ (encode 8 envelope.source ++ (encode 8 envelope.target ++
    (encode 1 (peerKind envelope.message) ++ (encode 7 0 ++ peerBody envelope.message))))

-- The payload has the size that was checked (peerPayloadSize_length).
def encodePeerFrame (envelope : PeerEnvelope) (requestId : UInt64) : Except String Frame :=
  if envelope.clusterId = 0 ∨ envelope.source = 0 ∨ envelope.target = 0 then .error "Raft peer envelope identities must be nonzero"
  else match peerPayloadSize envelope.message with
    | .error message => .error message
    | .ok size =>
      if maxPayloadSize < size then .error "Raft peer payload exceeds frame limit"
      else .ok
        {messageNamespace := .raft
         messageType := peerType envelope.message
         flags := 0
         requestId := requestId
         payload := envelope.payload}

-- static_cast<raft::EntryKind> and the check of the two kinds that follows it.
def entryKind (byte : Nat) : Option EntryKind :=
  if byte = 0 then some .command else if byte = 1 then some .noOp else none

-- The entry loop of decode_peer_frame: the entries and the bytes behind them.
def decodeEntries : Nat → Bytes → Except String (List LogEntry × Bytes)
  | 0,rest => .ok ([],rest)
  | count+1,rest =>
    if rest.length < entryHeaderSize then .error "truncated Raft entry header"
    else
      let commandSize := field rest 20 4
      if maxRaftCommandSize < commandSize ∨ rest.length-entryHeaderSize < commandSize ∨ field rest 17 3 ≠ 0 then
        .error "invalid Raft entry length"
      else match entryKind (field rest 16 1) with
        | none => .error "invalid Raft entry kind"
        | some kind =>
          let index := field rest 0 8
          let term := field rest 8 8
          if index = 0 ∨ term = 0 ∨ (kind = .noOp ∧ commandSize ≠ 0) then .error "invalid Raft entry semantics"
          else
            let commands := rest.drop entryHeaderSize
            match decodeEntries count (commands.drop commandSize) with
            | .error message => .error message
            | .ok (entries,rest') => .ok (⟨index,term,kind,commands.take commandSize⟩::entries,rest')

def decodeRequestVote (type : MessageType) (body : Bytes) : Except String Message :=
  if type ≠ .raftRequestVote ∨ body.length ≠ 32 then .error "invalid RequestVote payload size"
  else .ok (.requestVote ⟨field body 0 8,field body 8 8,field body 16 8,field body 24 8⟩)

def decodeRequestVoteResponse (type : MessageType) (body : Bytes) : Except String Message :=
  if type ≠ .raftRequestVote ∨ body.length ≠ 16 ∨ 1 < field body 8 1 ∨ field body 9 7 ≠ 0 then
    .error "invalid RequestVoteResponse payload"
  else .ok (.requestVoteResponse ⟨field body 0 8,field body 8 1 == 1⟩)

def decodeAppendEntries (type : MessageType) (body : Bytes) : Except String Message :=
  if type ≠ .raftAppendEntries ∨ body.length < 56 ∨ field body 52 4 ≠ 0 then .error "invalid AppendEntries header"
  else
    let count := field body 48 4
    if (body.length-56)/entryHeaderSize < count ∨ maxRaftLogEntriesPerRecord < count then
      .error "impossible AppendEntries count"
    else match decodeEntries count (body.drop 56) with
      | .error message => .error message
      | .ok (entries,rest) =>
        if rest ≠ [] then .error "trailing AppendEntries bytes"
        else .ok (.appendEntries
          {term := field body 0 8
           leaderId := field body 8 8
           previousLogIndex := field body 16 8
           previousLogTerm := field body 24 8
           entries := entries
           leaderCommit := field body 32 8
           rpcId := field body 40 8})

def decodeAppendEntriesResponse (type : MessageType) (body : Bytes) : Except String Message :=
  if type ≠ .raftAppendEntries ∨ body.length ≠ 40 ∨ 1 < field body 8 1 ∨ field body 9 7 ≠ 0 then
    .error "invalid AppendEntriesResponse payload"
  else .ok (.appendEntriesResponse ⟨field body 0 8,field body 8 1 == 1,field body 16 8,field body 24 8,field body 32 8⟩)

-- offset + chunk_size cannot wrap once chunk_size is at most total_size - offset.
def decodeInstallSnapshot (type : MessageType) (body : Bytes) : Except String Message :=
  if type ≠ .raftInstallSnapshot ∨ body.length < 64 ∨ 1 < field body 56 1 ∨ field body 57 7 ≠ 0 then
    .error "invalid InstallSnapshot header"
  else
    let totalSize := field body 32 8
    let offset := field body 40 8
    let chunkSize := body.length-64
    let done := field body 56 1 == 1
    if totalSize < offset ∨ totalSize-offset < chunkSize ∨ done ≠ decide (offset+chunkSize = totalSize) then
      .error "invalid InstallSnapshot chunk range"
    else .ok (.installSnapshot
      {term := field body 0 8
       leaderId := field body 8 8
       lastIncludedIndex := field body 16 8
       lastIncludedTerm := field body 24 8
       totalSize := totalSize
       offset := offset
       data := body.drop 64
       done := done
       rpcId := field body 48 8})

def decodeInstallSnapshotResponse (type : MessageType) (body : Bytes) : Except String Message :=
  if type ≠ .raftInstallSnapshot ∨ body.length ≠ 40 ∨ 1 < field body 8 1 ∨ field body 9 7 ≠ 0 then
    .error "invalid InstallSnapshotResponse payload"
  else .ok (.installSnapshotResponse ⟨field body 0 8,field body 8 1 == 1,field body 16 8,field body 24 8,field body 32 8⟩)

-- The branches of decode_peer_frame over the numbers of PeerKind.
def decodeMessage (kind : Nat) (type : MessageType) (body : Bytes) : Except String Message :=
  match kind with
  | 1 => decodeRequestVote type body
  | 2 => decodeRequestVoteResponse type body
  | 3 => decodeAppendEntries type body
  | 4 => decodeAppendEntriesResponse type body
  | 5 => decodeInstallSnapshot type body
  | 6 => decodeInstallSnapshotResponse type body
  | _ => .error "unknown Raft peer message kind"

def decodePeerFrame (frame : Frame) : Except String PeerEnvelope :=
  let payload := frame.payload
  if frame.messageNamespace ≠ .raft ∨ payload.length < peerCommonSize ∨ field payload 25 7 ≠ 0 then
    .error "invalid Raft peer envelope"
  else
    let clusterId := field payload 0 8
    let source := field payload 8 8
    let target := field payload 16 8
    if clusterId = 0 ∨ source = 0 ∨ target = 0 then .error "zero Raft peer identity"
    else match decodeMessage (field payload 24 1) frame.messageType (payload.drop peerCommonSize) with
      | .error message => .error message
      | .ok message => .ok ⟨clusterId,source,target,message⟩

-- What the decoder guarantees of an entry of an AppendEntries request.
structure WireEntry (entry : LogEntry) : Prop where
  index : 0 < entry.index
  term : 0 < entry.term
  bounded : entry.index < 2^64 ∧ entry.term < 2^64
  command : entry.command.length ≤ maxRaftCommandSize
  noOp : entry.kind = .noOp → entry.command = []

theorem decodeEntries_wire (decoded : decodeEntries count bytes = .ok (entries,rest)) :
    entries.length = count ∧ (∀ entry ∈ entries, WireEntry entry) ∧
      bytes.length = rest.length+(entries.map (fun entry => entryHeaderSize+entry.command.length)).sum := by
  induction count generalizing bytes entries rest with
  | zero =>
    cases decoded
    simp
  | succ count ih =>
    simp only [decodeEntries,ite_ok] at decoded
    obtain ⟨header,sizes,decoded⟩ := decoded
    split at decoded
    · cases decoded
    obtain ⟨sense,decoded⟩ := ite_ok.mp decoded
    split at decoded
    · cases decoded
    rename_i later behind found
    cases decoded
    obtain ⟨length,wire,total⟩ := ih found
    have size : ((bytes.drop entryHeaderSize).take (field bytes 20 4)).length = field bytes 20 4 := by
      rw [List.length_take,List.length_drop]
      omega
    refine ⟨by rw [List.length_cons,length],?_,?_⟩
    · intro entry member
      rcases List.mem_cons.mp member with rfl | old
      · refine ⟨by simp only; omega,by simp only; omega,⟨field_lt bytes 0 8,field_lt bytes 8 8⟩,?_,?_⟩
        · rw [size]
          omega
        · intro empty
          apply List.eq_nil_of_length_eq_zero
          rw [size]
          by_contra some
          exact sense (.inr (.inr ⟨empty,some⟩))
      · exact wire entry old
    · rw [List.map_cons,List.sum_cons,size]
      rw [List.length_drop,List.length_drop] at total
      omega

-- The messages that decode_peer_frame makes of a frame.
def Decodes (frame : Frame) (message : Message) : Prop :=
  ∃ envelope, decodePeerFrame frame = .ok envelope ∧ envelope.message = message

theorem Decodes.body (decodes : Decodes frame message) :
    ∃ kind, decodeMessage kind frame.messageType (frame.payload.drop peerCommonSize) = .ok message := by
  obtain ⟨envelope,decoded,rfl⟩ := decodes
  simp only [decodePeerFrame,ite_ok] at decoded
  obtain ⟨-,-,decoded⟩ := decoded
  split at decoded
  · cases decoded
  rename_i found
  cases decoded
  exact ⟨_,found⟩

theorem Decodes.entries (decodes : Decodes frame (.appendEntries request)) :
    request.entries.length ≤ maxRaftLogEntriesPerRecord ∧ (∀ entry ∈ request.entries, WireEntry entry) ∧
      (request.entries.map (fun entry => entryHeaderSize+entry.command.length)).sum ≤ frame.payload.length := by
  obtain ⟨kind,decoded⟩ := decodes.body
  unfold decodeMessage at decoded
  split at decoded
  case h_3 =>
    simp only [decodeAppendEntries,ite_ok] at decoded
    obtain ⟨-,count,decoded⟩ := decoded
    split at decoded
    · cases decoded
    rename_i entries rest found
    simp only [ite_ok,Except.ok.injEq,Message.appendEntries.injEq] at decoded
    obtain ⟨-,rfl⟩ := decoded
    obtain ⟨length,wire,total⟩ := decodeEntries_wire found
    rw [List.length_drop,List.length_drop] at total
    exact ⟨by simp only; omega,wire,by simp only; omega⟩
  case h_7 => cases decoded
  all_goals
    simp only [decodeRequestVote,decodeRequestVoteResponse,decodeAppendEntriesResponse,decodeInstallSnapshot,
      decodeInstallSnapshotResponse] at decoded
    split at decoded
    · cases decoded
    first | cases decoded | (split at decoded <;> cases decoded)

end ForgeKv.Cluster
