import ForgeKv.Cluster.PeerCodec

namespace ForgeKv.Cluster
open Raft
open Protocol
open BigEndian
open RaftStorage

-- The numbers of a message that are std::uint64_t in the source.
def messageWords : Message → List Nat
  | .requestVote request => [request.term,request.candidateId,request.lastLogIndex,request.lastLogTerm]
  | .requestVoteResponse response => [response.term]
  | .appendEntries request =>
    [request.term,request.leaderId,request.previousLogIndex,request.previousLogTerm,request.leaderCommit,request.rpcId] ++
      request.entries.flatMap (fun entry => [entry.index,entry.term])
  | .appendEntriesResponse response => [response.term,response.matchIndex,response.rejectHint,response.rpcId]
  | .installSnapshot request =>
    [request.term,request.leaderId,request.lastIncludedIndex,request.lastIncludedTerm,request.totalSize,request.offset,request.rpcId]
  | .installSnapshotResponse response => [response.term,response.lastIncludedIndex,response.nextOffset,response.rpcId]

def Words (message : Message) : Prop := ∀ word ∈ messageWords message, word < 2^64

structure PeerEnvelope.Fits (envelope : PeerEnvelope) : Prop where
  cluster : envelope.clusterId < 2^64
  source : envelope.source < 2^64
  target : envelope.target < 2^64
  message : Words envelope.message

structure Sendable (entry : LogEntry) : Prop where
  index : entry.index ≠ 0
  term : entry.term ≠ 0
  command : entry.command.length ≤ maxRaftCommandSize
  noOp : entry.kind = .noOp → entry.command = []

def entryBytes (entry : LogEntry) : Nat := entryHeaderSize+entry.command.length

def Sends : Message → Prop
  | .appendEntries request => request.rpcId ≠ 0 ∧ request.entries.length ≤ maxRaftLogEntriesPerRecord ∧
      (∀ entry ∈ request.entries, Sendable entry) ∧ peerCommonSize+56+(request.entries.map entryBytes).sum ≤ maxPayloadSize
  | .installSnapshot request => request.rpcId ≠ 0 ∧ request.term ≠ 0 ∧ request.leaderId ≠ 0 ∧ request.lastIncludedIndex ≠ 0 ∧
      request.lastIncludedTerm ≠ 0 ∧ request.offset+request.data.length ≤ request.totalSize ∧
      request.done = decide (request.offset+request.data.length = request.totalSize) ∧
      peerCommonSize+64+request.data.length ≤ maxPayloadSize
  | _ => True

theorem entriesPayloadSize_iff {entries : List LogEntry} (room : size ≤ maxPayloadSize) :
    entriesPayloadSize size entries = .ok total ↔
      (∀ entry ∈ entries, Sendable entry) ∧ total = size+(entries.map entryBytes).sum ∧ total ≤ maxPayloadSize := by
  induction entries generalizing size with
  | nil =>
    simp only [entriesPayloadSize,Except.ok.injEq,List.not_mem_nil,false_implies,implies_true,List.map_nil,List.sum_nil,true_and]
    omega
  | cons entry rest ih =>
    have header : entryHeaderSize ≤ maxPayloadSize := by decide
    rw [entriesPayloadSize,List.map_cons,List.sum_cons,List.forall_mem_cons]
    split
    · rename_i refused
      refine ⟨nofun,fun ⟨⟨sendable,_⟩,equal,bound⟩ => ?_⟩
      obtain ⟨index,term,command,noOp⟩ := sendable
      unfold entryBytes at equal
      rcases refused with zero | zero | large | ⟨kind,some⟩ | full | full
      · exact absurd zero index
      · exact absurd zero term
      · omega
      · exact absurd (noOp kind) some
      · omega
      · omega
    · rename_i fine
      simp only [not_or,not_and,not_not,Nat.not_lt] at fine
      obtain ⟨index,term,command,noOp,front,full⟩ := fine
      have sendable : Sendable entry := ⟨index,term,command,noOp⟩
      rw [ih (by omega)]
      unfold entryBytes
      constructor
      · intro ⟨others,equal,bound⟩
        exact ⟨⟨sendable,others⟩,by omega,bound⟩
      · intro ⟨⟨_,others⟩,equal,bound⟩
        exact ⟨others,by omega,bound⟩

theorem peerEntry_length (entry : LogEntry) : (encodePeerEntry entry).length = entryBytes entry := by
  simp [encodePeerEntry,entryBytes,entryHeaderSize]
  omega

theorem peerEntries_length (entries : List LogEntry) : (entries.flatMap encodePeerEntry).length = (entries.map entryBytes).sum := by
  rw [List.length_flatMap]
  simp only [peerEntry_length]

theorem peerPayloadSize_iff : (∃ size, peerPayloadSize message = .ok size ∧ size ≤ maxPayloadSize) ↔ Sends message := by
  cases message with
  | appendEntries =>
    simp only [peerPayloadSize,Sends]
    split
    · rename_i refused
      refine ⟨by simp,fun ⟨rpc,count,_⟩ => ?_⟩
      rcases refused with zero | many
      · exact absurd zero rpc
      · exact absurd count (Nat.not_le.mpr many)
    · rename_i fine
      simp only [not_or,Nat.not_lt] at fine
      have start : peerCommonSize+56 ≤ maxPayloadSize := by decide
      constructor
      · intro ⟨size,sized,_⟩
        obtain ⟨sendable,rfl,bound⟩ := (entriesPayloadSize_iff start).mp sized
        exact ⟨fine.1,fine.2,sendable,bound⟩
      · intro ⟨_,_,sendable,bound⟩
        exact ⟨_,(entriesPayloadSize_iff start).mpr ⟨sendable,rfl,bound⟩,bound⟩
  | installSnapshot request =>
    have start : peerCommonSize+64 ≤ maxPayloadSize := by decide
    simp only [peerPayloadSize,Sends]
    split
    · rename_i refused
      refine ⟨by simp,fun ⟨rpc,term,leader,index,boundary,range,done,size⟩ => ?_⟩
      rcases refused with zero | zero | zero | zero | zero | past | past | wrong | large
      · exact absurd zero rpc
      · exact absurd zero term
      · exact absurd zero leader
      · exact absurd zero index
      · exact absurd zero boundary
      · omega
      · omega
      · exact absurd done wrong
      · omega
    · rename_i fine
      simp only [not_or,not_not,Nat.not_lt] at fine
      obtain ⟨rpc,term,leader,index,boundary,inside,range,done,size⟩ := fine
      have fits : peerCommonSize+64+request.data.length ≤ maxPayloadSize := by omega
      exact ⟨fun _ => ⟨rpc,term,leader,index,boundary,by omega,done,fits⟩,fun _ => ⟨_,rfl,fits⟩⟩
  | _ => exact ⟨fun _ => trivial,fun _ => ⟨_,rfl,by decide⟩⟩

theorem peerPayloadSize_length (sized : peerPayloadSize message = .ok size) : size = peerCommonSize+(peerBody message).length := by
  cases message with
  | appendEntries =>
    simp only [peerPayloadSize] at sized
    split at sized
    · cases sized
    obtain ⟨-,equal,-⟩ := (entriesPayloadSize_iff (by decide)).mp sized
    simp only [peerBody,List.length_append,encode_length,peerEntries_length]
    omega
  | installSnapshot =>
    simp only [peerPayloadSize] at sized
    split at sized <;> cases sized
    simp [peerBody]
    omega
  | _ =>
    cases sized
    simp [peerBody]

theorem encodePeerFrame_iff : encodePeerFrame envelope requestId = .ok frame ↔
    (envelope.clusterId ≠ 0 ∧ envelope.source ≠ 0 ∧ envelope.target ≠ 0 ∧ Sends envelope.message) ∧
      frame = ⟨.raft,peerType envelope.message,0,requestId,envelope.payload⟩ := by
  unfold encodePeerFrame
  split
  · rename_i zero
    refine ⟨nofun,fun ⟨⟨cluster,source,target,_⟩,_⟩ => ?_⟩
    rcases zero with zero | zero | zero
    · exact absurd zero cluster
    · exact absurd zero source
    · exact absurd zero target
  · rename_i nonzero
    simp only [not_or] at nonzero
    rw [← peerPayloadSize_iff]
    cases peerPayloadSize envelope.message with
    | error => simp
    | ok =>
      dsimp only
      split
      · rename_i large
        refine ⟨nofun,fun ⟨⟨_,_,_,found,same,bound⟩,_⟩ => ?_⟩
        cases same
        omega
      · rename_i small
        simp only [Except.ok.injEq,exists_eq_left',nonzero,Nat.not_lt.mp small,ne_eq,not_false_eq_true,and_self,true_and,eq_comm]

section entries
variable {entry : LogEntry} {entries : List LogEntry} {bytes rest : Bytes}

theorem entryKind_code (kind : EntryKind) : entryKind (encodeKind kind % 256^1) = some kind := by cases kind <;> rfl

theorem code_entryKind (known : entryKind byte = some kind) : encodeKind kind = byte := by
  unfold entryKind at known
  split at known
  · cases known
    rename_i same
    exact same.symm
  · split at known <;> cases known
    rename_i same
    exact same.symm

theorem decodeEntries_bytes (sendable : ∀ entry ∈ entries, Sendable entry)
    (words : ∀ entry ∈ entries, entry.index < 2^64 ∧ entry.term < 2^64) :
    decodeEntries entries.length (entries.flatMap encodePeerEntry ++ rest) = .ok (entries,rest) := by
  induction entries with
  | nil => rfl
  | cons entry others ih =>
    obtain ⟨index,term,command,noOp⟩ := sendable entry List.mem_cons_self
    obtain ⟨small,small'⟩ := words entry List.mem_cons_self
    have later := ih (fun other member => sendable other (List.mem_cons_of_mem _ member))
      (fun other member => words other (List.mem_cons_of_mem _ member))
    have room : entry.command.length < 2^32 := Nat.lt_of_le_of_lt command (by decide)
    have size : (encodePeerEntry entry ++ (others.flatMap encodePeerEntry ++ rest)).length =
        entryHeaderSize+entry.command.length+(others.flatMap encodePeerEntry ++ rest).length := by
      rw [List.length_append,peerEntry_length,entryBytes]
    have back : (encodePeerEntry entry ++ (others.flatMap encodePeerEntry ++ rest)).drop entryHeaderSize =
        entry.command ++ (others.flatMap encodePeerEntry ++ rest) := by
      have front : encodePeerEntry entry = (encode 8 entry.index ++ (encode 8 entry.term ++ (encode 1 (encodeKind entry.kind) ++
          (encode 3 0 ++ encode 4 entry.command.length)))) ++ entry.command := by simp [encodePeerEntry]
      rw [front,List.append_assoc]
      exact List.drop_left' (by simp [entryHeaderSize])
    rw [List.length_cons,List.flatMap_cons,List.append_assoc,decodeEntries,if_neg (by omega)]
    rw [back,size]
    simp only [encodePeerEntry,List.append_assoc]
    simp (disch := omega) only [field_skip_encode,field_encode,Nat.reduceSub,Nat.mod_eq_of_lt]
    rw [if_neg (by omega),entryKind_code]
    dsimp only
    have sense : ¬ (entry.index = 0 ∨ entry.term = 0 ∨ (entry.kind = .noOp ∧ entry.command.length ≠ 0)) := by
      simp only [not_or,not_and,not_not]
      exact ⟨index,term,fun kind => by rw [noOp kind,List.length_nil]⟩
    rw [if_neg sense,List.drop_left,List.take_left,later]

theorem decodeEntries_canonical (decoded : decodeEntries count bytes = .ok (entries,rest)) :
    bytes = entries.flatMap encodePeerEntry ++ rest := by
  induction count generalizing bytes entries rest with
  | zero =>
    cases decoded
    rfl
  | succ count ih =>
    simp only [decodeEntries,ite_ok,not_or,not_not,Nat.not_lt] at decoded
    obtain ⟨header,⟨_,inside,reserved⟩,decoded⟩ := decoded
    split at decoded
    · cases decoded
    rename_i kind known
    obtain ⟨-,decoded⟩ := ite_ok.mp decoded
    split at decoded
    · cases decoded
    rename_i later behind found
    cases decoded
    unfold entryHeaderSize at header inside found ⊢
    have size : ((bytes.drop 24).take (field bytes 20 4)).length = field bytes 20 4 := by
      rw [List.length_take,List.length_drop]
      omega
    have zeros : encode 3 0 = encode 3 (field bytes 17 3) := by rw [reserved]
    rw [List.flatMap_cons,List.append_assoc,← ih found]
    simp only [encodePeerEntry,size,zeros,code_entryKind known,List.append_assoc,List.take_append_drop]
    simp (disch := omega) only [encode_field_drop,List.drop_zero]

end entries

theorem flagCode_small (flag : Bool) : flagCode flag ≤ 1 := by cases flag <;> decide

theorem flagCode_read (flag : Bool) : (flagCode flag == 1) = flag := by cases flag <;> rfl

theorem flagCode_canonical (small : value ≤ 1) : flagCode (value == 1) = value := by
  match value,small with
  | 0,_ | 1,_ => rfl

section messages
variable {message : Message} {body : Bytes} {type : MessageType}

theorem entries_least (entries : List LogEntry) : entries.length*entryHeaderSize ≤ (entries.map entryBytes).sum := by
  induction entries with
  | nil => exact Nat.zero_le _
  | cons =>
    rw [List.length_cons,List.map_cons,List.sum_cons,entryBytes,Nat.succ_mul]
    omega

theorem decodeAppendEntries_body (sends : Sends (.appendEntries request)) (words : Words (.appendEntries request)) :
    decodeAppendEntries .raftAppendEntries (peerBody (.appendEntries request)) = .ok (.appendEntries request) := by
  obtain ⟨_,count,sendable,_⟩ := sends
  simp only [Words,messageWords,List.forall_mem_append,List.forall_mem_cons] at words
  obtain ⟨⟨term,leader,index,boundary,commit,rpcId,_⟩,inner⟩ := words
  have narrow : request.entries.length < 2^32 := Nat.lt_of_le_of_lt count (by decide)
  have entries : ∀ entry ∈ request.entries, entry.index < 2^64 ∧ entry.term < 2^64 := by
    intro entry member
    exact ⟨inner _ (List.mem_flatMap.mpr ⟨entry,member,by simp⟩),inner _ (List.mem_flatMap.mpr ⟨entry,member,by simp⟩)⟩
  have decoded : decodeEntries request.entries.length (request.entries.flatMap encodePeerEntry ++ []) = .ok (request.entries,[]) :=
    decodeEntries_bytes sendable entries
  rw [List.append_nil] at decoded
  have size : (peerBody (.appendEntries request)).length = 56+(request.entries.map entryBytes).sum := by
    simp only [peerBody,List.length_append,encode_length,peerEntries_length]
    omega
  have back : (peerBody (.appendEntries request)).drop 56 = request.entries.flatMap encodePeerEntry := by
    simp only [peerBody,← List.append_assoc]
    exact List.drop_left' (by simp)
  have possible : ¬ ((56+(request.entries.map entryBytes).sum-56)/entryHeaderSize < request.entries.length ∨
      maxRaftLogEntriesPerRecord < request.entries.length) := by
    rw [Nat.add_sub_cancel_left,not_or,Nat.not_lt,Nat.not_lt]
    exact ⟨(Nat.le_div_iff_mul_le (by decide)).mpr (entries_least _),count⟩
  have counted : field (peerBody (.appendEntries request)) 48 4 = request.entries.length := by
    simp (disch := omega) [peerBody,Nat.mod_eq_of_lt]
  have reserved : field (peerBody (.appendEntries request)) 52 4 = 0 := by simp (disch := omega) [peerBody]
  unfold decodeAppendEntries
  simp only [size,back,counted,reserved]
  rw [if_neg (by simp),if_neg possible,decoded]
  simp (disch := omega) [peerBody,Nat.mod_eq_of_lt]

theorem decodeMessage_body (sends : Sends message) (words : Words message) :
    decodeMessage (peerKind message) (peerType message) (peerBody message) = .ok message := by
  cases message with
  | appendEntries => exact decodeAppendEntries_body sends words
  | installSnapshot request =>
    obtain ⟨-,-,-,-,-,range,done,-⟩ := sends
    simp only [Words,messageWords,List.forall_mem_cons] at words
    have flag := flagCode_small request.done
    have length : (peerBody (.installSnapshot request)).length = 64+request.data.length := by
      simp only [peerBody,List.length_append,encode_length]
      omega
    have back : (peerBody (.installSnapshot request)).drop 64 = request.data := by
      simp only [peerBody,← List.append_assoc]
      exact List.drop_left' (by simp)
    have total : field (peerBody (.installSnapshot request)) 32 8 = request.totalSize := by
      simp (disch := omega) [peerBody,Nat.mod_eq_of_lt]
    have offset : field (peerBody (.installSnapshot request)) 40 8 = request.offset := by
      simp (disch := omega) [peerBody,Nat.mod_eq_of_lt]
    have last : field (peerBody (.installSnapshot request)) 56 1 = flagCode request.done := by
      simp (disch := omega) [peerBody,Nat.mod_eq_of_lt]
    have reserved : field (peerBody (.installSnapshot request)) 57 7 = 0 := by simp (disch := omega) [peerBody]
    simp only [peerKind,peerType,decodeMessage,decodeInstallSnapshot,length,back,total,offset,last,reserved,flagCode_read,
      Nat.add_sub_cancel_left]
    rw [if_neg (by simp; omega),if_neg (by simp only [not_or,Nat.not_lt,not_not]; exact ⟨by omega,by omega,done⟩)]
    simp (disch := omega) [peerBody,Nat.mod_eq_of_lt]
  | requestVote =>
    simp only [Words,messageWords,List.forall_mem_cons] at words
    simp only [peerKind,peerType,decodeMessage,decodeRequestVote,peerBody]
    simp (disch := omega) [Nat.mod_eq_of_lt]
  | requestVoteResponse response =>
    simp only [Words,messageWords,List.forall_mem_cons] at words
    have flag := flagCode_small response.voteGranted
    simp only [peerKind,peerType,decodeMessage,decodeRequestVoteResponse,peerBody]
    simp (disch := omega) [Nat.mod_eq_of_lt,flag,flagCode_read]
  | appendEntriesResponse response =>
    simp only [Words,messageWords,List.forall_mem_cons] at words
    have flag := flagCode_small response.success
    simp only [peerKind,peerType,decodeMessage,decodeAppendEntriesResponse,peerBody]
    simp (disch := omega) [Nat.mod_eq_of_lt,flag,flagCode_read]
  | installSnapshotResponse response =>
    simp only [Words,messageWords,List.forall_mem_cons] at words
    have flag := flagCode_small response.success
    simp only [peerKind,peerType,decodeMessage,decodeInstallSnapshotResponse,peerBody]
    simp (disch := omega) [Nat.mod_eq_of_lt,flag,flagCode_read]

-- The bytes of a message, its kind and its type are those of the message decoded.
structure Canonical (kind : Nat) (type : MessageType) (body : Bytes) (message : Message) : Prop where
  kind : peerKind message = kind
  type : peerType message = type
  body : peerBody message = body

theorem decodeRequestVote_canonical (decoded : decodeRequestVote type body = .ok message) : Canonical 1 type body message := by
  simp only [decodeRequestVote,ite_ok,not_or,not_not,Except.ok.injEq] at decoded
  obtain ⟨⟨typed,size⟩,rfl⟩ := decoded
  refine ⟨rfl,typed.symm,?_⟩
  have last : encode 8 (field body 24 8) = body.drop 24 := encode_field_last body size
  simp only [peerBody,last]
  simp (disch := omega) only [encode_field_drop,List.drop_zero]

theorem decodeRequestVoteResponse_canonical (decoded : decodeRequestVoteResponse type body = .ok message) :
    Canonical 2 type body message := by
  simp only [decodeRequestVoteResponse,ite_ok,not_or,not_not,Nat.not_lt,Except.ok.injEq] at decoded
  obtain ⟨⟨typed,size,flag,reserved⟩,rfl⟩ := decoded
  refine ⟨rfl,typed.symm,?_⟩
  have zeros : encode 7 0 = body.drop 9 := by
    rw [← reserved]
    exact encode_field_last body size
  simp only [peerBody,flagCode_canonical flag,zeros]
  simp (disch := omega) only [encode_field_drop,List.drop_zero]

theorem response_layout (size : body.length = 40) (flag : field body 8 1 ≤ 1) (reserved : field body 9 7 = 0) :
    encode 8 (field body 0 8) ++ (encode 1 (flagCode (field body 8 1 == 1)) ++ (encode 7 0 ++
      (encode 8 (field body 16 8) ++ (encode 8 (field body 24 8) ++ encode 8 (field body 32 8))))) = body := by
  have zeros : encode 7 0 = encode 7 (field body 9 7) := by rw [reserved]
  have last : encode 8 (field body 32 8) = body.drop 32 := encode_field_last body size
  rw [flagCode_canonical flag,zeros,last]
  simp (disch := omega) only [encode_field_drop,List.drop_zero]

theorem decodeAppendEntriesResponse_canonical (decoded : decodeAppendEntriesResponse type body = .ok message) :
    Canonical 4 type body message := by
  simp only [decodeAppendEntriesResponse,ite_ok,not_or,not_not,Nat.not_lt,Except.ok.injEq] at decoded
  obtain ⟨⟨typed,size,flag,reserved⟩,rfl⟩ := decoded
  exact ⟨rfl,typed.symm,response_layout size flag reserved⟩

theorem decodeInstallSnapshotResponse_canonical (decoded : decodeInstallSnapshotResponse type body = .ok message) :
    Canonical 6 type body message := by
  simp only [decodeInstallSnapshotResponse,ite_ok,not_or,not_not,Nat.not_lt,Except.ok.injEq] at decoded
  obtain ⟨⟨typed,size,flag,reserved⟩,rfl⟩ := decoded
  exact ⟨rfl,typed.symm,response_layout size flag reserved⟩

theorem decodeAppendEntries_canonical (decoded : decodeAppendEntries type body = .ok message) : Canonical 3 type body message := by
  simp only [decodeAppendEntries,ite_ok,not_or,not_not,Nat.not_lt] at decoded
  obtain ⟨⟨typed,size,reserved⟩,-,decoded⟩ := decoded
  split at decoded
  · cases decoded
  rename_i entries rest found
  simp only [ite_ok,not_not,Except.ok.injEq] at decoded
  obtain ⟨rfl,rfl⟩ := decoded
  have bytes := decodeEntries_canonical found
  rw [List.append_nil] at bytes
  obtain ⟨count,-,-⟩ := decodeEntries_wire found
  refine ⟨rfl,typed.symm,?_⟩
  have zeros : encode 4 0 = encode 4 (field body 52 4) := by rw [reserved]
  simp only [peerBody,zeros,count,← bytes]
  simp (disch := omega) only [encode_field_drop,List.drop_zero]

theorem decodeInstallSnapshot_canonical (decoded : decodeInstallSnapshot type body = .ok message) : Canonical 5 type body message := by
  simp only [decodeInstallSnapshot,ite_ok,not_or,not_not,Nat.not_lt,Except.ok.injEq] at decoded
  obtain ⟨⟨typed,size,flag,reserved⟩,-,rfl⟩ := decoded
  refine ⟨rfl,typed.symm,?_⟩
  have zeros : encode 7 0 = encode 7 (field body 57 7) := by rw [reserved]
  simp only [peerBody,flagCode_canonical flag,zeros]
  simp (disch := omega) only [encode_field_drop,List.drop_zero]

theorem decodeMessage_canonical (decoded : decodeMessage kind type body = .ok message) : Canonical kind type body message := by
  unfold decodeMessage at decoded
  split at decoded
  · exact decodeRequestVote_canonical decoded
  · exact decodeRequestVoteResponse_canonical decoded
  · exact decodeAppendEntries_canonical decoded
  · exact decodeAppendEntriesResponse_canonical decoded
  · exact decodeInstallSnapshot_canonical decoded
  · exact decodeInstallSnapshotResponse_canonical decoded
  · cases decoded

end messages

theorem peerKind_small (message : Message) : peerKind message < 256 := by cases message <;> simp [peerKind]

theorem decodePeerFrame_encoded (fits : envelope.Fits) (encoded : encodePeerFrame envelope requestId = .ok frame) :
    decodePeerFrame frame = .ok envelope := by
  obtain ⟨⟨cluster,source,target,sends⟩,rfl⟩ := encodePeerFrame_iff.mp encoded
  obtain ⟨cluster',source',target',words⟩ := fits
  have kind := peerKind_small envelope.message
  have size : ¬ envelope.payload.length < peerCommonSize := by
    simp only [PeerEnvelope.payload,List.length_append,encode_length,peerCommonSize]
    omega
  have reserved : field envelope.payload 25 7 = 0 := by simp (disch := omega) [PeerEnvelope.payload]
  have clusterId : field envelope.payload 0 8 = envelope.clusterId := by
    simp (disch := omega) [PeerEnvelope.payload,Nat.mod_eq_of_lt]
  have sourceId : field envelope.payload 8 8 = envelope.source := by
    simp (disch := omega) [PeerEnvelope.payload,Nat.mod_eq_of_lt]
  have targetId : field envelope.payload 16 8 = envelope.target := by
    simp (disch := omega) [PeerEnvelope.payload,Nat.mod_eq_of_lt]
  have kindOf : field envelope.payload 24 1 = peerKind envelope.message := by
    simp (disch := omega) [PeerEnvelope.payload,Nat.mod_eq_of_lt]
  have back : envelope.payload.drop peerCommonSize = peerBody envelope.message := by
    simp only [PeerEnvelope.payload,← List.append_assoc]
    exact List.drop_left' (by simp [peerCommonSize])
  unfold decodePeerFrame
  simp only [reserved,clusterId,sourceId,targetId,kindOf,back,decodeMessage_body sends words]
  rw [if_neg (by simp [Nat.not_lt.mp size]),if_neg (by simp [cluster,source,target])]

theorem decodePeerFrame_canonical (decoded : decodePeerFrame frame = .ok envelope) :
    frame.messageNamespace = .raft ∧ peerType envelope.message = frame.messageType ∧ envelope.payload = frame.payload := by
  simp only [decodePeerFrame,ite_ok,not_or,not_not,Nat.not_lt] at decoded
  obtain ⟨⟨named,(size : 32 ≤ frame.payload.length),reserved⟩,-,decoded⟩ := decoded
  split at decoded
  · cases decoded
  rename_i message found
  cases decoded
  obtain ⟨kind,type,body⟩ := decodeMessage_canonical found
  refine ⟨named,type,?_⟩
  have zeros : encode 7 0 = encode 7 (field frame.payload 25 7) := by rw [reserved]
  simp only [PeerEnvelope.payload,kind,body,zeros,peerCommonSize]
  simp (disch := omega) only [encode_field_drop,List.drop_zero]

-- What the peer codec encodes it decodes, and it decodes nothing else.
theorem peer_codec_exact :
    (∀ envelope requestId frame, envelope.Fits → encodePeerFrame envelope requestId = .ok frame →
      decodePeerFrame frame = .ok envelope) ∧
    (∀ frame envelope again, frame.flags = 0 → decodePeerFrame frame = .ok envelope →
      encodePeerFrame envelope frame.requestId = .ok again → again = frame) ∧
    (∀ frame other envelope again, frame.flags = 0 → other.flags = 0 → other.requestId = frame.requestId →
      decodePeerFrame frame = .ok envelope → decodePeerFrame other = .ok envelope →
      encodePeerFrame envelope frame.requestId = .ok again → other = frame) := by
  have canonical : ∀ frame envelope again, frame.flags = 0 → decodePeerFrame frame = .ok envelope →
      encodePeerFrame envelope frame.requestId = .ok again → again = frame := by
    intro frame envelope again flags decoded encoded
    obtain ⟨-,rfl⟩ := encodePeerFrame_iff.mp encoded
    obtain ⟨named,type,payload⟩ := decodePeerFrame_canonical decoded
    rw [type,payload,← named,← flags]
  refine ⟨fun _ _ _ => decodePeerFrame_encoded,canonical,?_⟩
  intro frame other envelope again flags flags' same decoded decoded' encoded
  have first := canonical frame envelope again flags decoded encoded
  have second := canonical other envelope again flags' decoded' (by rwa [same])
  exact second.symm.trans first

end ForgeKv.Cluster
