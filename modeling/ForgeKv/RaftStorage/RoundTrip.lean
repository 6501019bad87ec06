import ForgeKv.RaftStorage.Format

namespace ForgeKv.RaftStorage
open Raft
open BigEndian
open Protocol (crc32 crc_small)

-- The fields that are std::uint64_t in the source.
structure Owner.Fits (owner : Owner) : Prop where
  cluster : owner.clusterId < 2^64
  node : owner.nodeId < 2^64
  membership : owner.membershipFingerprint < 2^64

@[simp] theorem sealed_length (body : Bytes) : (sealed body).length = body.length+4 := by simp [sealed]

theorem sealed_take (body : Bytes) : (sealed body).take body.length = body := by
  unfold sealed
  rw [List.take_left]

theorem sealed_tail (size : body.length = place) : field (sealed body) place 4 = (crc32 body).toNat := by
  unfold sealed
  rw [field_skip _ _ (Nat.le_of_eq size),size,Nat.sub_self,field_encode_last,crc_small]

theorem sealed_checksum (body : Bytes) : checksumWithoutTail (sealed body) = (crc32 body).toNat := by
  unfold checksumWithoutTail
  rw [sealed_length,Nat.add_sub_cancel,sealed_take]

structure HardRecord.Fits (record : HardRecord) : Prop where
  generation : record.generation < 2^64
  term : record.term < 2^64
  vote : ∀ candidate, record.votedFor = some candidate → candidate < 2^64
  started : record.generation ≠ 0
  named : ∀ candidate, record.votedFor = some candidate → candidate ≠ 0 ∧ record.term ≠ 0

theorem decode_hardState (owner : Owner) (record : HardRecord) (mine : owner.Fits) (fits : record.Fits) :
    decodeHardState owner (encodeHardState owner record) = some record := by
  obtain ⟨generation,term,vote⟩ := record
  have low := fits.generation
  have bound := fits.term
  have started := fits.started
  have cluster := mine.cluster
  have node := mine.node
  have checksum : checksumWithoutTail (encodeHardState owner ⟨generation,term,vote⟩) = _ := sealed_checksum _
  unfold decodeHardState
  rw [checksum]
  simp only [encodeHardState,sealed,List.append_assoc]
  cases vote with
  | none => simp (disch := omega) [hardMagic,formatVersion,hardStateSize,Nat.mod_eq_of_lt,started]
  | some candidate =>
    have chosen := fits.vote candidate rfl
    obtain ⟨named,later⟩ := fits.named candidate rfl
    simp (disch := omega) [hardMagic,formatVersion,hardStateSize,Nat.mod_eq_of_lt,started,named,later]

theorem verify_identity (owner : Owner) (mine : owner.Fits) : verifyIdentity owner (encodeIdentity owner) = .ok () := by
  have cluster := mine.cluster
  have node := mine.node
  have membership := mine.membership
  have checksum : checksumWithoutTail (encodeIdentity owner) = _ := sealed_checksum _
  unfold verifyIdentity
  rw [checksum]
  simp only [encodeIdentity,sealed,List.append_assoc]
  simp (disch := omega) [identityMagic,formatVersion,identitySize,Nat.mod_eq_of_lt]

structure BoundaryFits (snapshot : StateMachineSnapshot) : Prop where
  index : snapshot.lastIncludedIndex < maxU64
  term : snapshot.lastIncludedTerm < 2^64
  real : 0 < snapshot.lastIncludedIndex
  elected : 0 < snapshot.lastIncludedTerm

theorem verify_logHeader (owner : Owner) (mine : owner.Fits) (required : Option StateMachineSnapshot)
    (fits : ∀ snapshot, required = some snapshot → BoundaryFits snapshot) :
    verifyLogHeader owner (encodeLogHeader owner required) =
      .ok (required.map (fun snapshot => (snapshot.lastIncludedIndex,snapshot.lastIncludedTerm))) := by
  have cluster := mine.cluster
  have node := mine.node
  have membership := mine.membership
  have checksum : checksumWithoutTail (encodeLogHeader owner required) = _ := sealed_checksum _
  unfold verifyLogHeader
  rw [checksum]
  simp only [encodeLogHeader,sealed,List.append_assoc]
  cases required with
  | none => simp (disch := omega) [logMagic,logFormatVersion,logHeaderSize,Nat.mod_eq_of_lt]
  | some snapshot =>
    obtain ⟨index,term,real,elected⟩ := fits snapshot rfl
    unfold maxU64 at index
    have real' := Nat.ne_of_gt real
    have elected' := Nat.ne_of_gt elected
    simp (disch := omega) [logMagic,logFormatVersion,logHeaderSize,Nat.mod_eq_of_lt,real',elected']

theorem encodeLogHeader_length (owner : Owner) (required : Option StateMachineSnapshot) :
    (encodeLogHeader owner required).length = logHeaderSize := by
  simp [encodeLogHeader,logHeaderSize]

theorem load_snapshot (owner : Owner) (mine : owner.Fits) (snapshot : StateMachineSnapshot) (fits : BoundaryFits snapshot)
    (small : snapshot.stateMachine.length ≤ maxSnapshotPayloadSize) :
    loadSnapshot owner (some (encodeSnapshot owner snapshot)) = .ok (some snapshot) := by
  obtain ⟨index,term,payload⟩ := snapshot
  obtain ⟨bound,low,real,elected⟩ := fits
  have cluster := mine.cluster
  have node := mine.node
  have membership := mine.membership
  simp only at bound low real elected small
  have room : payload.length < 2^64 := Nat.lt_of_le_of_lt small (by decide)
  have real' := Nat.ne_of_gt real
  have elected' := Nat.ne_of_gt elected
  have below := Nat.ne_of_lt bound
  unfold maxU64 at bound
  have front : (encodeSnapshot owner ⟨index,term,payload⟩).take 60 = encode 4 snapshotMagic ++ encode 2 snapshotFormatVersion ++
      encode 2 snapshotHeaderSize ++ encode 8 owner.clusterId ++ encode 8 owner.nodeId ++
      encode 8 owner.membershipFingerprint ++ encode 8 index ++ encode 8 term ++ encode 8 payload.length ++
      encode 4 (crc32 payload).toNat := by
    unfold encodeSnapshot sealed
    rw [List.append_assoc,List.take_left' (by simp)]
  have back : (encodeSnapshot owner ⟨index,term,payload⟩).drop snapshotHeaderSize = payload := by
    unfold encodeSnapshot
    rw [List.drop_left' (by simp [snapshotHeaderSize])]
  have size : (encodeSnapshot owner ⟨index,term,payload⟩).length = snapshotHeaderSize+payload.length := by
    unfold encodeSnapshot
    simp [snapshotHeaderSize]
  unfold loadSnapshot
  dsimp only
  rw [front,back,size,if_neg (by omega)]
  simp only [encodeSnapshot,sealed,List.append_assoc]
  simp (disch := omega) [snapshotMagic,snapshotFormatVersion,snapshotHeaderSize,Nat.mod_eq_of_lt,real',elected',below,small]

structure EntryFits (entry : LogEntry) : Prop where
  index : entry.index < 2^64
  term : entry.term < 2^64
  command : entry.command.length ≤ maxRaftCommandSize

theorem decode_kind (kind : EntryKind) : decodeKind (encodeKind kind % 256^1) = .ok kind := by cases kind <;> rfl

theorem encodeEntry_length (entry : LogEntry) : (encodeEntry entry).length = entryHeaderSize+entry.command.length := by
  simp [encodeEntry,entryHeaderSize]
  omega

theorem decode_entries (entries : List LogEntry) (fits : ∀ entry ∈ entries, EntryFits entry) :
    decodeEntries entries.length (entries.flatMap encodeEntry) = .ok (entries,[]) := by
  induction entries with
  | nil => rfl
  | cons entry rest ih =>
    obtain ⟨index,term,command⟩ := fits entry List.mem_cons_self
    have later := ih (fun other member => fits other (List.mem_cons_of_mem _ member))
    have room : entry.command.length < 2^32 := Nat.lt_of_le_of_lt command (by decide)
    rw [List.length_cons,List.flatMap_cons]
    have size : (encodeEntry entry ++ rest.flatMap encodeEntry).length =
        entryHeaderSize+entry.command.length+(rest.flatMap encodeEntry).length := by rw [List.length_append,encodeEntry_length]
    have back : (encodeEntry entry ++ rest.flatMap encodeEntry).drop entryHeaderSize =
        entry.command ++ rest.flatMap encodeEntry := by
      unfold encodeEntry
      rw [List.append_assoc,List.drop_left' (by simp [entryHeaderSize])]
    unfold decodeEntries
    rw [if_neg (by omega)]
    rw [back,size]
    simp only [encodeEntry,List.append_assoc]
    simp (disch := omega) only [field_skip_encode,field_encode,Nat.reduceSub,Nat.mod_eq_of_lt]
    rw [if_neg (by omega),decode_kind]
    simp only [bind,Except.bind,List.drop_left,List.take_left,later]
    rfl

theorem recordHead_length (size count fromIndex : Nat) : (recordHead size count fromIndex).length = 24 := by simp [recordHead]

-- The first 32 bytes of a record, without the payload.
def recordHeader (update : PersistLog) : Bytes :=
  let payload := update.entries.flatMap encodeEntry
  let fixed := sealed (recordHead (logRecordHeaderSize+payload.length) update.entries.length update.fromIndex)
  fixed ++ encode 4 (logRecordChecksum fixed payload)

theorem recordHeader_length (update : PersistLog) : (recordHeader update).length = logRecordHeaderSize := by
  simp [recordHeader,recordHead_length,logRecordHeaderSize]

theorem encodeLogUpdate_eq (update : PersistLog) :
    encodeLogUpdate update = recordHeader update ++ update.entries.flatMap encodeEntry := rfl

theorem record_length (update : PersistLog) : (encodeLogUpdate update).length =
    logRecordHeaderSize+(update.entries.flatMap encodeEntry).length := by
  rw [encodeLogUpdate_eq,List.length_append,recordHeader_length]

structure UpdateFits (update : PersistLog) : Prop where
  start : update.fromIndex < 2^64
  count : update.entries.length ≤ maxRaftLogEntriesPerRecord
  entries : ∀ entry ∈ update.entries, EntryFits entry
  size : (encodeLogUpdate update).length ≤ maxRaftLogRecordSize

theorem header_checksum (update : PersistLog) : field (recordHeader update) 24 4 = (crc32 ((recordHeader update).take 24)).toNat := by
  unfold recordHeader
  rw [field_front _ _ (by simp [recordHead_length]),sealed_tail (recordHead_length ..)]
  unfold sealed
  rw [List.append_assoc,List.take_left' (recordHead_length ..)]

theorem header_fields (update : PersistLog) : field (recordHeader update) 0 4 = logRecordMagic ∧
    field (recordHeader update) 4 2 = formatVersion ∧ field (recordHeader update) 6 2 = logRecordHeaderSize := by
  simp only [recordHeader,recordHead,sealed,List.append_assoc]
  simp [logRecordMagic,formatVersion,logRecordHeaderSize]

theorem verify_recordHeader (update : PersistLog) : verifyLogRecordHeader (recordHeader update) = .ok () := by
  obtain ⟨magic,version,size⟩ := header_fields update
  unfold verifyLogRecordHeader
  rw [header_checksum,recordHeader_length,magic,version,size]
  simp

theorem header_size (update : PersistLog) (fits : UpdateFits update) :
    field (recordHeader update) 8 4 = (encodeLogUpdate update).length := by
  have small : (encodeLogUpdate update).length < 2^32 := Nat.lt_of_le_of_lt fits.size (by decide)
  rw [record_length] at small ⊢
  simp only [recordHeader,recordHead,sealed,List.append_assoc]
  simp (disch := omega) only [field_skip_encode,field_encode,Nat.reduceSub,Nat.mod_eq_of_lt]

theorem decode_logUpdate (update : PersistLog) (fits : UpdateFits update) :
    decodeLogUpdate (encodeLogUpdate update) = .ok update := by
  have size := header_size update fits
  have whole := record_length update
  have headed := recordHeader_length update
  have count : update.entries.length < 2^32 := Nat.lt_of_le_of_lt fits.count (by decide)
  have start := fits.start
  have front : ∀ {offset width}, offset+width ≤ logRecordHeaderSize →
      field (encodeLogUpdate update) offset width = field (recordHeader update) offset width := by
    intro offset width inside
    rw [encodeLogUpdate_eq]
    exact field_front _ _ (by rw [headed]; exact inside)
  have cut : ∀ {count}, count ≤ logRecordHeaderSize → (encodeLogUpdate update).take count = (recordHeader update).take count := by
    intro count inside
    rw [encodeLogUpdate_eq,List.take_append_of_le_length (by rw [headed]; exact inside)]
  have back : (encodeLogUpdate update).drop logRecordHeaderSize = update.entries.flatMap encodeEntry := by
    rw [encodeLogUpdate_eq,List.drop_left' headed]
  have checksum : field (recordHeader update) 28 4 =
      logRecordChecksum ((recordHeader update).take 28) (update.entries.flatMap encodeEntry) := by
    unfold recordHeader
    rw [field_skip _ _ (by simp [recordHead_length]),List.take_left' (by simp [recordHead_length])]
    simp only [sealed_length,recordHead_length,Nat.reduceAdd,Nat.sub_self,field_encode_last]
    exact Nat.mod_eq_of_lt (UInt32.toNat_lt _)
  obtain ⟨magic,version,headerSize⟩ := header_fields update
  have counted : field (recordHeader update) 12 4 = update.entries.length ∧ field (recordHeader update) 16 8 = update.fromIndex := by
    simp only [recordHeader,recordHead,sealed,List.append_assoc]
    simp (disch := omega) only [field_skip_encode,field_encode,Nat.reduceSub,Nat.mod_eq_of_lt,and_self]
  unfold decodeLogUpdate
  rw [back,cut (by decide),cut (by decide),front (by decide),front (by decide),front (by decide),front (by decide),front (by decide),
    front (by decide),front (by decide),front (by decide),header_checksum,checksum,size,magic,version,headerSize,counted.1,counted.2]
  rw [if_neg (by simp [whole]),if_neg (Nat.not_lt.mpr fits.count),decode_entries _ fits.entries]
  rfl

end ForgeKv.RaftStorage
