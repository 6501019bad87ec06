import ForgeKv.Cluster.Restore

namespace ForgeKv.Cluster
open Raft (Bytes)
open Protocol
open RaftStorage
open BigEndian

theorem decodeValues_canonical (decoded : decodeValues count previous bytes values = .ok (after,rest)) :
    ∃ entries, entries.length = count ∧ bytes = entries.flatMap encodeValue ++ rest ∧ after = values.addAll entries ∧
      (∀ entry ∈ entries, StorableValue entry) ∧ entries.Pairwise (fun left right => ¬ right.1 ≤ left.1) ∧
      ∀ entry ∈ entries, previous ≠ [] → ¬ entry.1 ≤ previous := by
  induction count generalizing previous bytes values with
  | zero =>
    cases decoded
    exact ⟨[],rfl,rfl,rfl,by simp,.nil,by simp⟩
  | succ count ih =>
    simp only [decodeValues,ite_ok,not_or,Nat.not_lt] at decoded
    obtain ⟨header,⟨some,short,small,inside,behind⟩,order,decoded⟩ := decoded
    obtain ⟨entries,length,input,added,valid,ordered,later⟩ := ih decoded
    unfold stateEntryHeaderSize at header inside behind input added later
    have keySize : ((bytes.drop 8).take (field bytes 0 4)).length = field bytes 0 4 := by
      rw [List.length_take,List.length_drop]
      omega
    have valueSize : (((bytes.drop 8).drop (field bytes 0 4)).take (field bytes 4 4)).length = field bytes 4 4 := by
      rw [List.length_take,List.length_drop,List.length_drop]
      omega
    have real : (bytes.drop 8).take (field bytes 0 4) ≠ [] := by
      apply List.ne_nil_of_length_pos
      omega
    refine ⟨(_,_)::entries,by rw [List.length_cons,length],?_,added,?_,?_,?_⟩
    · rw [List.flatMap_cons,List.append_assoc,← input]
      simp only [encodeValue,keySize,valueSize,List.append_assoc,List.take_append_drop]
      simp (disch := omega) only [encode_field_drop,List.drop_zero]
    · exact List.forall_mem_cons.mpr ⟨⟨real,by rw [keySize]; exact short,by rw [valueSize]; exact small⟩,valid⟩
    · exact List.pairwise_cons.mpr ⟨fun entry member => later entry member real,ordered⟩
    · intro entry member used
      have first : ¬ (bytes.drop 8).take (field bytes 0 4) ≤ previous := fun wrong => order ⟨used,wrong⟩
      rcases List.mem_cons.mp member with rfl | old
      · exact first
      · intro low
        have above : previous ≤ (bytes.drop 8).take (field bytes 0 4) := (Std.Total.total _ _).resolve_right first
        exact later entry old real (Std.IsPreorder.le_trans _ _ _ low above)

theorem decodeClients_canonical (decoded : decodeClients count previous dedupBytes bytes clients = .ok (after,rest))
    (low : dedupBytes ≤ kMaxDedupBytes) :
    ∃ entries, entries.length = count ∧ bytes = entries.flatMap encodeClient ++ rest ∧ after = clients.addAll entries ∧
      (∀ entry ∈ entries, StorableRecord entry) ∧ entries.Pairwise (fun left right => left.1.bytes < right.1.bytes) ∧
      (∀ entry ∈ entries, ∀ client, previous = some client → client.bytes < entry.1.bytes) ∧
      dedupBytes+(entries.map (fun entry => entry.2.bytes)).sum ≤ kMaxDedupBytes := by
  induction count generalizing previous dedupBytes bytes clients with
  | zero =>
    cases decoded
    exact ⟨[],rfl,rfl,rfl,by simp,.nil,by simp,low⟩
  | succ count ih =>
    simp only [decodeClients,ite_ok,not_or,Nat.not_lt] at decoded
    obtain ⟨header,order,⟨_,_,_,inside,behind⟩,room,decoded⟩ := decoded
    split at decoded
    · cases decoded
    rename_i checked
    obtain ⟨entries,length,input,added,valid,ordered,later,dedup⟩ := ih decoded (by omega)
    unfold dedupEntryHeaderSize at header inside behind input added checked
    have commandSize : ((bytes.drop 32).take (field bytes 24 4)).length = field bytes 24 4 := by
      rw [List.length_take,List.length_drop]
      omega
    have responseSize : (((bytes.drop 32).drop (field bytes 24 4)).take (field bytes 28 4)).length = field bytes 28 4 := by
      rw [List.length_take,List.length_drop,List.length_drop]
      omega
    have request : (UInt64.ofNat (field bytes 16 8)).toNat = field bytes 16 8 := UInt64.toNat_ofNat_of_lt (field_lt bytes 16 8)
    have after' : ∀ client, previous = some client → client.bytes < (ClientId.read bytes).bytes := by
      intro client same
      rw [same] at order
      simpa using order
    refine ⟨(ClientId.read bytes,⟨UInt64.ofNat (field bytes 16 8),(bytes.drop 32).take (field bytes 24 4),
      ((bytes.drop 32).drop (field bytes 24 4)).take (field bytes 28 4)⟩)::entries,by rw [List.length_cons,length],?_,added,?_,?_,?_,?_⟩
    · rw [List.flatMap_cons,List.append_assoc,← input]
      simp only [encodeClient,commandSize,responseSize,request,List.append_assoc,List.take_append_drop]
      rw [ClientId.bytes_read _ (by omega)]
      simp (disch := omega) only [encode_field_drop,List.take_append_drop]
    · exact List.forall_mem_cons.mpr ⟨validateRecord_iff.mp checked,valid⟩
    · exact List.pairwise_cons.mpr ⟨fun entry member => later entry member _ rfl,ordered⟩
    · intro entry member client same
      rcases List.mem_cons.mp member with rfl | old
      · exact after' client same
      · exact Std.lt_trans (after' client same) (later entry old _ rfl)
    · rw [List.map_cons,List.sum_cons,DedupRecord.bytes,commandSize,responseSize,← Nat.add_assoc]
      exact dedup

theorem values_length (entries : Assoc.Map Bytes Bytes) : (entries.flatMap encodeValue).length = (entries.map valueSize).sum := by
  have each (binding : Bytes × Bytes) : (encodeValue binding).length = valueSize binding := by
    simp [encodeValue,valueSize,stateEntryHeaderSize]
    omega
  rw [List.length_flatMap]
  simp only [each]

theorem clients_length (entries : Assoc.Map ClientId DedupRecord) :
    (entries.flatMap encodeClient).length = (entries.map recordSize).sum := by
  have each (binding : ClientId × DedupRecord) : (encodeClient binding).length = recordSize binding := by
    simp [encodeClient,recordSize,binding.1.size,dedupEntryHeaderSize,DedupRecord.bytes]
    omega
  rw [List.length_flatMap]
  simp only [each]

theorem encode_decoded_state (decoded : decodeSnapshotState bytes = .ok state) (version : field bytes 4 2 = stateFormatVersion)
    (small : bytes.length ≤ maxSnapshotPayloadSize) : encodeSnapshotState state = .ok bytes := by
  simp only [decodeSnapshotState,version,if_true,ite_ok,not_or,not_and,not_not,Nat.not_lt] at decoded
  obtain ⟨opening,format,⟨keys,clients,-⟩,decoded⟩ := decoded
  have header : field bytes 6 2 = stateHeaderSize := format.2.1 trivial
  cases valued : decodeValues (field bytes 8 8) [] (bytes.drop (field bytes 6 2)) .empty with
  | error message =>
    rw [valued] at decoded
    cases decoded
  | ok found =>
  obtain ⟨values,middle⟩ := found
  rw [valued] at decoded
  cases recorded : decodeClients (field bytes 16 8) none 0 middle .empty with
  | error message =>
    simp only [recorded,bind,Except.bind] at decoded
    cases decoded
  | ok found =>
  obtain ⟨records,rest⟩ := found
  simp only [recorded,bind,Except.bind] at decoded
  split at decoded
  · cases decoded
  rename_i ended
  cases decoded
  rw [header] at valued
  obtain ⟨entries,count,input,rfl,valid,ordered,-⟩ := decodeValues_canonical valued
  obtain ⟨entries',count',input',rfl,valid',ordered',-,dedup⟩ := decodeClients_canonical recorded (Nat.zero_le _)
  rw [not_not.mp ended,List.append_nil] at input'
  have strict : entries.Pairwise (fun left right => id left.1 ≤ id right.1 ∧ id left.1 ≠ id right.1) :=
    ordered.imp fun above => ⟨(Std.Total.total _ _).resolve_right above,fun same => above (Std.le_of_eq same.symm)⟩
  have strict' : entries'.Pairwise (fun left right => left.1.bytes ≤ right.1.bytes ∧ left.1.bytes ≠ right.1.bytes) :=
    ordered'.imp fun above => ⟨Std.le_of_lt above,Std.ne_of_lt above⟩
  obtain ⟨perm,sorted⟩ := Table.sortedBy_addAll id Function.injective_id strict
  obtain ⟨perm',sorted'⟩ := Table.sortedBy_addAll ClientId.bytes ClientId.bytes_injective strict'
  have size : (Table.empty.addAll entries).size = field bytes 8 8 := perm.length_eq.trans count
  have size' : (Table.empty.addAll entries').size = field bytes 16 8 := perm'.length_eq.trans count'
  unfold stateHeaderSize at header input format
  have front : encode 2 stateHeaderSize = encode 2 (field bytes 6 2) := by rw [header,stateHeaderSize]
  have whole : bytes = SnapshotState.bytes ⟨Table.empty.addAll entries,Table.empty.addAll entries'⟩ := by
    simp only [SnapshotState.bytes,stateHeader,sorted,sorted',size,size',← input',← input,List.append_assoc,← opening.2,
      ← version,front]
    simp (disch := omega) only [encode_field_drop,List.drop_zero]
  refine encodeSnapshotState_iff.mpr ⟨⟨?_,?_,?_,?_,?_,?_⟩,whole⟩
  · rw [size]
    exact keys
  · rw [size']
    exact clients
  · exact fun binding member => valid binding (perm.mem_iff.mp member)
  · exact fun binding member => valid' binding (perm'.mem_iff.mp member)
  · have sum := (perm'.map (fun binding => binding.2.bytes)).sum_nat
    rw [Nat.zero_add,← sum] at dedup
    exact dedup
  · have sum := (perm.map valueSize).sum_nat
    have sum' := (perm'.map recordSize).sum_nat
    have length := congrArg List.length input
    have length' := congrArg List.length input'
    rw [List.length_append,values_length,List.length_drop] at length
    rw [clients_length] at length'
    rw [sum,sum',stateHeaderSize]
    omega

-- The image is a canonical form of the two maps: it gives them back, it does not
-- see their order, and no other version-2 image within the limit decodes to them.
theorem snapshot_codec_canonical :
    (∀ state bytes, encodeSnapshotState state = .ok bytes → ∃ decoded, decodeSnapshotState bytes = .ok decoded ∧
      Table.Same decoded.values state.values ∧ Table.Same decoded.clients state.clients) ∧
    (∀ left right : SnapshotState, Table.Same left.values right.values → Table.Same left.clients right.clients →
      ∀ bytes, encodeSnapshotState left = .ok bytes ↔ encodeSnapshotState right = .ok bytes) ∧
    (∀ bytes state, field bytes 4 2 = stateFormatVersion → bytes.length ≤ maxSnapshotPayloadSize →
      decodeSnapshotState bytes = .ok state → encodeSnapshotState state = .ok bytes) := by
  have transfer : ∀ left right : SnapshotState, Table.Same left.values right.values → Table.Same left.clients right.clients →
      ∀ bytes, encodeSnapshotState left = .ok bytes → encodeSnapshotState right = .ok bytes := by
    intro left right values clients bytes encoded
    obtain ⟨storable,rfl⟩ := encodeSnapshotState_iff.mp encoded
    exact encodeSnapshotState_iff.mpr ⟨storable_same values clients storable,bytes_same values clients⟩
  refine ⟨?_,?_,fun _ _ version small decoded => encode_decoded_state decoded version small⟩
  · intro state bytes encoded
    obtain ⟨storable,rfl⟩ := encodeSnapshotState_iff.mp encoded
    exact decode_bytes_state storable
  · intro left right values clients bytes
    exact ⟨transfer left right values clients bytes,transfer right left values.symm clients.symm bytes⟩

end ForgeKv.Cluster
