import ForgeKv.Cluster.SnapshotCodec

namespace ForgeKv.Cluster
open Raft (Bytes)
open Protocol
open RaftStorage
open BigEndian
open Assoc (keys)

structure StorableValue (binding : Bytes × Bytes) : Prop where
  some : binding.1 ≠ []
  key : binding.1.length ≤ maxKeySize
  value : binding.2.length ≤ maxValueSize

structure StorableRecord (binding : ClientId × DedupRecord) : Prop where
  request : binding.2.requestId ≠ 0
  short : binding.2.command.length ≤ maxClientCommandSize
  command : ∃ command, binding.2.decoded binding.1 = some command ∧ validStoredResult command binding.2.response = true

def valueSize (binding : Bytes × Bytes) : Nat := stateEntryHeaderSize+binding.1.length+binding.2.length

def recordSize (binding : ClientId × DedupRecord) : Nat := dedupEntryHeaderSize+binding.2.bytes

theorem addSize_iff (fits : total ≤ maxSnapshotPayloadSize) :
    addSize total amount = .ok sum ↔ sum = total+amount ∧ sum ≤ maxSnapshotPayloadSize := by
  unfold addSize
  split
  · rename_i above
    refine ⟨fun wrong => (nomatch wrong),fun ⟨equal,bound⟩ => ?_⟩
    omega
  · rename_i under
    rw [Except.ok.injEq]
    constructor
    · rintro rfl
      exact ⟨rfl,by omega⟩
    · exact fun both => both.1.symm

theorem addSizes_iff {rest : Nat → Except String Nat} (fits : total ≤ maxSnapshotPayloadSize) :
    (do let size ← addSize total first
        let size ← addSize size second
        let size ← addSize size third
        rest size) = .ok sum ↔
      total+first+second+third ≤ maxSnapshotPayloadSize ∧ rest (total+first+second+third) = .ok sum := by
  constructor
  · intro done
    cases one : addSize total first with
    | error => rw [one] at done; cases done
    | ok size =>
    obtain ⟨rfl,low⟩ := (addSize_iff fits).mp one
    cases two : addSize (total+first) second with
    | error => rw [one] at done; simp only [bind,Except.bind,two] at done; cases done
    | ok size =>
    obtain ⟨rfl,middle⟩ := (addSize_iff low).mp two
    cases three : addSize (total+first+second) third with
    | error => rw [one] at done; simp only [bind,Except.bind,two,three] at done; cases done
    | ok size =>
    obtain ⟨rfl,high⟩ := (addSize_iff middle).mp three
    simp only [one,two,three,bind,Except.bind] at done
    exact ⟨high,done⟩
  · rintro ⟨high,done⟩
    have one : addSize total first = .ok (total+first) := (addSize_iff fits).mpr ⟨rfl,by omega⟩
    have two : addSize (total+first) second = .ok (total+first+second) := (addSize_iff (by omega)).mpr ⟨rfl,by omega⟩
    have three : addSize (total+first+second) third = .ok (total+first+second+third) :=
      (addSize_iff (by omega)).mpr ⟨rfl,high⟩
    simp only [one,two,three,bind,Except.bind]
    exact done

theorem measureValues_iff {bindings : Assoc.Map Bytes Bytes} (fits : size ≤ maxSnapshotPayloadSize) :
    measureValues size bindings = .ok total ↔ (∀ binding ∈ bindings, StorableValue binding) ∧
      total = size+(bindings.map valueSize).sum ∧ total ≤ maxSnapshotPayloadSize := by
  induction bindings generalizing size with
  | nil =>
    simp only [measureValues,Except.ok.injEq]
    constructor
    · rintro rfl
      exact ⟨List.forall_mem_nil _,rfl,fits⟩
    · exact fun all => all.2.1.symm
  | cons binding rest ih =>
    obtain ⟨key,value⟩ := binding
    unfold measureValues
    rw [List.forall_mem_cons,List.map_cons,List.sum_cons]
    split
    · rename_i invalid
      refine ⟨fun wrong => (nomatch wrong),fun all => ?_⟩
      obtain ⟨some,short,small⟩ := all.1.1
      simp only at some short small
      rcases invalid with empty | long | large
      · exact absurd empty some
      · omega
      · omega
    · rename_i valid
      simp only [not_or,Nat.not_lt] at valid
      rw [addSizes_iff fits]
      have storable : StorableValue (key,value) := ⟨valid.1,valid.2.1,valid.2.2⟩
      have whole : valueSize (key,value) = stateEntryHeaderSize+key.length+value.length := rfl
      constructor
      · rintro ⟨high,done⟩
        obtain ⟨all,sum,bound⟩ := (ih high).mp done
        exact ⟨⟨storable,all⟩,by omega,bound⟩
      · rintro ⟨⟨-,all⟩,sum,bound⟩
        have high : size+stateEntryHeaderSize+key.length+value.length ≤ maxSnapshotPayloadSize := by omega
        exact ⟨high,(ih high).mpr ⟨all,by omega,bound⟩⟩

theorem validateRecord_iff : validateRecord client record = .ok () ↔ StorableRecord (client,record) := by
  unfold validateRecord
  constructor
  · intro done
    split at done
    · cases done
    rename_i fine
    simp only [not_or,Nat.not_lt] at fine
    split at done
    · cases done
    rename_i command found
    split at done
    · rename_i stored
      exact ⟨fine.1,fine.2,command,found,stored⟩
    · cases done
  · rintro ⟨request,short,command,found,stored⟩
    rw [if_neg (by simp only [not_or,Nat.not_lt]; exact ⟨request,short⟩)]
    simp only [found]
    exact if_pos stored

theorem measureClients_iff {bindings : Assoc.Map ClientId DedupRecord} (fits : size ≤ maxSnapshotPayloadSize)
    (low : dedupBytes ≤ kMaxDedupBytes) :
    (∃ total, measureClients dedupBytes size bindings = .ok total) ↔ (∀ binding ∈ bindings, StorableRecord binding) ∧
      dedupBytes+(bindings.map (fun binding => binding.2.bytes)).sum ≤ kMaxDedupBytes ∧
      size+(bindings.map recordSize).sum ≤ maxSnapshotPayloadSize := by
  induction bindings generalizing size dedupBytes with
  | nil => simpa [measureClients] using ⟨low,fits⟩
  | cons binding rest ih =>
    obtain ⟨client,record⟩ := binding
    unfold measureClients
    rw [List.forall_mem_cons,List.map_cons,List.sum_cons,List.map_cons,List.sum_cons]
    have whole : recordSize (client,record) = dedupEntryHeaderSize+(record.command.length+record.response.length) := rfl
    cases checked : validateRecord client record with
    | error =>
      simp only [reduceCtorEq,exists_false,false_iff,not_and]
      intro all
      rw [validateRecord_iff.mpr all.1] at checked
      cases checked
    | ok =>
      have storable := validateRecord_iff.mp checked
      simp only
      split
      · rename_i above
        simp only [reduceCtorEq,exists_false,false_iff,not_and]
        omega
      · rename_i under
        simp only [addSizes_iff fits,exists_and_left]
        constructor
        · rintro ⟨high,done⟩
          obtain ⟨all,bytes,bound⟩ := (ih high (by omega)).mp done
          exact ⟨⟨storable,all⟩,by omega,by omega⟩
        · rintro ⟨⟨-,all⟩,bytes,bound⟩
          have high : size+dedupEntryHeaderSize+record.command.length+record.response.length ≤ maxSnapshotPayloadSize := by omega
          exact ⟨high,(ih high (by omega)).mpr ⟨all,by omega,by omega⟩⟩

-- The states that can be written: three limits, and every entry in order.
structure Storable (state : SnapshotState) : Prop where
  keys : state.values.size ≤ maxSnapshotKeys
  clients : state.clients.size ≤ kMaxDedupClients
  values : ∀ binding ∈ state.values.bindings, StorableValue binding
  records : ∀ binding ∈ state.clients.bindings, StorableRecord binding
  dedup : state.clients.total (fun _ record => record.bytes) ≤ kMaxDedupBytes
  payload : stateHeaderSize+(state.values.bindings.map valueSize).sum+(state.clients.bindings.map recordSize).sum ≤
    maxSnapshotPayloadSize

def SnapshotState.bytes (state : SnapshotState) : Bytes :=
  stateHeader state ++ ((state.values.sortedBy id).flatMap encodeValue ++
    (state.clients.sortedBy ClientId.bytes).flatMap encodeClient)

theorem encodeSnapshotState_iff : encodeSnapshotState state = .ok bytes ↔ Storable state ∧ bytes = state.bytes := by
  have start : stateHeaderSize ≤ maxSnapshotPayloadSize := by decide
  unfold encodeSnapshotState
  constructor
  · intro done
    split at done
    · cases done
    rename_i limits
    simp only [not_or,Nat.not_lt] at limits
    cases measured : measureValues stateHeaderSize state.values.bindings with
    | error => rw [measured] at done; cases done
    | ok size =>
    obtain ⟨values,sum,bound⟩ := (measureValues_iff start).mp measured
    cases counted : measureClients 0 size state.clients.bindings with
    | error => simp only [measured,counted,bind,Except.bind] at done; cases done
    | ok total =>
    obtain ⟨records,dedup,payload⟩ := (measureClients_iff bound (Nat.zero_le _)).mp ⟨total,counted⟩
    simp only [measured,counted,bind,Except.bind] at done
    cases done
    refine ⟨⟨limits.1,limits.2,values,records,?_,sum ▸ payload⟩,rfl⟩
    rw [Nat.zero_add] at dedup
    exact dedup
  · rintro ⟨⟨keyed,few,values,records,dedup,payload⟩,rfl⟩
    have bound : stateHeaderSize+(state.values.bindings.map valueSize).sum ≤ maxSnapshotPayloadSize := by omega
    have measured := (measureValues_iff start).mpr ⟨values,rfl,bound⟩
    obtain ⟨total,counted⟩ := (measureClients_iff bound (Nat.zero_le _)).mpr ⟨records,(Nat.zero_add _).symm ▸ dedup,payload⟩
    rw [if_neg (by simp only [not_or,Nat.not_lt]; exact ⟨keyed,few⟩)]
    simp only [measured,counted,bind,Except.bind]
    rfl

theorem decodeValues_encode {entries : Assoc.Map Bytes Bytes} (valid : ∀ entry ∈ entries, StorableValue entry)
    (ordered : entries.Pairwise (fun left right => ¬ right.1 ≤ left.1))
    (behind : ∀ entry ∈ entries, previous ≠ [] → ¬ entry.1 ≤ previous) :
    decodeValues entries.length previous (entries.flatMap encodeValue ++ rest) values = .ok (values.addAll entries,rest) := by
  induction entries generalizing previous values with
  | nil => rfl
  | cons entry entries ih =>
    obtain ⟨key,value⟩ := entry
    obtain ⟨some,short,small⟩ := valid (key,value) List.mem_cons_self
    obtain ⟨first,later⟩ := List.pairwise_cons.mp ordered
    simp only at some short small first
    have real := List.length_pos_of_ne_nil some
    have follows : decodeValues entries.length key (entries.flatMap encodeValue ++ rest) (values.emplace key value) =
        .ok ((values.emplace key value).addAll entries,rest) :=
      ih (fun entry member => valid entry (List.mem_cons_of_mem _ member)) later (fun entry member _ => first entry member)
    generalize input : entries.flatMap encodeValue ++ rest = tail at follows
    have shape : ((key,value)::entries).flatMap encodeValue ++ rest =
        encode 4 key.length ++ (encode 4 value.length ++ (key ++ (value ++ tail))) := by
      rw [List.flatMap_cons,List.append_assoc,input]
      simp only [encodeValue,List.append_assoc]
    have body : (encode 4 key.length ++ (encode 4 value.length ++ (key ++ (value ++ tail)))).drop stateEntryHeaderSize =
        key ++ (value ++ tail) := by
      rw [← List.append_assoc]
      exact List.drop_left' (by simp [stateEntryHeaderSize])
    have keySize : field (encode 4 key.length ++ (encode 4 value.length ++ (key ++ (value ++ tail)))) 0 4 = key.length := by
      unfold maxKeySize at short
      simp (disch := omega) [Nat.mod_eq_of_lt]
    have valueSize : field (encode 4 key.length ++ (encode 4 value.length ++ (key ++ (value ++ tail)))) 4 4 = value.length := by
      unfold maxValueSize at small
      simp (disch := omega) [Nat.mod_eq_of_lt]
    rw [List.length_cons,shape]
    simp only [decodeValues,body,keySize,valueSize,List.take_left,List.drop_left]
    rw [if_neg (by simp only [List.length_append,encode_length,stateEntryHeaderSize]; omega),
      if_neg (by simp only [List.length_append,encode_length,stateEntryHeaderSize]; omega),
      if_neg (fun wrong => behind (key,value) List.mem_cons_self wrong.1 wrong.2)]
    exact follows

theorem stored_short (stored : validStoredResult command response = true) : response.length ≤ 1 := by
  unfold validStoredResult at stored
  split at stored
  · simp [beq_iff_eq.mp stored]
  · rcases Bool.or_eq_true_iff.mp stored with zero | one
    · simp [beq_iff_eq.mp zero]
    · simp [beq_iff_eq.mp one]

section client
variable (binding : ClientId × DedupRecord) (tail : Bytes)

theorem encodeClient_length : (encodeClient binding ++ tail).length = dedupEntryHeaderSize+binding.2.bytes+tail.length := by
  simp only [encodeClient,List.length_append,encode_length,binding.1.size,dedupEntryHeaderSize,DedupRecord.bytes]
  omega

theorem encodeClient_id : ClientId.read (encodeClient binding ++ tail) = binding.1 := by
  simp only [encodeClient,List.append_assoc]
  exact ClientId.read_bytes _ _

theorem encodeClient_request : UInt64.ofNat (field (encodeClient binding ++ tail) 16 8) = binding.2.requestId := by
  have stored : field (encodeClient binding ++ tail) 16 8 = binding.2.requestId.toNat := by
    simp only [encodeClient,List.append_assoc]
    simp (disch := omega) [field_skip_id]
  rw [stored]
  exact UInt64.ofNat_toNat

theorem encodeClient_body : (encodeClient binding ++ tail).drop dedupEntryHeaderSize =
    binding.2.command ++ (binding.2.response ++ tail) := by
  simp only [encodeClient,← List.append_assoc]
  rw [List.append_assoc _ binding.2.command,List.append_assoc _ (binding.2.command ++ _)]
  refine (List.drop_left' (by simp [dedupEntryHeaderSize,binding.1.size])).trans ?_
  rw [List.append_assoc]

variable {binding} (storable : StorableRecord binding)
include storable

theorem StorableRecord.answered : binding.2.response.length ≤ 1 := by
  obtain ⟨command,-,stored⟩ := storable.command
  exact stored_short stored

theorem encodeClient_commandSize : field (encodeClient binding ++ tail) 24 4 = binding.2.command.length := by
  have short := storable.short
  unfold maxClientCommandSize maxKeySize maxValueSize at short
  simp only [encodeClient,List.append_assoc]
  simp (disch := omega) [field_skip_id,Nat.mod_eq_of_lt]

theorem encodeClient_responseSize : field (encodeClient binding ++ tail) 28 4 = binding.2.response.length := by
  have answered := storable.answered
  simp only [encodeClient,List.append_assoc]
  simp (disch := omega) [field_skip_id,Nat.mod_eq_of_lt]

end client

theorem decodeClients_encode {entries : Assoc.Map ClientId DedupRecord} (valid : ∀ entry ∈ entries, StorableRecord entry)
    (ordered : entries.Pairwise (fun left right => left.1.bytes < right.1.bytes))
    (behind : ∀ entry ∈ entries, ∀ client, previous = some client → client.bytes < entry.1.bytes)
    (fits : dedupBytes+(entries.map (fun entry => entry.2.bytes)).sum ≤ kMaxDedupBytes) :
    decodeClients entries.length previous dedupBytes (entries.flatMap encodeClient ++ rest) clients =
      .ok (clients.addAll entries,rest) := by
  induction entries generalizing previous dedupBytes clients with
  | nil => rfl
  | cons entry entries ih =>
    obtain ⟨first,later⟩ := List.pairwise_cons.mp ordered
    rw [List.map_cons,List.sum_cons] at fits
    have follows : decodeClients entries.length (some entry.1) (dedupBytes+entry.2.bytes)
        (entries.flatMap encodeClient ++ rest) (clients.emplace entry.1 entry.2) =
          .ok ((clients.emplace entry.1 entry.2).addAll entries,rest) := by
      refine ih (fun entry member => valid entry (List.mem_cons_of_mem _ member)) later ?_ (by omega)
      intro other member known same
      cases same
      exact first other member
    have storable := valid entry List.mem_cons_self
    have short := storable.short
    have answered := storable.answered
    have checked := validateRecord_iff.mpr storable
    have counted : entry.2.bytes = entry.2.command.length+entry.2.response.length := rfl
    rw [List.length_cons,List.flatMap_cons,List.append_assoc]
    generalize entries.flatMap encodeClient ++ rest = tail at follows
    have size := encodeClient_length entry tail
    simp only [decodeClients,encodeClient_id,encodeClient_request,encodeClient_body,encodeClient_commandSize tail storable,
      encodeClient_responseSize tail storable,List.take_left,List.drop_left,checked]
    rw [if_neg (by omega),if_neg (by
      cases previous with
      | none => simp
      | some known => simpa using behind entry List.mem_cons_self known rfl)]
    rw [if_neg (by
      simp only [not_or,Nat.not_lt]
      exact ⟨storable.request,short,answered,by omega,by omega⟩),if_neg (by omega)]
    exact follows

theorem encodeValues_length {entries : Assoc.Map Bytes Bytes} (valid : ∀ entry ∈ entries, StorableValue entry) :
    entries.length*(stateEntryHeaderSize+1) ≤ (entries.flatMap encodeValue).length := by
  induction entries with
  | nil => simp
  | cons entry entries ih =>
    have later := ih (fun other member => valid other (List.mem_cons_of_mem _ member))
    have real := List.length_pos_of_ne_nil (valid entry List.mem_cons_self).some
    simp only [List.length_cons,List.flatMap_cons,List.length_append,encodeValue,encode_length,stateEntryHeaderSize] at later ⊢
    omega

section header
variable (state : SnapshotState) (rest : Bytes)

theorem stateHeader_length : (stateHeader state).length = stateHeaderSize := by
  simp [stateHeader,stateHeaderSize]

theorem stateHeader_fields (keys : state.values.size ≤ maxSnapshotKeys) (clients : state.clients.size ≤ kMaxDedupClients) :
    field (stateHeader state ++ rest) 0 4 = stateMagic ∧ field (stateHeader state ++ rest) 4 2 = stateFormatVersion ∧
    field (stateHeader state ++ rest) 6 2 = stateHeaderSize ∧ field (stateHeader state ++ rest) 8 8 = state.values.size ∧
    field (stateHeader state ++ rest) 16 8 = state.clients.size := by
  unfold maxSnapshotKeys at keys
  unfold kMaxDedupClients at clients
  simp only [stateHeader,List.append_assoc]
  refine ⟨?_,?_,?_,?_,?_⟩
  · simp [stateMagic]
  · simp (disch := omega) [stateFormatVersion]
  · simp (disch := omega) [stateHeaderSize]
  · simp (disch := omega) [Nat.mod_eq_of_lt]
  · simp (disch := omega) [Nat.mod_eq_of_lt]

end header

section state
variable {state : SnapshotState} (storable : Storable state)
include storable

theorem Storable.decodeValues (rest : Bytes) :
    decodeValues state.values.size [] ((state.values.sortedBy id).flatMap encodeValue ++ rest) .empty =
      .ok (Table.empty.addAll (state.values.sortedBy id),rest) := by
  have perm := Table.sortedBy_perm id state.values
  have strict := Table.sortedBy_strict id Function.injective_id state.values
  rw [show state.values.size = (state.values.sortedBy id).length from perm.length_eq.symm]
  refine decodeValues_encode (fun entry member => storable.values entry (perm.mem_iff.mp member)) ?_ ?_
  · exact strict.imp fun order wrong => order.2 (Std.le_antisymm order.1 wrong)
  · exact fun entry member wrong => absurd rfl wrong

theorem Storable.decodeClients (rest : Bytes) :
    decodeClients state.clients.size none 0 ((state.clients.sortedBy ClientId.bytes).flatMap encodeClient ++ rest) .empty =
      .ok (Table.empty.addAll (state.clients.sortedBy ClientId.bytes),rest) := by
  have perm := Table.sortedBy_perm ClientId.bytes state.clients
  have strict := Table.sortedBy_strict ClientId.bytes ClientId.bytes_injective state.clients
  have sum := (perm.map (fun entry => entry.2.bytes)).sum_nat
  rw [show state.clients.size = (state.clients.sortedBy ClientId.bytes).length from perm.length_eq.symm]
  refine decodeClients_encode (fun entry member => storable.records entry (perm.mem_iff.mp member)) ?_ ?_ ?_
  · exact strict.imp fun order => Std.lt_of_le_of_ne order.1 order.2
  · exact fun entry member client wrong => nomatch wrong
  · rw [Nat.zero_add,sum]
    exact storable.dedup

theorem Storable.length : state.bytes.length ≤ maxSnapshotPayloadSize := by
  have values : ((state.values.sortedBy id).flatMap encodeValue).length = (state.values.bindings.map valueSize).sum := by
    rw [List.length_flatMap,← ((Table.sortedBy_perm id state.values).map valueSize).sum_nat]
    congr 1
    refine List.map_congr_left fun binding _ => ?_
    simp only [encodeValue,valueSize,stateEntryHeaderSize,List.length_append,encode_length]
    omega
  have clients : ((state.clients.sortedBy ClientId.bytes).flatMap encodeClient).length =
      (state.clients.bindings.map recordSize).sum := by
    rw [List.length_flatMap,← ((Table.sortedBy_perm ClientId.bytes state.clients).map recordSize).sum_nat]
    congr 1
    refine List.map_congr_left fun binding _ => ?_
    have size : (encodeClient binding ++ []).length = dedupEntryHeaderSize+binding.2.bytes+0 := encodeClient_length binding []
    rw [List.append_nil] at size
    exact size
  have payload := storable.payload
  unfold SnapshotState.bytes
  rw [List.length_append,List.length_append,stateHeader_length,values,clients,← Nat.add_assoc]
  exact payload

end state

theorem addAll_sorted [DecidableEq Key] [LE Rank] [Std.IsLinearOrder Rank] [DecidableLE Rank] (rank : Key → Rank)
    (table : Table Key Value) : Table.Same (Table.empty.addAll (table.sortedBy rank)) table := by
  have perm := Table.sortedBy_perm rank table
  have unique : (keys (table.sortedBy rank)).Nodup := (perm.map Prod.fst).nodup_iff.mpr table.unique
  have added := Table.addAll_perm unique (fun _ _ => Table.find?_empty)
  exact Table.same_of_perm (added.trans ((List.append_nil _).symm ▸ perm))

theorem decode_bytes_state (storable : Storable state) : ∃ decoded, decodeSnapshotState state.bytes = .ok decoded ∧
    Table.Same decoded.values state.values ∧ Table.Same decoded.clients state.clients := by
  refine ⟨⟨Table.empty.addAll (state.values.sortedBy id),Table.empty.addAll (state.clients.sortedBy ClientId.bytes)⟩,?_,
    addAll_sorted id state.values,addAll_sorted ClientId.bytes state.clients⟩
  have valued := storable.decodeValues ((state.clients.sortedBy ClientId.bytes).flatMap encodeClient)
  have recorded := storable.decodeClients []
  rw [List.append_nil] at recorded
  have perm := Table.sortedBy_perm id state.values
  have enough := encodeValues_length (fun entry member => storable.values entry (perm.mem_iff.mp member))
  rw [show (state.values.sortedBy id).length = state.values.size from perm.length_eq] at enough
  unfold SnapshotState.bytes
  generalize body : (state.values.sortedBy id).flatMap encodeValue ++
    (state.clients.sortedBy ClientId.bytes).flatMap encodeClient = rest at valued
  have long : ((state.values.sortedBy id).flatMap encodeValue).length ≤ rest.length := by
    rw [← body,List.length_append]
    exact Nat.le_add_right _ _
  obtain ⟨magic,version,header,keyCount,clientCount⟩ := stateHeader_fields state rest storable.keys storable.clients
  have size : (stateHeader state ++ rest).length = stateHeaderSize+rest.length := by
    rw [List.length_append,stateHeader_length]
  unfold decodeSnapshotState
  simp only [magic,version,header,keyCount,clientCount,size,List.drop_left' (stateHeader_length state),if_true,valued,recorded,
    bind,Except.bind]
  rw [if_neg (by simp [stateHeaderSize,legacyStateHeaderSize]; omega),
    if_neg (by simp [stateFormatVersion,legacyStateFormatVersion]),if_neg]
  · simp [pure,Except.pure]
  · simp only [not_or,Nat.not_lt]
    refine ⟨storable.keys,storable.clients,?_⟩
    rw [Nat.le_div_iff_mul_le (by decide),Nat.add_sub_cancel_left]
    exact Nat.le_trans enough long

end ForgeKv.Cluster
