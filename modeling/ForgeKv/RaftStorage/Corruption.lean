import ForgeKv.Protocol.Slicing
import ForgeKv.RaftStorage.CrashConsistency
import ForgeKv.RaftStorage.Opening

namespace ForgeKv.RaftStorage
open Raft
open BigEndian
open Protocol
open OneChange (Changed)

section checksums
variable {owner : Owner} {body other rest : Bytes}

theorem sealed_changed (changed : Changed (sealed body) other) (size : body.length = place) :
    field other place 4 ≠ (crc32 (other.take place)).toNat := by
  rcases changed.append with ⟨first,inner,rfl⟩ | ⟨tail,inner,rfl⟩
  · have length := inner.length.trans size
    rw [List.take_left' length,field_skip _ _ (Nat.le_of_eq length),length,Nat.sub_self,field_encode_last,crc_small]
    exact crc32_changed inner
  · have length := inner.length
    rw [encode_length] at length
    rw [List.take_left' size,field_skip _ _ (Nat.le_of_eq size),size,Nat.sub_self]
    unfold field
    rw [List.drop_zero,List.take_of_length_le (Nat.le_of_eq length)]
    exact tail_changed inner

theorem checksum_changed (changed : Changed (sealed body) other) (size : body.length = place) :
    field other place 4 ≠ checksumWithoutTail other := by
  have length : other.length-4 = place := by
    rw [changed.length,sealed_length,size,Nat.add_sub_cancel]
  unfold checksumWithoutTail
  rw [length]
  exact sealed_changed changed size

end checksums

section files
variable {owner : Owner} {other rest : Bytes}

theorem identity_changed (changed : Changed (encodeIdentity owner) other) : verifyIdentity owner other ≠ .ok () := by
  have different : field other 36 4 ≠ checksumWithoutTail other := checksum_changed changed (by simp)
  unfold verifyIdentity
  split
  · exact nofun
  · split
    · exact nofun
    · rw [if_pos (by simp [different])]
      exact nofun

theorem hardState_changed (changed : Changed (encodeHardState owner record) other) : decodeHardState owner other = none := by
  have different : field other 56 4 ≠ checksumWithoutTail other := checksum_changed changed (by simp)
  exact if_pos (by simp [different])

theorem logHeader_changed (changed : Changed (encodeLogHeader owner base) other) : verifyLogHeader owner other ≠ .ok required := by
  have different : field other 48 4 ≠ checksumWithoutTail other := checksum_changed changed (by simp)
  unfold verifyLogHeader
  rw [if_pos (by simp [different])]
  exact nofun

theorem loadSnapshot_checked (loaded : loadSnapshot owner (some other) = .ok found) :
    field other 60 4 = (crc32 (other.take 60)).toNat ∧ field other 56 4 = (crc32 (other.drop snapshotHeaderSize)).toNat := by
  simp only [loadSnapshot,ite_ok,not_or,ne_eq,not_not] at loaded
  obtain ⟨-,headed,-,whole,-⟩ := loaded
  exact ⟨headed.2.2.2.2.2.2,whole⟩

theorem snapshot_changed (changed : Changed (encodeSnapshot owner snapshot) other) :
    loadSnapshot owner (some other) ≠ .ok found := by
  intro loaded
  obtain ⟨headed,whole⟩ := loadSnapshot_checked loaded
  rcases changed.append with ⟨header,inner,rfl⟩ | ⟨payload,inner,rfl⟩
  · have size : header.length = 64 := by simpa using inner.length
    rw [field_front _ _ (by omega),List.take_append_of_le_length (by omega)] at headed
    exact sealed_changed inner (by simp) headed
  · rw [List.drop_left' (by simp [snapshotHeaderSize])] at whole
    simp only [sealed,List.append_assoc] at whole
    simp (disch := omega) only [BigEndian.field_skip_encode,BigEndian.field_encode,Nat.reduceSub,crc_small] at whole
    exact crc32_changed inner whole

theorem decodeLogUpdate_checked (decoded : decodeLogUpdate other = .ok update) :
    field other 28 4 = (crc32 (other.take 28 ++ other.drop logRecordHeaderSize)).toNat := by
  unfold decodeLogUpdate at decoded
  split at decoded
  · cases decoded
  rename_i checked
  simp only [not_or,ne_eq,not_not] at checked
  have sum := checked.2.2.2.2.2.2
  unfold logRecordChecksum at sum
  rw [← Protocol.update_append] at sum
  exact sum

theorem logUpdate_changed (size : (fixed : Bytes).length = 28)
    (changed : Changed (encode 4 (logRecordChecksum fixed payload) ++ payload) other) :
    decodeLogUpdate (fixed ++ other) ≠ .ok update := by
  intro decoded
  have whole : logRecordChecksum fixed payload = (crc32 (fixed ++ payload)).toNat := by
    unfold logRecordChecksum
    rw [← Protocol.update_append]
    rfl
  rw [whole] at changed
  have checked := decodeLogUpdate_checked decoded
  rw [field_skip _ _ (Nat.le_of_eq size),size,Nat.sub_self,List.take_left' size] at checked
  rcases changed.append with ⟨sum,inner,rfl⟩ | ⟨behind,inner,rfl⟩
  · have length : sum.length = 4 := by simpa using inner.length
    rw [← List.append_assoc,List.drop_left' (by simp [logRecordHeaderSize,size,length])] at checked
    unfold field at checked
    rw [List.drop_zero,List.take_left' length] at checked
    exact tail_changed inner checked
  · rw [← List.append_assoc,List.drop_left' (by simp [logRecordHeaderSize,size]),BigEndian.field_encode,crc_small] at checked
    exact crc32_changed (inner.behind fixed) checked

theorem recordHeader_checked (verified : verifyLogRecordHeader (other.take logRecordHeaderSize) = .ok ()) :
    field other 24 4 = (crc32 (other.take 24)).toNat := by
  unfold verifyLogRecordHeader at verified
  split at verified
  · cases verified
  rename_i checked
  simp only [not_or,ne_eq,not_not] at checked
  have sum := checked.2.2.2.2
  rwa [BigEndian.field_take _ (by decide),List.take_take] at sum

-- A changed byte of a complete record. A changed length does not pass for the length
-- of an incomplete record: the header has a checksum of its own, read before the length is used.
theorem replayRecords_record_changed (fits : UpdateFits update) (changed : Changed (encodeLogUpdate update) other) :
    replayRecords state (other ++ rest) ≠ .ok result := by
  intro replayed
  have length := changed.length
  have least := record_least update
  have large := fits.size
  have whole : (other ++ rest).length = other.length+rest.length := List.length_append
  rw [replayRecords,if_neg (by omega),BigEndian.field_take _ (by decide)] at replayed
  obtain ⟨⟨⟩,verified,replayed⟩ := bind_ok.mp replayed
  have headed := recordHeader_checked verified
  have split : encodeLogUpdate update = sealed (recordHead (encodeLogUpdate update).length update.entries.length update.fromIndex) ++
      (encode 4 (logRecordChecksum (sealed (recordHead (encodeLogUpdate update).length update.entries.length update.fromIndex))
        (update.entries.flatMap encodeEntry)) ++ update.entries.flatMap encodeEntry) := by
    rw [record_length]
    exact List.append_assoc ..
  have place : ∀ {size count fromIndex}, (sealed (recordHead size count fromIndex)).length = 28 := by simp [recordHead_length]
  generalize (encodeLogUpdate update).length = size at split length least large
  rw [split] at changed
  rcases changed.append with ⟨first,inner,rfl⟩ | ⟨second,inner,rfl⟩
  · have front := inner.length.trans place
    rw [List.append_assoc,field_front _ _ (by omega),List.take_append_of_le_length (by omega)] at headed
    exact sealed_changed inner (recordHead_length ..) headed
  · have same : field (sealed (recordHead size update.entries.length update.fromIndex) ++ second ++ rest) 8 4 = size := by
      simp only [recordHead,sealed,List.append_assoc]
      simp (disch := omega) only [BigEndian.field_skip_encode,BigEndian.field_encode,Nat.reduceSub]
      exact Nat.mod_eq_of_lt (Nat.lt_of_le_of_lt large (by decide))
    rw [same] at replayed
    rw [if_neg (by omega),if_neg (by omega),List.take_left' length] at replayed
    obtain ⟨decoded,read,-⟩ := bind_ok.mp replayed
    exact logUpdate_changed place inner read

theorem replayRecords_changed {updates : List PersistLog} (fits : ∀ update ∈ updates, UpdateFits update)
    (changed : Changed (updates.flatMap encodeLogUpdate) other) : replayRecords state other ≠ .ok result := by
  induction updates generalizing state other with
  | nil => exact absurd changed OneChange.not_changed_nil
  | cons update updates ih =>
    have mine := fits update List.mem_cons_self
    rcases changed.append with ⟨first,inner,rfl⟩ | ⟨second,inner,rfl⟩
    · exact replayRecords_record_changed mine inner
    · intro replayed
      rw [replayRecords_record mine] at replayed
      obtain ⟨after,-,replayed⟩ := bind_ok.mp replayed
      exact ih (fun update member => fits update (List.mem_cons_of_mem _ member)) inner replayed

theorem recoverLog_changed (fits : ∀ update ∈ updates, UpdateFits update) (changed : Changed (journalFile owner base updates) other) :
    recoverLog owner state other ≠ .ok result := by
  intro recovered
  unfold recoverLog at recovered
  split at recovered
  · cases recovered
  obtain ⟨required,verified,recovered⟩ := bind_ok.mp recovered
  rcases changed.append with ⟨header,inner,rfl⟩ | ⟨records,inner,rfl⟩
  · rw [List.take_left' (inner.length.trans (encodeLogHeader_length owner base))] at verified
    exact logHeader_changed inner verified
  · split at recovered
    · cases recovered
    obtain ⟨replayed,ran,-⟩ := bind_ok.mp recovered
    exact replayRecords_changed fits inner ran

end files

-- Files that were written by a store, whatever they are about.
structure Intact (owner : Owner) (files : Files) : Prop where
  identity : files .identity = some (encodeIdentity owner)
  hardA : ∃ record, files .hardA = some (encodeHardState owner record)
  hardB : ∃ record, files .hardB = some (encodeHardState owner record)
  snapshot : ∀ bytes, files .snapshot = some bytes → ∃ snapshot, bytes = encodeSnapshot owner snapshot
  journal : ∃ base updates, files .journal = some (journalFile owner base updates) ∧ ∀ update ∈ updates, UpdateFits update

section intact
variable {owner : Owner} {files : Files} {name : FileName} {bytes other : Bytes}

theorem HardFiles.slots (hard : HardFiles owner files newest) :
    (∃ record, files .hardA = some (encodeHardState owner record)) ∧ ∃ record, files .hardB = some (encodeHardState owner record) := by
  obtain ⟨-,newer,older,step,-,olderFile⟩ := hard
  unfold hardSlot at newer olderFile
  by_cases odd : newest.generation % 2 = 1
  · rw [if_pos odd] at newer
    rw [if_neg (by omega)] at olderFile
    exact ⟨⟨_,newer⟩,_,olderFile⟩
  · rw [if_neg odd] at newer
    rw [if_pos (by omega)] at olderFile
    exact ⟨⟨_,olderFile⟩,_,newer⟩

theorem Image.intact (image : Image owner files generation state []) : Intact owner files := by
  obtain ⟨identity,hard,snapshot,⟨updates,present,fits,-⟩,-⟩ := image
  obtain ⟨a,b⟩ := hard.slots
  refine ⟨identity,a,b,?_,_,updates,present.trans (by rw [List.append_nil]),fits⟩
  intro bytes found
  obtain ⟨taken,-,same⟩ := Option.map_eq_some_iff.mp (snapshot.symm.trans found)
  exact ⟨taken,same.symm⟩

theorem Intact.appended (intact : Intact owner files) (fits : UpdateFits update) :
    Intact owner (files.run [.append .journal (encodeLogUpdate update)]) := by
  obtain ⟨identity,⟨recordA,slotA⟩,⟨recordB,slotB⟩,snapshot,base,updates,journal,others⟩ := intact
  have kept : ∀ file, file ≠ .journal → files.run [.append .journal (encodeLogUpdate update)] file = files file :=
    fun file different => CrashDisk.append_other different
  refine ⟨(kept _ (by decide)).trans identity,⟨recordA,(kept _ (by decide)).trans slotA⟩,⟨recordB,(kept _ (by decide)).trans slotB⟩,
    fun bytes found => snapshot bytes ((kept _ (by decide)).symm.trans found),base,updates ++ [update],?_,?_⟩
  · rw [CrashDisk.run_cons,CrashDisk.run_nil,CrashDisk.append_same,journal]
    simp [journalFile]
  · intro other member
    rcases List.mem_append.mp member with member | member
    · exact others other member
    · rwa [List.mem_singleton.mp member]

theorem createBaselines_present (a : files .hardA ≠ none) (b : files .hardB ≠ none) :
    (files.run (createFirst owner files)).run (createSecond owner (files.run (createFirst owner files))) = files := by
  rw [createFirst_present a,CrashDisk.run_nil,createSecond_present b,CrashDisk.run_nil]

theorem selectHard_reads (chosen : selectHard owner files = .ok record) :
    (∀ bytes, files .hardA = some bytes → decodeHardState owner bytes ≠ none) ∧
    ∀ bytes, files .hardB = some bytes → decodeHardState owner bytes ≠ none := by
  unfold selectHard readHardSlot at chosen
  constructor
  · intro bytes found unread
    simp [found,unread] at chosen
  · intro bytes found unread
    split at chosen <;> first | cases chosen | simp_all

theorem Intact.detects (intact : Intact owner files) (present : files name = some bytes) (changed : Changed bytes other) :
    openStore owner (Function.update files name (some other)) ≠ .ok (store,effects) := by
  intro done
  obtain ⟨identity,⟨recordA,slotA⟩,⟨recordB,slotB⟩,snapshot,base,updates,journal,fits⟩ := intact
  have there : ∀ file, files file ≠ none → Function.update files name (some other) file ≠ none := by
    intro file found
    by_cases same : file = name
    · rw [same,Function.update_self]
      exact nofun
    · rwa [Function.update_of_ne same]
  obtain ⟨ready,selected,loaded,third,state,cut,artifacts,baselines,chosen,read,made,recovered,-,-⟩ := openStore_parts done
  rw [createBaselines_present (there _ (by simp [slotA])) (there _ (by simp [slotB]))] at baselines
  subst baselines
  cases name with
  | identity =>
    cases identity.symm.trans present
    obtain ⟨⟨⟩,verified,-⟩ := bind_ok.mp artifacts
    exact identity_changed changed verified
  | hardA =>
    cases slotA.symm.trans present
    exact (selectHard_reads chosen).1 other (Function.update_self ..) (hardState_changed changed)
  | hardB =>
    cases slotB.symm.trans present
    exact (selectHard_reads chosen).2 other (Function.update_self ..) (hardState_changed changed)
  | snapshot =>
    obtain ⟨taken,rfl⟩ := snapshot bytes present
    obtain ⟨found,contents,-⟩ := bind_ok.mp read
    exact snapshot_changed changed contents
  | journal =>
    cases journal.symm.trans present
    cases made
    exact recoverLog_changed fits changed recovered

end intact

-- What a store leaves behind: the files of a history, or of one whose last update of
-- the log was written but not synced.
inductive Written (owner : Owner) : Files → Prop where
  | idle : Reached owner files store → Written owner files
  | prepared : Reached owner files store → store.prepareLog update = .ok (after,effects) → update.Fits →
      Written owner (files.run effects)

theorem Written.intact (mine : owner.Valid) (written : Written owner files) : Intact owner files := by
  cases written with
  | idle reached =>
    obtain ⟨generation,state,-,image⟩ := reached.image mine
    exact image.intact
  | prepared reached done fits =>
    obtain ⟨generation,state,rfl,image⟩ := reached.image mine
    obtain ⟨_,-,done⟩ := bind_ok.mp done
    obtain ⟨next,applied,done⟩ := bind_ok.mp done
    obtain ⟨admits,-⟩ := applyLogUpdate_iff.mp applied
    cases done
    exact image.intact.appended (admits.fits fits)

-- A changed byte at any place of any file of a store is found by the next open.
theorem corruption_never_silent (mine : owner.Valid) (written : Written owner files) (present : files name = some bytes)
    (changed : Changed bytes other) : ∃ error, openStore owner (Function.update files name (some other)) = .error error := by
  cases opens : openStore owner (Function.update files name (some other)) with
  | error error => exact ⟨error,rfl⟩
  | ok => exact absurd opens ((written.intact mine).detects present changed)

theorem corruption_never_silent_identity : ∃ files bytes other, Written sampleOwner files ∧ files .identity = some bytes ∧
    Changed bytes other ∧ ∃ error, openStore sampleOwner (Function.update files .identity (some other)) = .error error := by
  obtain ⟨generation,state,-,image⟩ := sample_reached.image sampleOwner_valid
  have changed : Changed (encodeIdentity sampleOwner) (0::(encodeIdentity sampleOwner).tail) :=
    ⟨[],0x46,0,(encodeIdentity sampleOwner).tail,by decide,rfl,rfl⟩
  exact ⟨_,_,_,.idle sample_reached,image.identity,changed,
    corruption_never_silent sampleOwner_valid (.idle sample_reached) image.identity changed⟩

end ForgeKv.RaftStorage
