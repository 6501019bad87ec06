import ForgeKv.Library.Procedure
import ForgeKv.Raft.Node

namespace ForgeKv.Raft
open Assoc

-- Consecutive indexes from `base` on.
def Numbered (base : Nat) (entries : List LogEntry) : Prop :=
  ∀ (position : Nat) (entry : LogEntry), entries[position]? = some entry → entry.index = base+position

theorem Numbered.take (numbered : Numbered base entries) (count : Nat) : Numbered base (entries.take count) := by
  intro position entry found
  rw [List.getElem?_take] at found
  split at found
  · exact numbered position entry found
  · cases found

theorem Numbered.drop (numbered : Numbered base entries) (count : Nat) : Numbered (base+count) (entries.drop count) := by
  intro position entry found
  rw [List.getElem?_drop] at found
  have := numbered _ _ found
  omega

theorem Numbered.append (left : Numbered base entries) (right : Numbered (base+entries.length) more) :
    Numbered base (entries ++ more) := by
  intro position entry found
  rw [List.getElem?_append] at found
  split at found
  · exact left position entry found
  · have := right _ _ found
    omega

theorem Numbered.cons (first : entry.index = base) (rest : Numbered (base+1) entries) : Numbered base (entry::entries) := by
  intro position found got
  cases position with
  | zero =>
    simp only [List.getElem?_cons_zero,Option.some.injEq] at got
    subst got
    exact first
  | succ =>
    have := rest _ _ got
    omega

theorem Numbered.nil : Numbered base [] := by
  intro position entry found
  simp at found

theorem Numbered.tail (numbered : Numbered base (entry::entries)) : Numbered (base+1) entries := numbered.drop 1

-- The entry that stands for everything a snapshot covers.
def boundary : Option StateMachineSnapshot → LogEntry
  | none => ⟨0,0,.noOp,[]⟩
  | some snapshot => RaftNode.sentinel snapshot

structure LogOk (currentTerm : Nat) (snapshot : Option StateMachineSnapshot) (log : List LogEntry) : Prop where
  front : ∃ rest, log = boundary snapshot::rest
  image : ∀ state, snapshot = some state → 0 < state.lastIncludedIndex ∧ 0 < state.lastIncludedTerm
  numbered : Numbered (boundary snapshot).index log
  sorted : log.Pairwise (fun earlier later => earlier.term ≤ later.term)
  bounded : ∀ entry ∈ log, entry.term ≤ currentTerm
  positive : ∀ entry ∈ log.tail, 0 < entry.term

structure ProgressOk (lastIndex : Nat) (snapshot : Option StateMachineSnapshot) (nextRpcId : Nat)
    (progress : PeerProgress) : Prop where
  matched : progress.matchIndex < progress.nextIndex
  next : progress.nextIndex ≤ lastIndex+1
  newest : progress.newestRpcLastIndex ≤ lastIndex
  issued : progress.newestRpcId < nextRpcId
  tracked : progress.recentRpcs.length ≤ maximumTrackedRpcsPerPeer
  ranges : ∀ rpc ∈ progress.recentRpcs, 0 < rpc.rpcId ∧ rpc.rpcId ≤ progress.newestRpcId ∧ rpc.lastIndex ≤ lastIndex
  image : progress.snapshotIndex ≠ 0 → ∃ state, snapshot = some state ∧
    progress.snapshotIndex = state.lastIncludedIndex ∧ progress.snapshotOffset ≤ state.stateMachine.length
  trackedChunks : progress.recentSnapshotRpcs.length ≤ maximumTrackedRpcsPerPeer
  chunks : ∀ rpc ∈ progress.recentSnapshotRpcs, 0 < rpc.rpcId ∧ rpc.rpcId ≤ progress.newestRpcId ∧
    rpc.snapshotIndex = progress.snapshotIndex ∧ rpc.offset ≤ rpc.stop ∧
    ∃ state, snapshot = some state ∧ rpc.stop ≤ state.stateMachine.length

-- What holds of a node between any two statements of its calls.
structure Sound (node : RaftNode) : Prop where
  config : validateConfig node.config = .ok ()
  log : LogOk node.currentTerm node.durableSnapshot node.log
  applied : node.lastApplied = node.commitIndex
  retained : node.baseIndex ≤ node.commitIndex
  reached : node.commitIndex ≤ node.lastLogIndex
  vote : ∀ candidate, node.votedFor = some candidate → candidate ∈ node.config.voters ∧ 0 < node.currentTerm
  leader : ∀ leader, node.leaderId = some leader → leader ∈ node.config.voters
  candidate : node.role = .candidate → node.votedFor = some node.config.selfId
  idle : node.role ≠ .leader → node.peerProgress = []
  leads : node.role = .leader → 0 < node.currentTerm ∧ node.leaderId = some node.config.selfId ∧
    keys node.peerProgress = node.config.voters.filter (fun voter => voter ≠ node.config.selfId)
  rpcs : 0 < node.nextRpcId
  progress : ∀ peer progress, (peer,progress) ∈ node.peerProgress →
    ProgressOk node.lastLogIndex node.durableSnapshot node.nextRpcId progress

structure ConfigOk (config : RaftConfig) : Prop where
  size : config.voters ≠ []
  unique : config.voters.Nodup
  member : config.selfId ∈ config.voters
  batch : config.maxAppendEntries ≠ 0

theorem validateConfig_ok (valid : validateConfig config = .ok ()) : ConfigOk config := by
  simp only [validateConfig,ite_ok] at valid
  obtain ⟨size,unique,member,-,-,batch,-⟩ := valid
  exact ⟨fun empty => size (.inl empty),by simpa using fun repeated => unique (.inr repeated),by simpa using member,
    fun zero => batch (.inl zero)⟩

theorem validateConfig_nonzero (valid : validateConfig config = .ok ()) : 0 ∉ config.voters := by
  simp only [validateConfig,ite_ok] at valid
  exact fun zero => valid.2.1 (.inl zero)

section log
variable (ok : LogOk currentTerm snapshot log)
include ok

theorem LogOk.nonempty : log ≠ [] := by
  obtain ⟨-,rfl⟩ := ok.front
  simp

theorem LogOk.head : log.headD fallback = boundary snapshot := by
  obtain ⟨-,rfl⟩ := ok.front
  rfl

theorem LogOk.getLast (fallback : LogEntry) : ∃ entry, log[log.length-1]? = some entry ∧ log.getLastD fallback = entry := by
  obtain ⟨rest,rfl⟩ := ok.front
  refine ⟨(boundary snapshot::rest).getLastD fallback,?_,rfl⟩
  rw [List.getLastD_eq_getLast?,← List.getLast?_eq_getElem?]
  cases got : (boundary snapshot::rest).getLast? with
  | none => simp at got
  | some => rfl

theorem LogOk.last_index (fallback : LogEntry) : (log.getLastD fallback).index+1 = (boundary snapshot).index+log.length := by
  obtain ⟨entry,found,equal⟩ := ok.getLast fallback
  have size := List.length_pos_of_ne_nil ok.nonempty
  rw [equal,ok.numbered _ _ found]
  omega

theorem LogOk.get (low : (boundary snapshot).index ≤ index) (high : index ≤ (log.getLastD fallback).index) :
    ∃ entry, log[index-(boundary snapshot).index]? = some entry ∧ entry.index = index := by
  have last := ok.last_index fallback
  have bound : index-(boundary snapshot).index < log.length := by omega
  refine ⟨log[index-(boundary snapshot).index],List.getElem?_eq_getElem bound,?_⟩
  have := ok.numbered _ _ (List.getElem?_eq_getElem bound)
  omega

theorem LogOk.get_real (found : log[position]? = some entry) (real : 0 < position) : entry ∈ log.tail := by
  obtain ⟨rest,rfl⟩ := ok.front
  obtain ⟨position,rfl⟩ := Nat.exists_eq_succ_of_ne_zero (Nat.ne_of_gt real)
  exact List.mem_of_getElem? found

end log

theorem LogOk.entryAt {node : RaftNode} (ok : LogOk term snapshot node.log) (low : node.baseIndex ≤ index)
    (high : index ≤ node.lastLogIndex) :
    ∃ entry, node.entryAt index = .ok entry ∧ node.log[index-node.baseIndex]? = some entry ∧ entry.index = index := by
  have base : node.baseIndex = (boundary snapshot).index := by
    unfold RaftNode.baseIndex RaftNode.frontEntry
    rw [ok.head]
  obtain ⟨entry,found,same⟩ := ok.get (base ▸ low) high
  rw [← base] at found
  refine ⟨entry,?_,found,same⟩
  unfold RaftNode.entryAt
  rw [if_neg (by omega),found]

namespace Sound
variable {node : RaftNode} (sound : Sound node)
include sound

theorem base : node.baseIndex = (boundary node.durableSnapshot).index := by
  unfold RaftNode.baseIndex RaftNode.frontEntry
  rw [sound.log.head]

theorem last : node.lastLogIndex+1 = node.baseIndex+node.log.length := by
  rw [sound.base]
  exact sound.log.last_index _

theorem base_le_last : node.baseIndex ≤ node.lastLogIndex := Nat.le_trans sound.retained sound.reached

theorem get (low : node.baseIndex ≤ index) (high : index ≤ node.lastLogIndex) :
    ∃ entry, node.log[index-node.baseIndex]? = some entry ∧ entry.index = index := by
  rw [sound.base] at low ⊢
  exact sound.log.get low high

theorem entryAt (low : node.baseIndex ≤ index) (high : index ≤ node.lastLogIndex) :
    ∃ entry, node.entryAt index = .ok entry ∧ node.log[index-node.baseIndex]? = some entry ∧ entry.index = index :=
  sound.log.entryAt low high

theorem lastEntry : node.log[node.log.length-1]? = some node.lastEntry := by
  obtain ⟨entry,found,equal⟩ := sound.log.getLast ⟨0,0,.noOp,[]⟩
  unfold RaftNode.lastEntry
  rw [equal]
  exact found

theorem index_of (found : node.log[position]? = some entry) : entry.index = node.baseIndex+position := by
  rw [sound.base]
  exact sound.log.numbered _ _ found

theorem boundary_at_base : node.log[0]? = some (boundary node.durableSnapshot) := by
  obtain ⟨rest,equal⟩ := sound.log.front
  rw [equal]
  rfl

theorem configOk : ConfigOk node.config := validateConfig_ok sound.config

theorem progress_get (found : get? node.peerProgress peer = some known) :
    ProgressOk node.lastLogIndex node.durableSnapshot node.nextRpcId known :=
  sound.progress _ _ (mem_of_get? found)

theorem leads_get (leads : node.role = .leader) (member : peer ∈ node.config.voters) (other : peer ≠ node.config.selfId) :
    ∃ known, get? node.peerProgress peer = some known := by
  apply get?_isSome
  rw [(sound.leads leads).2.2]
  simp [member,other]

end Sound

theorem LogOk.raise (ok : LogOk term snapshot log) (higher : term ≤ later) : LogOk later snapshot log :=
  {ok with bounded := fun entry member => Nat.le_trans (ok.bounded entry member) higher}

theorem ProgressOk.extend (ok : ProgressOk lastIndex snapshot nextRpcId progress) (longer : lastIndex ≤ newLast)
    (later : nextRpcId ≤ newRpcId) : ProgressOk newLast snapshot newRpcId progress where
  next := Nat.le_trans ok.next (Nat.succ_le_succ longer)
  newest := Nat.le_trans ok.newest longer
  issued := Nat.lt_of_lt_of_le ok.issued later
  ranges := by
    intro rpc member
    obtain ⟨positive,issued,bounded⟩ := ok.ranges rpc member
    exact ⟨positive,issued,Nat.le_trans bounded longer⟩
  __ := ok

theorem verifyLog_true (numbered : Numbered (node.baseIndex+position) rest)
    (sorted : (previous::rest).Pairwise (fun earlier later => earlier.term ≤ later.term))
    (bounded : ∀ entry ∈ rest, entry.term ≤ node.currentTerm) : RaftNode.verifyLog node position previous rest = true := by
  induction rest generalizing position previous with
  | nil => rfl
  | cons current rest ih =>
    have first : current.index = node.baseIndex+position := numbered 0 current rfl
    have ordered := List.pairwise_cons.mp sorted
    have follows : Numbered (node.baseIndex+(position+1)) rest := numbered.tail
    have later := ih follows ordered.2 (fun entry member => bounded entry (List.mem_cons_of_mem _ member))
    simp [RaftNode.verifyLog,first,later,ordered.1 current List.mem_cons_self,bounded current List.mem_cons_self]

section
variable (sound : Sound node) (leads : node.role = .leader)
include sound leads

theorem verifyProgress_ok (member : (peer,progress) ∈ node.peerProgress) : node.verifyProgress peer progress = .ok () := by
  have ok := sound.progress _ _ member
  have key : peer ∈ keys node.peerProgress := List.mem_map_of_mem member
  rw [(sound.leads leads).2.2] at key
  simp only [List.mem_filter,decide_eq_true_eq] at key
  have voter : node.isVoter peer = true := by simpa [RaftNode.isVoter] using key.1
  have sized : ∀ state, node.durableSnapshot = some state →
      (node.durableSnapshot.map (fun snapshot => snapshot.stateMachine.length)).getD 0 = state.stateMachine.length := by
    intro state equal
    rw [equal]
    rfl
  unfold RaftNode.verifyProgress
  have matched := ok.matched
  have next := ok.next
  rw [if_neg (by
    have newest := ok.newest
    have tracked := ok.tracked
    simp only [key.2,voter,not_true_eq_false,false_or,not_or,Nat.not_lt]
    omega)]
  rw [if_neg (by
    rintro ⟨active,wrong⟩
    obtain ⟨state,equal,same,bounded⟩ := ok.image active
    rw [sized state equal] at wrong
    simp only [equal,Option.isNone_some,Option.map_some,same,ne_eq,not_true_eq_false,false_or,Bool.false_eq_true] at wrong
    omega)]
  rw [if_neg (Nat.not_lt.mpr ok.trackedChunks)]
  rw [if_neg (by
    simp only [List.any_eq_true,not_exists,not_and,decide_eq_true_eq]
    intro rpc present wrong
    obtain ⟨positive,issued,same,ordered,state,equal,bounded⟩ := ok.chunks rpc present
    rw [sized state equal] at wrong
    simp only [equal,Option.isNone_some,same,ne_eq,not_true_eq_false,false_or,Bool.false_eq_true] at wrong
    omega)]
  rw [if_neg (by
    simp only [List.any_eq_true,not_exists,not_and,decide_eq_true_eq]
    intro rpc present wrong
    have := ok.ranges rpc present
    omega)]

theorem verifyAllProgress_ok (members : ∀ peer progress, (peer,progress) ∈ rest → (peer,progress) ∈ node.peerProgress) :
    node.verifyAllProgress rest = .ok () := by
  induction rest with
  | nil => rfl
  | cons binding rest ih =>
    unfold RaftNode.verifyAllProgress
    rw [verifyProgress_ok sound leads (members _ _ List.mem_cons_self)]
    exact ih (fun peer progress member => members _ _ (List.mem_cons_of_mem _ member))

theorem keys_length :
    node.peerProgress.length+1 = node.config.voters.length := by
  have config := sound.configOk
  have same : node.peerProgress.length = (keys node.peerProgress).length := by simp [keys]
  rw [same,(sound.leads leads).2.2]
  have erased : node.config.voters.filter (fun voter => voter ≠ node.config.selfId) =
      node.config.voters.erase node.config.selfId := by
    rw [List.Nodup.erase_eq_filter config.unique]
    congr 1
    funext voter
    by_cases own : voter = node.config.selfId <;> simp [own]
  have positive := List.length_pos_of_ne_nil config.size
  rw [erased,List.length_erase_of_mem config.member]
  omega

end

theorem checkInvariants_ok (sound : Sound node) : node.checkInvariants = .ok () := by
  obtain ⟨rest,shape⟩ := sound.log.front
  have front : node.frontEntry = boundary node.durableSnapshot := sound.log.head
  unfold RaftNode.checkInvariants
  rw [if_neg (by
    rw [front,shape]
    cases image : node.durableSnapshot with
    | none => simp [boundary]
    | some state =>
      have marked := sound.log.image state image
      simp [boundary,RaftNode.sentinel,Nat.ne_of_gt marked.1,Nat.ne_of_gt marked.2])]
  rw [if_neg (by
    rw [front]
    cases image : node.durableSnapshot with
    | none => simp
    | some => simp [boundary,RaftNode.sentinel])]
  rw [if_neg (by
    have tail : node.log.tail = rest := by rw [shape]; rfl
    have numbered := sound.log.numbered
    have sorted := sound.log.sorted
    rw [shape] at numbered sorted
    rw [front,tail]
    simp only [not_not]
    refine verifyLog_true ?_ sorted (fun entry member => sound.log.bounded entry ?_)
    · rw [sound.base]; exact numbered.tail
    · rw [shape]; exact List.mem_cons_of_mem _ member)]
  rw [if_neg (by
    have retained := sound.retained
    have reached := sound.reached
    have applied := sound.applied
    omega)]
  rw [if_neg (by
    cases voted : node.votedFor with
    | none => simp
    | some candidate => simp [RaftNode.isVoter,(sound.vote candidate voted).1])]
  rw [if_neg (by
    cases led : node.leaderId with
    | none => simp
    | some leader => simp [RaftNode.isVoter,sound.leader leader led])]
  rw [if_neg (fun wrong => wrong.2 (sound.candidate wrong.1))]
  by_cases leads : node.role = .leader
  · rw [if_neg (fun other => other leads),if_neg (by
      have identity := (sound.leads leads).2.1
      have size := keys_length sound leads
      simp [identity,size])]
    exact verifyAllProgress_ok sound leads (fun _ _ member => member)
  · rw [if_pos leads,if_neg (by simp [sound.idle leads])]

end ForgeKv.Raft
