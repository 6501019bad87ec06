import ForgeKv.Cluster.PeerRoundTrip
import ForgeKv.Protocol.Parsing
import ForgeKv.Raft.Incarnation

namespace ForgeKv.Cluster
open Raft
open Assoc (get?)
open Protocol
open Protocol.Parser
open RaftNode (takeBatch)
open RaftStorage

-- The batch limits that types.h sets.
structure DefaultLimits (config : RaftConfig) : Prop where
  entries : config.maxAppendEntries = 4096
  bytes : config.maxAppendBytes = 1049768

-- An entry within the limits of the store.
structure Loggable (entry : LogEntry) : Prop where
  command : entry.command.length ≤ maxRaftCommandSize
  noOp : entry.kind = .noOp → entry.command = []

-- Calls with messages that came from encode_peer_frame and with proposals within the limit.
def Honest : Input → Prop
  | .step source message => ∃ envelope requestId frame, encodePeerFrame envelope requestId = .ok frame ∧
      envelope.source = source ∧ envelope.message = message
  | .propose command => command.length ≤ maxRaftCommandSize
  | _ => True

-- The life of one node object under such calls, with all the actions returned so far.
inductive Serves : RaftNode → Actions → RaftNode → Prop where
  | nil : Serves node [] node
  | returned (earlier : Serves start emitted node) (honest : Honest input)
      (ran : node.call input = .ok (after,actions)) : Serves start (emitted ++ actions) after
  | threw (earlier : Serves start emitted node) (honest : Honest input)
      (ran : node.call input = .error thrown) : Serves start emitted thrown.node

section batch
variable {config : RaftConfig} {entries : List LogEntry}

-- The batch loop. The first entry is taken whatever its size, and fits all the same.
theorem takeBatch_limits (small : ∀ entry ∈ entries, entryBytes entry ≤ config.maxAppendBytes)
    (room : encoded ≤ config.maxAppendBytes) (begun : count = 0 → encoded = 0) :
    (takeBatch config count encoded entries).length ≤ config.maxAppendEntries-count ∧
      encoded+((takeBatch config count encoded entries).map entryBytes).sum ≤ config.maxAppendBytes := by
  induction entries generalizing count encoded with
  | nil => simp [takeBatch,room]
  | cons entry rest ih =>
    unfold takeBatch
    split
    · simp [room]
    split
    · simp [room]
    rename_i fits
    have own := small entry List.mem_cons_self
    have grown : encoded+entryBytes entry ≤ config.maxAppendBytes := by
      by_cases first : count = 0
      · rw [begun first,Nat.zero_add]
        exact own
      · simp only [first,ne_eq,not_false_eq_true,true_and,not_or,Nat.not_le,Nat.not_lt] at fits
        unfold entryBytes entryHeaderSize
        omega
    have later : (takeBatch config (count+1) (encoded+entryBytes entry) rest).length ≤ config.maxAppendEntries-(count+1) ∧ _ :=
      ih (fun other member => small other (List.mem_cons_of_mem _ member)) grown nofun
    rw [List.length_cons,List.map_cons,List.sum_cons]
    unfold entryBytes entryHeaderSize at later ⊢
    omega

end batch

-- What one node keeps: entries within the limits, and messages that can be sent.
structure Wired (node : RaftNode) : Prop where
  entries : ∀ entry ∈ node.log, Loggable entry
  sent : ∀ target message, .sendMessage target message ∈ node.actions → target ≠ 0 ∧ Sends message

section moves
variable {node after : RaftNode} {packet : Option (NodeId × Message)} {offer : Option Offer}

theorem Wired.keep (wired : Wired node) (log : ∀ entry ∈ after.log, entry ∈ node.log ∨ Loggable entry)
    (actions : after.actions = node.actions ++ new)
    (sent : ∀ target message, .sendMessage target message ∈ new → target ≠ 0 ∧ Sends message) : Wired after := by
  refine ⟨fun entry member => (log entry member).elim (wired.entries entry) id,?_⟩
  intro target message member
  rw [actions] at member
  exact (List.mem_append.mp member).elim (wired.sent target message) (sent target message)

theorem Wired.silent (wired : Wired node) (log : after.log = node.log) (actions : after.actions = node.actions ++ new)
    (plain : ∀ target message, .sendMessage target message ∉ new) : Wired after :=
  wired.keep (fun _ member => .inl (log ▸ member)) actions fun target message member => absurd member (plain target message)

theorem Wired.sends (wired : Wired node) (log : after.log = node.log)
    (actions : after.actions = node.actions ++ [.sendMessage peer message]) (real : peer ≠ 0) (fits : Sends message) : Wired after := by
  refine wired.keep (fun entry member => .inl (log ▸ member)) actions ?_
  intro target other member
  cases List.mem_singleton.mp member
  exact ⟨real,fits⟩

theorem voter_nonzero (sound : Sound node) (voter : peer ∈ node.config.voters) : peer ≠ 0 := by
  rintro rfl
  exact validateConfig_nonzero sound.config voter

theorem peer_nonzero (sound : Sound node) (leads : node.role = .leader) (found : get? node.peerProgress peer = some progress) :
    peer ≠ 0 := by
  have member : peer ∈ Assoc.keys node.peerProgress := List.mem_map_of_mem (Assoc.mem_of_get? found)
  rw [(sound.leads leads).2.2] at member
  exact voter_nonzero sound (List.mem_filter.mp member).1

theorem entry_index_pos (sound : Sound node) (member : entry ∈ node.log.tail) : 0 < entry.index := by
  rw [← List.drop_one] at member
  obtain ⟨position,found⟩ := List.mem_iff_getElem?.mp member
  rw [List.getElem?_drop] at found
  have index := sound.index_of found
  omega

theorem becomeFollower_wired (wired : Wired node) : Wired (node.becomeFollower term leader) := by
  obtain ⟨new,emitted,told⟩ := becomeFollower_tells
  exact wired.silent rfl emitted fun target message member => by cases told _ member

theorem campaign_wired (sound : Sound node) (wired : Wired node) : Wired node.campaign := by
  obtain ⟨new,emitted,told⟩ := campaign_tells
  refine wired.keep (fun _ member => .inl member) emitted fun target message member => ?_
  cases told _ member with
  | asks voter => exact ⟨voter_nonzero sound voter,trivial⟩

theorem suffix_wired (sound : Sound node) (limits : DefaultLimits node.config) (wired : Wired node) (leads : node.role = .leader)
    (found : get? node.peerProgress peer = some stored) (kept : node.baseIndex < progress.nextIndex) :
    Wired (node.pushLogSuffix peer progress previousTerm) := by
  refine wired.sends rfl rfl (peer_nonzero sound leads found) ?_
  have behind : ∀ entry ∈ node.log.drop (progress.nextIndex-node.baseIndex), entry ∈ node.log.tail := by
    intro entry member
    rw [show progress.nextIndex-node.baseIndex = 1+(progress.nextIndex-node.baseIndex-1) by omega,← List.drop_drop] at member
    rw [← List.drop_one]
    exact List.mem_of_mem_drop member
  have small : ∀ entry ∈ node.log.drop (progress.nextIndex-node.baseIndex), entryBytes entry ≤ node.config.maxAppendBytes := by
    intro entry member
    have command := (wired.entries entry (List.mem_of_mem_drop member)).command
    rw [limits.bytes]
    unfold maxRaftCommandSize at command
    unfold entryBytes entryHeaderSize
    omega
  obtain ⟨count,bytes⟩ := takeBatch_limits small (Nat.zero_le _) fun _ => rfl
  rw [limits.entries] at count
  rw [limits.bytes] at bytes
  refine ⟨Nat.ne_of_gt sound.rpcs,count,?_,?_⟩
  · intro entry member
    obtain ⟨size,cut⟩ := takeBatch_take node.config 0 0 (node.log.drop (progress.nextIndex-node.baseIndex))
    rw [cut] at member
    have there := behind entry (List.mem_of_mem_take member)
    obtain ⟨command,noOp⟩ := wired.entries entry (List.mem_of_mem_tail there)
    exact ⟨Nat.ne_of_gt (entry_index_pos sound there),Nat.ne_of_gt (sound.log.positive entry there),command,noOp⟩
  · have exact : peerCommonSize+56+1049768 = maxPayloadSize := by decide
    dsimp only
    omega

theorem chunk_wired (sound : Sound node) (wired : Wired node) (leads : node.role = .leader)
    (found : get? node.peerProgress peer = some stored) (image : node.durableSnapshot = some snapshot) :
    Wired (node.sendSnapshotChunk peer progress snapshot) := by
  refine wired.sends rfl rfl (peer_nonzero sound leads found) ?_
  obtain ⟨index,term⟩ := sound.log.image snapshot image
  have positive := (sound.leads leads).1
  have self := voter_nonzero sound sound.configOk.member
  have offset := (@align_index progress snapshot).2
  refine ⟨Nat.ne_of_gt sound.rpcs,Nat.ne_of_gt positive,self,Nat.ne_of_gt index,Nat.ne_of_gt term,?_,?_,?_⟩
  · simp only [List.length_take,List.length_drop]
    omega
  · simp only [List.length_take,List.length_drop]
    rw [Bool.eq_iff_iff,beq_iff_eq,decide_eq_true_iff]
    omega
  · have room : peerCommonSize+64+snapshotChunkSize ≤ maxPayloadSize := by decide
    simp only [List.length_take,List.length_drop]
    omega

theorem sentinel_loggable : Loggable (RaftNode.sentinel image) := ⟨Nat.zero_le _,fun _ => rfl⟩

theorem applied_unsent (entries : List LogEntry) (target : NodeId) (message : Message) :
    .sendMessage target message ∉ Action.commitAdvanced previous index::entries.map .applyEntry := by
  simp

section
variable (sound : Sound node) (limits : DefaultLimits node.config) (delivered : ∀ source message, packet = some (source,message) → source ≠ 0 ∧ Sends message) (offered : ∀ command, offer = some (.command command) → command.length ≤ maxRaftCommandSize) (wired : Wired node)
include sound limits delivered offered wired

theorem move_wired (move : Move packet offer node after) : Wired after := by
  cases move with
  | raise | stepDown => exact becomeFollower_wired wired
  | campaign => exact campaign_wired sound wired
  | grant | elect => exact wired.silent rfl rfl (by simp)
  | append leads kind command content =>
    refine wired.keep (fun entry member => ?_) rfl (by simp)
    refine (List.mem_append.mp member).imp_right fun new => ?_
    cases List.mem_singleton.mp new
    rcases content with ⟨rfl,rfl⟩ | ⟨rfl,asked⟩
    · exact ⟨Nat.zero_le _,fun _ => rfl⟩
    · exact ⟨offered command asked,nofun⟩
  | commit | learn => exact wired.silent rfl rfl (applied_unsent _)
  | sendSuffix tracks kept => exact suffix_wired sound limits wired tracks.leads tracks.found kept
  | sendChunk tracks image => exact chunk_wired sound wired tracks.leads tracks.found image
  | replace arrived joins =>
    refine wired.keep (fun other member => ?_) rfl (by simp)
    have incoming := (delivered _ _ arrived).2.2.2.1
    refine (List.mem_append.mp member).imp List.mem_of_mem_take fun new => ?_
    obtain ⟨-,-,command,noOp⟩ := incoming other (joins.split ▸ List.mem_append_right _ new)
    exact ⟨command,noOp⟩
  | answerVote arrived | refuseEntries arrived | acceptEntries arrived | refuseChunk arrived | acceptChunk arrived => exact wired.sends rfl rfl (delivered _ _ arrived).1 trivial
  | install arrived installs =>
    refine wired.keep (fun other member => ?_) (List.append_assoc ..) (by simp)
    rcases List.mem_cons.mp member with rfl | kept
    · exact .inr sentinel_loggable
    · rcases installs.suffix with ⟨-,rfl⟩ | ⟨-,rfl⟩
      · exact .inl (List.mem_of_mem_drop kept)
      · cases kept
  | compact =>
    refine wired.keep (fun other member => ?_) rfl (by simp)
    rcases List.mem_cons.mp member with rfl | kept
    · exact .inr sentinel_loggable
    · exact .inl (List.mem_of_mem_drop kept)
  | refuse => exact wired.silent rfl rfl (by simp)
  | _ => exact ⟨wired.entries,wired.sent⟩

theorem moves_wired (moves : Moves packet offer node after) : Wired after := by
  induction moves with
  | nil => exact wired
  | step earlier move ih =>
    exact move_wired (moves_sound sound earlier) (moves_config earlier ▸ limits) delivered offered ih move

end

end moves

section calls
variable {node after start : RaftNode} {input : Input} {emitted actions : Actions}

theorem Honest.delivered (honest : Honest input) (arrived : input.packet = some (source,message)) : source ≠ 0 ∧ Sends message := by
  cases input with
  | step =>
    cases arrived
    obtain ⟨envelope,requestId,frame,encoded,rfl,rfl⟩ := honest
    obtain ⟨⟨-,real,-,sends⟩,-⟩ := encodePeerFrame_iff.mp encoded
    exact ⟨real,sends⟩
  | _ => cases arrived

theorem Honest.offered (honest : Honest input) (asked : input.offer = some (.command command)) :
    command.length ≤ maxRaftCommandSize := by
  cases input with
  | propose =>
    cases asked
    exact honest
  | _ => cases asked

theorem Honest.positive (honest : Honest input) : input.Positive := by
  cases input with
  | step source message =>
    cases message with
    | appendEntries =>
      have sends := (Honest.delivered honest rfl).2
      exact fun entry member => Nat.pos_of_ne_zero (sends.2.2.1 entry member).term
    | _ => trivial
  | _ => trivial

theorem call_wired (sound : Sound node) (limits : DefaultLimits node.config) (entries : ∀ entry ∈ node.log, Loggable entry)
    (honest : Honest input) :
    (∀ after actions, node.call input = .ok (after,actions) → Sound after ∧ after.config = node.config ∧
      (∀ entry ∈ after.log, Loggable entry) ∧
      ∀ target message, .sendMessage target message ∈ actions → target ≠ 0 ∧ Sends message) ∧
    ∀ thrown, node.call input = .error thrown → Sound thrown.node ∧ thrown.node.config = node.config ∧
      ∀ entry ∈ thrown.node.log, Loggable entry := by
  have ends := call_ends sound honest.positive
  refine ⟨fun after actions ran => ?_,fun thrown ran => ?_⟩
  · rw [ran] at ends
    cases ends with
    | returned moves =>
      have calm : Wired node.clearActions := ⟨entries,nofun⟩
      have wired := moves_wired (clear_sound sound) limits (fun _ _ => honest.delivered) (fun _ => honest.offered) calm moves
      have config := moves_config moves
      exact ⟨clear_sound (moves_sound (clear_sound sound) moves),config,wired.entries,wired.sent⟩
  · rw [ran] at ends
    cases ends with
    | backward => exact ⟨sound,rfl,entries⟩
    | exhausted => exact ⟨{sound with},rfl,entries⟩
    | refused => exact ⟨clear_sound sound,rfl,entries⟩

theorem serves_wired (sound : Sound start) (limits : DefaultLimits start.config) (entries : ∀ entry ∈ start.log, Loggable entry)
    (served : Serves start emitted node) : Sound node ∧ node.config = start.config ∧ (∀ entry ∈ node.log, Loggable entry) ∧
      ∀ target message, .sendMessage target message ∈ emitted → target ≠ 0 ∧ Sends message := by
  induction served with
  | nil => exact ⟨sound,rfl,entries,nofun⟩
  | returned earlier honest ran ih =>
    obtain ⟨sound,config,entries,sent⟩ := ih
    obtain ⟨sound',config',entries',new⟩ := (call_wired sound (config ▸ limits) entries honest).1 _ _ ran
    refine ⟨sound',config'.trans config,entries',fun target message member => ?_⟩
    exact (List.mem_append.mp member).elim (sent target message) (new target message)
  | threw earlier honest ran ih =>
    obtain ⟨sound,config,entries,sent⟩ := ih
    obtain ⟨sound',config',entries'⟩ := (call_wired sound (config ▸ limits) entries honest).2 _ ran
    exact ⟨sound',config'.trans config,entries',sent⟩

end calls

theorem payload_length (envelope : PeerEnvelope) : envelope.payload.length = peerCommonSize+(peerBody envelope.message).length := by
  simp only [PeerEnvelope.payload,List.length_append,BigEndian.encode_length,peerCommonSize]
  omega

theorem peerFrame_serializes (encoded : encodePeerFrame envelope requestId = .ok frame) :
    ∃ image, serialize frame = .ok image ∧ ∀ chunks : List Bytes, chunks.flatten = image →
      allFrames (feed fresh chunks).2 = [frame] ∧ firstError (feed fresh chunks).2 = none := by
  obtain ⟨⟨-,-,-,sends⟩,rfl⟩ := encodePeerFrame_iff.mp encoded
  obtain ⟨size,sized,small⟩ := peerPayloadSize_iff.mpr sends
  rw [peerPayloadSize_length sized,← payload_length] at small
  have known : Protocol.messageTypeMatchesNamespace .raft (peerType envelope.message) = true := by
    cases envelope.message <;> rfl
  have valid : (Frame.header ⟨.raft,peerType envelope.message,0,requestId,envelope.payload⟩).Valid := ⟨known,rfl,small⟩
  have serialized := serialize_iff.mpr ⟨valid,rfl⟩
  refine ⟨_,serialized,fun chunks whole => ?_⟩
  have found := Protocol.readFrame_frame.mpr ⟨_,serialized,(List.append_nil _).symm⟩
  have reads := Protocol.Reads.frame found (.short Protocol.readFrame_nil)
  rw [← whole,← List.nil_append chunks.flatten] at reads
  obtain ⟨-,emitted,clean⟩ := feed_reads Protocol.readFrame_nil reads
  exact ⟨emitted,clean⟩

-- Whatever a node with the default limits sends is encoded, serialised, parsed and
-- decoded to the same envelope. The numbers of a message are std::uint64_t.
theorem everything_sent_fits (limits : DefaultLimits config) (created : RaftNode.create config persistent time = .ok start)
    (stored : ∀ entry ∈ persistent.log, Loggable entry) (served : Serves start emitted node)
    (sent : .sendMessage target message ∈ emitted) (cluster : clusterId ≠ 0) (requestId : UInt64) :
    ∃ frame image, encodePeerFrame ⟨clusterId,config.selfId,target,message⟩ requestId = .ok frame ∧ serialize frame = .ok image ∧
      (∀ chunks : List Bytes, chunks.flatten = image →
        allFrames (feed fresh chunks).2 = [frame] ∧ firstError (feed fresh chunks).2 = none) ∧
      (PeerEnvelope.Fits ⟨clusterId,config.selfId,target,message⟩ →
        decodePeerFrame frame = .ok ⟨clusterId,config.selfId,target,message⟩) := by
  obtain ⟨valid,fine,rfl⟩ := created_fresh created
  have made : Created config persistent (Raft.fresh config persistent time) := fresh_created valid (validatePersistentState_ok fine)
  have entries : ∀ entry ∈ (Raft.fresh config persistent time).log, Loggable entry := by
    intro entry member
    rcases List.mem_cons.mp member with rfl | kept
    · exact ⟨Nat.zero_le _,fun _ => rfl⟩
    · exact stored entry kept
  obtain ⟨-,-,-,all⟩ := serves_wired made.sound limits entries served
  obtain ⟨real,sends⟩ := all target message sent
  have self := voter_nonzero made.sound made.sound.configOk.member
  have encoded : encodePeerFrame ⟨clusterId,config.selfId,target,message⟩ requestId = .ok _ :=
    encodePeerFrame_iff.mpr ⟨⟨cluster,self,real,sends⟩,rfl⟩
  obtain ⟨image,serialized,parsed⟩ := peerFrame_serializes encoded
  exact ⟨_,image,encoded,serialized,parsed,fun fits => decodePeerFrame_encoded fits encoded⟩

def wiredConfig : RaftConfig := {trioConfig 1 with maxAppendEntries := 4096,maxAppendBytes := 1049768}

def wiredCandidate : RaftNode × Actions := (Raft.fresh wiredConfig .empty 0).returns (.advanceTime 10)

def wiredLeader : RaftNode × Actions := wiredCandidate.1.returns (.step 2 (.requestVoteResponse ⟨1,true⟩))

def wiredProposer : RaftNode × Actions := wiredLeader.1.returns (.propose [5])

def wiredAppend : Message := .appendEntries ⟨1,1,0,0,[⟨1,1,.noOp,[]⟩,⟨2,1,.command,[5]⟩],0,3⟩

theorem everything_sent_fits_proposer : ∃ frame, encodePeerFrame ⟨7,1,2,wiredAppend⟩ 5 = .ok frame ∧
    decodePeerFrame frame = .ok ⟨7,1,2,wiredAppend⟩ := by
  have elected : Serves (Raft.fresh wiredConfig .empty 0) ([] ++ wiredCandidate.2 ++ wiredLeader.2) wiredLeader.1 :=
    .returned (.returned .nil (show Honest (.advanceTime 10) from trivial) rfl)
      (show Honest (.step 2 (.requestVoteResponse ⟨1,true⟩)) from ⟨⟨7,2,1,_⟩,1,_,rfl,rfl,rfl⟩) rfl
  have served : Serves _ ([] ++ wiredCandidate.2 ++ wiredLeader.2 ++ wiredProposer.2) wiredProposer.1 :=
    .returned elected (show Honest (.propose [5]) by simp [Honest,maxRaftCommandSize]) rfl
  have sent : .sendMessage 2 wiredAppend ∈ [] ++ wiredCandidate.2 ++ wiredLeader.2 ++ wiredProposer.2 := by decide
  obtain ⟨frame,-,encoded,-,-,decoded⟩ := everything_sent_fits ⟨rfl,rfl⟩ (create_fresh rfl rfl) (List.forall_mem_nil _) served sent
    (show (7 : Nat) ≠ 0 by decide) 5
  exact ⟨frame,encoded,decoded ⟨by decide,by decide,by decide,by simp [Words,messageWords,wiredAppend]⟩⟩

end ForgeKv.Cluster
