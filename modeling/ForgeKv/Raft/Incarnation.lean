import ForgeKv.Raft.Overflow
import ForgeKv.Cluster.PeerRoundTrip

namespace ForgeKv.Raft
open Assoc

def Message.indexes : Message → List Nat
  | .requestVote request => [request.lastLogIndex]
  | .requestVoteResponse _ => []
  | .appendEntries request => request.previousLogIndex::request.leaderCommit::request.entries.map LogEntry.index
  | .appendEntriesResponse response => [response.matchIndex,response.rejectHint]
  | .installSnapshot request => [request.lastIncludedIndex]
  | .installSnapshotResponse response => [response.lastIncludedIndex]

-- Any value that decode_peer_frame can produce, honest or forged, with small log indexes.
def Arrives (message : Message) : Prop :=
  (∃ frame, Cluster.Decodes frame message) ∧ ∀ index ∈ message.indexes, index < 2^63

def Input.Arrives : Input → Prop
  | .step _ message => Raft.Arrives message
  | _ => True

def Input.Decoded : Input → Prop
  | .step _ message => ∃ frame, Cluster.Decodes frame message
  | _ => True

theorem Input.Decoded.positive {input : Input} (decoded : input.Decoded) : input.Positive := by
  cases input with
  | step source message =>
    cases message with
    | appendEntries =>
      obtain ⟨frame,decodes⟩ := decoded
      exact fun entry member => (decodes.entries.2.1 entry member).term
    | _ => trivial
  | _ => trivial

theorem Input.Arrives.decoded {input : Input} (arrives : input.Arrives) : input.Decoded := by
  cases input with
  | step => exact arrives.1
  | _ => trivial

theorem Input.Arrives.positive {input : Input} (arrives : input.Arrives) : input.Positive := arrives.decoded.positive

-- The life of one node object: calls that return and calls that throw, with all
-- the actions returned so far.
inductive Runs : RaftNode → Actions → RaftNode → Prop where
  | nil : Runs node [] node
  | returned (earlier : Runs start emitted node) (arrives : input.Arrives)
      (ran : node.call input = .ok (after,actions)) : Runs start (emitted ++ actions) after
  | threw (earlier : Runs start emitted node) (arrives : input.Arrives)
      (ran : node.call input = .error thrown) : Runs start emitted thrown.node

structure Untouched (node after : RaftNode) : Prop where
  role : after.role = node.role
  term : after.currentTerm = node.currentTerm
  vote : after.votedFor = node.votedFor
  log : after.log = node.log
  commit : after.commitIndex = node.commitIndex
  applied : after.lastApplied = node.lastApplied
  snapshot : after.durableSnapshot = node.durableSnapshot
  progress : after.peerProgress = node.peerProgress

inductive Expected (node : RaftNode) : Input → Fault → Prop where
  | backward (earlier : now < node.now) :
      Expected node (.advanceTime now) (.invalidArgument "Raft logical time cannot move backward")
  | exhausted (full : node.currentTerm = maxU64) :
      Expected node (.advanceTime now) (.overflowError "Raft term space exhausted")
  | refused : Expected node (.compact snapshot) (.invalidArgument "snapshot does not match an applied log prefix")

section calls
variable {node after start middle : RaftNode}

theorem call_throws (sound : Sound node) (positive : input.Positive) (ran : node.call input = .error thrown) :
    Expected node input thrown.fault ∧ Untouched node thrown.node ∧ Sound thrown.node := by
  have ends := call_ends sound positive
  rw [ran] at ends
  cases ends with
  | backward late earlier =>
    subst late
    exact ⟨.backward earlier,⟨rfl,rfl,rfl,rfl,rfl,rfl,rfl,rfl⟩,sound⟩
  | exhausted timer full =>
    subst timer
    exact ⟨.exhausted full,⟨rfl,rfl,rfl,rfl,rfl,rfl,rfl,rfl⟩,{sound with}⟩
  | refused asked =>
    subst asked
    exact ⟨.refused,⟨rfl,rfl,rfl,rfl,rfl,rfl,rfl,rfl⟩,clear_sound sound⟩

theorem call_returns (sound : Sound node) (positive : input.Positive) (ran : node.call input = .ok (after,actions)) :
    ∃ final, Moves input.packet input.offer node.clearActions final ∧ after = final.clearActions ∧ actions = final.actions := by
  have ends := call_ends sound positive
  rw [ran] at ends
  cases ends with
  | returned moves => exact ⟨_,moves,rfl,rfl⟩

theorem call_config (sound : Sound node) (positive : input.Positive) :
    (∀ after actions, node.call input = .ok (after,actions) → after.config = node.config) ∧
      ∀ thrown, node.call input = .error thrown → thrown.node.config = node.config := by
  refine ⟨fun after actions ran => ?_,fun thrown ran => ?_⟩
  · obtain ⟨final,moves,rfl,-⟩ := call_returns sound positive ran
    have kept : final.config = node.clearActions.config := moves_config moves
    exact kept
  · have ends := call_ends sound positive
    rw [ran] at ends
    cases ends <;> rfl

theorem runs_sound (sound : Sound start) (runs : Runs start emitted node) : Sound node := by
  induction runs with
  | nil => exact sound
  | returned earlier arrives ran ih =>
    obtain ⟨final,moves,rfl,-⟩ := call_returns ih arrives.positive ran
    exact clear_sound (moves_sound (clear_sound ih) moves)
  | threw earlier arrives ran ih => exact (call_throws ih arrives.positive ran).2.2

theorem runs_config (sound : Sound start) (runs : Runs start emitted node) : node.config = start.config := by
  induction runs with
  | nil => rfl
  | returned earlier arrives ran ih =>
    exact ((call_config (runs_sound sound earlier) arrives.positive).1 _ _ ran).trans ih
  | threw earlier arrives ran ih =>
    exact ((call_config (runs_sound sound earlier) arrives.positive).2 _ ran).trans ih

end calls

-- A run whose calls all start with a last log index below 2^63, where no sum of
-- the source wraps.
inductive ShortRuns (start : RaftNode) : Actions → RaftNode → Prop where
  | nil : ShortRuns start [] start
  | returned (earlier : ShortRuns start emitted node) (short : node.lastLogIndex < 2^63) (arrives : input.Arrives)
      (ran : node.call input = .ok (after,actions)) : ShortRuns start (emitted ++ actions) after
  | threw (earlier : ShortRuns start emitted node) (short : node.lastLogIndex < 2^63) (arrives : input.Arrives)
      (ran : node.call input = .error thrown) : ShortRuns start emitted thrown.node

theorem ShortRuns.runs (runs : ShortRuns start emitted node) : Runs start emitted node := by
  induction runs with
  | nil => exact .nil
  | returned earlier short arrives ran ih => exact .returned ih arrives ran
  | threw earlier short arrives ran ih => exact .threw ih arrives ran

theorem fresh_short (valid : validateConfig config = .ok ()) (fine : validatePersistentState config persistent = .ok ())
    (short : persistent.baseIndex+persistent.log.length < 2^63) : (fresh config persistent time).lastLogIndex < 2^63 := by
  have last := (fresh_created valid (validatePersistentState_ok fine) : Created _ _ (fresh config persistent time)).sound.last
  have size : (fresh config persistent time).baseIndex+(fresh config persistent time).log.length =
    persistent.baseIndex+(persistent.log.length+1) := rfl
  omega

-- No run of calls makes verify_invariants or entry_at throw, the constructor
-- included: a call ends in one of the three expected exceptions or returns.
theorem core_never_faults (config : RaftConfig) (persistent : RaftPersistentState) (time : Nat)
    (valid : validateConfig config = .ok ()) (fine : validatePersistentState config persistent = .ok ())
    (short : persistent.baseIndex+persistent.log.length < 2^63) :
    ∃ start, RaftNode.create config persistent time = .ok start ∧ start.lastLogIndex < 2^63 ∧
      ∀ emitted node, ShortRuns start emitted node → node.checkInvariants = .ok () ∧
        ∀ input, input.Arrives → node.lastLogIndex < 2^63 → ∀ thrown, node.call input = .error thrown →
          Expected node input thrown.fault ∧ Untouched node thrown.node := by
  have created : Created config persistent (fresh config persistent time) :=
    fresh_created valid (validatePersistentState_ok fine)
  refine ⟨_,create_fresh valid fine,fresh_short valid fine short,fun emitted node runs => ?_⟩
  have sound := runs_sound created.sound runs.runs
  refine ⟨checkInvariants_ok sound,fun input arrives _ thrown ran => ?_⟩
  obtain ⟨expected,untouched,-⟩ := call_throws sound arrives.positive ran
  exact ⟨expected,untouched⟩

theorem encoded_arrives (fits : Cluster.PeerEnvelope.Fits ⟨7,2,1,message⟩)
    (encoded : Cluster.encodePeerFrame ⟨7,2,1,message⟩ 1 = .ok frame) (small : ∀ index ∈ message.indexes, index < 2^63) : Arrives message :=
  ⟨⟨frame,_,Cluster.decodePeerFrame_encoded fits encoded,rfl⟩,small⟩

theorem granted_arrives : Arrives (.requestVoteResponse ⟨2,true⟩) :=
  encoded_arrives ⟨by decide,by decide,by decide,by simp [Cluster.Words,Cluster.messageWords]⟩ rfl nofun

-- A node of three comes back, wins term 2, and is told an earlier time.
theorem core_never_faults_voted : ∃ start emitted node thrown, RaftNode.create (trioConfig 1) votedState 0 = .ok start ∧
    ShortRuns start emitted node ∧ node.role = .leader ∧ node.lastLogIndex = 3 ∧ node.checkInvariants = .ok () ∧
    node.call (.advanceTime 5) = .error thrown ∧ Expected node (.advanceTime 5) thrown.fault ∧ Untouched node thrown.node := by
  obtain ⟨start,created,-,never⟩ := core_never_faults (trioConfig 1) votedState 0 rfl rfl (by decide)
  rw [create_fresh rfl rfl] at created
  cases created
  have campaigns : ShortRuns (fresh (trioConfig 1) votedState 0) _ _ :=
    .returned .nil (by decide) (show (Input.advanceTime 10).Arrives from trivial) rfl
  have leads := ShortRuns.returned campaigns (by decide) (show (Input.step 2 _).Arrives from granted_arrives) rfl
  obtain ⟨fine,throws⟩ := never _ _ leads
  exact ⟨_,_,_,_,create_fresh rfl rfl,leads,by decide,by decide,fine,rfl,
    throws (.advanceTime 5) trivial (by decide) _ rfl⟩

-- Behind the last index but one there is room for the first entry of a leader, and
-- the index after that entry is 0.
def lastState : RaftPersistentState := ⟨1,none,some ⟨2^64-2,1,[]⟩,[]⟩

theorem last_index_faults : ∃ start candidate actions thrown, RaftNode.create (trioConfig 1) lastState 0 = .ok start ∧
    start.call (.advanceTime 10) = .ok (candidate,actions) ∧ Arrives (.requestVoteResponse ⟨2,true⟩) ∧
    candidate.stepVote64 2 ⟨2,true⟩ = .error thrown ∧
    thrown.fault = .logicError "Raft leader peer progress is out of bounds" :=
  ⟨_,_,_,_,create_fresh rfl rfl,rfl,granted_arrives,rfl,rfl⟩

end ForgeKv.Raft
