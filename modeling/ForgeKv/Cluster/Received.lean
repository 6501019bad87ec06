import ForgeKv.Cluster.Background
import ForgeKv.Cluster.ImageRule
import ForgeKv.Cluster.PeerRoundTrip
import ForgeKv.Raft.Integrity

namespace ForgeKv.Cluster
open Raft RaftStorage Persisted
open RaftNode

-- An image that owner_loop can recover from.
def Acceptable (image : Bytes) : Prop :=
  ∃ state restored, decodeSnapshotState image = .ok state ∧ emptyMachine.restore state = .ok restored

structure AcceptableImage (image : StateMachineSnapshot) : Prop where
  accepted : Acceptable image.stateMachine
  index : image.lastIncludedIndex < 2^64
  term : image.lastIncludedTerm < 2^64

def Received (events : List ClusterNode.Event) (packet : NodeId × Message) : Prop :=
  ∃ moments fates work, .turn moments fates (some work) ∈ events ∧ work.packet = some packet

-- What the chunks that were heard can be put together to, from the front on.
inductive Assembled (heard : NodeId × Message → Prop) : IncomingSnapshot → Prop where
  | start (arrived : heard (source,.installSnapshot request)) (front : request.offset = 0) :
      Assembled heard (IncomingSnapshot.start source request)
  | next (arrived : heard (source,.installSnapshot request)) (earlier : Assembled heard incoming)
      (fits : IncomingSnapshot.accepts incoming source request = true) :
      Assembled heard {incoming with bytes := incoming.bytes ++ request.data}

-- Whatever they make up as a whole can be restored.
def Restorable (heard : NodeId × Message → Prop) : Prop :=
  ∀ incoming, Assembled heard incoming → incoming.bytes.length = incoming.totalSize → Acceptable incoming.bytes

theorem encoded_acceptable (standard : Standard machine) (encoded : encodeSnapshotState machine.snapshot = .ok bytes) :
    Acceptable bytes := by
  obtain ⟨storable,rfl⟩ := encodeSnapshotState_iff.mp encoded
  obtain ⟨state,decoded,values,clients⟩ := decode_bytes_state storable
  have limits := emptyMachine_standard
  obtain ⟨restored,ran,-⟩ := restore_alike standard.healthy (limits.clientLimit.trans standard.clientLimit.symm)
    (limits.byteLimit.trans standard.byteLimit.symm) values clients
  exact ⟨state,restored,decoded,ran⟩

theorem acceptable_rule (restorable : Restorable heard) : Rule AcceptableImage (fun _ => Standard) (fun _ => True)
    (fun node => ∀ incoming, node.incomingSnapshot = some incoming → Assembled heard incoming) heard where
  narrow image := ⟨image.index,image.term⟩
  fresh empty incoming found := nomatch empty.symm.trans found
  called sound assembled positive arrived ran := by
    obtain ⟨final,moves,rfl,rfl⟩ := call_returns sound positive ran
    have genuine : Genuine (Assembled heard) (fun image => Acceptable image.stateMachine) _ final :=
      moves_genuine (enters_genuine assembled) (fun source request same => ⟨.start (arrived _ same),.next (arrived _ same),restorable _⟩) moves
    exact ⟨genuine.assembly,fun image told _ index term => ⟨genuine.applied image told,index,term⟩⟩
  empty := emptyMachine_standard
  skipped _ _ standard _ := standard
  applied _ _ standard _ _ ran := apply_standard standard ran
  restored _ standard _ ran := restore_standard standard ran
  taken standard encoded index term := ⟨encoded_acceptable standard encoded,index,term⟩

section recovery
variable {config : ClusterNodeConfig} {first : ClusterNode}

theorem started_filing (started : ClusterNode.start config files = .ok first) :
    Filing AcceptableImage config.identity (files .snapshot) := by
  intro held read
  unfold ClusterNode.start at started
  split at started
  · cases started
  rename_i driver created
  split at started
  · cases started
  rename_i owner recovered
  have ready := open_ready created
  have loaded : loadSnapshot config.identity (driver.files .snapshot) = _ := ready.read
  rw [ready.kept,read] at loaded
  have durable : driver.node.durableSnapshot = some held := (Except.ok.inj loaded).symm
  have fits := (loadSnapshot_fits read).1
  obtain ⟨-,fresh,new,⟨blank,-⟩ | ⟨image,state,found,decoded,restored⟩⟩ := OwnerState.recover_ok recovered
  · rw [blank] at durable
    cases durable
  · rw [durable] at found
    cases found
    cases new
    exact ⟨⟨state,_,decoded,restored⟩,Nat.lt_succ_of_lt fits.index,fits.term⟩

theorem recover_accepts (filing : Filing AcceptableImage config.identity (files .snapshot))
    (opened : PersistedRaftNode.open config.clusterId config.raft files 0 = .ok driver) :
    ∃ owner, OwnerState.recover config driver.node = .ok owner := by
  have ready := open_ready opened
  have loaded : loadSnapshot config.identity (driver.files .snapshot) = _ := ready.read
  rw [ready.kept] at loaded
  have made : ReplicatedStateMachine.create kMaxDedupClients kMaxDedupBytes = .ok emptyMachine := rfl
  unfold OwnerState.recover
  rw [made]
  cases found : driver.node.durableSnapshot with
  | none => exact ⟨_,rfl⟩
  | some image =>
    have durable : driver.node.persistent.snapshot = some image := found
    rw [durable] at loaded
    obtain ⟨⟨state,restored,decoded,ran⟩,-,-⟩ := filing image loaded
    have same : (OwnerState.create config driver.node emptyMachine).machine = emptyMachine := rfl
    unfold OwnerState.restoreImage
    simp only [decoded,same,ran]
    exact ⟨_,rfl⟩

-- If whatever the chunks of the peers make up can be restored, then so can every image
-- that has ever replaced the snapshot or the journal, and recovery never refuses.
theorem acceptable_images_recover (started : ClusterNode.start config files = .ok first) (cluster : config.clusterId < 2^64)
    (self : config.nodeId < 2^64) (events : List ClusterNode.Event) (decoded : ∀ event ∈ events, event.Decoded)
    (bounded : Bounded (first.live events).emitted)
    (restorable : Restorable (Received events)) :
    (∀ image, .persistSnapshot image ∈ (first.live events).emitted → Acceptable image.stateMachine) ∧
    ∀ later driver, later .snapshot = (first.live events).driver.files .snapshot →
      PersistedRaftNode.open config.clusterId config.raft later 0 = .ok driver →
      ∃ owner, OwnerState.recover config driver.node = .ok owner := by
  have listened : ∀ event ∈ events, event.Heard (Received events) := by
    intro event member
    cases event with
    | turn =>
      rintro posted rfl packet same
      exact ⟨_,_,_,member,same⟩
    | _ => trivial
  obtain ⟨-,upheld⟩ := rule_lives (acceptable_rule restorable) started cluster self (started_filing started) events decoded listened
    ⟨bounded,fun _ _ => trivial⟩
  refine ⟨fun image asked => (upheld.asked image asked).accepted,fun later driver kept opened => ?_⟩
  refine recover_accepts ?_ opened
  rw [kept]
  exact upheld.file

end recovery

-- A node of three that gets a snapshot from its leader in one chunk.
def trioNode : ClusterNodeConfig :=
  {soloNode with peers := [⟨1,"127.0.0.1",7001,6001⟩,⟨2,"127.0.0.1",7002,6002⟩,⟨3,"127.0.0.1",7003,6003⟩]}

def imageChunk (data : Bytes) : InstallSnapshot :=
  {term := 1,leaderId := 2,lastIncludedIndex := 5,lastIncludedTerm := 1,totalSize := data.length,offset := 0,data := data,done := true,rpcId := 1}

def imageEvents (data : Bytes) : List ClusterNode.Event := [.turn [] [] (some (.peerRequest ⟨7,2,1,.installSnapshot (imageChunk data)⟩ 0))]

theorem imageEvents_decoded (encodes : (encodePeerFrame ⟨7,2,1,.installSnapshot (imageChunk data)⟩ 1).isOk = true) (small : data.length < 2^64) :
    ∀ event ∈ imageEvents data, event.Decoded := by
  simp only [imageEvents,List.mem_singleton,forall_eq,ClusterNode.Event.Decoded,Option.mem_some,forall_eq',Work.Decoded]
  cases encoded : encodePeerFrame ⟨7,2,1,.installSnapshot (imageChunk data)⟩ 1 with
  | error =>
    rw [encoded] at encodes
    cases encodes
  | ok frame =>
    exact ⟨frame,decodePeerFrame_encoded ⟨by simp,by simp,by simp,by simp [Words,messageWords,imageChunk]; exact small⟩ encoded⟩

theorem imageEvents_restorable (some : data ≠ []) (fine : Acceptable data) : Restorable (Received (imageEvents data)) := by
  have only : ∀ packet, Received (imageEvents data) packet → packet = (2,.installSnapshot (imageChunk data)) := by
    rintro packet ⟨moments,fates,work,member,same⟩
    cases List.mem_singleton.mp member
    exact (Option.some.inj same).symm
  intro incoming assembled
  have either : incoming.totalSize = data.length ∧ (incoming.bytes = [] ∨ incoming.bytes = data) := by
    induction assembled with
    | start arrived =>
      cases only _ arrived
      exact ⟨rfl,.inl rfl⟩
    | next arrived _ fits ih =>
      cases only _ arrived
      simp only [IncomingSnapshot.accepts,decide_eq_true_eq] at fits
      have bare := List.length_eq_zero_iff.mp fits.2.2.2.2
      exact ⟨ih.1,.inr (by rw [bare]; rfl)⟩
  obtain ⟨size,bare | whole⟩ := either
  · rw [bare,size]
    exact fun wrong => absurd (List.length_eq_zero_iff.mp wrong.symm) some
  · exact fun _ => whole ▸ fine

theorem oneByte_unacceptable : ¬ Acceptable [7] := by
  rintro ⟨state,restored,decoded,-⟩
  cases decoded

theorem trioNode_identity : trioNode.identity = ⟨7,1,14256920213425207090⟩ := by
  have sorted : [1,2,3].mergeSort (fun (left right : Nat) => decide (left ≤ right)) = [1,2,3] :=
    List.mergeSort_of_pairwise (by decide)
  have voters : voterIds trioNode = [1,2,3] := rfl
  unfold ClusterNodeConfig.identity fixedMembershipFingerprint
  rw [voters,sorted]
  decide +kernel

def trioFirst (owner : Owner) : ClusterNode :=
  ⟨.create trioNode (fresh trioNode.raft .empty 0) emptyMachine,
    firstDriver owner trioNode.raft 0 (CrashDisk.Disk.empty.run (startEffects owner 3)),0,true,none,[],[],[],[]⟩

theorem trioNode_starts : ClusterNode.start trioNode CrashDisk.Disk.empty = .ok (trioFirst ⟨7,1,14256920213425207090⟩) := by
  rw [← trioNode_identity]
  exact start_empty rfl (by decide) (by decide) (by decide)

theorem acceptable_images_recover_firstMachine :
    .persistSnapshot ⟨5,1,firstMachine.snapshot.bytes⟩ ∈
      ((trioFirst ⟨7,1,14256920213425207090⟩).live (imageEvents firstMachine.snapshot.bytes)).emitted ∧
    ∀ later driver, later .snapshot =
        ((trioFirst ⟨7,1,14256920213425207090⟩).live (imageEvents firstMachine.snapshot.bytes)).driver.files .snapshot →
      PersistedRaftNode.open trioNode.clusterId trioNode.raft later 0 = .ok driver →
      ∃ owner, OwnerState.recover trioNode driver.node = .ok owner := by
  have standard : Standard firstMachine := apply_standard emptyMachine_standard firstPut_applied
  have fine : Acceptable firstMachine.snapshot.bytes := encoded_acceptable standard (by decide +kernel)
  exact ⟨by decide +kernel,(acceptable_images_recover trioNode_starts (by decide) (by decide) _
    (imageEvents_decoded (by decide +kernel) (by decide +kernel))
    (.of_all (by decide +kernel)) (imageEvents_restorable (by decide) fine)).2⟩

-- The image goes to the disk first. Nobody can decode it, neither now nor at a restart.
theorem invalid_image_is_published : ∃ first, ClusterNode.start trioNode CrashDisk.Disk.empty = .ok first ∧
    (∀ event ∈ imageEvents [7], event.Decoded) ∧ .persistSnapshot ⟨5,1,[7]⟩ ∈ (first.live (imageEvents [7])).emitted ∧ ¬ Acceptable [7] ∧
    (first.live (imageEvents [7])).failure =
      some (.runtime "installed invalid state-machine snapshot: invalid snapshot state header") ∧
    ∀ node, ClusterNode.start trioNode (first.live (imageEvents [7])).driver.files ≠ .ok node := by
  refine ⟨_,trioNode_starts,imageEvents_decoded rfl (by decide),by decide +kernel,oneByte_unacceptable,by decide +kernel,?_⟩
  intro node started
  have read : loadSnapshot ⟨7,1,14256920213425207090⟩
      (((trioFirst ⟨7,1,14256920213425207090⟩).live (imageEvents [7])).driver.files .snapshot) = .ok (some ⟨5,1,[7]⟩) := by
    decide +kernel
  have filing := started_filing started
  rw [trioNode_identity] at filing
  exact oneByte_unacceptable (filing _ read).accepted

end ForgeKv.Cluster
