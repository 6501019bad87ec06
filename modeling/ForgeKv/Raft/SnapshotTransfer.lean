import ForgeKv.Raft.Assembly
import ForgeKv.Raft.CatchUp

namespace ForgeKv.Raft
open Assoc
open RaftNode

variable {leader follower follows : RaftNode} {progress : PeerProgress} {snapshot : StateMachineSnapshot}
  {chunk : InstallSnapshot} {session next : Session}

def Session.Installed (index : Nat) (session : Session) : Prop :=
  ∃ progress, get? session.leader.peerProgress session.follower.config.selfId = some progress ∧ index ≤ progress.matchIndex

-- A chunk of the leader's image is under way.
structure Transfer (session : Session) (chunk : InstallSnapshot) (progress : PeerProgress) (snapshot : StateMachineSnapshot) :
    Prop where
  talk : Talk session.leader session.follower
  sent : session.request = .installSnapshot chunk
  newest : NewestChunk session.leader session.follower.config.selfId chunk progress snapshot
  small : snapshot.stateMachine.length ≤ maximumSnapshotSize

-- An assembly of the same image from the same leader.
def IncomingSnapshot.Same (incoming : IncomingSnapshot) (source : NodeId) (chunk : InstallSnapshot) : Prop :=
  incoming.leaderId = source ∧ incoming.lastIncludedIndex = chunk.lastIncludedIndex ∧
    incoming.lastIncludedTerm = chunk.lastIncludedTerm ∧ incoming.totalSize = chunk.totalSize

theorem accepts_iff : IncomingSnapshot.accepts incoming source chunk = true ↔
    incoming.Same source chunk ∧ incoming.bytes.length = chunk.offset := by
  simp only [IncomingSnapshot.accepts,IncomingSnapshot.Same,decide_eq_true_eq,and_assoc]

-- Whether the transfer that a chunk belongs to comes to its end. A follower that
-- has applied the image answers only for a last chunk that is not empty. Any other
-- has to start over, or to go on with an assembly of the same image that the
-- leader can continue.
def TransferCompletes (source : NodeId) (follower : RaftNode) (chunk : InstallSnapshot) : Prop :=
  0 < chunk.totalSize ∧ chunk.lastIncludedIndex ≠ maxU64 ∧
    if chunk.lastIncludedIndex ≤ follower.lastApplied then chunk.offset < chunk.totalSize ∧ chunk.stop = chunk.totalSize
    else chunk.offset = 0 ∨ follower.incomingSnapshot = none ∨
      ∃ incoming, follower.incomingSnapshot = some incoming ∧ incoming.bytes.length ≤ chunk.stop ∧
        (incoming.bytes = [] ∨ (incoming.Same source chunk ∧ incoming.bytes.length < chunk.totalSize))

section round
variable (transfer : Transfer session chunk progress snapshot)
include transfer

theorem Transfer.valid : session.follower.validChunk session.leader.config.selfId chunk = true ↔
    chunk.lastIncludedIndex ≠ maxU64 := by
  obtain ⟨talk,-,newest,small⟩ := transfer
  obtain ⟨term,source,index,boundaryTerm,total⟩ := newest.fields
  have done : chunk.done = decide (chunk.offset+chunk.data.length = chunk.totalSize) := by
    rw [newest.shape]
    exact chunkAt_done newest.inside
  have stop := newest.stop_le
  unfold InstallSnapshot.stop at stop
  have marked := talk.leads.log.image snapshot newest.image
  have bounded : snapshot.lastIncludedTerm ≤ session.leader.currentTerm := by
    have front := talk.leads.boundary_at_base
    rw [newest.image] at front
    exact talk.leads.log.bounded _ (List.mem_of_getElem? front)
  have same := talk.term
  simp only [RaftNode.validChunk,decide_eq_true_eq,not_or,done,source,newest.positive,ne_eq,not_true_eq_false,not_false_eq_true,
    and_true,true_and]
  omega

theorem Transfer.done_iff : chunk.done = true ↔ chunk.stop = chunk.totalSize := by
  have done : chunk.done = decide (chunk.stop = chunk.totalSize) := by
    rw [transfer.newest.shape]
    exact chunkAt_done transfer.newest.inside
  rw [done,decide_eq_true_eq]

theorem Transfer.more : chunk.offset < chunk.stop ↔ chunk.offset < chunk.totalSize := by
  obtain ⟨-,-,-,-,total⟩ := transfer.newest.fields
  have size : chunk.data.length = min (snapshot.stateMachine.length-chunk.offset) snapshotChunkSize := by
    rw [transfer.newest.shape]
    exact chunkAt_size
  unfold InstallSnapshot.stop
  rw [size,total]
  unfold snapshotChunkSize
  omega

end round

-- One round: the answer is dropped, answered with another chunk, or ends the transfer.
inductive Passes (session : Session) (chunk : InstallSnapshot) (snapshot : StateMachineSnapshot) (success : Bool) (nextOffset : Nat)
    (after : Session) : Prop where
  | dropped (useless : if success then nextOffset ≠ chunk.stop ∨ chunk.stop ≤ chunk.offset else chunk.stop < nextOffset)
      (named : after.leader.config = session.leader.config) (again : Transfer after chunk current snapshot)
  | resumed (useful : if success then nextOffset = chunk.stop ∧ chunk.offset < chunk.stop ∧ chunk.stop < chunk.totalSize
        else nextOffset ≤ chunk.stop) (named : after.leader.config = session.leader.config)
      (again : Transfer after chunk' current snapshot) (offset : chunk'.offset = nextOffset)
  | finished (success : success = true) (answered : nextOffset = chunk.stop) (more : chunk.offset < chunk.stop)
      (whole : chunk.stop = chunk.totalSize) (done : after.Installed snapshot.lastIncludedIndex)

theorem round_passes (transfer : Transfer session chunk progress snapshot) : ∃ next success nextOffset, session.round = some next ∧
    ChunkReply session.leader.config.selfId session.follower chunk next.follower success nextOffset ∧
    Passes session chunk snapshot success nextOffset next := by
  obtain ⟨talk,sent,newest,small⟩ := transfer
  obtain ⟨term,-,-,-,total⟩ := newest.fields
  obtain ⟨follows,answers,success,nextOffset,stepped,answered,sound',stays,reply⟩ :=
    follower_gathers talk.follows talk.following talk.source talk.distinct (term.trans talk.term.symm)
  obtain ⟨leads,sent',stepped',continues⟩ :=
    leader_continues talk.leads talk.leading talk.peer talk.distinct.symm newest success nextOffset
  rw [← sent] at stepped
  have named : follows.config.selfId = session.follower.config.selfId := congrArg RaftConfig.selfId stays.config
  refine ⟨_,success,nextOffset,round_eq stepped answered stays.config stepped',reply,?_⟩
  cases continues with
  | dropped useless same silent =>
    subst same silent
    have talk' := talk.kept (clear_sound talk.leads) sound' ⟨rfl,rfl,rfl,rfl,rfl,Nat.le_refl _⟩ stays
    have newest' : NewestChunk session.leader.clearActions follows.config.selfId chunk progress snapshot := named.symm ▸ newest.clear
    exact .dropped useless rfl ⟨talk',sent,newest',small⟩
  | resumed useful resumes =>
    obtain ⟨chunk',progress',message,newest',offset⟩ := resumes.resent
    have talk' := talk.kept resumes.sound sound' resumes.frame stays
    have fresh : NewestChunk leads follows.config.selfId chunk' progress' snapshot := named.symm ▸ newest'
    exact .resumed (total.symm ▸ useful) resumes.frame.config ⟨talk',by simp [message],fresh,small⟩ offset
  | finished success answered more whole found matched =>
    exact .finished success answered more (whole.trans total.symm) ⟨_,named.symm ▸ found,matched⟩

def Aligned (source : NodeId) (follower : RaftNode) (chunk : InstallSnapshot) : Prop :=
  chunk.lastIncludedIndex ≠ maxU64 ∧ follower.lastApplied < chunk.lastIncludedIndex ∧ chunk.offset < chunk.totalSize ∧
    (chunk.offset = 0 ∨ ∃ incoming, follower.incomingSnapshot = some incoming ∧ incoming.Same source chunk ∧
      incoming.bytes.length = chunk.offset)

def Session.Aligned (index : Nat) (session : Session) : Prop :=
  ∃ chunk progress snapshot, Transfer session chunk progress snapshot ∧ snapshot.lastIncludedIndex = index ∧
    Raft.Aligned session.leader.config.selfId session.follower chunk

def Session.rest (session : Session) : Nat :=
  match session.request with
  | .installSnapshot chunk => chunk.totalSize-chunk.offset
  | _ => 0

theorem Transfer.rest (transfer : Transfer session chunk progress snapshot) : session.rest = chunk.totalSize-chunk.offset := by
  unfold Session.rest
  rw [transfer.sent]

section
variable (one : Transfer session chunk progress snapshot) (two : Transfer next chunk' progress' snapshot)
include one two

theorem Transfer.image :
    chunk'.lastIncludedIndex = chunk.lastIncludedIndex ∧ chunk'.lastIncludedTerm = chunk.lastIncludedTerm ∧
      chunk'.totalSize = chunk.totalSize := by
  obtain ⟨-,-,index,term,total⟩ := one.newest.fields
  obtain ⟨-,-,index',term',total'⟩ := two.newest.fields
  exact ⟨index'.trans index.symm,term'.trans term.symm,total'.trans total.symm⟩

theorem Transfer.same :
    IncomingSnapshot.Same incoming source chunk' ↔ incoming.Same source chunk := by
  obtain ⟨index,term,total⟩ := one.image two
  unfold IncomingSnapshot.Same
  rw [index,term,total]

end

theorem gathers_same (gathers : Gathers follower source chunk incoming) : incoming.Same source chunk := by
  rcases gathers with ⟨-,rfl⟩ | ⟨-,-,accepted⟩
  · exact ⟨rfl,rfl,rfl,rfl⟩
  · exact (accepts_iff.mp accepted).1

theorem aligned_reaches (start : session.Aligned index) : Rounds.Reaches Session.round (Session.Installed index) session := by
  refine Rounds.reaches_of_measure (Session.Aligned index) Nat.lt_wfRel.wf Session.rest ?_ start
  rintro session ⟨chunk,progress,snapshot,transfer,named,room,ahead,inside,fits⟩
  obtain ⟨next,success,nextOffset,ran,reply,passes⟩ := round_passes transfer
  have more := transfer.more.mpr inside
  have done := transfer.done_iff
  refine ⟨next,ran,?_⟩
  cases reply with
  | invalid wrong => exact absurd (transfer.valid.mpr room) (by simp [wrong])
  | applied => omega
  | absent _ _ later empty =>
    obtain ⟨incoming,found,-,-⟩ := fits.resolve_left later
    rw [empty] at found
    cases found
  | misplaced _ _ later found refused =>
    obtain ⟨incoming,found',same,size⟩ := fits.resolve_left later
    rw [found] at found'
    cases found'
    rw [accepts_iff.mpr ⟨same,size⟩] at refused
    cases refused
  | @stored incoming _ _ gathers unfinished grown applied =>
    have short : chunk.stop ≠ chunk.totalSize := fun whole => by simp [done.mpr whole] at unfinished
    cases passes with
    | dropped useless => simp only [if_true,ne_eq,not_true_eq_false,false_or] at useless; omega
    | finished _ _ _ whole => exact absurd whole short
    | resumed useful named' again offset =>
      obtain ⟨index',-,total⟩ := transfer.image again
      obtain ⟨-,-,below⟩ := useful
      refine .inr ⟨⟨_,_,_,again,named,?_,?_,?_,.inr ⟨_,grown,?_,?_⟩⟩,?_⟩
      · rw [index']; exact room
      · rw [index',applied]; exact ahead
      · rw [offset,total]; exact below
      · have same := gathers_same gathers
        rw [named',transfer.same again]
        exact same
      · simp only [List.length_append,gathers_size gathers,offset]
        rfl
      · rw [transfer.rest,again.rest,offset,total]
        exact (show chunk.totalSize-chunk.stop < chunk.totalSize-chunk.offset by omega)
  | installed _ _ gathers finished =>
    have whole := done.mp finished
    cases passes with
    | dropped useless => simp only [if_true,whole,ne_eq,not_true_eq_false,false_or] at useless; omega
    | resumed useful => simp only [if_true] at useful; omega
    | finished _ _ _ _ reached => exact .inl (named ▸ reached)

theorem resumed_aligned (transfer : Transfer session chunk progress snapshot) (again : Transfer next chunk' progress' snapshot)
    (named : next.leader.config = session.leader.config) (offset : chunk'.offset = position)
    (waits : Waits session.follower next.follower) (room : chunk.lastIncludedIndex ≠ maxU64)
    (ahead : session.follower.lastApplied < chunk.lastIncludedIndex) (inside : position < chunk.totalSize)
    (fits : position = 0 ∨ ∃ incoming, session.follower.incomingSnapshot = some incoming ∧
      incoming.Same session.leader.config.selfId chunk ∧ incoming.bytes.length = position) :
    next.Aligned snapshot.lastIncludedIndex := by
  obtain ⟨index,-,total⟩ := transfer.image again
  refine ⟨chunk',progress',snapshot,again,rfl,index ▸ room,?_,?_,?_⟩
  · rw [waits.applied,index]
    exact ahead
  · rw [offset,total]
    exact inside
  · rw [offset,waits.incoming,named]
    refine fits.imp_right ?_
    rintro ⟨incoming,found,same,size⟩
    exact ⟨incoming,found,(transfer.same again).mpr same,size⟩

theorem Gathers.accepted (gathers : Gathers follower source chunk incoming) (later : chunk.offset ≠ 0) :
    follower.incomingSnapshot = some incoming ∧ IncomingSnapshot.accepts incoming source chunk = true :=
  (gathers.resolve_left (fun first => later first.1)).2

theorem completes_reaches (transfer : Transfer session chunk progress snapshot)
    (completes : TransferCompletes session.leader.config.selfId session.follower chunk) :
    Rounds.Reaches Session.round (Session.Installed snapshot.lastIncludedIndex) session := by
  obtain ⟨positive,room,fits⟩ := completes
  have valid := transfer.valid.mpr room
  obtain ⟨next,success,nextOffset,ran,reply,passes⟩ := round_passes transfer
  by_cases behind : chunk.lastIncludedIndex ≤ session.follower.lastApplied
  · -- The follower has the image already and the chunk is the last one.
    rw [if_pos behind] at fits
    cases reply with
    | invalid wrong => rw [valid] at wrong; cases wrong
    | absent | misplaced | stored | installed => omega
    | applied =>
      cases passes with
      | dropped useless => simp only [if_true,fits.2,ne_eq,not_true_eq_false,false_or] at useless; omega
      | resumed useful => simp only [if_true] at useful; omega
      | finished _ _ _ _ reached => exact .step ran (.here reached)
  · rw [if_neg behind] at fits
    have ahead := Nat.not_le.mp behind
    by_cases first : chunk.offset = 0
    · exact aligned_reaches ⟨chunk,progress,snapshot,transfer,rfl,room,ahead,by omega,.inl first⟩
    cases found : session.follower.incomingSnapshot with
    | none =>
      cases reply with
      | invalid wrong => rw [valid] at wrong; cases wrong
      | applied _ late => exact absurd late behind
      | misplaced _ _ _ other => rw [found] at other; cases other
      | stored _ _ gathers | installed _ _ gathers => cases found.symm.trans (gathers.accepted first).1
      | absent _ _ _ _ waits =>
        cases passes with
        | dropped useless => simp at useless
        | finished wrong => cases wrong
        | resumed _ named again offset =>
          exact .step ran (aligned_reaches (resumed_aligned transfer again named offset waits room ahead positive (.inl rfl)))
    | some incoming =>
      obtain ⟨incoming',found',fits,image⟩ := (fits.resolve_left first).resolve_left (by simp [found])
      rw [found] at found'
      cases found'
      cases accepted : IncomingSnapshot.accepts incoming session.leader.config.selfId chunk with
      | true =>
        obtain ⟨same,size⟩ := accepts_iff.mp accepted
        have inside : incoming.bytes.length < chunk.totalSize := by
          cases image with
          | inl empty => simp only [empty,List.length_nil] at size; omega
          | inr whole => exact whole.2
        exact aligned_reaches ⟨chunk,progress,snapshot,transfer,rfl,room,ahead,size ▸ inside,.inr ⟨incoming,found,same,size⟩⟩
      | false =>
        cases reply with
        | invalid wrong => rw [valid] at wrong; cases wrong
        | applied _ late => exact absurd late behind
        | absent _ _ _ other => rw [found] at other; cases other
        | stored _ _ gathers | installed _ _ gathers =>
          obtain ⟨other,accepted'⟩ := gathers.accepted first
          rw [found] at other
          cases other
          rw [accepted] at accepted'
          cases accepted'
        | misplaced _ _ _ other _ waits =>
          rw [found] at other
          cases other
          cases passes with
          | dropped useless => simp only [Bool.false_eq_true,if_false] at useless; omega
          | finished wrong => cases wrong
          | resumed _ named again offset =>
            refine .step ran (aligned_reaches (resumed_aligned transfer again named offset waits room ahead ?_ ?_))
            · cases image with
              | inl empty => simpa [empty] using positive
              | inr whole => exact whole.2
            · cases image with
              | inl empty => exact .inl (by simp [empty])
              | inr whole => exact .inr ⟨incoming,found,whole.1,rfl⟩

theorem gathers_completes (room : chunk.lastIncludedIndex ≠ maxU64) (ahead : follower.lastApplied < chunk.lastIncludedIndex)
    (gathers : Gathers follower source chunk incoming) (more : chunk.offset < chunk.totalSize) :
    TransferCompletes source follower chunk := by
  refine ⟨by omega,room,?_⟩
  rw [if_neg (Nat.not_le.mpr ahead)]
  have size := gathers_size gathers
  rcases gathers with ⟨first,-⟩ | ⟨-,found,accepted⟩
  · exact .inl first
  · refine .inr (.inr ⟨incoming,found,?_,.inr ⟨(accepts_iff.mp accepted).1,by omega⟩⟩)
    exact size ▸ Nat.le_add_right _ _

theorem completes_waits (waits : Waits follower follows) : TransferCompletes source follows chunk ↔
    TransferCompletes source follower chunk := by
  unfold TransferCompletes
  rw [waits.applied,waits.incoming]

def Session.Stalled (index : Nat) (session : Session) : Prop :=
  ∃ chunk progress snapshot, Transfer session chunk progress snapshot ∧ snapshot.lastIncludedIndex = index ∧
    ¬ TransferCompletes session.leader.config.selfId session.follower chunk

theorem stalled_stays (stalled : session.Stalled index) (ran : session.round = some next) : next.Stalled index := by
  obtain ⟨chunk,progress,snapshot,transfer,rfl,lacks⟩ := stalled
  obtain ⟨next',success,nextOffset,ran',reply,passes⟩ := round_passes transfer
  rw [ran] at ran'
  cases ran'
  have done := transfer.done_iff
  have stop : chunk.stop ≤ chunk.totalSize := by
    obtain ⟨-,-,-,-,total⟩ := transfer.newest.fields
    exact total ▸ transfer.newest.stop_le
  have begins : chunk.offset ≤ chunk.stop := Nat.le_add_right _ _
  cases reply with
  | invalid wrong =>
    have full : chunk.lastIncludedIndex = maxU64 := by
      by_contra room
      rw [transfer.valid.mpr room] at wrong
      cases wrong
    cases passes with
    | finished wrong => cases wrong
    | dropped _ _ again => exact ⟨_,_,_,again,rfl,fun completes => completes.2.1 full⟩
    | resumed _ _ again => exact ⟨_,_,_,again,rfl,fun completes => completes.2.1 ((transfer.image again).1.trans full)⟩
  | applied valid behind waits =>
    cases passes with
    | dropped _ named again => exact ⟨_,_,_,again,rfl,by rw [named,completes_waits waits]; exact lacks⟩
    | resumed useful => simp only [if_true] at useful; omega
    | finished =>
      refine absurd ⟨by omega,transfer.valid.mp valid,?_⟩ lacks
      rw [if_pos behind]
      omega
  | absent valid ahead later empty waits =>
    -- Only an empty image is still to be feared here.
    have nothing : chunk.totalSize = 0 := by
      by_contra some
      refine lacks ⟨Nat.pos_of_ne_zero some,transfer.valid.mp valid,?_⟩
      rw [if_neg (Nat.not_le.mpr ahead)]
      exact .inr (.inl empty)
    cases passes with
    | finished wrong => cases wrong
    | dropped _ named again => exact ⟨_,_,_,again,rfl,by rw [named,completes_waits waits]; exact lacks⟩
    | resumed _ _ again =>
      refine ⟨_,_,_,again,rfl,fun completes => ?_⟩
      omega
  | @misplaced incoming valid ahead later found refused waits =>
    cases passes with
    | finished wrong => cases wrong
    | dropped _ named again => exact ⟨_,_,_,again,rfl,by rw [named,completes_waits waits]; exact lacks⟩
    | resumed useful named again offset =>
      obtain ⟨index,-,total⟩ := transfer.image again
      refine ⟨_,_,_,again,rfl,fun completes => lacks ?_⟩
      obtain ⟨positive,room,fits⟩ := completes
      rw [if_neg (by rw [index,waits.applied]; exact Nat.not_le.mpr ahead),offset,waits.incoming,found,named,total] at fits
      refine ⟨total ▸ positive,index ▸ room,?_⟩
      rw [if_neg (Nat.not_le.mpr ahead)]
      refine .inr (.inr ⟨incoming,found,by simpa using useful,?_⟩)
      rcases fits with empty | wrong | ⟨_,same,-,image⟩
      · exact .inl (List.eq_nil_of_length_eq_zero empty)
      · cases wrong
      · cases same
        exact image.imp_right (And.imp_left (transfer.same again).mp)
  | stored valid ahead gathers unfinished =>
    have short : chunk.stop ≠ chunk.totalSize := fun whole => by simp [done.mpr whole] at unfinished
    exact absurd (gathers_completes (transfer.valid.mp valid) ahead gathers (by omega)) lacks
  | installed valid ahead gathers finished applied =>
    by_cases inside : chunk.offset < chunk.totalSize
    · exact absurd (gathers_completes (transfer.valid.mp valid) ahead gathers inside) lacks
    · cases passes with
      | finished => omega
      | resumed useful => simp only [if_true] at useful; omega
      | dropped _ named again =>
        -- The follower is done, and the leader never learns it.
        refine ⟨_,_,_,again,rfl,fun completes => ?_⟩
        have fits := completes.2.2
        rw [if_pos (Nat.le_of_eq applied.symm)] at fits
        omega

theorem Session.Stalled.not_reaches (stalled : session.Stalled index) :
    ¬ Rounds.Reaches Session.round (Session.Installed index) session := by
  refine Rounds.not_reaches (Session.Stalled index) (fun _ _ => stalled_stays) ?_ stalled
  rintro session ⟨chunk,progress,snapshot,transfer,rfl,-⟩ ⟨current,found,reached⟩
  have sound := transfer.talk.leads
  rw [transfer.newest.found] at found
  cases found
  have matched := (sound.progress_get transfer.newest.found).matched
  have low := transfer.newest.low
  have base : session.leader.baseIndex = snapshot.lastIncludedIndex := by
    rw [sound.base,transfer.newest.image]
    rfl
  omega

-- The transfer of an image whose newest chunk is under way ends exactly if the
-- image is not empty and the follower can take up that chunk.
theorem snapshot_transfer_terminates_iff (transfer : Transfer session chunk progress snapshot) :
    Rounds.Reaches Session.round (Session.Installed snapshot.lastIncludedIndex) session ↔
      TransferCompletes session.leader.config.selfId session.follower chunk := by
  constructor
  · intro reaches
    by_contra lacks
    exact Session.Stalled.not_reaches ⟨_,_,_,transfer,rfl,lacks⟩ reaches
  · exact completes_reaches transfer

-- The leader compacts its entry to an image, and its next heartbeat sends the
-- one chunk of it to node 3, which has nothing but its vote.
def compacted (bytes : Bytes) : Cluster := .play [1,2,3] (opening ++
  [.call 3 (.step 1 (.requestVote ⟨1,1,0,0⟩)) none,.call 1 (.compact ⟨1,1,bytes⟩) none,.call 1 (.advanceTime 20) none])

def onlyChunk (bytes : Bytes) : InstallSnapshot := ⟨1,1,1,1,bytes.length,0,bytes,true,6⟩

def installing (bytes : Bytes) (up : ((compacted bytes).hosts 1).core.isSome = true)
    (up' : ((compacted bytes).hosts 3).core.isSome = true) : Session :=
  ⟨(compacted bytes).running 1 up,(compacted bytes).running 3 up',.installSnapshot (onlyChunk bytes)⟩

def awaitsChunk (size : Nat) : PeerProgress := ⟨1,0,6,1,[⟨2,1⟩,⟨4,1⟩],1,0,[⟨6,1,0,size⟩]⟩

theorem installing_transfer (roles : (installing bytes up up').leader.role = .leader ∧ (installing bytes up up').follower.role = .follower)
    (terms : (installing bytes up up').leader.currentTerm = 1 ∧ (installing bytes up up').follower.currentTerm = 1)
    (names : (installing bytes up up').leader.config.selfId = 1 ∧ (installing bytes up up').follower.config.selfId = 3)
    (found : get? (installing bytes up up').leader.peerProgress 3 = some (awaitsChunk bytes.length))
    (image : (installing bytes up up').leader.durableSnapshot = some ⟨1,1,bytes⟩)
    (base : 1 ≤ (installing bytes up up').leader.baseIndex) (short : bytes.length ≤ 1) :
    Transfer (installing bytes up up') (onlyChunk bytes) (awaitsChunk bytes.length) ⟨1,1,bytes⟩ where
  talk := running_talk (play_reachable _) (running_core _) (running_core _) roles.1 roles.2 (terms.2.trans terms.1.symm)
    (show 1 ≠ 3 by decide)
  sent := rfl
  newest := ⟨names.2 ▸ found,image,base,rfl,rfl,Nat.zero_le _,rfl,show 6 ≠ 0 by decide,by simp [onlyChunk,awaitsChunk],by
    simp [chunkAt,onlyChunk,terms.1,names.1,Nat.le_trans short (show 1 ≤ snapshotChunkSize by decide)]⟩
  small := Nat.le_trans short (by decide)

theorem snapshot_transfer_terminates_compacted : ⟨1,3,.installSnapshot (onlyChunk [7])⟩ ∈ (compacted [7]).network ∧
    Rounds.Reaches Session.round (Session.Installed 1) (installing [7] (by decide) (by decide)) :=
  ⟨by decide,(snapshot_transfer_terminates_iff (installing_transfer (by decide) (by decide) (by decide) (by decide) (by decide)
    (by decide) (by decide))).mpr ⟨by decide,by decide,.inl rfl⟩⟩

theorem empty_image_never_installed : ⟨1,3,.installSnapshot (onlyChunk [])⟩ ∈ (compacted []).network ∧
    Transfer (installing [] (by decide) (by decide)) (onlyChunk []) (awaitsChunk 0) ⟨1,1,[]⟩ ∧
    ¬ Rounds.Reaches Session.round (Session.Installed 1) (installing [] (by decide) (by decide)) := by
  have transfer : Transfer (installing [] (by decide) (by decide)) (onlyChunk []) (awaitsChunk 0) ⟨1,1,[]⟩ :=
    installing_transfer (by decide) (by decide) (by decide) (by decide) (by decide) (by decide) (by decide)
  refine ⟨by decide,transfer,Session.Stalled.not_reaches ⟨_,_,_,transfer,rfl,?_⟩⟩
  rintro ⟨positive,-⟩
  exact absurd positive (by decide)

end ForgeKv.Raft
