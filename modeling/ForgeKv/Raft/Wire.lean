import ForgeKv.Raft.Progress

namespace ForgeKv.Raft
open Lineage Ballot

-- The vote that a message shows its sender to have cast: its term and the candidate.
def Packet.ballot (packet : Packet) : Option (Nat × NodeId) :=
  match packet.message with
  | .requestVote request => some (request.term,packet.source)
  | .requestVoteResponse response => if response.voteGranted then some (response.term,packet.target) else none
  | _ => none

-- The term that a message shows its sender to lead.
def Packet.reign (packet : Packet) : Option Nat :=
  match packet.message with
  | .appendEntries request => some request.term
  | .installSnapshot request => some request.term
  | _ => none

-- The machine is past the term, or it has this vote on disk.
def Host.Voted (host : Host) (term : Nat) (candidate : NodeId) : Prop :=
  term ≤ host.durable.currentTerm ∧ (host.durable.currentTerm = term → host.durable.votedFor = some candidate)

section
variable {voters : List NodeId} {cluster now after : Cluster} {ghost : Abstract} {packet : Packet} {entry : LogEntry} {id : Id}

section
variable (inv : Inv voters cluster ghost)
include inv

theorem ballot_cast (sent : packet ∈ cluster.network) (shown : packet.ballot = some (term,candidate)) :
    ∃ behind, ghost.votes packet.source term = some (candidate,behind) := by
  have ok := inv.packets packet sent
  obtain ⟨source,target,message⟩ := packet
  cases message with
  | requestVote =>
    cases shown
    exact ⟨_,ok⟩
  | requestVoteResponse =>
    simp only [Packet.ballot,Option.ite_none_right_eq_some] at shown
    obtain ⟨granted,shown⟩ := shown
    cases shown
    exact ok granted
  | _ => cases shown

theorem reign_elected (sent : packet ∈ cluster.network) (shown : packet.reign = some term) :
    ∃ start, ghost.elected term = some (packet.source,start) := by
  have ok := inv.packets packet sent
  obtain ⟨source,target,message⟩ := packet
  cases message with
  | appendEntries | installSnapshot =>
    cases shown
    exact ok.1
  | _ => cases shown

theorem cast_voted (cast : ghost.votes host term = some (candidate,behind)) : (cluster.hosts host).Voted term candidate := by
  have view := inv.durable host
  refine ⟨view.term ▸ (inv.valid.voted _ _ _ _ cast).2.1,fun now => (view.vote candidate).mpr ⟨behind,?_⟩⟩
  rw [now]
  exact cast

-- A chosen position is never lost by a machine that it was chosen with: every
-- leader since had it.
theorem settled_majority (settled : Settled voters.toFinset ghost entry.id) (written : ghost.tree entry.id = some content) :
    ∃ quorum, Majority voters.toFinset quorum ∧ ∀ host ∈ quorum, Above ghost.tree (ghost.head host) entry.id := by
  obtain ⟨term,zero | ⟨epoch,top,-,chosen,above⟩⟩ := settled
  · have positive := (inv.valid.rooted.positive _ _ written).1
    rw [zero] at positive
    cases positive
  · obtain ⟨same,quorum,majority,behind⟩ := chosen
    refine ⟨quorum,majority,fun host member => ?_⟩
    obtain ⟨place,held,reach⟩ := behind host member
    have kept : Kept ghost epoch (ghost.term host) top := fun later leader start after _ led =>
      chosen_start inv.valid ⟨same,quorum,majority,behind⟩ led after
    exact (inv.valid.retained _ _ _ _ held reach same kept).trans above

end

-- No machine ever shows two votes in one term, and its disk keeps what it has shown.
theorem votes_shown_durable (reachable : Cluster.Reachable voters cluster) {one : Packet} (sent : one ∈ cluster.network)
    (shown : one.ballot = some (term,candidate)) : (cluster.hosts one.source).Voted term candidate ∧
      ∀ two ∈ cluster.network, two.source = one.source → ∀ other, two.ballot = some (term,other) → other = candidate := by
  obtain ⟨ghost,inv⟩ := reachable_inv reachable
  obtain ⟨behind,cast⟩ := ballot_cast inv sent shown
  refine ⟨cast_voted inv cast,fun two sent' same other shown' => ?_⟩
  obtain ⟨behind',cast'⟩ := ballot_cast inv sent' shown'
  rw [same,cast] at cast'
  exact (Prod.mk.inj (Option.some.inj cast')).1.symm

theorem votes_shown_durable_handover : (handover.hosts 2).Voted 1 1 ∧ (handover.hosts 3).Voted 2 2 :=
  ⟨(votes_shown_durable (play_reachable _) (handover.network.get_mem ⟨2,by decide⟩) (by decide)).1,
   (votes_shown_durable (play_reachable _) (handover.network.get_mem ⟨10,by decide⟩) (by decide)).1⟩

-- Leaders' messages of one term have one sender, and a majority keeps its vote for it.
theorem leaders_shown_backed (reachable : Cluster.Reachable voters cluster) {one : Packet} (sent : one ∈ cluster.network)
    (shown : one.reign = some term) : (∀ two ∈ cluster.network, two.reign = some term → two.source = one.source) ∧
      ∃ quorum, Majority voters.toFinset quorum ∧ ∀ host ∈ quorum, (cluster.hosts host).Voted term one.source := by
  obtain ⟨ghost,inv⟩ := reachable_inv reachable
  obtain ⟨start,led⟩ := reign_elected inv sent shown
  constructor
  · intro two sent' shown'
    obtain ⟨start',led'⟩ := reign_elected inv sent' shown'
    rw [led] at led'
    exact (Prod.mk.inj (Option.some.inj led')).1.symm
  · obtain ⟨-,quorum,majority,votes⟩ := inv.valid.backed _ _ _ led
    refine ⟨quorum,majority,fun host member => ?_⟩
    obtain ⟨behind,cast,-⟩ := votes host member
    exact cast_voted inv cast

theorem leaders_shown_backed_handover : ∃ quorum, Majority [1,2,3].toFinset quorum ∧ ∀ host ∈ quorum, (handover.hosts host).Voted 1 1 :=
  (leaders_shown_backed (play_reachable _) (handover.network.get_mem ⟨3,by decide⟩) (by decide)).2

-- What was applied anywhere is, from then on, on the disks of a majority.
theorem applied_on_majority (reachable : Cluster.Reachable voters cluster) {event : Event} (released : event ∈ cluster.released)
    (applies : event.action = .applyEntry entry) : ∃ quorum, Majority voters.toFinset quorum ∧ ∀ host ∈ quorum,
      entry.index ≤ (cluster.hosts host).durable.baseIndex ∨ entry ∈ (cluster.hosts host).durable.log := by
  obtain ⟨ghost,inv⟩ := reachable_inv reachable
  obtain ⟨settled,before,written⟩ := applied_committed inv released applies
  obtain ⟨quorum,majority,behind⟩ := settled_majority inv settled written
  refine ⟨quorum,majority,fun host member => ?_⟩
  rcases Nat.lt_or_ge (cluster.hosts host).durable.baseIndex entry.index with beyond | covered
  · have path := (inv.durable host).path
    obtain ⟨stored,found,same⟩ := path.find (behind host member) beyond
    obtain ⟨-,-,-,_,content⟩ := path.member found
    rw [same,written] at content
    have equal : stored = entry := LogEntry.ext_id same (Prod.mk.inj (Option.some.inj content)).1.symm
    exact .inr (equal ▸ List.mem_of_getElem? found)
  · exact .inl covered

theorem handover_applies : (handover.released.get ⟨14,by decide⟩).action = .applyEntry ⟨1,1,.noOp,[]⟩ := by decide

theorem applied_on_majority_handover : ∃ quorum, Majority [1,2,3].toFinset quorum ∧ ∀ host ∈ quorum,
    1 ≤ (handover.hosts host).durable.baseIndex ∨ ⟨1,1,.noOp,[]⟩ ∈ (handover.hosts host).durable.log :=
  applied_on_majority (play_reachable _) (List.get_mem ..) handover_applies

-- What a message presents as committed is what nodes apply.
theorem announced_commits_applied (reachable : Cluster.Reachable voters cluster) {event : Event}
    (released : event ∈ cluster.released) (applies : event.action = .applyEntry entry) {source target : NodeId} :
    (∀ request, ⟨source,target,.appendEntries request⟩ ∈ cluster.network → ∀ other ∈ request.entries,
      other.index = entry.index → entry.index ≤ request.leaderCommit → other = entry) ∧
    ∀ request, ⟨source,target,.installSnapshot request⟩ ∈ cluster.network →
      request.lastIncludedIndex = entry.index → request.lastIncludedTerm = entry.term := by
  obtain ⟨ghost,inv⟩ := reachable_inv reachable
  obtain ⟨settled,before,written⟩ := applied_committed inv released applies
  constructor
  · intro request sent other member same low
    obtain ⟨-,⟨last,line,path⟩,done,index,doneLine,committed⟩ := inv.packets _ sent
    obtain ⟨position,found⟩ := List.mem_iff_getElem?.mp member
    obtain ⟨-,above,-,before',written'⟩ := path.member found
    have below := line_comparable inv.valid doneLine (line.below above) (show other.index ≤ done.index by omega)
    exact committed_entry inv ⟨_,committed.below inv.valid below⟩ settled same written' written
  · intro request sent same
    obtain ⟨-,-,committed⟩ := inv.packets _ sent
    obtain ⟨term,settled⟩ := settled
    exact congrArg Id.term (committed_unique inv.valid settled committed same.symm (.inr ⟨_,written⟩)).symm

theorem announced_commits_applied_handover : ∃ request, ⟨1,3,.appendEntries request⟩ ∈ handover.network ∧
    1 ≤ request.leaderCommit ∧ ∀ other ∈ request.entries, other.index = 1 → other = ⟨1,1,.noOp,[]⟩ := by
  have sent : ⟨1,3,.appendEntries ⟨1,1,0,0,[⟨1,1,.noOp,[]⟩],1,4⟩⟩ ∈ handover.network := by decide
  have same := (announced_commits_applied (play_reachable _) (List.get_mem ..) handover_applies).1 _ sent
  exact ⟨_,sent,by decide,fun other member index => same other member index (by decide)⟩

-- No crash and no restart takes a disk back to an earlier term or to another vote.
theorem disks_never_regress (reachable : Cluster.Reachable voters now) (path : now.Later voters after) (host : NodeId) :
    (now.hosts host).durable.currentTerm ≤ (after.hosts host).durable.currentTerm ∧
    ∀ candidate, (now.hosts host).durable.votedFor = some candidate →
      (after.hosts host).Voted (now.hosts host).durable.currentTerm candidate := by
  obtain ⟨ghost,inv,steady⟩ := reachable_steady reachable
  obtain ⟨later,grows,next,-⟩ := later_steady inv steady path
  have view := inv.durable host
  refine ⟨view.term ▸ (next.durable host).term ▸ grows.term host,fun candidate voted => ?_⟩
  obtain ⟨behind,cast⟩ := (view.vote candidate).mp voted
  exact cast_voted next (grows.votes _ _ _ cast)

theorem disks_never_regress_handover : ((handover.setCore 3 none).hosts 3).Voted 2 2 :=
  (disks_never_regress (play_reachable _) (.step .here (.crash 3)) 3).2 2 (by decide)

-- The log of a leader has all that its term's line has.
theorem leader_reaches (inv : Inv voters now ghost) (leads : now.LedBy host leader) (line : OnLine ghost leader.currentTerm id) :
    Above ghost.tree (ghost.head host) id := by
  have running := inv.running host leader leads.up
  obtain ⟨elect,start,led,tip,isTip,above⟩ := line
  obtain ⟨start',led',own⟩ := (running.within inv).tip leads.role
  cases led.symm.trans led'
  refine (line_tips inv.valid led own isTip ?_).trans above
  rcases isTip with rfl | ⟨same,written,found⟩
  · rcases own with equal | ⟨equal,written,found⟩
    · exact Nat.le_of_eq (congrArg Id.index equal.symm)
    · obtain ⟨_,start,led',short,-⟩ := term_start inv.valid found
      cases (equal ▸ led').symm.trans led
      exact Nat.le_of_lt short
  · exact (running.sim.leads leads.role).top _ written (same ▸ found)

-- A leader never takes back an entry of its log: at any later time at which it
-- leads the same term, it still has the entry or has compacted it.
theorem leader_append_only (reachable : Cluster.Reachable voters now) (leads : now.LedBy host leader)
    (path : now.Later voters after) (led : after.LedBy host leader') (same : leader'.currentTerm = leader.currentTerm)
    (holds : Holds leader entry) : entry.index ≤ leader'.baseIndex ∨ Holds leader' entry := by
  obtain ⟨ghost,inv,steady⟩ := reachable_steady reachable
  obtain ⟨later,grows,next,-⟩ := later_steady inv steady path
  obtain ⟨above,before,written⟩ := holds_above (inv.running host leader leads.up).sim.sound (leader_path inv leads) holds
  have line : OnLine later leader'.currentTerm entry.id := by
    rw [same]
    exact ((leader_line inv leads).below above).grow grows
  rcases Nat.lt_or_ge leader'.baseIndex entry.index with beyond | covered
  · have sound := (next.running host leader' led.up).sim.sound
    obtain ⟨-,other,stored,-⟩ := (hasAt_above sound (leader_path next led)).mpr ⟨Nat.le_of_lt beyond,leader_reaches next led line⟩
    have place := sound.index_of stored
    have index : other.index = entry.index := by omega
    have holds : Holds leader' other := ⟨index.symm ▸ beyond,index.symm ▸ stored⟩
    exact .inr ((line_agrees next led (.refl _) next.valid line (grows.tree _ _ written)).1 other holds index ▸ holds)
  · exact .inl covered

-- The leader appends a command behind the entry.
def appended : RaftNode × Actions := (handover.running 2 (by decide)).returns (.propose [5])

theorem leader_append_only_handover : Holds appended.1 ⟨3,2,.command,[5]⟩ ∧
    (1 ≤ appended.1.baseIndex ∨ Holds appended.1 ⟨1,1,.noOp,[]⟩) := by
  have leads : handover.LedBy 2 (handover.running 2 (by decide)) := ⟨running_core _,by decide⟩
  have holds : Holds (handover.running 2 (by decide)) ⟨1,1,.noOp,[]⟩ := by
    unfold Holds
    decide
  have ran : (handover.running 2 (by decide)).call (.propose [5]) = .ok (appended.1,appended.2) := rfl
  have led : (handover.execute 2 appended.1 (some appended.1) appended.2 (schedule appended.2)).LedBy 2 appended.1 :=
    ⟨by simp only [Cluster.execute,Function.update_self],by decide⟩
  have kept := leader_append_only (play_reachable _) leads (.step .here (.call leads.up (offers_of_now rfl) ran)) led (by decide) holds
  exact ⟨by unfold Holds; decide,kept⟩

end
end ForgeKv.Raft
