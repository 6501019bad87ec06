import ForgeKv.Raft.Coverage
import ForgeKv.Raft.Script

namespace ForgeKv.Raft
open Assoc Lineage Ballot

variable {voters : List NodeId} {cluster : Cluster} {ghost : Abstract} {host : NodeId} {node : RaftNode}

-- One term has one leader, over all incarnations of all nodes and including the
-- calls that a crash cut off before anything of them was persisted.
theorem election_safety (reachable : Cluster.Reachable voters cluster) {one two : Event} (first : one ∈ cluster.returned)
    (second : two ∈ cluster.returned) (oneLeads : one.action = .roleChanged before .leader term leader)
    (twoLeads : two.action = .roleChanged previous .leader term other) : one.node = two.node := by
  obtain ⟨ghost,inv⟩ := reachable_inv reachable
  obtain ⟨oneVotes,oneWins⟩ := inv.returned one first _ _ _ oneLeads
  obtain ⟨twoVotes,twoWins⟩ := inv.returned two second _ _ _ twoLeads
  cases oneWins with
  | inl alone =>
    obtain ⟨only,rfl⟩ := List.length_eq_one_iff.mp alone
    rw [List.mem_singleton.mp oneVotes,List.mem_singleton.mp twoVotes]
  | inr elected =>
    obtain ⟨start,won⟩ := elected
    cases twoWins with
    | inl alone =>
      obtain ⟨only,rfl⟩ := List.length_eq_one_iff.mp alone
      rw [List.mem_singleton.mp oneVotes,List.mem_singleton.mp twoVotes]
    | inr elected =>
      obtain ⟨start',won'⟩ := elected
      rw [won] at won'
      exact (Prod.mk.inj (Option.some.inj won')).1

-- The first election is cut off before its vote is persisted, so that the term
-- is won once more after the restart.
def relapse : Cluster := .play [1]
  [.start soloConfig 0,.call 1 (.advanceTime 10) (some 0),.start soloConfig 0,.call 1 (.advanceTime 10) none]

theorem election_safety_relapse :
    (relapse.returned.get ⟨2,by decide⟩).action = .roleChanged .candidate .leader 1 (some 1) ∧
    (relapse.returned.get ⟨8,by decide⟩).action = .roleChanged .candidate .leader 1 (some 1) ∧
    (relapse.returned.get ⟨2,by decide⟩).node = (relapse.returned.get ⟨8,by decide⟩).node := by
  have first : (relapse.returned.get ⟨2,by decide⟩).action = .roleChanged .candidate .leader 1 (some 1) := by decide
  have second : (relapse.returned.get ⟨8,by decide⟩).action = .roleChanged .candidate .leader 1 (some 1) := by decide
  exact ⟨first,second,election_safety (play_reachable _) (List.get_mem ..) (List.get_mem ..) first second⟩

-- Node 1 wins term 1 and commits its first entry with node 2.
def opening : List Order :=
  [.start (trioConfig 1) 0,.start (trioConfig 2) 0,.start (trioConfig 3) 0,
   .call 1 (.advanceTime 10) none,
   .call 2 (.step 1 (.requestVote ⟨1,1,0,0⟩)) none,
   .call 1 (.step 2 (.requestVoteResponse ⟨1,true⟩)) none,
   .call 2 (.step 1 (.appendEntries ⟨1,1,0,0,[⟨1,1,.noOp,[]⟩],0,1⟩)) none,
   .call 1 (.step 2 (.appendEntriesResponse ⟨1,true,1,0,1⟩)) none]

-- Node 1 then compacts the entry, and node 2 wins term 2 with the vote of node
-- 3, whose log is empty.
def handover : Cluster := .play [1,2,3] (opening ++
  [.call 1 (.compact ⟨1,1,[7]⟩) none,
   .call 2 (.advanceTime 30) none,
   .call 3 (.step 2 (.requestVote ⟨2,2,1,1⟩)) none,
   .call 2 (.step 3 (.requestVoteResponse ⟨2,true⟩)) none])

theorem entryAt_found (read : node.entryAt index = .ok entry) :
    node.baseIndex ≤ index ∧ node.log[index-node.baseIndex]? = some entry := by
  unfold RaftNode.entryAt at read
  split at read
  · cases read
  rename_i inside
  split at read
  · rename_i found
    cases read
    exact ⟨Nat.not_lt.mp (fun low => inside (.inl low)),found⟩
  · cases read

theorem holds_of_entryAt (sound : Sound node) (read : node.entryAt index = .ok entry) (real : node.baseIndex < index) :
    Holds node entry ∧ entry.index = index := by
  obtain ⟨-,found⟩ := entryAt_found read
  have place := sound.index_of found
  have same : entry.index = index := by omega
  exact ⟨⟨by omega,by rw [same]; exact found⟩,same⟩

theorem Placed.holds (placed : Placed voters ghost host node) (path : Path ghost.tree node.baseId node.log.tail tip)
    (above : Above ghost.tree tip entry.id) (written : ghost.tree entry.id = some (entry.payload,before)) :
    (node.baseIndex < entry.index ∧ node.entryAt entry.index = .ok entry) ∨
      entry.index ≤ node.baseIndex := by
  have base := baseId_index placed.sound
  rcases Nat.lt_or_ge node.baseIndex entry.index with behind | ahead
  · refine .inl ⟨behind,?_⟩
    obtain ⟨own,found,same⟩ := path.find above (by rw [base]; exact behind)
    obtain ⟨-,-,-,_,stored⟩ := path.member found
    rw [same,written] at stored
    have equal : own = entry := LogEntry.ext_id same (Prod.mk.inj (Option.some.inj stored)).1.symm
    subst equal
    have bound := above.index_le
    have last := path_last placed.sound path
    obtain ⟨read,ran,place,-⟩ := placed.sound.entryAt (Nat.le_of_lt behind) (by rw [last] at bound; exact bound)
    rw [base] at found
    rw [← tail_get placed.sound behind] at place
    rw [ran,Option.some.inj (place.symm.trans found)]
  · exact .inr ahead

-- An entry that some node reported as committed, read from the node's own log.
def Cluster.CommitsAt (cluster : Cluster) (event : Event) (index : Nat) (entry : LogEntry) : Prop :=
  event ∈ cluster.released ∧ Covers [event.action] index ∧ event.state.entryAt index = .ok entry

theorem CommitsAt.committed (inv : Inv voters cluster ghost) (commits : cluster.CommitsAt event index entry) :
    entry.index = index ∧ Committed voters.toFinset ghost event.state.currentTerm entry.id ∧
      ∃ before, ghost.tree entry.id = some (entry.payload,before) := by
  obtain ⟨released,⟨fromIndex,toIndex,reported,behind,ahead⟩,read⟩ := commits
  have action := List.mem_singleton.mp reported
  have told := inv.released event released
  have fine := told.fine
  rw [← action] at fine
  obtain ⟨low,-,high⟩ := fine
  obtain ⟨sound,tip,path,⟨term,committed,above⟩,-⟩ := told.placed (by rw [← action]; rfl)
  obtain ⟨holds,same⟩ := holds_of_entryAt sound read (by omega)
  obtain ⟨reach,written⟩ := holds_above sound path holds
  refine ⟨same,committed.below inv.valid (above.comparable reach ?_),written⟩
  show entry.index ≤ event.state.commitIndex
  omega

-- A leader of a later term has everything that was reported as committed.
theorem leader_completeness (reachable : Cluster.Reachable voters cluster) {commit elected : Event}
    (commits : cluster.CommitsAt commit index entry) (released : elected ∈ cluster.released)
    (leads : elected.action = .roleChanged before .leader term leader) (later : commit.state.currentTerm < term) :
    (elected.state.baseIndex < index ∧ elected.state.entryAt index = .ok entry) ∨
      ∃ snapshot, elected.state.durableSnapshot = some snapshot ∧ index ≤ snapshot.lastIncludedIndex := by
  obtain ⟨ghost,inv⟩ := reachable_inv reachable
  obtain ⟨rfl,committed,content,written⟩ := CommitsAt.committed inv commits
  have told := inv.released elected released
  have fine := told.fine
  rw [leads] at fine
  obtain ⟨role,now⟩ := fine
  have placed := told.placed (by rw [leads]; rfl)
  obtain ⟨tip,path,-,won⟩ := placed.path
  obtain ⟨start,led,reach⟩ := won role
  have above := reach.trans (committed_start inv.valid committed led (by rw [now]; exact later))
  refine (placed.holds path above written).imp id (fun low => ?_)
  have positive := (inv.valid.rooted.positive _ _ written).1
  have base := placed.sound.base
  cases image : elected.state.durableSnapshot with
  | none =>
    rw [image] at base
    simp only [boundary,LogEntry.id] at base positive
    omega
  | some snapshot =>
    rw [image] at base
    exact ⟨snapshot,rfl,Nat.le_trans low (Nat.le_of_eq base)⟩

theorem handover_commits : handover.CommitsAt (handover.released.get ⟨13,by decide⟩) 1 ⟨1,1,.noOp,[]⟩ :=
  ⟨List.get_mem ..,⟨0,1,List.mem_singleton.mpr (show _ = _ by decide),by decide,by decide⟩,rfl⟩

theorem leader_completeness_handover :
    (handover.released.get ⟨26,by decide⟩).action = .roleChanged .candidate .leader 2 (some 2) ∧
    (handover.released.get ⟨26,by decide⟩).state.entryAt 1 = .ok ⟨1,1,.noOp,[]⟩ := by
  have leads : (handover.released.get ⟨26,by decide⟩).action = .roleChanged .candidate .leader 2 (some 2) := by decide
  refine ⟨leads,?_⟩
  have complete := leader_completeness (play_reachable _) handover_commits (List.get_mem ..) leads (by decide)
  refine (complete.resolve_right ?_).2
  rintro ⟨snapshot,wrong,-⟩
  have none : (handover.released.get ⟨26,by decide⟩).state.durableSnapshot = none := by decide
  cases none.symm.trans wrong

theorem committed_entry (inv : Inv voters cluster ghost) {one two : LogEntry} (first : Settled voters.toFinset ghost one.id)
    (second : Settled voters.toFinset ghost two.id) (same : one.index = two.index)
    (oneWritten : ghost.tree one.id = some (one.payload,before)) (twoWritten : ghost.tree two.id = some (two.payload,previous)) :
    one = two := by
  obtain ⟨term,committed⟩ := first
  obtain ⟨other,committed'⟩ := second
  have equal : one.id = two.id := committed_unique inv.valid committed committed' same (.inr ⟨_,oneWritten⟩)
  rw [equal,twoWritten] at oneWritten
  exact LogEntry.ext_id equal (Prod.mk.inj (Option.some.inj oneWritten)).1.symm

theorem applied_committed (inv : Inv voters cluster ghost) (released : event ∈ cluster.released)
    (applies : event.action = .applyEntry entry) : Settled voters.toFinset ghost entry.id ∧
      ∃ before, ghost.tree entry.id = some (entry.payload,before) := by
  have fine := (inv.released event released).fine
  rw [applies] at fine
  exact fine

theorem covered_commits (inv : Inv voters cluster ghost) (covered : cluster.Covered index) :
    ∃ event entry, cluster.CommitsAt event index entry := by
  obtain ⟨fromIndex,toIndex,member,behind,ahead⟩ := covered
  obtain ⟨event,released,action⟩ := List.mem_map.mp member
  have told := inv.released event released
  have fine := told.fine
  rw [action] at fine
  obtain ⟨low,-,high⟩ := fine
  have sound := (told.placed (by rw [action]; rfl)).sound
  have reached := sound.reached
  obtain ⟨entry,read,-⟩ := sound.entryAt (show event.state.baseIndex ≤ index by omega) (by omega)
  exact ⟨event,entry,released,⟨fromIndex,toIndex,List.mem_singleton.mpr action.symm,behind,ahead⟩,read⟩

-- No two nodes ever apply different entries at one index, and every snapshot
-- that is installed or compacted to stands at the one entry committed there.
theorem state_machine_safety (reachable : Cluster.Reachable voters cluster) :
    (∀ one ∈ cluster.released, ∀ two ∈ cluster.released, ∀ left right, one.action = .applyEntry left →
      two.action = .applyEntry right → left.index = right.index → left = right) ∧
    ∀ event ∈ cluster.released, ∀ snapshot, (event.action = .applySnapshot snapshot ∨ event.action = .persistSnapshot snapshot) →
      ∃ entry, entry.index = snapshot.lastIncludedIndex ∧ entry.term = snapshot.lastIncludedTerm ∧
        (∃ commit, cluster.CommitsAt commit snapshot.lastIncludedIndex entry) ∧
        (∀ commit other, cluster.CommitsAt commit snapshot.lastIncludedIndex other → other = entry) ∧
        ∀ apply ∈ cluster.released, ∀ other, apply.action = .applyEntry other → other.index = snapshot.lastIncludedIndex →
          other = entry := by
  obtain ⟨⟨ghost,inv⟩,cover⟩ := reachable_cover reachable
  refine ⟨?_,?_⟩
  · intro one first two second left right oneApplies twoApplies same
    obtain ⟨settled,_,written⟩ := applied_committed inv first oneApplies
    obtain ⟨settled',_,written'⟩ := applied_committed inv second twoApplies
    exact committed_entry inv settled settled' same written written'
  · intro event released snapshot stands
    have fine := (inv.released event released).fine
    have timely := cover.released event released
    have boundary : 0 < snapshot.lastIncludedIndex ∧
        Settled voters.toFinset ghost ⟨snapshot.lastIncludedIndex,snapshot.lastIncludedTerm⟩ ∧
        UpTo cluster.Covered snapshot.lastIncludedIndex := by
      cases stands with
      | inl applies => rw [applies] at fine timely; exact ⟨fine.1,fine.2,timely⟩
      | inr persists => rw [persists] at fine timely; exact ⟨fine.1,fine.2,timely⟩
    obtain ⟨positive,⟨term,settled⟩,covered⟩ := boundary
    obtain ⟨commit,entry,commits⟩ := covered_commits inv (covered _ positive (Nat.le_refl _))
    obtain ⟨index,committed,before,written⟩ := CommitsAt.committed inv commits
    have same : entry.id = ⟨snapshot.lastIncludedIndex,snapshot.lastIncludedTerm⟩ :=
      committed_unique inv.valid committed settled index (.inr ⟨_,written⟩)
    refine ⟨entry,index,congrArg Id.term same,⟨commit,commits⟩,?_,?_⟩
    · intro event other commits'
      obtain ⟨index',committed',_,written'⟩ := CommitsAt.committed inv commits'
      exact committed_entry inv ⟨_,committed'⟩ ⟨_,committed⟩ (index'.trans index.symm) written' written
    · intro event released' other applies index'
      obtain ⟨settled',_,written'⟩ := applied_committed inv released' applies
      exact committed_entry inv settled' ⟨_,committed⟩ (index'.trans index.symm) written' written

theorem state_machine_safety_handover : ∃ entry, entry.index = 1 ∧ entry.term = 1 ∧
    ∃ commit, handover.CommitsAt commit 1 entry := by
  have boundary := (state_machine_safety (play_reachable _)).2 (handover.released.get ⟨17,by decide⟩) (List.get_mem ..)
    ⟨1,1,[7]⟩ (.inr (by decide))
  obtain ⟨entry,index,term,commits,-,-⟩ := boundary
  exact ⟨entry,index,term,commits⟩

-- The retained log of a machine, sentinel first: that of its node while it runs,
-- and what a node would start with otherwise.
def Host.retained (host : Host) : List LogEntry :=
  match host.core with
  | some core => core.log
  | none => ⟨host.durable.baseIndex,host.durable.baseTerm,.noOp,[]⟩::host.durable.log

theorem retained_path (inv : Inv voters cluster ghost) (host : NodeId) : ∃ front rest, (cluster.hosts host).retained = front::rest ∧
    Path ghost.tree front.id rest (ghost.head host) := by
  have view := inv.durable host
  unfold Host.retained
  cases up : (cluster.hosts host).core with
  | none => exact ⟨_,_,rfl,view.path⟩
  | some core =>
    have running := inv.running host core up
    obtain ⟨rest,shape⟩ := running.sim.sound.log.front
    refine ⟨_,rest,shape,?_⟩
    have path := view.path
    rw [← running.stored,persistent_baseId] at path
    rw [show rest = core.persistent.log by unfold RaftNode.persistent; rw [shape]; rfl]
    exact path

theorem retained_above (inv : Inv voters cluster ghost) (member : entry ∈ (cluster.hosts host).retained) :
    Above ghost.tree (ghost.head host) entry.id := by
  obtain ⟨front,rest,shape,path⟩ := retained_path inv host
  rw [shape] at member
  cases List.mem_cons.mp member with
  | inl first => rw [first]; exact path.above
  | inr later =>
    obtain ⟨position,found⟩ := List.mem_iff_getElem?.mp later
    exact (path.member found).2.1

theorem retained_written (inv : Inv voters cluster ghost) (member : entry ∈ (cluster.hosts host).retained.tail) :
    Above ghost.tree (ghost.head host) entry.id ∧ ∃ before, ghost.tree entry.id = some (entry.payload,before) := by
  obtain ⟨front,rest,shape,path⟩ := retained_path inv host
  rw [shape,List.tail_cons] at member
  obtain ⟨position,found⟩ := List.mem_iff_getElem?.mp member
  obtain ⟨-,above,-,written⟩ := path.member found
  exact ⟨above,written⟩

-- Two logs that have an index with the same term agree there and below.
theorem log_matching (reachable : Cluster.Reachable voters cluster) {one two : NodeId} {left right : LogEntry}
    (first : left ∈ (cluster.hosts one).retained) (second : right ∈ (cluster.hosts two).retained)
    (index : left.index = right.index) (term : left.term = right.term) :
    (left ∈ (cluster.hosts one).retained.tail → right ∈ (cluster.hosts two).retained.tail → left = right) ∧
    ∀ lower ∈ (cluster.hosts one).retained.tail, ∀ other ∈ (cluster.hosts two).retained.tail,
      lower.index = other.index → lower.index < left.index → lower = other := by
  obtain ⟨ghost,inv⟩ := reachable_inv reachable
  have same : left.id = right.id := by
    unfold LogEntry.id
    rw [index,term]
  have agree : ∀ lower ∈ (cluster.hosts one).retained.tail, ∀ other ∈ (cluster.hosts two).retained.tail,
      lower.index = other.index → lower.index ≤ left.index → lower = other := by
    intro lower inOne other inTwo equal low
    obtain ⟨above,_,written⟩ := retained_written inv inOne
    obtain ⟨above',_,written'⟩ := retained_written inv inTwo
    have below : Above ghost.tree left.id lower.id := (retained_above inv first).comparable above low
    have below' : Above ghost.tree left.id other.id := by
      rw [same]
      exact (retained_above inv second).comparable above' (show other.index ≤ right.index by omega)
    have joint : lower.id = other.id := below.unique below' equal
    rw [joint,written'] at written
    exact LogEntry.ext_id joint (Prod.mk.inj (Option.some.inj written)).1.symm
  exact ⟨fun inOne inTwo => agree left inOne right inTwo index (Nat.le_refl _),
    fun lower inOne other inTwo equal low => agree lower inOne other inTwo equal (Nat.le_of_lt low)⟩

theorem log_matching_opening : ((Cluster.play [1,2,3] opening).hosts 1).retained.get ⟨1,by decide⟩ =
    ((Cluster.play [1,2,3] opening).hosts 2).retained.get ⟨1,by decide⟩ :=
  (log_matching (play_reachable _) (List.get_mem ..) (List.get_mem ..) (by decide) (by decide)).1 (by decide) (by decide)

end ForgeKv.Raft
