import ForgeKv.Library.Hold
import ForgeKv.Raft.Safety

namespace ForgeKv.Raft
open Assoc Lineage Ballot

-- The clusters that a run can pass through from this one on.
inductive Cluster.Later (voters : List NodeId) (cluster : Cluster) : Cluster → Prop where
  | here : Later voters cluster cluster
  | step : Later voters cluster middle → Cluster.Step voters middle after → Later voters cluster after

structure Cluster.LedBy (cluster : Cluster) (host : NodeId) (leader : RaftNode) : Prop where
  up : (cluster.hosts host).core = some leader
  role : leader.role = .leader

-- Where the node still has something at the entry's index, it is this entry or
-- a boundary of its term.
def RaftNode.Agrees (node : RaftNode) (entry : LogEntry) : Prop :=
  (∀ other, Holds node other → other.index = entry.index → other = entry) ∧
  (entry.index = node.baseIndex → HasAt node entry.index entry.term)

variable {voters : List NodeId} {cluster now after seen : Cluster} {ghost later : Abstract} {host peer : NodeId}
  {leader node : RaftNode} {entry : LogEntry} {id : Id}

theorem reachable_steady (reachable : Cluster.Reachable voters cluster) : ∃ ghost, Inv voters cluster ghost ∧ Steady ghost := by
  refine reachable.invariant (fun cluster => ∃ ghost, Inv voters cluster ghost ∧ Steady ghost)
    ⟨_,initial_inv voters,initial_steady⟩ ?_
  rintro before after ⟨ghost,inv,steady⟩ step
  obtain ⟨later,path,next⟩ := step_inv inv step
  exact ⟨later,next,runs_steady inv.valid steady path⟩

theorem later_steady (inv : Inv voters now ghost) (steady : Steady ghost) (path : now.Later voters after) :
    ∃ later, Grows ghost later ∧ Inv voters after later ∧ Steady later := by
  induction path with
  | here => exact ⟨ghost,.refl _,inv,steady⟩
  | step _ step ih =>
    obtain ⟨middle,grows,inv,steady⟩ := ih
    obtain ⟨later,path,next⟩ := step_inv inv step
    exact ⟨later,grows.trans (runs_grows path),next,runs_steady inv.valid steady path⟩

section leader
variable (inv : Inv voters now ghost) (leads : now.LedBy host leader)
include inv leads

theorem leader_line : OnLine ghost leader.currentTerm (ghost.head host) :=
  ((inv.running host leader leads.up).within inv).line leads.role

theorem leader_path : Path ghost.tree leader.baseId leader.log.tail (ghost.head host) :=
  ((inv.running host leader leads.up).within inv).path

theorem counted_place (recorded : (peer,progress) ∈ leader.peerProgress) (positive : 0 < index)
    (low : index ≤ progress.matchIndex) : ∃ id, id.index = index ∧ Above ghost.tree (ghost.head host) id ∧
      ∃ place, ghost.held peer leader.currentTerm place ∧ Above ghost.tree place id := by
  have running := inv.running host leader leads.up
  obtain zero | ⟨top,same,above,place,held,below⟩ := (running.sim.leads leads.role).matched peer progress recorded
  · omega
  have known := known_below inv.valid.rooted below (inv.valid.past _ _ _ held).2
  obtain ⟨term,under⟩ := ancestor_at inv.valid.rooted known (same.symm ▸ low)
  exact ⟨⟨index,term⟩,rfl,above.trans under,place,held,below.trans under⟩

theorem line_agrees (grows : Grows ghost later) (valid : Valid voters.toFinset later)
    (line : OnLine later leader.currentTerm entry.id) (written : later.tree entry.id = some (entry.payload,before)) :
    leader.Agrees entry := by
  have sound := (inv.running host leader leads.up).sim.sound
  have own := leader_line inv leads
  have path := leader_path inv leads
  constructor
  · intro other holds same
    obtain ⟨above,_,content⟩ := holds_above sound path holds
    have meets := line_comparable valid ((own.below above).grow grows) line (Nat.le_of_eq same.symm)
    have equal : other.id = entry.id := meets.eq_of_index (Nat.le_of_eq same)
    have kept := grows.tree _ _ content
    rw [equal,written] at kept
    exact LogEntry.ext_id equal (Prod.mk.inj (Option.some.inj kept)).1.symm
  · intro same
    have top : entry.index ≤ (ghost.head host).index := by
      have reach := path.above.index_le
      rwa [baseId_index sound,← same] at reach
    have above := line_comparable valid (own.grow grows) line top
    exact (hasAt_above sound path).mpr ⟨Nat.le_of_eq same.symm,
      above.restrict inv.valid.rooted (inv.valid.current host).1 grows.tree⟩

end leader

-- Seen from the state in which it was counted, what the peer has at the index
-- at a later time of the term is on the leader's line.
theorem counted_entry (inv : Inv voters now ghost) (steady : Steady ghost) (leads : now.LedBy host leader)
    (recorded : (peer,progress) ∈ leader.peerProgress) (path : now.Later voters after)
    (same : (after.hosts peer).durable.currentTerm = leader.currentTerm) (positive : 0 < index) (low : index ≤ progress.matchIndex)
    (behind : (after.hosts peer).durable.baseIndex < index) :
    ∃ entry, (after.hosts peer).durable.log[index-(after.hosts peer).durable.baseIndex-1]? = some entry ∧ entry.index = index ∧
      Above ghost.tree (ghost.head host) entry.id ∧ ∃ before, ghost.tree entry.id = some (entry.payload,before) := by
  obtain ⟨id,rfl,above,place,held,below⟩ := counted_place inv leads recorded positive low
  obtain ⟨later,grows,next,kept⟩ := later_steady inv steady path
  have view := next.durable peer
  have term : later.term peer = leader.currentTerm := view.term.trans same
  have line : OnLine ghost leader.currentTerm id := (leader_line inv leads).below above
  have reach : Above later.tree (later.head peer) id := by
    have stood : later.held peer (later.term peer) place := term.symm ▸ grows.held _ _ _ held
    exact kept.holds stood (term.symm ▸ line.grow grows) (below.extend grows.tree)
  obtain ⟨entry,found,rfl⟩ := view.path.find reach behind
  obtain ⟨-,-,-,before,written⟩ := view.path.member found
  refine ⟨entry,found,rfl,above,?_⟩
  -- The entry was in the tree when it was counted.
  rcases line_known inv.valid line with zero | ⟨⟨payload,earlier⟩,known⟩
  · have index := congrArg Id.index zero
    simp only [origin] at index
    omega
  · have agreed := grows.tree _ _ known
    rw [written] at agreed
    exact ⟨before,known.trans agreed.symm⟩

-- An index that a leader counted a peer for is, as long as the peer's term
-- lasts, covered by the peer's snapshot or held as the leader's entry.
theorem leader_progress_sound (reachable : Cluster.Reachable voters now) (leads : now.LedBy host leader)
    (recorded : (peer,progress) ∈ leader.peerProgress) (path : now.Later voters after)
    (same : (after.hosts peer).durable.currentTerm = leader.currentTerm) (positive : 0 < index) (low : index ≤ progress.matchIndex) :
    index ≤ (after.hosts peer).durable.baseIndex ∨
    ∃ entry ∈ (after.hosts peer).durable.log, entry.index = index ∧ (leader.baseIndex < index → Holds leader entry) ∧
      ∀ seen leader', Cluster.Reachable voters seen → seen.Later voters now ∨ now.Later voters seen →
        seen.LedBy host leader' → leader'.currentTerm = leader.currentTerm → leader'.Agrees entry := by
  rcases Nat.lt_or_ge (after.hosts peer).durable.baseIndex index with behind | covered
  · obtain ⟨ghost,inv,steady⟩ := reachable_steady reachable
    obtain ⟨entry,found,rfl,above,before,written⟩ := counted_entry inv steady leads recorded path same positive low behind
    have line := (leader_line inv leads).below above
    refine .inr ⟨entry,List.mem_of_getElem? found,rfl,fun retained => ?_,fun seen leader' past order led term => ?_⟩
    · have sound := (inv.running host leader leads.up).sim.sound
      obtain ⟨-,other,stored,-⟩ := (hasAt_above sound (leader_path inv leads)).mpr ⟨Nat.le_of_lt retained,above⟩
      have index : other.index = entry.index := by
        have position := sound.index_of stored
        omega
      have holds : Holds leader other := ⟨index.symm ▸ retained,index.symm ▸ stored⟩
      exact (line_agrees inv leads (.refl _) inv.valid line written).1 other holds index ▸ holds
    · rcases order with earlier | later
      · -- The run up to here is told again from the earlier state.
        obtain ⟨first,began,steady⟩ := reachable_steady past
        obtain ⟨ghost,grows,inv,steady⟩ := later_steady began steady earlier
        obtain ⟨other,again,-,above,before,written⟩ := counted_entry inv steady leads recorded path same positive low behind
        obtain rfl : entry = other := Option.some.inj (found.symm.trans again)
        have line := (leader_line inv leads).below above
        rw [← term] at line
        exact line_agrees began led grows inv.valid line written
      · obtain ⟨last,grows,next,-⟩ := later_steady inv steady later
        rw [← term] at line
        exact line_agrees next led (.refl _) next.valid (line.grow grows) (grows.tree _ _ written)
  · exact .inl covered

theorem leader_progress_sound_opening : ∃ entry ∈ ((Cluster.play [1,2,3] opening).hosts 2).durable.log,
    entry.index = 1 ∧ Holds ((Cluster.play [1,2,3] opening).running 1 (by decide)) entry := by
  have leads : (Cluster.play [1,2,3] opening).LedBy 1 ((Cluster.play [1,2,3] opening).running 1 (by decide)) :=
    ⟨running_core _,by decide⟩
  have recorded : (2,⟨2,1,3,1,[⟨3,1⟩],0,0,[]⟩) ∈ ((Cluster.play [1,2,3] opening).running 1 (by decide)).peerProgress := by decide
  have counted : 1 ≤ PeerProgress.matchIndex ⟨2,1,3,1,[⟨3,1⟩],0,0,[]⟩ := by decide
  rcases leader_progress_sound (play_reachable _) leads recorded .here (by decide) (by decide) counted with
    covered | ⟨entry,member,index,holds,-⟩
  · exact absurd covered (by decide)
  · exact ⟨entry,member,index,holds (by decide)⟩

end ForgeKv.Raft
