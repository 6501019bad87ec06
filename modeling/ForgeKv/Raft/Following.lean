import ForgeKv.Raft.Leading

namespace ForgeKv.Raft
open Assoc Lineage Ballot

variable {voters : Finset NodeId} {net : Packet → Prop} {ghost later : Abstract} {host : NodeId} {node after : RaftNode}
  {id : Id} {image : StateMachineSnapshot}

theorem Path.followed {tree : Lineage.Tree Payload} {start stop top : Id} (path : Path tree start entries stop)
    (above : Above tree top start) (all : ∀ entry ∈ entries, Above tree top entry.id) : Above tree top stop := by
  induction entries generalizing start with
  | nil => cases path; exact above
  | cons entry rest ih =>
    exact ih path.2.2 (all entry List.mem_cons_self) (fun other member => all other (List.mem_cons_of_mem _ member))

section
variable (within : Within voters net ghost host node)
include within

theorem Within.moved (turn : Turn voters host ghost later)
    (sound : Sound after) (config : after.config = node.config) (before : node.role = .follower) (role : after.role = .follower)
    (view : Matches voters later host after.persistent) (actions : after.actions = node.actions)
    (commit : ∃ term, Committed voters later after.currentTerm ⟨after.commitIndex,term⟩ ∧
      Above later.tree (later.head host) ⟨after.commitIndex,term⟩)
    (base : ¬ Quiet node.actions → after.baseIndex ≤ node.baseIndex) (forward : node.commitIndex ≤ after.commitIndex) :
    Within voters net later host after := by
  refine within.follower turn sound config role view actions commit fun action member => ?_
  refine (within.emitted action member).carry turn.grows ?_ ?_ forward
  · intro wrong
    rw [before] at wrong
    cases wrong
  · intro fromIndex toIndex same
    rw [same] at member
    exact base (fun quiet => quiet _ _ member)

theorem Within.accepted (delivered : net ⟨source,host,.appendEntries request⟩)
    (accepts : Accepts node source request) : ∃ last, OnLine ghost node.currentTerm last ∧
      Path ghost.tree ⟨request.previousLogIndex,request.previousLogTerm⟩ request.entries last ∧
      Above ghost.tree (ghost.head host) ⟨request.previousLogIndex,request.previousLogTerm⟩ ∧
      ∃ done, done.index = request.leaderCommit ∧ OnLine ghost node.currentTerm done ∧
        Committed voters ghost node.currentTerm done := by
  obtain ⟨-,⟨last,line,path⟩,done⟩ := within.packets _ (.inl delivered)
  rw [accepts.term] at line done
  exact ⟨last,line,path,(within.hasAt.mp accepts.previous).2,done⟩

theorem Within.holds (holds : Holds node entry) :
    Above ghost.tree (ghost.head host) entry.id := (holds_above within.sim.sound within.path holds).1

theorem replace_within (delivered : net ⟨source,host,.appendEntries request⟩)
    (joins : Joins node source request before entry rest) (conflict : Conflicts node entry) :
    ∃ later, Turn voters host ghost later ∧ Within voters net later host (node.replaceSuffix entry.index (entry::rest)) := by
  have now : ghost.term host = node.currentTerm := within.sim.view.term
  have ⟨accepts,split,kept⟩ := joins
  obtain ⟨last,line,path,previous,-⟩ := within.accepted delivered accepts
  obtain ⟨low,fits,-⟩ := before_conflict joins
  have reached := within.sim.sound.reached
  -- The request and the log share the position before the conflict.
  rw [split] at path
  obtain ⟨joint,front,back⟩ := path.split
  have shared : Above ghost.tree (ghost.head host) joint := front.followed previous (fun earlier member => within.holds (kept earlier member))
  have place : joint.index+1 = entry.index := back.1.symm
  have missing : ¬ Above ghost.tree (ghost.head host) last := by
    intro above
    have own := above.trans back.2.2.above
    cases conflict with
    | inl beyond =>
      have bound := own.index_le
      rw [within.head] at bound
      exact absurd bound (Nat.not_le.mpr beyond)
    | inr different =>
      obtain ⟨-,existing,found,other⟩ := different
      have present := (within.hasAt.mp ⟨Nat.le_of_lt low,existing,found,rfl⟩).2
      exact other (congrArg Id.term (present.unique own rfl))
  have turn : Turn voters host ghost (ghost.record host (ghost.term host) last) := adopt_turn (by rw [now]; exact line) missing
  have head : (ghost.record host (ghost.term host) last).head host = last := Function.update_self ..
  have sound := replace_sound within.sim.sound joins
    (conflict.imp (fun beyond => beyond) (fun different => different.1))
  have base := (replace_last within.sim.sound joins).2
  -- What remains of the log is the way to the shared position.
  have log : Path ghost.tree node.baseId (node.log.take (entry.index-node.baseIndex) ++ entry::rest).tail last := by
    obtain ⟨remaining,shape⟩ := within.sim.sound.log.front
    have own := within.path
    rw [show entry.index-node.baseIndex = entry.index-node.baseIndex-1+1 by omega,shape,List.take_succ_cons,List.cons_append,
      List.tail_cons]
    rw [shape,List.tail_cons,← List.take_append_drop (entry.index-node.baseIndex-1) remaining] at own
    obtain ⟨middle,begin,tail⟩ := own.split
    have length : node.log.length = remaining.length+1 := by rw [shape]; rfl
    have equal : middle = joint := by
      refine tail.above.unique shared ?_
      rw [begin.index,baseId_index within.sim.sound,List.length_take]
      omega
    exact begin.append (equal ▸ back)
  refine ⟨_,turn,?_⟩
  have silent : Within voters net (ghost.record host (ghost.term host) last) host
      {node.replaceSuffix entry.index (entry::rest) with actions := node.actions} := by
    refine within.moved turn {sound with} rfl accepts.follower accepts.follower ⟨?_,within.sim.view.vote,?_,?_⟩ rfl ?_ ?_ ?_
    · exact (Function.update_self ..).trans now
    · rw [head]
      have whole := log
      rw [← persistent_baseId] at whole
      exact whole
    · exact within.sim.view.base.grow turn.grows
    · obtain ⟨epoch,committed,above⟩ := within.sim.commit
      rw [head]
      refine ⟨epoch,committed.grow turn.grows,back.above.trans (shared.comparable above ?_)⟩
      show node.commitIndex ≤ joint.index
      rcases conflict with past | ⟨ahead,-⟩ <;> omega
    · exact fun _ => Nat.le_of_eq base
    · exact Nat.le_refl _
  refine silent.note [_] ?_ ?_
  · intro action member
    rw [List.mem_singleton.mp member]
    trivial
  · intro target message member
    cases List.mem_singleton.mp member

theorem Within.covers {request : AppendEntries} {last : Id} (held : ∀ entry ∈ request.entries, Holds node entry)
    (path : Path ghost.tree ⟨request.previousLogIndex,request.previousLogTerm⟩ request.entries last)
    (previous : Above ghost.tree (ghost.head host) ⟨request.previousLogIndex,request.previousLogTerm⟩) :
    Above ghost.tree (ghost.head host) last ∧ last.index = request.previousLogIndex+request.entries.length :=
  ⟨path.followed previous (fun entry member => within.holds (held entry member)),path.index⟩

theorem learn_within (delivered : net ⟨source,host,.appendEntries request⟩)
    (accepts : Accepts node source request) (held : ∀ entry ∈ request.entries, Holds node entry)
    (forward : node.commitIndex < index) (offered : index ≤ request.leaderCommit)
    (covered : index ≤ request.previousLogIndex+request.entries.length) :
    Within voters net ghost host (node.commitTo index) := by
  obtain ⟨last,line,path,previous,done,place,doneLine,committed⟩ := within.accepted delivered accepts
  obtain ⟨above,length⟩ := within.covers held path previous
  obtain ⟨term,below⟩ := ancestor_at within.valid.rooted (line_known within.valid line) (length ▸ covered)
  have settled : Committed voters ghost node.currentTerm ⟨index,term⟩ :=
    committed.below within.valid (line_comparable within.valid doneLine (line.below below) (place ▸ offered))
  exact commitTo_within within forward settled (above.trans below)

theorem answerVote_within (truthful : granted = true → node.votedFor = some source) :
    Within voters net ghost host (node.push (.sendMessage source (.requestVoteResponse ⟨node.currentTerm,granted⟩))) := by
  refine within.send ?_ (fun _ wrong => nomatch wrong)
  exact fun success => (within.sim.view.vote source).mp (truthful success)

theorem refuseEntries_within :
    Within voters net ghost host (node.sendAppendResponse source request false 0 hint) :=
  within.send (fun wrong => nomatch wrong) (fun _ wrong => nomatch wrong)

theorem acceptEntries_within (delivered : net ⟨source,host,.appendEntries request⟩)
    (accepts : Accepts node source request) (held : ∀ entry ∈ request.entries, Holds node entry) :
    Within voters net ghost host
      (node.sendAppendResponse source request true (request.previousLogIndex+request.entries.length) 0) := by
  obtain ⟨last,line,path,previous,-⟩ := within.accepted delivered accepts
  obtain ⟨above,length⟩ := within.covers held path previous
  refine within.send ?_ (fun _ wrong => nomatch wrong)
  exact fun _ => ⟨last,length,line,_,within.holding,above⟩

theorem refuseChunk_within :
    Within voters net ghost host (node.sendSnapshotResponse source request false offset) :=
  within.send (fun wrong => nomatch wrong) (fun _ wrong => nomatch wrong)

theorem acceptChunk_within (delivered : net ⟨source,host,.installSnapshot request⟩)
    (term : request.term = node.currentTerm) (whole : offset = request.totalSize → request.lastIncludedIndex ≤ node.commitIndex) :
    Within voters net ghost host (node.sendSnapshotResponse source request true offset) := by
  refine within.send ?_ (fun _ wrong => nomatch wrong)
  refine fun _ => ⟨request,delivered,term,rfl,fun complete => ⟨_,within.holding,?_⟩⟩
  -- Both boundaries are committed, so they are in line.
  obtain ⟨-,-,committed⟩ := within.packets _ (.inl delivered)
  obtain ⟨epoch,own,above⟩ := within.sim.commit
  exact above.trans (committed_above within.valid own committed (whole complete) (committed_known within.valid own))

theorem Within.suffix (has : HasAt node index term) :
    Path ghost.tree ⟨index,term⟩ (node.log.drop (index-node.baseIndex+1)) (ghost.head host) := by
  obtain ⟨low,above⟩ := within.hasAt.mp has
  have path := within.path
  have length := path.index
  have bound := above.index_le
  have base := baseId_index within.sim.sound
  rw [← List.take_append_drop (index-node.baseIndex) node.log.tail] at path
  obtain ⟨middle,front,back⟩ := path.split
  have equal : middle = ⟨index,term⟩ := by
    refine back.above.unique above ?_
    rw [front.index,List.length_take]
    simp only at bound ⊢
    omega
  rw [← List.drop_tail,← equal]
  exact back

theorem install_within (delivered : net ⟨source,host,.installSnapshot request⟩)
    (installs : Installs node source request incoming installed rest) :
    ∃ later, Turn voters host ghost later ∧ Within voters net later host (node.adoptImage installed rest) := by
  have now : ghost.term host = node.currentTerm := within.sim.view.term
  obtain ⟨sound,commit⟩ := adoptImage_sound within.sim.sound installs
  obtain ⟨-,line,committed⟩ := within.packets _ (.inl delivered)
  rw [← installs.index,← installs.boundaryTerm,installs.term] at line committed
  have low : node.baseIndex ≤ installed.lastIncludedIndex := Nat.le_trans within.sim.sound.retained (Nat.le_of_lt installs.forward)
  have adopted : ∃ later, Turn voters host ghost later ∧ later.term host = node.currentTerm ∧ later.votes = ghost.votes ∧
      Path later.tree ⟨installed.lastIncludedIndex,installed.lastIncludedTerm⟩ rest (later.head host) := by
    cases installs.suffix with
    | inl keeps =>
      obtain ⟨has,rfl⟩ := keeps
      exact ⟨ghost,.refl _ _ _,now,rfl,within.suffix has⟩
    | inr drops =>
      obtain ⟨lacks,rfl⟩ := drops
      refine ⟨_,adopt_turn (by rw [now]; exact line) (fun above => lacks (within.hasAt.mpr ⟨low,above⟩)),?_,rfl,?_⟩
      · exact (Function.update_self ..).trans now
      · exact (Function.update_self host _ ghost.head).symm
  obtain ⟨later,turn,newTerm,votes,path⟩ := adopted
  have settled : Committed voters later node.currentTerm ⟨installed.lastIncludedIndex,installed.lastIncludedTerm⟩ :=
    committed.grow turn.grows
  refine ⟨later,turn,?_⟩
  have silent : Within voters net later host {node.adoptImage installed rest with actions := node.actions} := by
    refine within.moved turn {sound with} rfl installs.follower installs.follower ⟨newTerm,?_,path,settled⟩ rfl ?_ ?_ ?_
    · rw [votes]; exact within.sim.view.vote
    · refine ⟨installed.lastIncludedTerm,?_⟩
      rw [commit]
      exact ⟨settled,path.above⟩
    · exact fun loud => absurd installs.quiet loud
    · show node.commitIndex ≤ (node.adoptImage installed rest).commitIndex
      rw [commit]
      exact Nat.le_of_lt installs.forward
  have done := silent.note [.persistSnapshot installed,.applySnapshot installed] ?_ ?_
  · refine cast ?_ done
    simp only [RaftNode.adoptImage,RaftNode.push,List.append_assoc,List.cons_append,List.nil_append]
  · intro action member
    simp only [List.mem_cons,List.not_mem_nil,or_false] at member
    cases member with
    | inl equal => rw [equal]; exact ⟨Nat.zero_lt_of_lt installs.forward,_,settled⟩
    | inr equal => rw [equal]; exact ⟨Nat.zero_lt_of_lt installs.forward,_,settled⟩
  · intro target message member
    simp at member

theorem compact_within (quiet : Quiet node.actions)
    (forward : node.baseIndex < snapshot.lastIncludedIndex) (applied : snapshot.lastIncludedIndex ≤ node.commitIndex)
    (current : HasAt node snapshot.lastIncludedIndex snapshot.lastIncludedTerm) :
    Within voters net ghost host (node.cutLog snapshot) := by
  have sound := cutLog_sound within.sim.sound forward applied current
  have above := (within.hasAt.mp current).2
  have settled := within.settled above applied
  have silent : Within voters net ghost host {node.cutLog snapshot with actions := node.actions} := by
    refine ⟨within.valid,⟨{sound with},within.sim.self,within.sim.members,⟨within.sim.view.term,within.sim.view.vote,
      within.suffix current,settled⟩,within.sim.commit,?_,?_⟩,within.packets,?_⟩
    · exact fun standing => {within.sim.stands standing with}
    · intro leading
      obtain ⟨elected,top,matched,images⟩ := within.sim.leads leading
      refine ⟨elected,top,?_,?_⟩
      · intro peer progress member
        obtain ⟨old,present,rfl⟩ := mem_mapValues member
        exact matched peer old present
      · -- Every image sent before is older than the new one.
        intro target request sent newest
        refine .inl ?_
        show request.lastIncludedIndex < snapshot.lastIncludedIndex
        cases images target request sent newest with
        | inl => omega
        | inr own =>
          obtain ⟨image,present,index,-,-⟩ := own
          have base := baseId_index within.sim.sound
          rw [baseId_image present] at base
          simp only at base
          omega
    · intro action member
      refine (within.emitted action member).carry (.refl _) (fun leading => ⟨leading,rfl⟩) ?_ (Nat.le_refl _)
      intro fromIndex toIndex same
      exact absurd (same ▸ member) (quiet fromIndex toIndex)
  refine silent.note [_] ?_ ?_
  · intro action member
    rw [List.mem_singleton.mp member]
    exact ⟨Nat.zero_lt_of_lt forward,_,settled⟩
  · intro target message member
    cases List.mem_singleton.mp member

theorem move_within (move : Move packet offer node after)
    (delivered : ∀ source message, packet = some (source,message) → net ⟨source,host,message⟩) :
    ∃ later, Turn voters host ghost later ∧ Within voters net later host after := by
  have sound := move_sound within.sim.sound move
  have stay : Within voters net ghost host after →
      ∃ later, Turn voters host ghost later ∧ Within voters net later host after := fun same => ⟨ghost,.refl _ _ _,same⟩
  cases move with
  | retime => exact stay (within.quiet sound rfl rfl rfl rfl rfl rfl rfl)
  | raise arrived calm higher voter => exact raise_within within calm higher voter
  | stepDown calm voter => exact stay (stepDown_within within calm voter)
  | follow => exact stay (within.quiet sound rfl rfl rfl rfl rfl rfl rfl)
  | campaign timer calm other => exact campaign_within within calm other
  | grant arrived voter positive term named free fresh =>
    exact grant_within within (delivered _ _ arrived) voter positive term free fresh
  | countVote arrived voter candidate term granted =>
    exact stay (countVote_within within (delivered _ _ arrived) voter term granted)
  | elect candidate won => exact elect_within within candidate won
  | append leads => exact append_within within leads
  | commit leads forward reached current agreed => exact stay (commit_within within leads forward current agreed)
  | sendSuffix tracks kept previous => exact stay (sendSuffix_within within tracks kept previous)
  | sendChunk tracks image => exact stay (sendChunk_within within tracks image)
  | adjust tracks => exact stay (adjust_within within tracks.leads tracks.ok (within.tracked tracks.leads tracks.found tracks.same))
  | matchLog arrived counts => exact stay (matchLog_within within (delivered _ _ arrived) counts)
  | matchImage arrived counts => exact stay (matchImage_within within (delivered _ _ arrived) counts)
  | replace arrived joins conflict => exact replace_within within (delivered _ _ arrived) joins conflict
  | learn arrived accepts held forward offered covered =>
    exact stay (learn_within within (delivered _ _ arrived) accepts held forward offered covered)
  | answerVote arrived truthful => exact stay (answerVote_within within (fun granted => (truthful granted).1))
  | refuseEntries => exact stay (refuseEntries_within within)
  | acceptEntries arrived accepts held => exact stay (acceptEntries_within within (delivered _ _ arrived) accepts held)
  | refuseChunk => exact stay (refuseChunk_within within)
  | acceptChunk arrived term leader whole => exact stay (acceptChunk_within within (delivered _ _ arrived) term whole)
  | begin | gather | discard => exact stay (within.quiet sound rfl rfl rfl rfl rfl rfl rfl)
  | install arrived installs => exact install_within within (delivered _ _ arrived) installs
  | compact own asked calm forward applied current => exact stay (compact_within within (.calm calm) forward applied current)
  | refuse =>
    refine stay (within.note [_] ?_ ?_)
    · intro action member
      rw [List.mem_singleton.mp member]
      trivial
    · intro target message member
      cases List.mem_singleton.mp member

end

end ForgeKv.Raft
