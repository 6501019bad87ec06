import ForgeKv.Raft.Refinement

namespace ForgeKv.Raft
open Assoc Lineage Ballot

variable {voters : Finset NodeId} {net : Packet → Prop} {ghost later : Abstract} {host : NodeId} {node after : RaftNode}
  {id : Id} {image : StateMachineSnapshot}

theorem Matched.higher (matched : Matched ghost peer term below index) (above : Above ghost.tree top below) :
    Matched ghost peer term top index := by
  cases matched with
  | inl zero => exact .inl zero
  | inr some =>
    obtain ⟨id,same,reach,held⟩ := some
    exact .inr ⟨id,same,above.trans reach,held⟩

theorem append_within (within : Within voters net ghost host node) (leads : node.role = .leader) :
    ∃ later, Turn voters host ghost later ∧ Within voters net later host (node.appendLocalEntry kind command) := by
  have leading := within.sim.leads leads
  have now : ghost.term host = node.currentTerm := within.sim.view.term
  have head := within.head
  obtain ⟨start,led,tip⟩ := leading.elected
  rw [← now] at led tip
  have turn := extend_turn within.valid (kind,command) led tip (by rw [now]; exact leading.top)
  have sound : Sound (node.appendLocalEntry kind command) := append_sound within.sim.sound leads
  generalize grown : (ghost.write ⟨(ghost.head host).index+1,ghost.term host⟩ (kind,command) (ghost.head host).term).record host
    (ghost.term host) ⟨(ghost.head host).index+1,ghost.term host⟩ = later at turn
  have tree : later.tree = Function.update ghost.tree ⟨(ghost.head host).index+1,ghost.term host⟩
      (some ((kind,command),(ghost.head host).term)) := by rw [← grown]; rfl
  have newHead : later.head host = ⟨(ghost.head host).index+1,ghost.term host⟩ := by rw [← grown]; exact Function.update_self ..
  have newTerm : later.term host = node.currentTerm := by rw [← grown,← now]; exact Function.update_self ..
  have votes : later.votes = ghost.votes := by rw [← grown]; rfl
  have written : later.tree ⟨(ghost.head host).index+1,ghost.term host⟩ = some ((kind,command),(ghost.head host).term) := by
    rw [tree]; exact Function.update_self ..
  have reach : Above later.tree (later.head host) (ghost.head host) := by
    rw [newHead]
    exact .step written .refl
  refine ⟨later,turn,?_⟩
  have silent : Within voters net later host {node.appendLocalEntry kind command with actions := node.actions} := by
    refine ⟨turn.valid within.valid,⟨{sound with},within.sim.self,within.sim.members,⟨newTerm,?_,?_,?_⟩,?_,?_,?_⟩,?_,?_⟩
    · rw [votes]; exact within.sim.view.vote
    · show Path later.tree node.persistent.baseId (node.log ++ [_]).tail _
      rw [List.tail_append_of_ne_nil within.sim.sound.log.nonempty,newHead]
      refine (within.sim.view.path.extend turn.grows.tree).append ⟨?_,?_,?_⟩
      · rw [head]
      · rw [head,now] at written
        rw [head]
        exact written
      · rw [head,now]; rfl
    · exact within.sim.view.base.grow turn.grows
    · obtain ⟨epoch,committed,above⟩ := within.sim.commit
      exact ⟨epoch,committed.grow turn.grows,reach.trans (above.extend turn.grows.tree)⟩
    · intro standing
      exact absurd (standing.symm.trans leads) (by decide)
    · refine fun _ => ⟨⟨start,?_,.inr ?_⟩,?_,?_,?_⟩
      · rw [now] at led
        exact turn.grows.elected _ _ led
      · rw [newHead]; exact now
      · intro index content found
        rw [newHead]
        rw [tree] at found
        by_cases same : index = (ghost.head host).index+1
        · exact Nat.le_of_eq same
        · rw [Function.update_of_ne] at found
          · exact Nat.le_succ_of_le (leading.top index content found)
          · intro equal
            exact same (congrArg Id.index equal)
      · intro peer progress member
        exact ((leading.matched peer progress member).grow turn.grows).higher reach
      · exact fun target request sent newest =>
          (leading.images target request sent newest).same (append_base within.sim.sound) rfl
    · exact fun packet sent => (within.packets packet sent).grow turn.grows (fun _ sent => sent)
    · intro action member
      refine (within.emitted action member).carry turn.grows (fun leading => ⟨leading,rfl⟩) ?_ (Nat.le_refl _)
      intro fromIndex toIndex same
      exact Nat.le_of_eq (append_base within.sim.sound)
  refine silent.note [_] ?_ ?_
  · intro action member
    rw [List.mem_singleton.mp member]
    trivial
  · intro target message member
    cases List.mem_singleton.mp member

theorem commitTo_within (within : Within voters net ghost host node) (forward : node.commitIndex < index)
    (committed : Committed voters ghost node.currentTerm ⟨index,term⟩) (above : Above ghost.tree (ghost.head host) ⟨index,term⟩) :
    Within voters net ghost host (node.commitTo index) := by
  have reached : index ≤ node.lastLogIndex := by
    have bound := above.index_le
    rw [within.head] at bound
    exact bound
  have sound := commitTo_sound within.sim.sound forward reached
  have silent : Within voters net ghost host {node.commitTo index with actions := node.actions} := by
    refine ⟨within.valid,⟨{sound with},within.sim.self,within.sim.members,within.sim.view,⟨term,committed,above⟩,?_,?_⟩,
      within.packets,?_⟩
    · exact fun standing => {within.sim.stands standing with}
    · exact fun leading => {within.sim.leads leading with}
    · exact fun action member => (within.emitted action member).carry (.refl _) (fun leading => ⟨leading,rfl⟩)
        (fun _ _ _ => Nat.le_refl _) (Nat.le_of_lt forward)
  refine silent.note (.commitAdvanced node.commitIndex index::_) ?_ ?_
  · intro action member
    cases List.mem_cons.mp member with
    | inl first =>
      rw [first]
      exact ⟨within.sim.sound.retained,forward,Nat.le_refl _⟩
    | inr applied =>
      obtain ⟨entry,inside,rfl⟩ := List.mem_map.mp applied
      obtain ⟨holds,low⟩ := applied_entry within.sim.sound inside
      obtain ⟨reach,before,written⟩ := holds_above within.sim.sound within.path holds
      exact ⟨⟨_,silent.settled reach low⟩,before,written⟩
  · intro target message member
    cases List.mem_cons.mp member with
    | inl first => cases first
    | inr applied =>
      obtain ⟨entry,-,wrong⟩ := List.mem_map.mp applied
      cases wrong

theorem replicated_quorum (sound : Sound node) (leads : node.role = .leader) (index : Nat) : ∃ quorum : Finset NodeId,
    quorum.card = node.replicated index ∧ ∀ voter ∈ quorum, voter ∈ node.config.voters ∧
      (voter = node.config.selfId ∨ ∃ progress, (voter,progress) ∈ node.peerProgress ∧ index ≤ progress.matchIndex) := by
  have peers := (sound.leads leads).2.2
  have distinct : (keys node.peerProgress).Nodup := by rw [peers]; exact sound.configOk.unique.filter _
  generalize counted : node.peerProgress.filter (fun binding => decide (index ≤ binding.2.matchIndex)) = chosen
  have part : ∀ voter ∈ keys chosen, voter ∈ node.config.voters ∧ voter ≠ node.config.selfId ∧
      ∃ progress, (voter,progress) ∈ node.peerProgress ∧ index ≤ progress.matchIndex := by
    intro voter member
    obtain ⟨⟨peer,progress⟩,inside,rfl⟩ := List.mem_map.mp member
    rw [← counted] at inside
    obtain ⟨bound,high⟩ := List.mem_filter.mp inside
    have known : peer ∈ keys node.peerProgress := List.mem_map_of_mem bound
    rw [peers] at known
    obtain ⟨voter,other⟩ := List.mem_filter.mp known
    exact ⟨voter,of_decide_eq_true other,progress,bound,of_decide_eq_true high⟩
  have unique : (keys chosen).Nodup := by
    rw [← counted]
    exact distinct.sublist (List.filter_sublist.map _)
  refine ⟨insert node.config.selfId (keys chosen).toFinset,?_,?_⟩
  · rw [Finset.card_insert_of_notMem,List.toFinset_card_of_nodup unique]
    · unfold RaftNode.replicated
      rw [List.countP_eq_length_filter,counted,Nat.add_comm]
      simp [keys]
    · intro wrong
      exact (part _ (List.mem_toFinset.mp wrong)).2.1 rfl
  · intro voter member
    cases Finset.mem_insert.mp member with
    | inl self => exact ⟨self ▸ sound.configOk.member,.inl self⟩
    | inr peer =>
      obtain ⟨inside,-,progress⟩ := part voter (List.mem_toFinset.mp peer)
      exact ⟨inside,.inr progress⟩

theorem commit_within (within : Within voters net ghost host node) (leads : node.role = .leader)
    (forward : node.commitIndex < index) (current : HasAt node index node.currentTerm)
    (agreed : node.quorum ≤ node.replicated index) : Within voters net ghost host (node.commitTo index) := by
  have above := (within.hasAt.mp current).2
  refine commitTo_within within forward (.inr ⟨_,_,Nat.le_refl _,⟨rfl,?_⟩,.refl⟩) above
  obtain ⟨quorum,size,counted⟩ := replicated_quorum within.sim.sound leads index
  refine ⟨quorum,majority_of_quorum within.sim.sound within.sim.members ?_ (by rw [size]; exact agreed),?_⟩
  · intro voter member
    rw [← within.sim.members]
    exact List.mem_toFinset.mpr (counted voter member).1
  · intro voter member
    cases (counted voter member).2 with
    | inl self =>
      rw [self,within.sim.self]
      exact ⟨_,within.holding,above⟩
    | inr peer =>
      obtain ⟨progress,inside,high⟩ := peer
      cases (within.sim.leads leads).matched voter progress inside with
      | inl => omega
      | inr known =>
        obtain ⟨id,same,reach,place,held,below⟩ := known
        exact ⟨place,held,below.trans (reach.comparable above (by rw [same]; exact high))⟩

theorem Path.segment {tree : Lineage.Tree Payload} {start stop : Id} (path : Path tree start entries stop)
    (short : count ≤ entries.length) (size : Nat) :
    ∃ first last, first.index = start.index+count ∧ Above tree stop first ∧
      Path tree first ((entries.drop count).take size) last ∧ Above tree stop last := by
  rw [← List.take_append_drop count entries,← List.take_append_drop size (entries.drop count)] at path
  obtain ⟨first,front,back⟩ := path.split
  obtain ⟨last,segment,rest⟩ := back.split
  refine ⟨first,last,?_,back.above,segment,rest.above⟩
  rw [front.index,List.length_take,Nat.min_eq_left short]

theorem Within.tracked {progress stored : PeerProgress} (within : Within voters net ghost host node) (leads : node.role = .leader)
    (found : get? node.peerProgress peer = some stored) (same : progress.matchIndex = stored.matchIndex) :
    Matched ghost peer node.currentTerm (ghost.head host) progress.matchIndex := by
  rw [same]
  exact (within.sim.leads leads).matched peer stored (mem_of_get? found)

theorem Within.numbered (within : Within voters net ghost host node)
    (sound : Sound {node.setProgress peer progress with nextRpcId := nextRpcId})
    (known : Matched ghost peer node.currentTerm (ghost.head host) progress.matchIndex) :
    Within voters net ghost host {node.setProgress peer progress with nextRpcId := nextRpcId} := by
  refine within.same sound rfl rfl rfl rfl rfl rfl ?_
  intro leading other current member
  cases mem_set member with
  | inl changed =>
    obtain ⟨rfl,rfl⟩ := changed
    exact known
  | inr old => exact (within.sim.leads leading).matched other current old

theorem sendSuffix_within (within : Within voters net ghost host node) (tracks : Tracks node peer stored progress)
    (kept : node.baseIndex < progress.nextIndex) (previous : HasAt node (progress.nextIndex-1) previousTerm) :
    Within voters net ghost host (node.pushLogSuffix peer progress previousTerm) := by
  obtain ⟨leads,found,same,ok⟩ := tracks
  have sound : Sound (node.pushLogSuffix peer progress previousTerm) := pushLogSuffix_sound within.sim.sound leads ok
  refine Within.send (within.numbered {sound with} ?_) ?_ (fun request wrong => nomatch wrong)
  · exact within.tracked leads found same
  have path := within.path
  have above := (within.hasAt.mp previous).2
  have bound := above.index_le
  have line := within.line leads
  obtain ⟨start,led,-⟩ := (within.sim.leads leads).elected
  obtain ⟨size,batch⟩ := takeBatch_take node.config 0 0 (node.log.drop (progress.nextIndex-node.baseIndex))
  have base := baseId_index within.sim.sound
  have length := path.index
  simp only at bound
  obtain ⟨first,last,place,reach,segment,below⟩ := path.segment (show progress.nextIndex-1-node.baseIndex ≤ _ by omega) size
  have equal : first = ⟨progress.nextIndex-1,previousTerm⟩ := by
    refine reach.unique above ?_
    simp only
    omega
  refine ⟨⟨start,led⟩,⟨last,line.below below,?_⟩,?_⟩
  · show Path ghost.tree ⟨progress.nextIndex-1,previousTerm⟩ (RaftNode.takeBatch node.config 0 0 _) last
    rw [batch,← equal,show progress.nextIndex-node.baseIndex = progress.nextIndex-1-node.baseIndex+1 by omega,
      ← List.drop_tail]
    exact segment
  · obtain ⟨epoch,committed,done⟩ := within.sim.commit
    exact ⟨_,rfl,line.below done,committed⟩

theorem baseId_image (image : node.durableSnapshot = some snapshot) :
    node.baseId = ⟨snapshot.lastIncludedIndex,snapshot.lastIncludedTerm⟩ := by
  unfold RaftNode.baseId boundary
  rw [image]
  rfl

section
variable (within : Within voters net ghost host node)
include within

theorem sendChunk_within (tracks : Tracks node peer stored progress) (image : node.durableSnapshot = some snapshot) :
    Within voters net ghost host (node.sendSnapshotChunk peer progress snapshot) := by
  obtain ⟨leads,found,same,ok⟩ := tracks
  have sound : Sound (node.sendSnapshotChunk peer progress snapshot) := sendSnapshotChunk_sound within.sim.sound leads ok image
  refine Within.emit (within.numbered {sound with} ?_) [_] ?_ ?_ ?_
  · show Matched _ _ _ _ (RaftNode.PeerProgress.alignSnapshot progress snapshot).matchIndex
    rw [align_match]
    exact within.tracked leads found same
  · intro action member
    rw [List.mem_singleton.mp member]
    trivial
  · intro target message member
    cases List.mem_singleton.mp member
    have base := baseId_image image
    obtain ⟨start,led,-⟩ := (within.sim.leads leads).elected
    refine ⟨⟨start,led⟩,?_,?_⟩
    · rw [← base]; exact (within.line leads).below within.path.above
    · rw [← base]; exact within.base
  · intro target request member
    cases List.mem_singleton.mp member
    exact .inr ⟨snapshot,image,rfl,rfl,rfl⟩

theorem adjust_within (leads : node.role = .leader)
    (ok : ProgressOk node.lastLogIndex node.durableSnapshot node.nextRpcId progress)
    (known : Matched ghost peer node.currentTerm (ghost.head host) progress.matchIndex) :
    Within voters net ghost host (node.setProgress peer progress) :=
  within.adjusted (setProgress_sound within.sim.sound leads ok) (fun _ => known)

-- A follower reported a position on the leader's line; the leader counts no
-- more of it than its own log reaches.
theorem Within.reported (leads : node.role = .leader)
    (line : OnLine ghost node.currentTerm id) (held : ghost.held peer node.currentTerm place) (behind : Above ghost.tree place id)
    (low : index ≤ id.index) (reached : index ≤ node.lastLogIndex) :
    Matched ghost peer node.currentTerm (ghost.head host) index := by
  have own := within.line leads
  have head := within.head
  have ownKnown := line_known within.valid own
  obtain ⟨term,below⟩ := ancestor_at within.valid.rooted ownKnown (show index ≤ (ghost.head host).index by rw [head]; exact reached)
  exact .inr ⟨_,rfl,below,place,held,behind.trans (line_comparable within.valid line (own.below below) low)⟩

theorem matchLog_within (delivered : net ⟨peer,host,.appendEntriesResponse response⟩)
    (counts : CountsLog node peer response stored progress) : Within voters net ghost host (node.setProgress peer progress) := by
  obtain ⟨leads,term,success,found,reported,ok⟩ := counts
  refine adjust_within within leads ok ?_
  cases reported with
  | inl same => exact within.tracked leads found same
  | inr low =>
    obtain ⟨id,index,line,place,held,behind⟩ := within.packets _ (.inl delivered) success
    rw [term] at line held
    refine within.reported leads line held behind (by rw [index]; exact low) ?_
    have := ok.matched
    have := ok.next
    omega

theorem matchImage_within (delivered : net ⟨peer,host,.installSnapshotResponse response⟩)
    (counts : CountsImage node peer response snapshot stored progress) : Within voters net ghost host (node.setProgress peer progress) := by
  obtain ⟨leads,term,success,image,index,whole,found,reported,ok⟩ := counts
  refine adjust_within within leads ok ?_
  cases reported with
  | inl same => exact within.tracked leads found same
  | inr same =>
    have base := baseId_image image
    obtain ⟨request,asked,newest,sameIndex,complete⟩ := within.packets _ (.inl delivered) success
    cases (within.sim.leads leads).images peer request (.inl asked) (newest.trans term) with
    | inl =>
      have place := baseId_index within.sim.sound
      rw [base] at place
      simp only at place
      omega
    | inr current =>
      obtain ⟨own,present,ownIndex,ownTerm,size⟩ := current
      rw [image] at present
      cases present
      obtain ⟨place,held,behind⟩ := complete (whole.trans size.symm)
      rw [term] at held
      refine .inr ⟨_,?_,within.path.above,place,held,?_⟩
      · rw [base,same]
      · rw [base,← ownIndex,← ownTerm]; exact behind

end

end ForgeKv.Raft
