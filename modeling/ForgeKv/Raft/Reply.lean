import ForgeKv.Raft.Appending

namespace ForgeKv.Raft
open RaftNode (malformedAt)

variable {node after follower : RaftNode} {request : AppendEntries} {source : NodeId}

-- Why a follower refuses a request of its own term, with the hint it gives.
inductive Refusal (node : RaftNode) (request : AppendEntries) : Nat → Prop where
  | low (compacted : request.previousLogIndex < node.baseIndex) : Refusal node request (node.baseIndex+1)
  | short (retained : node.baseIndex ≤ request.previousLogIndex) (behind : node.lastLogIndex < request.previousLogIndex) :
      Refusal node request (node.lastLogIndex+1)
  | mismatch (found : node.slot request.previousLogIndex = some entry) (different : entry.term ≠ request.previousLogTerm)
      (bounded : hint ≤ request.previousLogIndex)
      (above : node.baseIndex < request.previousLogIndex → node.baseIndex < hint) : Refusal node request hint
  | contradicted (retained : node.baseIndex ≤ request.previousLogIndex) (member : incoming ∈ request.entries) (contradicts : Contradicts node incoming) : Refusal node request hint

-- What a follower keeps whatever it answers.
structure Stays (node after : RaftNode) : Prop where
  config : after.config = node.config
  role : after.role = node.role
  term : after.currentTerm = node.currentTerm

inductive Reply (node : RaftNode) (request : AppendEntries) (after : RaftNode) : AppendEntriesResponse → Prop where
  | refused (refusal : Refusal node request hint) (log : after.log = node.log) (commit : after.commitIndex = node.commitIndex) :
      Reply node request after ⟨node.currentTerm,false,0,hint,request.rpcId⟩
  | accepted (takes : Takes node request after) :
      Reply node request after
        ⟨node.currentTerm,true,request.previousLogIndex+request.entries.length,0,request.rpcId⟩

-- A well-formed request of the follower's own term.
structure Proper (node : RaftNode) (source : NodeId) (request : AppendEntries) : Prop where
  positive : request.term ≠ 0
  term : request.term = node.currentTerm
  leader : request.leaderId = source
  wellFormed : malformedAt request.term (request.previousLogIndex+1) request.previousLogTerm request.entries = none
  terms : ∀ entry ∈ request.entries, 0 < entry.term

theorem Takes.carry (takes : Takes node request after) (log : follower.log = node.log) (later : final.log = after.log)
    (commit : final.commitIndex ≤ max follower.commitIndex (min request.leaderCommit (request.previousLogIndex+request.entries.length))) :
    Takes follower request final where
  previous := (slot_log log).symm ▸ takes.previous
  base := (base_same later).trans (takes.base.trans (base_same log).symm)
  before index low := (slot_log later).trans ((takes.before index low).trans (slot_log log).symm)
  taken entry member := (slot_log later).trans (takes.taken entry member)
  rest index beyond := by
    rw [slot_log later,slot_log log]
    exact takes.rest index beyond
  commit := commit

theorem Proper.current (proper : Proper node source request) :
    ¬ (request.term = 0 ∨ request.term < node.currentTerm ∨ request.leaderId ≠ source) := by
  have positive := proper.positive
  have term := proper.term
  simp only [proper.leader,ne_eq,not_true_eq_false,or_false,not_or]
  omega

theorem ready_follows (proper : Proper node source request) : node.ready source request = node.clearActions.followLeader source := by
  have raised : node.clearActions.raised source (.appendEntries request) = node.clearActions :=
    if_neg (Nat.not_lt.mpr (Nat.le_of_eq proper.term))
  unfold RaftNode.ready
  rw [raised]
  exact if_neg proper.current

theorem verdict_refusal (sound : Sound node) (proper : Proper node source request)
    (judged : node.verdict source request = .ok (.reject hint)) : Refusal node request hint := by
  unfold RaftNode.verdict at judged
  rw [if_neg proper.current] at judged
  split at judged
  · rename_i low
    cases judged
    exact .low low
  rename_i low
  split at judged
  · rename_i high
    cases judged
    exact .short (Nat.not_lt.mp low) high
  rename_i high
  obtain ⟨previous,read,got,-⟩ := sound.entryAt (Nat.not_lt.mp low) (Nat.not_lt.mp high)
  simp only [read,bind,Except.bind] at judged
  split at judged
  · rename_i different
    obtain ⟨conflict,walked,bounded,above⟩ := firstConflict_ok sound (Nat.not_lt.mp high)
    rw [walked] at judged
    cases judged
    exact .mismatch ((slot_of_le (Nat.not_lt.mp low)).trans got) different bounded above
  · rw [proper.wellFormed] at judged
    obtain ⟨numbered,-,-⟩ := malformedAt_none proper.wellFormed
    rcases scanOverlap_ok sound numbered (Nat.lt_succ_of_le (Nat.not_lt.mp low)) with
      ⟨found,-⟩ | ⟨_,_,_,found,-⟩ | ⟨_,-,incoming,member,contradicts⟩
    · cases judged.symm.trans found
    · cases judged.symm.trans found
    · exact .contradicted (Nat.not_lt.mp low) member contradicts

theorem follower_replies (sound : Sound follower) (role : follower.role = .follower) (voter : source ∈ follower.config.voters)
    (other : source ≠ follower.config.selfId) (proper : Proper follower source request) :
    ∃ after sent response, follower.step source (.appendEntries request) = .ok (after,sent) ∧
      lastMessageTo source sent = some (.appendEntriesResponse response) ∧ Sound after ∧ Stays follower after ∧
      Reply follower request after response := by
  obtain ⟨overlap,judged,ruled⟩ := ready_rules voter sound proper.terms
  have sound' := ready_sound voter sound request
  have follows : Follows follower.clearActions (follower.ready source request) := ready_follows proper ▸ followLeader_follows
  have config : (follower.ready source request).config = follower.config := ready_opened.config
  have term : (follower.ready source request).currentTerm = follower.currentTerm := follows.term
  have same : (follower.ready source request).role = follower.role := follows.role.trans role.symm
  rcases conclude_accepted sound' ruled with ⟨hint,concluded,rfl⟩ | ⟨written,state,takes,concluded⟩
  · obtain ⟨stepped,final⟩ := step_appendEntries voter sound other proper.terms judged concluded
    have log : follower.log = (follower.ready source request).log := follows.log.symm
    refine ⟨_,_,_,stepped,lastMessageTo_push _ _,clear_sound final,⟨config,same,term⟩,?_⟩
    rw [term]
    exact .refused (verdict_refusal sound proper (verdict_same log follows.commit.symm term.symm _ judged)) follows.log follows.commit
  · obtain ⟨stepped,final⟩ := step_appendEntries voter sound other proper.terms judged concluded
    obtain ⟨kept,settings,level,-⟩ : (written.learn
      (min request.leaderCommit (request.previousLogIndex+request.entries.length))).log = written.log ∧ _ := learn_kept
    have follows' : (written.learn (min request.leaderCommit (request.previousLogIndex+request.entries.length))).role = .follower := by
      unfold RaftNode.learn
      split <;> exact state.accepts.follower
    refine ⟨_,_,_,stepped,lastMessageTo_push _ _,clear_sound final,
      ⟨settings.trans (state.config.trans config),follows'.trans role.symm,level.trans (state.term.trans term)⟩,?_⟩
    rw [level,state.term,term]
    refine .accepted (takes.carry follows.log.symm kept (Nat.le_of_eq ?_))
    exact learn_commit.trans (congrArg (max · _) (state.commit.trans follows.commit))

end ForgeKv.Raft
