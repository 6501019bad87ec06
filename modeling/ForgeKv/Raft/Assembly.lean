import ForgeKv.Raft.Chunks

namespace ForgeKv.Raft
open RaftNode

variable {node after follower : RaftNode} {chunk : InstallSnapshot} {source : NodeId}

structure Waits (node after : RaftNode) : Prop where
  incoming : after.incomingSnapshot = node.incomingSnapshot
  applied : after.lastApplied = node.lastApplied

inductive ChunkReply (source : NodeId) (node : RaftNode) (chunk : InstallSnapshot) (after : RaftNode) :
    Bool → Nat → Prop where
  | invalid (wrong : node.validChunk source chunk = false) (waits : Waits node after) :
      ChunkReply source node chunk after false 0
  | applied (valid : node.validChunk source chunk = true) (behind : chunk.lastIncludedIndex ≤ node.lastApplied)
      (waits : Waits node after) : ChunkReply source node chunk after true chunk.totalSize
  | absent (valid : node.validChunk source chunk = true) (ahead : node.lastApplied < chunk.lastIncludedIndex)
      (later : chunk.offset ≠ 0) (empty : node.incomingSnapshot = none) (waits : Waits node after) :
      ChunkReply source node chunk after false 0
  | misplaced (valid : node.validChunk source chunk = true) (ahead : node.lastApplied < chunk.lastIncludedIndex)
      (later : chunk.offset ≠ 0) (found : node.incomingSnapshot = some incoming)
      (refused : IncomingSnapshot.accepts incoming source chunk = false) (waits : Waits node after) :
      ChunkReply source node chunk after false incoming.bytes.length
  | stored (valid : node.validChunk source chunk = true) (ahead : node.lastApplied < chunk.lastIncludedIndex)
      (gathers : Gathers node source chunk incoming) (unfinished : chunk.done = false)
      (grown : after.incomingSnapshot = some {incoming with bytes := incoming.bytes ++ chunk.data})
      (applied : after.lastApplied = node.lastApplied) : ChunkReply source node chunk after true chunk.stop
  | installed (valid : node.validChunk source chunk = true) (ahead : node.lastApplied < chunk.lastIncludedIndex)
      (gathers : Gathers node source chunk incoming) (done : chunk.done = true)
      (applied : after.lastApplied = chunk.lastIncludedIndex) :
      ChunkReply source node chunk after true chunk.totalSize

theorem sendSnapshotResponse_eq (term : chunk.term = node.currentTerm) : node.sendSnapshotResponse source chunk success nextOffset =
    node.push (.sendMessage source (.installSnapshotResponse (answerTo chunk success nextOffset))) := by
  unfold RaftNode.sendSnapshotResponse answerTo
  rw [term]

section
variable (sound : Sound node) (valid : node.validChunk source chunk = true) (term : chunk.term = node.currentTerm) (ahead : node.lastApplied < chunk.lastIncludedIndex)
include sound valid term ahead

theorem assembleChunk_reply :
    ∃ after success nextOffset, node.assembleChunk source chunk =
        .ok (after.push (.sendMessage source (.installSnapshotResponse (answerTo chunk success nextOffset)))) ∧ Stays node after ∧
      ChunkReply source node chunk after success nextOffset := by
  obtain ⟨after,success,nextOffset,ran,assembled⟩ := assembleChunk_cases source sound (sound.applied ▸ ahead)
  have stays : Stays node after := by
    cases assembled <;> exact ⟨rfl,rfl,rfl⟩
  refine ⟨after,success,nextOffset,?_,stays,?_⟩
  · rw [ran,sendSnapshotResponse_eq (term.trans stays.term.symm)]
  · cases assembled with
    | absent later empty => exact .absent valid ahead later empty ⟨rfl,rfl⟩
    | misplaced later found refused => exact .misplaced valid ahead later found refused ⟨rfl,rfl⟩
    | stored gathers unfinished =>
      rw [List.length_append,gathers_size gathers]
      exact .stored valid ahead gathers unfinished rfl rfl
    | installed gathers done => exact .installed valid ahead gathers done rfl

end

theorem ChunkReply.carry (reply : ChunkReply source node chunk after success nextOffset) (term : node.currentTerm = follower.currentTerm)
    (same : Waits follower node) (later : Waits after final) : ChunkReply source follower chunk final success nextOffset := by
  have checked : node.validChunk source chunk = follower.validChunk source chunk := by
    unfold RaftNode.validChunk
    rw [term]
  have waits : Waits node after → Waits follower final := fun waits =>
    ⟨later.incoming.trans (waits.incoming.trans same.incoming),later.applied.trans (waits.applied.trans same.applied)⟩
  have gathered : ∀ incoming, Gathers node source chunk incoming → Gathers follower source chunk incoming := by
    intro incoming gathers
    unfold Gathers
    rw [← same.incoming]
    exact gathers
  cases reply with
  | invalid wrong kept => exact .invalid (checked ▸ wrong) (waits kept)
  | applied valid behind kept => exact .applied (checked ▸ valid) (same.applied ▸ behind) (waits kept)
  | absent valid ahead other empty kept =>
    exact .absent (checked ▸ valid) (same.applied ▸ ahead) other (same.incoming ▸ empty) (waits kept)
  | misplaced valid ahead other found refused kept =>
    exact .misplaced (checked ▸ valid) (same.applied ▸ ahead) other (same.incoming ▸ found) refused (waits kept)
  | stored valid ahead gathers unfinished grown kept =>
    exact .stored (checked ▸ valid) (same.applied ▸ ahead) (gathered _ gathers) unfinished (later.incoming.trans grown)
      (later.applied.trans (kept.trans same.applied))
  | installed valid ahead gathers done applied =>
    exact .installed (checked ▸ valid) (same.applied ▸ ahead) (gathered _ gathers) done (later.applied.trans applied)

theorem handleInstallSnapshot_reply (sound : Sound node) (role : node.role = .follower) (voter : source ∈ node.config.voters)
    (term : chunk.term = node.currentTerm) :
    ∃ after success nextOffset, node.handleInstallSnapshot source chunk =
        .ok (after.push (.sendMessage source (.installSnapshotResponse (answerTo chunk success nextOffset)))) ∧ Stays node after ∧
      ChunkReply source node chunk after success nextOffset := by
  have moved : Moves none none node (node.followLeader source) := followLeader_moves (fun active => absurd role active) voter
  have sound' := moves_sound sound moved
  have follows : Follows node (node.followLeader source) := followLeader_follows
  have waits : Waits node (node.followLeader source) := ⟨follows.incoming,follows.applied⟩
  have term' : chunk.term = (node.followLeader source).currentTerm := term.trans follows.term.symm
  have config : (node.followLeader source).config = node.config := moves_config moved
  unfold RaftNode.handleInstallSnapshot
  cases valid : node.validChunk source chunk with
  | false =>
    rw [if_pos (by simp),sendSnapshotResponse_eq term]
    exact ⟨_,_,_,rfl,⟨rfl,rfl,rfl⟩,.invalid valid ⟨rfl,rfl⟩⟩
  | true =>
    rw [if_neg (by simp)]
    dsimp only
    split
    · rename_i behind
      exact ⟨_,_,_,congrArg Except.ok (sendSnapshotResponse_eq term'),⟨config,follows.role.trans role.symm,follows.term⟩,
        .applied valid (follows.applied ▸ behind) waits⟩
    · rename_i ahead
      have valid' : (node.followLeader source).validChunk source chunk = true := by
        unfold RaftNode.validChunk at valid ⊢
        rw [follows.term]
        exact valid
      obtain ⟨after,success,nextOffset,ran,stays,reply⟩ := assembleChunk_reply sound' valid' term' (Nat.not_le.mp ahead)
      exact ⟨after,success,nextOffset,ran,⟨stays.config.trans config,stays.role.trans (follows.role.trans role.symm),stays.term.trans follows.term⟩,
        reply.carry follows.term waits ⟨rfl,rfl⟩⟩

theorem follower_gathers (sound : Sound follower) (role : follower.role = .follower) (voter : source ∈ follower.config.voters)
    (other : source ≠ follower.config.selfId) (term : chunk.term = follower.currentTerm) :
    ∃ after sent success nextOffset, follower.step source (.installSnapshot chunk) = .ok (after,sent) ∧
      lastMessageTo source sent = some (.installSnapshotResponse (answerTo chunk success nextOffset)) ∧ Sound after ∧ Stays follower after ∧
      ChunkReply source follower chunk after success nextOffset := by
  obtain ⟨after,success,nextOffset,handled,stays,reply⟩ := handleInstallSnapshot_reply (clear_sound sound) role voter term
  have positive : Message.Positive (.installSnapshot chunk) := trivial
  obtain ⟨stepped,sound'⟩ := step_handled sound positive voter other (Nat.le_of_eq term) handled
  exact ⟨_,_,success,nextOffset,stepped,lastMessageTo_push _ _,clear_sound sound',{stays with},reply.carry rfl ⟨rfl,rfl⟩ ⟨rfl,rfl⟩⟩

end ForgeKv.Raft
