import ForgeKv.Raft.Emission

namespace ForgeKv.Raft
open Assoc

-- A message whose term is a 64-bit number and whose log indexes are far from the end.
structure Message.Small (message : Message) : Prop where
  term : message.term < 2^64
  indexes : ∀ index ∈ message.indexes, index < 2^63

-- The numbers of a node within a call. A call that starts below 2^63 appends one
-- entry of its own at most.
structure Narrow (node : RaftNode) : Prop where
  term : node.currentTerm < 2^64
  last : node.lastLogIndex < 2^63 ∨ (node.lastLogIndex ≤ 2^63 ∧ ¬ Unlogged node.actions)

theorem decodes_narrow (decodes : Cluster.Decodes frame message) :
    message.term < 2^64 ∧ ∀ request, message = .installSnapshot request → request.lastIncludedIndex < 2^64 := by
  obtain ⟨kind,decoded⟩ := decodes.body
  unfold Cluster.decodeMessage at decoded
  split at decoded
  case h_7 => cases decoded
  all_goals
    simp only [Cluster.decodeRequestVote,Cluster.decodeRequestVoteResponse,Cluster.decodeAppendEntries,
      Cluster.decodeAppendEntriesResponse,Cluster.decodeInstallSnapshot,Cluster.decodeInstallSnapshotResponse] at decoded
    repeat' split at decoded
    all_goals cases decoded
    refine ⟨BigEndian.field_lt _ 0 8,fun request same => ?_⟩
    cases same
  exact BigEndian.field_lt _ 16 8

theorem Input.Decoded.narrow {input : Input} (decoded : input.Decoded) (arrived : input.packet = some (source,message)) :
    message.term < 2^64 ∧ ∀ request, message = .installSnapshot request → request.lastIncludedIndex < 2^64 := by
  cases input with
  | step =>
    cases arrived
    exact decodes_narrow decoded.choose_spec
  | _ => cases arrived

theorem Input.Decoded.term {input : Input} (decoded : input.Decoded) :
    ∀ source message, input.packet = some (source,message) → message.term < 2^64 := fun _ _ arrived => (decoded.narrow arrived).1

theorem Input.Decoded.image {input : Input} (decoded : input.Decoded) :
    ∀ source request, input.packet = some (source,.installSnapshot request) → request.lastIncludedIndex < 2^64 :=
  fun _ _ arrived => (decoded.narrow arrived).2 _ rfl

theorem Arrives.small (arrives : Arrives message) : message.Small := by
  obtain ⟨⟨frame,decodes⟩,indexes⟩ := arrives
  exact ⟨(decodes_narrow decodes).1,indexes⟩

section moves
variable {node after : RaftNode} {packet : Option (NodeId × Message)} {offer : Option Offer}

theorem Narrow.keep (narrow : Narrow node) (emits : Emits node after new) (term : after.currentTerm < 2^64)
    (last : after.lastLogIndex = node.lastLogIndex) : Narrow after := by
  refine ⟨term,?_⟩
  rw [last,emits.actions]
  refine narrow.last.imp_right fun ⟨bound,logged⟩ => ⟨bound,fun unlogged => logged ?_⟩
  exact fun fromIndex entries member => unlogged fromIndex entries (List.mem_append_left _ member)

theorem becomeFollower_term : (node.becomeFollower term leader).currentTerm = max node.currentTerm term := by
  simp only [RaftNode.becomeFollower,RaftNode.pushIf,RaftNode.resetElectionDeadline]
  split
  · rename_i higher
    exact (Nat.max_eq_right (Nat.le_of_lt (of_decide_eq_true higher))).symm
  · rename_i lower
    exact (Nat.max_eq_left (Nat.not_lt.mp fun higher => lower (decide_eq_true higher))).symm

theorem append_narrow (narrow : Narrow node) (first : Unlogged node.actions) : Narrow (node.appendLocalEntry kind command) := by
  have low : node.lastLogIndex < 2^63 := narrow.last.resolve_right fun ⟨_,logged⟩ => logged first
  refine ⟨narrow.term,.inr ⟨?_,fun unlogged => unlogged _ _ (List.mem_append_right _ (List.mem_singleton_self _))⟩⟩
  rw [append_last]
  exact low

theorem replace_narrow (sound : Sound node) (narrow : Narrow node) (small : Message.Small (.appendEntries request))
    (joins : Joins node source request before entry rest) : Narrow (node.replaceSuffix entry.index (entry::rest)) := by
  refine ⟨narrow.term,.inl ?_⟩
  obtain ⟨last,-⟩ := replace_last sound joins
  obtain ⟨numbered,-,-⟩ := malformedAt_none joins.accepts.wellFormed
  -- The last index is that of the last entry of the request.
  have final := List.getLast?_eq_getLast_of_ne_nil (List.cons_ne_nil entry rest)
  have found : request.entries.getLast? = some ((entry::rest).getLast (List.cons_ne_nil entry rest)) := by
    rw [joins.split,List.getLast?_append,final]
    rfl
  have bound := small.indexes _ (List.mem_cons_of_mem _ (List.mem_cons_of_mem _ (List.mem_map_of_mem (List.mem_of_getLast? found))))
  rw [List.getLast?_eq_getElem?] at found
  have place := numbered _ _ found
  have start := joins.index
  have length : request.entries.length = before.length+(rest.length+1) := by rw [joins.split]; simp
  omega

theorem install_narrow (sound : Sound node) (narrow : Narrow node) (emits : Emits node (node.adoptImage image rest) new)
    (after : Sound (node.adoptImage image rest)) (small : image.lastIncludedIndex < 2^63)
    (suffix : Suffix node image rest) : Narrow (node.adoptImage image rest) := by
  have last : (node.adoptImage image rest).lastLogIndex+1 = image.lastIncludedIndex+(rest.length+1) := after.last
  rcases suffix with ⟨has,rfl⟩ | ⟨-,rfl⟩
  · have length := cut_length sound has
    exact narrow.keep emits narrow.term (by omega)
  · exact ⟨narrow.term,.inl (by rw [List.length_nil] at last; omega)⟩

section
variable (small : ∀ source message, packet = some (source,message) → message.term < 2^64) (term : node.currentTerm < 2^64)
include small term

theorem move_term (move : Move packet offer node after) : after.currentTerm < 2^64 := by
  cases move with
  | raise arrived =>
    rw [becomeFollower_term]
    exact max_lt term (small _ _ arrived)
  | stepDown =>
    rw [becomeFollower_term,Nat.max_self]
    exact term
  | campaign timer calm other room =>
    show node.currentTerm+1 < 2^64
    simp only [maxU64] at room
    omega
  | _ => exact term

theorem moves_term (moves : Moves packet offer node after) : after.currentTerm < 2^64 := by
  induction moves with
  | nil => exact term
  | step earlier move ih => exact move_term small ih move

end

section
variable (sound : Sound node) (small : ∀ source message, packet = some (source,message) → message.Small) (narrow : Narrow node)
include sound small narrow

theorem move_narrow (move : Move packet offer node after) : Narrow after := by
  obtain ⟨new,emits⟩ := move_emits sound move
  have sound' := move_sound sound move
  have term := move_term (fun source message arrived => (small source message arrived).term) narrow.term move
  cases move with
  | append leads kind command content first => exact append_narrow narrow first
  | replace arrived joins => exact replace_narrow sound narrow (small _ _ arrived) joins
  | install arrived installs =>
    have bound := (small _ _ arrived).indexes _ (List.mem_singleton_self _)
    exact install_narrow sound narrow emits sound' (installs.index ▸ bound) installs.suffix
  | compact own asked calm forward applied current => exact narrow.keep emits term (cutLog_last sound current forward)
  | _ => exact narrow.keep emits term rfl

theorem moves_narrow (moves : Moves packet offer node after) : Narrow after := by
  induction moves with
  | nil => exact narrow
  | step earlier move ih => exact move_narrow (moves_sound sound earlier) small ih move

end

end moves
end ForgeKv.Raft
