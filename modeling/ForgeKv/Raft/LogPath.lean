import ForgeKv.Library.Turn
import ForgeKv.Raft.Moves

namespace ForgeKv.Raft
open Lineage

abbrev Payload := EntryKind × Bytes

def LogEntry.id (entry : LogEntry) : Id := ⟨entry.index,entry.term⟩
def LogEntry.payload (entry : LogEntry) : Payload := (entry.kind,entry.command)

-- The entries lead from one position of the tree to another.
def Path (tree : Lineage.Tree Payload) : Id → List LogEntry → Id → Prop
  | start,[],stop => start = stop
  | start,entry::rest,stop =>
    entry.index = start.index+1 ∧ tree entry.id = some (entry.payload,start.term) ∧ Path tree entry.id rest stop

variable {tree later : Lineage.Tree Payload} {start middle stop id : Id} {entry : LogEntry}

theorem LogEntry.ext_id (first : LogEntry.id left = LogEntry.id right) (second : left.payload = right.payload) : left = right := by
  cases left
  simp only [LogEntry.id,LogEntry.payload,Id.mk.injEq,Prod.mk.injEq] at first second
  simp [first,second]

theorem Path.extend (path : Path tree start entries stop) (grown : Extends tree later) : Path later start entries stop := by
  induction entries generalizing start with
  | nil => exact path
  | cons entry rest ih =>
    obtain ⟨index,written,tail⟩ := path
    exact ⟨index,grown _ _ written,ih tail⟩

theorem Path.append (first : Path tree start entries middle) (second : Path tree middle more stop) :
    Path tree start (entries ++ more) stop := by
  induction entries generalizing start with
  | nil => cases first; exact second
  | cons entry rest ih =>
    obtain ⟨index,written,tail⟩ := first
    exact ⟨index,written,ih tail⟩

theorem Path.split (path : Path tree start (entries ++ more) stop) :
    ∃ middle, Path tree start entries middle ∧ Path tree middle more stop := by
  induction entries generalizing start with
  | nil => exact ⟨start,rfl,path⟩
  | cons entry rest ih =>
    obtain ⟨index,written,tail⟩ := path
    obtain ⟨middle,front,back⟩ := ih tail
    exact ⟨middle,⟨index,written,front⟩,back⟩

section
variable (path : Path tree start entries stop)
include path

theorem Path.index : stop.index = start.index+entries.length := by
  induction entries generalizing start with
  | nil => cases path; rfl
  | cons entry rest ih =>
    obtain ⟨index,-,tail⟩ := path
    have length := ih tail
    simp only [LogEntry.id] at length
    rw [length,index,List.length_cons]
    omega

theorem Path.above : Above tree stop start := by
  induction entries generalizing start with
  | nil => cases path; exact .refl
  | cons entry rest ih =>
    obtain ⟨index,written,tail⟩ := path
    refine (ih tail).trans ?_
    unfold LogEntry.id at written ⊢
    rw [index] at written ⊢
    exact .step written .refl

theorem Path.member (found : entries[position]? = some entry) :
    entry.index = start.index+position+1 ∧ Above tree stop entry.id ∧ Above tree entry.id start ∧
      ∃ before, tree entry.id = some (entry.payload,before) := by
  induction entries generalizing start position with
  | nil => cases found
  | cons first rest ih =>
    obtain ⟨index,written,tail⟩ := path
    cases position with
    | zero =>
      simp only [List.getElem?_cons_zero,Option.some.injEq] at found
      subst found
      refine ⟨index,tail.above,?_,_,written⟩
      unfold LogEntry.id at written ⊢
      rw [index] at written ⊢
      exact .step written .refl
    | succ =>
      obtain ⟨place,below,above,before,known⟩ := ih tail found
      refine ⟨?_,below,above.trans ?_,before,known⟩
      · simp only [LogEntry.id] at place
        omega
      · unfold LogEntry.id at written ⊢
        rw [index] at written ⊢
        exact .step written .refl

theorem Path.find (above : Above tree stop id) (behind : start.index < id.index) :
    ∃ entry, entries[id.index-start.index-1]? = some entry ∧ entry.id = id := by
  have bound := above.index_le
  have length := path.index
  have inside : id.index-start.index-1 < entries.length := by omega
  refine ⟨entries[id.index-start.index-1],List.getElem?_eq_getElem inside,?_⟩
  obtain ⟨place,below,-,-⟩ := path.member (List.getElem?_eq_getElem inside)
  refine below.unique above ?_
  simp only [LogEntry.id]
  omega

theorem Path.start_of_index (above : Above tree stop id) (same : id.index = start.index) :
    id = start := above.unique path.above same

end

section node
variable {node : RaftNode}

def RaftNode.baseId (node : RaftNode) : Id := (boundary node.durableSnapshot).id

theorem baseId_index (sound : Sound node) : node.baseId.index = node.baseIndex := sound.base.symm

section
variable (sound : Sound node) (path : Path tree node.baseId node.log.tail stop)
include sound path

theorem hasAt_above :
    HasAt node index term ↔ node.baseIndex ≤ index ∧ Above tree stop ⟨index,term⟩ := by
  have base := baseId_index sound
  obtain ⟨rest,shape⟩ := sound.log.front
  have tail : node.log.tail = rest := by rw [shape]; rfl
  rw [tail] at path
  constructor
  · rintro ⟨low,entry,found,rfl⟩
    refine ⟨low,?_⟩
    have place := sound.index_of found
    rcases Nat.lt_or_eq_of_le low with behind | rfl
    · rw [shape,show index-node.baseIndex = index-node.baseIndex-1+1 by omega,List.getElem?_cons_succ] at found
      obtain ⟨-,above,-,-⟩ := path.member found
      rw [show (⟨index,entry.term⟩ : Id) = entry.id by simp only [LogEntry.id,Id.mk.injEq,and_true]; omega]
      exact above
    · rw [Nat.sub_self,sound.boundary_at_base] at found
      cases found
      rw [show (⟨node.baseIndex,(boundary node.durableSnapshot).term⟩ : Id) = node.baseId by rw [sound.base]; rfl]
      exact path.above
  · rintro ⟨low,above⟩
    refine ⟨low,?_⟩
    rcases Nat.lt_or_eq_of_le low with behind | rfl
    · obtain ⟨entry,found,same⟩ := path.find above (by rw [base]; exact behind)
      refine ⟨entry,?_,congrArg Id.term same⟩
      rw [shape,show index-node.baseIndex = index-node.baseIndex-1+1 by omega,List.getElem?_cons_succ]
      rw [base] at found
      exact found
    · have equal := path.start_of_index above base.symm
      refine ⟨boundary node.durableSnapshot,?_,(congrArg Id.term equal).symm⟩
      rw [Nat.sub_self,sound.boundary_at_base]

theorem holds_above (holds : Holds node entry) :
    Above tree stop entry.id ∧ ∃ before, tree entry.id = some (entry.payload,before) := by
  obtain ⟨rest,shape⟩ := sound.log.front
  have tail : node.log.tail = rest := by rw [shape]; rfl
  rw [tail] at path
  obtain ⟨behind,found⟩ := holds
  rw [shape,show entry.index-node.baseIndex = entry.index-node.baseIndex-1+1 by omega,List.getElem?_cons_succ] at found
  obtain ⟨-,above,-,written⟩ := path.member found
  exact ⟨above,written⟩

theorem path_last :
    stop = ⟨node.lastLogIndex,node.lastLogTerm⟩ := by
  have last := sound.last
  have found := sound.lastEntry
  have position : node.lastLogIndex-node.baseIndex = node.log.length-1 := by
    omega
  have has : HasAt node node.lastLogIndex node.lastLogTerm :=
    ⟨sound.base_le_last,node.lastEntry,by rw [position]; exact found,rfl⟩
  have above := ((hasAt_above sound path).mp has).2
  refine above.eq_of_index ?_
  have size := List.length_pos_of_ne_nil sound.log.nonempty
  have length := path.index
  rw [baseId_index sound,List.length_tail] at length
  simp only
  omega

end

end node
end ForgeKv.Raft
