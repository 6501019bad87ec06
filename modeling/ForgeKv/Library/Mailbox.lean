import Mathlib.Algebra.GroupWithZero.Nat
import Mathlib.Data.List.Nodup
import ForgeKv.Library.Assoc

namespace ForgeKv.Mailbox
open Assoc

variable {Key : Type u} {Item : Type v} [DecidableEq Key]

-- A queue in which a later item for a key takes the place of the one that waits.
def replace : Map Key Item → Key → Item → Map Key Item
  | [],_,_ => []
  | (other,old)::rest,key,item => if other = key then (key,item)::rest else (other,old)::replace rest key item

def load (weight : Item → Nat) (queue : Map Key Item) : Nat := (queue.map (fun place => weight place.2)).sum

-- What was done to a mailbox, the latest first.
inductive Event (Key : Type u) (Item : Type v) where
  | accepted (key : Key) (item : Item)
  | popped (key : Key)
  | cleared

-- The last item accepted for a key since its item was popped or the queue cleared.
def waiting (key : Key) : List (Event Key Item) → Option Item
  | [] => none
  | .accepted other item::earlier => if other = key then some item else waiting key earlier
  | .popped other::earlier => if other = key then none else waiting key earlier
  | .cleared::_ => none

structure Current (history : List (Event Key Item)) (queue : Map Key Item) : Prop where
  single : (keys queue).Nodup
  latest : ∀ key, get? queue key = waiting key history

variable {queue : Map Key Item} {key other : Key} {item old : Item} {history : List (Event Key Item)} {weight : Item → Nat}

theorem get?_cons (place : Key × Item) (rest : Map Key Item) :
    get? (place::rest) key = if place.1 = key then some place.2 else get? rest key := by
  by_cases same : place.1 = key <;> simp [get?,same]

theorem replace_eq_set (key : Key) (item : Item) (single : (keys queue).Nodup) : replace queue key item = set queue key item := by
  induction queue with
  | nil => rfl
  | cons place rest ih =>
    obtain ⟨here,content⟩ := place
    obtain ⟨fresh,later⟩ := List.nodup_cons.mp single
    by_cases same : here = key
    · -- the key does not come again, so nothing behind it changes
      have kept : Assoc.set rest key item = rest := by
        refine (List.map_congr_left fun binding member => if_neg fun again => ?_).trans (List.map_id _)
        have present : binding.1 ∈ keys rest := List.mem_map_of_mem member
        exact fresh (same.trans again.symm ▸ present)
      simp only [replace,Assoc.set,List.map_cons,same,if_true] at kept ⊢
      rw [kept]
    · simp only [replace,Assoc.set,List.map_cons,same,if_false] at ih ⊢
      rw [ih later]

theorem load_replace (found : get? queue key = some old) :
    load weight (replace queue key item)+weight old = load weight queue+weight item := by
  induction queue with
  | nil => cases found
  | cons place rest ih =>
    obtain ⟨here,content⟩ := place
    rw [get?_cons] at found
    by_cases same : here = key
    · rw [if_pos same] at found
      cases found
      simp only [replace,if_pos same,load,List.map_cons,List.sum_cons]
      omega
    · rw [if_neg same] at found
      have later := ih found
      simp only [replace,if_neg same,load,List.map_cons,List.sum_cons] at later ⊢
      omega

omit [DecidableEq Key] in
theorem load_append (left right : Map Key Item) : load weight (left ++ right) = load weight left+load weight right := by
  simp [load]

omit [DecidableEq Key] in
theorem weight_le_load (member : (key,item) ∈ queue) : weight item ≤ load weight queue := by
  obtain ⟨-,-,rfl⟩ := List.append_of_mem member
  rw [load_append]
  simp only [load,List.map_cons,List.sum_cons]
  omega

theorem get?_append (absent : get? queue key = none) : get? (queue ++ [(key,item)]) key = some item := by
  induction queue with
  | nil => simp [get?]
  | cons place rest ih =>
    rw [get?_cons] at absent
    rw [List.cons_append,get?_cons]
    split
    · simp_all
    · exact ih (by simp_all)

theorem get?_append_of_ne (different : other ≠ key) : get? (queue ++ [(key,item)]) other = get? queue other := by
  induction queue with
  | nil => simp [get?,Ne.symm different]
  | cons place rest ih => rw [List.cons_append,get?_cons,get?_cons,ih]

theorem absent_key (absent : get? queue key = none) : key ∉ keys queue := by
  intro member
  obtain ⟨value,found⟩ := get?_isSome member
  rw [absent] at found
  cases found

theorem current_nil : Current ([] : List (Event Key Item)) [] := ⟨List.nodup_nil,fun _ => rfl⟩

theorem Current.clear : Current (.cleared::history) ([] : Map Key Item) := ⟨List.nodup_nil,fun _ => rfl⟩

theorem Current.replace (current : Current history queue) (found : get? queue key = some old) :
    Current (.accepted key item::history) (replace queue key item) := by
  rw [replace_eq_set _ _ current.single]
  refine ⟨by rw [keys_set]; exact current.single,fun other => ?_⟩
  by_cases same : key = other
  · subst same
    rw [get?_set_self found,waiting,if_pos rfl]
  · rw [get?_set_of_ne (Ne.symm same),waiting,if_neg same]
    exact current.latest other

theorem Current.push (current : Current history queue) (absent : get? queue key = none) :
    Current (.accepted key item::history) (queue ++ [(key,item)]) where
  single := by
    have fresh := absent_key absent
    simpa [keys,List.nodup_append] using ⟨current.single,fun _ _ present => fun same => fresh (same ▸ List.mem_map_of_mem present)⟩
  latest := by
    intro other
    by_cases same : key = other
    · subst same
      rw [get?_append absent,waiting,if_pos rfl]
    · rw [get?_append_of_ne (Ne.symm same),waiting,if_neg same]
      exact current.latest other

theorem Current.pop (current : Current history ((key,item)::queue)) : Current (.popped key::history) queue where
  single := (List.nodup_cons.mp current.single).2
  latest := by
    intro other
    have before := current.latest other
    rw [get?_cons] at before
    by_cases same : key = other
    · subst same
      rw [waiting,if_pos rfl]
      -- the popped item was the only one of its key
      cases found : get? queue key with
      | none => rfl
      | some => exact absurd (List.mem_map_of_mem (mem_of_get? found)) (List.nodup_cons.mp current.single).1
    · rw [if_neg same] at before
      rw [waiting,if_neg same]
      exact before

end ForgeKv.Mailbox
