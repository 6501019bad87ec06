import Mathlib.Data.List.Sort
import Mathlib.Data.Multiset.Sort

namespace ForgeKv.Rank

theorem countP_succ {α : Type*} (s : Multiset α) (bucket : α → ℕ) (index : ℕ) :
    s.countP (bucket · < index+1) = s.countP (bucket · < index) + s.countP (bucket · = index) := by
  induction s using Multiset.induction with
  | empty => rfl
  | cons x s ih =>
    simp only [Multiset.countP_cons,ih]
    split <;> split <;> split <;> omega

variable {α : Type*} [LinearOrder α] {s : Multiset α} {x y : α} {rank later : ℕ}

-- The element of a rank, counted from one, among the elements in their order.
def nth (s : Multiset α) (rank : ℕ) : Option α := (s.sort (· ≤ ·))[rank-1]?

theorem nth_exists (first : 1 ≤ rank) (last : rank ≤ s.card) : ∃ x, nth s rank = some x := by
  have inside : rank-1 < (s.sort (· ≤ ·)).length := by rw [Multiset.length_sort]; omega
  exact ⟨_,List.getElem?_eq_getElem inside⟩

theorem nth_mem (found : nth s rank = some x) : x ∈ s :=
  (Multiset.mem_sort _).mp (List.mem_of_getElem? found)

theorem nth_mono (low : nth s rank = some x) (high : nth s later = some y) (order : rank ≤ later) : x ≤ y := by
  obtain ⟨_,rfl⟩ := List.getElem?_eq_some_iff.mp low
  obtain ⟨_,rfl⟩ := List.getElem?_eq_some_iff.mp high
  exact (s.pairwise_sort (· ≤ ·)).sortedLE.getElem_le_getElem_of_le (Nat.sub_le_sub_right order 1)

-- A monotone bucketing keeps the order: the bucket of a rank is the first one up
-- to which the counts reach the rank.
theorem bucket_lt_iff {bucket : α → ℕ} (index : ℕ) (mono : ∀ {low high}, low ≤ high → bucket low ≤ bucket high) (first : 1 ≤ rank)
    (found : nth s rank = some x) : bucket x < index ↔ rank ≤ s.countP (bucket · < index) := by
  obtain ⟨inside,here⟩ := List.getElem?_eq_some_iff.mp found
  have whole := List.take_append_drop (rank-1) (s.sort (· ≤ ·))
  rw [List.drop_eq_getElem_cons inside,here] at whole
  have length := List.length_take_of_le (Nat.le_of_lt inside)
  have sorted := s.pairwise_sort (· ≤ ·)
  rw [← congrArg (Multiset.countP _) (s.sort_eq (· ≤ ·)),Multiset.coe_countP]
  rw [← whole,List.pairwise_append,List.pairwise_cons] at sorted
  rw [← whole,List.countP_append,List.countP_cons]
  obtain ⟨-,⟨above,-⟩,below⟩ := sorted
  by_cases low : bucket x < index
  · have all := List.countP_eq_length.mpr fun y member =>
      decide_eq_true (Nat.lt_of_le_of_lt (mono (below y member x List.mem_cons_self)) low)
    simp only [low,all,length,decide_true,if_true,true_iff]
    omega
  · have none := List.countP_eq_zero.mpr fun y member small =>
      low (Nat.lt_of_le_of_lt (mono (above y member)) (of_decide_eq_true small))
    have few := List.countP_le_length (p := fun y => decide (bucket y < index))
      (l := (s.sort (· ≤ ·)).take (rank-1))
    simp only [low,none,decide_false,Bool.false_eq_true,if_false,false_iff]
    omega

end ForgeKv.Rank
