import Mathlib.Algebra.GroupWithZero.Nat
import Mathlib.Data.List.Perm.Basic
import Mathlib.Data.List.Nodup
import ForgeKv.Library.Assoc

namespace ForgeKv
open Assoc

-- A map with one binding for each key, as the list that an iteration visits.
structure Table (Key : Type u) (Value : Type v) where
  bindings : Map Key Value
  unique : (keys bindings).Nodup

namespace Table
variable {Key : Type u} {Value : Type v} [DecidableEq Key]

def empty : Table Key Value := ⟨[],List.nodup_nil⟩

def find? (table : Table Key Value) (key : Key) : Option Value := get? table.bindings key

def size (table : Table Key Value) : Nat := table.bindings.length

def erase (table : Table Key Value) (key : Key) : Table Key Value where
  bindings := table.bindings.filter (fun binding => binding.1 ≠ key)
  unique := table.unique.sublist (List.filter_sublist.map _)

def assign (table : Table Key Value) (key : Key) (value : Value) : Table Key Value where
  bindings := (key,value)::(table.erase key).bindings
  unique := by
    refine List.nodup_cons.mpr ⟨?_,(table.erase key).unique⟩
    simp [erase]

-- An insertion that leaves a key that is there alone.
def emplace (table : Table Key Value) (key : Key) (value : Value) : Table Key Value :=
  if (table.find? key).isSome then table else table.assign key value

def mapValues (table : Table Key Value) (change : Value → Value) : Table Key Value where
  bindings := Assoc.mapValues table.bindings change
  unique := by
    rw [keys_mapValues]
    exact table.unique

-- The same contents, in whatever order.
def Same (left right : Table Key Value) : Prop := ∀ key, left.find? key = right.find? key

def total (weight : Key → Value → Nat) (table : Table Key Value) : Nat :=
  (table.bindings.map (fun binding => weight binding.1 binding.2)).sum

variable {table left right middle : Table Key Value} {key other : Key} {value : Value} {weight : Key → Value → Nat}

theorem mem_iff : (key,value) ∈ table.bindings ↔ table.find? key = some value :=
  ⟨get?_of_mem table.unique,mem_of_get?⟩

omit [DecidableEq Key] in
theorem nodup (table : Table Key Value) : table.bindings.Nodup := table.unique.of_map _

theorem mem_erase : (other,value) ∈ (table.erase key).bindings ↔ other ≠ key ∧ (other,value) ∈ table.bindings := by
  simp [erase,and_comm]

@[simp] theorem find?_empty : (empty : Table Key Value).find? key = none := rfl

theorem find?_eq (same : ∀ value, (key,value) ∈ left.bindings ↔ (key,value) ∈ right.bindings) :
    left.find? key = right.find? key := by
  cases found : right.find? key with
  | some value => exact mem_iff.mp ((same value).mpr (mem_iff.mpr found))
  | none =>
    cases wrong : left.find? key with
    | none => rfl
    | some value =>
      have present := mem_iff.mp ((same value).mp (mem_iff.mpr wrong))
      rw [found] at present
      cases present

@[simp] theorem find?_erase_self : (table.erase key).find? key = none := by
  cases found : (table.erase key).find? key with
  | none => rfl
  | some => exact absurd rfl (mem_erase.mp (mem_iff.mpr found)).1

@[simp] theorem find?_erase_of_ne (different : other ≠ key) : (table.erase key).find? other = table.find? other :=
  find?_eq fun value => by simp [mem_erase,different]

@[simp] theorem find?_assign_self : (table.assign key value).find? key = some value := mem_iff.mp List.mem_cons_self

theorem mem_assign {stored : Value} : (other,stored) ∈ (table.assign key value).bindings ↔
    (other = key ∧ stored = value) ∨ (other ≠ key ∧ (other,stored) ∈ table.bindings) := by
  rw [assign,List.mem_cons,mem_erase,Prod.mk.injEq]

@[simp] theorem find?_assign_of_ne (different : other ≠ key) : (table.assign key value).find? other = table.find? other :=
  find?_eq fun stored => by simp [mem_assign,different]

theorem erase_assign : (table.assign key value).erase key = table.erase key := by
  simp [erase,assign]

theorem assign_assign {stored : Value} : (table.assign key value).assign key stored = table.assign key stored := by
  simp [assign,erase]

theorem emplace_new (absent : table.find? key = none) : table.emplace key value = table.assign key value := by
  simp [emplace,absent]

theorem Same.symm (same : Same left right) : Same right left := fun key => (same key).symm
theorem Same.perm (same : Same left right) : left.bindings.Perm right.bindings := by
  refine (List.perm_ext_iff_of_nodup left.nodup right.nodup).mpr ?_
  rintro ⟨key,value⟩
  rw [mem_iff,mem_iff,same key]

theorem same_of_perm (perm : left.bindings.Perm right.bindings) : Same left right :=
  fun _ => find?_eq fun _ => perm.mem_iff

section
variable (same : Same left right)
include same

theorem Same.size : left.size = right.size := same.perm.length_eq

theorem Same.total : left.total weight = right.total weight :=
  (same.perm.map _).sum_nat

theorem Same.erase : Same (left.erase key) (right.erase key) := by
  intro other
  by_cases equal : other = key
  · simp [equal]
  · rw [find?_erase_of_ne equal,find?_erase_of_ne equal]
    exact same other

theorem Same.assign : Same (left.assign key value) (right.assign key value) := by
  intro other
  by_cases equal : other = key
  · simp [equal]
  · rw [find?_assign_of_ne equal,find?_assign_of_ne equal]
    exact same other

theorem Same.emplace : Same (left.emplace key value) (right.emplace key value) := by
  unfold Table.emplace
  rw [same key]
  split
  · exact same
  · exact same.assign

end

theorem erase_absent (absent : table.find? key = none) : (table.erase key).bindings = table.bindings := by
  refine List.filter_eq_self.mpr ?_
  rintro ⟨other,value⟩ member
  refine decide_eq_true fun equal => ?_
  have found := mem_iff.mp member
  rw [show other = key from equal,absent] at found
  cases found

theorem erase_present (found : table.find? key = some value) : table.bindings.Perm ((key,value)::(table.erase key).bindings) := by
  have fresh : ((key,value)::(table.erase key).bindings).Nodup := (table.assign key value).nodup
  refine (List.perm_ext_iff_of_nodup table.nodup fresh).mpr ?_
  rintro ⟨other,stored⟩
  rw [List.mem_cons,mem_erase,Prod.mk.injEq]
  by_cases equal : other = key
  · subst equal
    rw [mem_iff,found]
    simp [eq_comm]
  · simp [equal]

theorem size_assign_new (absent : table.find? key = none) : (table.assign key value).size = table.size+1 := by
  simp [size,assign,erase_absent absent]

theorem size_assign_old {stored : Value} (found : table.find? key = some stored) : (table.assign key value).size = table.size := by
  have length := (erase_present found).length_eq
  simpa [size,assign] using length.symm

theorem total_assign : (table.assign key value).total weight+((table.find? key).map (weight key)).getD 0 =
    table.total weight+weight key value := by
  cases found : table.find? key with
  | none => simp [total,assign,erase_absent found,Nat.add_comm]
  | some =>
    have sum := ((erase_present found).map (fun binding => weight binding.1 binding.2)).sum_nat
    simp only [total,assign,List.map_cons,List.sum_cons] at sum ⊢
    simp only [Option.map_some,Option.getD_some]
    omega

theorem total_erase (found : table.find? key = some value) : table.total weight = weight key value+(table.erase key).total weight := by
  have sum := ((erase_present found).map (fun binding => weight binding.1 binding.2)).sum_nat
  simpa [total] using sum

theorem total_assign_new (absent : table.find? key = none) : (table.assign key value).total weight = table.total weight+weight key value := by
  have sum : (table.assign key value).total weight+((table.find? key).map (weight key)).getD 0 = _ := total_assign
  simpa [absent] using sum

omit [DecidableEq Key] in
theorem total_mapValues {change : Value → Value} :
    (table.mapValues change).total weight = table.total (fun key value => weight key (change value)) := by
  simp [total,mapValues,Assoc.mapValues,Function.comp_def]

omit [DecidableEq Key] in
theorem total_add {other : Key → Value → Nat} :
    table.total weight+table.total other = table.total (fun key value => weight key value+other key value) := by
  unfold total
  induction table.bindings with
  | nil => rfl
  | cons binding rest ih =>
    simp only [List.map_cons,List.sum_cons,← ih]
    omega

theorem find?_mapValues {change : Value → Value} : (table.mapValues change).find? key = (table.find? key).map change := by
  unfold find? mapValues Assoc.mapValues get?
  rw [List.find?_map,Option.map_map,Option.map_map]
  rfl

theorem total_absent (absent : ∀ key, table.find? key = none) : table.total weight = 0 := by
  have nothing : table.bindings = [] := List.eq_nil_iff_forall_not_mem.mpr fun ⟨key,value⟩ member => by
    have found := mem_iff.mp member
    rw [absent key] at found
    cases found
  simp [total,nothing]

theorem size_erase_le : (table.erase key).size ≤ table.size := List.length_filter_le ..

-- Insertions one after the other.
def addAll (table : Table Key Value) (entries : Map Key Value) : Table Key Value :=
  entries.foldl (fun table entry => table.emplace entry.1 entry.2) table

theorem addAll_perm {entries : Map Key Value} (unique : (keys entries).Nodup) (fresh : ∀ key ∈ keys entries, table.find? key = none) :
    (table.addAll entries).bindings.Perm (entries ++ table.bindings) := by
  induction entries generalizing table with
  | nil => exact .refl _
  | cons entry rest ih =>
    obtain ⟨key,value⟩ := entry
    obtain ⟨apart,later⟩ := List.nodup_cons.mp unique
    have absent : table.find? key = none := fresh key List.mem_cons_self
    have added : table.emplace key value = table.assign key value := emplace_new absent
    have next : (table.addAll ((key,value)::rest)) = (table.assign key value).addAll rest := by
      simp only [addAll,List.foldl_cons,added]
    rw [next]
    refine (ih later fun other member => ?_).trans ?_
    · have different : other ≠ key := fun same => apart (same ▸ member)
      rw [find?_assign_of_ne different]
      exact fresh other (List.mem_cons_of_mem _ member)
    · simp only [assign,erase_absent absent,List.cons_append]
      exact List.perm_middle

section sorted
variable {Rank : Type w} [LE Rank] [Std.IsLinearOrder Rank] [DecidableLE Rank]

def sortedBy (rank : Key → Rank) (table : Table Key Value) : Map Key Value :=
  table.bindings.mergeSort (fun left right => decide (rank left.1 ≤ rank right.1))

omit [DecidableEq Key] [Std.IsLinearOrder Rank] in
theorem sortedBy_perm (rank : Key → Rank) (table : Table Key Value) : (table.sortedBy rank).Perm table.bindings :=
  List.mergeSort_perm _ _

omit [DecidableEq Key] in
theorem sortedBy_sorted (rank : Key → Rank) (table : Table Key Value) :
    (table.sortedBy rank).Pairwise (fun left right => rank left.1 ≤ rank right.1) := by
  have sorted : (table.sortedBy rank).Pairwise (fun left right => decide (rank left.1 ≤ rank right.1) = true) := by
    refine List.pairwise_mergeSort ?_ ?_ _
    · intro left middle right first second
      simp only [decide_eq_true_eq] at first second ⊢
      exact Std.IsPreorder.le_trans _ _ _ first second
    · intro left right
      simpa using Std.Total.total (rank left.1) (rank right.1)
  exact sorted.imp of_decide_eq_true

omit [DecidableEq Key] in
theorem sortedBy_strict (rank : Key → Rank) (injective : Function.Injective rank) (table : Table Key Value) :
    (table.sortedBy rank).Pairwise (fun left right => rank left.1 ≤ rank right.1 ∧ rank left.1 ≠ rank right.1) := by
  have unique : (keys (table.sortedBy rank)).Nodup := ((sortedBy_perm rank table).map Prod.fst).nodup_iff.mpr table.unique
  have distinct : (table.sortedBy rank).Pairwise (fun left right => left.1 ≠ right.1) := List.pairwise_map.mp unique
  exact (sortedBy_sorted rank table).and (distinct.imp fun different same => different (injective same))

theorem sortedBy_same (rank : Key → Rank) (injective : Function.Injective rank) (same : Same left right) :
    left.sortedBy rank = right.sortedBy rank := by
  have perm : (left.sortedBy rank).Perm (right.sortedBy rank) :=
    ((sortedBy_perm rank left).trans same.perm).trans (sortedBy_perm rank right).symm
  refine List.Perm.eq_of_pairwise ?_ (sortedBy_sorted rank left) (sortedBy_sorted rank right) perm
  rintro ⟨key,value⟩ ⟨other,stored⟩ first second low high
  have equal : key = other := injective (Std.Antisymm.antisymm _ _ low high)
  subst equal
  have found := mem_iff.mp ((sortedBy_perm rank left).mem_iff.mp first)
  have again := mem_iff.mp ((sortedBy_perm rank right).mem_iff.mp second)
  rw [same key,again] at found
  cases found
  rfl

theorem sortedBy_addAll (rank : Key → Rank) (injective : Function.Injective rank) {entries : Map Key Value}
    (ordered : entries.Pairwise (fun left right => rank left.1 ≤ rank right.1 ∧ rank left.1 ≠ rank right.1)) :
    (empty.addAll entries).bindings.Perm entries ∧ (empty.addAll entries).sortedBy rank = entries := by
  have unique : (keys entries).Nodup :=
    List.pairwise_map.mpr (ordered.imp fun ⟨_,different⟩ same => different (congrArg rank same))
  have added : (empty.addAll entries).bindings.Perm entries := by
    have perm : (empty.addAll entries).bindings.Perm (entries ++ []) := addAll_perm unique (fun _ _ => find?_empty)
    rwa [List.append_nil] at perm
  have perm := (sortedBy_perm rank (empty.addAll entries)).trans added
  refine ⟨added,List.Perm.eq_of_pairwise ?_ (sortedBy_sorted rank _) (ordered.imp fun both => both.1) perm⟩
  rintro ⟨key,value⟩ ⟨other,stored⟩ first second low high
  have equal : key = other := injective (Std.Antisymm.antisymm _ _ low high)
  subst equal
  have found := mem_iff.mp ((sortedBy_perm rank _).mem_iff.mp first)
  have again := mem_iff.mp (added.mem_iff.mpr second)
  rw [again] at found
  cases found
  rfl

end sorted
end Table
end ForgeKv
