import Mathlib.Data.List.Basic

namespace ForgeKv.Assoc

-- A finite map as the list of its bindings. `set` keeps the keys as they are.
abbrev Map (Key : Type u) (Value : Type v) := List (Key × Value)

variable {Key : Type u} {Value : Type v} [DecidableEq Key]

def get? (map : Map Key Value) (key : Key) : Option Value := (map.find? (fun binding => binding.1 = key)).map Prod.snd

def set (map : Map Key Value) (key : Key) (value : Value) : Map Key Value :=
  map.map (fun binding => if binding.1 = key then (key,value) else binding)

def mapValues (map : Map Key Value) (change : Value → Value) : Map Key Value :=
  map.map (fun binding => (binding.1,change binding.2))

def keys (map : Map Key Value) : List Key := map.map Prod.fst

variable {map : Map Key Value} {key other : Key} {value new : Value}

theorem mem_of_get? (found : get? map key = some value) : (key,value) ∈ map := by
  obtain ⟨⟨key',value'⟩,got,rfl⟩ := Option.map_eq_some_iff.mp found
  have same := List.find?_some got
  have member := List.mem_of_find?_eq_some got
  simp only [decide_eq_true_eq] at same
  subst same
  exact member

@[simp] theorem keys_set : keys (set map key new) = keys map := by
  induction map with
  | nil => rfl
  | cons binding rest ih =>
    simp only [keys,set,List.map_cons,List.map_map] at ih ⊢
    by_cases same : binding.1 = key
    · simp only [same,if_true,List.cons.injEq,true_and]; exact ih
    · simp only [same,if_false,List.cons.injEq,true_and]; exact ih

@[simp] theorem length_set : (set map key new).length = map.length := by simp [set]

theorem get?_set_self (found : get? map key = some value) : get? (set map key new) key = some new := by
  induction map with
  | nil => cases found
  | cons binding rest ih =>
    by_cases same : binding.1 = key
    · simp [get?,set,same]
    · simp only [get?,set,List.find?_cons,List.map_cons,same,decide_false,if_false] at found ih ⊢
      exact ih found

theorem get?_set_of_ne (different : other ≠ key) : get? (set map key new) other = get? map other := by
  induction map with
  | nil => rfl
  | cons binding rest ih =>
    by_cases same : binding.1 = key
    · have apart : binding.1 ≠ other := fun equal => different (equal.symm.trans same)
      simp only [get?,set,List.find?_cons,List.map_cons,same,if_true,Ne.symm different,decide_false] at ih ⊢
      exact ih
    · by_cases hit : binding.1 = other
      · subst hit; simp [get?,set,same]
      · simp only [get?,set,List.find?_cons,List.map_cons,same,if_false,hit,decide_false] at ih ⊢
        exact ih

theorem mem_set (member : (other,value) ∈ set map key new) : (other = key ∧ value = new) ∨ (other,value) ∈ map := by
  obtain ⟨⟨key',value'⟩,present,equal⟩ := List.mem_map.mp member
  by_cases same : key' = key
  · simp only [same,if_true,Prod.mk.injEq] at equal
    exact .inl ⟨equal.1.symm,equal.2.symm⟩
  · simp only [same,if_false] at equal
    exact .inr (equal ▸ present)

theorem get?_isSome (member : key ∈ keys map) : ∃ value, get? map key = some value := by
  obtain ⟨⟨key',value⟩,present,rfl⟩ := List.mem_map.mp member
  cases got : map.find? (fun binding => binding.1 = key') with
  | none => exact absurd (List.find?_eq_none.mp got _ present) (by simp)
  | some binding => exact ⟨binding.2,by simp [get?,got]⟩

theorem get?_of_mem (unique : (keys map).Nodup) (member : (key,value) ∈ map) : get? map key = some value := by
  induction map with
  | nil => cases member
  | cons binding rest ih =>
    simp only [keys,List.map_cons,List.nodup_cons] at unique
    rcases List.mem_cons.mp member with equal | later
    · subst equal; simp [get?]
    · have different : binding.1 ≠ key := by
        intro same
        exact unique.1 (same ▸ List.mem_map_of_mem later)
      have found := ih unique.2 later
      simp only [get?,List.find?_cons,different,decide_false] at found ⊢
      exact found

omit [DecidableEq Key] in
@[simp] theorem keys_mapValues : keys (mapValues map change) = keys map := by
  simp [keys,mapValues,Function.comp_def]

omit [DecidableEq Key] in
@[simp] theorem length_mapValues : (mapValues map change).length = map.length := by simp [mapValues]

omit [DecidableEq Key] in
theorem mem_mapValues (member : (key,new) ∈ mapValues map change) : ∃ value, (key,value) ∈ map ∧ new = change value := by
  obtain ⟨⟨key',value⟩,present,equal⟩ := List.mem_map.mp member
  obtain ⟨rfl,rfl⟩ := equal
  exact ⟨value,present,rfl⟩

end ForgeKv.Assoc
