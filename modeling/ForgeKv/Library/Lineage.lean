import Mathlib.Order.Basic

namespace ForgeKv.Lineage

-- A position in some log: its index and the term it was written in. The origin
-- is the position before the first entry of every log.
structure Id where
  index : Nat
  term : Nat
deriving DecidableEq, Repr

def origin : Id := ⟨0,0⟩

-- All entries that were ever written, as one tree. An entry stores its payload
-- and the term of the position it was written after, so that an id has one
-- payload and one predecessor by construction.
abbrev Tree (Payload : Type u) := Id → Option (Payload × Nat)

variable {Payload : Type u}

def Extends (tree later : Tree Payload) : Prop := ∀ id written, tree id = some written → later id = some written

variable {tree later : Tree Payload}

theorem Extends.refl (tree : Tree Payload) : Extends tree tree := fun _ _ found => found
theorem Extends.trans {middle : Tree Payload} (left : Extends tree middle) (right : Extends middle later) :
    Extends tree later := fun id written found => right id written (left id written found)

def Known (tree : Tree Payload) (id : Id) : Prop := id = origin ∨ ∃ written, tree id = some written

-- `Above tree a b`: walking back from `a` reaches `b`. A log that ends in `a`
-- holds exactly the ids below it.
inductive Above (tree : Tree Payload) : Id → Id → Prop where
  | refl : Above tree a a
  | step : tree ⟨index+1,term⟩ = some (payload,before) → Above tree ⟨index,before⟩ b → Above tree ⟨index+1,term⟩ b

-- Every entry is written after a known position of no later term.
structure Rooted (tree : Tree Payload) : Prop where
  positive : ∀ id written, tree id = some written → 0 < id.index ∧ 0 < id.term
  parent : ∀ index term payload before, tree ⟨index+1,term⟩ = some (payload,before) →
    Known tree ⟨index,before⟩ ∧ before ≤ term

variable {a b c : Id}

theorem Known.extend (known : Known tree a) (grown : Extends tree later) : Known later a := by
  rcases known with equal | ⟨written,found⟩
  · exact .inl equal
  · exact .inr ⟨written,grown _ _ found⟩

theorem Above.trans (first : Above tree a b) (second : Above tree b c) : Above tree a c := by
  induction first with
  | refl => exact second
  | step found _ ih => exact .step found (ih second)

theorem Above.extend (above : Above tree a b) (grown : Extends tree later) : Above later a b := by
  induction above with
  | refl => exact .refl
  | step found _ ih => exact .step (grown _ _ found) ih

theorem Above.index_le (above : Above tree a b) : b.index ≤ a.index := by
  induction above with
  | refl => exact Nat.le_refl _
  | step _ _ ih => exact Nat.le_succ_of_le ih

theorem Above.eq_of_index (above : Above tree a b) (same : a.index ≤ b.index) : a = b := by
  cases above with
  | refl => rfl
  | step _ rest =>
    have bound := rest.index_le
    simp only at same bound
    omega

theorem Above.comparable (first : Above tree a b) (second : Above tree a c) (order : c.index ≤ b.index) :
    Above tree b c := by
  induction first with
  | refl => exact second
  | step found rest ih =>
    cases second with
    | refl =>
      have bound := rest.index_le
      simp only at order bound
      omega
    | step other tail =>
      rw [found] at other
      obtain ⟨-,rfl⟩ := Prod.mk.inj (Option.some.inj other)
      exact ih tail order

theorem Above.unique (first : Above tree a b) (second : Above tree a c) (same : b.index = c.index) : b = c :=
  (first.comparable second (Nat.le_of_eq same.symm)).eq_of_index (Nat.le_of_eq same)

section rooted
variable (rooted : Rooted tree)
include rooted

theorem Above.term_le (above : Above tree a b) : b.term ≤ a.term := by
  induction above with
  | refl => exact Nat.le_refl _
  | step found _ ih => exact Nat.le_trans ih (rooted.parent _ _ _ _ found).2

theorem known_below (above : Above tree a b) (known : Known tree a) : Known tree b := by
  induction above with
  | refl => exact known
  | step found _ ih => exact ih (rooted.parent _ _ _ _ found).1

theorem known_index_zero (known : Known tree a) (zero : a.index = 0) : a = origin := by
  rcases known with equal | ⟨written,found⟩
  · exact equal
  · have := (rooted.positive _ _ found).1
    omega

theorem ancestor_at (known : Known tree a) (bounded : index ≤ a.index) :
    ∃ term, Above tree a ⟨index,term⟩ := by
  obtain ⟨top,term⟩ := a
  simp only at bounded
  induction top generalizing term with
  | zero =>
    obtain rfl : index = 0 := by omega
    exact ⟨term,.refl⟩
  | succ top ih =>
    by_cases equal : index = top+1
    · subst equal; exact ⟨term,.refl⟩
    · rcases known with same | ⟨⟨payload,before⟩,found⟩
      · simp [origin] at same
      · obtain ⟨below,above⟩ := ih before (rooted.parent _ _ _ _ found).1 (by omega)
        exact ⟨below,.step found above⟩

theorem above_origin (known : Known tree a) : Above tree a origin := by
  obtain ⟨term,above⟩ := ancestor_at rooted known (Nat.zero_le _)
  have equal := known_index_zero rooted (known_below rooted above known) rfl
  rwa [equal] at above

theorem Above.restrict (known : Known tree a) (grown : Extends tree later) (above : Above later a b) :
    Above tree a b := by
  induction above with
  | refl => exact .refl
  | step found _ ih =>
    rcases known with same | ⟨⟨payload,before⟩,present⟩
    · simp [origin] at same
    · have agreed := grown _ _ present
      rw [found] at agreed
      obtain ⟨rfl,rfl⟩ := Prod.mk.inj (Option.some.inj agreed)
      exact .step present (ih (rooted.parent _ _ _ _ present).1)

end rooted
end ForgeKv.Lineage
