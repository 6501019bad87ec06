import Mathlib.Order.WellFounded

namespace ForgeKv.Rounds

variable {State : Type u} (round : State → Option State)

-- A deterministic system that takes one round after another and may get stuck.
def after : Nat → State → Option State
  | 0,state => some state
  | count+1,state => (round state).bind (after count)

def Reaches (goal : State → Prop) (state : State) : Prop := ∃ count final, after round count state = some final ∧ goal final

variable {round} {goal : State → Prop} {state next : State}

theorem Reaches.here (met : goal state) : Reaches round goal state := ⟨0,state,rfl,met⟩

theorem Reaches.step (moved : round state = some next) (reaches : Reaches round goal next) : Reaches round goal state := by
  obtain ⟨count,final,run,met⟩ := reaches
  refine ⟨count+1,final,?_,met⟩
  unfold after
  rw [moved]
  exact run

theorem reaches_of_measure (inv : State → Prop) {Size : Type v} {less : Size → Size → Prop} (founded : WellFounded less) (size : State → Size)
    (progress : ∀ state, inv state → ∃ next, round state = some next ∧ (goal next ∨ (inv next ∧ less (size next) (size state))))
    (start : inv state) : Reaches round goal state := by
  generalize bound : size state = limit
  induction limit using founded.induction generalizing state with
  | h limit ih =>
    obtain ⟨next,ran,moved⟩ := progress state start
    cases moved with
    | inl met => exact .step ran (.here met)
    | inr moved => exact .step ran (ih (size next) (bound ▸ moved.2) moved.1 rfl)

theorem not_reaches (inv : State → Prop) (kept : ∀ state next, inv state → round state = some next → inv next)
    (apart : ∀ state, inv state → ¬ goal state) (start : inv state) : ¬ Reaches round goal state := by
  rintro ⟨count,final,run,met⟩
  induction count generalizing state with
  | zero =>
    cases run
    exact apart _ start met
  | succ count ih =>
    obtain ⟨next,moved,rest⟩ := Option.bind_eq_some_iff.mp run
    exact ih (kept _ _ start moved) rest

end ForgeKv.Rounds
