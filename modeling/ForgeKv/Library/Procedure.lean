import Mathlib.Logic.Basic

namespace ForgeKv

theorem bind_ok {Thrown : Type u} {step : Value → Except Thrown Other} {result : Except Thrown Value} :
    (result >>= step) = .ok after ↔ ∃ value, result = .ok value ∧ step value = .ok after := by
  cases result with
  | error => exact ⟨nofun,fun found => nomatch found.choose_spec.1⟩
  | ok value => exact ⟨fun done => ⟨value,rfl,done⟩,fun ⟨_,same,done⟩ => by cases same; exact done⟩

theorem ite_ok [Decidable refused] {thrown : Thrown} {result : Except Thrown Value} :
    (if refused then .error thrown else result) = .ok value ↔ ¬ refused ∧ result = .ok value := by
  split <;> simp [*]

-- What the first returns, the second returns too. They may throw differently.
def Agrees {Thrown : Type u} (first second : Except Thrown Value) : Prop := ∀ value, first = .ok value → second = .ok value

section
variable {Thrown : Type u} {first second : Except Thrown Value} {next next' : Value → Except Thrown Other}

theorem Agrees.refl (result : Except Thrown Value) : Agrees result result := fun _ ran => ran

theorem Agrees.error {thrown : Thrown} : Agrees (.error thrown) second := fun _ ran => nomatch ran

theorem Agrees.ite [Decidable choice] (yes : Agrees first second) (no : Agrees first' second') :
    Agrees (if choice then first else first') (if choice then second else second') := by
  split <;> assumption

theorem Agrees.bind (agrees : Agrees first second) (later : ∀ value, Agrees (next value) (next' value)) :
    Agrees (first >>= next) (second >>= next') := by
  intro final ran
  obtain ⟨value,returned,rest⟩ := bind_ok.mp ran
  rw [agrees value returned]
  exact later value final rest

end

-- A void function that may throw. What it changed before that stays changed.
abbrev Procedure (State : Type u) (Thrown : Type v) := State → State × Option Thrown

namespace Procedure
variable {State : Type u} {Thrown : Type v} {Item : Type w}

def skip : Procedure State Thrown := fun state => (state,none)

def andThen (first second : Procedure State Thrown) : Procedure State Thrown := fun state =>
  match first state with
  | (after,none) => second after
  | (after,some thrown) => (after,some thrown)

def forEach (body : Item → Procedure State Thrown) : List Item → Procedure State Thrown
  | [] => skip
  | item::rest => andThen (body item) (forEach body rest)

theorem andThen_assoc (first second third : Procedure State Thrown) :
    (first.andThen second).andThen third = first.andThen (second.andThen third) := by
  funext state
  unfold andThen
  match first state with
  | (after,none) | (after,some thrown) => rfl

theorem andThen_returned {first second : Procedure State Thrown} : first.andThen second state = (final,none) ↔
    ∃ middle, first state = (middle,none) ∧ second middle = (final,none) := by
  unfold andThen
  match first state with
  | (after,none) => simp
  | (after,some thrown) => simp

-- The body returned with `after`, or threw with `failed`.
def Meets (after : State → Prop) (failed : Thrown → State → Prop) : State × Option Thrown → Prop
  | (final,none) => after final
  | (final,some thrown) => failed thrown final

def Ensures (before : State → Prop) (body : Procedure State Thrown) (after : State → Prop)
    (failed : Thrown → State → Prop) : Prop :=
  ∀ state, before state → Meets after failed (body state)

abbrev Keeps (holds : State → Prop) (body : Procedure State Thrown) (failed : Thrown → State → Prop) : Prop :=
  Ensures holds body holds failed

abbrev Preserves (holds : State → Prop) (body : Procedure State Thrown) : Prop := Keeps holds body (fun _ => holds)

variable {before middle after : State → Prop} {failed : Thrown → State → Prop} {first second : Procedure State Thrown}

theorem Meets.imp {other : Thrown → State → Prop} (meets : Meets middle failed result)
    (returned : ∀ state, middle state → after state) (threw : ∀ thrown state, failed thrown state → other thrown state) :
    Meets after other result := by
  match result with
  | (final,none) => exact returned final meets
  | (final,some thrown) => exact threw thrown final meets

theorem Meets.weaken (meets : Meets middle failed result) (implied : ∀ state, middle state → after state) :
    Meets after failed result := meets.imp implied (fun _ _ broken => broken)

theorem Ensures.returned {body : Procedure State Thrown} (ensures : Ensures before body after failed) (holds : before state)
    (ran : body state = (final,none)) : after final := by
  have meets := ensures state holds
  rw [ran] at meets
  exact meets

theorem Ensures.skip : Ensures before skip before failed := fun _ holds => holds

theorem Meets.andThen (one : Meets middle failed (first state)) (two : ∀ final, middle final → Meets after failed (second final)) :
    Meets after failed (first.andThen second state) := by
  unfold Procedure.andThen
  match ran : first state with
  | (final,none) =>
    rw [ran] at one
    exact two final one
  | (final,some thrown) =>
    rw [ran] at one
    exact one

theorem Ensures.andThen (one : Ensures before first middle failed) (two : Ensures middle second after failed) :
    Ensures before (first.andThen second) after failed := fun state holds => (one state holds).andThen two

-- The loop rule: the invariant speaks of the items that are left.
theorem Ensures.forEach {body : Item → Procedure State Thrown} (invariant : List Item → State → Prop)
    (step : ∀ item rest, Ensures (invariant (item::rest)) (body item) (invariant rest) failed) (items : List Item) :
    Ensures (invariant items) (forEach body items) (invariant []) failed := by
  induction items with
  | nil => exact .skip
  | cons item rest ih => exact (step item rest).andThen ih

end Procedure
end ForgeKv
