import ForgeKv.Library.Turn

namespace ForgeKv.Ballot
open Lineage

variable {Node : Type v} {Payload : Type u}

-- In its present term a node has kept one position, or it follows the leader
-- of the term and has lost nothing of that leader's log.
def Steady (s : State Node Payload) : Prop :=
  ∀ node place, s.held node (s.term node) place → place = s.head node ∨
    ((∃ result, s.elected (s.term node) = some result) ∧
      ∀ id, OnLine s (s.term node) id → Above s.tree place id → Above s.tree (s.head node) id)

variable {s t : State Node Payload} {voters : Finset Node} {id : Id}

theorem initial_steady : Steady (initial Node Payload) := fun _ _ held => .inl held.2

theorem Steady.holds (steady : Steady s) (held : s.held node (s.term node) place) (line : OnLine s (s.term node) id)
    (above : Above s.tree place id) : Above s.tree (s.head node) id := by
  rcases steady node place held with rfl | ⟨-,kept⟩
  · exact above
  · exact kept id line above

-- A larger tree and a later election put nothing new on the line of an elected
-- leader that a node could already have held.
theorem steady_grown (valid : Valid voters s) (steady : Steady s) (tree : Extends s.tree t.tree)
    (term : t.term = s.term) (head : t.head = s.head) (held : t.held = s.held)
    (elected : ∀ epoch result, s.elected epoch = some result → t.elected epoch = some result)
    (line : ∀ epoch id, (∃ result, s.elected epoch = some result) → OnLine t epoch id → Known s.tree id → OnLine s epoch id) :
    Steady t := by
  intro node place inside
  rw [term] at inside ⊢
  rw [head]
  rw [held] at inside
  rcases steady node place inside with same | ⟨⟨result,led⟩,kept⟩
  · exact .inl same
  refine .inr ⟨⟨result,elected _ _ led⟩,fun id on above => ?_⟩
  have known := (valid.past _ _ _ inside).2
  have old := above.restrict valid.rooted known tree
  exact (kept id (line _ _ ⟨result,led⟩ on (known_below valid.rooted old known)) old).extend tree

variable [DecidableEq Node]

theorem record_steady (steady : Steady s) (old : ∀ place, s.held node term place →
      (∃ result, s.elected term = some result) ∧ ∀ id, OnLine s term id → Above s.tree place id → Above s.tree target id) :
    Steady (s.record node term target) := by
  intro other place held
  by_cases same : other = node
  · subst same
    have now : (s.record other term target).term other = term := Function.update_self ..
    have moved : (s.record other term target).head other = target := Function.update_self ..
    rw [now] at held
    rw [moved,now]
    rcases held with earlier | ⟨-,-,rfl⟩
    · exact .inr (old place earlier)
    · exact .inl rfl
  · simp only [State.record,Function.update_of_ne same] at held ⊢
    rcases held with earlier | ⟨wrong,-⟩
    · exact steady other place earlier
    · exact absurd wrong same

theorem raise_steady (valid : Valid voters s) (steady : Steady s) (higher : s.term node < term) :
    Steady (s.record node term (s.head node)) :=
  record_steady steady fun _ old => absurd (valid.past _ _ _ old).1 (Nat.not_le.mpr higher)

theorem adopt_steady (valid : Valid voters s) (steady : Steady s) (line : OnLine s (s.term node) target)
    (missing : ¬ Above s.tree (s.head node) target) : Steady (s.record node (s.term node) target) := by
  refine record_steady steady fun place old => ?_
  have ⟨leader,start,led,_⟩ := line
  refine ⟨⟨_,led⟩,fun id on above => ?_⟩
  have kept := steady.holds old on above
  -- A position behind the target would have brought the target along.
  rcases Nat.le_total id.index target.index with below | beyond
  · exact line_comparable valid line on below
  · exact absurd (kept.trans (line_comparable valid on line beyond)) missing

omit [DecidableEq Node] in
theorem elect_steady (valid : Valid voters s) (steady : Steady s) (vacant : s.elected term = none) :
    Steady (s.elect term leader start) := by
  refine steady_grown valid steady (Extends.refl _) rfl rfl rfl (elect_grows vacant).elected ?_
  rintro epoch id ⟨result,led⟩ ⟨other,base,found,rest⟩ -
  have different : epoch ≠ term := by
    rintro rfl
    rw [vacant] at led
    cases led
  simp only [State.elect,Function.update_of_ne different] at found
  exact ⟨other,base,found,rest⟩

omit [DecidableEq Node] in
theorem write_steady (valid : Valid voters s) (steady : Steady s) (led : s.elected term = some (leader,start))
    (fresh : s.tree ⟨index+1,term⟩ = none)
    (follows : (index = start.index ∧ before = start.term) ∨ (before = term ∧ ∃ written, s.tree ⟨index,term⟩ = some written)) :
    Steady (s.write ⟨index+1,term⟩ payload before) := by
  have grows : Grows s (s.write ⟨index+1,term⟩ payload before) := write_grows fresh
  refine steady_grown valid steady grows.tree rfl rfl rfl grows.elected ?_
  rintro epoch id - ⟨other,base,found,tip,isTip,above⟩ known
  have led' : s.elected epoch = some (other,base) := found
  rcases isTip with rfl | ⟨own,content,present⟩
  · exact ⟨other,tip,led',tip,.inl rfl,above.restrict valid.rooted (valid.started _ _ _ led').1 grows.tree⟩
  by_cases new : tip = ⟨index+1,term⟩
  · subst new
    simp only at own
    subst own
    cases above with
    | refl =>
      rcases known with zero | ⟨content,wrong⟩
      · cases zero
      · rw [fresh] at wrong
        cases wrong
    | step parent rest =>
      simp only [State.write,Function.update_self,Option.some.injEq,Prod.mk.injEq] at parent
      obtain ⟨rfl,rfl⟩ := parent
      rcases follows with ⟨rfl,rfl⟩ | ⟨rfl,content,earlier⟩
      · exact ⟨leader,start,led,start,.inl rfl,rest.restrict valid.rooted (valid.started _ _ _ led).1 grows.tree⟩
      · exact ⟨leader,start,led,_,.inr ⟨rfl,content,earlier⟩,rest.restrict valid.rooted (.inr ⟨_,earlier⟩) grows.tree⟩
  · have old : s.tree tip = some content := by simpa [State.write,new] using present
    exact ⟨other,base,led',tip,.inr ⟨own,content,old⟩,above.restrict valid.rooted (.inr ⟨_,old⟩) grows.tree⟩

theorem step_steady (valid : Valid voters s) (steady : Steady s) (step : Step voters s t) : Steady t := by
  cases step with
  | raise node term higher => exact raise_steady valid steady higher
  | vote => exact steady
  | elect term leader start quorum vacant => exact elect_steady valid steady vacant
  | write index term payload before leader start led fresh follows => exact write_steady valid steady led fresh follows
  | adopt node target line missing => exact adopt_steady valid steady line missing

theorem runs_steady (valid : Valid voters s) (steady : Steady s) (path : Runs voters s t) : Steady t := by
  induction path with
  | nil => exact steady
  | step earlier step ih => exact step_steady (runs_valid valid earlier) ih step

end ForgeKv.Ballot
