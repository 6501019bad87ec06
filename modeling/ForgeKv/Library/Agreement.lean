import ForgeKv.Library.Ballot

namespace ForgeKv.Ballot
open Lineage

variable {Node : Type v} {Payload : Type u} {s t : State Node Payload} {voters : Finset Node} {id a b : Id}

-- A majority held the position in the very term it was written in.
def Chosen (voters : Finset Node) (s : State Node Payload) (term : Nat) (id : Id) : Prop :=
  id.term = term ∧ ∃ quorum, Majority voters quorum ∧
    ∀ node ∈ quorum, ∃ place, s.held node term place ∧ Above s.tree place id

-- Earlier positions are settled only through a chosen one above them.
def Committed (voters : Finset Node) (s : State Node Payload) (term : Nat) (id : Id) : Prop :=
  id = origin ∨ ∃ epoch top, epoch ≤ term ∧ Chosen voters s epoch top ∧ Above s.tree top id

theorem Chosen.grow (chosen : Chosen voters s term id) (grows : Grows s t) : Chosen voters t term id := by
  obtain ⟨written,quorum,majority,behind⟩ := chosen
  refine ⟨written,quorum,majority,fun node member => ?_⟩
  obtain ⟨place,held,above⟩ := behind node member
  exact ⟨place,grows.held _ _ _ held,above.extend grows.tree⟩

theorem Committed.grow (committed : Committed voters s term id) (grows : Grows s t) : Committed voters t term id := by
  rcases committed with zero | ⟨epoch,top,bounded,chosen,above⟩
  · exact .inl zero
  · exact .inr ⟨epoch,top,bounded,chosen.grow grows,above.extend grows.tree⟩

theorem Committed.later (committed : Committed voters s term id) (order : term ≤ after) : Committed voters s after id := by
  rcases committed with zero | ⟨epoch,top,bounded,chosen,above⟩
  · exact .inl zero
  · exact .inr ⟨epoch,top,Nat.le_trans bounded order,chosen,above⟩

section valid
variable (valid : Valid voters s)
include valid

theorem Committed.below (committed : Committed voters s term a) (above : Above s.tree a b) : Committed voters s term b := by
  rcases committed with rfl | ⟨epoch,top,bounded,chosen,reach⟩
  · have zero : b.index = 0 := Nat.le_zero.mp above.index_le
    exact .inl (known_index_zero valid.rooted (known_below valid.rooted above (.inl rfl)) zero)
  · exact .inr ⟨epoch,top,bounded,chosen,reach.trans above⟩

variable [DecidableEq Node]

omit [DecidableEq Node] in
theorem chosen_known (chosen : Chosen voters s term id) : Known s.tree id := by
  obtain ⟨-,quorum,⟨-,size⟩,behind⟩ := chosen
  obtain ⟨node,member⟩ : quorum.Nonempty := Finset.card_pos.mp (by omega)
  obtain ⟨place,held,above⟩ := behind node member
  exact known_below valid.rooted above (valid.past _ _ _ held).2

-- A log that is at least as fresh as one with a chosen position has it as well,
-- if all leaders elected in between do.
omit [DecidableEq Node] in
theorem fresh_above (ownKnown : Known s.tree own) (fresh : Fresh own behind) (above : Above s.tree behind id)
    (known : Known s.tree behind) (later : ∀ term leader start, id.term < term → term ≤ own.term →
      s.elected term = some (leader,start) → Above s.tree start id) : Above s.tree own id := by
  have low := above.term_le valid.rooted
  obtain ⟨ownIndex,ownTerm⟩ := own
  rcases known_below valid.rooted above known with zero | ⟨content,present⟩
  · rw [zero]; exact above_origin valid.rooted ownKnown
  have positive := (valid.rooted.positive _ _ present).2
  rcases ownKnown with zero | ⟨written,found⟩
  · have ownZero := congrArg Id.term zero
    simp only [origin] at ownZero
    rcases fresh with higher | ⟨same,_⟩ <;> simp only at * <;> omega
  rcases Nat.lt_or_ge id.term ownTerm with higher | same
  · obtain ⟨leader,start,led,_,reach⟩ := term_start valid found
    exact reach.trans (later _ _ _ higher (Nat.le_refl _) led)
  · -- Both logs end in the run of the term the position was written in.
    obtain ⟨behindIndex,behindTerm⟩ := behind
    obtain ⟨index,term⟩ := id
    have equal : behindTerm = ownTerm ∧ behindIndex ≤ ownIndex := by
      rcases fresh with higher | same' <;> simp only at * <;> omega
    have sameTerm : term = ownTerm := by simp only at *; omega
    have bounded := above.index_le
    subst sameTerm
    exact term_run valid found present (Nat.le_trans bounded equal.2)

-- Leader completeness: by induction on the later term, through a node that both
-- held the position and voted for the later leader.
theorem chosen_start (chosen : Chosen voters s term id) (led : s.elected later = some (leader,start))
    (order : term < later) : Above s.tree start id := by
  induction later using Nat.strongRecOn generalizing leader start with
  | ind later ih =>
    obtain ⟨written,quorum,majority,behind⟩ := chosen
    obtain ⟨ownVote,ballot,ballotMajority,votes⟩ := valid.backed _ _ _ led
    obtain ⟨node,inQuorum,inBallot⟩ := majority.meet ballotMajority
    obtain ⟨place,held,above⟩ := behind node inQuorum
    obtain ⟨vantage,cast,covers⟩ := votes node inBallot
    have kept : Kept s term (later-1) id := fun mid leader' start' after bounded led' =>
      ih mid (by omega) led' after
    have seen := covers _ _ _ held above written order kept
    obtain ⟨-,-,vantageKnown,-,own,ownCast,fresh⟩ := valid.voted _ _ _ _ cast
    rw [ownVote] at ownCast
    cases ownCast
    obtain ⟨startKnown,startTerm⟩ := valid.started _ _ _ led
    refine fresh_above valid startKnown fresh seen vantageKnown fun mid leader' start' after bounded led' => ?_
    exact ih mid (by omega) led' (by omega)

theorem committed_start (committed : Committed voters s term id) (led : s.elected later = some (leader,start))
    (order : term < later) : Above s.tree start id := by
  rcases committed with rfl | ⟨epoch,top,bounded,chosen,above⟩
  · exact above_origin valid.rooted (valid.started _ _ _ led).1
  · exact (chosen_start valid chosen led (by omega)).trans above

theorem committed_line (committed : Committed voters s term id) (led : s.elected term = some (leader,start)) :
    OnLine s term id := by
  rcases committed with rfl | ⟨epoch,top,bounded,chosen,above⟩
  · exact ⟨leader,start,led,start,.inl rfl,above_origin valid.rooted (valid.started _ _ _ led).1⟩
  · rcases Nat.lt_or_eq_of_le bounded with earlier | rfl
    · exact ⟨leader,start,led,start,.inl rfl,(chosen_start valid chosen led earlier).trans above⟩
    · rcases chosen_known valid chosen with zero | ⟨written,found⟩
      · rw [zero] at above
        have index := Nat.le_zero.mp above.index_le
        have equal := known_index_zero valid.rooted (known_below valid.rooted above (.inl rfl)) index
        exact ⟨leader,start,led,start,.inl rfl,equal ▸ above_origin valid.rooted (valid.started _ _ _ led).1⟩
      · have line := line_of_term valid found
        rw [chosen.1] at line
        exact line.below above

-- Agreement: all committed positions are in one line.
theorem committed_above (one : Committed voters s term a) (two : Committed voters s other b) (order : b.index ≤ a.index)
    (known : Known s.tree a) : Above s.tree a b := by
  rcases two with rfl | ⟨lower,low,_,chosenLow,aboveLow⟩
  · exact above_origin valid.rooted known
  rcases one with rfl | ⟨upper,top,_,chosenTop,aboveTop⟩
  · have zero : b.index = 0 := Nat.le_zero.mp order
    have present := known_below valid.rooted aboveLow (chosen_known valid chosenLow)
    rw [known_index_zero valid.rooted present zero]
    exact .refl
  -- The one chosen in the later term lies above the other.
  have joint : ∃ tip, Above s.tree tip top ∧ Above s.tree tip low := by
    have lift : ∀ {early late : Nat} {x y : Id}, Chosen voters s early x → Chosen voters s late y → early ≤ late →
        ∃ tip, Above s.tree tip y ∧ Above s.tree tip x := by
      intro early late x y chosenX chosenY earlier
      rcases chosen_known valid chosenX with zero | ⟨writtenX,foundX⟩
      · exact ⟨y,.refl,zero ▸ above_origin valid.rooted (chosen_known valid chosenY)⟩
      rcases chosen_known valid chosenY with zero | ⟨writtenY,foundY⟩
      · have positive := (valid.rooted.positive _ _ foundX).2
        have late := chosenY.1
        rw [zero] at late
        have early := chosenX.1
        simp only [origin] at late
        omega
      obtain ⟨leader,start,led,_,-⟩ := term_start valid (show s.tree ⟨y.index,y.term⟩ = some writtenY from foundY)
      have lineY := line_of_term valid foundY
      have lineX : OnLine s y.term x := by
        refine committed_line valid (.inr ⟨early,x,?_,chosenX,.refl⟩) led
        rw [chosenY.1]; exact earlier
      rcases Nat.le_total x.index y.index with lower | upper
      · exact ⟨y,.refl,line_comparable valid lineY lineX lower⟩
      · exact ⟨x,line_comparable valid lineX lineY upper,.refl⟩
    rcases Nat.le_total upper lower with earlier | later
    · obtain ⟨tip,one,two⟩ := lift chosenTop chosenLow earlier
      exact ⟨tip,two,one⟩
    · exact lift chosenLow chosenTop later
  obtain ⟨tip,tipTop,tipLow⟩ := joint
  exact (tipTop.trans aboveTop).comparable (tipLow.trans aboveLow) order

theorem committed_unique (one : Committed voters s term a) (two : Committed voters s other b) (same : a.index = b.index)
    (known : Known s.tree a) : a = b :=
  (committed_above valid one two (Nat.le_of_eq same.symm) known).eq_of_index (Nat.le_of_eq same)

end valid
end ForgeKv.Ballot
