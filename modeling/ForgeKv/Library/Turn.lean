import ForgeKv.Library.Agreement

namespace ForgeKv.Ballot
open Lineage

variable {Node : Type v} {Payload : Type u} [DecidableEq Node]

-- Some steps that one node takes: everybody else's view stays as it is, nobody
-- else is elected, and whatever is written is written in a term the node leads.
structure Turn (voters : Finset Node) (node : Node) (s t : State Node Payload) : Prop where
  path : Runs voters s t
  term : ∀ other, other ≠ node → t.term other = s.term other
  head : ∀ other, other ≠ node → t.head other = s.head other
  votes : ∀ other, other ≠ node → t.votes other = s.votes other
  elected : ∀ epoch other start, other ≠ node → t.elected epoch = some (other,start) → s.elected epoch = some (other,start)
  written : ∀ id content, t.tree id = some content → s.tree id = some content ∨ ∃ start, t.elected id.term = some (node,start)

variable {voters : Finset Node} {node other : Node} {s t next : State Node Payload} {id : Id}

theorem Turn.grows (turn : Turn voters node s t) : Grows s t := runs_grows turn.path
theorem Turn.valid (turn : Turn voters node s t) (valid : Valid voters s) : Valid voters t := runs_valid valid turn.path

theorem Turn.refl (voters : Finset Node) (node : Node) (s : State Node Payload) : Turn voters node s s where
  path := .nil
  term := fun _ _ => rfl
  head := fun _ _ => rfl
  votes := fun _ _ => rfl
  elected := fun _ _ _ _ found => found
  written := fun _ _ found => .inl found

theorem Turn.trans (one : Turn voters node s t) (two : Turn voters node t next) : Turn voters node s next where
  path := one.path.trans two.path
  term := fun other different => (two.term other different).trans (one.term other different)
  head := fun other different => (two.head other different).trans (one.head other different)
  votes := fun other different => (two.votes other different).trans (one.votes other different)
  elected := fun epoch other start different found =>
    one.elected epoch other start different (two.elected epoch other start different found)
  written := by
    intro id content found
    cases two.written id content found with
    | inr led => exact .inr led
    | inl old =>
      cases one.written id content old with
      | inl older => exact .inl older
      | inr led =>
        obtain ⟨start,led⟩ := led
        exact .inr ⟨start,two.grows.elected _ _ led⟩

theorem record_turn (step : Step voters s (s.record node term head)) : Turn voters node s (s.record node term head) where
  path := .step .nil step
  term := fun _ different => Function.update_of_ne different ..
  head := fun _ different => Function.update_of_ne different ..
  votes := fun _ _ => rfl
  elected := fun _ _ _ _ found => found
  written := fun _ _ found => .inl found

theorem raise_turn (higher : s.term node < term) : Turn voters node s (s.record node term (s.head node)) :=
  record_turn (.raise node term higher)

theorem adopt_turn (line : OnLine s (s.term node) target) (missing : ¬ Above s.tree (s.head node) target) :
    Turn voters node s (s.record node (s.term node) target) :=
  record_turn (.adopt node target line missing)

theorem cast_turn (positive : 0 < s.term node) (free : s.votes node (s.term node) = none)
    (fresh : node = candidate ∨ ∃ own, s.votes candidate (s.term node) = some (candidate,own) ∧ Fresh own (s.head node)) :
    Turn voters node s (s.cast node candidate) where
  path := .step .nil (.vote node candidate positive free fresh)
  term := fun _ _ => rfl
  head := fun _ _ => rfl
  votes := fun _ different => Function.update_of_ne different ..
  elected := fun _ _ _ _ found => found
  written := fun _ _ found => .inl found

theorem elect_turn (vacant : s.elected term = none) (own : s.votes node term = some (node,start))
    (majority : Majority voters quorum) (won : ∀ voter ∈ quorum, ∃ behind, s.votes voter term = some (node,behind)) :
    Turn voters node s (s.elect term node start) where
  path := .step .nil (.elect term node start quorum vacant own majority won)
  term := fun _ _ => rfl
  head := fun _ _ => rfl
  votes := fun _ _ => rfl
  elected := by
    intro epoch other base different found
    by_cases same : epoch = term
    · subst same
      simp only [State.elect,Function.update_self,Option.some.injEq,Prod.mk.injEq] at found
      exact absurd found.1.symm different
    · simpa [State.elect,same] using found
  written := fun _ _ found => .inl found

theorem extend_turn (valid : Valid voters s) (payload : Payload) (led : s.elected (s.term node) = some (node,start))
    (tip : s.head node = start ∨ (s.head node).term = s.term node)
    (top : ∀ index content, s.tree ⟨index,s.term node⟩ = some content → index ≤ (s.head node).index) :
    Turn voters node s ((s.write ⟨(s.head node).index+1,s.term node⟩ payload (s.head node).term).record node (s.term node)
      ⟨(s.head node).index+1,s.term node⟩) := by
  have fresh : s.tree ⟨(s.head node).index+1,s.term node⟩ = none := by
    cases found : s.tree ⟨(s.head node).index+1,s.term node⟩ with
    | none => rfl
    | some =>
      have := top _ _ found
      omega
  have follows : ((s.head node).index = start.index ∧ (s.head node).term = start.term) ∨
      ((s.head node).term = s.term node ∧ ∃ content, s.tree ⟨(s.head node).index,s.term node⟩ = some content) := by
    by_cases same : s.head node = start
    · rw [same]; exact .inl ⟨rfl,rfl⟩
    · have now := tip.resolve_left same
      refine .inr ⟨now,?_⟩
      rw [← now]
      cases (valid.current node).1 with
      | inr written => exact written
      | inl zero =>
        have positive := (valid.started _ _ _ led).2
        rw [← now,zero] at positive
        exact absurd positive (Nat.not_lt_zero _)
  have wrote := write_valid valid payload led fresh follows
  have found : (s.write ⟨(s.head node).index+1,s.term node⟩ payload (s.head node).term).tree
      ⟨(s.head node).index+1,s.term node⟩ = some (payload,(s.head node).term) := Function.update_self ..
  have writing : Turn voters node s (s.write ⟨(s.head node).index+1,s.term node⟩ payload (s.head node).term) := by
    refine ⟨.step .nil (.write _ _ payload _ node start led fresh follows),fun _ _ => rfl,fun _ _ => rfl,fun _ _ => rfl,
      fun _ _ _ _ led => led,?_⟩
    intro id content got
    by_cases same : id = ⟨(s.head node).index+1,s.term node⟩
    · subst same
      exact .inr ⟨start,led⟩
    · exact .inl (by simpa [State.write,same] using got)
  refine writing.trans (adopt_turn ?_ ?_)
  · exact line_of_term wrote found
  · intro above
    have := above.index_le
    simp only [State.write] at this
    omega

omit [DecidableEq Node] in
theorem OnLine.grow (line : OnLine s term id) (grows : Grows s t) : OnLine t term id := by
  obtain ⟨leader,start,led,tip,isTip,above⟩ := line
  refine ⟨leader,start,grows.elected _ _ led,tip,?_,above.extend grows.tree⟩
  cases isTip with
  | inl same => exact .inl same
  | inr wrote =>
    obtain ⟨same,content,found⟩ := wrote
    exact .inr ⟨same,content,grows.tree _ _ found⟩

omit [DecidableEq Node] in
theorem committed_known (valid : Valid voters s) (committed : Committed voters s term id) : Known s.tree id := by
  cases committed with
  | inl zero => exact .inl zero
  | inr settled =>
    obtain ⟨epoch,top,-,chosen,above⟩ := settled
    exact known_below valid.rooted above (chosen_known valid chosen)

theorem Turn.elected_other (turn : Turn voters node s t) (different : other ≠ node)
    (none : ∀ start, s.elected epoch ≠ some (other,start)) (start : Id) : t.elected epoch ≠ some (other,start) :=
  fun found => none start (turn.elected _ _ _ different found)

theorem Turn.top_other (turn : Turn voters node s t) (different : other ≠ node)
    (led : s.elected epoch = some (other,start))
    (top : ∀ index content, s.tree ⟨index,epoch⟩ = some content → index ≤ bound) :
    ∀ index content, t.tree ⟨index,epoch⟩ = some content → index ≤ bound := by
  intro index content found
  cases turn.written _ _ found with
  | inl old => exact top index content old
  | inr wrote =>
    obtain ⟨start',led'⟩ := wrote
    have kept := turn.grows.elected _ _ led
    rw [kept] at led'
    cases led'
    exact absurd rfl different

end ForgeKv.Ballot
