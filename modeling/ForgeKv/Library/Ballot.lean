import Mathlib.Data.Finset.Card
import Mathlib.Data.Finset.Lattice.Basic
import Mathlib.Logic.Function.Basic
import ForgeKv.Library.Lineage

namespace ForgeKv.Ballot
open Lineage

variable {Node : Type v} {Payload : Type u}

def Majority (voters quorum : Finset Node) : Prop := quorum ⊆ voters ∧ voters.card < 2*quorum.card

theorem Majority.meet [DecidableEq Node] {voters left right : Finset Node}
    (one : Majority voters left) (two : Majority voters right) : ∃ node, node ∈ left ∧ node ∈ right := by
  by_contra none
  have apart : Disjoint left right := by
    rw [Finset.disjoint_left]
    exact fun node inLeft inRight => none ⟨node,inLeft,inRight⟩
  have union := Finset.card_le_card (Finset.union_subset one.1 two.1)
  rw [Finset.card_union_of_disjoint apart] at union
  have := one.2
  have := two.2
  omega

-- What replication needs to know about a cluster: the tree of written entries,
-- who was elected in each term and behind which log, every vote with the log it
-- was cast behind, and for each node its durable term and log end together with
-- all pairs of them that it ever had.
structure State (Node : Type v) (Payload : Type u) where
  tree : Lineage.Tree Payload
  elected : Nat → Option (Node × Id)
  votes : Node → Nat → Option (Node × Id)
  term : Node → Nat
  head : Node → Id
  held : Node → Nat → Id → Prop

def initial (Node : Type v) (Payload : Type u) : State Node Payload :=
  ⟨fun _ => none,fun _ => none,fun _ _ => none,fun _ => 0,fun _ => origin,fun _ term place => term = 0 ∧ place = origin⟩

def Fresh (own other : Id) : Prop := other.term < own.term ∨ (other.term = own.term ∧ other.index ≤ own.index)

-- The positions of the log that the leader of a term has built so far.
def OnLine (s : State Node Payload) (term : Nat) (id : Id) : Prop :=
  ∃ leader start, s.elected term = some (leader,start) ∧
    ∃ tip, (tip = start ∨ (tip.term = term ∧ ∃ written, s.tree tip = some written)) ∧ Above s.tree tip id

-- Nothing that was written, decided, cast or held is ever forgotten.
structure Grows (s t : State Node Payload) : Prop where
  tree : Extends s.tree t.tree
  elected : ∀ term result, s.elected term = some result → t.elected term = some result
  votes : ∀ node term ballot, s.votes node term = some ballot → t.votes node term = some ballot
  term : ∀ node, s.term node ≤ t.term node
  held : ∀ node term place, s.held node term place → t.held node term place

variable {s t next : State Node Payload} {voters : Finset Node} {id a b : Id}

theorem Grows.refl (s : State Node Payload) : Grows s s :=
  ⟨Extends.refl _,fun _ _ found => found,fun _ _ _ found => found,fun _ => Nat.le_refl _,fun _ _ _ found => found⟩

theorem Grows.trans (one : Grows s t) (two : Grows t next) : Grows s next where
  tree := one.tree.trans two.tree
  elected := fun term result found => two.elected term result (one.elected term result found)
  votes := fun node term ballot found => two.votes node term ballot (one.votes node term ballot found)
  term := fun node => Nat.le_trans (one.term node) (two.term node)
  held := fun node term place found => two.held node term place (one.held node term place found)

-- Every leader of the terms in between still had the position in its log.
def Kept (s : State Node Payload) (since upTo : Nat) (id : Id) : Prop :=
  ∀ term leader start, since < term → term ≤ upTo → s.elected term = some (leader,start) → Above s.tree start id

structure Valid (voters : Finset Node) (s : State Node Payload) : Prop where
  rooted : Rooted s.tree
  written : ∀ index term payload before, s.tree ⟨index+1,term⟩ = some (payload,before) →
    ∃ leader start, s.elected term = some (leader,start) ∧
      ((index = start.index ∧ before = start.term) ∨ (start.index < index ∧ before = term))
  started : ∀ term leader start, s.elected term = some (leader,start) → Known s.tree start ∧ start.term < term
  voted : ∀ node term candidate behind, s.votes node term = some (candidate,behind) →
    0 < term ∧ term ≤ s.term node ∧ Known s.tree behind ∧ behind.term ≤ term ∧
      ∃ own, s.votes candidate term = some (candidate,own) ∧ Fresh own behind
  current : ∀ node, Known s.tree (s.head node) ∧ (s.head node).term ≤ s.term node
  past : ∀ node term place, s.held node term place → term ≤ s.term node ∧ Known s.tree place
  present : ∀ node, s.held node (s.term node) (s.head node)
  -- A position written in the term in which a node held it stays in the node's
  -- log unless a later leader did not have it.
  retained : ∀ node term place id, s.held node term place → Above s.tree place id → id.term = term →
    Kept s term (s.term node) id → Above s.tree (s.head node) id
  ballots : ∀ node term place id later candidate behind, s.held node term place → Above s.tree place id →
    id.term = term → s.votes node later = some (candidate,behind) → term < later → Kept s term later id →
    Above s.tree behind id
  backed : ∀ term leader start, s.elected term = some (leader,start) → s.votes leader term = some (leader,start) ∧
    ∃ quorum, Majority voters quorum ∧ ∀ node ∈ quorum, ∃ behind, s.votes node term = some (leader,behind) ∧
      ∀ earlier place id, s.held node earlier place → Above s.tree place id → id.term = earlier → earlier < term →
        Kept s earlier (term-1) id → Above s.tree behind id

theorem initial_valid (voters : Finset Node) : Valid voters (initial Node Payload) where
  rooted := ⟨(fun _ _ found => nomatch found),(fun _ _ _ _ found => nomatch found)⟩
  written := fun _ _ _ _ found => nomatch found
  started := fun _ _ _ found => nomatch found
  voted := fun _ _ _ _ found => nomatch found
  current := fun _ => ⟨.inl rfl,Nat.le_refl _⟩
  past := fun _ _ _ held => ⟨Nat.le_of_eq held.1,.inl held.2⟩
  present := fun _ => ⟨rfl,rfl⟩
  retained := fun _ _ _ _ held above _ _ => by rw [held.2] at above; exact above
  ballots := fun _ _ _ _ _ _ _ _ _ _ found => nomatch found
  backed := fun _ _ _ found => nomatch found

section line
variable (valid : Valid voters s)
include valid

theorem same_term_parent (found : s.tree ⟨index+1,term⟩ = some (payload,term)) : ∃ content, s.tree ⟨index,term⟩ = some content := by
  rcases (valid.rooted.parent _ _ _ _ found).1 with equal | present
  · have zero := congrArg Id.term equal
    have positive := (valid.rooted.positive _ _ found).2
    simp only [origin] at zero positive
    omega
  · exact present

theorem term_start (found : s.tree ⟨index,term⟩ = some written) :
    ∃ leader start, s.elected term = some (leader,start) ∧ start.index < index ∧ Above s.tree ⟨index,term⟩ start := by
  induction index generalizing written with
  | zero => exact absurd (valid.rooted.positive _ _ found).1 (Nat.lt_irrefl 0)
  | succ index ih =>
    obtain ⟨payload,before⟩ := written
    obtain ⟨leader,start,led,⟨rfl,rfl⟩ | ⟨longer,rfl⟩⟩ := valid.written _ _ _ _ found
    · exact ⟨leader,start,led,Nat.lt_succ_self _,.step found .refl⟩
    · obtain ⟨earlier,present⟩ := same_term_parent valid found
      obtain ⟨leader',start',led',_,above⟩ := ih present
      rw [led] at led'
      cases led'
      exact ⟨leader,start,led,Nat.lt_succ_of_lt longer,.step found above⟩

theorem term_run (upper : s.tree ⟨top,term⟩ = some written) (lower : s.tree ⟨index,term⟩ = some other)
    (order : index ≤ top) : Above s.tree ⟨top,term⟩ ⟨index,term⟩ := by
  induction top generalizing written with
  | zero => exact absurd (valid.rooted.positive _ _ upper).1 (Nat.lt_irrefl 0)
  | succ top ih =>
    by_cases equal : index = top+1
    · subst equal; exact .refl
    · obtain ⟨payload,before⟩ := written
      obtain ⟨leader,start,led,⟨rfl,rfl⟩ | ⟨-,rfl⟩⟩ := valid.written _ _ _ _ upper
      · obtain ⟨leader',start',led',below,_⟩ := term_start valid lower
        rw [led] at led'
        cases led'
        omega
      · obtain ⟨earlier,present⟩ := same_term_parent valid upper
        exact .step upper (ih present (by omega))

theorem line_known (line : OnLine s term id) : Known s.tree id := by
  obtain ⟨leader,start,led,tip,rfl | ⟨_,written⟩,above⟩ := line
  · exact known_below valid.rooted above (valid.started _ _ _ led).1
  · exact known_below valid.rooted above (.inr written)

omit valid in
theorem OnLine.below (line : OnLine s term id) (above : Above s.tree id a) : OnLine s term a := by
  obtain ⟨leader,start,led,tip,isTip,reach⟩ := line
  exact ⟨leader,start,led,tip,isTip,reach.trans above⟩

-- All tips of a term are in line, so everything on a term's line is.
theorem line_tips (led : s.elected term = some (leader,start)) {left right : Id}
    (one : left = start ∨ (left.term = term ∧ ∃ written, s.tree left = some written))
    (two : right = start ∨ (right.term = term ∧ ∃ written, s.tree right = some written))
    (order : right.index ≤ left.index) : Above s.tree left right := by
  obtain ⟨leftIndex,leftTerm⟩ := left
  rcases one with one | ⟨rfl,written,found⟩
  · rcases two with two | ⟨rfl,other,present⟩
    · rw [one,two]; exact .refl
    · obtain ⟨leader',start',led',below,_⟩ := term_start valid present
      rw [led] at led'
      cases led'
      have := congrArg Id.index one
      simp only at this order
      omega
  · rcases two with two | ⟨sameTerm,other,present⟩
    · obtain ⟨leader',start',led',_,above⟩ := term_start valid found
      rw [led] at led'
      cases led'
      rw [two]; exact above
    · simp only at sameTerm
      subst sameTerm
      exact term_run valid found present order

theorem line_comparable (one : OnLine s term a) (two : OnLine s term b) (order : b.index ≤ a.index) :
    Above s.tree a b := by
  obtain ⟨leader,start,led,left,leftTip,leftAbove⟩ := one
  obtain ⟨leader',start',led',right,rightTip,rightAbove⟩ := two
  rw [led] at led'
  cases led'
  rcases Nat.le_total right.index left.index with shorter | longer
  · exact leftAbove.comparable ((line_tips valid led leftTip rightTip shorter).trans rightAbove) order
  · exact ((line_tips valid led rightTip leftTip longer).trans leftAbove).comparable rightAbove order

theorem line_of_term (found : s.tree id = some written) : OnLine s id.term id := by
  obtain ⟨leader,start,led,_,_⟩ := term_start valid found
  exact ⟨leader,start,led,_,.inr ⟨rfl,written,found⟩,.refl⟩

end line

theorem Kept.earlier (grows : Grows s t) (valid : Valid voters s) (kept : Kept t since upTo id) : Kept s since upTo id := by
  intro term leader start later bounded led
  have above := kept term leader start later bounded (grows.elected _ _ led)
  exact above.restrict valid.rooted (valid.started _ _ _ led).1 grows.tree

variable [DecidableEq Node]

def State.record (s : State Node Payload) (node : Node) (term : Nat) (head : Id) : State Node Payload :=
  {s with
    term := Function.update s.term node term
    head := Function.update s.head node head
    held := fun other epoch place => s.held other epoch place ∨ (other = node ∧ epoch = term ∧ place = head)}

def State.cast (s : State Node Payload) (node candidate : Node) : State Node Payload :=
  let ballot := Function.update (s.votes node) (s.term node) (some (candidate,s.head node))
  {s with votes := Function.update s.votes node ballot}

def State.elect (s : State Node Payload) (term : Nat) (leader : Node) (start : Id) : State Node Payload :=
  {s with elected := Function.update s.elected term (some (leader,start))}

def State.write (s : State Node Payload) (id : Id) (payload : Payload) (before : Nat) : State Node Payload :=
  {s with tree := Function.update s.tree id (some (payload,before))}

inductive Step (voters : Finset Node) (s : State Node Payload) : State Node Payload → Prop where
  | raise (node : Node) (term : Nat) (higher : s.term node < term) : Step voters s (s.record node term (s.head node))
  | vote (node candidate : Node) (positive : 0 < s.term node) (free : s.votes node (s.term node) = none)
      (fresh : node = candidate ∨ ∃ own, s.votes candidate (s.term node) = some (candidate,own) ∧ Fresh own (s.head node)) :
      Step voters s (s.cast node candidate)
  | elect (term : Nat) (leader : Node) (start : Id) (quorum : Finset Node) (vacant : s.elected term = none)
      (own : s.votes leader term = some (leader,start)) (majority : Majority voters quorum)
      (won : ∀ node ∈ quorum, ∃ behind, s.votes node term = some (leader,behind)) :
      Step voters s (s.elect term leader start)
  | write (index term : Nat) (payload : Payload) (before : Nat) (leader : Node) (start : Id)
      (led : s.elected term = some (leader,start)) (fresh : s.tree ⟨index+1,term⟩ = none)
      (follows : (index = start.index ∧ before = start.term) ∨
        (before = term ∧ ∃ written, s.tree ⟨index,term⟩ = some written)) :
      Step voters s (s.write ⟨index+1,term⟩ payload before)
  | adopt (node : Node) (target : Id) (line : OnLine s (s.term node) target)
      (missing : ¬ Above s.tree (s.head node) target) : Step voters s (s.record node (s.term node) target)

inductive Runs (voters : Finset Node) (s : State Node Payload) : State Node Payload → Prop where
  | nil : Runs voters s s
  | step : Runs voters s middle → Step voters middle after → Runs voters s after

theorem Runs.trans (one : Runs voters s t) (two : Runs voters t next) : Runs voters s next := by
  induction two with
  | nil => exact one
  | step _ step ih => exact .step ih step

theorem record_grows {node : Node} (higher : s.term node ≤ term) : Grows s (s.record node term head) where
  tree := Extends.refl _
  elected := fun _ _ found => found
  votes := fun _ _ _ found => found
  term := by
    intro other
    by_cases same : other = node
    · subst same; simpa [State.record] using higher
    · simp [State.record,same]
  held := fun _ _ _ found => .inl found

theorem cast_grows {node : Node} (free : s.votes node (s.term node) = none) : Grows s (s.cast node candidate) := by
  refine ⟨Extends.refl _,fun _ _ found => found,?_,fun _ => Nat.le_refl _,fun _ _ _ found => found⟩
  intro other term ballot found
  by_cases same : other = node
  · subst same
    by_cases now : term = s.term other
    · subst now; rw [free] at found; cases found
    · simpa [State.cast,now] using found
  · simpa [State.cast,same] using found

omit [DecidableEq Node] in
theorem elect_grows (vacant : s.elected term = none) : Grows s (s.elect term leader start) := by
  refine ⟨Extends.refl _,?_,fun _ _ _ found => found,fun _ => Nat.le_refl _,fun _ _ _ found => found⟩
  intro other result found
  have different : other ≠ term := by rintro rfl; rw [vacant] at found; cases found
  simpa [State.elect,different] using found

omit [DecidableEq Node] in
theorem write_grows (fresh : s.tree id = none) : Grows s (s.write id payload before) := by
  refine ⟨?_,fun _ _ found => found,fun _ _ _ found => found,fun _ => Nat.le_refl _,fun _ _ _ found => found⟩
  intro other written found
  have different : other ≠ id := by rintro rfl; rw [fresh] at found; cases found
  simpa [State.write,different] using found

theorem step_grows (step : Step voters s t) : Grows s t := by
  cases step with
  | raise node term higher => exact record_grows (Nat.le_of_lt higher)
  | vote node candidate positive free => exact cast_grows free
  | elect term leader start quorum vacant => exact elect_grows vacant
  | write index term payload before leader start led fresh => exact write_grows fresh
  | adopt => exact record_grows (Nat.le_refl _)

theorem runs_grows (path : Runs voters s t) : Grows s t := by
  induction path with
  | nil => exact Grows.refl _
  | step _ step ih => exact ih.trans (step_grows step)

theorem record_valid (valid : Valid voters s) {node : Node} (higher : s.term node ≤ term) (known : Known s.tree target)
    (old : target.term ≤ term) (carried : ∀ epoch place id, s.held node epoch place → Above s.tree place id → id.term = epoch →
      Kept s epoch term id → Above s.tree target id) : Valid voters (s.record node term target) := by
  have now : ∀ other, s.term other ≤ (s.record node term target).term other := (record_grows higher).term
  have ownTerm : (s.record node term target).term node = term := Function.update_self ..
  have ownHead : (s.record node term target).head node = target := Function.update_self ..
  have terms : ∀ other, other ≠ node → (s.record node term target).term other = s.term other :=
    fun other different => Function.update_of_ne different ..
  have heads : ∀ other, other ≠ node → (s.record node term target).head other = s.head other :=
    fun other different => Function.update_of_ne different ..
  have unvoted : ∀ later choice, s.votes node later = some choice → ¬ term < later := by
    intro later choice cast
    have := (valid.voted _ _ _ _ cast).2.1
    omega
  refine ⟨valid.rooted,valid.written,valid.started,?_,?_,?_,?_,?_,?_,?_⟩
  · intro other epoch candidate behind cast
    obtain ⟨positive,bounded,facts⟩ := valid.voted other epoch candidate behind cast
    exact ⟨positive,Nat.le_trans bounded (now other),facts⟩
  · intro other
    by_cases same : other = node
    · subst same; rw [ownHead,ownTerm]; exact ⟨known,old⟩
    · rw [heads other same,terms other same]; exact valid.current other
  · rintro other epoch place (held | ⟨rfl,rfl,rfl⟩)
    · exact ⟨Nat.le_trans (valid.past _ _ _ held).1 (now other),(valid.past _ _ _ held).2⟩
    · exact ⟨Nat.le_of_eq ownTerm.symm,known⟩
  · intro other
    by_cases same : other = node
    · subst same; rw [ownHead,ownTerm]; exact .inr ⟨rfl,rfl,rfl⟩
    · rw [heads other same,terms other same]; exact .inl (valid.present other)
  · rintro other epoch place id (held | ⟨rfl,rfl,rfl⟩) above written kept
    · by_cases same : other = node
      · subst same
        rw [ownTerm] at kept
        rw [ownHead]
        exact carried epoch place id held above written kept
      · rw [terms other same] at kept
        rw [heads other same]
        exact valid.retained _ _ _ _ held above written kept
    · rw [ownHead]; exact above
  · rintro other epoch place id later candidate behind (held | ⟨rfl,rfl,rfl⟩) above written cast order kept
    · exact valid.ballots _ _ _ _ _ _ _ held above written cast order kept
    · exact absurd order (unvoted _ _ cast)
  · intro epoch leader start led
    obtain ⟨ownVote,quorum,majority,behind⟩ := valid.backed _ _ _ led
    refine ⟨ownVote,quorum,majority,fun voter member => ?_⟩
    obtain ⟨vantage,cast,covers⟩ := behind voter member
    refine ⟨vantage,cast,?_⟩
    rintro earlier place id (held | ⟨rfl,rfl,rfl⟩) above written order kept
    · exact covers _ _ _ held above written order kept
    · exact absurd order (unvoted _ _ cast)

theorem raise_valid (valid : Valid voters s) (node : Node) (higher : s.term node < term) :
    Valid voters (s.record node term (s.head node)) := by
  have below := Nat.le_of_lt higher
  obtain ⟨known,old⟩ := valid.current node
  refine record_valid valid below known (Nat.le_trans old below) fun epoch place id held above written kept => ?_
  exact valid.retained _ _ _ _ held above written
    (fun mid leader start after bounded => kept mid leader start after (Nat.le_trans bounded below))

theorem cast_valid (valid : Valid voters s) {node candidate : Node} (positive : 0 < s.term node)
    (free : s.votes node (s.term node) = none)
    (fresh : node = candidate ∨ ∃ own, s.votes candidate (s.term node) = some (candidate,own) ∧ Fresh own (s.head node)) :
    Valid voters (s.cast node candidate) := by
  have grows : Grows s (s.cast node candidate) := cast_grows free
  have fresh' : (s.cast node candidate).votes node (s.term node) = some (candidate,s.head node) := by simp [State.cast]
  have known : ∀ other epoch choice behind, (s.cast node candidate).votes other epoch = some (choice,behind) →
      s.votes other epoch = some (choice,behind) ∨
        (other = node ∧ epoch = s.term node ∧ choice = candidate ∧ behind = s.head node) := by
    intro other epoch choice behind cast
    by_cases same : other = node
    · subst same
      by_cases now : epoch = s.term other
      · subst now
        rw [fresh'] at cast
        cases cast
        exact .inr ⟨rfl,rfl,rfl,rfl⟩
      · exact .inl (by simpa [State.cast,now] using cast)
    · exact .inl (by simpa [State.cast,same] using cast)
  refine ⟨valid.rooted,valid.written,valid.started,?_,valid.current,valid.past,valid.present,valid.retained,?_,?_⟩
  · intro other epoch choice behind cast
    rcases known _ _ _ _ cast with old | ⟨rfl,rfl,rfl,rfl⟩
    · obtain ⟨after,bounded,rooted,low,own,ownCast,ahead⟩ := valid.voted _ _ _ _ old
      exact ⟨after,bounded,rooted,low,own,grows.votes _ _ _ ownCast,ahead⟩
    · refine ⟨positive,Nat.le_refl _,(valid.current _).1,(valid.current _).2,?_⟩
      rcases fresh with rfl | ⟨own,ownCast,ahead⟩
      · exact ⟨s.head other,fresh',.inr ⟨rfl,Nat.le_refl _⟩⟩
      · exact ⟨own,grows.votes _ _ _ ownCast,ahead⟩
  · intro other epoch place id later choice behind held above written cast order kept
    rcases known _ _ _ _ cast with old | ⟨rfl,rfl,rfl,rfl⟩
    · exact valid.ballots _ _ _ _ _ _ _ held above written old order kept
    · exact valid.retained _ _ _ _ held above written kept
  · intro epoch leader start led
    obtain ⟨ownVote,quorum,majority,behind⟩ := valid.backed _ _ _ led
    refine ⟨grows.votes _ _ _ ownVote,quorum,majority,fun voter member => ?_⟩
    obtain ⟨vantage,cast,covers⟩ := behind voter member
    exact ⟨vantage,grows.votes _ _ _ cast,covers⟩

omit [DecidableEq Node] in
theorem elect_valid (valid : Valid voters s) {leader : Node} {quorum : Finset Node} (vacant : s.elected term = none)
    (own : s.votes leader term = some (leader,start)) (majority : Majority voters quorum)
    (won : ∀ node ∈ quorum, ∃ behind, s.votes node term = some (leader,behind)) :
    Valid voters (s.elect term leader start) := by
  have grows : Grows s (s.elect term leader start) := elect_grows vacant
  have fresh : (s.elect term leader start).elected term = some (leader,start) := by simp [State.elect]
  have known : ∀ epoch winner base, (s.elect term leader start).elected epoch = some (winner,base) →
      s.elected epoch = some (winner,base) ∨ (epoch = term ∧ winner = leader ∧ base = start) := by
    intro epoch winner base led
    by_cases same : epoch = term
    · subst same
      rw [fresh] at led
      cases led
      exact .inr ⟨rfl,rfl,rfl⟩
    · exact .inl (by simpa [State.elect,same] using led)
  obtain ⟨positive,-,startKnown,startTerm,-⟩ := valid.voted _ _ _ _ own
  -- No entry of this term exists yet, so the log it starts from is older.
  have older : start.term < term := by
    refine Nat.lt_of_le_of_ne startTerm fun same => ?_
    rcases startKnown with zero | ⟨written,found⟩
    · rw [zero] at same
      exact absurd same.symm (Nat.ne_of_gt positive)
    · obtain ⟨winner,base,led,-,-⟩ := term_start valid found
      rw [same,vacant] at led
      cases led
  refine ⟨valid.rooted,?_,?_,valid.voted,valid.current,valid.past,valid.present,?_,?_,?_⟩
  · intro index epoch payload before found
    obtain ⟨winner,base,led,follows⟩ := valid.written _ _ _ _ found
    exact ⟨winner,base,grows.elected _ _ led,follows⟩
  · intro epoch winner base led
    rcases known _ _ _ led with old | ⟨rfl,rfl,rfl⟩
    · exact valid.started _ _ _ old
    · exact ⟨startKnown,older⟩
  · intro node epoch place id held above written kept
    exact valid.retained _ _ _ _ held above written (kept.earlier grows valid)
  · intro node epoch place id later candidate behind held above written cast order kept
    exact valid.ballots _ _ _ _ _ _ _ held above written cast order (kept.earlier grows valid)
  · intro epoch winner base led
    rcases known _ _ _ led with old | ⟨rfl,rfl,rfl⟩
    · obtain ⟨ownVote,quorum,majority,behind⟩ := valid.backed _ _ _ old
      refine ⟨ownVote,quorum,majority,fun voter member => ?_⟩
      obtain ⟨vantage,cast,covers⟩ := behind voter member
      exact ⟨vantage,cast,fun earlier place id held above written order kept =>
        covers _ _ _ held above written order (kept.earlier grows valid)⟩
    · refine ⟨own,quorum,majority,fun voter member => ?_⟩
      obtain ⟨vantage,cast⟩ := won voter member
      refine ⟨vantage,cast,fun earlier place id held above written order kept => ?_⟩
      refine valid.ballots _ _ _ _ _ _ _ held above written cast order fun mid winner' from' after bounded led' => ?_
      have different : mid ≠ epoch := by rintro rfl; rw [vacant] at led'; cases led'
      exact kept.earlier grows valid mid winner' from' after (by omega) led'

omit [DecidableEq Node] in
theorem write_valid (valid : Valid voters s) (payload : Payload) (led : s.elected term = some (leader,start))
    (fresh : s.tree ⟨index+1,term⟩ = none) (follows : (index = start.index ∧ before = start.term) ∨
      (before = term ∧ ∃ written, s.tree ⟨index,term⟩ = some written)) :
    Valid voters (s.write ⟨index+1,term⟩ payload before) := by
  have grows : Grows s (s.write ⟨index+1,term⟩ payload before) := write_grows fresh
  have known : ∀ id written, (s.write ⟨index+1,term⟩ payload before).tree id = some written →
      s.tree id = some written ∨ (id = ⟨index+1,term⟩ ∧ written = (payload,before)) := by
    intro id written found
    by_cases same : id = ⟨index+1,term⟩
    · subst same
      exact .inr ⟨rfl,by simpa [State.write] using found.symm⟩
    · exact .inl (by simpa [State.write,same] using found)
  obtain ⟨startKnown,startTerm⟩ := valid.started _ _ _ led
  have parent : Known s.tree ⟨index,before⟩ ∧ before ≤ term := by
    rcases follows with ⟨rfl,rfl⟩ | ⟨rfl,written⟩
    · exact ⟨startKnown,Nat.le_of_lt startTerm⟩
    · exact ⟨.inr written,Nat.le_refl _⟩
  have settled : ∀ {id below}, Known s.tree id → Above (s.write ⟨index+1,term⟩ payload before).tree id below →
      Above s.tree id below := fun present above => above.restrict valid.rooted present grows.tree
  refine ⟨⟨?_,?_⟩,?_,?_,?_,?_,?_,valid.present,?_,?_,?_⟩
  · intro id written found
    rcases known _ _ found with old | ⟨rfl,_⟩
    · exact valid.rooted.positive _ _ old
    · exact ⟨Nat.succ_pos _,Nat.lt_of_le_of_lt (Nat.zero_le _) startTerm⟩
  · intro position epoch content previous found
    rcases known _ _ found with old | ⟨same,content⟩
    · obtain ⟨present,low⟩ := valid.rooted.parent _ _ _ _ old
      exact ⟨present.extend grows.tree,low⟩
    · cases same
      cases content
      exact ⟨parent.1.extend grows.tree,parent.2⟩
  · intro position epoch content previous found
    rcases known _ _ found with old | ⟨same,content⟩
    · exact valid.written _ _ _ _ old
    · cases same
      cases content
      refine ⟨leader,start,led,?_⟩
      rcases follows with direct | ⟨rfl,written,present⟩
      · exact .inl direct
      · obtain ⟨leader',start',led',longer,-⟩ := term_start valid present
        rw [led] at led'
        cases led'
        exact .inr ⟨longer,rfl⟩
  · intro epoch winner base elected
    obtain ⟨present,low⟩ := valid.started _ _ _ elected
    exact ⟨present.extend grows.tree,low⟩
  · intro node epoch candidate behind cast
    obtain ⟨positive,bounded,present,rest⟩ := valid.voted _ _ _ _ cast
    exact ⟨positive,bounded,present.extend grows.tree,rest⟩
  · intro node
    exact ⟨(valid.current node).1.extend grows.tree,(valid.current node).2⟩
  · intro node epoch place held
    exact ⟨(valid.past _ _ _ held).1,(valid.past _ _ _ held).2.extend grows.tree⟩
  · intro node epoch place id held above written kept
    have old := settled (valid.past _ _ _ held).2 above
    exact (valid.retained _ _ _ _ held old written (kept.earlier grows valid)).extend grows.tree
  · intro node epoch place id later candidate behind held above written cast order kept
    have old := settled (valid.past _ _ _ held).2 above
    exact (valid.ballots _ _ _ _ _ _ _ held old written cast order (kept.earlier grows valid)).extend grows.tree
  · intro epoch winner base elected
    obtain ⟨ownVote,quorum,majority,behind⟩ := valid.backed _ _ _ elected
    refine ⟨ownVote,quorum,majority,fun voter member => ?_⟩
    obtain ⟨vantage,cast,covers⟩ := behind voter member
    refine ⟨vantage,cast,fun earlier place id held above written order kept => ?_⟩
    have old := settled (valid.past _ _ _ held).2 above
    exact (covers _ _ _ held old written order (kept.earlier grows valid)).extend grows.tree

theorem adopt_valid (valid : Valid voters s) {node : Node} (line : OnLine s (s.term node) target)
    (missing : ¬ Above s.tree (s.head node) target) : Valid voters (s.record node (s.term node) target) := by
  have targetKnown := line_known valid line
  have targetTerm : target.term ≤ s.term node := by
    obtain ⟨leader,start,led,tip,rfl | ⟨same,-⟩,above⟩ := line
    · exact Nat.le_trans (above.term_le valid.rooted) (Nat.le_of_lt (valid.started _ _ _ led).2)
    · exact Nat.le_trans (above.term_le valid.rooted) (Nat.le_of_eq same)
  -- What the old log held of this term, or of an earlier term and kept by this
  -- term's leader, is on the line the new end is on. Were it past the new end,
  -- the old log would have contained the new end.
  have carried : ∀ id, Above s.tree (s.head node) id → OnLine s (s.term node) id → Above s.tree target id := by
    intro id above present
    rcases Nat.le_total id.index target.index with lower | upper
    · exact line_comparable valid line present lower
    · exact absurd (above.trans (line_comparable valid present line upper)) missing
  refine record_valid valid (Nat.le_refl _) targetKnown targetTerm fun epoch place id held above written kept => ?_
  have before := valid.retained _ _ _ _ held above written kept
  refine carried id before ?_
  rcases Nat.lt_or_eq_of_le (valid.past _ _ _ held).1 with earlier | now
  · obtain ⟨leader,start,led,tip,isTip,-⟩ := line
    exact ⟨leader,start,led,start,.inl rfl,kept _ _ _ earlier (Nat.le_refl _) led⟩
  · rcases known_below valid.rooted before (valid.current node).1 with zero | ⟨content,present⟩
    · obtain ⟨leader,start,led,-,-,-⟩ := line
      exact ⟨leader,start,led,start,.inl rfl,zero ▸ above_origin valid.rooted (valid.started _ _ _ led).1⟩
    · rw [← now,← written]; exact line_of_term valid present

theorem step_valid (valid : Valid voters s) (step : Step voters s t) : Valid voters t := by
  cases step with
  | raise node term higher => exact raise_valid valid node higher
  | vote node candidate positive free fresh => exact cast_valid valid positive free fresh
  | elect term leader start quorum vacant own majority won => exact elect_valid valid vacant own majority won
  | write index term payload before leader start led fresh follows => exact write_valid valid payload led fresh follows
  | adopt node target line missing => exact adopt_valid valid line missing

theorem runs_valid (valid : Valid voters s) (path : Runs voters s t) : Valid voters t := by
  induction path with
  | nil => exact valid
  | step _ step ih => exact step_valid ih step

end ForgeKv.Ballot
