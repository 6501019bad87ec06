import ForgeKv.Cluster.PeerRoundTrip
import ForgeKv.Raft.Incarnation
import ForgeKv.Raft.Session
import Mathlib.Data.List.TakeWhile

namespace ForgeKv.Raft
open RaftNode (malformedAt)

variable {node after other : RaftNode} {request : AppendEntries} {source : NodeId} {message : Message}

def Action.addressed : Action → Option (NodeId × Message)
  | .sendMessage target message => some (target,message)
  | _ => none

def messages (actions : Actions) : List (NodeId × Message) := actions.filterMap Action.addressed

-- The actions that a change of term or role comes with.
def Action.opens : Action → Bool
  | .roleChanged .. | .persistHardState .. => true
  | _ => false

-- The first statements of step: a message of a higher term makes the node a follower.
def RaftNode.raised (node : RaftNode) (source : NodeId) (message : Message) : RaftNode :=
  if node.currentTerm < message.term then node.becomeFollower message.term (RaftNode.incomingLeader source message) else node

-- What the statements before a handler's own work leave alone.
structure Opened (node after : RaftNode) : Prop where
  config : after.config = node.config
  log : after.log = node.log
  commit : after.commitIndex = node.commitIndex
  applied : after.lastApplied = node.lastApplied
  image : after.durableSnapshot = node.durableSnapshot
  incoming : after.incomingSnapshot = node.incomingSnapshot
  actions : ∃ lead, after.actions = node.actions ++ lead ∧ ∀ action ∈ lead, action.opens = true

theorem Opened.refl (node : RaftNode) : Opened node node :=
  ⟨rfl,rfl,rfl,rfl,rfl,rfl,[],(List.append_nil _).symm,List.forall_mem_nil _⟩

theorem Opened.trans (first : Opened node other) (second : Opened other after) : Opened node after := by
  obtain ⟨lead,begun,all⟩ := first.actions
  obtain ⟨more,added,rest⟩ := second.actions
  refine ⟨second.config.trans first.config,second.log.trans first.log,second.commit.trans first.commit,
    second.applied.trans first.applied,second.image.trans first.image,second.incoming.trans first.incoming,lead ++ more,?_,?_⟩
  · rw [added,begun,List.append_assoc]
  · intro action member
    exact (List.mem_append.mp member).elim (all action) (rest action)

theorem becomeFollower_opened : Opened node (node.becomeFollower term leader) := by
  obtain ⟨new,emitted,told⟩ := becomeFollower_tells
  refine ⟨rfl,rfl,rfl,rfl,rfl,rfl,new,emitted,fun action member => ?_⟩
  cases told action member <;> rfl

theorem raised_opened : Opened node (node.raised source message) := by
  unfold RaftNode.raised
  split
  · exact becomeFollower_opened
  · exact .refl node

theorem followLeader_opened : Opened node (node.followLeader source) := by
  unfold RaftNode.followLeader
  split
  · exact becomeFollower_opened
  · exact {Opened.refl node with}

theorem raised_term : (node.raised source message).currentTerm = max node.currentTerm message.term := by
  unfold RaftNode.raised
  split
  · rename_i higher
    rw [Nat.max_eq_right (Nat.le_of_lt higher)]
    exact if_pos (decide_eq_true higher)
  · rename_i low
    exact (Nat.max_eq_left (Nat.not_lt.mp low)).symm

theorem Opened.slot (opened : Opened node after) : after.slot index = node.slot index := slot_log opened.log

theorem Opened.base (opened : Opened node after) : after.baseIndex = node.baseIndex := by
  unfold RaftNode.baseIndex RaftNode.frontEntry
  rw [opened.log]

section verdict
variable (log : other.log = node.log)
include log

-- The checks read nothing but the log, the commit index and the term.
theorem last_same : other.lastLogIndex = node.lastLogIndex := by
  unfold RaftNode.lastLogIndex RaftNode.lastEntry
  rw [log]

theorem base_same : other.baseIndex = node.baseIndex := by
  unfold RaftNode.baseIndex RaftNode.frontEntry
  rw [log]

theorem entryAt_same (index : Nat) : Agrees (node.entryAt index) (other.entryAt index) := by
  unfold RaftNode.entryAt
  rw [last_same log,base_same log,log]
  refine .ite .error ?_
  cases node.log[index-node.baseIndex]? with
  | none => exact .error
  | some => exact .refl _

theorem firstConflict_same (term index : Nat) : Agrees (node.firstConflict term index) (other.firstConflict term index) := by
  induction index with
  | zero => exact .refl _
  | succ index ih =>
    unfold RaftNode.firstConflict
    rw [base_same log]
    exact .ite (.bind (entryAt_same log index) fun entry => .ite ih (.refl _)) (.refl _)

theorem scanOverlap_same (commit : other.commitIndex = node.commitIndex) (entries : List LogEntry) :
    Agrees (node.scanOverlap entries) (other.scanOverlap entries) := by
  induction entries with
  | nil => exact .refl _
  | cons incoming rest ih =>
    unfold RaftNode.scanOverlap
    rw [last_same log,commit]
    exact .ite (.refl _) (.bind (entryAt_same log incoming.index) fun existing => .ite (.refl _) (.ite (.refl _) ih))

theorem verdict_same (commit : other.commitIndex = node.commitIndex) (term : other.currentTerm = node.currentTerm) :
    Agrees (node.verdict source request) (other.verdict source request) := by
  unfold RaftNode.verdict
  rw [last_same log,base_same log,term]
  refine .ite (.refl _) (.ite (.refl _) (.ite (.refl _) (.bind (entryAt_same log _) fun previous => .ite ?_ ?_)))
  · exact .bind (firstConflict_same log previous.term request.previousLogIndex) fun conflict => .refl _
  · cases malformedAt request.term (request.previousLogIndex+1) request.previousLogTerm request.entries with
    | some => exact .refl _
    | none => exact scanOverlap_same log commit request.entries

end verdict

theorem scanOverlap_held (sound : Sound node) (held : ∀ entry ∈ entries, Holds node entry) :
    node.scanOverlap entries = .ok .matched := by
  induction entries with
  | nil => rfl
  | cons incoming rest ih =>
    obtain ⟨real,found⟩ := held incoming List.mem_cons_self
    have place := slot_place sound ((slot_of_le (Nat.le_of_lt real)).trans found)
    obtain ⟨existing,read,got,-⟩ := sound.entryAt place.1 place.2.1
    have same : existing = incoming := Option.some.inj (got.symm.trans found)
    subst same
    unfold RaftNode.scanOverlap
    rw [if_neg (Nat.not_lt.mpr place.2.1)]
    simp only [read,bind,Except.bind,ne_eq,not_true_eq_false,if_false]
    exact ih fun entry member => held entry (List.mem_cons_of_mem _ member)

theorem verdict_matched (sound : Sound node) (accepts : Accepts node source request)
    (held : ∀ entry ∈ request.entries, Holds node entry) : node.verdict source request = .ok .matched := by
  obtain ⟨low,previous,got,same⟩ := accepts.previous
  have place := slot_place sound ((slot_of_le low).trans got)
  obtain ⟨entry,read,found,-⟩ := sound.entryAt place.1 place.2.1
  have equal : entry = previous := Option.some.inj (found.symm.trans got)
  subst equal
  have positive := accepts.positive
  have term := accepts.term
  unfold RaftNode.verdict
  rw [if_neg (by simp [accepts.leader]; omega),if_neg (Nat.not_lt.mpr low),if_neg (Nat.not_lt.mpr place.2.1)]
  simp only [read,bind,Except.bind,same,ne_eq,not_true_eq_false,if_false,accepts.wellFormed]
  exact scanOverlap_held sound held

def RaftNode.learn (node : RaftNode) (commit : Nat) : RaftNode :=
  if commit ≤ node.commitIndex then node else node.commitTo commit

theorem advanceFollowerCommit_learn (sound : Sound node) (reached : commit ≤ node.lastLogIndex) :
    node.advanceFollowerCommit commit = .ok (node.learn commit) := by
  unfold RaftNode.advanceFollowerCommit RaftNode.learn
  rw [Nat.min_eq_left reached]
  dsimp only
  split
  · rfl
  · rename_i forward
    exact commitThrough_ok sound (Nat.not_le.mp forward) reached

theorem learn_commit : (node.learn commit).commitIndex = max node.commitIndex commit := by
  unfold RaftNode.learn
  split
  · rename_i low
    exact (Nat.max_eq_left low).symm
  · rename_i forward
    exact (Nat.max_eq_right (Nat.le_of_not_le forward)).symm

def Action.logs : Action → Bool
  | .persistLog .. => true
  | _ => false

def Action.commits : Action → Bool
  | .commitAdvanced .. | .applyEntry _ => true
  | _ => false

theorem learn_kept : (node.learn commit).log = node.log ∧ (node.learn commit).config = node.config ∧
    (node.learn commit).currentTerm = node.currentTerm ∧
    ∃ learned, (node.learn commit).actions = node.actions ++ learned ∧ ∀ action ∈ learned, action.commits = true := by
  unfold RaftNode.learn
  split
  · exact ⟨rfl,rfl,rfl,[],(List.append_nil _).symm,List.forall_mem_nil _⟩
  · refine ⟨rfl,rfl,rfl,_,rfl,?_⟩
    intro action member
    rcases List.mem_cons.mp member with rfl | applied
    · rfl
    · obtain ⟨-,-,rfl⟩ := List.mem_map.mp applied
      rfl

-- What an accepted request makes of the log.
structure Takes (node : RaftNode) (request : AppendEntries) (after : RaftNode) : Prop where
  previous : (node.slot request.previousLogIndex).map LogEntry.term = some request.previousLogTerm
  base : after.baseIndex = node.baseIndex
  before : ∀ index, index ≤ request.previousLogIndex → after.slot index = node.slot index
  taken : ∀ entry ∈ request.entries, after.slot entry.index = some entry
  rest : ∀ index, request.previousLogIndex+request.entries.length < index →
    after.slot index = node.slot index ∨ after.slot index = none
  commit : after.commitIndex ≤
    max node.commitIndex (min request.leaderCommit (request.previousLogIndex+request.entries.length))

theorem takes_held (accepts : Accepts node source request) (held : ∀ entry ∈ request.entries, Holds node entry) :
    Takes node request node where
  previous := slot_of_hasAt accepts.previous
  base := rfl
  before := fun _ _ => rfl
  taken := fun entry member => slot_of_holds (held entry member)
  rest := fun _ _ => .inl rfl
  commit := Nat.le_max_left _ _

theorem takes_replaced (sound : Sound node) (joins : Joins node source request before entry rest)
    (sound' : Sound (node.replaceSuffix entry.index (entry::rest))) :
    Takes node request (node.replaceSuffix entry.index (entry::rest)) := by
  obtain ⟨last,base⟩ := replace_last sound joins
  have first := joins.index
  have size : request.entries.length = before.length+(rest.length+1) := by simp [joins.split]
  refine ⟨slot_of_hasAt joins.accepts.previous,base,?_,?_,?_,Nat.le_max_left _ _⟩
  · intro index low
    unfold RaftNode.slot
    rw [base]
    split
    · exact replace_keeps joins (by omega)
    · rfl
  · exact fun other member => slot_of_holds ((replace_holds sound joins).2 other member)
  · intro index beyond
    exact .inr (slot_beyond sound' (by omega))

-- What a request brings from the first entry on that the log does not have.
def RaftNode.unheld (node : RaftNode) (entries : List LogEntry) : List LogEntry :=
  entries.dropWhile fun entry => node.slot entry.index = some entry

-- The log with these entries in the place of its own from there on.
def RaftNode.spliced (node : RaftNode) : List LogEntry → RaftNode
  | [] => node
  | first::rest => node.replaceSuffix first.index (first::rest)

theorem unheld_held (held : ∀ entry ∈ entries, Holds node entry) : node.unheld entries = [] := by
  refine List.dropWhile_eq_nil_iff.mpr fun entry member => ?_
  simpa using slot_of_holds (held entry member)

theorem unheld_split (sound : Sound node) (split : entries = before ++ entry::rest) (kept : ∀ earlier ∈ before, Holds node earlier)
    (conflict : Conflicts node entry) : node.unheld entries = entry::rest := by
  have other : ¬ node.slot entry.index = some entry := by
    intro found
    have place := slot_place sound found
    rcases conflict with beyond | ⟨-,existing,got,different⟩
    · omega
    · rw [slot_of_le place.1,got] at found
      cases found
      exact different rfl
  have empty : before.dropWhile (fun entry => decide (node.slot entry.index = some entry)) = [] := unheld_held kept
  unfold RaftNode.unheld
  rw [split,List.dropWhile_append,empty]
  simp [other]

-- A request that passed the checks leaves a log that has all of it.
structure Written (node : RaftNode) (source : NodeId) (request : AppendEntries) (written : RaftNode) : Prop where
  sound : Sound written
  accepts : Accepts written source request
  held : ∀ entry ∈ request.entries, Holds written entry
  real : ∀ first rest, node.unheld request.entries = first::rest → node.baseIndex < first.index
  result : written = node.spliced (node.unheld request.entries)

theorem conclude_accepted (sound : Sound node) (ruled : Ruled node source request overlap) :
    (∃ hint, node.conclude source request overlap = .ok (node.sendAppendResponse source request false 0 hint) ∧
      overlap = .reject hint) ∨
    ∃ written, Written node source request written ∧ Takes node request written ∧ node.conclude source request overlap =
      .ok ((written.learn (min request.leaderCommit (request.previousLogIndex+request.entries.length))).sendAppendResponse
        source request true (request.previousLogIndex+request.entries.length) 0) := by
  have finishes : ∀ written, Written node source request written → written.advanceFollowerCommit
      (min request.leaderCommit (request.previousLogIndex+request.entries.length)) =
      .ok (written.learn (min request.leaderCommit (request.previousLogIndex+request.entries.length))) := by
    intro written state
    refine advanceFollowerCommit_learn state.sound (Nat.le_trans (Nat.min_le_right _ _) ?_)
    exact learn_reached state.sound state.accepts state.held
  cases ruled with
  | refused => exact .inl ⟨_,rfl,rfl⟩
  | matched accepts held =>
    have nothing := unheld_held held
    have state : Written node source request node :=
      ⟨sound,accepts,held,(fun _ _ some => by rw [nothing] at some; cases some),by rw [nothing]; rfl⟩
    refine .inr ⟨node,state,takes_held accepts held,?_⟩
    simp only [RaftNode.conclude,finishes node state,bind,Except.bind]
    rfl
  | @replaced before entry later joins conflict =>
    have rest := unheld_split sound joins.split joins.kept conflict
    have replaced : Move (some (source,.appendEntries request)) none node (node.replaceSuffix entry.index (entry::later)) :=
      .replace rfl joins conflict
    obtain ⟨accepts',held⟩ := replace_holds sound joins
    have state : Written node source request (node.replaceSuffix entry.index (entry::later)) := by
      refine ⟨move_sound sound replaced,accepts',held,?_,by rw [rest]; rfl⟩
      intro first others same
      rw [rest] at same
      cases same
      exact (before_conflict joins).1
    refine .inr ⟨_,state,takes_replaced sound joins state.sound,?_⟩
    simp only [RaftNode.conclude,finishes _ state,bind,Except.bind]
    rfl

-- The node that the checks of a request are made on.
def RaftNode.ready (node : RaftNode) (source : NodeId) (request : AppendEntries) : RaftNode :=
  (node.clearActions.raised source (.appendEntries request)).heeding source request

theorem heeding_opened : Opened node (node.heeding source request) := by
  unfold RaftNode.heeding
  split
  · exact .refl node
  · exact followLeader_opened

theorem heeding_term : (node.heeding source request).currentTerm = node.currentTerm := by
  unfold RaftNode.heeding
  split
  · rfl
  · exact followLeader_follows.term

theorem ready_opened : Opened node.clearActions (node.ready source request) := raised_opened.trans heeding_opened

theorem ready_term : (node.ready source request).currentTerm = max node.currentTerm request.term :=
  heeding_term.trans raised_term

section step
variable (voter : source ∈ node.config.voters)
include voter

theorem raised_moves (message : Message) :
    Moves (some (source,message)) none node.clearActions (node.clearActions.raised source message) ∧
    ((node.clearActions.raised source message).role ≠ .follower → (node.clearActions.raised source message).actions = []) := by
  unfold RaftNode.raised
  split
  · rename_i higher
    refine ⟨.one (.raise rfl rfl higher fun known named => ?_),fun active => absurd rfl active⟩
    rw [incomingLeader_source named]
    exact voter
  · exact ⟨.nil,fun _ => rfl⟩

theorem step_raised (sound : Sound node) (other : source ≠ node.config.selfId) (positive : message.Positive)
    (handled : (node.clearActions.raised source message).handle source message = .ok after) :
    node.step source message = .ok (after.clearActions,after.actions) ∧ Sound after := by
  refine step_received sound positive ?_
  unfold RaftNode.receive
  rw [if_neg (by simpa [RaftNode.isVoter,RaftNode.clearActions] using ⟨other,voter⟩)]
  unfold RaftNode.raised at handled
  split
  · rename_i higher
    rw [if_pos higher] at handled
    exact handled
  · rename_i current
    rw [if_neg current] at handled
    exact handled

theorem ready_sound (sound : Sound node) (request : AppendEntries) : Sound (node.ready source request) := by
  obtain ⟨moves,calm⟩ := raised_moves voter (.appendEntries request)
  have raised := moves_sound (clear_sound sound) moves
  have member : source ∈ (node.clearActions.raised source (.appendEntries request)).config.voters := by
    rw [raised_opened.config]
    exact voter
  have followed : Moves none none (node.clearActions.raised source (.appendEntries request))
      ((node.clearActions.raised source (.appendEntries request)).followLeader source) := followLeader_moves calm member
  unfold RaftNode.ready RaftNode.heeding
  split
  · exact raised
  · exact moves_sound raised followed

theorem ready_rules (sound : Sound node) (terms : ∀ entry ∈ request.entries, 0 < entry.term) :
    ∃ overlap, (node.ready source request).verdict source request = .ok overlap ∧
      Ruled (node.ready source request) source request overlap := by
  have term : (node.ready source request).currentTerm = max node.currentTerm request.term := ready_term
  refine verdict_ruled (ready_sound voter sound request) (by rw [term]; exact Nat.le_max_right _ _) terms fun current => ?_
  have followed : node.ready source request = (node.clearActions.raised source (.appendEntries request)).followLeader source := by
    refine if_neg ?_
    rw [show (node.clearActions.raised source (.appendEntries request)).currentTerm = (node.ready source request).currentTerm from
      heeding_term.symm]
    exact current
  rw [followed]
  exact followLeader_follows.role

theorem step_appendEntries (sound : Sound node) (other : source ≠ node.config.selfId)
    (terms : ∀ entry ∈ request.entries, 0 < entry.term)
    (judged : (node.ready source request).verdict source request = .ok overlap)
    (concluded : (node.ready source request).conclude source request overlap = .ok after) :
    node.step source (.appendEntries request) = .ok (after.clearActions,after.actions) ∧ Sound after := by
  refine step_raised voter sound other terms ?_
  show RaftNode.handleAppendEntries _ _ _ = _
  rw [handleAppendEntries_verdict]
  exact bind_ok.mpr ⟨overlap,judged,concluded⟩

end step

theorem opens_plain {lead : Actions} (opens : ∀ action ∈ lead, action.opens = true) : messages lead = [] ∧ lead.filter Action.logs = [] ∧
    ∀ action ∈ lead, action.logs = false ∧ action.commits = false := by
  have plain : ∀ action ∈ lead, action.addressed = none ∧ action.logs = false ∧ action.commits = false := by
    intro action member
    have opens := opens action member
    cases action <;> first | exact ⟨rfl,rfl,rfl⟩ | cases opens
  refine ⟨List.filterMap_eq_nil_iff.mpr fun action member => (plain action member).1,?_,fun action member => (plain action member).2⟩
  exact List.filter_eq_nil_iff.mpr fun action member => by simp [(plain action member).2.1]

theorem commits_plain {learned : Actions} (commits : ∀ action ∈ learned, action.commits = true) :
    messages learned = [] ∧ learned.filter Action.logs = [] := by
  have plain : ∀ action ∈ learned, action.addressed = none ∧ action.logs = false := by
    intro action member
    have commits := commits action member
    cases action <;> first | exact ⟨rfl,rfl⟩ | cases commits
  refine ⟨List.filterMap_eq_nil_iff.mpr fun action member => (plain action member).1,?_⟩
  exact List.filter_eq_nil_iff.mpr fun action member => by simp [(plain action member).2]

-- A refused request changes nothing that the answer could depend on.
structure Refused (node after : RaftNode) (actions : Actions) : Prop where
  log : after.log = node.log
  commit : after.commitIndex = node.commitIndex
  applied : after.lastApplied = node.lastApplied
  snapshot : after.durableSnapshot = node.durableSnapshot
  quiet : ∀ action ∈ actions, action.logs = false ∧ action.commits = false

-- An accepted one makes the log agree with it and changes nothing else: entries
-- are replaced from the first one on that the log does not have, if there is one.
structure Appended (node : RaftNode) (request : AppendEntries) (after : RaftNode) (actions : Actions) : Prop where
  previous : (after.slot request.previousLogIndex).map LogEntry.term = some request.previousLogTerm
  agrees : ∀ position entry, request.entries[position]? = some entry →
    after.slot (request.previousLogIndex+1+position) = some entry
  whole : node.unheld request.entries = [] → after.log = node.log ∧ actions.filter Action.logs = []
  replaced : ∀ first rest, node.unheld request.entries = first::rest →
    after.log = node.log.take (first.index-node.baseIndex) ++ first::rest ∧
      actions.filter Action.logs = [.persistLog first.index (first::rest)]
  persisted : after.persistent.log = (node.persistent.persistAll (actions.filter Action.logs)).log
  commit : after.commitIndex =
    max node.commitIndex (min request.leaderCommit (request.previousLogIndex+request.entries.length))

theorem refused_spec (opened : Opened node.clearActions other) (hint : Nat) :
    Refused node (other.sendAppendResponse source request false 0 hint).clearActions
      (other.sendAppendResponse source request false 0 hint).actions ∧
    messages (other.sendAppendResponse source request false 0 hint).actions =
      [(source,.appendEntriesResponse ⟨other.currentTerm,false,0,hint,request.rpcId⟩)] := by
  obtain ⟨lead,begun,opens⟩ := opened.actions
  have shape : (other.sendAppendResponse source request false 0 hint).actions = lead ++
      [.sendMessage source (.appendEntriesResponse ⟨other.currentTerm,false,0,hint,request.rpcId⟩)] := by
    show other.actions ++ _ = _
    rw [begun]
    rfl
  obtain ⟨silent,-,plain⟩ := opens_plain opens
  refine ⟨⟨opened.log,opened.commit,opened.applied,opened.image,?_⟩,?_⟩
  · intro action member
    rw [shape] at member
    rcases List.mem_append.mp member with early | answer
    · exact plain action early
    · cases List.mem_singleton.mp answer
      exact ⟨rfl,rfl⟩
  · unfold messages at silent ⊢
    rw [shape,List.filterMap_append,silent]
    rfl

theorem unheld_opened (opened : Opened node other) : other.unheld entries = node.unheld entries := by
  unfold RaftNode.unheld
  simp only [opened.slot]

def logged : List LogEntry → Actions
  | [] => []
  | first::rest => [.persistLog first.index (first::rest)]

theorem logged_plain (entries : List LogEntry) : messages (logged entries) = [] ∧ (logged entries).filter Action.logs = logged entries := by
  cases entries <;> exact ⟨rfl,rfl⟩

theorem spliced_kept (entries : List LogEntry) : (node.spliced entries).actions = node.actions ++ logged entries ∧
    (node.spliced entries).commitIndex = node.commitIndex := by
  cases entries with
  | nil => exact ⟨(List.append_nil _).symm,rfl⟩
  | cons => exact ⟨rfl,rfl⟩

theorem spliced_log (same : other.log = node.log) (entries : List LogEntry) : (other.spliced entries).log = (node.spliced entries).log := by
  cases entries with
  | nil => exact same
  | cons first =>
    show other.log.take (first.index-other.baseIndex) ++ _ = node.log.take (first.index-node.baseIndex) ++ _
    rw [same,base_same same]

theorem spliced_persisted (sound : Sound node) (real : ∀ first rest, entries = first::rest → node.baseIndex < first.index) :
    (node.spliced entries).log.tail = (node.persistent.persistAll (logged entries)).log := by
  cases entries with
  | nil => rfl
  | cons first rest => exact congrArg RaftPersistentState.log (replace_emits sound (real first rest rfl)).durable

section accepted
variable (commit : Nat) (opened : Opened node.clearActions other) (written : Written other source request after)
include opened written

theorem accepted_actions : ∃ lead learned, (after.learn commit).actions = lead ++ (logged (node.unheld request.entries) ++ learned) ∧
    (∀ action ∈ lead, action.opens = true) ∧ ∀ action ∈ learned, action.commits = true := by
  obtain ⟨lead,begun,opens⟩ := opened.actions
  have kept : _ ∧ _ ∧ _ ∧ ∃ learned, (after.learn commit).actions = after.actions ++ learned ∧ _ := learn_kept
  obtain ⟨-,-,-,learned,grown,commits⟩ := kept
  refine ⟨lead,learned,?_,opens,commits⟩
  rw [grown,written.result,(spliced_kept _).1,begun,unheld_opened opened,List.append_assoc]
  rfl

theorem accepted_log : (after.learn commit).log = (node.spliced (node.unheld request.entries)).log := by
  have log : other.log = node.log := opened.log
  rw [learn_kept.1,written.result,unheld_opened opened]
  exact spliced_log log _

theorem accepted_commit : (after.learn commit).commitIndex = max node.commitIndex commit := by
  rw [learn_commit,written.result,(spliced_kept _).2,opened.commit]
  rfl

end accepted

theorem Written.slots (written : Written other source request after) :
    (after.slot request.previousLogIndex).map LogEntry.term = some request.previousLogTerm ∧
    ∀ position entry, request.entries[position]? = some entry → after.slot (request.previousLogIndex+1+position) = some entry := by
  refine ⟨slot_of_hasAt written.accepts.previous,fun position entry found => ?_⟩
  obtain ⟨numbered,-,-⟩ := malformedAt_none written.accepts.wellFormed
  rw [← numbered position entry found]
  exact slot_of_holds (written.held entry (List.mem_of_getElem? found))

theorem answer_spec {told : RaftNode} (sound : Sound node) (opened : Opened node.clearActions other) (written : Written other source request after)
    (log : told.log = (node.spliced (node.unheld request.entries)).log) (slots : told.log = after.log)
    (shape : told.actions = lead ++ (logged (node.unheld request.entries) ++ learned))
    (opens : ∀ action ∈ lead, action.opens = true) (commits : ∀ action ∈ learned, action.commits = true)
    (commit : told.commitIndex =
      max node.commitIndex (min request.leaderCommit (request.previousLogIndex+request.entries.length))) :
    Appended node request (told.sendAppendResponse source request true matched 0).clearActions
      (told.sendAppendResponse source request true matched 0).actions ∧
    messages (told.sendAppendResponse source request true matched 0).actions =
      [(source,.appendEntriesResponse ⟨told.currentTerm,true,matched,0,request.rpcId⟩)] := by
  have actions : (told.sendAppendResponse source request true matched 0).actions =
      lead ++ (logged (node.unheld request.entries) ++ learned) ++
        [.sendMessage source (.appendEntriesResponse ⟨told.currentTerm,true,matched,0,request.rpcId⟩)] := by
    rw [← shape]
    rfl
  obtain ⟨silentLead,unloggedLead,-⟩ := opens_plain opens
  obtain ⟨silentLearned,unloggedLearned⟩ := commits_plain commits
  obtain ⟨silent,recorded⟩ := logged_plain (node.unheld request.entries)
  have records : (told.sendAppendResponse source request true matched 0).actions.filter Action.logs =
      logged (node.unheld request.entries) := by
    rw [actions]
    simp [List.filter_append,unloggedLead,unloggedLearned,recorded,Action.logs]
  have same : ∀ index, (told.sendAppendResponse source request true matched 0).clearActions.slot index = after.slot index :=
    fun index => slot_log slots
  refine ⟨{previous := ?_,agrees := ?_,whole := ?_,replaced := ?_,persisted := ?_,commit := commit},?_⟩
  · rw [same]
    exact written.slots.1
  · intro position entry found
    rw [same]
    exact written.slots.2 position entry found
  · intro nothing
    rw [records,nothing]
    rw [nothing] at log
    exact ⟨log,rfl⟩
  · intro first rest some
    rw [records,some]
    rw [some] at log
    exact ⟨log,rfl⟩
  · rw [records]
    refine (congrArg List.tail log).trans (spliced_persisted sound fun first rest some => ?_)
    have real := written.real first rest
    rw [unheld_opened opened,opened.base] at real
    exact real some
  · unfold messages at silent silentLead silentLearned ⊢
    rw [actions]
    simp [silent,silentLead,silentLearned,Action.addressed]

section
variable (written : Written node source request after)
include written

theorem Written.term : after.currentTerm = node.currentTerm := by
  rw [written.result]
  cases RaftNode.unheld _ request.entries <;> rfl

theorem Written.config : after.config = node.config := by
  rw [written.result]
  cases RaftNode.unheld _ request.entries <;> rfl

theorem Written.commit : after.commitIndex = node.commitIndex := by
  rw [written.result]
  exact (spliced_kept _).2

end

-- One call with the request, and the one message that it sends.
structure Answered (node : RaftNode) (source : NodeId) (request : AppendEntries) (after : RaftNode) (actions : Actions)
    (success : Bool) (matchIndex hint : Nat) : Prop where
  stepped : node.step source (.appendEntries request) = .ok (after,actions)
  sound : Sound after
  config : after.config = node.config
  term : after.currentTerm = max node.currentTerm request.term
  sent : messages actions = [(source,.appendEntriesResponse ⟨after.currentTerm,success,matchIndex,hint,request.rpcId⟩)]

section answers
variable (sound : Sound node) (voter : source ∈ node.config.voters) (apart : source ≠ node.config.selfId)
  (terms : ∀ entry ∈ request.entries, 0 < entry.term)
include sound voter apart terms

theorem step_refused (judged : (node.ready source request).verdict source request = .ok (.reject hint)) :
    ∃ after actions, Answered node source request after actions false 0 hint ∧ Refused node after actions := by
  obtain ⟨stepped,sound'⟩ := step_appendEntries voter sound apart terms judged rfl
  have opened : Opened node.clearActions (node.ready source request) := ready_opened
  obtain ⟨spec,sent⟩ := refused_spec opened hint
  exact ⟨_,_,⟨stepped,clear_sound sound',opened.config,ready_term,sent⟩,spec⟩

theorem step_accepted (judged : (node.ready source request).verdict source request = .ok overlap)
    (written : Written (node.ready source request) source request after)
    (concluded : (node.ready source request).conclude source request overlap =
      .ok ((after.learn (min request.leaderCommit (request.previousLogIndex+request.entries.length))).sendAppendResponse
        source request true (request.previousLogIndex+request.entries.length) 0)) :
    ∃ final actions, Answered node source request final actions true (request.previousLogIndex+request.entries.length) 0 ∧
      Appended node request final actions ∧ final.log = after.log := by
  obtain ⟨stepped,sound'⟩ := step_appendEntries voter sound apart terms judged concluded
  have opened : Opened node.clearActions (node.ready source request) := ready_opened
  have level : (node.ready source request).currentTerm = max node.currentTerm request.term := ready_term
  have log := accepted_log (min request.leaderCommit (request.previousLogIndex+request.entries.length)) opened written
  have commit := accepted_commit (min request.leaderCommit (request.previousLogIndex+request.entries.length)) opened written
  obtain ⟨lead,learned,shape,opens,commits⟩ :=
    accepted_actions (min request.leaderCommit (request.previousLogIndex+request.entries.length)) opened written
  obtain ⟨slots,config,term,-⟩ : (after.learn (min request.leaderCommit (request.previousLogIndex+request.entries.length))).log =
    after.log ∧ _ := learn_kept
  obtain ⟨spec,sent⟩ := answer_spec sound opened written log slots shape opens commits commit
  exact ⟨_,_,⟨stepped,clear_sound sound',(config.trans written.config).trans opened.config,(term.trans written.term).trans level,sent⟩,spec,slots⟩

theorem step_answers : (∃ hint after actions, Answered node source request after actions false 0 hint ∧ Refused node after actions ∧
      (node.ready source request).verdict source request = .ok (.reject hint)) ∨
    ∃ final actions, Answered node source request final actions true (request.previousLogIndex+request.entries.length) 0 ∧
      Appended node request final actions ∧ ∃ written, Written (node.ready source request) source request written ∧
        final.log = written.log := by
  obtain ⟨overlap,judged,ruled⟩ := ready_rules voter sound terms
  rcases conclude_accepted (ready_sound voter sound request) ruled with ⟨hint,-,rfl⟩ | ⟨written,state,-,concluded⟩
  · obtain ⟨after,actions,answers,refused⟩ := step_refused sound voter apart terms judged
    exact .inl ⟨hint,after,actions,answers,refused,judged⟩
  · obtain ⟨final,actions,answers,appended,log⟩ := step_accepted sound voter apart terms judged state concluded
    exact .inr ⟨final,actions,answers,appended,written,state,log⟩

end answers

theorem Accepts.same (accepts : Accepts node source request) (log : other.log = node.log) (role : other.role = .follower)
    (term : other.currentTerm = node.currentTerm) : Accepts other source request := by
  refine {accepts with term := accepts.term.trans term.symm,follower := role,previous := ?_}
  unfold HasAt
  rw [base_same log,log]
  exact accepts.previous

theorem Holds.same (holds : Holds node entry) (log : other.log = node.log) : Holds other entry := by
  unfold Holds
  rw [base_same log,log]
  exact holds

theorem accepted_again (sound : Sound node) (voter : source ∈ node.config.voters) (apart : source ≠ node.config.selfId)
    (terms : ∀ entry ∈ request.entries, 0 < entry.term) (accepts : Accepts other source request)
    (held : ∀ entry ∈ request.entries, Holds other entry) (log : node.log = other.log) (term : node.currentTerm = other.currentTerm) :
    ∃ again more, Answered node source request again more true (request.previousLogIndex+request.entries.length) 0 ∧
      Appended node request again more ∧ node.unheld request.entries = [] := by
  have opened : Opened node.clearActions (node.ready source request) := ready_opened
  have ready : (node.ready source request).currentTerm = max node.currentTerm request.term := ready_term
  have level : (node.ready source request).currentTerm = other.currentTerm := by
    rw [ready,term,accepts.term,Nat.max_self]
  have role : (node.ready source request).role = .follower := by
    have followed : node.ready source request = (node.clearActions.raised source (.appendEntries request)).followLeader source := by
      refine if_neg ?_
      rw [raised_term]
      have positive := accepts.positive
      have same := accepts.term
      simp only [accepts.leader,ne_eq,not_true_eq_false,or_false,not_or]
      refine ⟨positive,?_⟩
      show ¬ request.term < max node.currentTerm request.term
      omega
    rw [followed]
    exact followLeader_follows.role
  have same : (node.ready source request).log = other.log := opened.log.trans log
  have accepts' := accepts.same same role level
  have held' : ∀ entry ∈ request.entries, Holds (node.ready source request) entry := fun entry member => (held entry member).same same
  have sound' := ready_sound voter sound request
  rcases conclude_accepted sound' (.matched accepts' held') with ⟨hint,-,wrong⟩ | ⟨written,state,-,concluded⟩
  · cases wrong
  · obtain ⟨again,more,answers,appended,-⟩ := step_accepted sound voter apart terms (verdict_matched sound' accepts' held') state concluded
    exact ⟨again,more,answers,appended,unheld_held fun entry member => (held entry member).same log⟩

theorem refused_again (voter : source ∈ node.config.voters) (apart : source ≠ node.config.selfId)
    (terms : ∀ entry ∈ request.entries, 0 < entry.term) (answers : Answered node source request after actions false 0 hint)
    (refused : Refused node after actions) (judged : (node.ready source request).verdict source request = .ok (.reject hint)) :
    ∃ again more, Answered after source request again more false 0 hint ∧ Refused after again more := by
  have first : Opened node.clearActions (node.ready source request) := ready_opened
  have second : Opened after.clearActions (after.ready source request) := ready_opened
  have level : (node.ready source request).currentTerm = max node.currentTerm request.term := ready_term
  have level' : (after.ready source request).currentTerm = max after.currentTerm request.term := ready_term
  have term : (after.ready source request).currentTerm = (node.ready source request).currentTerm := by
    rw [level',level,answers.term]
    omega
  refine step_refused answers.sound ?_ ?_ terms (verdict_same (second.log.trans (refused.log.trans first.log.symm))
    (second.commit.trans (refused.commit.trans first.commit.symm)) term _ judged)
  · rw [answers.config]
    exact voter
  · rw [answers.config]
    exact apart

-- Handling of AppendEntries, for every request that a configured peer can make
-- of every node: a refusal changes nothing, an acceptance is the Raft rule, and
-- the same request once more changes nothing and gets the same answer.
theorem append_entries_exact (config : RaftConfig) (persistent : RaftPersistentState) (time : Nat)
    (valid : validateConfig config = .ok ()) (fine : validatePersistentState config persistent = .ok ()) :
    ∃ start, RaftNode.create config persistent time = .ok start ∧ ∀ emitted node, Runs start emitted node →
      ∀ source request, source ∈ config.voters → source ≠ config.selfId → Arrives (.appendEntries request) →
        ∃ after actions response, node.step source (.appendEntries request) = .ok (after,actions) ∧
          messages actions = [(source,.appendEntriesResponse response)] ∧
          (response.success = false → Refused node after actions) ∧
          (response.success = true → Appended node request after actions ∧
            response.matchIndex = request.previousLogIndex+request.entries.length) ∧
          ∃ again more, after.step source (.appendEntries request) = .ok (again,more) ∧
            again.log = after.log ∧ again.commitIndex = after.commitIndex ∧ messages more = messages actions := by
  have created : Created config persistent (fresh config persistent time) :=
    fresh_created valid (validatePersistentState_ok fine)
  refine ⟨_,create_fresh valid fine,fun emitted node runs source request voter apart arrives => ?_⟩
  have sound := runs_sound created.sound runs
  have same : node.config = config := (runs_config created.sound runs).trans rfl
  have arrived : (Input.step source (.appendEntries request)).Arrives := arrives
  have terms : ∀ entry ∈ request.entries, 0 < entry.term := arrived.positive
  rw [← same] at voter apart
  rcases step_answers sound voter apart terms with ⟨hint,after,actions,answers,refused,judged⟩ |
    ⟨final,actions,answers,appended,written,state,log⟩
  · refine ⟨after,actions,_,answers.stepped,answers.sent,fun _ => refused,nofun,?_⟩
    obtain ⟨again,more,answers',refused'⟩ := refused_again voter apart terms answers refused judged
    refine ⟨again,more,answers'.stepped,refused'.log,refused'.commit,?_⟩
    rw [answers.sent,answers'.sent,answers'.term,answers.term,Nat.max_assoc,Nat.max_self]
  · refine ⟨final,actions,_,answers.stepped,answers.sent,nofun,fun _ => ⟨appended,rfl⟩,?_⟩
    have level : (node.ready source request).currentTerm = max node.currentTerm request.term := ready_term
    have term : final.currentTerm = written.currentTerm := answers.term.trans (level.symm.trans state.term.symm)
    rw [← answers.config] at voter apart
    obtain ⟨again,more,answers',appended',nothing⟩ :=
      accepted_again answers.sound voter apart terms state.accepts state.held log term
    refine ⟨again,more,answers'.stepped,(appended'.whole nothing).1,?_,?_⟩
    · rw [appended'.commit,appended.commit,Nat.max_assoc,Nat.max_self]
    · rw [answers.sent,answers'.sent,answers'.term,answers.term,Nat.max_assoc,Nat.max_self]

def firstAppend : AppendEntries := ⟨1,2,0,0,[⟨1,1,.noOp,[]⟩],0,1⟩

theorem firstAppend_decodes : ∃ frame, Cluster.decodePeerFrame frame = .ok ⟨7,2,1,.appendEntries firstAppend⟩ := by
  obtain ⟨frame,encoded⟩ : ∃ frame, Cluster.encodePeerFrame ⟨7,2,1,.appendEntries firstAppend⟩ 1 = .ok frame := ⟨_,rfl⟩
  exact ⟨frame,Cluster.decodePeerFrame_encoded
    ⟨by decide,by decide,by decide,by simp [Cluster.Words,Cluster.messageWords,firstAppend]⟩ encoded⟩

theorem firstAppend_arrives : Arrives (.appendEntries firstAppend) := by
  obtain ⟨frame,decoded⟩ := firstAppend_decodes
  exact ⟨⟨frame,_,decoded,rfl⟩,by simp [Message.indexes,firstAppend]⟩

theorem append_entries_exact_first : ∃ start, RaftNode.create (trioConfig 1) .empty 0 = .ok start ∧
    ∃ after actions response, start.step 2 (.appendEntries firstAppend) = .ok (after,actions) ∧
      messages actions = [(2,.appendEntriesResponse response)] ∧
      (response.success = false → Refused start after actions) ∧
      (response.success = true → Appended start firstAppend after actions ∧ response.matchIndex = 1) ∧
      ∃ again more, after.step 2 (.appendEntries firstAppend) = .ok (again,more) ∧
        again.log = after.log ∧ again.commitIndex = after.commitIndex ∧ messages more = messages actions := by
  obtain ⟨start,created,exact⟩ := append_entries_exact (trioConfig 1) .empty 0 rfl rfl
  exact ⟨start,created,exact [] start .nil 2 firstAppend (by decide) (by decide) firstAppend_arrives⟩

end ForgeKv.Raft
