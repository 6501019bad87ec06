import ForgeKv.Raft.Resend
import ForgeKv.Raft.Reply
import ForgeKv.Raft.Safety

namespace ForgeKv.Raft
open Assoc
open RaftNode (malformedAt)

variable {leader follower leads follows : RaftNode} {progress : PeerProgress} {request : AppendEntries} {session : Session}

-- Where both logs retain a position they have the same entry there. A sentinel has only its term.
def AgreeAt (follower leader : RaftNode) (index : Nat) : Prop :=
  ∀ mine theirs, follower.slot index = some mine → leader.slot index = some theirs →
    mine.term = theirs.term ∧ (follower.baseIndex < index → leader.baseIndex < index → mine = theirs)

def LogsMatch (follower leader : RaftNode) : Prop :=
  ∀ index mine theirs, follower.slot index = some mine → leader.slot index = some theirs → mine.term = theirs.term →
    ∀ earlier, earlier ≤ index → AgreeAt follower leader earlier

-- A leader and a follower of one term whose logs match.
structure Paired (leader follower : RaftNode) : Prop extends Talk leader follower where
  matching : LogsMatch follower leader
  agreed : ∀ index, index ≤ follower.commitIndex → AgreeAt follower leader index
  behind : follower.commitIndex ≤ leader.commitIndex

def Session.CaughtUp (session : Session) : Prop :=
  ∃ progress, get? session.leader.peerProgress session.follower.config.selfId = some progress ∧
    progress.matchIndex = session.leader.lastLogIndex

def SameTermAt (follower leader : RaftNode) (index : Nat) : Prop :=
  (follower.slot index).map LogEntry.term = (leader.slot index).map LogEntry.term

instance : Decidable (SameTermAt follower leader index) := inferInstanceAs (Decidable (_ = _))

-- The leader's newest request, which asks for a part of its retained log, is under way.
structure Open (session : Session) (request : AppendEntries) (progress : PeerProgress) : Prop where
  paired : Paired session.leader session.follower
  sent : session.request = .appendEntries request
  newest : Newest session.leader session.follower.config.selfId request progress
  kept : session.leader.baseIndex ≤ progress.matchIndex

section
variable (newest : Newest leader peer request progress) (sound : Sound leader)
include newest sound

theorem Newest.above (kept : leader.baseIndex ≤ progress.matchIndex) :
    leader.baseIndex < progress.nextIndex ∧ progress.matchIndex ≤ request.previousLogIndex ∧
      request.previousLogIndex ≤ leader.lastLogIndex := by
  have ok := sound.progress_get newest.found
  have matched := ok.matched
  have next := ok.next
  have index := newest.next
  omega

theorem Newest.place (above : leader.baseIndex < progress.nextIndex) (found : request.entries[position]? = some entry) :
    entry.index = request.previousLogIndex+1+position ∧ leader.slot entry.index = some entry := by
  obtain ⟨size,batch⟩ := newest.entries
  have next := newest.next
  rw [batch,List.getElem?_take] at found
  split at found
  · rw [List.getElem?_drop] at found
    have index := sound.index_of found
    refine ⟨by omega,?_⟩
    rw [slot_of_le (by omega),← found]
    congr 1
    omega
  · cases found

theorem Newest.proper (role : leader.role = .leader)
    (above : leader.baseIndex < progress.nextIndex) (term : node.currentTerm = leader.currentTerm) :
    Proper node leader.config.selfId request := by
  have positive := (sound.leads role).1
  have next := newest.next
  have numbered : Numbered (request.previousLogIndex+1) request.entries := by
    intro position entry found
    exact (newest.place sound above found).1
  obtain ⟨size,batch⟩ := newest.entries
  have sorted : (leader.log.drop (progress.nextIndex-leader.baseIndex)).Pairwise (fun earlier later => earlier.term ≤ later.term) :=
    sound.log.sorted.sublist (List.drop_sublist _ _)
  have inside : ∀ entry ∈ request.entries, ∃ position, 0 < position ∧ request.previousLogIndex-leader.baseIndex < position ∧
      leader.log[position]? = some entry := by
    intro entry member
    obtain ⟨position,bound,found⟩ := List.mem_iff_getElem.mp member
    obtain ⟨index,slot⟩ := newest.place sound above (List.getElem?_eq_some_iff.mpr ⟨bound,found⟩)
    rw [slot_of_le (by omega)] at slot
    exact ⟨_,by omega,by omega,slot⟩
  refine ⟨?_,newest.term.trans term.symm,newest.leader,?_,?_⟩
  · rw [newest.term]
    omega
  · refine malformedAt_ok numbered (by rw [batch]; exact sorted.sublist (List.take_sublist _ _)) ?_ (Nat.succ_pos _)
    intro entry member
    obtain ⟨position,-,later,found⟩ := inside entry member
    obtain ⟨previous,here,same⟩ := Option.map_eq_some_iff.mp newest.previous
    rw [slot_of_le (by omega)] at here
    obtain ⟨low,first⟩ := List.getElem?_eq_some_iff.mp here
    obtain ⟨high,second⟩ := List.getElem?_eq_some_iff.mp found
    have ordered := List.pairwise_iff_getElem.mp sound.log.sorted _ _ low high later
    rw [first,second,same] at ordered
    rw [newest.term]
    exact ⟨ordered,sound.log.bounded entry (List.mem_of_getElem? found)⟩
  · intro entry member
    obtain ⟨position,real,-,found⟩ := inside entry member
    exact sound.log.positive entry (sound.log.get_real found real)

end

theorem AgreeAt.log (agree : AgreeAt follower leader index) (mine : follows.log = follower.log) (theirs : leads.log = leader.log) :
    AgreeAt follows leads index := by
  unfold AgreeAt RaftNode.slot RaftNode.baseIndex RaftNode.frontEntry
  rw [mine,theirs]
  exact agree

theorem LogsMatch.log (matching : LogsMatch follower leader) (mine : follows.log = follower.log) (theirs : leads.log = leader.log) :
    LogsMatch follows leads := by
  intro index here there found other same earlier low
  rw [slot_log mine] at found
  rw [slot_log theirs] at other
  exact (matching index here there found other same earlier low).log mine theirs

theorem Talk.kept (talk : Talk leader follower) (sound : Sound leads) (sound' : Sound follows) (frame : Frame leader leads)
    (stays : Stays follower follows) : Talk leads follows where
  leads := sound
  follows := sound'
  leading := frame.role.trans talk.leading
  following := stays.role.trans talk.following
  term := by rw [stays.term,frame.term]; exact talk.term
  peer := by rw [stays.config,frame.config]; exact talk.peer
  source := by rw [stays.config,frame.config]; exact talk.source
  distinct := by rw [stays.config,frame.config]; exact talk.distinct

theorem Paired.refused (paired : Paired leader follower) (sound : Sound leads) (sound' : Sound follows) (frame : Frame leader leads)
    (stays : Stays follower follows) (log : follows.log = follower.log) (commit : follows.commitIndex = follower.commitIndex) :
    Paired leads follows where
  toTalk := paired.toTalk.kept sound sound' frame stays
  matching := paired.matching.log log frame.log
  agreed := fun index low => (paired.agreed index (commit ▸ low)).log log frame.log
  behind := by rw [commit]; exact Nat.le_trans paired.behind frame.commit

theorem AgreeAt.thin (agree : AgreeAt follower leader index) (base : follows.baseIndex = follower.baseIndex)
    (same : follows.slot index = follower.slot index ∨ follows.slot index = none) : AgreeAt follows leader index := by
  intro mine theirs found other
  cases same with
  | inl same =>
    rw [base]
    exact agree mine theirs (same.symm.trans found) other
  | inr gone =>
    rw [gone] at found
    cases found

section
variable (paired : Paired leader follower) (newest : Newest leader peer request progress) (above : leader.baseIndex < progress.nextIndex)
include paired newest above

theorem taken_agree (takes : Takes follower request follows)
    (low : index ≤ request.previousLogIndex+request.entries.length) : AgreeAt follows leader index := by
  by_cases old : index ≤ request.previousLogIndex
  · obtain ⟨mine,found,term⟩ := Option.map_eq_some_iff.mp takes.previous
    obtain ⟨theirs,other,term'⟩ := Option.map_eq_some_iff.mp newest.previous
    have agree := paired.matching _ mine theirs found other (term.trans term'.symm) index old
    exact agree.thin takes.base (.inl (takes.before index old))
  · have bound : index-request.previousLogIndex-1 < request.entries.length := by omega
    obtain ⟨place,slot⟩ := newest.place paired.leads above (List.getElem?_eq_getElem bound)
    have taken := takes.taken _ (List.getElem_mem bound)
    have here : request.entries[index-request.previousLogIndex-1].index = index := by omega
    intro mine theirs found other
    rw [here] at slot taken
    rw [taken] at found
    rw [slot] at other
    cases found
    cases other
    exact ⟨rfl,fun _ _ => rfl⟩

theorem Paired.accepted (sound : Sound leads) (sound' : Sound follows) (frame : Frame leader leads)
    (stays : Stays follower follows) (takes : Takes follower request follows) : Paired leads follows := by
  have offered := newest.commit
  have commit := takes.commit
  have behind := paired.behind
  have matching : LogsMatch follows leader := by
    intro index mine theirs found other same earlier low
    by_cases covered : earlier ≤ request.previousLogIndex+request.entries.length
    · exact taken_agree paired newest above takes covered
    · -- Beyond the request the log is the old one, where it matched already.
      have old : follows.slot index = follower.slot index :=
        (takes.rest index (by omega)).resolve_right (by rw [found]; simp)
      exact (paired.matching index mine theirs (old.symm.trans found) other same earlier low).thin takes.base
        (takes.rest earlier (by omega))
  have agreed : ∀ index, index ≤ follows.commitIndex → AgreeAt follows leader index := by
    intro index low
    by_cases covered : index ≤ request.previousLogIndex+request.entries.length
    · exact taken_agree paired newest above takes covered
    · exact (paired.agreed index (by omega)).thin takes.base (takes.rest index (by omega))
  exact {
    toTalk := paired.toTalk.kept sound sound' frame stays
    matching := matching.log rfl frame.log
    agreed := fun index low => (agreed index low).log rfl frame.log
    behind := by have := frame.commit; omega}

theorem Paired.no_contradiction (retained : follower.baseIndex ≤ request.previousLogIndex)
    (member : entry ∈ request.entries) : ¬ Contradicts follower entry := by
  rintro ⟨existing,found,wrong⟩
  obtain ⟨position,bound,here⟩ := List.mem_iff_getElem.mp member
  obtain ⟨place,slot⟩ := newest.place paired.leads above (List.getElem?_eq_some_iff.mpr ⟨bound,here⟩)
  have next := newest.next
  have mine : follower.slot entry.index = some existing := (slot_of_le (by omega)).trans found
  cases wrong with
  | inl committed => exact committed.1 (paired.agreed _ committed.2 _ _ mine slot).1
  | inr twin =>
    have agree := paired.matching _ _ _ mine slot twin.1 _ (Nat.le_refl _) _ _ mine slot
    exact twin.2 (agree.2 (by omega) (by omega))

end

theorem round_eq (stepped : session.follower.step session.leader.config.selfId session.request = .ok (follows,answers))
    (answered : lastMessageTo session.leader.config.selfId answers = some response) (stays : follows.config = session.follower.config)
    (returned : session.leader.step session.follower.config.selfId response = .ok (leads,sent)) :
    session.round = some ⟨leads,follows,(lastMessageTo session.follower.config.selfId sent).getD session.request⟩ := by
  unfold Session.round
  simp only [stepped,answered,stays,returned]

-- One round: the follower refuses and the leader backs up, or the follower accepts.
inductive Exchange (session : Session) (request : AppendEntries) (progress : PeerProgress) (next : Session) : Prop where
  | refused (refusal : Refusal session.follower request hint) (mine : next.follower.log = session.follower.log)
      (theirs : next.leader.log = session.leader.log) (reopened : Open next request' progress')
      (matched : progress'.matchIndex = progress.matchIndex) (backed : progress'.nextIndex = progress.backTo hint)
  | finished (takes : Takes session.follower request next.follower) (done : next.CaughtUp)
  | accepted (takes : Takes session.follower request next.follower) (theirs : next.leader.log = session.leader.log)
      (reopened : Open next request' progress')
      (matched : progress'.matchIndex = request.previousLogIndex+request.entries.length)
      (moved : progress'.nextIndex = progress'.matchIndex+1)
      (short : request.previousLogIndex+request.entries.length < session.leader.lastLogIndex)

theorem base_log (same : leads.log = leader.log) : leads.baseIndex = leader.baseIndex := by
  unfold RaftNode.baseIndex RaftNode.frontEntry
  rw [same]

theorem last_log (same : leads.log = leader.log) : leads.lastLogIndex = leader.lastLogIndex := by
  unfold RaftNode.lastLogIndex RaftNode.lastEntry
  rw [same]

theorem Answers.reopens (answers : Answers leader peer response matchIndex nextIndex leads sent) (paired : Paired leads follows)
    (named : follows.config.selfId = peer) (kept : leader.baseIndex ≤ matchIndex) (old : Message) :
    ∃ request progress, Open ⟨leads,follows,(lastMessageTo peer sent).getD old⟩ request progress ∧
      progress.matchIndex = matchIndex ∧ progress.nextIndex = nextIndex := by
  obtain ⟨request,progress,message,newest,matched,next⟩ := answers.resent
  refine ⟨request,progress,⟨paired,?_,named ▸ newest,?_⟩,matched,next⟩
  · simp [message]
  · rw [matched]
    exact (base_log answers.frame.log).symm ▸ kept

theorem round_exchange (ready : Open session request progress) : ∃ next, session.round = some next ∧ Exchange session request progress next := by
  obtain ⟨paired,sent,newest,kept⟩ := ready
  obtain ⟨above,low,-⟩ := newest.above paired.leads kept
  obtain ⟨follows,answers,response,stepped,answered,sound',stays,reply⟩ := follower_replies paired.follows paired.following
    paired.source paired.distinct (newest.proper paired.leads paired.leading above paired.term)
  rw [← sent] at stepped
  have named := congrArg RaftConfig.selfId stays.config
  cases reply with
  | @refused hint refusal log commit =>
    rw [paired.term] at answered
    obtain ⟨leads,sent',returned⟩ :=
      leader_backs_up paired.leads paired.leading paired.peer paired.distinct.symm newest kept hint
    have paired' := paired.refused returned.sound sound' returned.frame stays log commit
    obtain ⟨request',progress',reopened,matched,next⟩ := returned.reopens paired' named kept session.request
    exact ⟨_,round_eq stepped answered stays.config returned.stepped,
      .refused refusal log returned.frame.log reopened matched next⟩
  | accepted takes =>
    rw [paired.term] at answered
    obtain ⟨leads,sent',stepped',sound,frame,⟨current,found,counted⟩,more⟩ :=
      leader_acknowledges paired.leads paired.leading paired.peer paired.distinct.symm newest kept rfl
    have paired' := paired.accepted newest above sound sound' frame stays takes
    have reached := (sound.progress_get found).matched
    have bound := (sound.progress_get found).next
    refine ⟨_,round_eq stepped answered stays.config stepped',?_⟩
    by_cases short : request.previousLogIndex+request.entries.length < session.leader.lastLogIndex
    · obtain ⟨request',progress',reopened,matched,next⟩ := (more short).reopens paired' named (by omega) session.request
      exact .accepted takes frame.log reopened matched (next.trans (congrArg (·+1) matched.symm)) short
    · refine .finished takes ⟨current,by rw [← found,← named],?_⟩
      have last : leads.lastLogIndex = session.leader.lastLogIndex := last_log frame.log
      show current.matchIndex = leads.lastLogIndex
      omega

-- The follower still has the position before the request, and shares the one the leader counts as matched.
def Session.Answerable (session : Session) (request : AppendEntries) (progress : PeerProgress) : Prop :=
  session.follower.baseIndex ≤ request.previousLogIndex ∧
    (session.follower.baseIndex ≤ progress.matchIndex → SameTermAt session.follower session.leader progress.matchIndex)

def Session.Answering (session : Session) : Prop :=
  ∃ request progress, Open session request progress ∧ session.Answerable request progress

def Session.Stuck (session : Session) : Prop :=
  ∃ request progress, Open session request progress ∧ progress.matchIndex ≠ session.leader.lastLogIndex ∧
    ¬ session.Answerable request progress

theorem SameTermAt.log (same : SameTermAt follower leader index) (mine : follows.log = follower.log) (theirs : leads.log = leader.log) :
    SameTermAt follows leads index := by
  unfold SameTermAt
  rw [slot_log mine,slot_log theirs]
  exact same

theorem sameTermAt_some (same : SameTermAt follower leader index) (found : leader.slot index = some theirs) :
    ∃ mine, follower.slot index = some mine ∧ mine.term = theirs.term := by
  unfold SameTermAt at same
  rw [found,Option.map_some] at same
  exact Option.map_eq_some_iff.mp same

theorem refused_progress (ready : Open session request progress) (fits : session.Answerable request progress)
    (refusal : Refusal session.follower request hint) :
    progress.backTo hint < progress.nextIndex ∧ session.follower.baseIndex < progress.backTo hint := by
  obtain ⟨paired,-,newest,kept⟩ := ready
  obtain ⟨above,low,high⟩ := newest.above paired.leads kept
  obtain ⟨retained,matched⟩ := fits
  have next := newest.next
  have base := paired.follows.base_le_last
  obtain ⟨theirs,other⟩ := slot_some paired.leads kept (Nat.le_trans low high)
  have shared : session.follower.baseIndex ≤ progress.matchIndex → progress.matchIndex ≤ session.follower.lastLogIndex := by
    intro inside
    obtain ⟨mine,found,-⟩ := sameTermAt_some (matched inside) other
    exact (slot_place paired.follows found).2.1
  unfold PeerProgress.backTo
  cases refusal with
  | low => omega
  | short =>
    rw [if_neg (by omega)]
    omega
  | @mismatch entry _ found different bounded above =>
    obtain ⟨previous,here,term⟩ := Option.map_eq_some_iff.mp newest.previous
    -- The positions at the match index and at the follower's base agree, so the conflict is above both.
    have apart : request.previousLogIndex ≠ progress.matchIndex := by
      intro same
      rw [same] at found here retained
      obtain ⟨mine,found',term'⟩ := sameTermAt_some (matched retained) here
      rw [found] at found'
      cases found'
      exact different (term'.trans term)
    have inside : session.follower.baseIndex ≠ request.previousLogIndex := by
      intro same
      have committed := same ▸ paired.follows.retained
      exact different ((paired.agreed _ committed _ _ found here).1.trans term)
    rw [if_neg (by omega)]
    omega
  | contradicted _ member contradicts => exact absurd contradicts (paired.no_contradiction newest ‹_› retained member)

theorem taken_same (paired : Paired leader follower) (newest : Newest leader peer request progress)
    (above : leader.baseIndex < progress.nextIndex) (takes : Takes follower request follows) :
    SameTermAt follows leader (request.previousLogIndex+request.entries.length) := by
  unfold SameTermAt
  by_cases empty : request.entries.length = 0
  · rw [empty,Nat.add_zero,takes.before _ (Nat.le_refl _),takes.previous,newest.previous]
  · have bound : request.entries.length-1 < request.entries.length := by omega
    obtain ⟨place,slot⟩ := newest.place paired.leads above (List.getElem?_eq_getElem bound)
    have taken := takes.taken _ (List.getElem_mem bound)
    have here : request.entries[request.entries.length-1].index = request.previousLogIndex+request.entries.length := by omega
    rw [← here,slot,taken]

-- How far the follower is behind, then how far back the leader still has to go.
def Session.lag (session : Session) : Nat × Nat :=
  match get? session.leader.peerProgress session.follower.config.selfId with
  | none => (0,0)
  | some progress => (session.leader.lastLogIndex-progress.matchIndex,progress.nextIndex)

theorem Open.lag (ready : Open session request progress) :
    session.lag = (session.leader.lastLogIndex-progress.matchIndex,progress.nextIndex) := by
  unfold Session.lag
  rw [ready.newest.found]

theorem Session.Answering.reaches (start : session.Answering) : Rounds.Reaches Session.round Session.CaughtUp session := by
  refine Rounds.reaches_of_measure Session.Answering (Prod.lex Nat.lt_wfRel Nat.lt_wfRel).wf Session.lag ?_ start
  rintro session ⟨request,progress,ready,fits⟩
  obtain ⟨next,ran,exchange⟩ := round_exchange ready
  obtain ⟨above,low,-⟩ := ready.newest.above ready.paired.leads ready.kept
  have index := ready.newest.next
  refine ⟨next,ran,?_⟩
  cases exchange with
  | refused refusal mine theirs reopened matched backed =>
    obtain ⟨lower,retained⟩ := refused_progress ready fits refusal
    have index' := reopened.newest.next
    have base : next.follower.baseIndex = session.follower.baseIndex := base_log mine
    refine .inr ⟨⟨_,_,reopened,by omega,?_⟩,?_⟩
    · rw [base,matched]
      exact fun inside => (fits.2 inside).log mine theirs
    · rw [ready.lag,reopened.lag,last_log theirs,matched]
      exact .right _ (backed ▸ lower)
  | finished _ done => exact .inl done
  | accepted takes theirs reopened matched =>
    have index' := reopened.newest.next
    have base := takes.base
    have retained := fits.1
    have same := taken_same ready.paired ready.newest above takes
    refine .inr ⟨⟨_,_,reopened,by omega,?_⟩,?_⟩
    · rw [matched]
      exact fun _ => same.log rfl theirs
    · rw [ready.lag,reopened.lag,last_log theirs]
      have sent := List.length_pos_of_ne_nil (ready.newest.more (by omega))
      exact .left _ _ (show session.leader.lastLogIndex-_ < session.leader.lastLogIndex-_ by omega)

theorem stuck_refuses (ready : Open session request progress) (lacks : ¬ session.Answerable request progress)
    (takes : Takes session.follower request follows) : False := by
  obtain ⟨above,low,high⟩ := ready.newest.above ready.paired.leads ready.kept
  obtain ⟨mine,found,term⟩ := Option.map_eq_some_iff.mp takes.previous
  obtain ⟨theirs,other,term'⟩ := Option.map_eq_some_iff.mp ready.newest.previous
  obtain ⟨retained,-,reached⟩ := And.imp_right And.symm (slot_place ready.paired.follows found)
  refine lacks ⟨retained,fun inside => ?_⟩
  obtain ⟨here,slot⟩ := slot_some ready.paired.follows inside (by omega)
  obtain ⟨there,slot'⟩ := slot_some ready.paired.leads ready.kept (by omega)
  have agree := ready.paired.matching _ _ _ found other (term.trans term'.symm) _ low here there slot slot'
  unfold SameTermAt
  rw [slot,slot',Option.map_some,Option.map_some,agree.1]

theorem stuck_stays (stuck : session.Stuck) (ran : session.round = some next) : next.Stuck := by
  obtain ⟨request,progress,ready,short,lacks⟩ := stuck
  obtain ⟨next',ran',exchange⟩ := round_exchange ready
  rw [ran] at ran'
  cases ran'
  obtain ⟨above,low,-⟩ := ready.newest.above ready.paired.leads ready.kept
  have index := ready.newest.next
  cases exchange with
  | finished takes | accepted takes => exact (stuck_refuses ready lacks takes).elim
  | refused refusal mine theirs reopened matched backed =>
    have base : next.follower.baseIndex = session.follower.baseIndex := base_log mine
    have last : next.leader.lastLogIndex = session.leader.lastLogIndex := last_log theirs
    have index' := reopened.newest.next
    refine ⟨_,_,reopened,by rw [matched,last]; exact short,fun fits => lacks ?_⟩
    obtain ⟨retained,shared⟩ := fits
    refine ⟨?_,fun inside => ?_⟩
    · -- The next index never rises on a refusal, so the position before the request was there.
      unfold PeerProgress.backTo at backed
      cases refusal with
      | low =>
        rw [if_pos (by omega)] at backed
        split at backed <;> omega
      | short retained => exact retained
      | mismatch found => exact (slot_place ready.paired.follows found).1
      | contradicted retained => exact retained
    · rw [matched] at shared
      exact (shared (by omega)).log mine.symm theirs.symm

theorem Session.Stuck.not_reaches (stuck : session.Stuck) : ¬ Rounds.Reaches Session.round Session.CaughtUp session := by
  refine Rounds.not_reaches Session.Stuck (fun _ _ => stuck_stays) ?_ stuck
  rintro session ⟨request,progress,ready,short,-⟩ ⟨current,found,done⟩
  rw [ready.newest.found] at found
  cases found
  exact short done

theorem begin_open (paired : Paired leader follower) (found : get? leader.peerProgress follower.config.selfId = some progress)
    (kept : leader.baseIndex ≤ progress.matchIndex) :
    ∃ session request current, Session.begin leader follower = some session ∧ session.follower = follower ∧
      session.leader.log = leader.log ∧ Open session request current ∧ current.matchIndex = progress.matchIndex ∧
      current.nextIndex = progress.nextIndex := by
  have matched := (paired.leads.progress_get found).matched
  obtain ⟨request,current,sent,ran,frame,message,newest,same,next⟩ :=
    sendAppendEntries_log paired.leads found (show leader.baseIndex < progress.nextIndex by omega)
  have moves : Reaches none none leader (leader.sendAppendEntries follower.config.selfId) Leading :=
    sendAppendEntries_reaches paired.leads paired.leading paired.peer paired.distinct.symm
  obtain ⟨sent',ran',moved,-⟩ := moves
  rw [ran] at ran'
  cases ran'
  have sound := clear_sound (moves_sound paired.leads moved)
  have paired' : Paired sent.clearActions follower :=
    paired.refused sound paired.follows {frame with} ⟨rfl,rfl,rfl⟩ rfl rfl
  refine ⟨⟨sent.clearActions,follower,.appendEntries request⟩,request,current,?_,rfl,frame.log,⟨paired',rfl,newest.clear,?_⟩,same,next⟩
  · unfold Session.begin
    simp [ran,message]
  · rw [same]
    exact (base_log frame.log).symm ▸ kept

-- A follower is caught up exactly if it is already, or if it retains the position
-- before the leader's newest request and, where it still has it, shares the one at
-- the match index. A follower that compacted further is asked for lower and lower
-- positions, each of which it refuses.
theorem catch_up_terminates_iff (paired : Paired leader follower)
    (found : get? leader.peerProgress follower.config.selfId = some progress) (kept : leader.baseIndex ≤ progress.matchIndex) :
    ∃ session, Session.begin leader follower = some session ∧
      (Rounds.Reaches Session.round Session.CaughtUp session ↔ progress.matchIndex = leader.lastLogIndex ∨
        (follower.baseIndex < progress.nextIndex ∧
          (follower.baseIndex ≤ progress.matchIndex → SameTermAt follower leader progress.matchIndex))) := by
  obtain ⟨session,request,current,begun,rfl,log,ready,matched,next⟩ := begin_open paired found kept
  have last : session.leader.lastLogIndex = leader.lastLogIndex := last_log log
  have index := ready.newest.next
  have fits : session.Answerable request current ↔ session.follower.baseIndex < progress.nextIndex ∧
      (session.follower.baseIndex ≤ progress.matchIndex → SameTermAt session.follower leader progress.matchIndex) := by
    unfold Session.Answerable
    rw [matched]
    refine and_congr (by omega) (imp_congr_right fun _ => ⟨fun same => same.log rfl log.symm,fun same => same.log rfl log⟩)
  refine ⟨session,begun,?_⟩
  rw [← fits,← matched,← last]
  constructor
  · intro reaches
    by_contra neither
    obtain ⟨short,lacks⟩ := not_or.mp neither
    exact Session.Stuck.not_reaches ⟨request,current,ready,short,lacks⟩ reaches
  · rintro (done | fits)
    · exact .here ⟨current,ready.newest.found,done⟩
    · exact Session.Answering.reaches ⟨request,current,ready,fits⟩

theorem running_talk (reachable : Cluster.Reachable voters cluster) (up : (cluster.hosts one).core = some leader)
    (up' : (cluster.hosts two).core = some follower) (leading : leader.role = .leader) (following : follower.role = .follower)
    (term : follower.currentTerm = leader.currentTerm) (distinct : one ≠ two) : Talk leader follower := by
  obtain ⟨ghost,inv⟩ := reachable_inv reachable
  have first := inv.running one leader up
  have second := inv.running two follower up'
  refine ⟨first.sim.sound,second.sim.sound,leading,following,term,?_,?_,?_⟩
  · rw [first.shared,← second.shared]
    exact second.sim.sound.configOk.member
  · rw [second.shared,← first.shared]
    exact first.sim.sound.configOk.member
  · rw [first.sim.self,second.sim.self]
    exact distinct

theorem paired_of_entries (talk : Talk leader follower) (behind : follower.commitIndex ≤ leader.commitIndex)
    (same : ∀ mine ∈ follower.log, ∀ theirs ∈ leader.log, mine.index = theirs.index →
      mine.term = theirs.term ∧ (follower.baseIndex < mine.index → leader.baseIndex < mine.index → mine = theirs)) :
    Paired leader follower := by
  have agree : ∀ index, AgreeAt follower leader index := by
    intro index mine theirs found other
    have place := slot_place talk.follows found
    have place' := slot_place talk.leads other
    rw [slot_of_le place.1] at found
    rw [slot_of_le place'.1] at other
    have equal := same mine (List.mem_of_getElem? found) theirs (List.mem_of_getElem? other) (by omega)
    rw [place.2.2] at equal
    exact equal
  exact ⟨talk,fun _ _ _ _ _ _ earlier _ => agree earlier,fun index _ => agree index,behind⟩

-- Node 3 has voted for the leader, node 1, and has none of its entries.
def voted : Cluster := .play [1,2,3] (opening ++ [.call 3 (.step 1 (.requestVote ⟨1,1,0,0⟩)) none])

theorem catch_up_terminates_voted : ∃ session,
    Session.begin (voted.running 1 (by decide)) (voted.running 3 (by decide)) = some session ∧
    Rounds.Reaches Session.round Session.CaughtUp session := by
  have talk : Talk (voted.running 1 (by decide)) (voted.running 3 (by decide)) :=
    running_talk (play_reachable _) (running_core _) (running_core _) (by decide) (by decide) (by decide) (show 1 ≠ 3 by decide)
  obtain ⟨session,begun,reaches⟩ := catch_up_terminates_iff (paired_of_entries talk (by decide) (by decide))
    (show get? _ 3 = some ⟨1,0,4,1,[⟨2,1⟩,⟨4,1⟩],0,0,[]⟩ by decide) (by decide)
  exact ⟨session,begun,reaches.mpr (.inr ⟨by decide,fun _ => by decide⟩)⟩

-- Node 3 accepts the leader's entry with its commit index and compacts it. Its
-- acknowledgement is lost.
def lostAck : Cluster := .play [1,2,3] (opening ++
  [.call 3 (.step 1 (.appendEntries ⟨1,1,0,0,[⟨1,1,.noOp,[]⟩],1,4⟩)) none,
   .call 3 (.compact ⟨1,1,[7]⟩) none])

theorem lostAck_never_catches_up : ∃ session progress,
    Paired (lostAck.running 1 (by decide)) (lostAck.running 3 (by decide)) ∧
    get? (lostAck.running 1 (by decide)).peerProgress 3 = some progress ∧
    (lostAck.running 1 (by decide)).baseIndex ≤ progress.matchIndex ∧
    Session.begin (lostAck.running 1 (by decide)) (lostAck.running 3 (by decide)) = some session ∧
    ¬ Rounds.Reaches Session.round Session.CaughtUp session := by
  have talk : Talk (lostAck.running 1 (by decide)) (lostAck.running 3 (by decide)) :=
    running_talk (play_reachable _) (running_core _) (running_core _) (by decide) (by decide) (by decide) (show 1 ≠ 3 by decide)
  have paired : Paired (lostAck.running 1 (by decide)) (lostAck.running 3 (by decide)) :=
    paired_of_entries talk (by decide) (by decide)
  have found : get? (lostAck.running 1 (by decide)).peerProgress 3 = some ⟨1,0,4,1,[⟨2,1⟩,⟨4,1⟩],0,0,[]⟩ := by decide
  have kept : (lostAck.running 1 (by decide)).baseIndex ≤ 0 := by decide
  obtain ⟨session,request,current,begun,same,log,ready,matched,next⟩ := begin_open paired found kept
  refine ⟨session,_,paired,found,kept,begun,Session.Stuck.not_reaches ⟨request,current,ready,?_,?_⟩⟩
  · rw [matched,last_log log]
    decide
  · rintro ⟨retained,-⟩
    have index := ready.newest.next
    rw [same] at retained
    have base : (lostAck.running 3 (by decide)).baseIndex = 1 := by decide
    have next : current.nextIndex = 1 := next
    omega

end ForgeKv.Raft
