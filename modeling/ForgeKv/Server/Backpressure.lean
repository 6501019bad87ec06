import ForgeKv.Server.Accounting

namespace ForgeKv.Server
open Raft (Bytes)
open Protocol

theorem busyResponse_serialize (request : RequestMetadata) :
    ∃ bytes, serialize (busyResponse request) = .ok bytes ∧ bytes.length = headerSize+4 := by
  refine ⟨_,rfl,?_⟩
  simp [Frame.front,busyResponse,headerSize]

namespace TcpServer
variable {server after : TcpServer} {connection changed other : Connection} {frame : Frame} {completion : Completion}
  {rest : List Completion}

-- Every frame turned away so far had a request of its connection under way.
def Accompanied (server : TcpServer) : Prop := ∀ refusal ∈ server.history.refusals, 0 < refusal.pendingRequestCount

-- Every frame turned away so far found room for its BUSY.
def Roomy (server : TcpServer) : Prop :=
  ∀ refusal ∈ server.history.refusals, refusal.bufferedOutputBytes+(headerSize+4) ≤ server.config.maxBufferedOutputPerConnection

instance (server : TcpServer) : Decidable server.Accompanied :=
  inferInstanceAs (Decidable (∀ refusal ∈ server.history.refusals, 0 < refusal.pendingRequestCount))

instance (server : TcpServer) : Decidable server.Roomy :=
  inferInstanceAs (Decidable (∀ refusal ∈ server.history.refusals,
    refusal.bufferedOutputBytes+(headerSize+4) ≤ server.config.maxBufferedOutputPerConnection))

-- Reading is paused while the connection is backpressured, and then a completion is to come.
structure Resumable (server : TcpServer) : Prop where
  together : ∀ connection, server.Live connection → connection.readPaused = connection.backpressured
  waits : server.Accompanied → ∀ connection, server.Live connection → connection.readPaused = true → 0 < connection.pendingRequestCount

-- The number of connections that are backpressured.
def pressure (server : TcpServer) : Nat := server.connections.total (fun _ connection => connection.backpressured.toNat)

def Gauged (server : TcpServer) : Prop :=
  server.Roomy → server.history.touched = [] ∧ server.connectionsBackpressured = server.pressure

theorem press_backpressured (backpressured : Bool) : (connection.press backpressured).backpressured = backpressured := by
  unfold Connection.press
  split
  · rename_i same
    exact same
  · rfl

theorem press_flags (together : connection.readPaused = connection.backpressured) (backpressured : Bool) :
    (connection.press backpressured).readPaused = backpressured ∧ (connection.press backpressured).backpressured = backpressured := by
  refine ⟨?_,press_backpressured backpressured⟩
  unfold Connection.press
  split
  · rename_i same
    exact together.trans same
  · rfl

theorem press_pending (backpressured : Bool) : (connection.press backpressured).pendingRequestCount = connection.pendingRequestCount := by
  unfold Connection.press
  split <;> rfl

namespace Resumable

section
variable (resumable : server.Resumable)
include resumable

theorem keep (together : changed.readPaused = changed.backpressured)
    (waits : server.Accompanied → changed.readPaused = true → 0 < changed.pendingRequestCount) : (server.keep changed).Resumable where
  together other there := by
    obtain rfl | ⟨_,there⟩ := live_keep.mp there
    · exact together
    · exact resumable.together other there
  waits fair other there paused := by
    obtain rfl | ⟨_,there⟩ := live_keep.mp there
    · exact waits fair paused
    · exact resumable.waits fair other there paused

theorem alike (live : server.Live connection) (paused : changed.readPaused = connection.readPaused)
    (pressed : changed.backpressured = connection.backpressured)
    (pending : changed.pendingRequestCount = connection.pendingRequestCount) : (server.keep changed).Resumable := by
  refine resumable.keep ?_ fun fair pauses => ?_
  · rw [paused,pressed]
    exact resumable.together connection live
  · rw [pending]
    exact resumable.waits fair connection live (paused ▸ pauses)

theorem drop (changed : Connection) : (server.drop changed).Resumable where
  together other there := resumable.together other (live_drop.mp there).2
  waits fair other there := resumable.waits fair other (live_drop.mp there).2

theorem beside (same : ∀ connection, after.Live connection → server.Live connection)
    (more : after.Accompanied → server.Accompanied) : after.Resumable :=
  ⟨fun connection live => resumable.together connection (same connection live),
    fun fair connection live => resumable.waits (more fair) connection (same connection live)⟩

theorem noted (connection : Connection) : (server.noted connection).Resumable :=
  resumable.beside (fun _ live => live) fun fair refusal member => fair refusal (List.mem_append_left _ member)

theorem refused (live : server.Live connection) (frame : Frame) (bytes : Bytes) :
    (server.refused connection frame bytes).Resumable := by
  have together : ((connection.asked frame).queued connection.read.length bytes).readPaused =
    ((connection.asked frame).queued connection.read.length bytes).backpressured := resumable.together connection live
  obtain ⟨paused,pressed⟩ := press_flags together true
  have kept := (resumable.noted connection).keep (paused.trans pressed.symm) fun fair _ => by
    rw [press_pending]
    exact fair ⟨connection.token,connection.pendingRequestCount,connection.bufferedOutputBytes⟩
      (List.mem_append_right _ List.mem_cons_self)
  exact kept.beside (fun _ live => live) (fun fair => fair)

theorem admitted (live : server.Live connection) (frame : Frame) (executor : RequestExecutor) :
    (server.admitted connection frame executor).Resumable := by
  have together : (connection.asked frame).counted.readPaused = (connection.asked frame).counted.backpressured :=
    resumable.together connection live
  have booked : (server.booked connection executor).Resumable := resumable.beside (fun _ live => live) (fun fair => fair)
  dsimp only [TcpServer.admitted]
  split
  · obtain ⟨paused,pressed⟩ := press_flags together true
    have kept := booked.keep (paused.trans pressed.symm) fun _ _ => by
      rw [press_pending]
      exact Nat.succ_pos _
    exact kept.beside (fun _ live => live) (fun fair => fair)
  · have kept := booked.keep together fun _ _ => Nat.succ_pos _
    exact kept.beside (fun _ live => live) (fun fair => fair)

-- With one request less there is always room again, so a backpressured connection goes on reading.
theorem answered (accounts : server.Accounts) (next : server.processing = completion::rest)
    (live : server.Live connection) (token : connection.token = completion.token) (bytes : Bytes) :
    ((server.taken completion rest).answered connection completion bytes).Resumable := by
  have together : (connection.discounted.queued completion.number bytes).readPaused =
    (connection.discounted.queued completion.number bytes).backpressured := resumable.together connection live
  have matched : ((server.taken completion rest).matched connection).Resumable :=
    resumable.beside (fun _ live => live) (fun fair => fair)
  dsimp only [TcpServer.answered]
  split
  · obtain ⟨paused,pressed⟩ := press_flags together false
    have kept := matched.keep (paused.trans pressed.symm) fun _ wrong => by
      rw [paused] at wrong
      cases wrong
    exact kept.beside (fun _ live => live) (fun fair => fair)
  · rename_i stays
    have kept := matched.keep together fun _ pauses => by
      refine absurd ?_ stays
      obtain ⟨_,positive,_⟩ := accounts.addressed next live token
      have limit := (accounts.kept connection live).limit
      have within := accounts.books.within
      have count : 0 < server.globalOutstanding := by
        rw [accounts.books.outstanding,tickets,next]
        simp
      have fewer : connection.pendingRequestCount-1 < server.config.maxRequestsInFlightPerConnection := by omega
      have less : server.globalOutstanding-1 < server.config.globalOutstandingWork := by omega
      exact decide_eq_true ⟨together ▸ pauses,fewer,less⟩
    exact kept.beside (fun _ live => live) (fun fair => fair)

end

end Resumable

theorem Move.resumable (move : Move server after) (placed : server.Placed) (accounts : server.Accounts)
    (resumable : server.Resumable) : after.Resumable := by
  cases move with
  | worked | scheduled | swapped | orphaned => exact resumable.beside (fun _ live => live) (fun fair => fair)
  | closed => exact resumable.drop _
  | filled live | sent live => exact resumable.alike live rfl rfl rfl
  | refused live => exact resumable.refused live _ _
  | evicted =>
    exact ((resumable.noted _).drop _).beside (fun _ live => live) (fun fair => fair)
  | admitted live => exact resumable.admitted live _ _
  | answered next found =>
    obtain ⟨live,token⟩ := addressee_live placed found
    exact resumable.answered accounts next live token _
  | flooded => exact (resumable.drop _).beside (fun _ live => live) (fun fair => fair)

theorem Step.resumable (step : Step server after) (placed : server.Placed) (accounts : server.Accounts)
    (resumable : server.Resumable) : after.Resumable := by
  cases step with
  | moved move => exact move.resumable placed accounts resumable
  | arranged => exact resumable.beside (fun _ live => live) (fun fair => fair)
  | opened absent =>
    refine ⟨fun other there => ?_,fun fair other there paused => ?_⟩
    · obtain rfl | ⟨_,there⟩ := (live_register absent).mp there
      · rfl
      · exact resumable.together other there
    · obtain rfl | ⟨_,there⟩ := (live_register absent).mp there
      · cases paused
      · exact resumable.waits fair other there paused

theorem start_resumable {config : ReactorConfig} {listenerFd wakeFd : Nat} (started : start config listenerFd wakeFd = .ok server) :
    server.Resumable := by
  obtain ⟨_,rfl⟩ := start_initial started
  exact ⟨(fun _ wrong => by cases wrong),(fun _ _ wrong => by cases wrong)⟩

theorem paused_resumable (config : ReactorConfig) (listenerFd wakeFd : Nat) (server : TcpServer)
    (started : start config listenerFd wakeFd = .ok server) (events : List Event) (fair : (server.live events).Accompanied)
    (fd : Nat) (connection : Connection) (found : (server.live events).connections.find? fd = some connection)
    (paused : connection.readPaused = true) :
    0 < connection.pendingRequestCount ∧ ∃ ticket ∈ (server.live events).exchange.tickets, ticket.token = connection.token := by
  have idle := live_idle started events
  have both : (server.live events).Accounts ∧ (server.live events).Resumable :=
    live_invariant (fun server => server.Accounts ∧ server.Resumable)
      (fun step placed holds => ⟨step.accounts placed holds.1,step.resumable placed holds.1 holds.2⟩) (start_idle started)
      ⟨(start_accounts started).1,start_resumable started⟩ events
  have positive := both.2.waits fair connection (idle.placed.live found) paused
  have counted := ((both.1.reckons idle).pending fd connection found).1
  rw [counted] at positive
  obtain ⟨ticket,member⟩ := List.exists_mem_of_length_pos positive
  obtain ⟨there,same⟩ := List.mem_filter.mp member
  exact ⟨counted ▸ positive,ticket,there,of_decide_eq_true same⟩

-- One request at a time, whoever sends it.
def overloaded : ReactorConfig := {ReactorConfig.initial with maxRequestsInFlightPerConnection := 1,globalOutstandingWork := 1}

def overload : List Event := connects 5 ++ connects 6 ++ sends 5 (wire (ping 1)) ++ sends 6 (wire (ping 2))

def recovery : List Event := overload ++ serves (.returned ⟨.client,.ok,0,1,[]⟩) ++ wakes

-- Nothing is under way any more, and the second connection is still paused.
theorem paused_forever : ∃ server, start overloaded 3 4 = .ok server ∧ (server.live recovery).exchange.tickets = [] ∧
    ((server.live recovery).connections.find? 6).map
      (fun connection => (connection.readPaused,connection.pendingRequestCount)) = some (true,0) :=
  ⟨_,rfl,by decide +kernel⟩

def crowd : List Event := connects 5 ++ sends 5 (wire (ping 1) ++ wire (ping 2))

-- A second frame of the connection whose request is under way is turned away.
theorem paused_resumable_crowd : ∃ server, start overloaded 3 4 = .ok server ∧
    (server.live crowd).history.refusals.map Refusal.pendingRequestCount = [1] ∧
    ∃ connection, (server.live crowd).connections.find? 5 = some connection ∧ 0 < connection.pendingRequestCount ∧
      ∃ ticket ∈ (server.live crowd).exchange.tickets, ticket.token = connection.token := by
  have started : start overloaded 3 4 = .ok (beginning overloaded) := rfl
  have pauses : (((beginning overloaded).live crowd).connections.find? 5).map Connection.readPaused = some true := by decide +kernel
  obtain ⟨connection,found,paused⟩ := Option.map_eq_some_iff.mp pauses
  exact ⟨_,started,by decide +kernel,connection,found,
    paused_resumable overloaded 3 4 _ started crowd (by decide +kernel) 5 connection found paused⟩

theorem pressure_keep (live : server.Live connection) (names : changed.Names connection) :
    (server.keep changed).pressure+connection.backpressured.toNat = server.pressure+changed.backpressured.toNat := by
  have found : server.connections.find? changed.fd = some connection := names.1 ▸ live
  have sum : (server.connections.assign changed.fd changed).total (fun _ connection => connection.backpressured.toNat)+_ = _ :=
    Table.total_assign
  rw [found] at sum
  exact sum

theorem pressure_drop (live : server.Live connection) (names : changed.Names connection) :
    server.pressure = connection.backpressured.toNat+(server.drop changed).pressure := by
  have found : server.connections.find? changed.fd = some connection := names.1 ▸ live
  exact Table.total_erase found

namespace Gauged

theorem beside (gauged : server.Gauged) (more : after.Roomy → server.Roomy) (touched : after.history.touched = server.history.touched)
    (count : after.connectionsBackpressured = server.connectionsBackpressured) (same : after.connections = server.connections) :
    after.Gauged := by
  intro roomy
  obtain ⟨untouched,exactly⟩ := gauged (more roomy)
  refine ⟨touched.trans untouched,?_⟩
  rw [count,exactly,pressure,pressure,same]

section
variable (gauged : server.Gauged) (live : server.Live connection) (names : changed.Names connection)
include gauged live names

theorem keep (same : changed.backpressured = connection.backpressured) : (server.keep changed).Gauged := by
  intro roomy
  obtain ⟨untouched,exactly⟩ := gauged roomy
  have sum := pressure_keep live names
  rw [same] at sum
  exact ⟨untouched,exactly.trans (Nat.add_right_cancel sum).symm⟩

theorem press (pressed : changed.backpressured = backpressured) :
    Gauged {server.keep changed with connectionsBackpressured := server.gauge connection backpressured} := by
  intro roomy
  obtain ⟨untouched,exactly⟩ := gauged roomy
  refine ⟨untouched,?_⟩
  have sum := pressure_keep live names
  rw [pressed] at sum
  change server.gauge connection backpressured = (server.keep changed).pressure
  unfold gauge
  split
  · rename_i same
    rw [same] at sum
    omega
  · rename_i different
    split
    · rename_i yes
      have no : connection.backpressured = false := by
        rw [yes] at different
        exact Bool.eq_false_of_not_eq_true different
      rw [no,yes,Bool.toNat_false,Bool.toNat_true] at sum
      omega
    · rename_i no
      have yes : connection.backpressured = true := by
        rw [Bool.eq_false_of_not_eq_true no] at different
        exact Bool.eq_true_of_not_eq_false different
      rw [yes,Bool.eq_false_of_not_eq_true no,Bool.toNat_false,Bool.toNat_true] at sum
      rw [wrapSub_le (by omega)]
      omega

theorem drop (same : changed.backpressured = connection.backpressured) : (server.drop changed).Gauged := by
  intro roomy
  obtain ⟨untouched,exactly⟩ := gauged roomy
  refine ⟨untouched,?_⟩
  have sum := pressure_drop live names
  change (if changed.backpressured then wrapSub server.connectionsBackpressured 1 else server.connectionsBackpressured) = _
  rw [same]
  split
  · rename_i yes
    rw [yes,Bool.toNat_true] at sum
    rw [wrapSub_le (by omega)]
    omega
  · rename_i no
    rw [Bool.eq_false_of_not_eq_true no,Bool.toNat_false] at sum
    omega

end

section
variable (gauged : server.Gauged)
include gauged

theorem noted (connection : Connection) : (server.noted connection).Gauged :=
  gauged.beside (fun roomy refusal member => roomy refusal (List.mem_append_left _ member)) rfl rfl rfl

theorem register (absent : server.connections.find? fd = none) : (server.register fd).Gauged := by
  intro roomy
  obtain ⟨untouched,exactly⟩ := gauged roomy
  refine ⟨untouched,exactly.trans ?_⟩
  have fresh : (server.register fd).connections =
      server.connections.assign fd (.fresh fd ⟨server.nextConnectionId,server.nextGeneration⟩) := Table.emplace_new absent
  unfold pressure
  rw [fresh,Table.total_assign_new absent]
  rfl

theorem refused (live : server.Live connection) (frame : Frame) (bytes : Bytes) :
    (server.refused connection frame bytes).Gauged := by
  have names : connection.Names ((connection.asked frame).queued connection.read.length bytes) := ⟨rfl,rfl⟩
  exact (gauged.noted connection).press live (names.press true).symm (press_backpressured true)

theorem admitted (live : server.Live connection) (frame : Frame) (executor : RequestExecutor) :
    (server.admitted connection frame executor).Gauged := by
  have names : connection.Names (connection.asked frame).counted := ⟨rfl,rfl⟩
  have booked : (server.booked connection executor).Gauged := gauged.beside (fun roomy => roomy) rfl rfl rfl
  dsimp only [TcpServer.admitted]
  split
  · exact booked.press live (names.press true).symm (press_backpressured true)
  · exact booked.keep live names.symm rfl

theorem matched (connection : Connection) (completion : Completion) (rest : List Completion) :
    ((server.taken completion rest).matched connection).Gauged :=
  gauged.beside (fun roomy => roomy) rfl rfl rfl

theorem answered (live : server.Live connection) (completion : Completion) (rest : List Completion)
    (bytes : Bytes) : ((server.taken completion rest).answered connection completion bytes).Gauged := by
  have names : connection.Names (connection.discounted.queued completion.number bytes) := ⟨rfl,rfl⟩
  have matched := gauged.matched connection completion rest
  dsimp only [TcpServer.answered]
  split
  · exact matched.press live (names.press false).symm (press_backpressured false)
  · exact matched.keep live names.symm rfl

theorem flooded (live : server.Live connection) (completion : Completion) (rest : List Completion) :
    (((server.taken completion rest).matched connection).drop connection.discounted).Gauged := by
  have names : connection.discounted.Names connection := ⟨rfl,rfl⟩
  exact (gauged.matched connection completion rest).drop live names rfl

end

theorem evicted (full : ∀ bytes, serialize (busyResponse (requestMetadata frame)) = .ok bytes → ¬connection.Fits server.config bytes) :
    (server.evicted connection frame).Gauged := by
  intro roomy
  obtain ⟨bytes,serialized,size⟩ := busyResponse_serialize (requestMetadata frame)
  refine absurd ?_ (full bytes serialized)
  have room := roomy ⟨connection.token,connection.pendingRequestCount,connection.bufferedOutputBytes⟩
    (List.mem_append_right _ List.mem_cons_self)
  change connection.bufferedOutputBytes+(headerSize+4) ≤ server.config.maxBufferedOutputPerConnection at room
  unfold Connection.Fits
  omega

end Gauged

theorem Move.gauged (move : Move server after) (placed : server.Placed) (gauged : server.Gauged) : after.Gauged := by
  cases move with
  | worked | scheduled | swapped | orphaned => exact gauged.beside (fun roomy => roomy) rfl rfl rfl
  | closed live => exact gauged.drop live ⟨rfl,rfl⟩ rfl
  | filled live | sent live => exact gauged.keep live ⟨rfl,rfl⟩ rfl
  | refused live => exact gauged.refused live _ _
  | evicted live full => exact .evicted full
  | admitted live => exact gauged.admitted live _ _
  | answered next found => exact gauged.answered (addressee_live placed found).1 _ _ _
  | flooded next found => exact gauged.flooded (addressee_live placed found).1 _ _

theorem Step.gauged (step : Step server after) (placed : server.Placed) (gauged : server.Gauged) : after.Gauged := by
  cases step with
  | moved move => exact move.gauged placed gauged
  | arranged => exact gauged.beside (fun roomy => roomy) rfl rfl rfl
  | opened absent => exact gauged.register absent

theorem pressure_count (server : TcpServer) :
    server.pressure = server.connections.bindings.countP (fun binding => binding.2.backpressured) := by
  unfold pressure Table.total
  induction server.connections.bindings with
  | nil => rfl
  | cons binding rest ih =>
    rw [List.map_cons,List.sum_cons,ih,List.countP_cons,Nat.add_comm]
    cases pressed : binding.2.backpressured <;> simp [pressed]

theorem closed_untouched (config : ReactorConfig) (listenerFd wakeFd : Nat) (server : TcpServer)
    (started : start config listenerFd wakeFd = .ok server) (events : List Event) (roomy : (server.live events).Roomy) :
    (server.live events).history.touched = [] ∧ (server.live events).connectionsBackpressured =
      (server.live events).connections.bindings.countP (fun binding => binding.2.backpressured) := by
  have begins : server.Gauged := by
    obtain ⟨_,rfl⟩ := start_initial started
    exact fun _ => ⟨rfl,rfl⟩
  obtain ⟨untouched,exactly⟩ := live_invariant Gauged (fun step placed gauged => step.gauged placed gauged) (start_idle started)
    begins events roomy
  exact ⟨untouched,exactly.trans (pressure_count _)⟩

-- The first connection hangs up while its request is under way; the completion then finds no connection.
def parting : List Event := crowd ++ connects 6 ++ [.waited [hangsUp 5],.handled ⟨[],[],[],[]⟩] ++
  serves (.returned ⟨.client,.ok,0,1,[]⟩) ++ wakes

theorem closed_untouched_parting : ∃ server, start overloaded 3 4 = .ok server ∧
    ((server.live parting).history.refusals.length = 1 ∧ (server.live parting).history.erased.map Connection.token = [⟨1,1⟩] ∧
      (server.live parting).exchange.tickets = []) ∧ (server.live parting).history.touched = [] ∧
    (server.live parting).connectionsBackpressured =
      (server.live parting).connections.bindings.countP (fun binding => binding.2.backpressured) :=
  ⟨_,rfl,by decide +kernel,closed_untouched overloaded 3 4 _ rfl parting (by decide +kernel)⟩

-- The smallest output buffer that is valid has no room for a BUSY.
def cramped : ReactorConfig := {overloaded with maxBufferedOutputPerConnection := headerSize}

-- The second connection is closed, its object is accessed, and it is counted as backpressured ever after.
theorem closed_touched : ∃ server, start cramped 3 4 = .ok server ∧ (server.live recovery).history.touched = [⟨2,2⟩] ∧
    (server.live recovery).history.erased.map Connection.token = [⟨2,2⟩] ∧
    (server.live recovery).connectionsBackpressured = 1 ∧
    (server.live recovery).connections.bindings.countP (fun binding => binding.2.backpressured) = 0 :=
  ⟨_,rfl,by decide +kernel⟩

end TcpServer
end ForgeKv.Server
