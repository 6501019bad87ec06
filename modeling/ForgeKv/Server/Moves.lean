import Mathlib.Logic.Relation
import ForgeKv.Server.Reactor

namespace ForgeKv.Server
open Raft (Bytes)
open Protocol

-- The check of queue_response.
def Connection.Fits (config : ReactorConfig) (connection : Connection) (bytes : Bytes) : Prop :=
  bytes.length ≤ config.maxBufferedOutputPerConnection-
    min connection.bufferedOutputBytes config.maxBufferedOutputPerConnection

-- Two values of one object.
def Connection.Names (reference connection : Connection) : Prop :=
  reference.fd = connection.fd ∧ reference.token = connection.token

-- set_backpressured, on the object.
def Connection.press (connection : Connection) (backpressured : Bool) : Connection :=
  if connection.backpressured = backpressured then connection else connection.pressed backpressured

theorem Connection.Names.symm {reference connection : Connection} (names : reference.Names connection) : connection.Names reference :=
  ⟨names.1.symm,names.2.symm⟩

theorem Connection.Names.press {reference connection : Connection} (names : reference.Names connection) (backpressured : Bool) :
    reference.Names (connection.press backpressured) := by
  unfold Connection.press
  split
  · exact names
  · exact names

theorem Connection.Names.choice {reference connection : Connection} (names : reference.Names connection) (chosen backpressured : Bool) :
    reference.Names (if chosen then connection.press backpressured else connection) := by
  split
  · exact names.press backpressured
  · exact names

namespace TcpServer

def Live (server : TcpServer) (connection : Connection) : Prop := server.connections.find? connection.fd = some connection

def Placed (server : TcpServer) : Prop :=
  ∀ fd connection, server.connections.find? fd = some connection → connection.fd = fd

def keep (server : TcpServer) (connection : Connection) : TcpServer :=
  {server with connections := server.connections.assign connection.fd connection}

-- set_backpressured, on the gauge.
def gauge (server : TcpServer) (connection : Connection) (backpressured : Bool) : Nat :=
  if connection.backpressured = backpressured then server.connectionsBackpressured
  else if backpressured then server.connectionsBackpressured+1
  else wrapSub server.connectionsBackpressured 1

-- close_connection of a connection that is there.
def drop (server : TcpServer) (connection : Connection) : TcpServer :=
  {server with
    connectionsBackpressured :=
      if connection.backpressured then wrapSub server.connectionsBackpressured 1 else server.connectionsBackpressured
    tokenToFd := server.tokenToFd.erase connection.token.id
    connections := server.connections.erase connection.fd
    history := {server.history with erased := server.history.erased ++ [connection]}}

-- A refused frame, with BUSY in the output.
def refused (server : TcpServer) (connection : Connection) (frame : Frame) (bytes : Bytes) : TcpServer :=
  {(server.noted connection).keep (((connection.asked frame).queued connection.read.length bytes).press true) with
    connectionsBackpressured := server.gauge connection true}

-- A refused frame whose BUSY closed the connection, and set_backpressured after that.
def evicted (server : TcpServer) (connection : Connection) (frame : Frame) : TcpServer :=
  let after := (server.noted connection).drop (connection.asked frame)
  {after with
    connectionsBackpressured := after.gauge connection true
    history := {after.history with touched := after.history.touched ++ [connection.token]}}

-- A frame that the executor took.
def admitted (server : TcpServer) (connection : Connection) (frame : Frame) (executor : RequestExecutor) : TcpServer :=
  let counted := (connection.asked frame).counted
  {(server.booked connection executor).keep (if server.full counted then counted.press true else counted) with
    connectionsBackpressured := if server.full counted then server.gauge connection true else server.connectionsBackpressured}

-- A completion whose response is in the output, and the end of the backpressure.
def answered (server : TcpServer) (connection : Connection) (completion : Completion) (bytes : Bytes) : TcpServer :=
  let queued := connection.discounted.queued completion.number bytes
  {(server.matched connection).keep (if server.resumes queued then queued.press false else queued) with
    connectionsBackpressured := if server.resumes queued then server.gauge connection false else server.connectionsBackpressured}

def taken (server : TcpServer) (completion : Completion) (rest : List Completion) : TcpServer :=
  {server with processing := rest}.settled completion

-- What the reactor thread and the workers do, one thing at a time, but for new connections.
inductive Move : TcpServer → TcpServer → Prop where
  | worked (step : WorkerStep) : Move server {server with exchange := server.exchange.work server.config step}
  | scheduled (schedule : List (List WorkerStep)) : Move server {server with schedule := schedule}
  | closed (live : server.Live connection) : Move server (server.drop connection)
  | filled (live : server.Live connection) (parser : Parser) : Move server (server.keep (connection.filled parser))
  | sent (live : server.Live connection) (queue : connection.writeQueue = front::rest) (positive : 0 < count)
      (within : count ≤ wrapSub front.length connection.writeOffset) :
    Move server (server.keep (connection.transmitted front rest count))
  | refused (live : server.Live connection) (serialized : serialize (busyResponse (requestMetadata frame)) = .ok bytes)
      (fits : connection.Fits server.config bytes) :
    Move server (server.refused connection frame bytes)
  | evicted (live : server.Live connection)
      (full : ∀ bytes, serialize (busyResponse (requestMetadata frame)) = .ok bytes → ¬connection.Fits server.config bytes) :
    Move server (server.evicted connection frame)
  | admitted (live : server.Live connection)
      (room : connection.pendingRequestCount < server.config.maxRequestsInFlightPerConnection)
      (space : server.globalOutstanding < server.config.globalOutstandingWork)
      (taken : server.exchange.executor.trySubmit
        ⟨connection.token,frame,headerSize+frame.payload.length,connection.read.length⟩ = some executor) :
    Move server (server.admitted connection frame executor)
  | swapped (idle : server.processing = []) : Move server server.swap
  | orphaned (next : server.processing = completion::rest) (lost : server.addressee completion.token = none) :
    Move server (server.taken completion rest)
  | answered (next : server.processing = completion::rest) (found : server.addressee completion.token = some connection)
      (serialized : serialize completion.frame = .ok bytes) (fits : connection.Fits server.config bytes) :
    Move server ((server.taken completion rest).answered connection completion bytes)
  | flooded (next : server.processing = completion::rest) (found : server.addressee completion.token = some connection) :
    Move server (((server.taken completion rest).matched connection).drop connection.discounted)

inductive Step : TcpServer → TcpServer → Prop where
  | moved (move : Move server after) : Step server after
  | arranged (running : Bool) (batch : List Ready) (reported : Table Nat Connection) :
    Step server {server with running := running,batch := batch,reported := reported}
  | opened (absent : server.connections.find? fd = none) : Step server (server.register fd)

abbrev Walk : TcpServer → TcpServer → Prop := Relation.ReflTransGen Move
abbrev Path : TcpServer → TcpServer → Prop := Relation.ReflTransGen Step

variable {server after : TcpServer} {connection reference changed : Connection} {frame : Frame}

theorem Placed.live (placed : server.Placed) (found : server.connections.find? fd = some connection) :
    server.Live connection := by
  have same := placed fd connection found
  rwa [Live,same]

theorem keep_live : (server.keep connection).Live connection := Table.find?_assign_self

section live
variable (live : server.Live connection) (names : reference.Names connection)
include live names

theorem named_live : server.named reference = some connection := by
  have found : server.connections.find? reference.fd = some connection := names.1 ▸ live
  simp [named,found,names.2]

theorem touch_live : server.touch reference = (server,connection) := by
  simp only [touch,named_live live names]

theorem store_live : server.store reference = server.keep reference := by
  simp [store,named_live live names,keep]

theorem closeConnection_live : server.closeConnection reference.fd = server.drop connection := by
  have found : server.connections.find? connection.fd = some connection := live
  simp only [names.1,closeConnection,found,drop]

theorem queueResponse_live (number : Nat) (frame : Frame) :
    (∃ bytes, serialize frame = .ok bytes ∧ connection.Fits server.config bytes ∧
      server.queueResponse reference number frame = (server.keep (connection.queued number bytes),true)) ∨
    ((∀ bytes, serialize frame = .ok bytes → ¬connection.Fits server.config bytes) ∧
      server.queueResponse reference number frame = (server.drop connection,false)) := by
  have itself : connection.Names connection := ⟨rfl,rfl⟩
  have closes := closeConnection_live live itself
  simp only [queueResponse,touch_live live names]
  cases serialized : serialize frame with
  | error =>
    exact .inr ⟨(fun _ wrong => by cases wrong),by rw [closes]⟩
  | ok bytes =>
    by_cases fits : connection.Fits server.config bytes
    · refine .inl ⟨bytes,rfl,fits,?_⟩
      have queued : (connection.queued number bytes).Names connection := ⟨rfl,rfl⟩
      simp only [Nat.not_lt.mpr fits,if_false,store_live live queued]
    · refine .inr ⟨fun other same => ?_,?_⟩
      · cases same
        exact fits
      · simp only [Nat.lt_of_not_le fits,if_true,closes]

end live

theorem keep_keep (same : changed.fd = connection.fd) : (server.keep connection).keep changed = server.keep changed := by
  simp only [keep,same,Table.assign_assign]

theorem drop_keep : (server.keep connection).drop connection = server.drop connection := by
  simp only [keep,drop,Table.erase_assign]

theorem setBackpressured_kept (names : reference.Names connection) (backpressured : Bool) :
    (server.keep connection).setBackpressured reference backpressured =
      {server.keep (connection.press backpressured) with connectionsBackpressured := server.gauge connection backpressured} := by
  have live : (server.keep connection).Live connection := keep_live
  simp only [setBackpressured,touch_live live names,Connection.press,gauge]
  split
  · rfl
  · have pressed : (connection.pressed backpressured).Names connection := ⟨rfl,rfl⟩
    have same : (connection.pressed backpressured).fd = connection.fd := rfl
    rw [store_live live pressed,keep_keep same]
    rfl

theorem setBackpressured_erased (erased : server.connections.find? reference.fd = none) (backpressured : Bool) :
    server.setBackpressured reference backpressured =
      {server with
        connectionsBackpressured := server.gauge reference backpressured
        history := {server.history with touched := server.history.touched ++ [reference.token]}} := by
  have unnamed : server.named reference = none := by simp [named,erased]
  simp only [setBackpressured,touch,unnamed,gauge]
  split
  · rfl
  · have nothing : ∀ other : Connection, other.fd = reference.fd → server.named other = none := by
      intro other same
      simp [named,same,erased]
    have pressed := nothing (reference.pressed backpressured) rfl
    simp only [named] at pressed
    simp only [store,named,pressed,Option.isSome_none,Bool.false_eq_true,if_false]

theorem refuse_live (live : server.Live connection) :
    (∃ bytes, serialize (busyResponse (requestMetadata frame)) = .ok bytes ∧ connection.Fits server.config bytes ∧
      server.refuse connection frame = (server.refused connection frame bytes,true)) ∨
    ((∀ bytes, serialize (busyResponse (requestMetadata frame)) = .ok bytes → ¬connection.Fits server.config bytes) ∧
      server.refuse connection frame = (server.evicted connection frame,false)) := by
  have asks : (connection.asked frame).Names connection := ⟨rfl,rfl⟩
  have itself : (connection.asked frame).Names (connection.asked frame) := ⟨rfl,rfl⟩
  have kept : ((server.noted connection).keep (connection.asked frame)).Live (connection.asked frame) := keep_live
  obtain ⟨bytes,serialized,fits,ran⟩ | ⟨full,ran⟩ :=
    queueResponse_live kept itself connection.read.length (busyResponse (requestMetadata frame))
  · refine .inl ⟨bytes,serialized,fits,?_⟩
    have queued : (connection.asked frame).Names ((connection.asked frame).queued connection.read.length bytes) := ⟨rfl,rfl⟩
    have noted : (server.noted connection).Live connection := live
    have same : ((connection.asked frame).queued connection.read.length bytes).fd = (connection.asked frame).fd := rfl
    simp only [refuse,store_live noted asks,ran,keep_keep same,setBackpressured_kept queued,refused]
    rfl
  · refine .inr ⟨full,?_⟩
    have noted : (server.noted connection).Live connection := live
    have erased : ((server.noted connection).drop (connection.asked frame)).connections.find? (connection.asked frame).fd = none :=
      Table.find?_erase_self
    simp only [refuse,store_live noted asks,ran,drop_keep,setBackpressured_erased erased]
    rfl

theorem submitted_live (live : server.Live connection) (executor : RequestExecutor) :
    server.submitted connection frame executor = (server.admitted connection frame executor,true) := by
  have booked : (server.booked connection executor).Live connection := live
  have counts : (connection.asked frame).counted.Names connection := ⟨rfl,rfl⟩
  have itself : (connection.asked frame).counted.Names (connection.asked frame).counted := ⟨rfl,rfl⟩
  simp only [submitted,admitted,store_live booked counts,setBackpressured_kept itself]
  have alike : ((server.booked connection executor).keep (connection.asked frame).counted).full (connection.asked frame).counted =
    server.full (connection.asked frame).counted := rfl
  rw [alike]
  cases server.full (connection.asked frame).counted <;> rfl

theorem answer_live (live : server.Live connection) :
    (∃ bytes, serialize completion.frame = .ok bytes ∧ connection.Fits server.config bytes ∧
      server.answer connection completion = server.answered connection completion bytes) ∨
    server.answer connection completion = (server.matched connection).drop connection.discounted := by
  have matched : (server.matched connection).Live connection := live
  have counts : connection.discounted.Names connection := ⟨rfl,rfl⟩
  have itself : connection.discounted.Names connection.discounted := ⟨rfl,rfl⟩
  have kept : ((server.matched connection).keep connection.discounted).Live connection.discounted := keep_live
  obtain ⟨bytes,serialized,fits,ran⟩ | ⟨-,ran⟩ := queueResponse_live kept itself completion.number completion.frame
  · refine .inl ⟨bytes,serialized,fits,?_⟩
    have same : (connection.discounted.queued completion.number bytes).fd = connection.discounted.fd := rfl
    have queued : connection.discounted.Names (connection.discounted.queued completion.number bytes) := ⟨rfl,rfl⟩
    have now : ((server.matched connection).keep (connection.discounted.queued completion.number bytes)).Live
      (connection.discounted.queued completion.number bytes) := keep_live
    have again : (connection.discounted.queued completion.number bytes).Names (connection.discounted.queued completion.number bytes) :=
      ⟨rfl,rfl⟩
    simp only [answer,answered,store_live matched counts,ran,keep_keep same,touch_live now queued,setBackpressured_kept again,
      Bool.true_eq_false,if_false]
    have alike : ((server.matched connection).keep (connection.discounted.queued completion.number bytes)).resumes
      (connection.discounted.queued completion.number bytes) = server.resumes (connection.discounted.queued completion.number bytes) := rfl
    rw [alike]
    cases server.resumes (connection.discounted.queued completion.number bytes) <;> rfl
  · refine .inr ?_
    simp only [answer,store_live matched counts,ran,drop_keep]
    rfl

theorem elapse_same (server : TcpServer) :
    server.elapse = {server with exchange := server.elapse.exchange,schedule := server.elapse.schedule} := by
  unfold elapse
  split <;> rfl

-- A walk on the connection under one descriptor, which leaves the completions
-- being processed alone.
structure Calm (place : Nat) (server after : TcpServer) : Prop where
  walk : Walk server after
  processing : after.processing = server.processing
  elsewhere : ∀ fd, fd ≠ place → after.connections.find? fd = server.connections.find? fd

theorem Calm.refl (place : Nat) (server : TcpServer) : Calm place server server := ⟨.refl,rfl,fun _ _ => rfl⟩

theorem Calm.trans {middle : TcpServer} (first : Calm place server middle) (second : Calm place middle after) :
    Calm place server after :=
  ⟨first.walk.trans second.walk,second.processing.trans first.processing,fun fd apart =>
    (second.elsewhere fd apart).trans (first.elsewhere fd apart)⟩

section
variable (move : Move server after) (same : after.processing = server.processing)
include move same

theorem Calm.aside (connections : after.connections = server.connections) : Calm place server after :=
  ⟨.single move,same,fun fd _ => by rw [connections]⟩

theorem Calm.kept (names : connection.Names changed)
    (connections : after.connections = (server.keep changed).connections) : Calm connection.fd server after := by
  refine ⟨.single move,same,fun fd apart => ?_⟩
  rw [connections]
  exact Table.find?_assign_of_ne (names.1 ▸ apart)

theorem Calm.dropped (names : connection.Names changed)
    (connections : after.connections = (server.drop changed).connections) : Calm connection.fd server after := by
  refine ⟨.single move,same,fun fd apart => ?_⟩
  rw [connections]
  exact Table.find?_erase_of_ne (names.1 ▸ apart)

end

theorem works_calm (steps : List WorkerStep) :
    Calm place server {server with exchange := steps.foldl (Exchange.work server.config) server.exchange} := by
  induction steps generalizing server with
  | nil => exact .refl _ _
  | cons step rest ih => exact (Calm.aside (.worked step) rfl rfl).trans ih

theorem elapse_calm (server : TcpServer) : Calm place server server.elapse := by
  unfold elapse
  split
  · exact .refl _ _
  · rename_i steps rest _
    exact (works_calm steps).trans (.aside (.scheduled rest) rfl rfl)

-- Where dispatch returns false the connection is gone, otherwise it is still there.
def Stays (server : TcpServer) (connection : Connection) (going : Bool) : Prop :=
  if going then ∃ kept, server.Live kept ∧ connection.Names kept else server.connections.find? connection.fd = none

theorem refuse_calm (live : server.Live connection) (frame : Frame) :
    Calm connection.fd server (server.refuse connection frame).1 ∧
      Stays (server.refuse connection frame).1 connection (server.refuse connection frame).2 := by
  obtain ⟨bytes,serialized,fits,ran⟩ | ⟨full,ran⟩ := refuse_live live
  · rw [ran]
    have names : connection.Names ((connection.asked frame).queued connection.read.length bytes) := ⟨rfl,rfl⟩
    exact ⟨.kept (.refused live serialized fits) rfl (names.press true) rfl,_,keep_live,names.press true⟩
  · rw [ran]
    have names : connection.Names (connection.asked frame) := ⟨rfl,rfl⟩
    exact ⟨.dropped (.evicted live full) rfl names rfl,Table.find?_erase_self⟩

theorem dispatch_calm (live : server.Live connection) (names : reference.Names connection) (frame : Frame) :
    Calm connection.fd server (server.dispatch reference frame).1 ∧
      Stays (server.dispatch reference frame).1 connection (server.dispatch reference frame).2 := by
  simp only [dispatch,touch_live live names]
  split
  · have itself : connection.Names connection := ⟨rfl,rfl⟩
    rw [closeConnection_live live itself]
    exact ⟨.dropped (.closed live) rfl itself rfl,Table.find?_erase_self⟩
  · split
    · exact refuse_calm live frame
    · rename_i room
      have later : server.elapse.Live connection := by
        rw [elapse_same]
        exact live
      have walk : Calm connection.fd server server.elapse := elapse_calm server
      split
      · have refuses := refuse_calm later frame
        exact ⟨walk.trans refuses.1,refuses.2⟩
      · rename_i executor taken
        simp only [full,decide_eq_true_eq,not_or,Nat.not_le] at room
        have space : server.elapse.globalOutstanding < server.elapse.config.globalOutstandingWork := by
          rw [elapse_same]
          exact room.2
        have fewer : connection.pendingRequestCount < server.elapse.config.maxRequestsInFlightPerConnection := by
          rw [elapse_same]
          exact room.1
        have counts : connection.Names (connection.asked frame).counted := ⟨rfl,rfl⟩
        have names := counts.choice (server.elapse.full (connection.asked frame).counted) true
        rw [submitted_live later]
        exact ⟨walk.trans (.kept (.admitted later fewer space taken) rfl names rfl),_,keep_live,names⟩

theorem dispatchAll_calm (live : server.Live connection) (names : reference.Names connection) (frames : List Frame) :
    Calm reference.fd server (server.dispatchAll reference frames).1 := by
  induction frames generalizing server connection with
  | nil => exact .refl _ _
  | cons frame rest ih =>
    obtain ⟨walk,stays⟩ := dispatch_calm live names frame
    rw [← names.1] at walk
    simp only [dispatchAll]
    cases going : (server.dispatch reference frame).2 with
    | false =>
      have gone : (server.dispatch reference frame).1.connections.find? reference.fd = none := by
        rw [going] at stays
        rw [names.1]
        exact stays
      simpa [gone] using walk
    | true =>
      rw [going] at stays
      obtain ⟨kept,there,same⟩ := stays
      have still : reference.Names kept := ⟨names.1.trans same.1,names.2.trans same.2⟩
      simpa using walk.trans (ih there still)

theorem Placed.keep (placed : server.Placed) (connection : Connection) : (server.keep connection).Placed := by
  intro fd other found
  by_cases same : fd = connection.fd
  · subst same
    cases Table.find?_assign_self.symm.trans found
    rfl
  · exact placed fd other ((Table.find?_assign_of_ne same).symm.trans found)

theorem Placed.drop (placed : server.Placed) (connection : Connection) : (server.drop connection).Placed := by
  intro fd other found
  by_cases same : fd = connection.fd
  · subst same
    cases Table.find?_erase_self.symm.trans found
  · exact placed fd other ((Table.find?_erase_of_ne same).symm.trans found)

theorem Placed.register (placed : server.Placed) (absent : server.connections.find? fd = none) : (server.register fd).Placed := by
  have fresh : (server.register fd).connections =
      server.connections.assign fd (.fresh fd ⟨server.nextConnectionId,server.nextGeneration⟩) := Table.emplace_new absent
  intro place other found
  rw [fresh] at found
  by_cases same : place = fd
  · subst same
    cases Table.find?_assign_self.symm.trans found
    rfl
  · exact placed place other ((Table.find?_assign_of_ne same).symm.trans found)

theorem Move.placed (move : Move server after) (placed : server.Placed) : after.Placed := by
  cases move with
  | worked | scheduled | swapped | orphaned => exact placed
  | closed | evicted | flooded => exact Placed.drop placed _
  | filled | sent | refused | admitted | answered => exact Placed.keep placed _

theorem walk_placed (walk : Walk server after) (placed : server.Placed) : after.Placed := by
  induction walk with
  | refl => exact placed
  | tail _ move ih => exact move.placed ih

theorem Step.placed (step : Step server after) (placed : server.Placed) : after.Placed := by
  cases step with
  | moved move => exact move.placed placed
  | arranged => exact placed
  | opened absent => exact placed.register absent

theorem path_placed (path : Path server after) (placed : server.Placed) : after.Placed := by
  induction path with
  | refl => exact placed
  | tail _ step ih => exact step.placed ih

theorem Walk.path (walk : Walk server after) : Path server after := by
  induction walk with
  | refl => exact .refl
  | tail _ move ih => exact ih.tail (.moved move)

section
variable (placed : server.Placed)
include placed

theorem closeConnection_calm (fd : Nat) : Calm fd server (server.closeConnection fd) := by
  cases found : server.connections.find? fd with
  | none =>
    simp only [closeConnection,found]
    exact .refl _ _
  | some connection =>
    have live := placed.live found
    have itself : connection.Names connection := ⟨rfl,rfl⟩
    rw [← placed fd connection found,closeConnection_live live itself]
    exact .dropped (.closed live) rfl itself rfl

theorem readConnection_calm (results : List RecvResult) :
    Calm fd server (readConnection fd server budget results) := by
  induction results generalizing server budget with
  | nil => exact .refl _ _
  | cons result rest ih =>
    simp only [readConnection]
    split
    · exact .refl _ _
    · rename_i connection found
      split
      · exact .refl _ _
      · split
        · exact ih placed
        · exact .refl _ _
        · exact closeConnection_calm placed fd
        · split
          · exact closeConnection_calm placed fd
          · split
            · exact closeConnection_calm placed fd
            · rename_i bytes _ _
              have live := placed.live found
              generalize connection.parser.consume (bytes.take (min bufferSize budget)) = consumed
              have names : (connection.filled consumed.1).Names connection := ⟨rfl,rfl⟩
              have itself : (connection.filled consumed.1).Names (connection.filled consumed.1) := ⟨rfl,rfl⟩
              have kept : (server.keep (connection.filled consumed.1)).Live (connection.filled consumed.1) := keep_live
              have dispatches := dispatchAll_calm kept itself consumed.2.frames
              have calm := (Calm.kept (.filled live consumed.1) rfl names.symm rfl).trans dispatches
              rw [placed fd connection found] at calm
              rw [store_live live names]
              split
              · exact calm.trans (ih (walk_placed calm.walk placed))
              · exact calm

theorem writeConnection_calm (results : List SendResult) :
    Calm fd server (writeConnection fd server budget results) := by
  induction results generalizing server budget with
  | nil => exact .refl _ _
  | cons result rest ih =>
    simp only [writeConnection]
    split
    · exact .refl _ _
    · rename_i connection found
      split
      · exact .refl _ _
      · rename_i front queue queued
        split
        · exact .refl _ _
        · split
          · exact ih placed
          · exact .refl _ _
          · exact closeConnection_calm placed fd
          · split
            · exact closeConnection_calm placed fd
            · rename_i count some
              have live := placed.live found
              have names : (connection.transmitted front queue
                (min count (min (wrapSub front.length connection.writeOffset) budget))).Names connection := ⟨rfl,rfl⟩
              have within : min count (min (wrapSub front.length connection.writeOffset) budget) ≤
                wrapSub front.length connection.writeOffset := (Nat.min_le_right _ _).trans (Nat.min_le_left _ _)
              have move := Move.sent live queued (Nat.pos_of_ne_zero some) within
              have calm := Calm.kept move rfl names.symm rfl
              rw [placed fd connection found] at calm
              rw [store_live live names]
              exact calm.trans (ih (move.placed placed))

theorem addressee_live (found : server.addressee token = some connection) :
    server.Live connection ∧ connection.token = token := by
  unfold addressee at found
  split at found
  · cases found
  · rename_i fd _
    obtain ⟨there,same⟩ := Option.filter_eq_some_iff.mp found
    exact ⟨placed.live there,of_decide_eq_true same⟩

theorem complete_move (next : server.processing = completion::rest) :
    Move server ({server with processing := rest}.complete completion) ∧
      ({server with processing := rest}.complete completion).processing = rest := by
  have same : ({server with processing := rest}.settled completion).addressee completion.token = server.addressee completion.token := rfl
  simp only [complete,same]
  split
  · rename_i lost
    exact ⟨.orphaned next lost,rfl⟩
  · rename_i connection found
    have live : (server.taken completion rest).Live connection := (addressee_live placed found).1
    obtain ⟨bytes,serialized,fits,ran⟩ | ran := answer_live live
    · have there : (server.taken completion rest).answer connection completion = _ := ran
      exact there ▸ ⟨.answered next found serialized fits,rfl⟩
    · have there : (server.taken completion rest).answer connection completion = _ := ran
      exact there ▸ ⟨.flooded next found,rfl⟩

theorem completeAll_walk (next : server.processing = completions) :
    Walk server (server.completeAll completions) ∧ (server.completeAll completions).processing = [] := by
  induction completions generalizing server with
  | nil => exact ⟨.refl,next⟩
  | cons completion rest ih =>
    obtain ⟨move,left⟩ := complete_move placed next
    obtain ⟨walk,done⟩ := ih (move.placed placed) left
    exact ⟨.head move walk,done⟩

theorem processCompletions_walk (idle : server.processing = []) :
    Walk server server.processCompletions ∧ server.processCompletions.processing = [] := by
  have waits : server.elapse.processing = [] := by
    rw [elapse_same]
    exact idle
  have elapses : Calm 0 server server.elapse := elapse_calm server
  have walk := elapses.walk.tail (.swapped waits)
  obtain ⟨later,done⟩ := completeAll_walk (walk_placed walk placed) rfl
  exact ⟨walk.trans later,done⟩

end

theorem unused_absent (free : ¬server.unused fd = false) : server.connections.find? fd = none := by
  simp only [unused,Bool.not_eq_false,decide_eq_true_eq] at free
  exact free.2.2

theorem acceptConnections_path (placed : server.Placed) (results : List AcceptResult) :
    Path server (server.acceptConnections results) ∧ (server.acceptConnections results).processing = server.processing := by
  induction results generalizing server with
  | nil => exact ⟨.refl,rfl⟩
  | cons result rest ih =>
    cases result with
    | interrupted => exact ih placed
    | failed => exact ⟨.refl,rfl⟩
    | accepted fd =>
      simp only [acceptConnections]
      split
      · exact ⟨.refl,rfl⟩
      · rename_i free
        split
        · exact ih placed
        · have step := Step.opened (unused_absent free)
          have opened := step.placed placed
          split
          · obtain ⟨path,same⟩ := ih opened
            exact ⟨.head step path,same⟩
          · have closes := closeConnection_calm opened fd
            obtain ⟨path,same⟩ := ih (walk_placed closes.walk opened)
            exact ⟨.head step ((Walk.path closes.walk).trans path),same.trans closes.processing⟩

-- Between two handler calls no completion is being processed.
structure Idle (server : TcpServer) : Prop where
  placed : server.Placed
  idle : server.processing = []

theorem handleEvent_calm (placed : server.Placed) (listener : ready.fd ≠ server.listenerFd) (wake : ready.fd ≠ server.wakeFd)
    (around : Surroundings) : Calm ready.fd server (server.handleEvent ready around) := by
  unfold handleEvent
  rw [if_neg listener,if_neg wake]
  split
  · exact closeConnection_calm placed _
  · have reads : Calm ready.fd server (if ready.input then
        readConnection ready.fd server server.config.readBudgetPerEvent around.received else server) := by
      split
      · exact readConnection_calm placed _
      · exact .refl _ _
    generalize (if ready.input then readConnection ready.fd server server.config.readBudgetPerEvent around.received
      else server) = middle at reads
    have there := walk_placed reads.walk placed
    dsimp only
    split
    · exact reads
    · have writes : Calm ready.fd middle (if ready.output then
          writeConnection ready.fd middle middle.config.writeBudgetPerEvent around.sent else middle) := by
        split
        · exact writeConnection_calm there _
        · exact .refl _ _
      generalize (if ready.output then writeConnection ready.fd middle middle.config.writeBudgetPerEvent around.sent
        else middle) = last at writes
      split
      · exact (reads.trans writes).trans (closeConnection_calm (walk_placed writes.walk there) _)
      · exact reads.trans writes

theorem handleEvent_path (idle : server.Idle) (ready : Ready) (around : Surroundings) :
    Path server (server.handleEvent ready around) ∧ (server.handleEvent ready around).processing = [] := by
  by_cases listener : ready.fd = server.listenerFd
  · obtain ⟨path,same⟩ := acceptConnections_path idle.placed around.accepted
    rw [handleEvent,if_pos listener]
    exact ⟨path,same.trans idle.idle⟩
  · by_cases wake : ready.fd = server.wakeFd
    · obtain ⟨walk,done⟩ := processCompletions_walk idle.placed idle.idle
      rw [handleEvent,if_neg listener,if_pos wake]
      exact ⟨Walk.path walk,done⟩
    · have calm := handleEvent_calm idle.placed listener wake around
      exact ⟨Walk.path calm.walk,calm.processing.trans idle.idle⟩

theorem closeAll_walk (placed : server.Placed) (fds : List Nat) :
    Walk server (fds.foldl closeConnection server) ∧ (fds.foldl closeConnection server).processing = server.processing := by
  induction fds generalizing server with
  | nil => exact ⟨.refl,rfl⟩
  | cons fd rest ih =>
    have closes := closeConnection_calm placed fd
    obtain ⟨walk,same⟩ := ih (walk_placed closes.walk placed)
    exact ⟨closes.walk.trans walk,same.trans closes.processing⟩

theorem closing_walk (idle : server.Idle) (schedule : List (List WorkerStep)) :
    Walk server {server with schedule := schedule}.processCompletions.closeAllConnections ∧
      {server with schedule := schedule}.processCompletions.closeAllConnections.processing = [] := by
  have scheduled : Move server {server with schedule := schedule} := .scheduled schedule
  obtain ⟨walk,done⟩ := processCompletions_walk (scheduled.placed idle.placed) idle.idle
  obtain ⟨closes,same⟩ := closeAll_walk (walk_placed walk (scheduled.placed idle.placed))
    (Assoc.keys {server with schedule := schedule}.processCompletions.connections.bindings)
  exact ⟨.head scheduled (walk.trans closes),same.trans done⟩

theorem happen_path (idle : server.Idle) (event : Event) :
    Path server (server.happen event) ∧ (server.happen event).processing = [] := by
  cases event with
  | worked step => exact ⟨.single (.moved (.worked step)),idle.idle⟩
  | waited =>
    simp only [happen]
    split
    · exact ⟨.refl,idle.idle⟩
    · exact ⟨.single (.arranged _ _ _),idle.idle⟩
  | handled around =>
    simp only [happen]
    split
    · exact ⟨.refl,idle.idle⟩
    · rename_i ready rest _
      have arranged : Step server {server with batch := rest} := .arranged _ _ _
      have scheduled : Move {server with batch := rest} {server with batch := rest,schedule := around.schedule} := .scheduled _
      obtain ⟨path,done⟩ := handleEvent_path ⟨scheduled.placed (arranged.placed idle.placed),idle.idle⟩ ready around
      exact ⟨.head arranged (.head (.moved scheduled) path),done⟩
  | ended schedule =>
    simp only [happen]
    split
    · exact ⟨.refl,idle.idle⟩
    · obtain ⟨walk,done⟩ := closing_walk idle schedule
      exact ⟨(Walk.path walk).tail (.arranged false _ _),done⟩

theorem happen_idle (idle : server.Idle) (event : Event) : (server.happen event).Idle := by
  obtain ⟨path,done⟩ := happen_path idle event
  exact ⟨path_placed path idle.placed,done⟩

theorem start_initial {config : ReactorConfig} {listenerFd wakeFd : Nat} (started : start config listenerFd wakeFd = .ok server) :
    config.validationError = none ∧
      server = initial config listenerFd wakeFd ⟨config.globalOutstandingWork,config.globalQueuedWorkBytes,false,[],[],[],0,0⟩ := by
  unfold start RequestExecutor.create at started
  split at started
  · cases started
  · dsimp only [bind,Except.bind] at started
    split at started
    · cases started
    · rename_i valid
      cases started
      exact ⟨valid,rfl⟩

theorem start_idle {config : ReactorConfig} {listenerFd wakeFd : Nat} (started : start config listenerFd wakeFd = .ok server) : server.Idle := by
  obtain ⟨_,rfl⟩ := start_initial started
  exact ⟨(fun _ _ found => by cases found),rfl⟩

theorem live_idle {config : ReactorConfig} {listenerFd wakeFd : Nat} (started : start config listenerFd wakeFd = .ok server)
    (events : List Event) : (server.live events).Idle := by
  have idle := start_idle started
  clear started
  induction events generalizing server with
  | nil => exact idle
  | cons event rest ih => exact ih (happen_idle idle event)

theorem live_invariant (Holds : TcpServer → Prop) (keeps : ∀ {server after}, Step server after → server.Placed → Holds server → Holds after)
    (idle : server.Idle) (holds : Holds server) (events : List Event) : Holds (server.live events) := by
  induction events generalizing server with
  | nil => exact holds
  | cons event rest ih =>
    refine ih (happen_idle idle event) ?_
    have path := (happen_path idle event).1
    generalize server.happen event = last at path
    induction path with
    | refl => exact holds
    | tail before step kept => exact keeps step (path_placed before idle.placed) kept

end TcpServer
end ForgeKv.Server
