import ForgeKv.Library.Table
import ForgeKv.Server.Executor

namespace ForgeKv.Server
open Raft (Bytes)
open Protocol

-- The last three fields are for the proofs only: the frames that dispatch has
-- seen, which of them got which serialized response, and the bytes sent.
structure Connection where
  fd : Nat
  token : ConnectionToken
  parser : Parser
  writeQueue : List Bytes
  writeOffset : Nat
  bufferedOutputBytes : Nat
  pendingRequestCount : Nat
  readPaused : Bool
  backpressured : Bool
  read : List Frame
  answers : List (Nat × Bytes)
  sent : Bytes
deriving DecidableEq, Repr

namespace Connection

def fresh (fd : Nat) (token : ConnectionToken) : Connection := ⟨fd,token,.fresh,[],0,0,0,false,false,[],[],[]⟩

def filled (connection : Connection) (parser : Parser) : Connection := {connection with parser := parser}

def asked (connection : Connection) (frame : Frame) : Connection := {connection with read := connection.read ++ [frame]}

def queued (connection : Connection) (number : Nat) (bytes : Bytes) : Connection :=
  {connection with
    bufferedOutputBytes := connection.bufferedOutputBytes+bytes.length
    writeQueue := connection.writeQueue ++ [bytes]
    answers := connection.answers ++ [(number,bytes)]}

def pressed (connection : Connection) (backpressured : Bool) : Connection :=
  {connection with backpressured := backpressured,readPaused := backpressured}

-- The branch of write_connection in which send took count bytes of the front.
def transmitted (connection : Connection) (front : Bytes) (rest : List Bytes) (count : Nat) : Connection :=
  let offset := connection.writeOffset+count
  {connection with
    writeOffset := if offset = front.length then 0 else offset
    writeQueue := if offset = front.length then rest else front::rest
    bufferedOutputBytes := wrapSub connection.bufferedOutputBytes count
    sent := connection.sent ++ (front.drop connection.writeOffset).take count}

def counted (connection : Connection) : Connection :=
  {connection with pendingRequestCount := connection.pendingRequestCount+1}

def discounted (connection : Connection) : Connection :=
  {connection with pendingRequestCount := connection.pendingRequestCount-1}

def unsent (connection : Connection) : Bytes := connection.writeQueue.flatten.drop connection.writeOffset

end Connection

-- A frame that dispatch turned away, with its connection's counters at that moment.
structure Refusal where
  token : ConnectionToken
  pendingRequestCount : Nat
  bufferedOutputBytes : Nat
deriving DecidableEq, Repr

-- What has happened so far; no function looks at it. touched lists the accesses
-- to connections that were erased, underflows counts the completions that found
-- one of the two counters at zero.
structure History where
  erased : List Connection
  touched : List ConnectionToken
  refusals : List Refusal
  submitted : List Ticket
  processed : List Ticket
  underflows : Nat
deriving DecidableEq, Repr

-- The bits of epoll_event::events that handle_event looks at.
structure Ready where
  fd : Nat
  error : Bool
  hangUp : Bool
  input : Bool
  output : Bool
  readHangUp : Bool
deriving DecidableEq, Repr

-- processing is the local deque of process_completions, batch what is left of
-- the events of the last epoll_wait, reported the connections at that moment.
-- schedule says what the workers do before each access to what they share.
structure TcpServer where
  config : ReactorConfig
  listenerFd : Nat
  wakeFd : Nat
  running : Bool
  nextConnectionId : Nat
  nextGeneration : Nat
  globalOutstanding : Nat
  connections : Table Nat Connection
  tokenToFd : Table Nat Nat
  connectionsBackpressured : Nat
  exchange : Exchange
  processing : List Completion
  batch : List Ready
  reported : Table Nat Connection
  schedule : List (List WorkerStep)
  history : History

inductive RecvResult where
  | received (bytes : Bytes)
  | interrupted
  | wouldBlock
  | failed
deriving DecidableEq, Repr

inductive SendResult where
  | sent (count : Nat)
  | interrupted
  | wouldBlock
  | failed
deriving DecidableEq, Repr

-- With whether TCP_NODELAY could be set and whether epoll took the descriptor.
inductive AcceptResult where
  | accepted (fd : Nat) (nodelay registered : Bool)
  | interrupted
  | failed
deriving DecidableEq, Repr

-- What the system calls of one handler return; a list that runs out stands for would_block.
structure Surroundings where
  received : List RecvResult
  sent : List SendResult
  accepted : List AcceptResult
  schedule : List (List WorkerStep)
deriving DecidableEq, Repr

namespace TcpServer

def initial (config : ReactorConfig) (listenerFd wakeFd : Nat) (executor : RequestExecutor) : TcpServer where
  config := config
  listenerFd := listenerFd
  wakeFd := wakeFd
  running := true
  nextConnectionId := 1
  nextGeneration := 1
  globalOutstanding := 0
  connections := .empty
  tokenToFd := .empty
  connectionsBackpressured := 0
  exchange := ⟨executor,[],0,[]⟩
  processing := []
  batch := []
  reported := .empty
  schedule := []
  history := ⟨[],[],[],[],[],0⟩

def start (config : ReactorConfig) (listenerFd wakeFd : Nat) : Except String TcpServer := do
  let executor ← RequestExecutor.create config.workerThreads config.globalOutstandingWork config.globalQueuedWorkBytes
  match config.validationError with
  | some error => .error error
  | none => return initial config listenerFd wakeFd executor

-- The workers run until the reactor thread gets the lock.
def elapse (server : TcpServer) : TcpServer :=
  match server.schedule with
  | [] => server
  | steps::rest => {server with exchange := steps.foldl (Exchange.work server.config) server.exchange,schedule := rest}

def closeConnection (server : TcpServer) (fd : Nat) : TcpServer :=
  match server.connections.find? fd with
  | none => server
  | some connection =>
    {server with
      connectionsBackpressured :=
        if connection.backpressured then wrapSub server.connectionsBackpressured 1 else server.connectionsBackpressured
      tokenToFd := server.tokenToFd.erase connection.token.id
      connections := server.connections.erase fd
      history := {server.history with erased := server.history.erased ++ [connection]}}

-- The object that a net::Connection& names, unless it was erased.
def named (server : TcpServer) (reference : Connection) : Option Connection :=
  (server.connections.find? reference.fd).filter (·.token = reference.token)

-- An access through a net::Connection&. The memory of an erased object still
-- holds what was there last.
def touch (server : TcpServer) (reference : Connection) : TcpServer × Connection :=
  match server.named reference with
  | some connection => (server,connection)
  | none => ({server with history := {server.history with touched := server.history.touched ++ [reference.token]}},reference)

-- Writing to an erased object changes no connection.
def store (server : TcpServer) (connection : Connection) : TcpServer :=
  if (server.named connection).isSome then {server with connections := server.connections.assign connection.fd connection}
  else server

def queueResponse (server : TcpServer) (reference : Connection) (number : Nat) (frame : Frame) : TcpServer × Bool :=
  let (server,connection) := server.touch reference
  match serialize frame with
  | .error _ => (server.closeConnection connection.fd,false)
  | .ok bytes =>
    let limit := server.config.maxBufferedOutputPerConnection
    if limit-min connection.bufferedOutputBytes limit < bytes.length then (server.closeConnection connection.fd,false)
    else (server.store (connection.queued number bytes),true)

def setBackpressured (server : TcpServer) (reference : Connection) (backpressured : Bool) : TcpServer :=
  let (server,connection) := server.touch reference
  if connection.backpressured = backpressured then server
  else
    {server.store (connection.pressed backpressured) with
      connectionsBackpressured :=
        if backpressured then server.connectionsBackpressured+1 else wrapSub server.connectionsBackpressured 1}

def noted (server : TcpServer) (connection : Connection) : TcpServer :=
  let refusal : Refusal := ⟨connection.token,connection.pendingRequestCount,connection.bufferedOutputBytes⟩
  {server with history := {server.history with refusals := server.history.refusals ++ [refusal]}}

-- The two branches of dispatch that answer BUSY.
def refuse (server : TcpServer) (connection : Connection) (frame : Frame) : TcpServer × Bool :=
  let asked := connection.asked frame
  let (server,queued) :=
    ((server.noted connection).store asked).queueResponse asked connection.read.length (busyResponse (requestMetadata frame))
  (server.setBackpressured asked true,queued)

def booked (server : TcpServer) (connection : Connection) (executor : RequestExecutor) : TcpServer :=
  let ticket : Ticket := ⟨connection.token,connection.read.length⟩
  {server with
    exchange := {server.exchange with executor := executor}
    globalOutstanding := server.globalOutstanding+1
    history := {server.history with submitted := server.history.submitted ++ [ticket]}}

def full (server : TcpServer) (connection : Connection) : Bool :=
  server.config.maxRequestsInFlightPerConnection ≤ connection.pendingRequestCount

-- The rest of dispatch, once the executor has taken the request.
def submitted (server : TcpServer) (connection : Connection) (frame : Frame) (executor : RequestExecutor) : TcpServer × Bool :=
  let counted := (connection.asked frame).counted
  let server := (server.booked connection executor).store counted
  (if server.full counted then server.setBackpressured counted true else server,true)

def dispatch (server : TcpServer) (reference : Connection) (frame : Frame) : TcpServer × Bool :=
  let wireBytes := headerSize+frame.payload.length
  let (server,connection) := server.touch reference
  if server.config.maxRequestSize < wireBytes then (server.closeConnection connection.fd,false)
  else if server.full connection ∨ server.config.globalOutstandingWork ≤ server.globalOutstanding then
    server.refuse connection frame
  else
    let server := server.elapse
    match server.exchange.executor.trySubmit ⟨connection.token,frame,wireBytes,connection.read.length⟩ with
    | none => server.refuse connection frame
    | some executor => server.submitted connection frame executor

-- The loop over the frames of one batch; whether the caller goes on.
def dispatchAll (server : TcpServer) (reference : Connection) : List Frame → TcpServer × Bool
  | [] => (server,true)
  | frame::rest =>
    let (server,dispatched) := server.dispatch reference frame
    if dispatched = false ∧ server.connections.find? reference.fd = none then (server,false)
    else server.dispatchAll reference rest

def bufferSize : Nat := 64*1024

def readConnection (fd : Nat) : TcpServer → Nat → List RecvResult → TcpServer
  | server,_,[] => server
  | server,budget,result::rest =>
    match server.connections.find? fd with
    | none => server
    | some connection =>
      if budget = 0 ∨ connection.readPaused then server
      else match result with
        | .interrupted => readConnection fd server budget rest
        | .wouldBlock => server
        | .failed => server.closeConnection fd
        | .received bytes =>
          let chunk := bytes.take (min bufferSize budget)
          if chunk = [] then server.closeConnection fd
          else
            let (parser,batch) := connection.parser.consume chunk
            if batch.error ≠ none ∨ server.config.maxBufferedInputPerConnection < parser.bufferedBytes then
              server.closeConnection fd
            else
              let filled := connection.filled parser
              let (server,goes) := (server.store filled).dispatchAll filled batch.frames
              if goes then readConnection fd server (budget-chunk.length) rest else server

def writeConnection (fd : Nat) : TcpServer → Nat → List SendResult → TcpServer
  | server,_,[] => server
  | server,budget,result::rest =>
    match server.connections.find? fd with
    | none => server
    | some connection =>
      match connection.writeQueue with
      | [] => server
      | front::queue =>
        if budget = 0 then server
        else match result with
          | .interrupted => writeConnection fd server budget rest
          | .wouldBlock => server
          | .failed => server.closeConnection fd
          | .sent count =>
            let requested := min (wrapSub front.length connection.writeOffset) budget
            let count := min count requested
            if count = 0 then server.closeConnection fd
            else writeConnection fd (server.store (connection.transmitted front queue count)) (budget-count) rest

-- A counter is only lowered where it is positive.
def settled (server : TcpServer) (completion : Completion) : TcpServer :=
  {server with
    globalOutstanding := server.globalOutstanding-1
    history :=
      {server.history with
        processed := server.history.processed ++ [completion.ticket]
        underflows := server.history.underflows+(if 0 < server.globalOutstanding then 0 else 1)}}

def matched (server : TcpServer) (connection : Connection) : TcpServer :=
  {server with
    history :=
      {server.history with underflows := server.history.underflows+(if 0 < connection.pendingRequestCount then 0 else 1)}}

def resumes (server : TcpServer) (connection : Connection) : Bool :=
  connection.backpressured ∧ connection.pendingRequestCount < server.config.maxRequestsInFlightPerConnection ∧
    server.globalOutstanding < server.config.globalOutstandingWork

-- process_completions for a completion whose connection is there.
def answer (server : TcpServer) (connection : Connection) (completion : Completion) : TcpServer :=
  let (server,queued) :=
    ((server.matched connection).store connection.discounted).queueResponse connection.discounted completion.number completion.frame
  if queued = false then server
  else
    let (server,connection) := server.touch connection.discounted
    if server.resumes connection then server.setBackpressured connection false else server

-- The connection that a completion is for.
def addressee (server : TcpServer) (token : ConnectionToken) : Option Connection :=
  match server.tokenToFd.find? token.id with
  | none => none
  | some fd => (server.connections.find? fd).filter (·.token = token)

-- The body of the loop of process_completions.
def complete (server : TcpServer) (completion : Completion) : TcpServer :=
  match (server.settled completion).addressee completion.token with
  | none => server.settled completion
  | some connection => (server.settled completion).answer connection completion

def completeAll : TcpServer → List Completion → TcpServer
  | server,[] => server
  | server,completion::rest => completeAll ({server with processing := rest}.complete completion) rest

def swap (server : TcpServer) : TcpServer :=
  {server with
    processing := server.exchange.completions
    exchange := {server.exchange with completions := [],completionBytes := 0}}

def processCompletions (server : TcpServer) : TcpServer :=
  server.elapse.swap.completeAll server.elapse.swap.processing

def register (server : TcpServer) (fd : Nat) : TcpServer :=
  let token : ConnectionToken := ⟨server.nextConnectionId,server.nextGeneration⟩
  {server with
    nextConnectionId := server.nextConnectionId+1
    nextGeneration := server.nextGeneration+1
    connections := server.connections.emplace fd (.fresh fd token)
    tokenToFd := server.tokenToFd.emplace token.id fd}

-- accept4 never returns a descriptor that is in use.
def unused (server : TcpServer) (fd : Nat) : Bool :=
  fd ≠ server.listenerFd ∧ fd ≠ server.wakeFd ∧ server.connections.find? fd = none

def acceptConnections : TcpServer → List AcceptResult → TcpServer
  | server,[] => server
  | server,.interrupted::rest => acceptConnections server rest
  | server,.failed::_ => server
  | server,.accepted fd nodelay registered::rest =>
    if server.unused fd = false then server
    else if server.config.maxConnections ≤ server.connections.size ∨ nodelay = false then acceptConnections server rest
    else if registered then acceptConnections (server.register fd) rest
    else acceptConnections ((server.register fd).closeConnection fd) rest

def handleEvent (server : TcpServer) (ready : Ready) (around : Surroundings) : TcpServer :=
  if ready.fd = server.listenerFd then server.acceptConnections around.accepted
  else if ready.fd = server.wakeFd then server.processCompletions
  else if ready.error ∨ ready.hangUp then server.closeConnection ready.fd
  else
    let server :=
      if ready.input then readConnection ready.fd server server.config.readBudgetPerEvent around.received else server
    if server.connections.find? ready.fd = none then server
    else
      let server :=
        if ready.output then writeConnection ready.fd server server.config.writeBudgetPerEvent around.sent else server
      if server.connections.find? ready.fd ≠ none ∧ ready.readHangUp ∧ ready.input = false then
        server.closeConnection ready.fd
      else server

def closeAllConnections (server : TcpServer) : TcpServer :=
  (Assoc.keys server.connections.bindings).foldl closeConnection server

-- worked is a step of a worker between two handler calls, ended the end of run.
inductive Event where
  | worked (step : WorkerStep)
  | waited (batch : List Ready)
  | handled (around : Surroundings)
  | ended (schedule : List (List WorkerStep))
deriving DecidableEq, Repr

def happen (server : TcpServer) : Event → TcpServer
  | .worked step => {server with exchange := server.exchange.work server.config step}
  | .waited batch =>
    if server.running = false ∨ server.batch ≠ [] then server
    else {server with batch := batch.take server.config.maxEventsPerWait,reported := server.connections}
  | .handled around =>
    match server.batch with
    | [] => server
    | ready::rest => {server with batch := rest,schedule := around.schedule}.handleEvent ready around
  | .ended schedule =>
    if server.running = false ∨ server.batch ≠ [] then server
    else {{server with schedule := schedule}.processCompletions.closeAllConnections with running := false}

def live (server : TcpServer) (events : List Event) : TcpServer := events.foldl happen server

end TcpServer
end ForgeKv.Server
