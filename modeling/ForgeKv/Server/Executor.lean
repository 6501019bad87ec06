import Mathlib.Algebra.GroupWithZero.Nat
import Mathlib.Data.List.Perm.Basic
import ForgeKv.Protocol.Parser

namespace ForgeKv.Server
open Raft (Bytes)
open Protocol

-- std::size_t subtraction wraps around.
def wrapSub (left right : Nat) : Nat := if right ≤ left then left-right else left+2^64-right

theorem wrapSub_le (inside : right ≤ left) : wrapSub left right = left-right := if_pos inside

structure ReactorConfig where
  maxRequestSize : Nat
  maxBufferedInputPerConnection : Nat
  maxBufferedOutputPerConnection : Nat
  maxRequestsInFlightPerConnection : Nat
  globalOutstandingWork : Nat
  globalQueuedWorkBytes : Nat
  maxConnections : Nat
  maxEventsPerWait : Nat
  readBudgetPerEvent : Nat
  writeBudgetPerEvent : Nat
  workerThreads : Nat
deriving DecidableEq, Repr

def ReactorConfig.validationError (config : ReactorConfig) : Option String :=
  if config.maxRequestSize < headerSize ∨ maxFrameSize < config.maxRequestSize then
    some "max_request_size is outside protocol bounds"
  else if config.maxBufferedInputPerConnection < config.maxRequestSize then
    some "input buffer limit is smaller than one maximum request"
  else if config.maxBufferedOutputPerConnection < headerSize then
    some "output buffer limit is smaller than one frame header"
  else if config.maxRequestsInFlightPerConnection = 0 then
    some "per-connection in-flight limit must be positive"
  else if config.globalOutstandingWork < config.maxRequestsInFlightPerConnection then
    some "global work limit is smaller than the per-connection limit"
  else if config.globalQueuedWorkBytes < config.maxRequestSize then
    some "global work byte limit is smaller than one maximum request"
  else if config.maxConnections = 0 ∨ config.maxEventsPerWait = 0 ∨ config.readBudgetPerEvent = 0 ∨
      config.writeBudgetPerEvent = 0 ∨ config.workerThreads = 0 then
    some "reactor counts, budgets, and worker count must be positive"
  else none

def ReactorConfig.initial : ReactorConfig where
  maxRequestSize := maxFrameSize
  maxBufferedInputPerConnection := maxFrameSize
  maxBufferedOutputPerConnection := 4*maxFrameSize
  maxRequestsInFlightPerConnection := 64
  globalOutstandingWork := 4096
  globalQueuedWorkBytes := 64*1024*1024
  maxConnections := 10000
  maxEventsPerWait := 256
  readBudgetPerEvent := 256*1024
  writeBudgetPerEvent := 256*1024
  workerThreads := 4

structure ConnectionToken where
  id : Nat
  generation : Nat
deriving DecidableEq, Repr

structure RequestMetadata where
  messageNamespace : Namespace
  messageType : MessageType
  requestId : UInt64
deriving DecidableEq, Repr

-- One request of one connection: its place among the frames read from there.
structure Ticket where
  token : ConnectionToken
  number : Nat
deriving DecidableEq, Repr

-- The number is for the proofs only: no function looks at it.
structure Request where
  token : ConnectionToken
  frame : Frame
  wireBytes : Nat
  number : Nat
deriving DecidableEq, Repr

structure Completion where
  token : ConnectionToken
  request : RequestMetadata
  frame : Frame
  number : Nat
deriving DecidableEq, Repr

def Request.ticket (request : Request) : Ticket := ⟨request.token,request.number⟩
def Completion.ticket (completion : Completion) : Ticket := ⟨completion.token,completion.number⟩

def requestMetadata (frame : Frame) : RequestMetadata := ⟨frame.messageNamespace,frame.messageType,frame.requestId⟩

def busyResponse (request : RequestMetadata) : Frame := ⟨.client,.busy,0,request.requestId,[0,0,0,0]⟩

def text (message : String) : Bytes := message.toList.map (fun character => UInt8.ofNat character.toNat)

def errorResponse (request : Frame) (message : Option Bytes) : Frame :=
  ⟨.client,.error,0,request.requestId,(message.getD (text "handler failure")).take 1024⟩

-- What one call of the handler does: it returns, or throws a std::exception or something else.
inductive Outcome where
  | returned (response : Frame)
  | threw (what : Option Bytes)
  | unknown
deriving DecidableEq, Repr

def Outcome.response (request : Frame) : Outcome → Frame
  | .returned response => response
  | .threw what => errorResponse request what
  | .unknown => errorResponse request (some (text "unknown handler failure"))

-- working holds the requests whose handler runs, delivering the completions on
-- their way to the sink: the local variables of the workers.
structure RequestExecutor where
  maxItems : Nat
  maxBytes : Nat
  stopping : Bool
  queue : List Request
  working : List Request
  delivering : List Completion
  outstandingItems : Nat
  outstandingBytes : Nat
deriving DecidableEq, Repr

namespace RequestExecutor

def create (workerCount maxItems maxBytes : Nat) : Except String RequestExecutor :=
  if workerCount = 0 ∨ maxItems = 0 ∨ maxBytes = 0 then .error "request executor requires positive limits and callbacks"
  else .ok ⟨maxItems,maxBytes,false,[],[],[],0,0⟩

def trySubmit (executor : RequestExecutor) (request : Request) : Option RequestExecutor :=
  if executor.stopping ∨ executor.maxItems ≤ executor.outstandingItems ∨
      wrapSub executor.maxBytes executor.outstandingBytes < request.wireBytes then none
  else
    some {executor with
      outstandingItems := executor.outstandingItems+1
      outstandingBytes := executor.outstandingBytes+request.wireBytes
      queue := executor.queue ++ [request]}

-- The first lock of worker_loop.
def take (executor : RequestExecutor) (workerCount : Nat) : RequestExecutor :=
  match executor.queue with
  | [] => executor
  | request::rest =>
    if executor.working.length+executor.delivering.length < workerCount then
      {executor with queue := rest,working := executor.working ++ [request]}
    else executor

-- The handler, and the second lock of worker_loop.
def finish (executor : RequestExecutor) (index : Nat) (request : Request) (outcome : Outcome) : RequestExecutor :=
  {executor with
    working := executor.working.eraseIdx index
    delivering := executor.delivering ++ [⟨request.token,requestMetadata request.frame,outcome.response request.frame,request.number⟩]
    outstandingItems := wrapSub executor.outstandingItems 1
    outstandingBytes := wrapSub executor.outstandingBytes request.wireBytes}

def unfinished (executor : RequestExecutor) : List Request := executor.queue ++ executor.working

end RequestExecutor

inductive WorkerStep where
  | take
  | finish (index : Nat) (outcome : Outcome)
  | deliver (index : Nat)
  | stop
deriving DecidableEq, Repr

structure Handled where
  ticket : Ticket
  outcome : Outcome
deriving DecidableEq, Repr

-- What the workers and the reactor thread share, and which calls of the handler have returned.
structure Exchange where
  executor : RequestExecutor
  completions : List Completion
  completionBytes : Nat
  handled : List Handled
deriving DecidableEq, Repr

namespace Exchange

def postCompletion (config : ReactorConfig) (exchange : Exchange) (completion : Completion) : Exchange :=
  let completionBytes := headerSize+completion.frame.payload.length
  let frame :=
    if config.globalQueuedWorkBytes-min exchange.completionBytes config.globalQueuedWorkBytes < completionBytes then
      busyResponse completion.request
    else completion.frame
  {exchange with
    completionBytes := exchange.completionBytes+(headerSize+frame.payload.length)
    completions := exchange.completions ++ [{completion with frame := frame}]}

def work (config : ReactorConfig) (exchange : Exchange) : WorkerStep → Exchange
  | .take => {exchange with executor := exchange.executor.take config.workerThreads}
  | .finish index outcome =>
    match exchange.executor.working[index]? with
    | none => exchange
    | some request =>
      {exchange with
        executor := exchange.executor.finish index request outcome
        handled := exchange.handled ++ [⟨request.ticket,outcome⟩]}
  | .deliver index =>
    match exchange.executor.delivering[index]? with
    | none => exchange
    | some completion =>
      let executor := {exchange.executor with delivering := exchange.executor.delivering.eraseIdx index}
      {exchange with executor := executor}.postCompletion config completion
  | .stop => {exchange with executor := {exchange.executor with stopping := true}}

def posted (exchange : Exchange) : List Completion := exchange.executor.delivering ++ exchange.completions

-- The requests that are with the workers or on the way back.
def tickets (exchange : Exchange) : List Ticket :=
  exchange.executor.unfinished.map Request.ticket ++ exchange.posted.map Completion.ticket

end Exchange

-- The frame is a response to the request: BUSY, or what came of its handler.
def Response (handled : List Handled) (ticket : Ticket) (request frame : Frame) : Prop :=
  frame = busyResponse (requestMetadata request) ∨ ∃ outcome, ⟨ticket,outcome⟩ ∈ handled ∧ frame = outcome.response request

def Completion.Answers (handled : List Handled) (completion : Completion) (request : Frame) : Prop :=
  completion.request = requestMetadata request ∧ Response handled completion.ticket request completion.frame

theorem Response.mono (response : Response handled ticket request frame) (more : handled ⊆ later) :
    Response later ticket request frame := by
  obtain busy | ⟨outcome,ran,same⟩ := response
  · exact .inl busy
  · exact .inr ⟨outcome,more ran,same⟩

-- The counters of the executor are those of its unfinished requests.
structure RequestExecutor.Balanced (config : ReactorConfig) (executor : RequestExecutor) : Prop where
  maxItems : executor.maxItems = config.globalOutstandingWork
  maxBytes : executor.maxBytes = config.globalQueuedWorkBytes
  items : executor.outstandingItems = executor.unfinished.length
  bytes : executor.outstandingBytes = (executor.unfinished.map Request.wireBytes).sum
  within : executor.outstandingBytes ≤ config.globalQueuedWorkBytes

-- What is under way for a connection belongs to the frames read from it.
structure Exchange.Serves (exchange : Exchange) (token : ConnectionToken) (read : List Frame) : Prop where
  asked : ∀ request ∈ exchange.executor.unfinished, request.token = token → read[request.number]? = some request.frame
  replied : ∀ completion ∈ exchange.posted, completion.token = token →
    ∃ request, read[completion.number]? = some request ∧ completion.Answers exchange.handled request

variable {config : ReactorConfig} {exchange : Exchange} {executor after : RequestExecutor} {request : Request} {outcome : Outcome}

theorem Completion.Answers.mono {completion : Completion} {frame : Frame} (answers : completion.Answers handled frame)
    (more : handled ⊆ later) : completion.Answers later frame :=
  ⟨answers.1,answers.2.mono more⟩

theorem perm_eraseIdx {items : List Item} (found : items[index]? = some item) : items.Perm (item::items.eraseIdx index) := by
  obtain ⟨inside,rfl⟩ := List.getElem?_eq_some_iff.mp found
  exact (List.getElem_cons_eraseIdx_perm inside).symm

namespace RequestExecutor

theorem take_unfinished (executor : RequestExecutor) (workerCount : Nat) :
    (executor.take workerCount).unfinished.Perm executor.unfinished := by
  unfold take
  split
  · exact .refl _
  · rename_i request rest queued
    split
    · simp only [unfinished,queued,List.cons_append]
      rw [← List.append_assoc]
      exact List.perm_append_singleton request (rest ++ executor.working)
    · exact .refl _

theorem take_same (executor : RequestExecutor) (workerCount : Nat) :
    executor.take workerCount =
      {executor with queue := (executor.take workerCount).queue,working := (executor.take workerCount).working} := by
  unfold take
  split
  · rfl
  · split <;> rfl

theorem take_delivering (executor : RequestExecutor) (workerCount : Nat) :
    (executor.take workerCount).delivering = executor.delivering := by rw [take_same]

theorem finish_unfinished (outcome : Outcome) (found : executor.working[index]? = some request) :
    executor.unfinished.Perm (request::(executor.finish index request outcome).unfinished) :=
  ((perm_eraseIdx found).append_left executor.queue).trans List.perm_middle

namespace Balanced

theorem of_perm (balanced : executor.Balanced config) (perm : after.unfinished.Perm executor.unfinished)
    (same : after = {executor with queue := queued,working := busy,delivering := done,stopping := ends}) : after.Balanced config := by
  refine ⟨?_,?_,?_,?_,?_⟩
  · rw [same]
    exact balanced.maxItems
  · rw [same]
    exact balanced.maxBytes
  · rw [perm.length_eq,← balanced.items,same]
  · rw [(perm.map _).sum_nat,← balanced.bytes,same]
  · rw [same]
    exact balanced.within

-- Neither subtraction wraps: the request is one of those counted.
theorem finish (balanced : executor.Balanced config) (found : executor.working[index]? = some request) :
    (executor.finish index request outcome).Balanced config := by
  have perm := finish_unfinished outcome found
  have count := perm.length_eq
  have sum := (perm.map Request.wireBytes).sum_nat
  simp only [List.length_cons,List.map_cons,List.sum_cons] at count sum
  have items := balanced.items
  have bytes := balanced.bytes
  have fewer : (executor.finish index request outcome).outstandingBytes = executor.outstandingBytes-request.wireBytes :=
    wrapSub_le (by omega)
  refine ⟨balanced.maxItems,balanced.maxBytes,?_,?_,?_⟩
  · have less : (executor.finish index request outcome).outstandingItems = executor.outstandingItems-1 := wrapSub_le (by omega)
    omega
  · omega
  · exact fewer ▸ (Nat.sub_le _ _).trans balanced.within

theorem submit (balanced : executor.Balanced config) (taken : executor.trySubmit request = some after) :
    after.Balanced config ∧ executor.outstandingItems < config.globalOutstandingWork ∧
      after.unfinished.Perm (request::executor.unfinished) ∧ after.delivering = executor.delivering := by
  unfold trySubmit at taken
  split at taken
  · cases taken
  · rename_i room
    cases taken
    rw [balanced.maxBytes,wrapSub_le balanced.within,balanced.maxItems] at room
    have perm : (executor.queue ++ [request] ++ executor.working).Perm (request::(executor.queue ++ executor.working)) := by
      rw [List.append_assoc]
      exact List.perm_middle
    have limit := balanced.within
    have items := balanced.items
    have bytes := balanced.bytes
    refine ⟨⟨balanced.maxItems,balanced.maxBytes,?_,?_,?_⟩,?_,perm,rfl⟩
    · simp only [unfinished,perm.length_eq,List.length_cons,items]
    · simp only [unfinished,(perm.map _).sum_nat,List.map_cons,List.sum_cons,bytes]
      omega
    · simp only
      omega
    · omega

end Balanced
end RequestExecutor

namespace Exchange

theorem work_balanced (balanced : exchange.executor.Balanced config) (step : WorkerStep) :
    (work config exchange step).executor.Balanced config := by
  cases step with
  | take => exact balanced.of_perm (RequestExecutor.take_unfinished _ _) (RequestExecutor.take_same _ _)
  | finish =>
    simp only [work]
    split
    · exact balanced
    · rename_i request found
      exact balanced.finish found
  | deliver =>
    simp only [work]
    split
    · exact balanced
    · exact balanced.of_perm (.refl _) rfl
  | stop => exact balanced.of_perm (.refl _) rfl

theorem work_tickets (config : ReactorConfig) (exchange : Exchange) (step : WorkerStep) :
    (exchange.work config step).tickets.Perm exchange.tickets := by
  cases step with
  | take =>
    have perm := (RequestExecutor.take_unfinished exchange.executor config.workerThreads).map Request.ticket
    simp only [work,tickets,posted,RequestExecutor.take_delivering]
    exact perm.append_right _
  | finish index outcome =>
    simp only [work]
    split
    · exact .refl _
    · rename_i request found
      refine List.perm_iff_count.mpr fun ticket => ?_
      have count := ((RequestExecutor.finish_unfinished outcome found).map Request.ticket).count_eq ticket
      have same : (Request.ticket request) = ⟨request.token,request.number⟩ := rfl
      simp only [tickets,posted,List.count_append,List.map_append,count,List.map_cons,List.count_cons]
      simp [RequestExecutor.finish,Completion.ticket,same,List.count_cons]
      omega
  | deliver =>
    simp only [work]
    split
    · exact .refl _
    · rename_i completion found
      refine List.perm_iff_count.mpr fun ticket => ?_
      have count := ((perm_eraseIdx found).map Completion.ticket).count_eq ticket
      simp only [tickets,posted,List.count_append,List.map_append,count,List.map_cons,List.count_cons]
      simp [postCompletion,RequestExecutor.unfinished,Completion.ticket,List.count_cons]
      omega
  | stop => exact .refl _

theorem submit_posted (delivering : executor.delivering = exchange.executor.delivering) :
    ({exchange with executor := executor} : Exchange).posted = exchange.posted := by
  simp only [posted,delivering]

theorem submit_tickets (perm : executor.unfinished.Perm (request::exchange.executor.unfinished))
    (delivering : executor.delivering = exchange.executor.delivering) :
    ({exchange with executor := executor} : Exchange).tickets.Perm (request.ticket::exchange.tickets) := by
  simp only [tickets,submit_posted delivering]
  exact (perm.map Request.ticket).append_right _

theorem postCompletion_completions (config : ReactorConfig) (exchange : Exchange) (completion : Completion) :
    ∃ frame, (exchange.postCompletion config completion).completions = exchange.completions ++ [{completion with frame := frame}] ∧
      (frame = busyResponse completion.request ∨ frame = completion.frame) := by
  refine ⟨_,rfl,?_⟩
  split
  · exact .inl rfl
  · exact .inr rfl

theorem work_handled (config : ReactorConfig) (exchange : Exchange) (step : WorkerStep) :
    exchange.handled ⊆ (exchange.work config step).handled := by
  cases step with
  | finish =>
    simp only [work]
    split
    · exact fun _ member => member
    · exact fun _ member => List.mem_append_left _ member
  | deliver =>
    simp only [work]
    split <;> exact fun _ member => member
  | take | stop => exact fun _ member => member

theorem Serves.work (serves : exchange.Serves token frames) (step : WorkerStep) : (exchange.work config step).Serves token frames := by
  cases step with
  | take =>
    have perm := RequestExecutor.take_unfinished exchange.executor config.workerThreads
    refine ⟨fun request member => serves.asked request (perm.mem_iff.mp member),fun completion member => serves.replied completion ?_⟩
    simpa [posted,Exchange.work,RequestExecutor.take_delivering] using member
  | finish index outcome =>
    simp only [Exchange.work]
    split
    · exact serves
    · rename_i request found
      have perm := RequestExecutor.finish_unfinished outcome found
      have more : exchange.handled ⊆ exchange.handled ++ [⟨request.ticket,outcome⟩] := List.subset_append_left _ _
      refine ⟨fun other member => serves.asked other (perm.mem_iff.mpr (List.mem_cons_of_mem _ member)),fun completion member own => ?_⟩
      -- The one completion that is new answers the request that was finished.
      have either : completion ∈ exchange.posted ∨
          completion = ⟨request.token,requestMetadata request.frame,outcome.response request.frame,request.number⟩ := by
        simpa [posted,RequestExecutor.finish,or_assoc,or_comm,or_left_comm] using member
      obtain old | rfl := either
      · obtain ⟨frame,place,answers⟩ := serves.replied completion old own
        exact ⟨frame,place,answers.mono more⟩
      · have place := serves.asked request (perm.mem_iff.mpr List.mem_cons_self) own
        exact ⟨request.frame,place,rfl,.inr ⟨outcome,List.mem_append_right _ List.mem_cons_self,rfl⟩⟩
  | deliver index =>
    simp only [Exchange.work]
    split
    · exact serves
    · rename_i completion found
      refine ⟨serves.asked,fun other member own => ?_⟩
      have either : other ∈ exchange.posted ∨ ∃ frame, other = {completion with frame := frame} ∧
          (frame = busyResponse completion.request ∨ frame = completion.frame) := by
        obtain ⟨frame,same,whence⟩ := postCompletion_completions config
          {exchange with executor := {exchange.executor with delivering := exchange.executor.delivering.eraseIdx index}} completion
        obtain first | second := List.mem_append.mp member
        · exact .inl (List.mem_append_left _ (List.mem_of_mem_eraseIdx first))
        · rw [same,List.mem_append,List.mem_singleton] at second
          exact second.imp (List.mem_append_right _) fun last => ⟨frame,last,whence⟩
      obtain old | ⟨frame,rfl,whence⟩ := either
      · exact serves.replied other old own
      · have before : completion ∈ exchange.posted := List.mem_append_left _ (List.mem_of_getElem? found)
        obtain ⟨request,place,metadata,response⟩ := serves.replied completion before own
        refine ⟨request,place,metadata,?_⟩
        obtain rfl | rfl := whence
        · exact .inl (by rw [metadata])
        · exact response
  | stop => exact ⟨serves.asked,serves.replied⟩

end Exchange
end ForgeKv.Server
