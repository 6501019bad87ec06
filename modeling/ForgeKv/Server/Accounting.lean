import Mathlib.Data.List.Nodup
import ForgeKv.Protocol.FrameStream
import ForgeKv.Server.Moves

namespace ForgeKv.Server
open Raft (Bytes)
open Protocol

-- The requests of one connection.
def own (tickets : List Ticket) (token : ConnectionToken) : List Ticket := tickets.filter (·.token = token)

-- What was sent and what is queued are the responses to requests read from the connection.
structure Connection.Recorded (handled : List Handled) (connection : Connection) : Prop where
  offset : connection.writeOffset = 0 ∨ ∃ front rest, connection.writeQueue = front::rest ∧ connection.writeOffset < front.length
  filled : ∀ bytes ∈ connection.writeQueue, 0 < bytes.length
  written : connection.sent ++ connection.unsent = (connection.answers.map Prod.snd).flatten
  once : (connection.answers.map Prod.fst).Nodup
  genuine : ∀ answer ∈ connection.answers, ∃ request frame, connection.read[answer.1]? = some request ∧
    Response handled ⟨connection.token,answer.1⟩ request frame ∧ serialize frame = .ok answer.2

-- The counters of a connection are those of what is under way for it.
structure Connection.Kept (config : ReactorConfig) (exchange : Exchange) (processing : List Completion) (connection : Connection) :
    Prop where
  recorded : connection.Recorded exchange.handled
  pending : connection.pendingRequestCount =
    (own (exchange.tickets ++ processing.map Completion.ticket) connection.token).length
  limit : connection.pendingRequestCount ≤ config.maxRequestsInFlightPerConnection
  buffered : connection.bufferedOutputBytes = connection.unsent.length
  room : connection.bufferedOutputBytes ≤ config.maxBufferedOutputPerConnection
  fresh : (connection.answers.map Prod.fst ++
    (own (exchange.tickets ++ processing.map Completion.ticket) connection.token).map Ticket.number).Nodup
  served : exchange.Serves connection.token connection.read
  replying : ∀ completion ∈ processing, completion.token = connection.token →
    ∃ request, connection.read[completion.number]? = some request ∧ completion.Answers exchange.handled request

theorem own_cons_same {ticket : Ticket} (same : ticket.token = token) (tickets : List Ticket) :
    own (ticket::tickets) token = ticket::own tickets token := by
  simp [own,same]

theorem own_cons_other {ticket : Ticket} (different : ticket.token ≠ token) (tickets : List Ticket) :
    own (ticket::tickets) token = own tickets token := by
  simp [own,different]

theorem own_perm {first second : List Ticket} (perm : first.Perm second) (token : ConnectionToken) :
    (own first token).Perm (own second token) :=
  perm.filter _

namespace Connection
variable {config : ReactorConfig} {exchange later : Exchange} {processing left : List Completion} {connection : Connection}
  {handled : List Handled}

section
variable (recorded : connection.Recorded handled)
include recorded

theorem Recorded.mono (more : handled ⊆ wider) : connection.Recorded wider where
  __ := recorded
  genuine answer member := by
    obtain ⟨request,frame,place,response,serialized⟩ := recorded.genuine answer member
    exact ⟨request,frame,place,response.mono more,serialized⟩

theorem Recorded.offset_le : connection.writeOffset ≤ connection.writeQueue.flatten.length := by
  obtain zero | ⟨front,rest,queue,inside⟩ := recorded.offset
  · rw [zero]
    exact Nat.zero_le _
  · rw [queue,List.flatten_cons,List.length_append]
    omega

theorem Recorded.unsent_queued (number : Nat) (bytes : Bytes) :
    (connection.queued number bytes).unsent = connection.unsent ++ bytes := by
  simp only [unsent,queued,List.flatten_append,List.flatten_singleton]
  exact List.drop_append_of_le_length recorded.offset_le

theorem Recorded.queued (new : number ∉ connection.answers.map Prod.fst)
    (place : connection.read[number]? = some request) (response : Response handled ⟨connection.token,number⟩ request frame)
    (serialized : serialize frame = .ok bytes) : (connection.queued number bytes).Recorded handled where
  offset := by
    refine recorded.offset.imp id ?_
    rintro ⟨front,rest,queue,inside⟩
    exact ⟨front,rest ++ [bytes],by simp [Connection.queued,queue],inside⟩
  filled other member := by
    obtain old | new := List.mem_append.mp member
    · exact recorded.filled other old
    · cases List.mem_singleton.mp new
      exact Nat.lt_of_lt_of_le (by decide) (serialize_length serialized)
  written := by
    rw [recorded.unsent_queued]
    simp [Connection.queued,← recorded.written]
  once := by
    have apart : (connection.answers.map Prod.fst ++ [number]).Nodup :=
      List.nodup_append.mpr ⟨recorded.once,List.nodup_singleton _,fun other member last only => by
        rw [List.mem_singleton.mp only]
        exact fun same => new (same ▸ member)⟩
    simpa [Connection.queued] using apart
  genuine answer member := by
    obtain old | new := List.mem_append.mp member
    · exact recorded.genuine answer old
    · cases List.mem_singleton.mp new
      exact ⟨request,frame,place,response,serialized⟩

end

theorem asked_place {number : Nat} (place : connection.read[number]? = some request) (frame : Frame) :
    (connection.asked frame).read[number]? = some request := by
  obtain ⟨inside,_⟩ := List.getElem?_eq_some_iff.mp place
  simpa [asked,List.getElem?_append_left inside] using place

theorem asked_last (connection : Connection) (frame : Frame) :
    (connection.asked frame).read[connection.read.length]? = some frame := by
  simp [asked]

theorem Recorded.asked (recorded : connection.Recorded handled) (frame : Frame) : (connection.asked frame).Recorded handled where
  __ := recorded
  genuine answer member := by
    obtain ⟨request,response,place,whence,serialized⟩ := recorded.genuine answer member
    exact ⟨request,response,asked_place place frame,whence,serialized⟩

section transmitted
variable (recorded : connection.Recorded handled) (queue : connection.writeQueue = front::rest)
include recorded queue

theorem Recorded.offset_lt : connection.writeOffset < front.length := by
  obtain zero | ⟨first,others,same,inside⟩ := recorded.offset
  · rw [zero]
    exact recorded.filled front (queue ▸ List.mem_cons_self)
  · rw [queue] at same
    cases same
    exact inside

theorem Recorded.unsent_front : connection.unsent = front.drop connection.writeOffset ++ rest.flatten := by
  have inside := recorded.offset_lt queue
  simp only [unsent,queue,List.flatten_cons]
  exact List.drop_append_of_le_length inside.le

theorem Recorded.unsent_transmitted (within : count ≤ front.length-connection.writeOffset) :
    (connection.transmitted front rest count).unsent = connection.unsent.drop count := by
  have inside := recorded.offset_lt queue
  have size : count ≤ (front.drop connection.writeOffset).length := by rwa [List.length_drop]
  rw [recorded.unsent_front queue,List.drop_append_of_le_length size,List.drop_drop]
  simp only [unsent,transmitted]
  split
  · rename_i whole
    rw [whole,List.drop_length,List.nil_append,List.drop_zero]
  · have short : connection.writeOffset+count ≤ front.length := by omega
    rw [List.flatten_cons,List.drop_append_of_le_length short]

theorem Recorded.transmitted (within : count ≤ front.length-connection.writeOffset) :
    (connection.transmitted front rest count).Recorded handled where
  offset := by
    have inside := recorded.offset_lt queue
    simp only [Connection.transmitted]
    split
    · exact .inl rfl
    · exact .inr ⟨front,rest,rfl,by omega⟩
  filled bytes member := by
    refine recorded.filled bytes (queue ▸ ?_)
    simp only [Connection.transmitted] at member
    split at member
    · exact List.mem_cons_of_mem _ member
    · exact member
  written := by
    have size : count ≤ (front.drop connection.writeOffset).length := by rwa [List.length_drop]
    have piece : (front.drop connection.writeOffset).take count = connection.unsent.take count := by
      rw [recorded.unsent_front queue,List.take_append_of_le_length size]
    rw [recorded.unsent_transmitted queue within]
    simp only [Connection.transmitted,piece,List.append_assoc,List.take_append_drop]
    exact recorded.written
  __ := recorded

end transmitted

theorem Recorded.press (recorded : connection.Recorded handled) (backpressured : Bool) :
    (connection.press backpressured).Recorded handled := by
  unfold Connection.press
  split
  · exact recorded
  · exact {recorded with}

namespace Kept

section
variable (kept : connection.Kept config exchange processing)
include kept

theorem transfer (same : (own (later.tickets ++ left.map Completion.ticket) connection.token).Perm
      (own (exchange.tickets ++ processing.map Completion.ticket) connection.token))
    (more : exchange.handled ⊆ later.handled) (served : later.Serves connection.token connection.read)
    (replying : ∀ completion ∈ left, completion.token = connection.token →
      ∃ request, connection.read[completion.number]? = some request ∧ completion.Answers later.handled request) :
    connection.Kept config later left where
  recorded := kept.recorded.mono more
  pending := kept.pending.trans same.length_eq.symm
  __ := kept
  fresh := ((same.map Ticket.number).append_left _).nodup_iff.mpr kept.fresh
  served := served
  replying := replying

theorem press (backpressured : Bool) :
    (connection.press backpressured).Kept config exchange processing := by
  have recorded := kept.recorded.press backpressured
  unfold Connection.press at recorded ⊢
  split
  · exact kept
  · rename_i different
    rw [if_neg different] at recorded
    exact ⟨recorded,kept.pending,kept.limit,kept.buffered,kept.room,kept.fresh,kept.served,kept.replying⟩

theorem filled (parser : Parser) :
    (connection.filled parser).Kept config exchange processing :=
  have recorded := kept.recorded
  ⟨{recorded with},kept.pending,kept.limit,kept.buffered,
    kept.room,kept.fresh,kept.served,kept.replying⟩

theorem transmitted (queue : connection.writeQueue = front::rest)
    (within : count ≤ wrapSub front.length connection.writeOffset) :
    (connection.transmitted front rest count).Kept config exchange processing := by
  have inside := kept.recorded.offset_lt queue
  rw [wrapSub_le inside.le] at within
  have unsent := kept.recorded.unsent_transmitted queue within
  have size : count ≤ connection.unsent.length := by
    rw [kept.recorded.unsent_front queue,List.length_append,List.length_drop]
    omega
  -- The bytes sent were counted, so the subtraction does not wrap.
  have fewer : (connection.transmitted front rest count).bufferedOutputBytes = connection.bufferedOutputBytes-count :=
    wrapSub_le (kept.buffered ▸ size)
  refine ⟨kept.recorded.transmitted queue within,kept.pending,kept.limit,?_,?_,kept.fresh,kept.served,kept.replying⟩
  · rw [fewer,unsent,List.length_drop,kept.buffered]
  · exact fewer ▸ (Nat.sub_le _ _).trans kept.room

theorem place (member : ticket ∈ own (exchange.tickets ++ processing.map Completion.ticket) connection.token) :
    ticket.number < connection.read.length := by
  have inside : ∀ {number : Nat} {frame : Frame}, connection.read[number]? = some frame → number < connection.read.length :=
    fun place => (List.getElem?_eq_some_iff.mp place).1
  obtain ⟨there,same⟩ := List.mem_filter.mp member
  have token : ticket.token = connection.token := of_decide_eq_true same
  simp only [Exchange.tickets,List.mem_append,List.mem_map] at there
  obtain (⟨request,unfinished,rfl⟩ | ⟨completion,posted,rfl⟩) | ⟨completion,processed,rfl⟩ := there
  · exact inside (kept.served.asked request unfinished token)
  · obtain ⟨request,place,_⟩ := kept.served.replied completion posted token
    exact inside place
  · obtain ⟨request,place,_⟩ := kept.replying completion processed token
    exact inside place

theorem new : connection.read.length ∉
    connection.answers.map Prod.fst ++
      (own (exchange.tickets ++ processing.map Completion.ticket) connection.token).map Ticket.number := by
  intro member
  obtain answered | waits := List.mem_append.mp member
  · obtain ⟨answer,there,same⟩ := List.mem_map.mp answered
    obtain ⟨request,-,place,_⟩ := kept.recorded.genuine answer there
    have inside := (List.getElem?_eq_some_iff.mp place).1
    omega
  · obtain ⟨ticket,there,same⟩ := List.mem_map.mp waits
    have inside := kept.place there
    omega

theorem asked (frame : Frame) :
    (connection.asked frame).Kept config exchange processing where
  recorded := kept.recorded.asked frame
  __ := kept
  served :=
    ⟨fun request member token => asked_place (kept.served.asked request member token) frame,fun completion member token => by
      obtain ⟨request,place,answers⟩ := kept.served.replied completion member token
      exact ⟨request,asked_place place frame,answers⟩⟩
  replying completion member token := by
    obtain ⟨request,place,answers⟩ := kept.replying completion member token
    exact ⟨request,asked_place place frame,answers⟩

theorem queued (new : number ∉ connection.answers.map Prod.fst ++
      (own (exchange.tickets ++ processing.map Completion.ticket) connection.token).map Ticket.number)
    (place : connection.read[number]? = some request)
    (response : Response exchange.handled ⟨connection.token,number⟩ request frame)
    (serialized : serialize frame = .ok bytes) (fits : connection.Fits config bytes) :
    (connection.queued number bytes).Kept config exchange processing where
  recorded := kept.recorded.queued (fun member => new (List.mem_append_left _ member)) place response serialized
  __ := kept
  buffered := by
    rw [kept.recorded.unsent_queued,List.length_append,← kept.buffered]
    rfl
  room := by
    have room := kept.room
    simp only [Fits,Nat.min_eq_left room] at fits
    simp only [Connection.queued]
    omega
  fresh := by
    simp only [Connection.queued,List.map_append,List.map_cons,List.map_nil,List.append_assoc,List.singleton_append]
    exact List.perm_middle.nodup_iff.mpr (List.nodup_cons.mpr ⟨new,kept.fresh⟩)

theorem admitted (frame : Frame) {executor : RequestExecutor}
    (perm : executor.unfinished.Perm
      (⟨connection.token,frame,wireBytes,connection.read.length⟩::exchange.executor.unfinished))
    (delivering : executor.delivering = exchange.executor.delivering)
    (room : connection.pendingRequestCount < config.maxRequestsInFlightPerConnection) :
    (connection.asked frame).counted.Kept config {exchange with executor := executor} processing := by
  have asked := kept.asked frame
  have posted := Exchange.submit_posted delivering
  have tickets := (Exchange.submit_tickets perm delivering).append_right (processing.map Completion.ticket)
  have mine := own_perm tickets connection.token
  have head : (Request.ticket ⟨connection.token,frame,wireBytes,connection.read.length⟩).token = connection.token := rfl
  rw [List.cons_append,own_cons_same head] at mine
  refine ⟨⟨asked.recorded.offset,asked.recorded.filled,asked.recorded.written,asked.recorded.once,asked.recorded.genuine⟩,
    ?_,room,asked.buffered,asked.room,?_,⟨?_,?_⟩,asked.replying⟩
  · have count := mine.length_eq
    rw [List.length_cons,← kept.pending] at count
    exact count.symm
  · refine ((mine.map Ticket.number).append_left _).nodup_iff.mpr ?_
    exact List.perm_middle.nodup_iff.mpr (List.nodup_cons.mpr ⟨kept.new,kept.fresh⟩)
  · intro request member token
    obtain rfl | old := List.mem_cons.mp (perm.mem_iff.mp member)
    · exact asked_last connection frame
    · exact asked.served.asked request old token
  · intro completion member token
    exact asked.served.replied completion (posted ▸ member) token

end

theorem discounted (kept : connection.Kept config exchange (completion::left)) (token : completion.token = connection.token) :
    connection.discounted.Kept config exchange left ∧ 0 < connection.pendingRequestCount ∧
      completion.number ∉ connection.answers.map Prod.fst ++
        (own (exchange.tickets ++ left.map Completion.ticket) connection.token).map Ticket.number := by
  have perm : (exchange.tickets ++ (completion::left).map Completion.ticket).Perm
    (completion.ticket::(exchange.tickets ++ left.map Completion.ticket)) := List.perm_middle
  have mine := own_perm perm connection.token
  have head : completion.ticket.token = connection.token := token
  rw [own_cons_same head] at mine
  have count := mine.length_eq
  rw [← kept.pending,List.length_cons] at count
  have fresh := ((mine.map Ticket.number).append_left (connection.answers.map Prod.fst)).nodup_iff.mp kept.fresh
  obtain ⟨apart,others⟩ := List.nodup_cons.mp (List.perm_middle.nodup_iff.mp fresh)
  have recorded := kept.recorded
  refine ⟨⟨{recorded with},?_,(Nat.sub_le _ _).trans kept.limit,
    kept.buffered,kept.room,others,kept.served,fun other member => kept.replying other (List.mem_cons_of_mem _ member)⟩,?_,apart⟩
  · simp only [Connection.discounted]
    omega
  · omega

end Kept
end Connection

namespace TcpServer

def tickets (server : TcpServer) : List Ticket := server.exchange.tickets ++ server.processing.map Completion.ticket

structure Books (server : TcpServer) : Prop where
  filed : ∀ connection, server.Live connection → server.tokenToFd.find? connection.token.id = some connection.fd
  known : ∀ id fd, server.tokenToFd.find? id = some fd → id < server.nextConnectionId
  issued : ∀ ticket ∈ server.tickets, ticket.token.id < server.nextConnectionId
  executor : server.exchange.executor.Balanced server.config
  conserved : server.history.submitted.Perm (server.history.processed ++ server.tickets)
  outstanding : server.globalOutstanding = server.tickets.length
  within : server.globalOutstanding ≤ server.config.globalOutstandingWork
  erased : ∀ connection ∈ server.history.erased, connection.Recorded server.exchange.handled
  unfailing : server.history.underflows = 0

structure Accounts (server : TcpServer) : Prop where
  books : server.Books
  kept : ∀ connection, server.Live connection → connection.Kept server.config server.exchange server.processing

variable {server after : TcpServer} {connection changed other : Connection} {frame : Frame} {completion : Completion}
  {rest : List Completion}

theorem live_keep : (server.keep changed).Live other ↔ other = changed ∨ (other.fd ≠ changed.fd ∧ server.Live other) := by
  unfold Live keep
  by_cases same : other.fd = changed.fd
  · simp [same,eq_comm]
  · simp only [Table.find?_assign_of_ne same,same,ne_eq,not_false_eq_true,true_and]
    refine ⟨.inr,?_⟩
    rintro (rfl | live)
    · exact absurd rfl same
    · exact live

theorem live_drop : (server.drop changed).Live other ↔ other.fd ≠ changed.fd ∧ server.Live other := by
  unfold Live drop
  by_cases same : other.fd = changed.fd
  · simp [same]
  · simp [Table.find?_erase_of_ne same,same]

theorem live_register (absent : server.connections.find? fd = none) :
    (server.register fd).Live other ↔
      other = .fresh fd ⟨server.nextConnectionId,server.nextGeneration⟩ ∨ (other.fd ≠ fd ∧ server.Live other) := by
  have fresh : (server.register fd).connections =
      server.connections.assign fd (.fresh fd ⟨server.nextConnectionId,server.nextGeneration⟩) := Table.emplace_new absent
  have kept : (server.register fd).Live other ↔
    (server.keep (.fresh fd ⟨server.nextConnectionId,server.nextGeneration⟩)).Live other := by
    unfold Live
    rw [fresh]
    rfl
  exact kept.trans live_keep

namespace Books

section
variable (books : server.Books)
include books

theorem apart (live : server.Live connection) (there : server.Live other) (different : other.fd ≠ connection.fd) :
    other.token.id ≠ connection.token.id := by
  intro same
  have first := books.filed other there
  rw [same,books.filed connection live] at first
  exact different (Option.some.inj first).symm

theorem keep (live : server.Live connection) (names : changed.Names connection) : (server.keep changed).Books where
  filed other there := by
    obtain rfl | ⟨_,there⟩ := live_keep.mp there
    · rw [names.1,names.2]
      exact books.filed connection live
    · exact books.filed other there
  __ := books

theorem drop (live : server.Live connection) (names : changed.Names connection)
    (recorded : changed.Recorded server.exchange.handled) : (server.drop changed).Books where
  filed other there := by
    obtain ⟨different,there⟩ := live_drop.mp there
    have tokens : other.token.id ≠ changed.token.id := by
      rw [names.2]
      exact books.apart live there (names.1 ▸ different)
    exact (Table.find?_erase_of_ne tokens).trans (books.filed other there)
  known id fd found := by
    by_cases same : id = changed.token.id
    · subst same
      cases Table.find?_erase_self.symm.trans found
    · exact books.known id fd ((Table.find?_erase_of_ne same).symm.trans found)
  __ := books
  erased other member := by
    obtain old | new := List.mem_append.mp member
    · exact books.erased other old
    · cases List.mem_singleton.mp new
      exact recorded

theorem register (absent : server.connections.find? fd = none) : (server.register fd).Books := by
  have unused : server.tokenToFd.find? server.nextConnectionId = none := by
    cases found : server.tokenToFd.find? server.nextConnectionId with
    | none => rfl
    | some place => exact absurd (books.known _ place found) (Nat.lt_irrefl _)
  have filed : (server.register fd).tokenToFd = server.tokenToFd.assign server.nextConnectionId fd := Table.emplace_new unused
  refine ⟨?_,?_,fun ticket member => (books.issued ticket member).trans (Nat.lt_succ_self _),books.executor,books.conserved,
    books.outstanding,books.within,books.erased,books.unfailing⟩
  · intro other there
    rw [filed]
    obtain rfl | ⟨_,there⟩ := (live_register absent).mp there
    · exact Table.find?_assign_self
    · have older := books.known _ _ (books.filed other there)
      exact (Table.find?_assign_of_ne older.ne).trans (books.filed other there)
  · intro id place found
    rw [filed] at found
    by_cases same : id = server.nextConnectionId
    · exact same ▸ Nat.lt_succ_self _
    · exact (books.known id place ((Table.find?_assign_of_ne same).symm.trans found)).trans (Nat.lt_succ_self _)

theorem exchanged {exchange : Exchange} {processing : List Completion}
    (perm : (exchange.tickets ++ processing.map Completion.ticket).Perm server.tickets)
    (executor : exchange.executor.Balanced server.config) (more : server.exchange.handled ⊆ exchange.handled) :
    Books {server with exchange := exchange,processing := processing} where
  __ := books
  issued ticket member := books.issued ticket (perm.mem_iff.mp member)
  executor := executor
  conserved := books.conserved.trans (perm.symm.append_left _)
  outstanding := books.outstanding.trans perm.length_eq.symm
  erased other member := (books.erased other member).mono more

theorem booked (live : server.Live connection) {executor : RequestExecutor}
    (space : server.globalOutstanding < server.config.globalOutstandingWork)
    (perm : (({server.exchange with executor := executor} : Exchange).tickets ++ server.processing.map Completion.ticket).Perm
      (⟨connection.token,connection.read.length⟩::server.tickets))
    (balanced : executor.Balanced server.config) : (server.booked connection executor).Books where
  __ := books
  issued ticket member := by
    obtain rfl | old := List.mem_cons.mp (perm.mem_iff.mp member)
    · exact books.known _ _ (books.filed connection live)
    · exact books.issued ticket old
  executor := balanced
  conserved := by
    have grown := books.conserved.append_right [(⟨connection.token,connection.read.length⟩ : Ticket)]
    refine grown.trans ?_
    rw [List.append_assoc]
    exact ((List.perm_append_singleton _ _).trans perm.symm).append_left _
  outstanding := by
    have count := perm.length_eq
    rw [List.length_cons,← books.outstanding] at count
    exact count.symm
  within := space

theorem taken (next : server.processing = completion::rest) : (server.taken completion rest).Books := by
  have perm : server.tickets.Perm (completion.ticket::(server.taken completion rest).tickets) := by
    unfold tickets
    rw [next]
    exact List.perm_middle
  have count := perm.length_eq
  rw [List.length_cons,← books.outstanding] at count
  have positive : 0 < server.globalOutstanding := count ▸ Nat.succ_pos _
  refine ⟨books.filed,books.known,fun ticket member => books.issued ticket (perm.mem_iff.mpr (List.mem_cons_of_mem _ member)),
    books.executor,?_,?_,(Nat.sub_le _ _).trans books.within,books.erased,?_⟩
  · refine (books.conserved.trans (perm.append_left _)).trans ?_
    exact (List.append_assoc (server.history.processed) [completion.ticket] _).symm ▸ .refl _
  · change server.globalOutstanding-1 = _
    omega
  · change server.history.underflows+(if 0 < server.globalOutstanding then 0 else 1) = 0
    rw [if_pos positive,books.unfailing]

theorem matched (positive : 0 < connection.pendingRequestCount) : (server.matched connection).Books := by
  refine ⟨books.filed,books.known,books.issued,books.executor,books.conserved,books.outstanding,books.within,books.erased,?_⟩
  change server.history.underflows+(if 0 < connection.pendingRequestCount then 0 else 1) = 0
  rw [if_pos positive,books.unfailing]

end

end Books

theorem addressee_none (books : server.Books) (lost : server.addressee token = none) (there : server.Live other) :
    other.token ≠ token := by
  intro same
  have found : server.connections.find? other.fd = some other := there
  have filed := books.filed other there
  rw [same] at filed
  simp [addressee,filed,found,same] at lost

namespace Accounts

section
variable (accounts : server.Accounts)
include accounts

theorem keep (live : server.Live connection) (names : changed.Names connection)
    (kept : changed.Kept server.config server.exchange server.processing) : (server.keep changed).Accounts := by
  refine ⟨accounts.books.keep live names,fun other there => ?_⟩
  obtain rfl | ⟨_,there⟩ := live_keep.mp there
  · exact kept
  · exact accounts.kept other there

theorem drop (live : server.Live connection) (names : changed.Names connection)
    (recorded : changed.Recorded server.exchange.handled) : (server.drop changed).Accounts := by
  refine ⟨accounts.books.drop live names recorded,fun other there => ?_⟩
  exact accounts.kept other (live_drop.mp there).2

theorem worked (step : WorkerStep) :
    Accounts {server with exchange := server.exchange.work server.config step} := by
  have perm := (Exchange.work_tickets server.config server.exchange step).append_right (server.processing.map Completion.ticket)
  have more := Exchange.work_handled server.config server.exchange step
  refine ⟨accounts.books.exchanged perm (Exchange.work_balanced accounts.books.executor step) more,fun other there => ?_⟩
  have kept := accounts.kept other there
  refine kept.transfer (own_perm perm _) more (kept.served.work step) fun completion member token => ?_
  obtain ⟨request,place,answers⟩ := kept.replying completion member token
  exact ⟨request,place,answers.mono more⟩

theorem swapped (idle : server.processing = []) : server.swap.Accounts := by
  have perm : (({server.exchange with completions := [],completionBytes := 0} : Exchange).tickets ++
      server.exchange.completions.map Completion.ticket).Perm server.tickets := by
    simp [tickets,Exchange.tickets,Exchange.posted,idle,RequestExecutor.unfinished]
  refine ⟨accounts.books.exchanged perm accounts.books.executor (List.Subset.refl _),fun other there => ?_⟩
  have kept := accounts.kept other there
  have posted : ∀ completion, completion ∈ server.exchange.completions → completion ∈ server.exchange.posted :=
    fun _ member => List.mem_append_right _ member
  refine kept.transfer (own_perm perm _) (List.Subset.refl _) ⟨kept.served.asked,fun completion member => ?_⟩ fun completion member => ?_
  · refine kept.served.replied completion (List.mem_append_left _ ?_)
    simpa [Exchange.posted,swap] using member
  · exact kept.served.replied completion (posted completion member)

theorem opened (absent : server.connections.find? fd = none) : (server.register fd).Accounts := by
  have books := accounts.books
  refine ⟨books.register absent,fun other there => ?_⟩
  obtain rfl | ⟨_,there⟩ := (live_register absent).mp there
  · -- No request carries the new token.
    have none : ∀ ticket ∈ server.tickets, ticket.token ≠ ⟨server.nextConnectionId,server.nextGeneration⟩ := by
      intro ticket member same
      have older := books.issued ticket member
      rw [same] at older
      exact Nat.lt_irrefl _ older
    have nothing : own server.tickets ⟨server.nextConnectionId,server.nextGeneration⟩ = [] :=
      List.filter_eq_nil_iff.mpr fun ticket member same => none ticket member (of_decide_eq_true same)
    have mine : own (server.exchange.tickets ++ server.processing.map Completion.ticket)
      (Connection.fresh fd ⟨server.nextConnectionId,server.nextGeneration⟩).token = [] := nothing
    refine ⟨⟨.inl rfl,(fun _ member => by cases member),rfl,List.nodup_nil,(fun _ member => by cases member)⟩,?_,Nat.zero_le _,rfl,
      Nat.zero_le _,?_,⟨?_,?_⟩,?_⟩
    · exact (congrArg List.length mine).symm
    · exact mine ▸ List.nodup_nil
    · intro request member same
      refine absurd same (none request.ticket ?_)
      exact List.mem_append_left _ (List.mem_append_left _ (List.mem_map_of_mem member))
    · intro completion member same
      refine absurd same (none completion.ticket ?_)
      exact List.mem_append_left _ (List.mem_append_right _ (List.mem_map_of_mem member))
    · intro completion member same
      refine absurd same (none completion.ticket ?_)
      exact List.mem_append_right _ (List.mem_map_of_mem member)
  · exact accounts.kept other there

theorem refused (live : server.Live connection)
    (serialized : serialize (busyResponse (requestMetadata frame)) = .ok bytes) (fits : connection.Fits server.config bytes) :
    (server.refused connection frame bytes).Accounts := by
  have kept := accounts.kept connection live
  have queued := (kept.asked frame).queued kept.new (Connection.asked_last connection frame) (.inl rfl) serialized fits
  have names : connection.Names ((connection.asked frame).queued connection.read.length bytes) := ⟨rfl,rfl⟩
  have kept := accounts.keep live (names.press true).symm (queued.press true)
  exact ⟨{kept.books with},kept.kept⟩

theorem evicted (live : server.Live connection) (frame : Frame) :
    (server.evicted connection frame).Accounts := by
  have names : (connection.asked frame).Names connection := ⟨rfl,rfl⟩
  have recorded := (accounts.kept connection live).recorded.asked frame
  have left := accounts.drop live names recorded
  exact ⟨{left.books with},left.kept⟩

theorem admitted (live : server.Live connection)
    (room : connection.pendingRequestCount < server.config.maxRequestsInFlightPerConnection)
    (space : server.globalOutstanding < server.config.globalOutstandingWork)
    (taken : server.exchange.executor.trySubmit
      ⟨connection.token,frame,headerSize+frame.payload.length,connection.read.length⟩ = some executor) :
    (server.admitted connection frame executor).Accounts := by
  have books := accounts.books
  obtain ⟨balanced,_,perm,delivering⟩ := books.executor.submit taken
  have tickets := (Exchange.submit_tickets perm delivering).append_right (server.processing.map Completion.ticket)
  have booked : (server.booked connection executor).Books := books.booked live space tickets balanced
  have others : ∀ other, server.Live other → other.fd ≠ connection.fd →
      other.Kept server.config {server.exchange with executor := executor} server.processing := by
    intro other there different
    have kept := accounts.kept other there
    have apart : connection.token ≠ other.token := fun same => books.apart live there different (congrArg ConnectionToken.id same.symm)
    have mine := own_perm tickets other.token
    rw [List.cons_append,own_cons_other apart] at mine
    refine kept.transfer mine (List.Subset.refl _) ⟨fun request member token => ?_,fun completion member => ?_⟩ kept.replying
    · obtain rfl | old := List.mem_cons.mp (perm.mem_iff.mp member)
      · exact absurd token apart
      · exact kept.served.asked request old token
    · exact kept.served.replied completion (Exchange.submit_posted delivering ▸ member)
  have counts : connection.Names (connection.asked frame).counted := ⟨rfl,rfl⟩
  have counted := (accounts.kept connection live).admitted frame perm delivering room
  have place : ∀ changed : Connection, connection.Names changed →
      changed.Kept server.config {server.exchange with executor := executor} server.processing →
      ((server.booked connection executor).keep changed).Accounts := by
    intro changed names kept
    refine ⟨booked.keep live names.symm,fun other there => ?_⟩
    obtain rfl | ⟨different,there⟩ := live_keep.mp there
    · exact kept
    · exact others other there (names.1 ▸ different)
  dsimp only [TcpServer.admitted]
  split
  · have placed := place _ (counts.press true) (counted.press true)
    exact ⟨{placed.books with},placed.kept⟩
  · have placed := place _ counts counted
    exact ⟨{placed.books with},placed.kept⟩

theorem taken_others (next : server.processing = completion::rest) (there : server.Live other)
    (apart : other.token ≠ completion.token) : other.Kept server.config server.exchange rest := by
  have kept := accounts.kept other there
  rw [next] at kept
  have perm : (server.exchange.tickets ++ (completion::rest).map Completion.ticket).Perm
    (completion.ticket::(server.exchange.tickets ++ rest.map Completion.ticket)) := List.perm_middle
  have mine := own_perm perm other.token
  have different : completion.ticket.token ≠ other.token := apart.symm
  rw [own_cons_other different] at mine
  exact kept.transfer mine.symm (List.Subset.refl _) kept.served fun completion member =>
    kept.replying completion (List.mem_cons_of_mem _ member)

theorem orphaned (next : server.processing = completion::rest)
    (lost : server.addressee completion.token = none) : (server.taken completion rest).Accounts :=
  ⟨accounts.books.taken next,fun _ there => accounts.taken_others next there (addressee_none accounts.books lost there)⟩

end

section addressed
variable (accounts : server.Accounts) (next : server.processing = completion::rest) (live : server.Live connection)
  (token : connection.token = completion.token)
include accounts next live token

theorem addressed : connection.discounted.Kept server.config server.exchange rest ∧ 0 < connection.pendingRequestCount ∧
    completion.number ∉ connection.answers.map Prod.fst ++
      (own (server.exchange.tickets ++ rest.map Completion.ticket) connection.token).map Ticket.number := by
  have kept := accounts.kept connection live
  rw [next] at kept
  exact kept.discounted token.symm

theorem addressed_books : ((server.taken completion rest).matched connection).Books :=
  (accounts.books.taken next).matched (accounts.addressed next live token).2.1

theorem addressed_others (there : server.Live other) (different : other.fd ≠ connection.fd) :
    other.Kept server.config server.exchange rest :=
  accounts.taken_others next there fun same =>
    accounts.books.apart live there different (congrArg ConnectionToken.id (same.trans token.symm))

theorem flooded : (((server.taken completion rest).matched connection).drop connection.discounted).Accounts := by
  have books := accounts.addressed_books next live token
  have names : connection.discounted.Names connection := ⟨rfl,rfl⟩
  refine ⟨books.drop live names (accounts.addressed next live token).1.recorded,fun other there => ?_⟩
  obtain ⟨different,there⟩ := live_drop.mp there
  exact accounts.addressed_others next live token there different

theorem answered (serialized : serialize completion.frame = .ok bytes) (fits : connection.Fits server.config bytes) :
    ((server.taken completion rest).answered connection completion bytes).Accounts := by
  have books := accounts.addressed_books next live token
  obtain ⟨kept,_,new⟩ := accounts.addressed next live token
  have before := accounts.kept connection live
  rw [next] at before
  obtain ⟨request,place,_,response⟩ := before.replying completion List.mem_cons_self token.symm
  have ticket : completion.ticket = ⟨connection.token,completion.number⟩ := by rw [token,Completion.ticket]
  rw [ticket] at response
  have queued := kept.queued new place response serialized fits
  have names : connection.Names (connection.discounted.queued completion.number bytes) := ⟨rfl,rfl⟩
  have put : ∀ changed : Connection, connection.Names changed → changed.Kept server.config server.exchange rest →
      (((server.taken completion rest).matched connection).keep changed).Accounts := by
    intro changed names kept
    refine ⟨books.keep live names.symm,fun other there => ?_⟩
    obtain rfl | ⟨different,there⟩ := live_keep.mp there
    · exact kept
    · exact accounts.addressed_others next live token there (names.1 ▸ different)
  dsimp only [TcpServer.answered]
  split
  · have placed := put _ (names.press false) (queued.press false)
    exact ⟨{placed.books with},placed.kept⟩
  · have placed := put _ names queued
    exact ⟨{placed.books with},placed.kept⟩

end addressed
end Accounts

theorem Move.accounts (move : Move server after) (placed : server.Placed) (accounts : server.Accounts) : after.Accounts := by
  have itself : ∀ connection : Connection, connection.Names connection := fun _ => ⟨rfl,rfl⟩
  have books := accounts.books
  cases move with
  | worked step => exact accounts.worked step
  | scheduled => exact ⟨{books with},accounts.kept⟩
  | closed live => exact accounts.drop live (itself _) (accounts.kept _ live).recorded
  | filled live parser => exact accounts.keep live ⟨rfl,rfl⟩ ((accounts.kept _ live).filled parser)
  | sent live queue positive within => exact accounts.keep live ⟨rfl,rfl⟩ ((accounts.kept _ live).transmitted queue within)
  | refused live serialized fits => exact accounts.refused live serialized fits
  | evicted live => exact accounts.evicted live _
  | admitted live room space taken => exact accounts.admitted live room space taken
  | swapped idle => exact accounts.swapped idle
  | orphaned next lost => exact accounts.orphaned next lost
  | answered next found serialized fits =>
    obtain ⟨live,token⟩ := addressee_live placed found
    exact accounts.answered next live token serialized fits
  | flooded next found =>
    obtain ⟨live,token⟩ := addressee_live placed found
    exact accounts.flooded next live token

theorem Step.accounts (step : Step server after) (placed : server.Placed) (accounts : server.Accounts) : after.Accounts := by
  have books := accounts.books
  cases step with
  | moved move => exact move.accounts placed accounts
  | arranged => exact ⟨{books with},accounts.kept⟩
  | opened absent => exact accounts.opened absent

theorem Step.config (step : Step server after) : after.config = server.config := by
  cases step with
  | moved move => cases move <;> rfl
  | arranged | opened => rfl

theorem start_accounts {config : ReactorConfig} {listenerFd wakeFd : Nat} (started : start config listenerFd wakeFd = .ok server) :
    server.Accounts ∧ server.config = config := by
  obtain ⟨_,rfl⟩ := start_initial started
  refine ⟨⟨⟨?_,?_,?_,⟨rfl,rfl,rfl,rfl,Nat.zero_le _⟩,.refl _,rfl,Nat.zero_le _,?_,rfl⟩,?_⟩,rfl⟩
  · exact fun _ wrong => by cases wrong
  · exact fun _ _ wrong => by cases wrong
  · exact fun _ wrong => by cases wrong
  · exact fun _ wrong => by cases wrong
  · exact fun _ wrong => by cases wrong

theorem live_accounts {config : ReactorConfig} {listenerFd wakeFd : Nat} (started : start config listenerFd wakeFd = .ok server)
    (events : List Event) : (server.live events).Accounts ∧ (server.live events).config = config :=
  live_invariant (fun server => server.Accounts ∧ server.config = config)
    (fun step placed holds => ⟨step.accounts placed holds.1,step.config.trans holds.2⟩) (start_idle started)
    (start_accounts started) events

-- The books as they stand between two handler calls.
structure Reckons (config : ReactorConfig) (server : TcpServer) : Prop where
  conserved : server.history.submitted.Perm (server.history.processed ++ server.exchange.tickets)
  outstanding : server.globalOutstanding = server.exchange.tickets.length
  within : server.globalOutstanding ≤ config.globalOutstandingWork
  executing : server.exchange.executor.outstandingItems ≤ server.globalOutstanding
  pending : ∀ fd connection, server.connections.find? fd = some connection →
    connection.pendingRequestCount = (own server.exchange.tickets connection.token).length ∧
      connection.pendingRequestCount ≤ config.maxRequestsInFlightPerConnection
  guarded : server.history.underflows = 0
  bytes : server.exchange.executor.outstandingBytes = (server.exchange.executor.unfinished.map Request.wireBytes).sum ∧
    server.exchange.executor.outstandingBytes ≤ config.globalQueuedWorkBytes
  buffered : ∀ fd connection, server.connections.find? fd = some connection →
    connection.bufferedOutputBytes = connection.unsent.length ∧
      connection.bufferedOutputBytes ≤ config.maxBufferedOutputPerConnection
  routed : ∀ connection, (∃ fd, server.connections.find? fd = some connection) ∨ connection ∈ server.history.erased →
    connection.sent <+: (connection.answers.map Prod.snd).flatten ∧ (connection.answers.map Prod.fst).Nodup ∧
      ∀ answer ∈ connection.answers, ∃ request frame, connection.read[answer.1]? = some request ∧
        Response server.exchange.handled ⟨connection.token,answer.1⟩ request frame ∧ serialize frame = .ok answer.2

theorem Accounts.reckons (accounts : server.Accounts) (idle : server.Idle) : server.Reckons server.config := by
  have books := accounts.books
  have tickets : server.tickets = server.exchange.tickets := by simp [TcpServer.tickets,idle.idle]
  have kept := fun fd connection (found : server.connections.find? fd = some connection) =>
    accounts.kept connection (idle.placed.live found)
  simp only [idle.idle] at kept
  refine ⟨tickets ▸ books.conserved,tickets ▸ books.outstanding,books.within,?_,?_,books.unfailing,
    ⟨books.executor.bytes,books.executor.within⟩,?_,?_⟩
  · rw [books.executor.items,books.outstanding,tickets,Exchange.tickets,List.length_append,List.length_map]
    exact Nat.le_add_right _ _
  · intro fd connection found
    have one := kept fd connection found
    exact ⟨by simpa using one.pending,one.limit⟩
  · intro fd connection found
    exact ⟨(kept fd connection found).buffered,(kept fd connection found).room⟩
  · intro connection either
    have recorded : connection.Recorded server.exchange.handled := by
      obtain ⟨fd,found⟩ | gone := either
      · exact (kept fd connection found).recorded
      · exact books.erased connection gone
    exact ⟨⟨connection.unsent,recorded.written⟩,recorded.once,recorded.genuine⟩

theorem reactor_accounting (config : ReactorConfig) (listenerFd wakeFd : Nat) (server : TcpServer)
    (started : start config listenerFd wakeFd = .ok server) (events : List Event) : (server.live events).Reckons config := by
  obtain ⟨accounts,same⟩ := live_accounts started events
  exact same ▸ accounts.reckons (live_idle started events)

def wire (frame : Frame) : Bytes :=
  match serialize frame with
  | .ok bytes => bytes
  | .error _ => []

def ping (requestId : UInt64) : Frame := ⟨.client,.ping,0,requestId,[]⟩

def readable (fd : Nat) : Ready := ⟨fd,false,false,true,false,false⟩
def hangsUp (fd : Nat) : Ready := ⟨fd,false,true,false,false,false⟩
def writable (fd : Nat) : Ready := ⟨fd,false,false,false,true,false⟩

-- The listener has descriptor 3, the wake descriptor is 4.
def beginning (config : ReactorConfig) : TcpServer :=
  initial config 3 4 ⟨config.globalOutstandingWork,config.globalQueuedWorkBytes,false,[],[],[],0,0⟩

def connects (fd : Nat) : List Event := [.waited [readable 3],.handled ⟨[],[],[.accepted fd true true],[]⟩]
def sends (fd : Nat) (bytes : Bytes) : List Event := [.waited [readable fd],.handled ⟨[.received bytes],[],[],[]⟩]
def serves (outcome : Outcome) : List Event := [.worked .take,.worked (.finish 0 outcome),.worked (.deliver 0)]
def wakes : List Event := [.waited [readable 4],.handled ⟨[],[],[],[]⟩]

-- Two requests, one of them answered and its answer sent in part.
def halfway : List Event :=
  connects 5 ++ sends 5 (wire (ping 1) ++ wire (ping 2)) ++ serves (.returned ⟨.client,.ok,0,1,[]⟩) ++ wakes ++
    [.waited [writable 5],.handled ⟨[],[.sent 10],[],[]⟩]

theorem reactor_accounting_halfway : ∃ server, start .initial 3 4 = .ok server ∧ (server.live halfway).Reckons .initial ∧
    (server.live halfway).globalOutstanding = 1 ∧
    (server.live halfway).connections.bindings.map (fun binding =>
      (binding.1,binding.2.pendingRequestCount,binding.2.bufferedOutputBytes,binding.2.sent.length)) = [(5,1,14,10)] :=
  ⟨_,rfl,reactor_accounting .initial 3 4 _ rfl halfway,by decide +kernel⟩

end TcpServer
end ForgeKv.Server
