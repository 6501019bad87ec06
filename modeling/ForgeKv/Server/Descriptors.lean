import ForgeKv.Server.Accounting

namespace ForgeKv.Server.TcpServer
open Protocol

variable {server middle after : TcpServer} {connection : Connection} {ready : Ready} {rest : List Ready}

def Seated (server after : TcpServer) : Prop :=
  ∀ fd connection, after.connections.find? fd = some connection →
    ∃ earlier, server.connections.find? fd = some earlier ∧ earlier.token = connection.token

theorem Seated.refl (server : TcpServer) : Seated server server := fun _ connection found => ⟨connection,found,rfl⟩

theorem Seated.trans (first : Seated server middle) (second : Seated middle after) : Seated server after := by
  intro fd connection found
  obtain ⟨later,there,same⟩ := second fd connection found
  obtain ⟨earlier,before,alike⟩ := first fd later there
  exact ⟨earlier,before,alike.trans same⟩

theorem seated_keep {changed : Connection} (live : server.Live connection) (names : connection.Names changed) :
    Seated server (server.keep changed) := by
  intro fd other found
  by_cases same : fd = changed.fd
  · subst same
    cases Table.find?_assign_self.symm.trans found
    exact ⟨connection,names.1 ▸ live,names.2⟩
  · exact ⟨other,(Table.find?_assign_of_ne same).symm.trans found,rfl⟩

theorem seated_drop (changed : Connection) : Seated server (server.drop changed) := by
  intro fd other found
  by_cases same : fd = changed.fd
  · subst same
    cases Table.find?_erase_self.symm.trans found
  · exact ⟨other,(Table.find?_erase_of_ne same).symm.trans found,rfl⟩

theorem Move.seated (move : Move server after) (placed : server.Placed) : Seated server after := by
  cases move with
  | worked | scheduled | swapped | orphaned => exact .refl server
  | closed | evicted | flooded => exact @seated_drop server _
  | filled live | sent live => exact seated_keep live ⟨rfl,rfl⟩
  | refused live =>
    refine seated_keep live (Connection.Names.press ?_ true)
    exact ⟨rfl,rfl⟩
  | admitted live =>
    refine seated_keep live (Connection.Names.choice ?_ _ true)
    exact ⟨rfl,rfl⟩
  | answered next found =>
    refine seated_keep (addressee_live placed found).1 (Connection.Names.choice ?_ _ false)
    exact ⟨rfl,rfl⟩

theorem Move.batch (move : Move server after) : after.batch = server.batch ∧ after.reported = server.reported := by
  cases move <;> exact ⟨rfl,rfl⟩

-- A walk brings no connection and leaves the events of the batch alone.
structure Attached (server after : TcpServer) : Prop where
  seated : Seated server after
  batch : after.batch = server.batch
  reported : after.reported = server.reported

theorem walk_attached (walk : Walk server after) (placed : server.Placed) : Attached server after := by
  induction walk with
  | refl => exact ⟨.refl server,rfl,rfl⟩
  | tail before move ih =>
    obtain ⟨batch,reported⟩ := move.batch
    exact ⟨ih.seated.trans (move.seated (walk_placed before placed)),batch.trans ih.batch,reported.trans ih.reported⟩

theorem acceptConnections_batch (placed : server.Placed) (results : List AcceptResult) :
    (server.acceptConnections results).batch = server.batch ∧ (server.acceptConnections results).reported = server.reported := by
  induction results generalizing server with
  | nil => exact ⟨rfl,rfl⟩
  | cons result rest ih =>
    cases result with
    | interrupted => exact ih placed
    | failed => exact ⟨rfl,rfl⟩
    | accepted fd =>
      simp only [acceptConnections]
      split
      · exact ⟨rfl,rfl⟩
      · rename_i free
        split
        · exact ih placed
        · have opened := placed.register (unused_absent free)
          split
          · exact ih opened
          · have closes := (closeConnection_calm opened fd).walk
            have attached := walk_attached closes opened
            obtain ⟨batch,reported⟩ := ih (walk_placed closes opened)
            exact ⟨batch.trans attached.batch,reported.trans attached.reported⟩

-- What stands under the descriptor of an event to come is what it was reported for.
def Reported (server : TcpServer) : Prop :=
  ∀ ready ∈ server.batch, ∀ connection, server.connections.find? ready.fd = some connection →
    ∃ reported, server.reported.find? ready.fd = some reported ∧ reported.token = connection.token

-- accept_connections puts no connection under a descriptor for which an event of the batch is still to come.
def Spares (server : TcpServer) : Event → Prop
  | .handled around => server.batch.head?.map Ready.fd = some server.listenerFd → ∀ later ∈ server.batch.tail,
    (server.happen (.handled around)).connections.find? later.fd = server.connections.find? later.fd
  | .worked _ | .waited _ | .ended _ => True

def Sparing (server : TcpServer) : List Event → Prop
  | [] => True
  | event::rest => server.Spares event ∧ (server.happen event).Sparing rest

instance (server : TcpServer) (event : Event) : Decidable (server.Spares event) :=
  match event with
  | .handled around => inferInstanceAs (Decidable (server.batch.head?.map Ready.fd = some server.listenerFd → ∀ later ∈ server.batch.tail,
    (server.happen (.handled around)).connections.find? later.fd = server.connections.find? later.fd))
  | .worked _ | .waited _ | .ended _ => inferInstanceAs (Decidable True)

instance decidableSparing : (server : TcpServer) → (events : List Event) → Decidable (server.Sparing events)
  | _,[] => inferInstanceAs (Decidable True)
  | server,event::rest =>
    have := decidableSparing (server.happen event) rest
    inferInstanceAs (Decidable (server.Spares event ∧ (server.happen event).Sparing rest))

theorem Reported.attached (reported : server.Reported) (attached : Attached server after) : after.Reported := by
  intro ready member connection found
  rw [attached.batch] at member
  obtain ⟨earlier,before,same⟩ := attached.seated ready.fd connection found
  obtain ⟨first,there,alike⟩ := reported ready member earlier before
  rw [attached.reported]
  exact ⟨first,there,alike.trans same⟩

theorem handled_reported (idle : server.Idle) (next : server.batch = ready::rest) (reported : server.Reported)
    (around : Surroundings) (spares : server.Spares (.handled around)) : (server.happen (.handled around)).Reported := by
  have left : Reported {server with batch := rest,schedule := around.schedule} :=
    fun later member => reported later (next ▸ List.mem_cons_of_mem _ member)
  have waits : Idle {server with batch := rest,schedule := around.schedule} := ⟨idle.placed,idle.idle⟩
  simp only [Spares,happen,next,List.head?_cons,Option.map_some,List.tail_cons] at spares ⊢
  generalize settled : ({server with batch := rest,schedule := around.schedule} : TcpServer) = begun at left waits spares
  by_cases listener : ready.fd = begun.listenerFd
  · rw [handleEvent,if_pos listener] at spares ⊢
    obtain ⟨batch,same⟩ := acceptConnections_batch waits.placed around.accepted
    intro later member connection found
    rw [batch] at member
    rw [same]
    subst settled
    rw [spares (congrArg some listener) later member] at found
    exact left later member connection found
  · by_cases wake : ready.fd = begun.wakeFd
    · rw [handleEvent,if_neg listener,if_pos wake]
      exact left.attached (walk_attached (processCompletions_walk waits.placed waits.idle).1 waits.placed)
    · exact left.attached (walk_attached (handleEvent_calm waits.placed listener wake around).walk waits.placed)

theorem happen_reported (idle : server.Idle) (reported : server.Reported) (event : Event) (spares : server.Spares event) :
    (server.happen event).Reported := by
  cases event with
  | worked => exact reported
  | waited =>
    simp only [happen]
    split
    · exact reported
    · exact fun _ _ connection found => ⟨connection,found,rfl⟩
  | handled around =>
    cases next : server.batch with
    | nil =>
      simp only [happen,next]
      exact reported
    | cons => exact handled_reported idle next reported around spares
  | ended schedule =>
    simp only [happen]
    split
    · exact reported
    · have kept := reported.attached (walk_attached (closing_walk idle schedule).1 idle.placed)
      exact kept

theorem live_reported (idle : server.Idle) (reported : server.Reported) (events : List Event) (sparing : server.Sparing events) :
    (server.live events).Reported := by
  induction events generalizing server with
  | nil => exact reported
  | cons event rest ih => exact ih (happen_idle idle event) (happen_reported idle reported event sparing.1) sparing.2

theorem event_reaches_its_connection (config : ReactorConfig) (listenerFd wakeFd : Nat) (server : TcpServer)
    (started : start config listenerFd wakeFd = .ok server) (events : List Event) (sparing : server.Sparing events)
    (ready : Ready) (rest : List Ready) (next : (server.live events).batch = ready::rest)
    (listener : ready.fd ≠ (server.live events).listenerFd) (wake : ready.fd ≠ (server.live events).wakeFd)
    (around : Surroundings) (fd : Nat) (connection : Connection)
    (found : (server.live events).connections.find? fd = some connection)
    (another : ∀ reported, (server.live events).reported.find? ready.fd = some reported → reported.token ≠ connection.token) :
    ((server.live events).happen (.handled around)).connections.find? fd = some connection := by
  have idle := live_idle started events
  have begins : server.Reported := by
    obtain ⟨_,rfl⟩ := start_initial started
    exact fun _ wrong => by cases wrong
  have reported := live_reported (start_idle started) begins events sparing
  by_cases same : fd = ready.fd
  · subst same
    obtain ⟨first,there,token⟩ := reported ready (next ▸ List.mem_cons_self) connection found
    exact absurd token (another first there)
  · have waits : Placed {server.live events with batch := rest,schedule := around.schedule} := idle.placed
    have calm := handleEvent_calm waits listener wake around
    simp only [happen,next]
    exact (calm.elsewhere fd same).trans found

-- Room for a header only, so that any response with a payload closes its connection.
def narrow : ReactorConfig := {ReactorConfig.initial with maxBufferedOutputPerConnection := headerSize}

-- One batch: the completion closes the connection, another one gets its descriptor,
-- and the event of the first connection is still to come.
def reuse : List Event :=
  connects 5 ++ sends 5 (wire (ping 1)) ++ serves (.threw none) ++
    [.waited [readable 4,readable 3,hangsUp 5],.handled ⟨[],[],[],[]⟩,.handled ⟨[],[],[.accepted 5 true true],[]⟩]

-- The second connection is closed by the event of the first.
theorem event_closes_another : ∃ server, start narrow 3 4 = .ok server ∧
    (server.live reuse).batch = [hangsUp 5] ∧
    ((server.live reuse).reported.find? 5).map Connection.token = some ⟨1,1⟩ ∧
    ((server.live reuse).connections.find? 5).map Connection.token = some ⟨2,2⟩ ∧
    (((server.live reuse).happen (.handled ⟨[],[],[],[]⟩)).connections.find? 5).map Connection.token = none :=
  ⟨_,rfl,by decide +kernel⟩

-- The same batch, where the new connection gets another descriptor.
def apart : List Event :=
  connects 5 ++ sends 5 (wire (ping 1)) ++ serves (.threw none) ++
    [.waited [readable 4,readable 3,hangsUp 5],.handled ⟨[],[],[],[]⟩,.handled ⟨[],[],[.accepted 6 true true],[]⟩]

theorem event_reaches_its_connection_apart : ∃ server, start narrow 3 4 = .ok server ∧
    ((server.live apart).reported.find? 5).map Connection.token = some ⟨1,1⟩ ∧
    ∃ connection, (server.live apart).connections.find? 6 = some connection ∧ connection.token = ⟨2,2⟩ ∧
      ((server.live apart).happen (.handled ⟨[],[],[],[]⟩)).connections.find? 6 = some connection := by
  have started : start narrow 3 4 = .ok (beginning narrow) := rfl
  have tokens : (((beginning narrow).live apart).connections.find? 6).map Connection.token = some ⟨2,2⟩ := by decide +kernel
  have first : (((beginning narrow).live apart).reported.find? 5).map Connection.token = some ⟨1,1⟩ := by decide +kernel
  obtain ⟨connection,found,token⟩ := Option.map_eq_some_iff.mp tokens
  refine ⟨_,started,first,connection,found,token,event_reaches_its_connection narrow 3 4 _ started apart (by decide +kernel) (hangsUp 5) []
    (by decide +kernel) (by decide +kernel) (by decide +kernel) ⟨[],[],[],[]⟩ 6 connection found fun reported there same => ?_⟩
  have older : (((beginning narrow).live apart).reported.find? 5).map Connection.token = some reported.token :=
    congrArg (Option.map Connection.token) there
  rw [same,token] at older
  cases first.symm.trans older

end ForgeKv.Server.TcpServer
