import ForgeKv.Library.Mailbox
import ForgeKv.Cluster.Owner

namespace ForgeKv.Cluster
open Raft Assoc Mailbox

-- sizeof of the message types and of a log entry, as the compiler lays them out.
structure TypeSizes where
  requestVote : UInt64
  requestVoteResponse : UInt64
  appendEntries : UInt64
  appendEntriesResponse : UInt64
  installSnapshot : UInt64
  installSnapshotResponse : UInt64
  logEntry : UInt64

-- std::size_t is 64 bits wide and wraps.
def peerWorkBytes (sizes : TypeSizes) : Message → UInt64
  | .requestVote _ => sizes.requestVote
  | .requestVoteResponse _ => sizes.requestVoteResponse
  | .appendEntries request => request.entries.foldl
      (fun size entry => size+(sizes.logEntry+UInt64.ofNat entry.command.length)) sizes.appendEntries
  | .appendEntriesResponse _ => sizes.appendEntriesResponse
  | .installSnapshot request => sizes.installSnapshot+UInt64.ofNat request.data.length
  | .installSnapshotResponse _ => sizes.installSnapshotResponse

-- A queued message stands under the peer that it goes to.
structure QueuedPeerWork where
  message : Message
  bytes : UInt64
deriving DecidableEq, Repr

def QueuedPeerWork.weight (work : QueuedPeerWork) : Nat := work.bytes.toNat

-- `rejected` counts the calls of metrics_.request_rejected().
structure PeerTransport where
  capacity : Nat
  byteCapacity : UInt64
  enabled : Bool
  stopping : Bool
  queue : Map NodeId QueuedPeerWork
  queuedBytes : UInt64
  rejected : Nat
deriving DecidableEq, Repr

namespace PeerTransport

def create (capacity : Nat) (byteCapacity : UInt64) : PeerTransport := ⟨capacity,byteCapacity,true,false,[],0,0⟩

-- The test that send makes before it takes the lock.
def admits (transport : PeerTransport) (message : Message) : Bool := isRequestMessage message && transport.enabled

def reject (transport : PeerTransport) : PeerTransport := {transport with rejected := transport.rejected+1}

-- What send does while it has the lock, and what it returns.
def enqueue (sizes : TypeSizes) (transport : PeerTransport) (target : NodeId) (message : Message) : PeerTransport × Bool :=
  if transport.stopping ∨ transport.enabled = false then (transport,false)
  else
    let bytes := peerWorkBytes sizes message
    match get? transport.queue target with
    | some existing =>
      let remaining := transport.queuedBytes-existing.bytes
      if bytes > transport.byteCapacity-remaining then (transport.reject,false)
      else ({transport with queue := replace transport.queue target ⟨message,bytes⟩, queuedBytes := remaining+bytes},true)
    | none =>
      if transport.queue.length ≥ transport.capacity ∨ bytes > transport.byteCapacity-transport.queuedBytes then
        (transport.reject,false)
      else ({transport with queue := transport.queue ++ [(target,⟨message,bytes⟩)]
                            queuedBytes := transport.queuedBytes+bytes},true)

def clear (transport : PeerTransport) : PeerTransport := {transport with queue := [], queuedBytes := 0}

def stop (transport : PeerTransport) : PeerTransport :=
  if transport.stopping then transport else {transport with stopping := true}.clear

-- A worker wakes when the transport stops or has work, and takes the front of the queue.
def take (transport : PeerTransport) : PeerTransport × Option (NodeId × Message) :=
  if transport.stopping then (transport,none)
  else
    match transport.queue with
    | [] => (transport,none)
    | (target,work)::rest =>
      ({transport with queue := rest, queuedBytes := transport.queuedBytes-work.bytes},some (target,work.message))

end PeerTransport

-- One thread at a time moves: it reads or writes the flag, or it goes through one
-- section under the lock. `sending` are the calls of send between their test and
-- their lock, `clearing` counts the calls of set_enabled(false) between their store
-- and their lock, and `history` is what the lock has seen, the latest first.
structure Traffic where
  transport : PeerTransport
  sending : List (NodeId × Message)
  clearing : Nat
  history : List (Mailbox.Event NodeId QueuedPeerWork)

inductive Motion where
  | sends (target : NodeId) (message : Message)
  | locks (position : Nat)
  | enables (value : Bool)
  | clears
  | stops
  | takes
deriving DecidableEq, Repr

namespace Traffic

def start (capacity : Nat) (byteCapacity : UInt64) : Traffic := ⟨.create capacity byteCapacity,[],0,[]⟩

-- The traffic after a motion, and what send returned if the motion ends a call of it.
def move (sizes : TypeSizes) (traffic : Traffic) : Motion → Traffic × Option Bool
  | .sends target message =>
    if traffic.transport.admits message then ({traffic with sending := traffic.sending ++ [(target,message)]},none)
    else (traffic,some false)
  | .locks position =>
    match traffic.sending[position]? with
    | none => (traffic,none)
    | some (target,message) =>
      let (after,accepted) := traffic.transport.enqueue sizes target message
      let history := if accepted then .accepted target ⟨message,peerWorkBytes sizes message⟩::traffic.history else traffic.history
      (⟨after,traffic.sending.eraseIdx position,traffic.clearing,history⟩,some accepted)
  | .enables value =>
    ({traffic with transport.enabled := value, clearing := if value then traffic.clearing else traffic.clearing+1},none)
  | .clears =>
    if traffic.clearing = 0 then (traffic,none)
    else (⟨traffic.transport.clear,traffic.sending,traffic.clearing-1,.cleared::traffic.history⟩,none)
  | .stops =>
    let history := if traffic.transport.stopping then traffic.history else .cleared::traffic.history
    ({traffic with transport := traffic.transport.stop, history := history},none)
  | .takes =>
    match traffic.transport.take with
    | (after,none) => ({traffic with transport := after},none)
    | (after,some (target,_)) => ({traffic with transport := after, history := .popped target::traffic.history},none)

def moves (sizes : TypeSizes) (traffic : Traffic) (motions : List Motion) : Traffic :=
  motions.foldl (fun traffic motion => (traffic.move sizes motion).1) traffic

end Traffic

-- What the lock protects, with what its owner was told.
structure Orderly (sizes : TypeSizes) (capacity : Nat) (byteCapacity : UInt64) (transport : PeerTransport)
    (history : List (Mailbox.Event NodeId QueuedPeerWork)) : Prop where
  places : transport.capacity = capacity
  budget : transport.byteCapacity = byteCapacity
  counted : transport.queuedBytes.toNat = load QueuedPeerWork.weight transport.queue
  bounded : transport.queuedBytes ≤ byteCapacity
  length : transport.queue.length ≤ capacity
  current : Current history transport.queue
  sized : ∀ target work, (target,work) ∈ transport.queue → work.bytes = peerWorkBytes sizes work.message

-- What fits beside the bytes that are counted does not wrap their count.
theorem add_fits {total bytes limit : UInt64} (below : total ≤ limit) (fits : ¬ bytes > limit-total) :
    total+bytes ≤ limit ∧ (total+bytes).toNat = total.toNat+bytes.toNat := by
  have room : bytes ≤ limit-total := UInt64.not_lt.mp fits
  rw [UInt64.le_iff_toNat_le,UInt64.toNat_sub_of_le _ _ below] at room
  rw [UInt64.le_iff_toNat_le] at below
  have sum : (total+bytes).toNat = total.toNat+bytes.toNat := by
    rw [UInt64.toNat_add]
    exact Nat.mod_eq_of_lt (by have := limit.toNat_lt; omega)
  refine ⟨?_,sum⟩
  rw [UInt64.le_iff_toNat_le]
  omega

section transport
variable {sizes : TypeSizes} {capacity : Nat} {byteCapacity : UInt64} {transport : PeerTransport}
  {history : List (Mailbox.Event NodeId QueuedPeerWork)} {target : NodeId} {work existing : QueuedPeerWork}

theorem create_orderly : Orderly sizes capacity byteCapacity (.create capacity byteCapacity) [] :=
  ⟨rfl,rfl,rfl,UInt64.zero_le,Nat.zero_le _,current_nil,fun _ _ member => nomatch member⟩

variable (orderly : Orderly sizes capacity byteCapacity transport history)
include orderly

theorem Orderly.clear : Orderly sizes capacity byteCapacity transport.clear (.cleared::history) :=
  ⟨orderly.places,orderly.budget,rfl,UInt64.zero_le,Nat.zero_le _,.clear,fun _ _ member => nomatch member⟩

-- Neither the flags nor the counter of rejected calls are behind the lock.
theorem Orderly.flags (enabled stopping : Bool) (rejected : Nat) :
    Orderly sizes capacity byteCapacity {transport with enabled, stopping, rejected} history := {orderly with}

theorem Orderly.without (member : (target,work) ∈ transport.queue) :
    work.bytes ≤ transport.queuedBytes ∧ transport.queuedBytes-work.bytes ≤ byteCapacity ∧
    (transport.queuedBytes-work.bytes).toNat+work.weight = load QueuedPeerWork.weight transport.queue := by
  have share : work.weight ≤ load QueuedPeerWork.weight transport.queue := weight_le_load member
  have total := orderly.counted
  have below := orderly.bounded
  rw [← total] at share
  have inside : work.bytes ≤ transport.queuedBytes := UInt64.le_iff_toNat_le.mpr share
  have rest := UInt64.toNat_sub_of_le _ _ inside
  rw [UInt64.le_iff_toNat_le] at below
  refine ⟨inside,?_,?_⟩
  · rw [UInt64.le_iff_toNat_le]
    omega
  · rw [rest,← total]
    exact Nat.sub_add_cancel share

theorem Orderly.replace (own : work.bytes = peerWorkBytes sizes work.message) (found : get? transport.queue target = some existing)
    (fits : ¬ work.bytes > transport.byteCapacity-(transport.queuedBytes-existing.bytes)) :
    Orderly sizes capacity byteCapacity {transport with queue := replace transport.queue target work
                                                        queuedBytes := transport.queuedBytes-existing.bytes+work.bytes}
      (.accepted target work::history) := by
  obtain ⟨-,less,rest⟩ := orderly.without (mem_of_get? found)
  obtain ⟨bounded,sum⟩ := add_fits less (orderly.budget ▸ fits)
  have swapped : load QueuedPeerWork.weight (Mailbox.replace transport.queue target work)+existing.weight =
    load QueuedPeerWork.weight transport.queue+work.bytes.toNat := load_replace found
  have same := replace_eq_set target work orderly.current.single
  refine ⟨orderly.places,orderly.budget,?_,bounded,?_,orderly.current.replace found,fun other queued member => ?_⟩
  · dsimp only
    omega
  · exact (congrArg List.length same).trans length_set ▸ orderly.length
  · rcases mem_set (same ▸ member) with ⟨-,rfl⟩ | old
    · exact own
    · exact orderly.sized other queued old

theorem Orderly.push (own : work.bytes = peerWorkBytes sizes work.message) (absent : get? transport.queue target = none)
    (fits : ¬ (transport.queue.length ≥ transport.capacity ∨ work.bytes > transport.byteCapacity-transport.queuedBytes)) :
    Orderly sizes capacity byteCapacity {transport with queue := transport.queue ++ [(target,work)]
                                                        queuedBytes := transport.queuedBytes+work.bytes}
      (.accepted target work::history) := by
  obtain ⟨-,light⟩ := not_or.mp fits
  obtain ⟨bounded,sum⟩ := add_fits orderly.bounded (orderly.budget ▸ light)
  refine ⟨orderly.places,orderly.budget,?_,bounded,?_,orderly.current.push absent,fun other queued member => ?_⟩
  · rw [sum,load_append,orderly.counted]
    rfl
  · rw [List.length_append,List.length_singleton,← orderly.places]
    omega
  · rcases List.mem_append.mp member with old | new
    · exact orderly.sized other queued old
    · cases List.mem_singleton.mp new
      exact own

theorem Orderly.enqueue (target : NodeId) (message : Message) :
    (∃ after, transport.enqueue sizes target message = (after,true) ∧
      Orderly sizes capacity byteCapacity after (.accepted target ⟨message,peerWorkBytes sizes message⟩::history)) ∨
    (∃ rejected, transport.enqueue sizes target message = ({transport with rejected},false)) := by
  unfold PeerTransport.enqueue
  split
  · exact .inr ⟨transport.rejected,rfl⟩
  cases found : get? transport.queue target with
  | some =>
    dsimp only
    split
    · exact .inr ⟨_,rfl⟩
    · rename_i fits
      exact .inl ⟨_,rfl,orderly.replace rfl found fits⟩
  | none =>
    dsimp only
    split
    · exact .inr ⟨_,rfl⟩
    · rename_i fits
      exact .inl ⟨_,rfl,orderly.push rfl found fits⟩

theorem Orderly.pop {rest : Map NodeId QueuedPeerWork} (front : transport.queue = (target,work)::rest) :
    Orderly sizes capacity byteCapacity {transport with queue := rest, queuedBytes := transport.queuedBytes-work.bytes}
      (.popped target::history) := by
  obtain ⟨-,less,kept⟩ := orderly.without (front ▸ List.mem_cons_self)
  have length := orderly.length
  have current := orderly.current
  rw [front] at kept length current
  refine ⟨orderly.places,orderly.budget,?_,less,Nat.le_of_succ_le length,current.pop,fun other queued member => ?_⟩
  · simp only [load,List.map_cons,List.sum_cons] at kept ⊢
    omega
  · exact orderly.sized other queued (front ▸ List.mem_cons_of_mem _ member)

end transport

section traffic
variable {sizes : TypeSizes} {capacity : Nat} {byteCapacity : UInt64} {traffic : Traffic}
  (orderly : Orderly sizes capacity byteCapacity traffic.transport traffic.history)
include orderly

theorem move_orderly (motion : Motion) :
    Orderly sizes capacity byteCapacity (traffic.move sizes motion).1.transport (traffic.move sizes motion).1.history ∧
    ((traffic.move sizes motion).2 = some false →
      (traffic.move sizes motion).1.transport.queue = traffic.transport.queue ∧
      (traffic.move sizes motion).1.transport.queuedBytes = traffic.transport.queuedBytes) := by
  cases motion with
  | sends =>
    unfold Traffic.move
    dsimp only
    split <;> exact ⟨orderly,fun _ => ⟨rfl,rfl⟩⟩
  | locks position =>
    cases called : traffic.sending[position]? with
    | none =>
      simp only [Traffic.move,called]
      exact ⟨orderly,fun _ => ⟨trivial,trivial⟩⟩
    | some call =>
      obtain ⟨target,message⟩ := call
      rcases orderly.enqueue target message with ⟨after,accepted,next⟩ | ⟨rejected,refused⟩
      · simp only [Traffic.move,called,accepted,if_true]
        exact ⟨next,fun refused => nomatch refused⟩
      · simp only [Traffic.move,called,refused,Bool.false_eq_true,if_false]
        exact ⟨orderly.flags _ _ _,fun _ => ⟨trivial,trivial⟩⟩
  | enables => exact ⟨orderly.flags _ _ _,fun refused => nomatch refused⟩
  | clears =>
    unfold Traffic.move
    dsimp only
    split
    · exact ⟨orderly,fun _ => ⟨rfl,rfl⟩⟩
    · exact ⟨orderly.clear,fun refused => nomatch refused⟩
  | stops =>
    unfold Traffic.move PeerTransport.stop
    dsimp only
    split
    · exact ⟨orderly,fun _ => ⟨rfl,rfl⟩⟩
    · exact ⟨(orderly.flags _ _ _).clear,fun refused => nomatch refused⟩
  | takes =>
    unfold Traffic.move PeerTransport.take
    dsimp only
    by_cases stopping : traffic.transport.stopping = true
    · rw [if_pos stopping]
      exact ⟨orderly,fun _ => ⟨rfl,rfl⟩⟩
    rw [if_neg stopping]
    cases waits : traffic.transport.queue with
    | nil => exact ⟨orderly,fun refused => nomatch refused⟩
    | cons => exact ⟨orderly.pop waits,fun refused => nomatch refused⟩

theorem moves_orderly (motions : List Motion) :
    Orderly sizes capacity byteCapacity (traffic.moves sizes motions).transport (traffic.moves sizes motions).history := by
  induction motions generalizing traffic with
  | nil => exact orderly
  | cons motion rest ih => exact ih (move_orderly orderly motion).1

end traffic

theorem peer_queue_latest_bounded (sizes : TypeSizes) (capacity : Nat) (byteCapacity : UInt64) (motions : List Motion) :
    let traffic := (Traffic.start capacity byteCapacity).moves sizes motions
    let transport := traffic.transport
    Orderly sizes capacity byteCapacity transport traffic.history ∧
    (∀ target work, (target,work) ∈ transport.queue →
      work.bytes ≤ transport.queuedBytes ∧ transport.queuedBytes-work.bytes ≤ transport.byteCapacity) ∧
    (∀ motion, (traffic.move sizes motion).2 = some false →
      (traffic.move sizes motion).1.transport.queue = transport.queue ∧
      (traffic.move sizes motion).1.transport.queuedBytes = transport.queuedBytes) := by
  intro traffic transport
  have orderly : Orderly sizes capacity byteCapacity transport traffic.history := moves_orderly create_orderly motions
  refine ⟨orderly,fun target work member => ?_,fun motion => (move_orderly orderly motion).2⟩
  obtain ⟨share,less,-⟩ := orderly.without member
  exact ⟨share,orderly.budget.symm ▸ less⟩

end ForgeKv.Cluster
