import ForgeKv.Raft.Cluster

namespace ForgeKv.Raft

-- What a driver can make a cluster do next. A call with a limit is cut off by a
-- crash once that many of its actions are executed.
inductive Order where
  | start (config : RaftConfig) (time : Nat)
  | call (host : NodeId) (input : Input) (limit : Option Nat)
  | crash (host : NodeId)

def Cluster.offersNow (cluster : Cluster) (host : NodeId) : Input → Bool
  | .step source message => decide (⟨source,host,message⟩ ∈ cluster.network)
  | _ => true

-- An order that cannot be carried out changes nothing.
def Cluster.boot (voters : List NodeId) (cluster : Cluster) (config : RaftConfig) (time : Nat) : Cluster :=
  match (cluster.hosts config.selfId).core,RaftNode.create config (cluster.hosts config.selfId).durable time with
  | none,.ok core => if config.voters = voters then cluster.setCore config.selfId (some core) else cluster
  | _,_ => cluster

def Cluster.drive (cluster : Cluster) (host : NodeId) (input : Input) (limit : Option Nat) : Cluster :=
  match (cluster.hosts host).core with
  | none => cluster
  | some core =>
    if cluster.offersNow host input then
      match core.call input,limit with
      | .ok (after,actions),none => cluster.execute host after (some after) actions (schedule actions)
      | .ok (after,actions),some count => cluster.execute host after none actions ((schedule actions).take count)
      | .error thrown,_ => cluster.setCore host (some thrown.node)
    else cluster

def Cluster.obey (voters : List NodeId) (cluster : Cluster) : Order → Cluster
  | .start config time => cluster.boot voters config time
  | .call host input limit => cluster.drive host input limit
  | .crash host => cluster.setCore host none

def Cluster.play (voters : List NodeId) (orders : List Order) : Cluster :=
  orders.foldl (Cluster.obey voters) Cluster.initial

def Cluster.running (cluster : Cluster) (host : NodeId) (up : (cluster.hosts host).core.isSome = true) : RaftNode :=
  (cluster.hosts host).core.get up

variable {voters : List NodeId} {cluster : Cluster}

theorem running_core (up : (cluster.hosts host).core.isSome = true) : (cluster.hosts host).core = some (cluster.running host up) :=
  (Option.some_get up).symm

theorem offers_of_now (now : cluster.offersNow host input = true) : cluster.Offers host input := by
  intro source message same
  rw [same] at now
  exact of_decide_eq_true now

theorem boot_reachable (reachable : Cluster.Reachable voters cluster) :
    Cluster.Reachable voters (cluster.boot voters config time) := by
  unfold Cluster.boot
  split
  · rename_i core down created
    split
    · rename_i shared
      exact .step reachable (.start down rfl shared created)
    · exact reachable
  · exact reachable

theorem drive_reachable (reachable : Cluster.Reachable voters cluster) :
    Cluster.Reachable voters (cluster.drive host input limit) := by
  unfold Cluster.drive
  split
  · exact reachable
  rename_i core up
  split
  · rename_i offered
    split
    · rename_i ran
      exact .step reachable (.call up (offers_of_now offered) ran)
    · rename_i ran
      exact .step reachable (.interrupt up (offers_of_now offered) ran _)
    · rename_i ran
      exact .step reachable (.throw up (offers_of_now offered) ran)
  · exact reachable

theorem obey_reachable (reachable : Cluster.Reachable voters cluster) (order : Order) :
    Cluster.Reachable voters (cluster.obey voters order) := by
  cases order with
  | start => exact boot_reachable reachable
  | call => exact drive_reachable reachable
  | crash host => exact .step reachable (.crash host)

theorem play_reachable (orders : List Order) : Cluster.Reachable voters (Cluster.play voters orders) := by
  have all : ∀ cluster, Cluster.Reachable voters cluster → Cluster.Reachable voters (orders.foldl (Cluster.obey voters) cluster) := by
    induction orders with
    | nil => exact fun _ reachable => reachable
    | cons order rest ih => exact fun cluster reachable => ih _ (obey_reachable reachable order)
  exact all _ .initial

end ForgeKv.Raft
