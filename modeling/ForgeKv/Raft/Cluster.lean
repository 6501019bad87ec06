import Mathlib.Logic.Function.Basic
import ForgeKv.Raft.Durable

namespace ForgeKv.Raft

structure Packet where
  source : NodeId
  target : NodeId
  message : Message
deriving DecidableEq, Repr

-- An action, the node that emitted it and the node's state after that call.
structure Event where
  node : NodeId
  state : RaftNode
  action : Action

-- A machine: what is on its disk and, while it runs, its node.
structure Host where
  core : Option RaftNode
  durable : RaftPersistentState

-- The network holds every message ever released and gives it out any number of
-- times, in any order, or never. `returned` records all actions that calls
-- returned, `released` those that were executed before the machine crashed.
structure Cluster where
  hosts : NodeId → Host
  network : List Packet
  returned : List Event
  released : List Event

def Cluster.initial : Cluster := ⟨fun _ => ⟨none,.empty⟩,[],[],[]⟩

-- Persistence first: nothing else of a call is released before it.
def schedule (actions : Actions) : Actions :=
  actions.filter Action.isPersist ++ actions.filter (fun action => !action.isPersist)

def Action.packet (source : NodeId) : Action → Option Packet
  | .sendMessage target message => some ⟨source,target,message⟩
  | _ => none

def Cluster.setCore (cluster : Cluster) (host : NodeId) (core : Option RaftNode) : Cluster :=
  {cluster with hosts := Function.update cluster.hosts host ⟨core,(cluster.hosts host).durable⟩}

-- A call of `host` returned `actions` and left `state`; `done` of them are executed.
def Cluster.execute (cluster : Cluster) (host : NodeId) (state : RaftNode) (core : Option RaftNode)
    (actions done : Actions) : Cluster where
  hosts := Function.update cluster.hosts host ⟨core,(cluster.hosts host).durable.persistAll done⟩
  network := cluster.network ++ done.filterMap (Action.packet host)
  returned := cluster.returned ++ actions.map (Event.mk host state)
  released := cluster.released ++ done.map (Event.mk host state)

-- Only messages that the network holds for the machine can be stepped.
def Cluster.Offers (cluster : Cluster) (host : NodeId) (input : Input) : Prop :=
  ∀ source message, input = .step source message → ⟨source,host,message⟩ ∈ cluster.network

inductive Cluster.Step (voters : List NodeId) (cluster : Cluster) : Cluster → Prop where
  | start (down : (cluster.hosts host).core = none) (self : config.selfId = host) (shared : config.voters = voters)
      (created : RaftNode.create config (cluster.hosts host).durable time = .ok core) :
      Step voters cluster (cluster.setCore host (some core))
  | call (up : (cluster.hosts host).core = some core) (offered : cluster.Offers host input)
      (ran : core.call input = .ok (after,actions)) :
      Step voters cluster (cluster.execute host after (some after) actions (schedule actions))
  | interrupt (up : (cluster.hosts host).core = some core) (offered : cluster.Offers host input)
      (ran : core.call input = .ok (after,actions)) (count : Nat) :
      Step voters cluster (cluster.execute host after none actions ((schedule actions).take count))
  | throw (up : (cluster.hosts host).core = some core) (offered : cluster.Offers host input)
      (ran : core.call input = .error thrown) : Step voters cluster (cluster.setCore host (some thrown.node))
  | crash (host : NodeId) : Step voters cluster (cluster.setCore host none)

inductive Cluster.Reachable (voters : List NodeId) : Cluster → Prop where
  | initial : Reachable voters Cluster.initial
  | step : Reachable voters before → Cluster.Step voters before after → Reachable voters after

-- One induction for every property of reachable clusters.
theorem Cluster.Reachable.invariant {voters : List NodeId} (holds : Cluster → Prop) (start : holds Cluster.initial)
    (kept : ∀ before after, holds before → Cluster.Step voters before after → holds after)
    (reachable : Cluster.Reachable voters cluster) : holds cluster := by
  induction reachable with
  | initial => exact start
  | step _ step ih => exact kept _ _ ih step

end ForgeKv.Raft
