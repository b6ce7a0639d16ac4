import PplxGarden.AllToAll.Worker
import PplxGarden.Library.Counters

/-! The endless steps of the workers as their immediate counters see them. A step
exchanges the routing, meets all peers at the dispatch barrier, exchanges the
combined tokens and meets all peers again. -/

namespace PplxGarden.AllToAll
open Library Fabric

/-- The four waits of a step on an `ImmCounter`, in their order. -/
inductive Stage where
  | route
  | dispatchBarrier
  | combine
  | combineBarrier
deriving Repr, DecidableEq

def Stage.index : Stage → Nat
  | .route => 0
  | .dispatchBarrier => 1
  | .combine => 2
  | .combineBarrier => 3

def Stage.ofPoint (point : Nat) : Stage :=
  match point % 4 with
  | 0 => .route
  | 1 => .dispatchBarrier
  | 2 => .combine
  | _ => .combineBarrier

def waitPoint (step : Nat) (stage : Stage) : Nat := 4 * step + stage.index

/-- The targets of `route_write_op`: the rank of the own index in every other group. -/
def routeTargets (cfg : Config) (rank : Nat) : List (ScatterTarget Nat) :=
  (List.range' 1 (cfg.worldSize - 1)).filterMap fun i =>
    let peerRank := (rank + i) % cfg.worldSize
    let peerGroup := peerRank / cfg.dpSize
    if peerGroup = dpGroup cfg rank ∨ peerRank % cfg.dpSize ≠ dpRank cfg rank then none
    else
      let length := cfg.numExperts * 4
      let offset := dpGroup cfg rank * length
      some { dstMr := peerRank, length, srcOffset := offset, dstOffset := offset }

def barrierTargets (cfg : Config) (rank : Nat) : List Nat :=
  (List.range' 1 (cfg.worldSize - 1)).filterMap fun i =>
    let peerRank := (rank + i) % cfg.worldSize
    if peerRank = rank then none else some peerRank

/-- The ranks addressed by the immediates that a step posts before one of its waits.
The routing is processed between the first two waits, and a panic there ends the
worker. -/
def stageImms (cfg : Config) (rank : Nat) (table : RoutingTable cfg) : Stage → Option (List Nat)
  | .route => some ((scatterWrites .allDomainsShardPeers cfg.netsPerGpu (routeTargets cfg rank)).map (·.dstMr))
  | .dispatchBarrier => do
    let _ ← dispatchInitialRoutes cfg rank table
    let _ ← processRoutingInfo cfg rank table
    return barrierTargets cfg rank
  | .combine => do
    let info ← processRoutingInfo cfg rank table
    return (scatterWrites .allDomainsShardBytes cfg.netsPerGpu info.combineRanges).map (·.dstMr)
  | .combineBarrier => some (barrierTargets cfg rank)

def waitTarget (cfg : Config) : Stage → Nat
  | .route => cfg.numDpGroups - 1
  | .dispatchBarrier => cfg.worldSize - 1
  | .combine => (cfg.worldSize - cfg.nodeSize) * cfg.netsPerGpu
  | .combineBarrier => cfg.worldSize - 1

/-- All ranks in all steps; `tables step rank` is the routing a rank reads. -/
def stepPlan (cfg : Config) (tables : Nat → Nat → RoutingTable cfg) : Counters.Plan Stage (Fin cfg.worldSize) where
  kind := Stage.ofPoint
  target point := waitTarget cfg (Stage.ofPoint point)
  posts point rank :=
    (stageImms cfg rank (tables (point / 4) rank) (Stage.ofPoint point)).map fun imms peer => imms.count peer.val

end PplxGarden.AllToAll
