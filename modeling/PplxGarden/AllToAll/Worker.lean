import PplxGarden.AllToAll.Config
import PplxGarden.Fabric.DomainGroup
import PplxGarden.Library.Loop

/-! The routing computations of the all-to-all worker. A panic of the source, such
as a failed assertion, an index outside a vector or an underflow, is `none`. -/

namespace PplxGarden.AllToAll
open Library Fabric

structure TokenCopy where
  group : Nat
  expert : Nat
  index : Nat
deriving Repr, DecidableEq

/-- What the worker tells the device about one received token. `copy` records the
loop indices under which the entry was filled; no computation reads it. -/
structure RoutedToken where
  copy : TokenCopy
  sourceDispatchOffset : Nat
  combineSendOffset : Nat
  sourceRank : Nat
  paddedIndex : Nat
deriving Repr, DecidableEq

/-- The device tables filled by the worker and the `RoutingInfo` it returns. -/
structure RoutingInfo where
  tokensPerExpert : List Nat
  tokens : List RoutedToken
  numRecvTokens : Nat
  numRecvEfaTokens : Nat
  numRecvTx : Nat
  dispatchRanges : List (ScatterTarget Nat)
  combineRanges : List (ScatterTarget Nat)
deriving Repr, DecidableEq

section
variable (cfg : Config) (rank : Nat) (table : RoutingTable cfg)

def dpRank : Nat := rank % cfg.dpSize
def dpGroup : Nat := rank / cfg.dpSize

def getNumRouted (group expert : Nat) : Option Nat :=
  if group < cfg.numDpGroups ∧ expert < cfg.numExperts then some (table.numRouted group expert) else none

/-- Counts and start offsets, per peer, of the copies this rank's group sends. -/
def countInitialRoutes : Option (List Nat × List Nat) := do
  let (tokensPerRank, rankOffset, _) ← forRange 0 cfg.worldSize
    (List.replicate cfg.worldSize 0, List.replicate cfg.worldSize 0, 0)
    fun (tokensPerRank, rankOffset, offset) peerRank => do
      let firstExpert := peerRank * cfg.expertsPerRank
      let lastExpert := min ((peerRank + 1) * cfg.expertsPerRank) cfg.numExperts
      let tokensOnRank ← forRange firstExpert lastExpert 0 fun tokensOnRank expert => do
        return tokensOnRank + (← getNumRouted cfg table (dpGroup cfg rank) expert)
      return (← vecSet tokensPerRank peerRank tokensOnRank, ← vecSet rankOffset peerRank offset,
        offset + tokensOnRank)
  return (tokensPerRank, rankOffset)

def remoteRanks : List Nat :=
  (List.range' 1 (cfg.numNodes - 1)).flatMap fun peerNode =>
    (List.range cfg.nodeSize).map fun index =>
      ((rank / cfg.nodeSize + peerNode) * cfg.nodeSize + index) % cfg.worldSize

/-- `dispatch_initial_routes`: one range into the private part of the receive
buffer of every rank of every other node, including empty ranges. -/
def dispatchInitialRoutes : Option (List (ScatterTarget Nat)) := do
  let tokenDim := cfg.dispatchTokenDim
  let (tokensPerRank, rankOffset) ← countInitialRoutes cfg rank table
  (remoteRanks cfg rank).mapM fun peerRank => do
    let numTokens := min (← tokensPerRank[peerRank]?) cfg.maxPrivateTokens
    return {
      dstMr := peerRank
      length := tokenDim * numTokens
      srcOffset := tokenDim * (← rankOffset[peerRank]?)
      dstOffset := tokenDim * (dpGroup cfg rank * cfg.maxPrivateTokens) }

/-- Vectors and counters of the first pass of `process_routing_info`. -/
structure Totals where
  tokensFromGroup : List Nat
  srcGroupOffset : List Nat
  dstGroupOffset : List Nat
  tokensPerExpert : List Nat
  numRecvTokens : Nat
  numRecvTx : Nat
  sourceExpertOffset : List Nat
  tokensToRank : List Nat
  dispatchSrcOffset : List Nat
  rankOffset : Nat

def Totals.initial : Totals where
  tokensFromGroup := List.replicate cfg.numDpGroups 0
  srcGroupOffset := List.replicate cfg.numDpGroups 0
  dstGroupOffset := List.replicate cfg.numDpGroups 0
  tokensPerExpert := List.replicate cfg.expertsPerRank 0
  numRecvTokens := 0
  numRecvTx := 0
  sourceExpertOffset := List.replicate cfg.numExperts 0
  tokensToRank := List.replicate cfg.worldSize 0
  dispatchSrcOffset := List.replicate cfg.worldSize 0
  rankOffset := 0

def countPeer (totals : Totals) (peer : Nat) : Option Totals := do
  let dispatchSrcOffset ← vecSet totals.dispatchSrcOffset peer totals.rankOffset
  forRange (cfg.firstExpert peer) (cfg.lastExpert peer) { totals with dispatchSrcOffset }
    fun totals expert => do
      let n ← getNumRouted cfg table (dpGroup cfg rank) expert
      let sourceExpertOffset ← vecSet totals.sourceExpertOffset expert totals.rankOffset
      let tokensToRank ← vecSet totals.tokensToRank peer (u32 ((← totals.tokensToRank[peer]?) + n))
      return { totals with sourceExpertOffset, tokensToRank, rankOffset := u32 (totals.rankOffset + n) }

/-- One iteration over a DP group: the send side of its ranks, then what this rank
receives from it and how many immediates will announce that. -/
def countGroup (totals : Totals) (group : Nat) : Option Totals := do
  let totals ← forRange 0 cfg.dpSize totals fun totals i =>
    countPeer cfg rank table totals (group * cfg.dpSize + i)
  let offset ← forRange 0 (cfg.firstExpert rank) 0 fun offset expert => do
    return u32 (offset + (← getNumRouted cfg table group expert))
  let dstGroupOffset ← vecSet totals.dstGroupOffset group offset
  let (numTokens, tokensPerExpert) ← forRange (cfg.firstExpert rank) (cfg.lastExpert rank) (0, totals.tokensPerExpert)
    fun (numTokens, tokensPerExpert) expert => do
      let n ← getNumRouted cfg table group expert
      let index := expert - cfg.firstExpert rank
      return (numTokens + n, ← vecSet tokensPerExpert index (u32 ((← tokensPerExpert[index]?) + n)))
  let tokensFromGroup ← vecSet totals.tokensFromGroup group
    (u32 ((← totals.tokensFromGroup[group]?) + u32 numTokens))
  let srcGroupOffset ← vecSet totals.srcGroupOffset group (u32 totals.numRecvTokens)
  -- The private scatter shards by peers, the overflow scatter by bytes.
  let announced :=
    if group ≠ dpGroup cfg rank ∧ group / cfg.groupsPerNode ≠ rank / cfg.nodeSize then
      1 + if cfg.maxPrivateTokens < numTokens then cfg.netsPerGpu else 0
    else 0
  return { totals with
    dstGroupOffset, tokensPerExpert, tokensFromGroup, srcGroupOffset
    numRecvTokens := totals.numRecvTokens + numTokens
    numRecvTx := totals.numRecvTx + announced }

/-- Start of each local expert in the output, with counts rounded up. -/
def padExperts (tokensPerExpert : List Nat) : List Nat :=
  (tokensPerExpert.foldl (fun (offsets, base) count =>
    (offsets ++ [base], u32 (base + u32 (ceilDiv count cfg.expertPadding * cfg.expertPadding)))) ([], 0)).1

/-- Counters that the routing closure carries from one group to the next. -/
structure RouteState where
  tokens : List RoutedToken
  sourceExpertOffset : List Nat
  srcDispatchCount : List Nat
  srcCombineCount : List Nat
  expertCount : List Nat

variable (totals : Totals) (paddedOffset : List Nat)

/-- Where the device finds one received copy of a peer, and the counters after. -/
def dispatchSource (peerGroup expert : Nat) (state : RouteState) : Option (Nat × Nat × RouteState) := do
  let peerRank := peerGroup * cfg.dpSize + dpRank cfg rank
  if peerRank = rank then
    let localOffset ← state.sourceExpertOffset[expert]?
    let sourceExpertOffset ← vecSet state.sourceExpertOffset expert (u32 (localOffset + 1))
    return (localOffset, localOffset, { state with sourceExpertOffset })
  else
    let indexOnRank ← state.srcDispatchCount[peerGroup]?
    let srcDispatchCount ← vecSet state.srcDispatchCount peerGroup (u32 (indexOnRank + 1))
    let srcOffset ← totals.srcGroupOffset[peerGroup]?
    let dstOffset ← totals.dstGroupOffset[peerGroup]?
    let privateOffset := u32 (cfg.maxPrivateTokens * peerGroup)
    let baseOffset := cfg.maxPrivateTokens * cfg.numDpGroups
    let offset :=
      if indexOnRank < cfg.maxPrivateTokens then u32 (privateOffset + indexOnRank)
      else if peerRank / cfg.nodeSize = rank / cfg.nodeSize then u32 (dstOffset + indexOnRank) ||| 2 ^ 31
      else u32 (u32 (srcOffset + indexOnRank) + u32 (u32 baseOffset + 2 ^ 32 - u32 cfg.maxPrivateTokens))
    return (offset, 0, { state with srcDispatchCount })

/-- Where the output for one received copy is sent, starting from the offset the
dispatch side left in the table. -/
def combineTarget (peerGroup : Nat) (initial : Nat) (state : RouteState) : Option (Nat × RouteState) := do
  let peerRank := peerGroup * cfg.dpSize + dpRank cfg rank
  if peerRank ≠ rank ∨ 1 < cfg.dpSize then
    let combineIndex ← state.srcCombineCount[peerGroup]?
    let srcCombineCount ← vecSet state.srcCombineCount peerGroup (u32 (combineIndex + 1))
    let offset ←
      if peerRank / cfg.nodeSize = rank / cfg.nodeSize then totals.dstGroupOffset[peerGroup]?
      else totals.srcGroupOffset[peerGroup]?
    return (u32 (offset + combineIndex), { state with srcCombineCount })
  else
    return (initial, state)

/-- One received copy: append its entry to the device tables. -/
def routeCopy (peerGroup expert : Nat) (state : RouteState) (index : Nat) : Option RouteState := do
  let (sourceDispatchOffset, initial, state) ← dispatchSource cfg rank totals peerGroup expert state
  let (combineSendOffset, state) ← combineTarget cfg rank totals peerGroup initial state
  let localExpert := expert - cfg.firstExpert rank
  let count ← state.expertCount[localExpert]?
  let paddedIndex := u32 ((← paddedOffset[localExpert]?) + u32 count)
  let expertCount ← vecSet state.expertCount localExpert (count + 1)
  if state.tokens.length < totals.numRecvTokens then
    return { state with
      expertCount
      tokens := state.tokens ++ [{
        copy := ⟨peerGroup, expert, index⟩
        sourceDispatchOffset, combineSendOffset, paddedIndex
        sourceRank := u32 (peerGroup * cfg.dpSize + dpRank cfg rank) }] }
  else none

/-- `route_group`: all copies that one DP group sends to the local experts. -/
def routeGroup (state : RouteState) (peerGroup : Nat) : Option (Nat × RouteState) :=
  forRange (cfg.firstExpert rank) (cfg.lastExpert rank) (0, state) fun (numRouted, state) expert => do
    let routed ← getNumRouted cfg table peerGroup expert
    let state ← forRange 0 routed state fun state index =>
      routeCopy cfg rank totals paddedOffset peerGroup expert state index
    return (numRouted + routed, state)

def remoteGroups : List Nat :=
  (List.range' 1 (cfg.numNodes - 1)).flatMap fun i =>
    (List.range cfg.groupsPerNode).map fun j =>
      (rank / cfg.nodeSize + i) % cfg.numNodes * cfg.groupsPerNode + j

def nodeGroups : List Nat :=
  (List.range' 1 (cfg.groupsPerNode - 1)).map fun localGroup =>
    rank / cfg.nodeSize * cfg.groupsPerNode + (dpGroup cfg rank + localGroup) % cfg.groupsPerNode

def routeGroups (groups : List Nat) (state : RouteState) : Option (Nat × RouteState) :=
  groups.foldlM (fun (count, state) group => do
    let (routed, state) ← routeGroup cfg rank table totals paddedOffset state group
    return (count + routed, state)) (0, state)

/-- Ranges beyond the private buffers, only to peers with the own index in their
group and only when the copies for that peer do not all fit the private part. -/
def dispatchRange (peerRank : Nat) : Option (Option (ScatterTarget Nat)) := do
  let numTokens ← totals.tokensToRank[peerRank]?
  if numTokens ≤ cfg.maxPrivateTokens then return none
  let firstExpert := peerRank * cfg.expertsPerRank
  let lastExpert := min ((peerRank + 1) * cfg.expertsPerRank) cfg.numExperts
  let dstOffset ← forRange 0 (dpGroup cfg rank) 0 fun dstOffset srcGroup =>
    forRange firstExpert lastExpert dstOffset fun dstOffset expert => do
      return dstOffset + (← getNumRouted cfg table srcGroup expert)
  let tokenDim := cfg.dispatchTokenDim
  let srcOffset := cfg.maxPrivateTokens + (← totals.dispatchSrcOffset[peerRank]?)
  return some {
    dstMr := peerRank
    length := tokenDim * (numTokens - cfg.maxPrivateTokens)
    srcOffset := srcOffset * tokenDim
    dstOffset := (cfg.maxPrivateTokens * cfg.numDpGroups + dstOffset) * tokenDim }

/-- `(self.dp_rank..self.node_size).step_by(self.dp_size)` on every other node. -/
def overflowRanks : List Nat :=
  (List.range' 1 (cfg.numNodes - 1)).flatMap fun peerNode =>
    (List.range' (dpRank cfg rank) (ceilDiv (cfg.nodeSize - dpRank cfg rank) cfg.dpSize) cfg.dpSize).map fun index =>
      ((rank / cfg.nodeSize + peerNode) * cfg.nodeSize + index) % cfg.worldSize

def combineRanks : List (Nat × Nat) :=
  (List.range' 1 (cfg.numNodes - 1)).flatMap fun peerNode =>
    (List.range cfg.groupsPerNode).flatMap fun index =>
      let peerGroup := ((rank / cfg.nodeSize + peerNode) * cfg.groupsPerNode + index) % cfg.numDpGroups
      (List.range cfg.dpSize).map fun index => (peerGroup, peerGroup * cfg.dpSize + index)

def combineRange (peer : Nat × Nat) : Option (ScatterTarget Nat) := do
  let tokenDim := cfg.combineTokenDim
  return {
    dstMr := peer.2
    length := tokenDim * (← totals.tokensFromGroup[peer.1]?)
    srcOffset := (← totals.srcGroupOffset[peer.1]?) * tokenDim
    dstOffset := (← totals.dstGroupOffset[peer.1]?) * tokenDim }

end

/-- `process_routing_info`. The number of local experts is computed first and the
source underflows there when the rank starts past the last expert. -/
def processRoutingInfo (cfg : Config) (rank : Nat) (table : RoutingTable cfg) : Option RoutingInfo := do
  if cfg.lastExpert rank < cfg.firstExpert rank then none
  let numLocalExperts := cfg.lastExpert rank - cfg.firstExpert rank
  let totals ← forRange 0 cfg.numDpGroups (Totals.initial cfg) (countGroup cfg rank table)
  let paddedOffset := padExperts cfg totals.tokensPerExpert
  let initial : RouteState := {
    tokens := []
    sourceExpertOffset := totals.sourceExpertOffset
    srcDispatchCount := List.replicate cfg.numDpGroups 0
    srcCombineCount := List.replicate cfg.numDpGroups 0
    expertCount := List.replicate numLocalExperts 0 }
  -- Remote tokens first, then other groups of the node, then the own group.
  let (numRecvEfaTokens, state) ← routeGroups cfg rank table totals paddedOffset (remoteGroups cfg rank) initial
  let (_, state) ← routeGroups cfg rank table totals paddedOffset (nodeGroups cfg rank) state
  let (_, state) ← routeGroup cfg rank table totals paddedOffset state (dpGroup cfg rank)
  let dispatchRanges ← (overflowRanks cfg rank).mapM (dispatchRange cfg rank table totals)
  let combineRanges ← (combineRanks cfg rank).mapM (combineRange cfg totals)
  return {
    tokensPerExpert := totals.tokensPerExpert
    tokens := state.tokens
    numRecvTokens := totals.numRecvTokens
    numRecvEfaTokens
    numRecvTx := totals.numRecvTx
    dispatchRanges := dispatchRanges.filterMap id
    combineRanges }

/-- The writes carrying `dispatch_imm` that a rank addresses to a peer in one step:
the private scatter is cut by peers, the overflow scatter by bytes. -/
def dispatchImms (cfg : Config) (table : RoutingTable cfg) (peer rank : Nat) : Option Nat := do
  let initialRoutes ← dispatchInitialRoutes cfg rank table
  let info ← processRoutingInfo cfg rank table
  let writes := scatterWrites .allDomainsShardPeers cfg.netsPerGpu initialRoutes ++
    scatterWrites .allDomainsShardBytes cfg.netsPerGpu info.dispatchRanges
  return writes.countP fun target => target.dstMr = peer

def dispatchImmsTo (cfg : Config) (table : RoutingTable cfg) (peer : Nat) : Option Nat := do
  return (← ((List.range cfg.worldSize).filter (· ≠ peer)).mapM (dispatchImms cfg table peer)).sum

end PplxGarden.AllToAll
