import PplxGarden.AllToAll.Worker
import PplxGarden.Library.Memory

/-! The stores and loads of the four kernels and the copies made by the transfer
engine, over the send and receive buffers of all ranks. Padding bytes of a slot are
counted as part of the token stored in it. -/

namespace PplxGarden.AllToAll
open Library Fabric

inductive Buffer where
  | send (rank : Nat)
  | recv (rank : Nat)
deriving Repr, DecidableEq

/-- A route as `ExpertIterator` returns it. Weights only enter the final sums. -/
structure ExpertAndOffset where
  expert : Nat
  offset : Nat
  position : Nat
deriving Repr, DecidableEq

section
variable {cfg : Config} (table : RoutingTable cfg)

/-- `expert_offsets`: the inclusive prefix sums left behind by the counting phase. -/
def expertOffsets (group expert : Nat) : Nat := u32 (table.before group (expert + 1))

/-- `ExpertIterator::operator[]` for a route with the given `token_offset`. -/
def expertIterator (group expert tokenOffset : Nat) : ExpertAndOffset :=
  let position := u32 ((if 0 < expert then expertOffsets table group (expert - 1) else 0) + tokenOffset)
  let dstRank := expert / cfg.expertsPerRank
  let rankOffset := if 0 < dstRank then expertOffsets table group (dstRank * cfg.expertsPerRank - 1) else 0
  { expert, offset := u32 (position + 2 ^ 32 - rankOffset), position }

def groupRoutes (group : Nat) : List (Nat × Nat) :=
  (List.range cfg.numExperts).flatMap fun expert => (List.range (table.numRouted group expert)).map fun j => (expert, j)

/-- The peer with a local index on the node of a rank, as in `recv_ptrs[local_peer]`. -/
def nodePeer (cfg : Config) (rank localPeer : Nat) : Nat := rank / cfg.nodeSize * cfg.nodeSize + localPeer

def ViaNvlink (cfg : Config) (rank : Nat) (route : ExpertAndOffset) : Prop :=
  let dstRank := route.expert / cfg.expertsPerRank
  dstRank / cfg.nodeSize = rank / cfg.nodeSize ∧ dstRank ≠ rank ∧ route.offset < cfg.maxPrivateTokens

instance (rank : Nat) (route : ExpertAndOffset) : Decidable (ViaNvlink cfg rank route) :=
  inferInstanceAs (Decidable (_ ∧ _ ∧ _))

variable (content : Nat → Nat → Nat → ν) (rank : Nat)

/-- Stores of `dispatch_send` into the own send buffer. `content rank expert j` is
the token to which the rank gave offset `j` of the expert. -/
def dispatchSendStores : List (RangeWrite Buffer (ν × Nat)) :=
  (groupRoutes table (dpGroup cfg rank)).filterMap fun (expert, j) =>
    let route := expertIterator table (dpGroup cfg rank) expert j
    if ViaNvlink cfg rank route then none
    else some (slotWrite cfg.dispatchTokenDim (.send rank) route.position (content rank expert j))

/-- Stores of `dispatch_send` into private receive buffers on the same node. -/
def dispatchNvlinkStores : List (RangeWrite Buffer (ν × Nat)) :=
  (groupRoutes table (dpGroup cfg rank)).filterMap fun (expert, j) =>
    let route := expertIterator table (dpGroup cfg rank) expert j
    let dstRank := route.expert / cfg.expertsPerRank
    if ViaNvlink cfg rank route ∧ dstRank % cfg.dpSize = rank % cfg.dpSize then
      some (slotWrite cfg.dispatchTokenDim (.recv (nodePeer cfg rank (dstRank % cfg.nodeSize)))
        (dpGroup cfg rank * cfg.maxPrivateTokens + route.offset) (content rank expert j))
    else none

def scatterWrite (source : Memory Buffer ν) (target : ScatterTarget Nat) : RangeWrite Buffer ν :=
  copyWrite source (.send rank) target.srcOffset (.recv target.dstMr) target.dstOffset target.length

def dispatchTransfers (source : Memory Buffer (ν × Nat)) : Option (List (RangeWrite Buffer (ν × Nat))) := do
  let initialRoutes ← dispatchInitialRoutes cfg rank table
  let info ← processRoutingInfo cfg rank table
  return dispatchNvlinkStores table content rank ++ (initialRoutes ++ info.dispatchRanges).map (scatterWrite rank source)

end

/-- A dispatch of all ranks. The stores to the send buffers land in some order;
the transfers read the finished send buffers and land in some order. -/
structure DispatchRun (cfg : Config) (table : RoutingTable cfg) (content : Nat → Nat → Nat → ν) where
  initial : Memory Buffer (ν × Nat)
  sends : List (RangeWrite Buffer (ν × Nat))
  sends_perm : sends.Perm ((List.range cfg.worldSize).flatMap (dispatchSendStores table content))
  perRank : List (List (RangeWrite Buffer (ν × Nat)))
  issued : (List.range cfg.worldSize).mapM
    (fun rank => dispatchTransfers table content rank (applyAll sends initial)) = some perRank
  transfers : List (RangeWrite Buffer (ν × Nat))
  transfers_perm : transfers.Perm perRank.flatten

namespace DispatchRun

variable {cfg : Config} {table : RoutingTable cfg} {content : Nat → Nat → Nat → ν}

def sent (run : DispatchRun cfg table content) : Memory Buffer (ν × Nat) := applyAll run.sends run.initial

def final (run : DispatchRun cfg table content) : Memory Buffer (ν × Nat) := applyAll run.transfers run.sent

end DispatchRun

/-- The slot from which `dispatch_recv` reads received token `t`. -/
def dispatchRecvSource (cfg : Config) (rank : Nat) (info : RoutingInfo) (t : Nat) : Option (Buffer × Nat) := do
  let entry ← info.tokens[t]?
  let position := entry.sourceDispatchOffset
  if t < info.numRecvEfaTokens then
    return (.recv rank, position)
  else if entry.sourceRank = rank then
    return (.send rank, position)
  else if position &&& 2 ^ 31 ≠ 0 then
    return (.send (nodePeer cfg rank (entry.sourceRank % cfg.nodeSize)), position &&& (2 ^ 31 - 1))
  else
    return (.recv rank, position)

section
variable {cfg : Config} (rows : Nat → Nat → ν) (rank : Nat) (info : RoutingInfo)

/-- Stores of `combine_send` into the own send buffer. `rows rank index` is row
`index` of the rank's expert outputs. -/
def combineSendStores (cfg : Config) : List (RangeWrite Buffer (ν × Nat)) :=
  info.tokens.zipIdx.filterMap fun (entry, t) =>
    if t < info.numRecvEfaTokens ∧ entry.sourceRank / cfg.nodeSize ≠ rank / cfg.nodeSize then
      some (slotWrite cfg.combineTokenDim (.send rank) entry.combineSendOffset (rows rank entry.paddedIndex))
    else none

/-- Stores of `combine_send` into the receive buffers of the source group's ranks. -/
def combineNvlinkStores (cfg : Config) : List (RangeWrite Buffer (ν × Nat)) :=
  info.tokens.zipIdx.flatMap fun (entry, t) =>
    if info.numRecvEfaTokens ≤ t ∧ entry.sourceRank / cfg.nodeSize = rank / cfg.nodeSize then
      let firstPeer := entry.sourceRank / cfg.dpSize * cfg.dpSize
      (List.range cfg.dpSize).map fun dpPeer =>
        slotWrite cfg.combineTokenDim (.recv (nodePeer cfg rank ((firstPeer + dpPeer) % cfg.nodeSize)))
          entry.combineSendOffset (rows rank entry.paddedIndex)
    else []

def combineTransfers (cfg : Config) (source : Memory Buffer (ν × Nat)) : List (RangeWrite Buffer (ν × Nat)) :=
  combineNvlinkStores rows rank info cfg ++ info.combineRanges.map (scatterWrite rank source)

end

/-- The receive buffer position `combine_recv` recomputes for a route. -/
def combineRecvPosition {cfg : Config} (table : RoutingTable cfg) (group expert tokenOffset : Nat) : Nat :=
  u32 ((if 0 < expert then expertOffsets table group (expert - 1) else 0) + tokenOffset)

structure CombineRun (cfg : Config) (table : RoutingTable cfg) (rows : Nat → Nat → ν) where
  infos : List RoutingInfo
  routed : (List.range cfg.worldSize).mapM (fun rank => processRoutingInfo cfg rank table) = some infos
  initial : Memory Buffer (ν × Nat)
  sends : List (RangeWrite Buffer (ν × Nat))
  sends_perm : sends.Perm (infos.zipIdx.flatMap fun (info, rank) => combineSendStores rows rank info cfg)
  transfers : List (RangeWrite Buffer (ν × Nat))
  transfers_perm : transfers.Perm
    (infos.zipIdx.flatMap fun (info, rank) => combineTransfers rows rank info cfg (applyAll sends initial))

namespace CombineRun

variable {cfg : Config} {table : RoutingTable cfg} {rows : Nat → Nat → ν}

def sent (run : CombineRun cfg table rows) : Memory Buffer (ν × Nat) := applyAll run.sends run.initial
def final (run : CombineRun cfg table rows) : Memory Buffer (ν × Nat) := applyAll run.transfers run.sent

end CombineRun

/-- The bytes into which a rank writes the output for its received index `t`: with
its own stores, or by a network copy of what it stored in its send buffer. -/
inductive OutputWritten {cfg : Config} (table : RoutingTable cfg) (rank t : Nat) : Buffer → Nat → Prop where
  | send {info : RoutingInfo} {entry : RoutedToken} {byte : Nat} (routed : processRoutingInfo cfg rank table = some info)
      (listed : info.tokens[t]? = some entry) (early : t < info.numRecvEfaTokens)
      (far : entry.sourceRank / cfg.nodeSize ≠ rank / cfg.nodeSize) (inside : byte < cfg.combineTokenDim) :
      OutputWritten table rank t (.send rank) (entry.combineSendOffset * cfg.combineTokenDim + byte)
  | nvlink {info : RoutingInfo} {entry : RoutedToken} {dpPeer byte : Nat} (routed : processRoutingInfo cfg rank table = some info)
      (listed : info.tokens[t]? = some entry) (late : info.numRecvEfaTokens ≤ t)
      (near : entry.sourceRank / cfg.nodeSize = rank / cfg.nodeSize) (member : dpPeer < cfg.dpSize)
      (inside : byte < cfg.combineTokenDim) :
      OutputWritten table rank t
        (.recv (nodePeer cfg rank ((entry.sourceRank / cfg.dpSize * cfg.dpSize + dpPeer) % cfg.nodeSize)))
        (entry.combineSendOffset * cfg.combineTokenDim + byte)
  | network {info : RoutingInfo} {target : ScatterTarget Nat} {address : Nat}
      (stored : OutputWritten table rank t (.send rank) address) (routed : processRoutingInfo cfg rank table = some info)
      (listed : target ∈ info.combineRanges) (lower : target.srcOffset ≤ address)
      (upper : address < target.srcOffset + target.length) :
      OutputWritten table rank t (.recv target.dstMr) (target.dstOffset + (address - target.srcOffset))

end PplxGarden.AllToAll
