import PplxGarden.AllToAll.Rounds

/-! The size that `P2PAllToAll.__init__` gives to the send and receive buffers, and
everything that the kernels, the worker and the transfer engine use of them. -/

namespace PplxGarden.AllToAll
open Library Fabric

def roundUp (n m : Nat) : Nat := ceilDiv n m * m

/-- `max_recv_tokens`: how many tokens a buffer holds. -/
def Config.maxRecvTokens (cfg : Config) (maxNumTokens numExpertsPerToken : Nat) : Nat :=
  let numLocalExperts := cfg.expertsPerRank
  let numTokens := maxNumTokens * cfg.numDpGroups
  cfg.maxPrivateTokens * cfg.numDpGroups + roundUp
    (max (min (numTokens * numExpertsPerToken + numLocalExperts * (cfg.expertPadding - 1)) (numTokens * numLocalExperts))
      (numLocalExperts * cfg.expertPadding))
    cfg.expertPadding

/-- Every DP group has at most `maxNumTokens` tokens, each with distinct experts. -/
structure Batch.Assigned {cfg : Config} (batch : Batch cfg) (maxNumTokens : Nat) : Prop where
  tokens : ∀ group, group < cfg.numDpGroups → batch.numTokens group ≤ maxNumTokens
  distinct : ∀ group, group < cfg.numDpGroups → ∀ token, token < batch.numTokens group → ∀ j, j < batch.expertsPerToken →
    ∀ k, k < batch.expertsPerToken → batch.indices group token j = batch.indices group token k → j = k

def StoreWithin {ν : Type} (slots tokenDim : Nat) (write : RangeWrite Buffer ν) : Prop := write.offset + write.length ≤ slots * tokenDim

structure CopyWithin (slots tokenDim : Nat) (target : ScatterTarget Nat) : Prop where
  source : target.srcOffset + target.length ≤ slots * tokenDim
  destination : target.dstOffset + target.length ≤ slots * tokenDim

/-- What a rank uses of the buffers once its worker has processed the routing info. -/
structure RoutesWithin (cfg : Config) (rank : Nat) (info : RoutingInfo) (slots : Nat) : Prop where
  received : info.numRecvTokens ≤ slots
  overflow : ∀ target ∈ info.dispatchRanges, CopyWithin slots cfg.dispatchTokenDim target
  sources : ∀ t buffer slot, dispatchRecvSource cfg rank info t = some (buffer, slot) → slot < slots
  outputs : ∀ write ∈ combineSendStores (fun _ _ => ()) rank info cfg, StoreWithin slots cfg.combineTokenDim write
  returned : ∀ write ∈ combineNvlinkStores (fun _ _ => ()) rank info cfg, StoreWithin slots cfg.combineTokenDim write
  combined : ∀ target ∈ info.combineRanges, CopyWithin slots cfg.combineTokenDim target

structure BuffersHold {cfg : Config} (table : RoutingTable cfg) (slots : Nat) : Prop where
  positions : ∀ rank, rank < cfg.worldSize → ∀ write ∈ dispatchSendStores table (fun _ _ _ => ()) rank,
    StoreWithin slots cfg.dispatchTokenDim write
  privates : ∀ rank, rank < cfg.worldSize → ∀ write ∈ dispatchNvlinkStores table (fun _ _ _ => ()) rank,
    StoreWithin slots cfg.dispatchTokenDim write
  initial : ∀ rank, rank < cfg.worldSize → ∀ targets, dispatchInitialRoutes cfg rank table = some targets →
    ∀ target ∈ targets, CopyWithin slots cfg.dispatchTokenDim target
  routes : ∀ rank, rank < cfg.worldSize → ∀ info, processRoutingInfo cfg rank table = some info → RoutesWithin cfg rank info slots
  loads : ∀ rank, rank < cfg.worldSize → ∀ route ∈ groupRoutes table (dpGroup cfg rank),
    combineRecvPosition table (dpGroup cfg rank) route.1 route.2 < slots

end PplxGarden.AllToAll
