import Mathlib.Algebra.Ring.Nat
import Mathlib.Tactic.Common

/-! Requests accepted by the transfer engine. Memory handles, addresses and keys
are opaque numbers: the engine only stores them and hands them to a domain. -/

namespace PplxGarden.Fabric

abbrev TransferId := Nat
abbrev DomainAddress := Nat
abbrev RemoteKey := Nat
abbrev PeerGroupHandle := Nat
abbrev MemoryPtr := Nat

/-- A remote region, with one address and one key for each domain of its owner. -/
structure MemoryRegionDescriptor where
  ptr : Nat
  addrRkeyList : List (DomainAddress × RemoteKey)
deriving Repr, DecidableEq

inductive DomainGroupRouting where
  | roundRobinSharded (numShards : {n : Nat // 0 < n})
  | pinned (domainIdx : Nat)
deriving Repr, DecidableEq

inductive GroupTransferRouting where
  | allDomainsShardPeers
  | allDomainsShardBytes
  | single (domainIdx : Nat)
deriving Repr, DecidableEq

structure ImmTransferRequest where
  immData : Nat
  dstMr : MemoryRegionDescriptor
  domain : DomainGroupRouting
deriving Repr, DecidableEq

structure BarrierTransferRequest where
  immData : Nat
  dstMrs : List MemoryRegionDescriptor
  domain : DomainGroupRouting
deriving Repr, DecidableEq

structure SingleTransferRequest where
  srcMr : MemoryPtr
  srcOffset : Nat
  length : Nat
  immData : Option Nat
  dstMr : MemoryRegionDescriptor
  dstOffset : Nat
  domain : DomainGroupRouting
deriving Repr, DecidableEq

structure PagedTransferRequest where
  length : Nat
  srcMr : MemoryPtr
  srcPageIndices : List Nat
  srcStride : Nat
  srcOffset : Nat
  dstMr : MemoryRegionDescriptor
  dstPageIndices : List Nat
  dstStride : Nat
  dstOffset : Nat
  immData : Option Nat
deriving Repr, DecidableEq

/-- One destination of a scatter. The type of the destination is a parameter: a
descriptor inside the engine, a rank number for the worker that builds the list. -/
structure ScatterTarget (μ : Type) where
  dstMr : μ
  length : Nat
  srcOffset : Nat
  dstOffset : Nat
deriving Repr, DecidableEq

structure ScatterTransferRequest where
  srcMr : MemoryPtr
  dstHandle : Option PeerGroupHandle
  dsts : List (ScatterTarget MemoryRegionDescriptor)
  immData : Option Nat
  domain : GroupTransferRouting
deriving Repr, DecidableEq

inductive TransferRequest where
  | imm (request : ImmTransferRequest)
  | single (request : SingleTransferRequest)
  | paged (request : PagedTransferRequest)
  | scatter (request : ScatterTransferRequest)
  | barrier (request : BarrierTransferRequest)
deriving Repr, DecidableEq

end PplxGarden.Fabric
