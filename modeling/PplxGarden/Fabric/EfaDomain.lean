import PplxGarden.Fabric.WriteOps

/-! An EFA domain: addresses are resolved when they are first used, and writes are
submitted right away. `none` is a panic, or a fault of the contexts. -/

namespace PplxGarden.Fabric.Efa

/-- `contexts` records the writes that were given a context. -/
structure EfaDomain where
  peerAddrMap : DomainAddress → Option FiAddr
  peerGroups : PeerGroupHandle → Option (List FiAddr)
  writes : Provider.Writes WriteOpIter (FiMsgRma × Bool)
  completions : List DomainCompletionEntry
  contexts : List (TransferId × RdmaOp FiAddr)

namespace EfaDomain

def new : EfaDomain where
  peerAddrMap _ := none
  peerGroups _ := none
  writes := .new
  completions := []
  contexts := []

variable (state : EfaDomain)

/-- `insert` is what `fi_av_insert` makes of a new address. -/
def getOrAddRemoteAddr (insert : DomainAddress → Option FiAddr) (peerAddr : DomainAddress) : Option FiAddr × EfaDomain :=
  match state.peerAddrMap peerAddr with
  | some addr => (some addr, state)
  | none =>
    match insert peerAddr with
    | some addr => (some addr, { state with peerAddrMap := Function.update state.peerAddrMap peerAddr (some addr) })
    | none => (none, state)

/-- The loop over the peers of a group, up to the first address that is not resolved.
A target without an address for the domain panics. -/
def resolve (insert : DomainAddress → Option FiAddr) : List (Option DomainAddress) → EfaDomain →
    Option (Except DomainAddress (List FiAddr) × EfaDomain)
  | [], state => some (.ok [], state)
  | none :: _, _ => none
  | some addr :: addrs, state =>
    match state.getOrAddRemoteAddr insert addr with
    | (none, state) => some (.error addr, state)
    | (some fiAddr, state) => do
      let (result, state) ← resolve insert addrs state
      return (result.map (fiAddr :: ·), state)

def fail (transferId : TransferId) (error : FabricLibError) : EfaDomain :=
  { state with completions := state.completions ++ [.error transferId error] }

def failedToResolve (addr : DomainAddress) : FabricLibError := .completionError ("Failed to resolve remote address: " ++ toString addr)

def doSubmitWrite (transferId : TransferId) (op : RdmaOp FiAddr) (room : Nat) : Option EfaDomain := do
  let writes ← (state.writes.doSubmitWrite provider transferId op room).toOption
  return { state with
    writes
    contexts := state.contexts ++ [(transferId, op)] }

/-- The part of `submit_send` that the writes see. -/
def submitSend (transferId : TransferId) (destAddr : DomainAddress) (insert : DomainAddress → Option FiAddr) : EfaDomain :=
  match state.getOrAddRemoteAddr insert destAddr with
  | (none, state) => state.fail transferId (failedToResolve destAddr)
  | (some _, state) => state

def submitWrite (transferId : TransferId) (destAddr : DomainAddress) (op : WriteOp) (insert : DomainAddress → Option FiAddr) (room : Nat) :
    Option EfaDomain :=
  match state.getOrAddRemoteAddr insert destAddr with
  | (none, state) => some (state.fail transferId (failedToResolve destAddr))
  | (some addr, state) => state.doSubmitWrite transferId (.write op addr) room

def addPeerGroup (handle : PeerGroupHandle) (addrs : List DomainAddress) (insert : DomainAddress → Option FiAddr) : Option EfaDomain :=
  if (state.peerGroups handle).isSome then some state
  else do
    match ← resolve insert (addrs.map some) state with
    | (.error _, state) => return state
    | (.ok fiAddrs, state) => return { state with peerGroups := Function.update state.peerGroups handle (some fiAddrs) }

def submitGroupWrite (transferId : TransferId) (handle : Option PeerGroupHandle) (op : ScatterGroupWriteOp)
    (insert : DomainAddress → Option FiAddr) (room : Nat) : Option EfaDomain :=
  match handle with
  | some handle =>
    match state.peerGroups handle with
    | none => some (state.fail transferId (.custom "Peer group not found"))
    | some addrs => state.doSubmitWrite transferId (.scatter op addrs) room
  | none => do
    match ← resolve insert (op.dsts.map fun dst => (dst.dstMr.addrRkeyList[op.domainIdx]?).map Prod.fst) state with
    | (.error addr, state) => return state.fail transferId (failedToResolve addr)
    | (.ok addrs, state) => state.doSubmitWrite transferId (.scatter op addrs) room

def progressRdmaWriteOps (room : Nat) : Option EfaDomain := do
  let writes ← (state.writes.progressRdmaWriteOps provider room).toOption
  return { state with writes }

/-- The completion of a write, as `poll_cq` gets it. -/
def handleCqe (slot : Nat) (request : FiMsgRma × Bool) (failure : Option FabricLibError) : Option EfaDomain := do
  let (entry, writes) ← (state.writes.handleCqe slot request failure).toOption
  return { state with
    writes
    completions := state.completions ++ entry.toList }

/-- What happens in a domain besides the writes that are submitted to it. -/
inductive Event where
  | submitSend (transferId : TransferId) (destAddr : DomainAddress) (insert : DomainAddress → Option FiAddr)
  | addPeerGroup (handle : PeerGroupHandle) (addrs : List DomainAddress) (insert : DomainAddress → Option FiAddr)
  | progress (room : Nat)
  | cqe (slot : Nat) (request : FiMsgRma × Bool) (failure : Option FabricLibError)

def act (state : EfaDomain) : Event → Option EfaDomain
  | .submitSend transferId destAddr insert => some (state.submitSend transferId destAddr insert)
  | .addPeerGroup handle addrs insert => state.addPeerGroup handle addrs insert
  | .progress room => state.progressRdmaWriteOps room
  | .cqe slot request failure => state.handleCqe slot request failure

end EfaDomain

end PplxGarden.Fabric.Efa
