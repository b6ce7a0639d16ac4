import Mathlib.Data.List.AList
import Mathlib.Data.Finset.Basic
import PplxGarden.Fabric.WriteOps

/-! The connections of a Verbs domain. A peer is connected by an exchange of handshakes,
and work for it waits in three places: with the peer, with a group of peers, and in a
context that the peers of one write share. `none` is a panic, or a use of a context
that does not hold a value. The handshakes between domains are delivered at any time after
they were sent, in any order, and once. -/

namespace PplxGarden.Fabric

def FabricLibError.display : FabricLibError → String
  | .custom message => "FabricLibError: " ++ message
  | .completionError message => "Libfabric CompletionError: " ++ message
  | .domain message => "DomainError: " ++ message
  | .verbs message => message
  | .verbsCompletionError message => "VerbsCompletionError: " ++ message

namespace Verbs
open Library

/-- How domain addresses stand for the addresses of UD queue pairs. -/
structure Addressing (υ : Type) where
  fromBytes : DomainAddress → Option υ
  address : υ → DomainAddress
  fromBytes_address : ∀ udAddr, fromBytes (address udAddr) = some udAddr
  address_fromBytes : ∀ {addr udAddr}, fromBytes addr = some udAddr → address udAddr = addr

structure SendOp where
  ptr : MemoryPtr
  len : Nat
  desc : LocalDescriptor
deriving Repr, DecidableEq

inductive OutboundOp where
  | send (op : SendOp)
  | write (op : WriteOp)
deriving Repr, DecidableEq

structure Remote where
  destQpNum : Nat
  rqPsn : Nat
  sqPsn : Nat
deriving Repr, DecidableEq

structure RCQueuePair where
  qp : Qp
  qpNum : Nat
  psn : Nat
  remote : Option Remote
deriving Repr, DecidableEq

/-- `rc_init_to_rtr` followed by `rc_rtr_to_rts`. -/
def RCQueuePair.activate (rc : RCQueuePair) (peerQpNum peerPsn : Nat) : RCQueuePair :=
  { rc with remote := some ⟨peerQpNum, peerPsn, peerPsn⟩ }

/-- Contexts of group writes are kept by the cell of the pool they live in. -/
inductive PeerState where
  | connecting (pendingSubmits : List (TransferId × OutboundOp)) (pendingGroupWriteOps : List Nat)
  | established
deriving Repr, DecidableEq

structure Peer (υ : Type) where
  udAddr : υ
  msgRc : RCQueuePair
  rmaRc : RCQueuePair
  state : PeerState

structure PendingGroupWriteOp where
  transferId : TransferId
  op : Option ScatterGroupWriteOp
  rmaQps : List Qp
  pendingPeers : Finset Qp

structure ConnectingPeerGroup where
  rmaQps : List Qp
  pendingPeers : Finset Qp
  pendingGroupOps : List (TransferId × ScatterGroupWriteOp)

structure PeerHandshakeInfo (υ : Type) where
  udAddr : υ
  msgQpNum : Nat
  msgPsn : Nat
  rmaQpNum : Nat
  rmaPsn : Nat
deriving Repr, DecidableEq

inductive Failure where
  | create (reason : FabricLibError)
  | alloc
  | send (reason : FabricLibError)
deriving Repr, DecidableEq

/-- What the device does for a new peer: the numbers of its queue pairs, and a failure
if there is one. -/
structure Supply where
  msgQpNum : Nat
  rmaQpNum : Nat
  failure : Option Failure
deriving Repr, DecidableEq

inductive Operation where
  | outbound (op : OutboundOp)
  | group (op : ScatterGroupWriteOp)
deriving Repr, DecidableEq

inductive Place where
  | peer (addr : DomainAddress)
  | group (handle : PeerGroupHandle)
  | context (ptr : Nat)
  | nowhere
deriving Repr, DecidableEq

/-- What a domain has done: the calls, what became of them, the writes given a context,
the requests given to `ibv_post_send` and the group writes released, each with whether
the peers were established at that time. -/
structure History where
  asked : List (TransferId × Operation)
  refused : List (TransferId × Operation)
  accepted : List (Place × TransferId × Operation)
  submitted : List (Place × TransferId × Operation)
  contexts : List (TransferId × RdmaOp Qp)
  posts : List (Qp × Bool)
  released : List (TransferId × Bool)

/-- Queue pairs are numbered as they are created. `outbox` are the handshakes sent. -/
structure VerbsDomain (υ : Type) where
  udAddr : υ
  peers : AList fun _ : DomainAddress => Peer υ
  connectingPeerGroups : AList fun _ : PeerGroupHandle => ConnectingPeerGroup
  peerGroups : PeerGroupHandle → Option (List Qp)
  objpoolPendingGroupWriteOp : Pool PendingGroupWriteOp
  sendOps : List (TransferId × Qp × SendOp)
  writes : Provider.Writes WriteOpIter (Qp × WorkRequest)
  completions : List DomainCompletionEntry
  nextQp : Qp
  outbox : List (υ × PeerHandshakeInfo υ)
  history : History

namespace VerbsDomain

variable {υ : Type}

/-- `open`: nothing is connected. -/
def new (udAddr : υ) : VerbsDomain υ where
  udAddr := udAddr
  peers := ∅
  connectingPeerGroups := ∅
  peerGroups _ := none
  objpoolPendingGroupWriteOp := .empty
  sendOps := []
  writes := .new
  completions := []
  nextQp := 0
  outbox := []
  history := ⟨[], [], [], [], [], [], []⟩

variable (addressing : Addressing υ) (state : VerbsDomain υ)

def established (qp : Qp) : Bool :=
  state.peers.keys.any fun addr => (state.peers.lookup addr).any fun peer =>
    decide (peer.state = .established ∧ (peer.msgRc.qp = qp ∨ peer.rmaRc.qp = qp))

def ask (transferId : TransferId) (op : Operation) : VerbsDomain υ :=
  { state with history.asked := state.history.asked ++ [(transferId, op)] }

def accept (place : Place) (transferId : TransferId) (op : Operation) : VerbsDomain υ :=
  { state with history.accepted := state.history.accepted ++ [(place, transferId, op)] }

def refuse (transferId : TransferId) (op : Operation) (error : FabricLibError) : VerbsDomain υ :=
  { state with
    completions := state.completions ++ [.error transferId error]
    history.refused := state.history.refused ++ [(transferId, op)] }

def createPeer (peerAddr : DomainAddress) (supply : Supply) (pendingSubmits : List (TransferId × OutboundOp)) (pendingGroupWriteOps : List Nat) :
    Except FabricLibError (Peer υ) :=
  match addressing.fromBytes peerAddr with
  | none => .error (.custom "Invalid peer address")
  | some udAddr =>
    match supply.failure with
    | some (.create reason) => .error reason
    | _ => .ok {
        udAddr
        msgRc := ⟨state.nextQp, supply.msgQpNum, 123, none⟩
        rmaRc := ⟨state.nextQp + 1, supply.rmaQpNum, 456, none⟩
        state := .connecting pendingSubmits pendingGroupWriteOps }

def insertPeer (addr : DomainAddress) (peer : Peer υ) : VerbsDomain υ :=
  { state with
    peers := state.peers.insert addr peer
    nextQp := state.nextQp + 2 }

def handshakeInfo (peer : Peer υ) : PeerHandshakeInfo υ where
  udAddr := state.udAddr
  msgQpNum := peer.msgRc.qpNum
  msgPsn := peer.msgRc.psn
  rmaQpNum := peer.rmaRc.qpNum
  rmaPsn := peer.rmaRc.psn

/-- `ud_mempool.alloc` and `connect_peer`. -/
def connectPeer (peer : Peer υ) (supply : Supply) : Except FabricLibError (VerbsDomain υ) :=
  match supply.failure with
  | some .alloc => .error (.custom "Failed to allocate UD message buffer")
  | some (.send reason) => .error reason
  | _ => .ok { state with outbox := state.outbox ++ [(peer.udAddr, state.handshakeInfo peer)] }

/-- A new peer: create it, insert it, send it a handshake. The source has this four
times. After a failure the peer is there if it could be created. -/
def initiate (addr : DomainAddress) (supply : Supply) (pendingSubmits : List (TransferId × OutboundOp)) (pendingGroupWriteOps : List Nat) :
    Except (FabricLibError × VerbsDomain υ) (Peer υ × VerbsDomain υ) :=
  match state.createPeer addressing addr supply pendingSubmits pendingGroupWriteOps with
  | .error reason => .error (reason, state)
  | .ok peer =>
    match (state.insertPeer addr peer).connectPeer peer supply with
    | .error reason => .error (reason, state.insertPeer addr peer)
    | .ok next => .ok (peer, next)

def failedToCreatePeer (addr : DomainAddress) (reason : FabricLibError) : FabricLibError :=
  .domain ("Failed to create peer: " ++ toString addr ++ ". Reason: " ++ reason.display)

/-- `rooms` says how many requests the device takes at each submission. -/
def doSubmitWrite (transferId : TransferId) (op : RdmaOp Qp) (rooms : Nat → Nat) : Option (VerbsDomain υ) := do
  let writes ← (state.writes.doSubmitWrite provider transferId op (rooms state.history.posts.length)).toOption
  let passed := (writes.passed.drop state.writes.passed.length).map fun request => (request.1, state.established request.1)
  return { state with
    writes
    history.contexts := state.history.contexts ++ [(transferId, op)]
    history.posts := state.history.posts ++ passed }

def submitted (place : Place) (transferId : TransferId) (op : Operation) : VerbsDomain υ :=
  { state with history.submitted := state.history.submitted ++ [(place, transferId, op)] }

def doSubmitOutboundOp (place : Place) (transferId : TransferId) (op : OutboundOp) (msgQp rmaQp : Qp) (rooms : Nat → Nat) :
    Option (VerbsDomain υ) :=
  let state := state.submitted place transferId (.outbound op)
  match op with
  | .send op => some { state with sendOps := state.sendOps ++ [(transferId, msgQp, op)] }
  | .write op => state.doSubmitWrite transferId (.write op rmaQp) rooms

def doSubmitGroupWrite (place : Place) (transferId : TransferId) (rmaQps : List Qp) (op : ScatterGroupWriteOp) (rooms : Nat → Nat) :
    Option (VerbsDomain υ) :=
  let state := state.submitted place transferId (.group op)
  { state with history.released := state.history.released ++ [(transferId, rmaQps.all state.established)] }.doSubmitWrite
    transferId (.scatter op rmaQps) rooms

/-- `submit_send` and `submit_write`. -/
def submitOutboundOp (transferId : TransferId) (destAddr : DomainAddress) (op : OutboundOp) (supply : Supply) (rooms : Nat → Nat) :
    Option (VerbsDomain υ) :=
  let state := state.ask transferId (.outbound op)
  match state.peers.lookup destAddr with
  | some peer =>
    let state := state.accept (.peer destAddr) transferId (.outbound op)
    match peer.state with
    | .established => state.doSubmitOutboundOp (.peer destAddr) transferId op peer.msgRc.qp peer.rmaRc.qp rooms
    | .connecting pendingSubmits pendingGroupWriteOps => some { state with
        peers := state.peers.insert destAddr { peer with
          state := .connecting (pendingSubmits ++ [(transferId, op)]) pendingGroupWriteOps } }
  | none =>
    match state.initiate addressing destAddr supply [(transferId, op)] [] with
    | .ok (_, state) => some (state.accept (.peer destAddr) transferId (.outbound op))
    | .error (reason, state) => some (state.refuse transferId (.outbound op) (failedToCreatePeer destAddr reason))

/-- The loop over the peers of a group: `ctxPtr` is the context its new peers share. -/
structure Gathering (υ : Type) where
  domain : VerbsDomain υ
  rmaQps : List Qp
  pendingPeers : Finset Qp
  ctxPtr : Option Nat

/-- A group write takes a context when it meets its first new peer. -/
def Gathering.claim (shares : Bool) (gathering : Gathering υ) : Gathering υ :=
  match shares, gathering.ctxPtr with
  | true, none =>
    let (ptr, objpoolPendingGroupWriteOp) := gathering.domain.objpoolPendingGroupWriteOp.alloc
    { gathering with
      domain := { gathering.domain with objpoolPendingGroupWriteOp }
      ctxPtr := some ptr }
  | _, _ => gathering

/-- A peer that is known is taken as it is, connected or not. -/
def Gathering.visit (shares : Bool) (supply : DomainAddress → Supply) (gathering : Gathering υ) (addr : DomainAddress) :
    Except (FabricLibError × DomainAddress × VerbsDomain υ) (Gathering υ) :=
  match gathering.domain.peers.lookup addr with
  | some peer => .ok { gathering with rmaQps := gathering.rmaQps ++ [peer.rmaRc.qp] }
  | none =>
    let gathering := gathering.claim shares
    match gathering.domain.initiate addressing addr (supply addr) [] gathering.ctxPtr.toList with
    | .error (reason, domain) => .error (reason, addr, domain)
    | .ok (peer, domain) => .ok { gathering with
        domain
        rmaQps := gathering.rmaQps ++ [peer.rmaRc.qp]
        pendingPeers := insert peer.rmaRc.qp gathering.pendingPeers }

def gather (shares : Bool) (supply : DomainAddress → Supply) (addrs : List DomainAddress) :
    Except (FabricLibError × DomainAddress × VerbsDomain υ) (Gathering υ) :=
  addrs.foldlM (Gathering.visit addressing shares supply) ⟨state, [], ∅, none⟩

def addPeerGroup (handle : PeerGroupHandle) (addrs : List DomainAddress) (supply : DomainAddress → Supply) :
    Except FabricLibError Unit × VerbsDomain υ :=
  if (state.connectingPeerGroups.lookup handle).isSome then (.ok (), state)
  else if (state.peerGroups handle).isSome then (.ok (), state)
  else
    match state.gather addressing false supply addrs with
    | .error (reason, _, domain) => (.error reason, domain)
    | .ok { domain, rmaQps, pendingPeers, .. } =>
      if pendingPeers = ∅ then (.ok (), { domain with peerGroups := Function.update domain.peerGroups handle (some rmaQps) })
      else (.ok (), { domain with connectingPeerGroups := domain.connectingPeerGroups.insert handle ⟨rmaQps, pendingPeers, []⟩ })

/-- Park a group write until the peers it created are established. -/
def park (transferId : TransferId) (op : ScatterGroupWriteOp) (gathering : Gathering υ) : Option (VerbsDomain υ) := do
  let ptr ← gathering.ctxPtr
  let domain := gathering.domain
  let objpoolPendingGroupWriteOp ← domain.objpoolPendingGroupWriteOp.write ptr
    ⟨transferId, some op, gathering.rmaQps, gathering.pendingPeers⟩
  return { domain with objpoolPendingGroupWriteOp }.accept (.context ptr) transferId (.group op)

def submitGroupWrite (transferId : TransferId) (handle : Option PeerGroupHandle) (op : ScatterGroupWriteOp) (supply : DomainAddress → Supply)
    (rooms : Nat → Nat) : Option (VerbsDomain υ) :=
  let state := state.ask transferId (.group op)
  match handle with
  | some handle =>
    match state.connectingPeerGroups.lookup handle with
    | some group =>
      let state := state.accept (.group handle) transferId (.group op)
      some { state with
        connectingPeerGroups := state.connectingPeerGroups.insert handle
          { group with pendingGroupOps := group.pendingGroupOps ++ [(transferId, op)] } }
    | none =>
      match state.peerGroups handle with
      | none => some (state.refuse transferId (.group op) (.custom "Peer group not found"))
      | some rmaQps => (state.accept (.group handle) transferId (.group op)).doSubmitGroupWrite (.group handle) transferId rmaQps op rooms
  | none => do
    let addrs ← op.peerAddrs
    match state.gather addressing true supply addrs with
    | .error (reason, addr, domain) => return domain.refuse transferId (.group op) (failedToCreatePeer addr reason)
    | .ok gathering =>
      if gathering.pendingPeers = ∅ then
        (gathering.domain.accept .nowhere transferId (.group op)).doSubmitGroupWrite .nowhere transferId gathering.rmaQps op rooms
      else park transferId op gathering

/-- The first loop over the connecting groups: a peer is no longer pending. -/
def strike (rmaQp : Qp) (groups : AList fun _ : PeerGroupHandle => ConnectingPeerGroup) (handle : PeerGroupHandle) :
    AList fun _ : PeerGroupHandle => ConnectingPeerGroup :=
  match groups.lookup handle with
  | none => groups
  | some group => groups.insert handle { group with pendingPeers := group.pendingPeers.erase rmaQp }

def connectedPeerGroups (rmaQp : Qp) (order : List PeerGroupHandle) : List PeerGroupHandle :=
  order.filter fun handle => (state.connectingPeerGroups.lookup handle).any fun group =>
    decide (rmaQp ∈ group.pendingPeers ∧ group.pendingPeers.erase rmaQp = ∅)

/-- The second loop: a group is connected and its writes are submitted. -/
def connectGroup (rooms : Nat → Nat) (state : VerbsDomain υ) (handle : PeerGroupHandle) : Option (VerbsDomain υ) := do
  let group ← state.connectingPeerGroups.lookup handle
  let state := { state with
    connectingPeerGroups := state.connectingPeerGroups.erase handle
    peerGroups := Function.update state.peerGroups handle (some group.rmaQps) }
  group.pendingGroupOps.foldlM (fun state item => state.doSubmitGroupWrite (.group handle) item.1 group.rmaQps item.2 rooms) state

def strikeContext (rmaQp : Qp) (rooms : Nat → Nat) (state : VerbsDomain υ) (ptr : Nat) : Option (VerbsDomain υ) := do
  let context ← state.objpoolPendingGroupWriteOp.read ptr
  if rmaQp ∈ context.pendingPeers ∧ context.pendingPeers.erase rmaQp = ∅ then
    let state ← match context.op with
      | some op => state.doSubmitGroupWrite (.context ptr) context.transferId context.rmaQps op rooms
      | none => some state
    let objpoolPendingGroupWriteOp ← state.objpoolPendingGroupWriteOp.free ptr
    return { state with objpoolPendingGroupWriteOp }
  else
    let objpoolPendingGroupWriteOp ← state.objpoolPendingGroupWriteOp.write ptr
      { context with pendingPeers := context.pendingPeers.erase rmaQp }
    return { state with objpoolPendingGroupWriteOp }

/-- Establish a peer that is connecting. `order` is the order in which the map of
connecting groups is walked. -/
def establish (addr : DomainAddress) (peer : Peer υ) (info : PeerHandshakeInfo υ) (order : List PeerGroupHandle) (rooms : Nat → Nat) :
    Option (VerbsDomain υ) :=
  match peer.state with
  | .established => some state
  | .connecting pendingSubmits pendingGroupWriteOps => do
    let state := { state with
      peers := state.peers.insert addr { peer with
        msgRc := peer.msgRc.activate info.msgQpNum info.msgPsn
        rmaRc := peer.rmaRc.activate info.rmaQpNum info.rmaPsn
        state := .established } }
    let state ← pendingSubmits.foldlM
      (fun state item => state.doSubmitOutboundOp (.peer addr) item.1 item.2 peer.msgRc.qp peer.rmaRc.qp rooms) state
    let connected := state.connectedPeerGroups peer.rmaRc.qp order
    let state := { state with connectingPeerGroups := order.foldl (strike peer.rmaRc.qp) state.connectingPeerGroups }
    let state ← connected.foldlM (connectGroup rooms) state
    pendingGroupWriteOps.foldlM (strikeContext peer.rmaRc.qp rooms) state

/-- An error here is a panic of `handle_cqe`. -/
def handlePeerHandshake (info : PeerHandshakeInfo υ) (supply : Supply) (order : List PeerGroupHandle) (rooms : Nat → Nat) :
    Option (VerbsDomain υ) :=
  let addr := addressing.address info.udAddr
  if order.isPerm state.connectingPeerGroups.keys then
    match state.peers.lookup addr with
    | some peer => state.establish addr peer info order rooms
    | none =>
      match state.initiate addressing addr supply [] [] with
      | .ok (peer, state) => state.establish addr peer info order rooms
      | .error _ => none
  else none

/-- `progress_rdma_send_ops` and `progress_rdma_write_ops`, for a device that takes
`sendRoom` sends and `writeRoom` writes. -/
def progressOps (sendRoom writeRoom : Nat) : Option (VerbsDomain υ) := do
  let sends := (state.sendOps.take (sendRoom + 1)).map fun item => (item.2.1, state.established item.2.1)
  let writes ← (state.writes.progressRdmaWriteOps provider writeRoom).toOption
  let passed := (writes.passed.drop state.writes.passed.length).map fun request => (request.1, state.established request.1)
  return { state with
    sendOps := state.sendOps.drop sendRoom
    writes
    history.posts := state.history.posts ++ sends ++ passed }

def handleCqe (slot : Nat) (request : Qp × WorkRequest) (failure : Option FabricLibError) : Option (VerbsDomain υ) := do
  let (entry, writes) ← (state.writes.handleCqe slot request failure).toOption
  return { state with
    writes
    completions := state.completions ++ entry.toList }

inductive Action (υ : Type) where
  | submit (transferId : TransferId) (destAddr : DomainAddress) (op : OutboundOp) (supply : Supply) (rooms : Nat → Nat)
  | addPeerGroup (handle : PeerGroupHandle) (addrs : List DomainAddress) (supply : DomainAddress → Supply)
  | submitGroupWrite (transferId : TransferId) (handle : Option PeerGroupHandle) (op : ScatterGroupWriteOp) (supply : DomainAddress → Supply)
      (rooms : Nat → Nat)
  | handshake (info : PeerHandshakeInfo υ) (supply : Supply) (order : List PeerGroupHandle) (rooms : Nat → Nat)
  | progress (sendRoom writeRoom : Nat)
  | cqe (slot : Nat) (request : Qp × WorkRequest) (failure : Option FabricLibError)

def fire (state : VerbsDomain υ) : Action υ → Option (VerbsDomain υ)
  | .submit transferId destAddr op supply rooms => state.submitOutboundOp addressing transferId destAddr op supply rooms
  | .addPeerGroup handle addrs supply => some (state.addPeerGroup addressing handle addrs supply).2
  | .submitGroupWrite transferId handle op supply rooms => state.submitGroupWrite addressing transferId handle op supply rooms
  | .handshake info supply order rooms => state.handlePeerHandshake addressing info supply order rooms
  | .progress sendRoom writeRoom => state.progressOps sendRoom writeRoom
  | .cqe slot request failure => state.handleCqe slot request failure

end VerbsDomain

/-- `wire` are the handshakes under way, each with the address it was sent to. -/
structure Network (ι υ : Type) where
  domains : ι → VerbsDomain υ
  wire : List (υ × PeerHandshakeInfo υ)

namespace Network

variable {ι υ : Type} [DecidableEq ι]

def new (addrs : ι → υ) : Network ι υ := ⟨fun domain => .new (addrs domain), []⟩

/-- A step of one domain puts the handshakes it sends on the wire. -/
def step (addressing : Addressing υ) (network : Network ι υ) (domain : ι) (action : VerbsDomain.Action υ) (wire : List (υ × PeerHandshakeInfo υ)) :
    Option (Network ι υ) := do
  let after ← VerbsDomain.fire addressing (network.domains domain) action
  return {
    domains := Function.update network.domains domain after
    wire := wire ++ after.outbox.drop (network.domains domain).outbox.length }

inductive Action (ι υ : Type) where
  | call (domain : ι) (action : VerbsDomain.Action υ)
  | deliver (index : Nat) (domain : ι) (supply : Supply) (order : List PeerGroupHandle) (rooms : Nat → Nat)

/-- Handshakes come from the wire only. -/
def fire [DecidableEq υ] (addressing : Addressing υ) (network : Network ι υ) : Action ι υ → Option (Network ι υ)
  | .call _ (.handshake _ _ _ _) => none
  | .call domain action => network.step addressing domain action network.wire
  | .deliver index domain supply order rooms =>
    match network.wire[index]? with
    | none => none
    | some (dest, info) =>
      if dest = (network.domains domain).udAddr then
        network.step addressing domain (.handshake info supply order rooms) (network.wire.eraseIdx index)
      else none

end Network

end Verbs

end PplxGarden.Fabric
