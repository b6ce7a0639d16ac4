import PplxGarden.Fabric.EfaDomain
import PplxGarden.Fabric.VerbsDomain

/-! A domain group over domains that are modelled with their contexts. Transfers have ids
of their own, and so have the messages that are sent and received besides. -/

namespace PplxGarden.Fabric

/-- What a domain group uses of its domains. The environment decides about a submission
by a value of `ε`, and `α` are the other things that happen in a domain. -/
structure RdmaDomain (σ ε α : Type) where
  submit : σ → TransferId → DomainOp → ε → Option σ
  act : σ → α → Option σ
  messageId : α → Option TransferId
  completions : σ → List DomainCompletionEntry
  setCompletions : σ → List DomainCompletionEntry → σ

namespace Efa

def rdmaDomain : RdmaDomain EfaDomain ((DomainAddress → Option FiAddr) × Nat) EfaDomain.Event where
  submit state transferId op input :=
    match op with
    | .write dstAddr op => state.submitWrite transferId dstAddr op input.1 input.2
    | .groupWrite handle op => state.submitGroupWrite transferId handle op input.1 input.2
  act := EfaDomain.act
  messageId
    | .submitSend transferId _ _ => some transferId
    | _ => none
  completions state := state.completions
  setCompletions state completions := { state with completions }

end Efa

namespace Verbs

/-- What happens in a domain besides the writes that are submitted to it. -/
inductive VerbsDomain.Event (υ : Type) where
  | submitSend (transferId : TransferId) (destAddr : DomainAddress) (op : SendOp) (supply : Supply) (rooms : Nat → Nat)
  | addPeerGroup (handle : PeerGroupHandle) (addrs : List DomainAddress) (supply : DomainAddress → Supply)
  | handshake (info : PeerHandshakeInfo υ) (supply : Supply) (order : List PeerGroupHandle) (rooms : Nat → Nat)
  | progress (sendRoom writeRoom : Nat)
  | cqe (slot : Nat) (request : Qp × WorkRequest) (failure : Option FabricLibError)

def VerbsDomain.Event.action {υ : Type} : VerbsDomain.Event υ → VerbsDomain.Action υ
  | .submitSend transferId destAddr op supply rooms => .submit transferId destAddr (.send op) supply rooms
  | .addPeerGroup handle addrs supply => .addPeerGroup handle addrs supply
  | .handshake info supply order rooms => .handshake info supply order rooms
  | .progress sendRoom writeRoom => .progress sendRoom writeRoom
  | .cqe slot request failure => .cqe slot request failure

def rdmaDomain {υ : Type} (addressing : Addressing υ) :
    RdmaDomain (VerbsDomain υ) ((DomainAddress → Supply) × (Nat → Nat)) (VerbsDomain.Event υ) where
  submit state transferId op input :=
    match op with
    | .write dstAddr op => state.submitOutboundOp addressing transferId dstAddr (.write op) (input.1 dstAddr) input.2
    | .groupWrite handle op => state.submitGroupWrite addressing transferId handle op input.1 input.2
  act state event := state.fire addressing event.action
  messageId
    | .submitSend transferId _ _ _ _ => some transferId
    | _ => none
  completions state := state.completions
  setCompletions state completions := { state with completions }

end Verbs

/-- The group with its domains. `ids` are the transfers that were submitted. -/
structure Transfers (σ : Type) (N : Nat) where
  group : DomainGroup N
  domains : Fin N → σ
  ids : List TransferId

namespace Transfers

variable {σ ε α : Type} {N : Nat}

def new (positive : 0 < N) (regions : Fin N → Domain) (domains : Fin N → σ) : Transfers σ N where
  group := .new positive regions
  domains := domains
  ids := []

variable (domain : RdmaDomain σ ε α) (state : Transfers σ N)

/-- The domains are given the operations that a submission posts, in order. -/
def submitOps (inputs : Nat → ε) (ops : List (Posted N)) (domains : Fin N → σ) : Option (Fin N → σ) :=
  ops.zipIdx.foldlM (fun domains (op, k) => do
    let next ← domain.submit (domains op.domain) op.transferId op.op (inputs k)
    return Function.update domains op.domain next) domains

def submitTransferRequest (transferId : TransferId) (request : TransferRequest) (txCounter : Bool) (inputs : Nat → ε) : Option (Transfers σ N) := do
  let (_, group) ← Fabric.submitTransferRequest state.group transferId request txCounter
  let domains ← submitOps domain inputs (group.posted.drop state.group.posted.length) state.domains
  return { group, domains, ids := transferId :: state.ids }

def engine : Engine N where
  group := state.group
  outstanding := []
  completions i := domain.completions (state.domains i)
  sent := []
  counted := []
  reported := []

/-- `get_completion`, with the calls on transfer counters that it makes. -/
def getCompletion : Option DomainCompletionEntry × List (TransferId × Bool) × Transfers σ N :=
  let (entry, engine) := (state.engine domain).getCompletion
  (entry, engine.counted, { state with
    group := engine.group
    domains := fun i => domain.setCompletions (state.domains i) (engine.completions i) })

def setDomain (i : Fin N) (next : σ) : Transfers σ N := { state with domains := Function.update state.domains i next }

/-- An entry that is not about a write: an immediate, or a message. -/
def notice (messages : TransferId → Bool) : DomainCompletionEntry → Bool
  | .recv transferId _ => messages transferId
  | .send transferId => messages transferId
  | .error transferId _ => messages transferId
  | .immData _ => true
  | .immCountReached _ => true
  | .transfer _ => false

inductive Action (N : Nat) (ε α : Type) where
  | submit (transferId : TransferId) (request : TransferRequest) (txCounter : Bool) (inputs : Nat → ε)
  | call (call : WorkerCall N)
  | act (i : Fin N) (action : α)
  | notice (i : Fin N) (entry : DomainCompletionEntry)
  | getCompletion

/-- An id is given to one transfer only, and never to a message too. -/
def fire (messages : TransferId → Bool) (state : Transfers σ N) : Action N ε α → Option (Transfers σ N)
  | .submit transferId request txCounter inputs =>
    if transferId ∈ state.ids ∨ messages transferId = true then none
    else state.submitTransferRequest domain transferId request txCounter inputs
  | .call call => some { state with group := { state.group with domains := call.domains, peerGroups := call.peerGroups } }
  | .act i action =>
    if (domain.messageId action).all messages then (domain.act (state.domains i) action).map (state.setDomain i) else none
  | .notice i entry =>
    if notice messages entry then
      some (state.setDomain i (domain.setCompletions (state.domains i) (domain.completions (state.domains i) ++ [entry])))
    else none
  | .getCompletion => some (state.getCompletion domain).2.2

/-- How often the next call of `get_completion` reports that a transfer has succeeded. -/
def successes (transferId : TransferId) : Nat :=
  (state.getCompletion domain).1.toList.count (.transfer transferId) + (state.getCompletion domain).2.1.count (transferId, false)

/-- The next call of `get_completion` reports that a transfer has succeeded. -/
def Succeeds (transferId : TransferId) : Prop :=
  (state.getCompletion domain).1 = some (.transfer transferId) ∨ (transferId, false) ∈ (state.getCompletion domain).2.1

/-- The next call of `get_completion` returns an error of a transfer. -/
def Fails (transferId : TransferId) : Prop := ∃ error, (state.getCompletion domain).1 = some (.error transferId error)

def opsOf (posted : List (Posted N)) (i : Fin N) (transferId : TransferId) : List DomainOp :=
  (posted.filter fun op => op.domain = i ∧ op.transferId = transferId).map (·.op)

def handed (i : Fin N) (transferId : TransferId) : List DomainOp := opsOf state.group.posted i transferId

end Transfers

end PplxGarden.Fabric
