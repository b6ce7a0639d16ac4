import PplxGarden.Fabric.WriteIters

/-! The worker thread around a domain group. Every step serves a call, submits a
command, lets the domains make progress and sends on what they completed. -/

namespace PplxGarden.Fabric

inductive DomainCompletionEntry where
  | recv (transferId : TransferId) (dataLen : Nat)
  | send (transferId : TransferId)
  | transfer (transferId : TransferId)
  | immData (imm : Nat)
  | immCountReached (imm : Nat)
  | error (transferId : TransferId) (err : FabricLibError)
deriving Repr, DecidableEq

inductive TransferCompletionEntry where
  | recv (transferId : TransferId) (dataLen : Nat)
  | send (transferId : TransferId)
  | transfer (transferId : TransferId)
  | immData (imm : Nat)
  | immCountReached (imm : Nat)
  | uvmWatch (id old new : Nat)
  | error (transferId : TransferId) (err : FabricLibError)
deriving Repr, DecidableEq

def DomainCompletionEntry.txComp : DomainCompletionEntry → TransferCompletionEntry
  | .recv transferId dataLen => .recv transferId dataLen
  | .send transferId => .send transferId
  | .transfer transferId => .transfer transferId
  | .immData imm => .immData imm
  | .immCountReached imm => .immCountReached imm
  | .error transferId err => .error transferId err

def completionEntry (transferId : TransferId) : Option FabricLibError → DomainCompletionEntry
  | none => .transfer transferId
  | some err => .error transferId err

/-- The worker with its channels. `outstanding` are the operations the domains were
given and have not reported, `sent` is what went out on the completion channel, and
`counted` are the calls of `done` (false) and `error` (true) on transfer counters.
`reported` records which operations succeeded (false) and failed (true). -/
structure Engine (N : Nat) where
  group : DomainGroup N
  outstanding : List (Posted N)
  completions : Fin N → List DomainCompletionEntry
  sent : List TransferCompletionEntry
  counted : List (TransferId × Bool)
  reported : List (TransferId × Bool)

/-- A call registers memory or adds a peer group; only its effect is kept. -/
structure WorkerCall (N : Nat) where
  domains : Fin N → Domain
  peerGroups : PeerGroupHandle → Option (List (List DomainAddress))

/-- What a domain finds for an address: an endpoint, one that is still connecting, or none.
Only Verbs domains connect. -/
inductive Resolution where
  | found
  | connecting
  | failed
deriving Repr, DecidableEq

/-- What a domain meets with when it is given an operation: what it finds for addresses, the
peer groups that are still connecting, and how many requests its device takes at once. -/
structure Surroundings where
  resolve : DomainAddress → Resolution
  connecting : PeerGroupHandle → Bool
  taken : Nat

structure SubmitTransfer where
  transferId : TransferId
  request : TransferRequest
  txCounter : Bool
deriving Repr, DecidableEq

/-- What the domains may come up with while they are polled. -/
inductive Progress (N : Nat) where
  | report (op : Posted N) (failure : Option FabricLibError)
  | recv (domain : Fin N) (transferId : TransferId) (dataLen : Nat)
  | send (domain : Fin N) (transferId : TransferId)
  | immData (domain : Fin N) (imm : Nat)
  | immCountReached (domain : Fin N) (imm : Nat)
deriving Repr, DecidableEq

structure WorkerInput (N : Nat) where
  call : Option (WorkerCall N)
  command : Option SubmitTransfer
  around : Fin N → Surroundings
  progress : List (Progress N)

/-- The loop over the addresses of a group write without a handle. It ends at the first that
is not resolved, and panics at a target without an entry. -/
def ScatterGroupWriteOp.resolveTargets (op : ScatterGroupWriteOp) (resolve : DomainAddress → Resolution) : Option Resolution :=
  go op.dsts .found
where
  go : List (ScatterTarget MemoryRegionDescriptor) → Resolution → Option Resolution
    | [], sofar => some sofar
    | dst :: dsts, sofar => do
      let (addr, _) ← dst.dstMr.addrRkeyList[op.domainIdx]?
      match resolve addr with
      | .failed => return .failed
      | .connecting => go dsts .connecting
      | .found => go dsts sofar

/-- The iterator of an operation is made and hands out its first requests, for either
provider. The pages of a write are checked when its iterator is made. -/
def RdmaOp.starts (op : RdmaOp Unit) (taken : Nat) : Bool :=
  let efa := Efa.WriteOpIter.new (op.map fun _ => 0)
  let verbs := Verbs.WriteOpIter.new (op.map fun _ => 0)
  match op with
  | .write .. => efa.isSome && verbs.isSome
  | .scatter .. => efa.any (Efa.cursor.hands taken) && verbs.any (Verbs.cursor.hands taken)

/-- `submit_write` and `submit_group_write` return without a panic. An address that is not
resolved and a group that is not there are reported as errors, and what waits for a connection
is kept for later. -/
def Domain.takes (domain : Domain) (around : Surroundings) : DomainOp → Bool
  | .write dstAddr op => around.resolve dstAddr ≠ .found || (RdmaOp.write op ()).starts around.taken
  | .groupWrite (some handle) op =>
    match domain.peerGroups handle with
    | none => true
    | some addrs => around.connecting handle || (RdmaOp.scatter op (addrs.map fun _ => ())).starts around.taken
  | .groupWrite none op =>
    match op.resolveTargets around.resolve with
    | none => false
    | some .found => (RdmaOp.scatter op (op.dsts.map fun _ => ())).starts around.taken
    | some _ => true

namespace Engine

variable {N : Nat}

def new (positive : 0 < N) (domains : Fin N → Domain) : Engine N where
  group := .new positive domains
  outstanding := []
  completions _ := []
  sent := []
  counted := []
  reported := []

variable (state : Engine N)

def send (entry : TransferCompletionEntry) : Engine N := { state with sent := state.sent ++ [entry] }

def complete (domain : Fin N) (entry : DomainCompletionEntry) : Engine N :=
  { state with completions := Function.update state.completions domain (state.completions domain ++ [entry]) }

def call : Option (WorkerCall N) → Engine N
  | none => state
  | some call => { state with group := { state.group with domains := call.domains, peerGroups := call.peerGroups } }

def submitted (group : DomainGroup N) : Engine N :=
  { state with group, outstanding := state.outstanding ++ group.posted.drop state.group.posted.length }

def taken (around : Fin N → Surroundings) (group : DomainGroup N) : Bool :=
  (group.posted.drop state.group.posted.length).all fun op => (state.group.domains op.domain).takes (around op.domain) op.op

/-- An error is sent right away, whether or not the transfer has a counter. -/
def submit (around : Fin N → Surroundings) (command : SubmitTransfer) : Option (Engine N) := do
  let (result, group) ← submitTransferRequest state.group command.transferId command.request command.txCounter
  if state.taken around group then
    match result with
    | .ok () => return state.submitted group
    | .error error => return (state.submitted group).send (.error command.transferId error)
  else none

/-- A domain reports each operation once; anything else is not a report. -/
def report (op : Posted N) (failure : Option FabricLibError) : Engine N :=
  if op ∈ state.outstanding then
    { state.complete op.domain (completionEntry op.transferId failure) with
      outstanding := state.outstanding.erase op
      reported := state.reported ++ [(op.transferId, failure.isSome)] }
  else state

def progress : Progress N → Engine N
  | .report op failure => state.report op failure
  | .recv domain transferId dataLen => state.complete domain (.recv transferId dataLen)
  | .send domain transferId => state.complete domain (.send transferId)
  | .immData domain imm => state.complete domain (.immData imm)
  | .immCountReached domain imm => state.complete domain (.immCountReached imm)

def pop (domain : Fin N) (entries : List DomainCompletionEntry) : Engine N :=
  { state with completions := Function.update state.completions domain entries }

def setWriteOp (transferId : TransferId) (ctx : Option WriteOpContext) : Engine N :=
  { state with group := { state.group with writeOps := Function.update state.group.writeOps transferId ctx } }

def count (transferId : TransferId) (failed : Bool) : Engine N := { state with counted := state.counted ++ [(transferId, failed)] }

/-- The first error removes the record; every error is returned. -/
def failTransfer (transferId : TransferId) : Engine N :=
  match state.group.writeOps transferId with
  | none => state
  | some ctx =>
    let state := state.setWriteOp transferId none
    if ctx.txCounter then state.count transferId true else state

/-- `get_completion`, from some domain on: at most one entry of each domain is taken. -/
def getCompletionFrom : List (Fin N) → Engine N → Option DomainCompletionEntry × Engine N
  | [], state => (none, state)
  | domain :: domains, state =>
    match state.completions domain with
    | [] => getCompletionFrom domains state
    | entry :: entries =>
      let state := state.pop domain entries
      match entry with
      | .error transferId error => (some (.error transferId error), state.failTransfer transferId)
      | .transfer transferId =>
        match state.group.writeOps transferId with
        | none => getCompletionFrom domains state
        | some ctx =>
          let ctx := { ctx with cntDomainCompletion := ctx.cntDomainCompletion + 1 }
          if ctx.numUsedDomains = ctx.cntDomainCompletion then
            let state := state.setWriteOp transferId none
            if ctx.txCounter then (none, state.count transferId false) else (some (.transfer transferId), state)
          else getCompletionFrom domains (state.setWriteOp transferId (some ctx))
      | entry => (some entry, state)

def getCompletion : Option DomainCompletionEntry × Engine N := getCompletionFrom (List.finRange N) state

def numCompletions : Nat := ((List.finRange N).map fun domain => (state.completions domain).length).sum

def sendCompletions : Nat → Engine N → Engine N
  | 0, state => state
  | rounds + 1, state =>
    match state.getCompletion with
    | (none, state) => state
    | (some entry, state) => sendCompletions rounds (state.send entry.txComp)

def consume (around : Fin N → Surroundings) : Option SubmitTransfer → Option (Engine N)
  | none => some state
  | some command => state.submit around command

/-- Poll the domains and send their completions. Every round of the loop takes an
entry, so that it ends before its bound. -/
def poll (events : List (Progress N)) : Engine N :=
  let state := events.foldl progress state
  sendCompletions (state.numCompletions + 1) state

def workerStep (input : WorkerInput N) : Option (Engine N) := do
  let state ← (state.call input.call).consume input.around input.command
  return state.poll input.progress

end Engine

end PplxGarden.Fabric
