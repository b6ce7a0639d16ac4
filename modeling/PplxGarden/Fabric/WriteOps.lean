import PplxGarden.Fabric.WriteIters
import PplxGarden.Fabric.Worker
import PplxGarden.Library.Pool

/-! The writes of one domain: the contexts in their pool, the queue of contexts with
requests to post, and the device that completes what was posted. Both providers run
the same code here, except for how they post. -/

namespace PplxGarden.Fabric
open Library

namespace Provider

/-- What may go wrong: a panic of the iterator, a use of a context that is not live,
a pool slot given back twice, the assertion in `progress_rdma_write_ops`. -/
inductive Fault where
  | panic
  | useAfterFree
  | doubleFree
  | assertion
deriving Repr, DecidableEq

structure WriteOpContext (ι : Type) where
  transferId : TransferId
  rdmaOpIter : ι
  msgBuf : Nat
  totalOps : Nat
  cntPostedOps : Nat
  cntFinishedOps : Nat
  inQueue : Bool
  bad : Bool

/-- The outcome of a posting loop: the requests the device took and those it refused,
how many the code counted, and how many more the device takes before it is busy. -/
structure Posting (ι ρ : Type) where
  iter : ι
  posted : List ρ
  refused : List ρ
  count : Nat
  room : Nat

end Provider

/-- How a provider builds iterators and posts, when a write is submitted and later. -/
structure Provider (ω ι ρ : Type) where
  construct : ω → Option ι
  totalOps : ι → Nat
  eager : ι → Nat → Option (Provider.Posting ι ρ)
  progress : ι → Nat → Option (Provider.Posting ι ρ)

namespace Efa
open Provider

/-- `progress_rdma_write_op_context`: one message at a time, until the iterator is at
its end, `max_submit` messages were taken or the device is busy. -/
def post : Nat → Nat → WriteOpIter → Option (Posting WriteOpIter (FiMsgRma × Bool))
  | 0, room, iter => some ⟨iter, [], [], 0, room⟩
  | maxSubmit + 1, room, iter =>
    match iter.peek, room with
    | none, room => some ⟨iter, [], [], 0, room⟩
    | some msg, 0 => some ⟨iter, [], [msg], 0, 0⟩
    | some msg, room + 1 => do
      let posting ← post maxSubmit room (← iter.advance)
      return { posting with posted := msg :: posting.posted, count := posting.count + 1 }

def provider : Provider (RdmaOp FiAddr) WriteOpIter (FiMsgRma × Bool) where
  construct := WriteOpIter.new
  totalOps := WriteOpIter.totalOps
  eager iter room := post 1 room iter
  progress iter room := post 32 room iter

end Efa

namespace Verbs
open Provider

/-- `progress_rdma_write_op_context`: one chain at a time, until the iterator is at its
end or the device takes only a part. Each round but the last uses up room. -/
def post : Nat → Nat → WriteOpIter → Option (Posting WriteOpIter (Qp × WorkRequest))
  | 0, room, iter => some ⟨iter, [], [], 0, room⟩
  | rounds + 1, room, iter =>
    if iter.peek.wrLen = 0 then some ⟨iter, [], [], 0, room⟩
    else do
      let chain ← iter.peek.chain
      let requests := chain.map (iter.peek.qp, ·)
      if chain.length ≤ room then
        let posting ← post rounds (room - chain.length) (← iter.advance iter.peek.wrLen)
        return { posting with posted := requests ++ posting.posted, count := iter.peek.wrLen + posting.count }
      else return ⟨← iter.advance room, requests.take room, requests.drop room, room, 0⟩

def provider : Provider (RdmaOp Qp) WriteOpIter (Qp × WorkRequest) where
  construct := WriteOpIter.new
  totalOps := WriteOpIter.totalOps
  eager iter room := post (room + 1) room iter
  progress iter room := post (room + 1) room iter

end Verbs

namespace Provider

/-- `inFlight` are the requests the device has taken and not completed, with the
context they were posted for. `completed` records the outcome of the others, `passed`
every request that was given to the device, taken or not. -/
structure Writes (ι ρ : Type) where
  objpoolWriteOp : Pool (WriteOpContext ι)
  objpoolMsg : Pool Unit
  writeOps : List Nat
  inFlight : List (Nat × ρ)
  completed : List (TransferId × ρ × Bool)
  passed : List ρ

namespace Writes

variable {ω ι ρ : Type}

def new : Writes ι ρ where
  objpoolWriteOp := .empty
  objpoolMsg := .empty
  writeOps := []
  inFlight := []
  completed := []
  passed := []

variable (provider : Provider ω ι ρ) (state : Writes ι ρ)

def context (slot : Nat) : Except Fault (WriteOpContext ι) :=
  match state.objpoolWriteOp.read slot with
  | some context => .ok context
  | none => .error .useAfterFree

def setContext (slot : Nat) (context : WriteOpContext ι) : Except Fault (Writes ι ρ) :=
  match state.objpoolWriteOp.write slot context with
  | some objpoolWriteOp => .ok { state with objpoolWriteOp }
  | none => .error .useAfterFree

/-- A context that has failed posts nothing more. -/
def progressContext (post : ι → Nat → Option (Posting ι ρ)) (context : WriteOpContext ι) (room : Nat) :
    Except Fault (WriteOpContext ι × Posting ι ρ) :=
  if context.bad then .ok (context, ⟨context.rdmaOpIter, [], [], 0, room⟩)
  else
    match post context.rdmaOpIter room with
    | none => .error .panic
    | some posting => .ok ({ context with
        rdmaOpIter := posting.iter
        cntPostedOps := context.cntPostedOps + posting.count }, posting)

def hand (slot : Nat) (posting : Posting ι ρ) : Writes ι ρ :=
  { state with
    inFlight := state.inFlight ++ posting.posted.map (slot, ·)
    passed := state.passed ++ (posting.posted ++ posting.refused) }

def newContext (transferId : TransferId) (rdmaOpIter : ι) (msgBuf : Nat) : WriteOpContext ι where
  transferId := transferId
  rdmaOpIter := rdmaOpIter
  msgBuf := msgBuf
  totalOps := provider.totalOps rdmaOpIter
  cntPostedOps := 0
  cntFinishedOps := 0
  inQueue := false
  bad := false

/-- Place a new context: it is queued if there is more to post. -/
def place (slot msgBuf : Nat) (objpoolWriteOp : Pool (WriteOpContext ι)) (objpoolMsg : Pool Unit) (context : WriteOpContext ι)
    (posting : Posting ι ρ) : Except Fault (Writes ι ρ) :=
  let queued := decide (context.cntPostedOps ≠ context.totalOps)
  match objpoolWriteOp.write slot { context with inQueue := queued }, objpoolMsg.write msgBuf () with
  | some objpoolWriteOp, some objpoolMsg => .ok { state.hand slot posting with
      objpoolWriteOp
      objpoolMsg
      writeOps := if queued then state.writeOps ++ [slot] else state.writeOps }
  | _, _ => .error .useAfterFree

def doSubmitWrite (transferId : TransferId) (op : ω) (room : Nat) : Except Fault (Writes ι ρ) :=
  let (slot, objpoolWriteOp) := state.objpoolWriteOp.alloc
  let (msgBuf, objpoolMsg) := state.objpoolMsg.alloc
  match provider.construct op with
  | none => .error .panic
  | some iter => do
    let (context, posting) ← progressContext provider.eager (newContext provider transferId iter msgBuf) room
    state.place slot msgBuf objpoolWriteOp objpoolMsg context posting

def maybeDropWriteOpContext (slot : Nat) : Except Fault (Writes ι ρ) := do
  let context ← state.context slot
  if context.cntFinishedOps ≠ context.cntPostedOps then return state
  else if context.inQueue then return state
  else
    match state.objpoolMsg.free context.msgBuf, state.objpoolWriteOp.free slot with
    | some objpoolMsg, some objpoolWriteOp => return { state with objpoolMsg, objpoolWriteOp }
    | _, _ => throw .doubleFree

/-- A context at the head of the queue that has failed is taken out of the queue. -/
def discard (slot : Nat) (rest : List Nat) (context : WriteOpContext ι) : Except Fault (Writes ι ρ) := do
  let state ← { state with writeOps := rest }.setContext slot { context with inQueue := false }
  state.maybeDropWriteOpContext slot

/-- The loop over the queue. A context that posts its last request leaves the queue;
the first that cannot ends the loop. -/
def progressLoop : Nat → Nat → Writes ι ρ → Except Fault (Writes ι ρ)
  | 0, _, state => .ok state
  | rounds + 1, room, state =>
    match state.writeOps with
    | [] => .ok state
    | slot :: rest => do
      let context ← state.context slot
      if context.cntPostedOps < context.cntFinishedOps then throw .assertion
      else if context.bad then progressLoop rounds room (← state.discard slot rest context)
      else
        let (context, posting) ← progressContext provider.progress context room
        let state ← (state.hand slot posting).setContext slot context
        if context.cntPostedOps ≠ context.totalOps then return state
        else progressLoop rounds posting.room { state with writeOps := rest }

/-- Every round of the loop but the last takes a context out of the queue. -/
def progressRdmaWriteOps (room : Nat) : Except Fault (Writes ι ρ) := progressLoop provider state.writeOps.length room state

def handleWrite (slot : Nat) : Except Fault (Option DomainCompletionEntry × Writes ι ρ) := do
  let context ← state.context slot
  let context := { context with cntFinishedOps := context.cntFinishedOps + 1 }
  let state ← state.setContext slot context
  if context.cntFinishedOps < context.totalOps then return (none, state)
  else return (some (.transfer context.transferId), ← state.maybeDropWriteOpContext slot)

/-- A write has failed; only the first failure of a context is reported. -/
def handleWriteError (slot : Nat) (error : FabricLibError) : Except Fault (Option DomainCompletionEntry × Writes ι ρ) := do
  let context ← state.context slot
  let state ← state.setContext slot { context with cntFinishedOps := context.cntFinishedOps + 1, bad := true }
  let state ← state.maybeDropWriteOpContext slot
  return (if context.bad then none else some (.error context.transferId error), state)

variable [DecidableEq ρ]

def finish (slot : Nat) (request : ρ) (failed : Bool) : Except Fault (Writes ι ρ) := do
  let context ← state.context slot
  return { state with
    inFlight := state.inFlight.erase (slot, request)
    completed := state.completed ++ [(context.transferId, request, failed)] }

/-- The completion of a request in flight; there is no completion of any other. -/
def handleCqe (slot : Nat) (request : ρ) (failure : Option FabricLibError) : Except Fault (Option DomainCompletionEntry × Writes ι ρ) :=
  if (slot, request) ∈ state.inFlight then do
    let state ← state.finish slot request failure.isSome
    match failure with
    | none => state.handleWrite slot
    | some error => state.handleWriteError slot error
  else return (none, state)

/-- What a domain does to its writes, one call at a time, with the number of requests
the device takes in it or the request it completes. -/
inductive Action (ω ρ : Type) where
  | submit (transferId : TransferId) (op : ω) (room : Nat)
  | progress (room : Nat)
  | cqe (slot : Nat) (request : ρ) (failure : Option FabricLibError)

def step : Action ω ρ → Except Fault (Writes ι ρ)
  | .submit transferId op room => state.doSubmitWrite provider transferId op room
  | .progress room => state.progressRdmaWriteOps provider room
  | .cqe slot request failure => do return (← state.handleCqe slot request failure).2

def fire (state : Writes ι ρ) (action : Action ω ρ) : Option (Writes ι ρ) := (state.step provider action).toOption

end Writes

end Provider

end PplxGarden.Fabric
