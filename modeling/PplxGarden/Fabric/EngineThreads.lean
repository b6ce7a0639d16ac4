import PplxGarden.Fabric.Worker

/-! The threads around the channels of the main worker: the RDMA worker, the UVM watcher,
the callback thread and the clients. A step that would block is not taken. -/

namespace PplxGarden.Fabric

inductive WorkerCommand where
  | submitTransfer (transferId : TransferId)
  | submitSend (transferId : TransferId)
  | submitRecv (transferId : TransferId)
deriving Repr, DecidableEq

def WorkerCommand.transferId : WorkerCommand → TransferId
  | .submitTransfer transferId => transferId
  | .submitSend transferId => transferId
  | .submitRecv transferId => transferId

inductive UvmWatcherCall where
  | acquireUvmWatcher
  | releaseUvmWatcher (watcher : Nat)
deriving Repr, DecidableEq

inductive CallbackStep where
  | polling
  | submitRecv (transferId : TransferId)
  | callRelease (watcher : Nat)
  | awaitRelease (watcher : Nat)
deriving Repr, DecidableEq

def capacity : Nat := 128

/-- `sending` and `uvmSending` are what the two workers still have to send in their step,
and `posted` are the receives that the domains hold. -/
structure EngineThreads where
  cmd : List WorkerCommand
  cq : List TransferCompletionEntry
  uvmCalls : List UvmWatcherCall
  sending : List TransferCompletionEntry
  uvmSending : List (Nat × Nat × Nat)
  posted : List TransferId
  callback : CallbackStep
  recvOps : TransferId → Bool
  watchers : Nat → Bool

namespace EngineThreads

def new : EngineThreads where
  cmd := []
  cq := []
  uvmCalls := []
  sending := []
  uvmSending := []
  posted := []
  callback := .polling
  recvOps _ := false
  watchers _ := false

variable (state : EngineThreads)

/-- A client sends a command; a receive is registered first. -/
def clientCommand (command : WorkerCommand) : Option EngineThreads :=
  if state.cmd.length < capacity then
    some { state with
      cmd := state.cmd ++ [command]
      recvOps := match command with
        | .submitRecv transferId => Function.update state.recvOps transferId true
        | _ => state.recvOps }
  else none

def clientCall : Option EngineThreads :=
  if state.uvmCalls.length < capacity then some { state with uvmCalls := state.uvmCalls ++ [.acquireUvmWatcher] } else none

/-- The last part of `alloc_scalar_watcher`. -/
def clientWatch (watcher : Nat) : EngineThreads := { state with watchers := Function.update state.watchers watcher true }

/-- The domains complete a receive that was posted; anything else may come at any time. -/
def complete (posted : List TransferId) (comp : DomainCompletionEntry) : Option (List TransferId) :=
  match comp with
  | .recv transferId _ => if transferId ∈ posted then some (posted.erase transferId) else none
  | .error transferId _ => some (posted.erase transferId)
  | _ => some posted

/-- `worker_step` up to its first send: at most one command is taken, and the domains
make progress. A command that fails is reported first. -/
def workerStep (failure : Option FabricLibError) (completions : List DomainCompletionEntry) : Option EngineThreads :=
  match state.sending, state.cmd with
  | [], [] => do
    let posted ← completions.foldlM complete state.posted
    return { state with posted, sending := completions.map (·.txComp) }
  | [], command :: cmd => do
    let submitted := match command, failure with
      | .submitRecv transferId, none => state.posted ++ [transferId]
      | _, _ => state.posted
    let posted ← completions.foldlM complete submitted
    let refused := (failure.map (TransferCompletionEntry.error command.transferId)).toList
    return { state with cmd, posted, sending := refused ++ completions.map (·.txComp) }
  | _, _ => none

def workerSend : Option EngineThreads :=
  match state.sending with
  | comp :: sending => if state.cq.length < capacity then some { state with cq := state.cq ++ [comp], sending } else none
  | [] => none

/-- `uwm_worker_step` up to its first send: at most one call is served. -/
def uvmStep (events : List (Nat × Nat × Nat)) : Option EngineThreads :=
  match state.uvmSending with
  | [] =>
    let state := { state with uvmSending := events }
    match state.uvmCalls with
    | [] => some state
    | .acquireUvmWatcher :: uvmCalls => some { state with uvmCalls }
    | .releaseUvmWatcher watcher :: uvmCalls =>
      -- The callback thread goes on when it has the reply.
      match state.callback with
      | .awaitRelease _ => some { state with uvmCalls, callback := .polling, watchers := Function.update state.watchers watcher false }
      | _ => some { state with uvmCalls }
  | _ => none

def uvmSend : Option EngineThreads :=
  match state.uvmSending with
  | (id, old, new) :: uvmSending =>
    if state.cq.length < capacity then some { state with cq := state.cq ++ [.uvmWatch id old new], uvmSending } else none
  | [] => none

/-- `handle_transfer_completion` up to where it may block; `answer` is what the callback
of a watcher returns. -/
def handleTransferCompletion (answer : Except String Bool) (comp : TransferCompletionEntry) : EngineThreads :=
  match comp with
  | .recv transferId _ => if state.recvOps transferId then { state with callback := .submitRecv transferId } else state
  | .uvmWatch watcher _ _ =>
    if state.watchers watcher then
      match answer with
      | .ok true => state
      | _ => { state with callback := .callRelease watcher }
    else state
  | .error transferId _ => { state with recvOps := Function.update state.recvOps transferId false }
  | _ => state

def callbackPoll (answer : Except String Bool) : Option EngineThreads :=
  match state.callback, state.cq with
  | .polling, comp :: cq => some ({ state with cq }.handleTransferCompletion answer comp)
  | _, _ => none

/-- What the callback thread sends: a receive to the worker or a call to the watcher. -/
def callbackSend : Option EngineThreads :=
  match state.callback with
  | .submitRecv transferId =>
    if state.cmd.length < capacity then some { state with cmd := state.cmd ++ [.submitRecv transferId], callback := .polling } else none
  | .callRelease watcher =>
    if state.uvmCalls.length < capacity then
      some { state with uvmCalls := state.uvmCalls ++ [.releaseUvmWatcher watcher], callback := .awaitRelease watcher }
    else none
  | _ => none

inductive Action where
  | clientCommand (command : WorkerCommand)
  | clientCall
  | clientWatch (watcher : Nat)
  | workerStep (failure : Option FabricLibError) (completions : List DomainCompletionEntry)
  | workerSend
  | uvmStep (events : List (Nat × Nat × Nat))
  | uvmSend
  | callbackPoll (answer : Except String Bool)
  | callbackSend

def fire (state : EngineThreads) : Action → Option EngineThreads
  | .clientCommand command => state.clientCommand command
  | .clientCall => state.clientCall
  | .clientWatch watcher => some (state.clientWatch watcher)
  | .workerStep failure completions => state.workerStep failure completions
  | .workerSend => state.workerSend
  | .uvmStep events => state.uvmStep events
  | .uvmSend => state.uvmSend
  | .callbackPoll answer => state.callbackPoll answer
  | .callbackSend => state.callbackSend

/-- A thread that waits for room in the completion channel. -/
def Stuck (sending : List α) (cq : List TransferCompletionEntry) : Prop := sending ≠ [] ∧ capacity ≤ cq.length

/-- The callback thread waits for a thread that waits for the completion channel, which
only the callback thread empties. -/
def WaitCycle : Prop :=
  match state.callback with
  | .polling => False
  | .submitRecv _ => capacity ≤ state.cmd.length ∧ Stuck state.sending state.cq
  | .callRelease _ => capacity ≤ state.uvmCalls.length ∧ Stuck state.uvmSending state.cq
  | .awaitRelease _ => Stuck state.uvmSending state.cq

instance (sending : List α) (cq : List TransferCompletionEntry) : Decidable (Stuck sending cq) :=
  inferInstanceAs (Decidable (sending ≠ [] ∧ capacity ≤ cq.length))

instance : Decidable state.WaitCycle := by
  unfold WaitCycle
  split <;> infer_instance

end EngineThreads

end PplxGarden.Fabric
