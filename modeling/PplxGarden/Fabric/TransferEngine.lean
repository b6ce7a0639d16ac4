import PplxGarden.Fabric.Callbacks
import PplxGarden.Fabric.EngineMemory

/-! Submissions to a transfer engine. The callback is stored under a new transfer id before
the engine looks for a worker and sends it the command. -/

namespace PplxGarden.Fabric

inductive EngineCommand where
  | submitTransfer (transferId : TransferId) (request : TransferRequest)
  | submitSend (transferId : TransferId) (addr : DomainAddress) (mr ptr : MemoryPtr) (len : Nat)
  | submitRecv (transferId : TransferId) (mr ptr : MemoryPtr) (len : Nat)
deriving Repr, DecidableEq

structure SendBuffer where
  ptr : MemoryPtr
  len : Nat
  mrHandle : MemoryPtr
deriving Repr, DecidableEq

/-- `down` are the devices whose worker has closed its channel, and `commands` is what the
workers were sent. -/
structure TransferEngine (α : Type) where
  nextTransferId : Nat
  engine : FabricEngine α
  down : Nat → Bool
  callbacks : Callbacks
  commands : List (Nat × EngineCommand)

namespace TransferEngine

variable {α : Type}

def new (engine : FabricEngine α) : TransferEngine α where
  nextTransferId := 0
  engine := engine
  down _ := false
  callbacks := .new
  commands := []

variable (state : TransferEngine α)

def assignTransferId : TransferId × TransferEngine α :=
  (state.nextTransferId, { state with nextTransferId := (state.nextTransferId + 1) % 2 ^ 64 })

def sendCommand (worker : Nat) (command : EngineCommand) : Except RegisterError Unit × TransferEngine α :=
  if state.down worker then (.error (.custom "Worker is down"), state)
  else (.ok (), { state with commands := state.commands ++ [(worker, command)] })

def submitTransfer (request : TransferRequest) (callback : TransferCallback) : Except RegisterError Unit × TransferEngine α :=
  let (transferId, state) := state.assignTransferId
  let state := { state with callbacks.transferOps := Function.update state.callbacks.transferOps transferId (some callback) }
  match state.engine.submitTransfer request with
  | .error error => (.error error, state)
  | .ok (worker, _) => state.sendCommand worker (.submitTransfer transferId request)

def submitSend (addr : DomainAddress) (buffer : SendBuffer) (callback : SendCallback) : Except RegisterError Unit × TransferEngine α :=
  let (transferId, state) := state.assignTransferId
  let state := { state with callbacks.sendOps := Function.update state.callbacks.sendOps transferId (some callback) }
  state.sendCommand state.engine.getMainWorker.1 (.submitSend transferId addr buffer.mrHandle buffer.ptr buffer.len)

def submitRecv (mr ptr : MemoryPtr) (len : Nat) (onRecv : Nat → Except String Unit) (onError : FabricLibError → Except String Unit) :
    Except RegisterError Unit × TransferEngine α :=
  let (transferId, state) := state.assignTransferId
  let state := { state with callbacks.recvOps := Function.update state.callbacks.recvOps transferId (some ⟨mr, ptr, len, onRecv, onError⟩) }
  state.sendCommand state.engine.getMainWorker.1 (.submitRecv transferId mr ptr len)

inductive Submission where
  | transfer (request : TransferRequest) (callback : TransferCallback)
  | send (addr : DomainAddress) (buffer : SendBuffer) (callback : SendCallback)
  | recv (mr ptr : MemoryPtr) (len : Nat) (onRecv : Nat → Except String Unit) (onError : FabricLibError → Except String Unit)

def submit : Submission → Except RegisterError Unit × TransferEngine α
  | .transfer request callback => state.submitTransfer request callback
  | .send addr buffer callback => state.submitSend addr buffer callback
  | .recv mr ptr len onRecv onError => state.submitRecv mr ptr len onRecv onError

end TransferEngine

end PplxGarden.Fabric
