import PplxGarden.Fabric.ImmCallbacks
import PplxGarden.Fabric.VerbsDomain

/-! The callbacks of a transfer engine and the thread that runs them. An entry of a map that
was looked up stays borrowed until the reference to it is dropped, and removing it blocks
while the thread borrows it itself, which is `none`. -/

namespace PplxGarden.Fabric

structure TransferCallback where
  onDone : Except String Unit
  onError : FabricLibError → Except String Unit

structure RecvContext where
  mr : MemoryPtr
  ptr : MemoryPtr
  len : Nat
  onRecv : Nat → Except String Unit
  onError : FabricLibError → Except String Unit

abbrev SendCallback := Except FabricLibError Unit → Except String Unit

abbrev UvmWatcherCallback := Nat → Nat → Except String Bool

/-- One completion may call the callbacks for immediate values several times; the first
argument of `imm` says which time it is. -/
structure Callbacks where
  imm : List (Nat → Nat → Except String Unit)
  recvOps : TransferId → Option RecvContext
  sendOps : TransferId → Option SendCallback
  transferOps : TransferId → Option TransferCallback
  immCount : Nat → Option ImmCountFn
  watchers : Nat → Option UvmWatcherCallback

inductive CallbackKey where
  | recvOps (transferId : TransferId)
  | sendOps (transferId : TransferId)
  | transferOps (transferId : TransferId)
  | immCount (imm : Nat)
  | watchers (id : Nat)
deriving Repr, DecidableEq

namespace Callbacks

variable (callbacks : Callbacks)

def new : Callbacks where
  imm := []
  recvOps _ := none
  sendOps _ := none
  transferOps _ := none
  immCount _ := none
  watchers _ := none

def erase : CallbackKey → Callbacks
  | .recvOps transferId => { callbacks with recvOps := Function.update callbacks.recvOps transferId none }
  | .sendOps transferId => { callbacks with sendOps := Function.update callbacks.sendOps transferId none }
  | .transferOps transferId => { callbacks with transferOps := Function.update callbacks.transferOps transferId none }
  | .immCount imm => { callbacks with immCount := Function.update callbacks.immCount imm none }
  | .watchers id => { callbacks with watchers := Function.update callbacks.watchers id none }

/-- The first callback that fails ends the loop. -/
def callImm (turn imm : Nat) : Except String Unit := callbacks.imm.forM fun callback => callback turn imm

end Callbacks

inductive EngineCall where
  | submitRecv (transferId : TransferId) (mr ptr : MemoryPtr) (len : Nat)
  | removeImmCount (imm : Nat)
  | releaseUvmWatcher (id : Nat)
deriving Repr, DecidableEq

structure EngineAnswers where
  submitRecv : TransferId → MemoryPtr → MemoryPtr → Nat → Except FabricLibError Unit
  removeImmCount : Nat → Option ImmCount
  releaseUvmWatcher : Nat → Except FabricLibError Unit

/-- The maps, the references that the thread holds, its calls to the engine and the errors it
logged. -/
structure CallbackState where
  callbacks : Callbacks
  refs : List CallbackKey
  calls : List EngineCall
  errors : List String

namespace CallbackState

variable (state : CallbackState)

/-- `DashMap::get`, for a key that is there. -/
def get (key : CallbackKey) : CallbackState := { state with refs := key :: state.refs }

def drop (key : CallbackKey) : CallbackState := { state with refs := state.refs.erase key }

def remove (key : CallbackKey) : Option CallbackState :=
  if key ∈ state.refs then none else some { state with callbacks := state.callbacks.erase key }

def call (call : EngineCall) : CallbackState := { state with calls := state.calls ++ [call] }

def log (context : String) (result : Except String Unit) : CallbackState :=
  match result with
  | .ok () => state
  | .error error => { state with errors := state.errors ++ [context ++ error] }

/-- Run the callbacks for the values that a removed counter still held. -/
def callOverflow (immCount : Option ImmCount) (imm : Nat) : Except String Unit :=
  match immCount with
  | none => .ok ()
  | some immCount => (List.range immCount.consume.1).forM fun turn => state.callbacks.callImm turn imm

variable (engine : EngineAnswers)

def handleTransfer (transferId : TransferId) : Option (Except String Unit × CallbackState) := do
  let handler := state.callbacks.transferOps transferId
  let state ← state.remove (.transferOps transferId)
  match handler with
  | none => return (.ok (), state)
  | some handler => return (handler.onDone, state)

def handleRecv (transferId : TransferId) (dataLen : Nat) : Except String Unit × CallbackState :=
  match state.callbacks.recvOps transferId with
  | none => (.ok (), state)
  | some handler =>
    let state := state.get (.recvOps transferId)
    match handler.onRecv dataLen with
    | .error error => (.error error, state.drop (.recvOps transferId))
    | .ok () =>
      let state := state.call (.submitRecv transferId handler.mr handler.ptr handler.len)
      let result := (engine.submitRecv transferId handler.mr handler.ptr handler.len).mapError fun error =>
        "Failed to re-register recv operation: " ++ error.display
      (result, state.drop (.recvOps transferId))

def handleSend (transferId : TransferId) : Option (Except String Unit × CallbackState) := do
  let handler := state.callbacks.sendOps transferId
  let state ← state.remove (.sendOps transferId)
  match handler with
  | none => return (.ok (), state)
  | some handler => return (handler (.ok ()), state)

def handleImmCountReached (imm : Nat) : Option (Except String Unit × CallbackState) :=
  match state.callbacks.immCount imm with
  | none => some (.ok (), state)
  | some handler =>
    let state := state.get (.immCount imm)
    match handler with
    | .once => do
      let state ← (state.drop (.immCount imm)).remove (.immCount imm)
      return (.ok (), state)
    | .repeated answer =>
      let state := state.drop (.immCount imm)
      match answer with
      | .ok true => some (.ok (), state)
      | _ => do
        let state ← state.remove (.immCount imm)
        let state := state.call (.removeImmCount imm)
        return (state.callOverflow (engine.removeImmCount imm) imm, state)

/-- The reference to the callback is dropped where the arm ends. -/
def handleUvmWatch (id old new : Nat) : Option (Except String Unit × CallbackState) :=
  match state.callbacks.watchers id with
  | none => some (.ok (), state)
  | some callback =>
    let state := state.get (.watchers id)
    match callback old new with
    | .ok true => some (.ok (), state.drop (.watchers id))
    | _ => do
      let state := (state.call (.releaseUvmWatcher id)).log "Failed to release UvmWatcher: "
        ((engine.releaseUvmWatcher id).mapError FabricLibError.display)
      let state ← state.remove (.watchers id)
      return (.ok (), state.drop (.watchers id))

def handleError (transferId : TransferId) (fabricLibError : FabricLibError) : Option (Except String Unit × CallbackState) := do
  let transferOp := state.callbacks.transferOps transferId
  let sendOp := state.callbacks.sendOps transferId
  let recvOp := state.callbacks.recvOps transferId
  let state ← state.remove (.transferOps transferId)
  match transferOp with
  | some op => return (.ok (), state.log "Failed to call error callback: " (op.onError fabricLibError))
  | none =>
    let state ← state.remove (.sendOps transferId)
    match sendOp with
    | some op => return (.ok (), state.log "Failed to call error callback: " (op (.error fabricLibError)))
    | none =>
      let state ← state.remove (.recvOps transferId)
      match recvOp with
      | some op => return (.ok (), state.log "Failed to call error callback: " (op.onError fabricLibError))
      | none => return (.ok (), state)

def handleTransferCompletion : TransferCompletionEntry → Option (Except String Unit × CallbackState)
  | .transfer transferId => state.handleTransfer transferId
  | .recv transferId dataLen => some (state.handleRecv engine transferId dataLen)
  | .send transferId => state.handleSend transferId
  | .immData imm => some (state.callbacks.callImm 0 imm, state)
  | .immCountReached imm => state.handleImmCountReached engine imm
  | .uvmWatch id old new => state.handleUvmWatch engine id old new
  | .error transferId fabricLibError => state.handleError transferId fabricLibError

end CallbackState

end PplxGarden.Fabric
