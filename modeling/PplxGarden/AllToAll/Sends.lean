import PplxGarden.AllToAll.Steps
import PplxGarden.Library.Runs

/-! The transfers of one worker and the counter by which its barrier waits for them.
The other waits of a step only delay the worker and are left out. -/

namespace PplxGarden.AllToAll
open Library Fabric

/-- The transfers a step submits with `submit_transfer_atomic`. -/
inductive StepTransfer where
  | route
  | privateScatter
  | overflowScatter
  | dispatchBarrier
  | combineScatter
  | combineBarrier
deriving Repr, DecidableEq

/-- `subtract` is the `fetch_sub` of a barrier, `ready` its spinning and `tx_ready`. -/
inductive SendOp where
  | submit (transfer : StepTransfer)
  | subtract (numTx : Nat)
  | ready
deriving Repr, DecidableEq

/-- `barrier`. -/
def barrierOps (transfer : StepTransfer) (numTx : Nat) : List SendOp := [.submit transfer, .subtract numTx, .ready]

def submitUnless (empty : Prop) [Decidable empty] (transfer : StepTransfer) : List StepTransfer := if empty then [] else [transfer]

/-- One `step`. A route request without targets is refused by the engine and never
counted. -/
def stepOps (cfg : Config) (rank : Nat) (table : RoutingTable cfg) : Option (List SendOp) := do
  let initialRoutes ← dispatchInitialRoutes cfg rank table
  let info ← processRoutingInfo cfg rank table
  let numDispatchTx := 1 + (if initialRoutes = [] then 0 else 1) + (if info.dispatchRanges = [] then 0 else 1)
  let numCombineTx := 1 + if cfg.nodeSize < cfg.worldSize then 1 else 0
  return (submitUnless (routeTargets cfg rank = []) .route ++ submitUnless (initialRoutes = []) .privateScatter ++
      submitUnless (info.dispatchRanges = []) .overflowScatter).map .submit ++
    barrierOps .dispatchBarrier numDispatchTx ++
    (submitUnless (info.combineRanges = []) .combineScatter).map .submit ++
    barrierOps .combineBarrier numCombineTx

/-- `outstanding` lists the submitted transfers that have not completed, each with
the number of its step. `spins` is set while a barrier has to wait. -/
structure SendState where
  step : Nat
  rest : List SendOp
  txCounter : Int
  spins : Bool
  outstanding : List (Nat × StepTransfer)
deriving Repr, DecidableEq

def SendState.initial : SendState where
  step := 0
  rest := []
  txCounter := 0
  spins := false
  outstanding := []

inductive SendAction where
  | run
  | complete (transfer : Nat × StepTransfer)
deriving Repr, DecidableEq

/-- `ops step` is what the worker does in a step, unless it panics. -/
def SendState.fire (ops : Nat → Option (List SendOp)) (state : SendState) : SendAction → Option SendState
  | .complete transfer =>
    if transfer ∈ state.outstanding then
      some { state with txCounter := state.txCounter + 1, outstanding := state.outstanding.erase transfer }
    else none
  | .run =>
    match state.rest with
    | [] => (ops state.step).map fun rest => { state with step := state.step + 1, rest }
    | .submit transfer :: rest => some { state with rest, outstanding := (state.step, transfer) :: state.outstanding }
    | .subtract numTx :: rest =>
      some { state with rest, txCounter := state.txCounter - numTx, spins := decide (state.txCounter < numTx) }
    | .ready :: rest => if state.spins ∧ state.txCounter < 0 then none else some { state with rest }

/-- Whenever a barrier returns, every transfer submitted so far has completed. -/
def BarriersSettle (ops : Nat → Option (List SendOp)) : Prop :=
  ∀ actions before after, runs (SendState.fire ops) .initial actions = some before → before.rest.head? = some .ready →
    before.fire ops .run = some after → after.outstanding = []

def numSubmitted (ops : List SendOp) : Nat := (ops.map fun | .submit _ => 1 | _ => 0).sum

/-- What the barriers of a step subtract, `num_dispatch_tx + num_combine_tx`. -/
def numSubtracted (ops : List SendOp) : Nat := (ops.map fun | .subtract numTx => numTx | _ => 0).sum

end PplxGarden.AllToAll
