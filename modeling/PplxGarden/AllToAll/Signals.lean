import PplxGarden.AllToAll.Config
import PplxGarden.Library.GridSignal

/-! How the kernels tell the worker that they are done with its buffers. Only the
operations that matter to the done flag are kept: the accesses the flag announces,
the barriers, the shared counter and the flag itself. The counter is zero at launch. -/

namespace PplxGarden.AllToAll
open Library.Grid

abbrev numThreads : Nat := 512

instance : NeZero numThreads := ⟨by decide⟩

/-- Geometry of a launch; `tokenDim` is the padded size of a token in bytes. -/
structure Launch where
  grid : Nat
  nodeSize : Nat
  tokenDim : Nat
  grid_pos : 0 < grid

/-- Iterations of `for (i = threadIdx.x; i * sizeof(uint4) < token_dim; i += NUM_THREADS)`. -/
def vectors (tokenDim thread : Nat) : Nat :=
  (List.range tokenDim).countP fun i => decide (i * 16 < tokenDim ∧ i % numThreads = thread)

/-- `for (token = blockIdx.x; token < count; token += gridDim.x)`. -/
def blockTokens (grid count block : Nat) : List Nat := (List.range count).filter fun token => token % grid = block

/-- The kernels with a done flag and what they read. A token has `sendCopies` copies
that `dispatch_send` stores into the send buffer; `far` tells which tokens
`combine_send` stores there; `elected` is the lane chosen by `elect_one_sync`. -/
inductive Kernel where
  | dispatchSend (numTokens : Nat) (boundM : Option Nat) (sendCopies : Nat → Nat)
  | dispatchRecv (numRecvTokens numEfaTokens : Nat)
  | combineSend (numRecvTokens numEfaTokens : Nat) (far : Nat → Bool) (elected : Fin 32)

def Kernel.count : Kernel → Nat
  | .dispatchSend numTokens boundM _ => boundM.getD numTokens
  | .dispatchRecv _ numEfaTokens => numEfaTokens
  | .combineSend _ numEfaTokens _ _ => numEfaTokens

/-- The thread that raises the flag resets the counter, unless the kernel resets it at
its end. -/
def Kernel.resets : Kernel → List Op
  | .dispatchSend _ _ _ => [.resetIf]
  | .dispatchRecv _ _ => [.resetIf]
  | .combineSend _ _ _ _ => []

namespace Launch
variable (launch : Launch)

def FixedDim : Prop := launch.tokenDim = 2048 ∨ launch.tokenDim = 4096 ∨ launch.tokenDim = 7168

instance : Decidable launch.FixedDim := inferInstanceAs (Decidable (_ ∨ _))

def copyTokens (copies : Nat → Nat) (tokens : List Nat) (thread : Nat) : List Op :=
  tokens.flatMap fun token => List.replicate (copies token * vectors launch.tokenDim thread) .access

/-- The pipelined loops take up to eight tokens between two barriers. -/
def copyBatches (copies : Nat → Nat) (tokens : List Nat) (thread : Nat) : List Op :=
  (tokens.toChunks 8).flatMap fun batch => [.sync] ++ launch.copyTokens copies batch thread ++ [.sync]

def nodeSync : List Op := if 1 < launch.nodeSize then [.gridSync] else []

/-- What a thread does up to the point where the first thread of its block adds the
block's share to the counter. -/
def early : Kernel → Fin launch.grid × Fin numThreads → List Op
  | .dispatchSend numTokens boundM sendCopies, (block, thread) =>
    [.gridSync] ++
      if numTokens ≤ launch.grid then
        if block.val < boundM.getD numTokens then
          launch.copyTokens sendCopies [block.val] thread ++ if launch.FixedDim then [.sync] else []
        else []
      else launch.copyTokens sendCopies (blockTokens launch.grid (boundM.getD numTokens) block) thread ++ [.sync]
  | .dispatchRecv numRecvTokens numEfaTokens, (block, thread) =>
    [.sync, .sync] ++ launch.copyTokens (fun _ => 1) (blockTokens launch.grid (numRecvTokens - numEfaTokens) block) thread ++
      launch.nodeSync ++ [.sync, .sync] ++ launch.copyBatches (fun _ => 1) (blockTokens launch.grid numEfaTokens block) thread
  | .combineSend _ numEfaTokens far elected, (block, thread) =>
    (if thread.val = elected.val ∧ numEfaTokens = 0 then [.signal] else []) ++ [.sync, .sync] ++
      launch.copyBatches (fun token => if far token then 1 else 0) (blockTokens launch.grid numEfaTokens block) thread

def sharing : Kernel → Finset (Fin launch.grid)
  | .dispatchSend numTokens boundM _ =>
    Finset.univ.filter fun block => numTokens ≤ launch.grid → block.val < boundM.getD numTokens
  | .dispatchRecv _ _ => Finset.univ
  | .combineSend _ _ _ _ => Finset.univ

def share : Kernel → Fin launch.grid → Nat
  | .dispatchSend numTokens boundM _, block =>
    if numTokens ≤ launch.grid then 1 else (blockTokens launch.grid (boundM.getD numTokens) block).length
  | .dispatchRecv _ numEfaTokens, block => (blockTokens launch.grid numEfaTokens block).length
  | .combineSend _ numEfaTokens _ _, block => (blockTokens launch.grid numEfaTokens block).length

def trail : Kernel → Fin launch.grid × Fin numThreads → List Op
  | .dispatchSend numTokens _ _, _ =>
    (if numTokens ≤ launch.grid ∧ launch.FixedDim then [.gridSync] else []) ++ launch.nodeSync
  | .dispatchRecv _ _, _ => []
  | .combineSend numRecvTokens numEfaTokens _ elected, (block, thread) =>
    [.sync, .sync, .gridSync] ++
      launch.copyBatches (fun _ => 0) ((blockTokens launch.grid numRecvTokens block).filter fun token => numEfaTokens ≤ token) thread ++
      [.gridSync] ++ if block.val = 0 ∧ thread.val = elected.val then [.reset] else []

def program (kernel : Kernel) (thread : Fin launch.grid × Fin numThreads) : List Op :=
  launch.early kernel thread ++
    (shareOf (launch.sharing kernel) (launch.share kernel) kernel.resets thread ++ launch.trail kernel thread)

end Launch

end PplxGarden.AllToAll
