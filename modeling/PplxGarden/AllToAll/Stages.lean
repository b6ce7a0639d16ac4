import PplxGarden.AllToAll.Kernels
import PplxGarden.AllToAll.Signals
import PplxGarden.Library.Pipeline

/-! The loops over received tokens that fetch their table entries eight tokens ahead, and
the table of positions that `combine_recv` keeps in shared memory. Token numbers are
`unsigned`, so all sums of them wrap. -/

namespace PplxGarden.AllToAll
open Library

def numStages : Nat := 8

structure RecvStage where
  srcIndex : Nat
  dstIndex : Nat
deriving Repr, DecidableEq

structure SendStage where
  offset : Nat
  index : Nat
  rank : Nat
deriving Repr, DecidableEq

section
variable (grid numEfaTokens block fuel : Nat)

/-- The tokens that a block of `dispatch_recv` copies from the network buffers, with the
stages it copies them by. -/
def dispatchRecvBlock (sourceOffset paddedIndex : Nat → Nat) (shared : Nat → RecvStage) : Option (List (Nat × RecvStage)) := do
  let table := fun token => { srcIndex := sourceOffset token, dstIndex := paddedIndex token : RecvStage }
  let body := fun limit stages token => drain (2 ^ 32) grid limit stages numStages 0 token
  let final ← pipelineLoop (2 ^ 32) numStages grid table body numEfaTokens fuel (primed (2 ^ 32) numStages grid table numEfaTokens block shared)
  return final.handled

/-- The tokens that a block of `combine_send` handles in its two loops. -/
def combineSendBlock (numRecvTokens : Nat) (combineSendOffset paddedIndex sourceRank : Nat → Nat) (shared : Nat → SendStage) :
    Option (List (Nat × SendStage) × List (Nat × SendStage)) := do
  let table := fun token => { offset := combineSendOffset token, index := paddedIndex token, rank := sourceRank token : SendStage }
  -- The copies are made for `token + s * gridDim.x`; the token moves on after them.
  let body := fun limit stages token => (advance (2 ^ 32) grid limit numStages token, drainAhead (2 ^ 32) grid limit stages token numStages 0)
  let first ← pipelineLoop (2 ^ 32) numStages grid table body numEfaTokens fuel (primed (2 ^ 32) numStages grid table numRecvTokens block shared)
  let second ← pipelineLoop (2 ^ 32) numStages grid table body numRecvTokens fuel
    (primed (2 ^ 32) numStages grid table numRecvTokens first.item first.shared)
  return (first.handled, second.handled)

end

/-- A store to the shared `positions`: the slot, the token and the route it is for, and the
entry of `token_offset` it is computed from. -/
structure PositionStore where
  slot : Nat
  token : Nat
  route : Nat
  globalSlot : Nat
deriving Repr, DecidableEq

section
variable (grid numSendTokens numExpertsPerToken block : Nat)

def storePositions : Nat → Nat → Option (List PositionStore)
  | 0, _ => none
  | fuel + 1, i =>
    let localToken := u32 (i / numExpertsPerToken)
    let token := u32 (block + localToken * grid)
    let route := u32 (i % numExpertsPerToken)
    if numSendTokens ≤ token then some []
    else do
      let rest ← storePositions fuel (u32 (i + numThreads))
      return { slot := u32 (localToken * numExpertsPerToken + route), token, route, globalSlot := u32 (token * numExpertsPerToken + route) } :: rest

def positionStores (fuel : Nat) : Option (List (List PositionStore)) :=
  (List.range numThreads).mapM (storePositions grid numSendTokens numExpertsPerToken block fuel)

def combinedTokens (fuel : Nat) : Option (List Nat) := strided (2 ^ 32) numSendTokens grid fuel block

/-- The slots a block reads, each with the token and the route it is read for. -/
def positionReads (tokens : List Nat) : List (Nat × Nat × Nat) :=
  tokens.zipIdx.flatMap fun (token, localToken) =>
    (List.range numExpertsPerToken).map fun k => (localToken * numExpertsPerToken + k, token, k)

end

end PplxGarden.AllToAll
