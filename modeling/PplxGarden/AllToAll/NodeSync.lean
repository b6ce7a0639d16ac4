import PplxGarden.AllToAll.Config
import PplxGarden.Library.Runs
import Mathlib.Data.Fintype.Basic

/-! The counters in `sync_ptrs` through which the kernels of the ranks of a node wait
for each other over NVLink. Every rank launches its kernels in stream order. -/

namespace PplxGarden.AllToAll
open Library

inductive NodeKernel where
  | dispatchSend
  | dispatchRecv
  | combineSend
  | combineRecv
deriving Repr, DecidableEq

def NodeKernel.at (launch : Nat) : NodeKernel :=
  match launch % 4 with
  | 0 => .dispatchSend
  | 1 => .dispatchRecv
  | 2 => .combineSend
  | _ => .combineRecv

/-- A word of `sync_ptrs[owner]`; the upper half starts at `NODE_SIZE`. -/
structure SyncWord (N : Nat) where
  owner : Fin N
  upper : Bool
  index : Fin N
deriving Repr, DecidableEq

variable {N : Nat}

namespace NodeKernel

def waitsOn (rank peer : Fin N) : NodeKernel → SyncWord N
  | .dispatchSend => { owner := rank, upper := false, index := peer }
  | .dispatchRecv => { owner := rank, upper := true, index := peer }
  | .combineSend => { owner := peer, upper := false, index := rank }
  | .combineRecv => { owner := rank, upper := true, index := peer }

def stores (rank peer : Fin N) : NodeKernel → SyncWord N
  | .dispatchSend => { owner := peer, upper := true, index := rank }
  | .dispatchRecv => { owner := peer, upper := false, index := rank }
  | .combineSend => { owner := peer, upper := true, index := rank }
  | .combineRecv => { owner := rank, upper := false, index := peer }

end NodeKernel

/-- Inside a kernel: the peers whose word has been seen, then those stored for. -/
inductive SyncPhase (N : Nat) where
  | waiting (seen : Finset (Fin N))
  | running (stored : Finset (Fin N))
deriving DecidableEq

/-- `counter` is `sync_counter`, the number of kernels a rank has completed. Counters
and words are kept unbounded here and compared in the 32 bits they have. -/
structure SyncState (N : Nat) where
  counter : Fin N → Nat
  phase : Fin N → SyncPhase N
  words : SyncWord N → Nat

def SyncState.initial (N : Nat) : SyncState N where
  counter _ := 0
  phase _ := .waiting ∅
  words _ := 0

/-- Every word is polled and stored by a thread of its own. -/
inductive SyncAction (N : Nat) where
  | observe (rank peer : Fin N)
  | pass (rank : Fin N)
  | store (rank peer : Fin N)
  | finish (rank : Fin N)
deriving Repr, DecidableEq

namespace SyncState
variable (state : SyncState N)

def kernel (rank : Fin N) : NodeKernel := .at (state.counter rank)

def enter (rank : Fin N) (phase : SyncPhase N) : SyncState N := { state with phase := Function.update state.phase rank phase }

def fire : SyncAction N → Option (SyncState N)
  | .observe rank peer =>
    match state.phase rank with
    | .waiting seen =>
      if u32 (state.words ((state.kernel rank).waitsOn rank peer)) = u32 (state.counter rank) then
        some (state.enter rank (.waiting (insert peer seen)))
      else none
    | .running _ => none
  | .pass rank => if state.phase rank = .waiting Finset.univ then some (state.enter rank (.running ∅)) else none
  | .store rank peer =>
    match state.phase rank with
    | .waiting _ => none
    | .running stored =>
      if peer ∈ stored then none
      else some { state.enter rank (.running (insert peer stored)) with
        words := Function.update state.words ((state.kernel rank).stores rank peer) (state.counter rank + 1) }
  | .finish rank =>
    if state.phase rank = .running Finset.univ then
      some { state.enter rank (.waiting ∅) with counter := Function.update state.counter rank (state.counter rank + 1) }
    else none

def Passed (rank : Fin N) (launch : Nat) : Prop :=
  launch < state.counter rank ∨ (launch = state.counter rank ∧ ∃ stored, state.phase rank = .running stored)

def Stored (rank : Fin N) (launch : Nat) (peer : Fin N) : Prop :=
  launch < state.counter rank ∨ (launch = state.counter rank ∧ ∃ stored, state.phase rank = .running stored ∧ peer ∈ stored)

end SyncState

/-- In every run, a rank passes the wait of this kernel only after every other rank
has stored its word at the end of the launch before. -/
def Synchronises (N : Nat) (kernel : NodeKernel) : Prop :=
  ∀ actions state, runs SyncState.fire (SyncState.initial N) actions = some state →
    ∀ rank launch, NodeKernel.at (launch + 1) = kernel → state.Passed rank (launch + 1) →
      ∀ peer, peer ≠ rank → state.Stored peer launch rank

end PplxGarden.AllToAll
