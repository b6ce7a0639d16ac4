import PplxGarden.Library.Pool
import PplxGarden.Library.Runs
import Mathlib.Algebra.Ring.Nat

/-! The object pool of the domains, chunk by chunk. A pointer is the slot it points to. -/

namespace PplxGarden.Fabric
open Library

structure Slot where
  chunk : Nat
  index : Nat
deriving Repr, DecidableEq

/-- The slot that was freed last is the first of `freeList`. -/
structure ObjectPool where
  chunks : Nat
  chunkSize : Nat
  nextInLast : Nat
  freeList : List Slot
deriving Repr, DecidableEq

namespace ObjectPool

def withChunkSize (chunkSize : Nat) : Option ObjectPool := if 0 < chunkSize then some ⟨0, chunkSize, 0, []⟩ else none

variable (pool : ObjectPool)

def grown : ObjectPool :=
  if pool.chunks = 0 ∨ pool.nextInLast = pool.chunkSize then { pool with chunks := pool.chunks + 1, nextInLast := 0 } else pool

def allocUninit : Slot × ObjectPool :=
  match pool.freeList with
  | slot :: rest => (slot, { pool with freeList := rest })
  | [] => (⟨pool.grown.chunks - 1, pool.grown.nextInLast⟩, { pool.grown with nextInLast := pool.grown.nextInLast + 1 })

def freeNoDrop (slot : Slot) : ObjectPool := { pool with freeList := slot :: pool.freeList }

/-- The destructor of the value runs before the slot is given back. -/
def freeAndDrop (slot : Slot) : ObjectPool := pool.freeNoDrop slot

end ObjectPool

structure PoolUse where
  pool : ObjectPool
  allocated : List Slot
deriving Repr, DecidableEq

namespace PoolUse

inductive Action where
  | allocUninit
  | freeAndDrop (slot : Slot)
  | freeNoDrop (slot : Slot)

def fire (state : PoolUse) : Action → Option PoolUse
  | .allocUninit => some ⟨state.pool.allocUninit.2, state.pool.allocUninit.1 :: state.allocated⟩
  | .freeAndDrop slot => if slot ∈ state.allocated then some ⟨state.pool.freeAndDrop slot, state.allocated.erase slot⟩ else none
  | .freeNoDrop slot => if slot ∈ state.allocated then some ⟨state.pool.freeNoDrop slot, state.allocated.erase slot⟩ else none

end PoolUse

end PplxGarden.Fabric
