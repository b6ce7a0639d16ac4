import PplxGarden.AllToAll.Rounds
import PplxGarden.AllToAll.Signals
import PplxGarden.Library.Scan
import PplxGarden.Library.Strided

/-! The first phase of `dispatch_send`, as its first block runs it: the atomic counters,
the prefix sums over them in two levels of warp shuffles, and the routes that
`ExpertIterator` reads off the results. -/

namespace PplxGarden.AllToAll
open Library

def warpSize : Nat := 32
def numWarps : Nat := 16

/-- Arrays that the first phase fills. `numRouted` is the row of the own DP group. -/
structure RouteArrays where
  tokenOffset : Nat → Nat
  numRouted : Nat → Nat
  expertOffsets : Nat → Nat

def addU32 (a b : Nat) : Nat := u32 (a + b)

def warpScan (bound : Nat) (reg : Nat → Nat) : Nat → Nat := scanFrom addU32 warpSize bound 1 reg

section
variable (cfg : Config)

def expertWarps : Nat := ceilDiv cfg.numExperts warpSize

def clearCounters (shared : Nat → Nat) : Nat → Nat := fun i => if i < cfg.numExperts then 0 else shared i

/-- `expert_offset` of every thread before the scan. -/
def loadCounts (tokensPerExpert : Nat → Nat) : Nat → Nat := fun thread => if thread < cfg.numExperts then tokensPerExpert thread else 0

/-- `expert_sums`, which reuses the memory of the counters: the last lane of every warp
stores the sum of its warp. -/
def storeSums (shared reg : Nat → Nat) : Nat → Nat :=
  fun warp => if warp < numWarps then reg (warp * warpSize + (warpSize - 1)) else shared warp

def sumWarps (expertSums : Nat → Nat) : Nat → Nat :=
  let total := warpScan (expertWarps cfg) fun lane => if lane < expertWarps cfg then expertSums lane else 0
  fun lane => if lane < warpSize ∧ lane < expertWarps cfg then total lane else expertSums lane

/-- `ExpertIterator::operator[]` on the arrays. -/
def iterate (expertOffsets : Nat → Nat) (expert tokenOffset : Nat) : ExpertAndOffset :=
  let position := u32 ((if 0 < expert then expertOffsets (expert - 1) else 0) + tokenOffset)
  let dstRank := expert / cfg.expertsPerRank
  let rankOffset := if 0 < dstRank then expertOffsets (dstRank * cfg.expertsPerRank - 1) else 0
  { expert, offset := u32 (position + 2 ^ 32 - rankOffset), position }

end

section
variable {cfg : Config} (batch : Batch cfg) (group : Nat)

/-- The first phase with its additions in a given order, from any shared memory and any
earlier contents of the arrays. -/
def routePhase (shared : Nat → Nat) (old : RouteArrays) (order : List Nat) : RouteArrays :=
  let counting := order.foldl (batch.countRoute group) { tokensPerExpert := clearCounters cfg shared, tokenOffset := old.tokenOffset }
  let counts := loadCounts cfg counting.tokensPerExpert
  let expertOffset := warpScan warpSize counts
  let expertSums := sumWarps cfg (storeSums counting.tokensPerExpert expertOffset)
  { tokenOffset := counting.tokenOffset
    numRouted := fun i => if i < numThreads ∧ i < cfg.numExperts then counts i else old.numRouted i
    expertOffsets := fun i =>
      if i < numThreads ∧ i < cfg.numExperts then
        if 0 < i / warpSize then u32 (expertSums (i / warpSize - 1) + expertOffset i) else expertOffset i
      else old.expertOffsets i }

/-- The routes that the threads of the first block count, thread by thread. -/
def countedRoutes (fuel : Nat) : Option (List (List Nat)) := sweep (2 ^ 32) (batch.numRoutes group) numThreads fuel

def routeOf (arrays : RouteArrays) (token k : Nat) : ExpertAndOffset :=
  iterate cfg arrays.expertOffsets (batch.indices group token k) (arrays.tokenOffset (token * batch.expertsPerToken + k))

end

end PplxGarden.AllToAll
