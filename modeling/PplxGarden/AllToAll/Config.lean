import Mathlib.Algebra.BigOperators.Group.Finset.Basic
import Mathlib.Algebra.Order.BigOperators.Group.Finset
import Mathlib.Algebra.BigOperators.Intervals
import Mathlib.Tactic.Common

/-! Static parameters of an all-to-all context and the table of routed token
counts that drives every offset computed by the worker and the kernels. -/

namespace PplxGarden.AllToAll

/-- Truncation of a host integer to the `u32` lanes the device reads. -/
def u32 (n : Nat) : Nat := n % 2 ^ 32

def ceilDiv (n d : Nat) : Nat := (n + d - 1) / d

/-- Parameters shared by all ranks. Ranks are numbered node by node and, within a
node, DP group by DP group, so the sizes must divide one another. The device tables
store ranks as `u32`, and the kernels assert a far smaller world. -/
structure Config where
  worldSize : Nat
  nodeSize : Nat
  dpSize : Nat
  numExperts : Nat
  maxPrivateTokens : Nat
  expertPadding : Nat
  hiddenDim : Nat
  hiddenDimScale : Nat
  inElemsize : Nat
  outElemsize : Nat
  scaleElemsize : Nat
  netsPerGpu : Nat
  world_pos : 0 < worldSize
  world_le : worldSize ≤ 2 ^ 32
  dp_dvd : dpSize ∣ nodeSize
  node_dvd : nodeSize ∣ worldSize
  padding_pos : 0 < expertPadding
  nets_pos : 0 < netsPerGpu

namespace Config

/-- Two ranks on one node, without scales; the smallest setting that other examples change. -/
def pair : Config where
  worldSize := 2
  nodeSize := 2
  dpSize := 1
  numExperts := 2
  maxPrivateTokens := 1
  expertPadding := 1
  hiddenDim := 8
  hiddenDimScale := 0
  inElemsize := 2
  outElemsize := 2
  scaleElemsize := 4
  netsPerGpu := 1
  world_pos := by decide
  world_le := by decide
  dp_dvd := by decide
  node_dvd := by decide
  padding_pos := by decide
  nets_pos := by decide

def twoPairs : Config :=
  { pair with
    worldSize := 2 * 2
    world_pos := by decide
    world_le := by decide
    node_dvd := Nat.dvd_mul_right 2 2 }

variable (cfg : Config)

def numDpGroups : Nat := cfg.worldSize / cfg.dpSize
def groupsPerNode : Nat := cfg.nodeSize / cfg.dpSize
def numNodes : Nat := cfg.worldSize / cfg.nodeSize
def expertsPerRank : Nat := ceilDiv cfg.numExperts cfg.worldSize

def firstExpert (rank : Nat) : Nat := rank * cfg.expertsPerRank

def lastExpert (rank : Nat) : Nat := min (cfg.firstExpert rank + cfg.expertsPerRank) cfg.numExperts

/-- `get_dispatch_token_dim`: the stride of a token in the dispatch buffers. -/
def dispatchTokenDim : Nat :=
  ceilDiv (cfg.hiddenDim * cfg.inElemsize) 16 * 16 + ceilDiv (cfg.hiddenDimScale * cfg.scaleElemsize) 16 * 16 + 16

/-- `get_combine_token_dim`: the stride of a token in the combine buffers. -/
def combineTokenDim : Nat := ceilDiv (cfg.hiddenDim * cfg.outElemsize) 16 * 16

theorem node_pos : 0 < cfg.nodeSize := Nat.pos_of_dvd_of_pos cfg.node_dvd cfg.world_pos
theorem dp_pos : 0 < cfg.dpSize := Nat.pos_of_dvd_of_pos cfg.dp_dvd cfg.node_pos

theorem groups_mul : cfg.numDpGroups * cfg.dpSize = cfg.worldSize :=
  Nat.div_mul_cancel (cfg.dp_dvd.trans cfg.node_dvd)

theorem node_groups_mul : cfg.groupsPerNode * cfg.dpSize = cfg.nodeSize := Nat.div_mul_cancel cfg.dp_dvd
theorem nodes_mul : cfg.numNodes * cfg.nodeSize = cfg.worldSize := Nat.div_mul_cancel cfg.node_dvd

theorem nodes_groups_mul : cfg.numNodes * cfg.groupsPerNode = cfg.numDpGroups := by
  apply Nat.eq_of_mul_eq_mul_right cfg.dp_pos
  rw [Nat.mul_assoc, node_groups_mul, nodes_mul, groups_mul]

theorem groupsPerNode_pos : 0 < cfg.groupsPerNode :=
  Nat.div_pos (Nat.le_of_dvd cfg.node_pos cfg.dp_dvd) cfg.dp_pos

theorem numNodes_pos : 0 < cfg.numNodes :=
  Nat.div_pos (Nat.le_of_dvd cfg.world_pos cfg.node_dvd) cfg.node_pos

theorem dispatchTokenDim_pos : 0 < cfg.dispatchTokenDim := by
  simp only [dispatchTokenDim]
  omega

theorem group_lt {rank : Nat} (inside : rank < cfg.worldSize) : rank / cfg.dpSize < cfg.numDpGroups := by
  apply Nat.div_lt_of_lt_mul
  rw [Nat.mul_comm, groups_mul]
  exact inside

theorem member_lt {group index : Nat} (known : group < cfg.numDpGroups) (inside : index < cfg.dpSize) :
    group * cfg.dpSize + index < cfg.worldSize := by
  have room : (group + 1) * cfg.dpSize ≤ cfg.numDpGroups * cfg.dpSize := Nat.mul_le_mul_right _ known
  rw [groups_mul, Nat.add_mul] at room
  omega

theorem node_of_group (rank : Nat) : rank / cfg.dpSize / cfg.groupsPerNode = rank / cfg.nodeSize := by
  rw [Nat.div_div_eq_div_mul, Nat.mul_comm, node_groups_mul]

/-- Every rank hosts a range of experts: no rank starts past the last expert. -/
def Admissible : Prop := (cfg.worldSize - 1) * cfg.expertsPerRank ≤ cfg.numExperts

instance : Decidable cfg.Admissible := inferInstanceAs (Decidable (_ ≤ _))

/-- Private receive slots are numbered below the bit that tags peer send buffers. -/
def SlotsFit : Prop := cfg.maxPrivateTokens * cfg.numDpGroups ≤ 2 ^ 31

instance : Decidable cfg.SlotsFit := inferInstanceAs (Decidable (_ ≤ _))

theorem experts_covered : cfg.numExperts ≤ cfg.worldSize * cfg.expertsPerRank := by
  have room := Nat.lt_mul_div_succ (cfg.numExperts + cfg.worldSize - 1) cfg.world_pos
  simp only [expertsPerRank, ceilDiv]
  rw [Nat.mul_add] at room
  omega

variable {cfg}

theorem Admissible.firstExpert_le (admissible : cfg.Admissible) {rank : Nat} (inside : rank < cfg.worldSize) :
    cfg.firstExpert rank ≤ cfg.numExperts :=
  (Nat.mul_le_mul_right _ (by omega)).trans admissible

theorem Admissible.first_le_last (admissible : cfg.Admissible) {rank : Nat} (inside : rank < cfg.worldSize) :
    cfg.firstExpert rank ≤ cfg.lastExpert rank :=
  Nat.le_min.mpr ⟨Nat.le_add_right _ _, admissible.firstExpert_le inside⟩

end Config

/-- How many tokens of each DP group are routed to each expert. A group's copies
are numbered with a 32-bit index by the dispatch kernel, which bounds its total. -/
structure RoutingTable (cfg : Config) where
  numRouted : Nat → Nat → Nat
  total_lt : ∀ group, ∑ expert ∈ Finset.range cfg.numExperts, numRouted group expert < 2 ^ 32

namespace RoutingTable

variable {cfg : Config} (table : RoutingTable cfg)

def before (group expert : Nat) : Nat := ∑ e ∈ Finset.range expert, table.numRouted group e

def tokensTo (group rank : Nat) : Nat :=
  ∑ e ∈ Finset.Ico (cfg.firstExpert rank) (cfg.lastExpert rank), table.numRouted group e

/-- Copies that a rank receives from the groups below a bound. -/
def received (rank group : Nat) : Nat := ∑ g ∈ Finset.range group, table.tokensTo g rank

/-- What a group sends and what a rank receives is counted in 31 bits. -/
structure TotalsFit : Prop where
  sent : ∀ group, group < cfg.numDpGroups → table.before group cfg.numExperts < 2 ^ 31
  received : ∀ rank, rank < cfg.worldSize → table.received rank cfg.numDpGroups < 2 ^ 31

@[simp] theorem before_zero (group : Nat) : table.before group 0 = 0 := by simp [before]

theorem before_succ (group expert : Nat) :
    table.before group (expert + 1) = table.before group expert + table.numRouted group expert :=
  Finset.sum_range_succ _ _

theorem before_mono (group : Nat) {first last : Nat} (ordered : first ≤ last) :
    table.before group first ≤ table.before group last :=
  Finset.sum_le_sum_of_subset (Finset.range_mono ordered)

theorem tokensTo_eq {group rank : Nat} (ordered : cfg.firstExpert rank ≤ cfg.lastExpert rank) :
    table.before group (cfg.firstExpert rank) + table.tokensTo group rank =
      table.before group (cfg.lastExpert rank) :=
  Finset.sum_range_add_sum_Ico _ ordered

@[simp] theorem received_zero (rank : Nat) : table.received rank 0 = 0 := by simp [received]

theorem received_succ (rank group : Nat) :
    table.received rank (group + 1) = table.received rank group + table.tokensTo group rank :=
  Finset.sum_range_succ _ _

theorem received_mono (rank : Nat) {first last : Nat} (ordered : first ≤ last) :
    table.received rank first ≤ table.received rank last :=
  Finset.sum_le_sum_of_subset (Finset.range_mono ordered)

theorem tokensTo_le_before (group rank : Nat) : table.tokensTo group rank ≤ table.before group cfg.numExperts := by
  apply Finset.sum_le_sum_of_subset
  intro expert member
  have bound := (Finset.mem_Ico.mp member).2
  exact Finset.mem_range.mpr (bound.trans_le (Nat.min_le_right _ _))

theorem tokensTo_lt (group rank : Nat) : table.tokensTo group rank < 2 ^ 32 :=
  (table.tokensTo_le_before group rank).trans_lt (table.total_lt group)

end RoutingTable

end PplxGarden.AllToAll
