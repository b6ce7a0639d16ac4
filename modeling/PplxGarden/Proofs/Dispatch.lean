import PplxGarden.AllToAll.Kernels
import PplxGarden.Proofs.Copies

/-! Where dispatch puts each copy. The sender and the receiver derive the slot of a
copy from its index among the copies that its group sends to the rank. -/

namespace PplxGarden.AllToAll.Proofs
open Library Fabric List Nat

variable {cfg : Config} {table : RoutingTable cfg}
variable {peer rank expert : Nat} {copy : TokenCopy}

theorem groupRoutes_mem (group : Nat) (route : Nat × Nat) :
    route ∈ groupRoutes table group ↔ route.1 < cfg.numExperts ∧ route.2 < table.numRouted group route.1 := by
  simp only [groupRoutes, mem_flatMap, mem_map, mem_range]
  constructor
  · rintro ⟨expert, hosted, j, below, rfl⟩
    exact ⟨hosted, below⟩
  · rintro ⟨hosted, below⟩
    exact ⟨route.1, hosted, route.2, below, rfl⟩

theorem owner_lt (hosted : expert < cfg.numExperts) : expert / cfg.expertsPerRank < cfg.worldSize := by
  apply Nat.div_lt_of_lt_mul
  rw [Nat.mul_comm]
  exact hosted.trans_le cfg.experts_covered

theorem expertsPerRank_pos (hosted : expert < cfg.numExperts) : 0 < cfg.expertsPerRank := by
  by_contra none
  have covered := cfg.experts_covered
  rw [Nat.eq_zero_of_not_pos none, mul_zero] at covered
  omega

theorem routed_owner (copy : TokenCopy) (known : copy.group < cfg.numDpGroups) (hosted : copy.expert < cfg.numExperts)
    (index : copy.index < table.numRouted copy.group copy.expert) :
    RoutedTo table (copy.expert / cfg.expertsPerRank) copy := by
  refine ⟨known, div_mul_le_self _ _, ?_, index⟩
  have width := expertsPerRank_pos hosted
  refine Nat.lt_min.mpr ⟨?_, hosted⟩
  have below := lt_mul_div_succ copy.expert width
  rw [Nat.mul_add, Nat.mul_comm cfg.expertsPerRank] at below
  simp only [Config.firstExpert]
  omega

theorem position_bound (hosted : copy.expert < cfg.numExperts)
    (index : copy.index < table.numRouted copy.group copy.expert) : position table copy < 2 ^ 32 :=
  (position_lt hosted index).trans (table.total_lt _)

theorem offset_before (group : Nat) (hosted : expert ≤ cfg.numExperts) :
    (if 0 < expert then expertOffsets table group (expert - 1) else 0) = table.before group expert := by
  split
  next positive =>
    rw [expertOffsets, Nat.sub_add_cancel positive]
    exact u32_of_lt (before_lt group hosted)
  next zero =>
    rw [Nat.eq_zero_of_not_pos zero, table.before_zero]

theorem rankOffset_eq (routed : RoutedTo table peer copy) :
    (if 0 < peer then expertOffsets table copy.group (peer * cfg.expertsPerRank - 1) else 0) =
      table.before copy.group (cfg.firstExpert peer) := by
  rw [← offset_before copy.group (routed.first.trans routed.hosted.le), Config.firstExpert]
  by_cases none : peer = 0
  · simp [none]
  · have positive : 0 < peer * cfg.expertsPerRank ∨ peer * cfg.expertsPerRank = 0 := by omega
    rcases positive with positive | zero
    · rw [if_pos (Nat.pos_of_ne_zero none), if_pos positive]
    · have first := routed.last
      rcases Nat.mul_eq_zero.mp zero with absurd' | width
      · exact absurd absurd' none
      · simp only [Config.lastExpert, Config.firstExpert, width] at first
        omega

/-- What a kernel recomputes for a route is the copy's position and its index
among the copies for the same rank. -/
theorem expertIterator_eq (routed : RoutedTo table peer copy) :
    expertIterator table copy.group copy.expert copy.index =
      ⟨copy.expert, indexOnRank table peer copy.group copy.expert copy.index, position table copy⟩ := by
  have small := position_bound routed.hosted routed.index
  have start := rankOffset_eq routed
  have split := indexOnRank_eq table routed.first
  simp only [expertIterator, offset_before copy.group routed.hosted.le, routed.owner, start]
  have exact : u32 (table.before copy.group copy.expert + copy.index) = position table copy := u32_of_lt small
  rw [exact]
  congr 1
  rw [u32, show position table copy + 2 ^ 32 - table.before copy.group (cfg.firstExpert peer) =
      indexOnRank table peer copy.group copy.expert copy.index + 2 ^ 32 by omega, add_mod_right]
  exact mod_eq_of_lt (by omega)

def Near (cfg : Config) (rank peer index : Nat) : Prop :=
  peer / cfg.nodeSize = rank / cfg.nodeSize ∧ peer ≠ rank ∧ index < cfg.maxPrivateTokens

theorem nodePeer_eq (near : peer / cfg.nodeSize = rank / cfg.nodeSize) :
    nodePeer cfg rank (peer % cfg.nodeSize) = peer := by
  rw [nodePeer, ← near]
  exact div_add_mod' _ _

section
variable {ν : Type} {content : Nat → Nat → Nat → ν}

theorem dispatchSendStores_mem (inside : rank < cfg.worldSize)
    (write : RangeWrite Buffer (ν × Nat)) :
    write ∈ dispatchSendStores table content rank ↔ ∃ peer copy, peer < cfg.worldSize ∧
      RoutedTo table peer copy ∧
      copy.group = dpGroup cfg rank ∧
        ¬ Near cfg rank peer (indexOnRank table peer copy.group copy.expert copy.index) ∧
      write = slotWrite cfg.dispatchTokenDim (.send rank) (position table copy)
        (content rank copy.expert copy.index) := by
  have own : dpGroup cfg rank < cfg.numDpGroups := cfg.group_lt inside
  simp only [dispatchSendStores, mem_filterMap, groupRoutes_mem]
  constructor
  · rintro ⟨⟨expert, j⟩, ⟨hosted, below⟩, chosen⟩
    have routed := routed_owner ⟨dpGroup cfg rank, expert, j⟩ own hosted below
    have bound := owner_lt hosted
    rw [expertIterator_eq routed] at chosen
    split at chosen
    next => cases chosen
    next far => exact ⟨_, ⟨dpGroup cfg rank, expert, j⟩, bound, routed, rfl, far, (Option.some.inj chosen).symm⟩
  · rintro ⟨peer, ⟨group, expert, j⟩, bound, routed, rfl, far, rfl⟩
    refine ⟨(expert, j), ⟨routed.hosted, routed.index⟩, ?_⟩
    rw [expertIterator_eq routed]
    simp only [ViaNvlink, routed.owner]
    exact if_neg far

theorem dispatchNvlinkStores_mem (inside : rank < cfg.worldSize)
    (write : RangeWrite Buffer (ν × Nat)) :
    write ∈ dispatchNvlinkStores table content rank ↔ ∃ peer copy, peer < cfg.worldSize ∧ RoutedTo table peer copy ∧
      copy.group = dpGroup cfg rank ∧ Near cfg rank peer (indexOnRank table peer copy.group copy.expert copy.index) ∧
      peer % cfg.dpSize = rank % cfg.dpSize ∧
      write = slotWrite cfg.dispatchTokenDim (.recv peer)
        (dpGroup cfg rank * cfg.maxPrivateTokens + indexOnRank table peer copy.group copy.expert copy.index)
        (content rank copy.expert copy.index) := by
  have own : dpGroup cfg rank < cfg.numDpGroups := cfg.group_lt inside
  simp only [dispatchNvlinkStores, mem_filterMap, groupRoutes_mem]
  constructor
  · rintro ⟨⟨expert, j⟩, ⟨hosted, below⟩, chosen⟩
    have routed := routed_owner ⟨dpGroup cfg rank, expert, j⟩ own hosted below
    have bound := owner_lt hosted
    rw [expertIterator_eq routed] at chosen
    split at chosen
    next near =>
      rw [nodePeer_eq near.1.1] at chosen
      exact ⟨_, ⟨dpGroup cfg rank, expert, j⟩, bound, routed, rfl, near.1, near.2, (Option.some.inj chosen).symm⟩
    next => cases chosen
  · rintro ⟨peer, ⟨group, expert, j⟩, bound, routed, rfl, near, index, rfl⟩
    refine ⟨(expert, j), ⟨routed.hosted, routed.index⟩, ?_⟩
    rw [expertIterator_eq routed]
    simp only [ViaNvlink, routed.owner, nodePeer_eq near.1]
    exact if_pos ⟨near, index⟩

/-- Once the send buffers are written, every copy that does not take the NVLink
shortcut sits at its position. -/
theorem sent_holds (run : DispatchRun cfg table content)
    (inside : rank < cfg.worldSize) (target : peer < cfg.worldSize) (routed : RoutedTo table peer copy)
    (group : copy.group = dpGroup cfg rank)
    (far : ¬ Near cfg rank peer (indexOnRank table peer copy.group copy.expert copy.index)) :
    Holds run.sent cfg.dispatchTokenDim (.send rank) (position table copy) (content rank copy.expert copy.index) := by
  have stored : ∀ write, write ∈ run.sends ↔ ∃ owner, owner < cfg.worldSize ∧
      write ∈ dispatchSendStores table content owner := by
    intro write
    rw [run.sends_perm.mem_iff, mem_flatMap]
    simp only [mem_range]
  apply applyAll_holds
  · intro byte bound write member covers
    obtain ⟨owner, known, listed⟩ := (stored write).mp member
    obtain ⟨other, another, _, sent, ofOwner, _, rfl⟩ := (dispatchSendStores_mem known write).mp listed
    obtain ⟨same, slot⟩ := (slotWrite_covers bound).mp covers
    obtain rfl : owner = rank := Buffer.send.inj same
    obtain rfl := position_injective (ofOwner.trans group.symm) sent.index routed.index slot
    exact slotWrite_data _ _ _ _ _
  · intro byte bound
    refine ⟨slotWrite cfg.dispatchTokenDim (.send rank) (position table copy) (content rank copy.expert copy.index), ?_, ?_⟩
    · exact (stored _).mpr ⟨rank, inside, (dispatchSendStores_mem inside _).mpr
        ⟨peer, copy, target, routed, group, far, rfl⟩⟩
    · exact (slotWrite_covers bound).mpr ⟨rfl, rfl⟩

/-- The transfers of a dispatch: NVLink stores, ranges for the private parts and
ranges behind them. -/
inductive Transferred (run : DispatchRun cfg table content) : RangeWrite Buffer (ν × Nat) → Prop where
  | nvlink {rank peer : Nat} {copy : TokenCopy} (inside : rank < cfg.worldSize) (target : peer < cfg.worldSize)
      (routed : RoutedTo table peer copy) (group : copy.group = dpGroup cfg rank)
      (near : Near cfg rank peer (indexOnRank table peer copy.group copy.expert copy.index))
      (index : peer % cfg.dpSize = rank % cfg.dpSize) :
      Transferred run (slotWrite cfg.dispatchTokenDim (.recv peer)
        (dpGroup cfg rank * cfg.maxPrivateTokens + indexOnRank table peer copy.group copy.expert copy.index)
        (content rank copy.expert copy.index))
  | initial {rank peer : Nat} (inside : rank < cfg.worldSize) (target : peer < cfg.worldSize)
      (far : peer / cfg.nodeSize ≠ rank / cfg.nodeSize) :
      Transferred run (scatterWrite rank run.sent (privateTarget table rank peer))
  | overflow {rank peer : Nat} (inside : rank < cfg.worldSize) (target : peer < cfg.worldSize)
      (far : peer / cfg.nodeSize ≠ rank / cfg.nodeSize) (index : peer % cfg.dpSize = rank % cfg.dpSize)
      (many : cfg.maxPrivateTokens < table.tokensTo (dpGroup cfg rank) peer) :
      Transferred run (scatterWrite rank run.sent (overflowTarget table rank peer))

/-- Everything one rank sends, once the routing computations are carried out. -/
def rankTransfers (table : RoutingTable cfg) (content : Nat → Nat → Nat → ν)
    (source : Memory Buffer (ν × Nat)) (rank : Nat) : List (RangeWrite Buffer (ν × Nat)) :=
  dispatchNvlinkStores table content rank ++
    ((remoteRanks cfg rank).map (privateTarget table rank) ++
      (routingInfo table rank).dispatchRanges).map (scatterWrite rank source)

private theorem dispatchTransfers_eq (admissible : cfg.Admissible) (source : Memory Buffer (ν × Nat)) :
    (List.range cfg.worldSize).mapM (fun rank => dispatchTransfers table content rank source) =
      some ((List.range cfg.worldSize).map (rankTransfers table content source)) := by
  apply mapM_values
  intro rank member
  have inside := mem_range.mp member
  simp only [dispatchTransfers, dispatchInitialRoutes_eq admissible inside, processRoutingInfo_eq table admissible inside]
  rfl

/-- The run in which everything lands in program order. -/
def runInOrder (table : RoutingTable cfg) (content : Nat → Nat → Nat → ν) (admissible : cfg.Admissible)
    (initial : Memory Buffer (ν × Nat)) : DispatchRun cfg table content where
  initial
  sends := (List.range cfg.worldSize).flatMap (dispatchSendStores table content)
  sends_perm := .refl _
  perRank := (List.range cfg.worldSize).map (rankTransfers table content
    (applyAll ((List.range cfg.worldSize).flatMap (dispatchSendStores table content)) initial))
  issued := dispatchTransfers_eq admissible _
  transfers := ((List.range cfg.worldSize).map (rankTransfers table content
    (applyAll ((List.range cfg.worldSize).flatMap (dispatchSendStores table content)) initial))).flatten
  transfers_perm := .refl _

theorem transfers_mem (run : DispatchRun cfg table content) (admissible : cfg.Admissible)
    (write : RangeWrite Buffer (ν × Nat)) : write ∈ run.transfers ↔ Transferred run write := by
  have all := run.issued
  rw [dispatchTransfers_eq admissible, Option.some.injEq] at all
  rw [run.transfers_perm.mem_iff, ← all, ← flatMap_def]
  simp only [rankTransfers, mem_flatMap, mem_range, mem_append, map_append, mem_map, routingInfo,
    mem_filter, decide_eq_true_eq]
  constructor
  · rintro ⟨rank, inside, stored | ⟨_, ⟨peer, member, rfl⟩, rfl⟩ | ⟨_, ⟨peer, ⟨member, many⟩, rfl⟩, rfl⟩⟩
    · obtain ⟨peer, copy, target, routed, group, near, index, rfl⟩ := (dispatchNvlinkStores_mem inside write).mp stored
      exact .nvlink inside target routed group near index
    · obtain ⟨target, far⟩ := (remoteRanks_mem inside peer).mp member
      exact .initial inside target far
    · obtain ⟨target, far, index⟩ := (overflowRanks_mem inside peer).mp member
      exact .overflow inside target far index many
  · intro moved
    cases moved with
    | @nvlink rank peer copy inside target routed group near index =>
      exact ⟨rank, inside, Or.inl ((dispatchNvlinkStores_mem inside _).mpr
        ⟨peer, copy, target, routed, group, near, index, rfl⟩)⟩
    | @initial rank peer inside target far =>
      exact ⟨rank, inside, Or.inr (Or.inl ⟨_, ⟨peer, (remoteRanks_mem inside peer).mpr ⟨target, far⟩, rfl⟩, rfl⟩)⟩
    | @overflow rank peer inside target far index many =>
      exact ⟨rank, inside, Or.inr (Or.inr ⟨_,
        ⟨peer, ⟨(overflowRanks_mem inside peer).mpr ⟨target, far, index⟩, many⟩, rfl⟩, rfl⟩)⟩

theorem final_send (run : DispatchRun cfg table content) (admissible : cfg.Admissible) (rank address : Nat) :
    run.final (.send rank) address = run.sent (.send rank) address := by
  apply applyAll_frame
  intro write member covers
  have moved := (transfers_mem run admissible write).mp member
  cases moved with
  | nvlink => exact absurd covers.1 (by simp [slotWrite])
  | initial => exact absurd covers.1 (by simp [scatterWrite, copyWrite])
  | overflow => exact absurd covers.1 (by simp [scatterWrite, copyWrite])

def sourceOf (cfg : Config) (rank group : Nat) : Nat := group * cfg.dpSize + dpRank cfg rank

theorem sourceOf_lt {group : Nat} (known : group < cfg.numDpGroups) : sourceOf cfg rank group < cfg.worldSize :=
  cfg.member_lt known dpRank_lt

@[simp] theorem sourceOf_group (rank group : Nat) : dpGroup cfg (sourceOf cfg rank group) = group :=
  block_div group dpRank_lt

@[simp] theorem sourceOf_rem (rank group : Nat) : sourceOf cfg rank group % cfg.dpSize = rank % cfg.dpSize :=
  block_rem group dpRank_lt

theorem sourceOf_node (rank group : Nat) : sourceOf cfg rank group / cfg.nodeSize = group / cfg.groupsPerNode :=
  peer_node group dpRank_lt

private theorem sourceOf_unique (index : peer % cfg.dpSize = rank % cfg.dpSize) :
    rank = sourceOf cfg peer (dpGroup cfg rank) := by
  rw [sourceOf, dpRank, index]
  exact (div_add_mod' _ _).symm

theorem private_holds (run : DispatchRun cfg table content) (admissible : cfg.Admissible)
    (target : peer < cfg.worldSize) (routed : RoutedTo table peer copy)
    (foreign : copy.group ≠ dpGroup cfg peer)
    (fits : indexOnRank table peer copy.group copy.expert copy.index < cfg.maxPrivateTokens)
    {value : ν}
    (agree : ∀ rank, rank < cfg.worldSize → dpGroup cfg rank = copy.group →
      content rank copy.expert copy.index = value) :
    Holds run.final cfg.dispatchTokenDim (.recv peer)
      (copy.group * cfg.maxPrivateTokens + indexOnRank table peer copy.group copy.expert copy.index)
        value := by
  have split := indexOnRank_eq table routed.first
  have counted := indexOnRank_lt routed
  generalize place : indexOnRank table peer copy.group copy.expert copy.index = index at split counted fits ⊢
  apply applyAll_holds
  · intro byte bound write member covers
    have moved := (transfers_mem run admissible write).mp member
    cases moved with
    | @nvlink rank other another inside _ sent group near _ =>
      obtain ⟨same, slot⟩ := (slotWrite_covers bound).mp covers
      obtain rfl : other = peer := Buffer.recv.inj same
      have ofGroup : dpGroup cfg rank = copy.group := by
        rw [← block_div (dpGroup cfg rank) near.2.2, slot, block_div copy.group fits]
      have sameIndex : indexOnRank table other another.group another.expert another.index = index := by
        rw [← block_rem (dpGroup cfg rank) near.2.2, slot, block_rem copy.group fits]
      have sameGroup := group.trans ofGroup
      have placed : position table another = position table copy := by
        rw [← indexOnRank_eq table sent.first, sameIndex, sameGroup, split]
      obtain rfl := position_injective sameGroup sent.index routed.index placed
      rw [slot, slotWrite_data, agree rank inside ofGroup]
    | @initial rank other inside _ far =>
      obtain ⟨same, lower, upper⟩ := (copyWrite_covers rfl rfl bound).mp covers
      obtain rfl : other = peer := Buffer.recv.inj same
      obtain ⟨k, slot⟩ := Nat.exists_eq_add_of_le lower
      have ofGroup : dpGroup cfg rank = copy.group := by
        rw [← block_div copy.group fits, slot, block_div (dpGroup cfg rank) (by omega)]
      refine (copyWrite_data rfl rfl lower).trans ?_
      have apart : ¬ Near cfg rank other (indexOnRank table other copy.group copy.expert
        copy.index) := fun near => far near.1
      have held := sent_holds run inside target routed ofGroup.symm apart byte bound
      rw [agree rank inside ofGroup, ← split] at held
      rw [ofGroup, Nat.add_sub_cancel_left]
      exact held
    | @overflow rank other inside _ far _ many =>
      obtain ⟨same, lower, upper⟩ := (copyWrite_covers rfl rfl bound).mp covers
      have room := @block_le cfg.maxPrivateTokens _ _ routed.known
      omega
  · intro byte bound
    have member : sourceOf cfg peer copy.group < cfg.worldSize := sourceOf_lt routed.known
    have ofGroup : dpGroup cfg (sourceOf cfg peer copy.group) = copy.group := sourceOf_group _ _
    by_cases near : peer / cfg.nodeSize = sourceOf cfg peer copy.group / cfg.nodeSize
    · have other : peer ≠ sourceOf cfg peer copy.group := fun same => foreign (by rw [same, sourceOf_group])
      have moved : Transferred run _ :=
        .nvlink member target routed ofGroup.symm ⟨near, other, place ▸ fits⟩
        (sourceOf_rem _ _).symm
      refine ⟨_, (transfers_mem run admissible _).mpr moved, ?_⟩
      rw [slotWrite_covers bound, ofGroup, place]
      exact ⟨rfl, rfl⟩
    · have moved : Transferred run _ := .initial member target near
      refine ⟨_, (transfers_mem run admissible _).mpr moved, ?_⟩
      refine (copyWrite_covers rfl rfl bound).mpr ?_
      rw [ofGroup]
      exact ⟨rfl, Nat.le_add_right _ _, Nat.add_lt_add_left (Nat.lt_min.mpr ⟨counted, fits⟩) _⟩

theorem received_block (table : RoutingTable cfg) {first second i j : Nat}
    (left : i < table.tokensTo first rank) (right : j < table.tokensTo second rank)
    (same : table.received rank first + i = table.received rank second + j) : first = second := by
  rcases Nat.lt_trichotomy first second with below | equal | above
  · have grown := table.received_mono rank below
    rw [table.received_succ] at grown
    omega
  · exact equal
  · have grown := table.received_mono rank above
    rw [table.received_succ] at grown
    omega

theorem overflow_holds (run : DispatchRun cfg table content) (admissible : cfg.Admissible)
    (target : peer < cfg.worldSize) (routed : RoutedTo table peer copy)
    (far : copy.group / cfg.groupsPerNode ≠ peer / cfg.nodeSize)
    (exceeds : cfg.maxPrivateTokens ≤ indexOnRank table peer copy.group copy.expert copy.index) :
    Holds run.final cfg.dispatchTokenDim (.recv peer)
      (cfg.maxPrivateTokens * cfg.numDpGroups + table.received peer copy.group +
        (indexOnRank table peer copy.group copy.expert copy.index - cfg.maxPrivateTokens))
      (content (sourceOf cfg peer copy.group) copy.expert copy.index) := by
  have split := indexOnRank_eq table routed.first
  have counted := indexOnRank_lt routed
  have source : sourceOf cfg peer copy.group < cfg.worldSize := sourceOf_lt routed.known
  have remote : peer / cfg.nodeSize ≠ sourceOf cfg peer copy.group / cfg.nodeSize := by
    rw [sourceOf_node]
    exact fun same => far same.symm
  have held := sent_holds run source target routed (sourceOf_group _ _).symm (fun near => remote near.1)
  generalize indexOnRank table peer copy.group copy.expert copy.index = index at split counted exceeds ⊢
  apply applyAll_holds
  · intro byte bound write member covers
    have moved := (transfers_mem run admissible write).mp member
    cases moved with
    | @nvlink rank other another inside _ _ _ near _ =>
      obtain ⟨_, slot⟩ := (slotWrite_covers bound).mp covers
      have room : dpGroup cfg rank * cfg.maxPrivateTokens + _ ≤ _ := block_le (cfg.group_lt inside)
      have below := near.2.2
      omega
    | @initial rank other inside _ _ =>
      obtain ⟨_, lower, upper⟩ := (copyWrite_covers rfl rfl bound).mp covers
      have room : dpGroup cfg rank * cfg.maxPrivateTokens + _ ≤ _ := block_le (cfg.group_lt inside)
      omega
    | @overflow rank other inside _ _ sameIndex many =>
      obtain ⟨same, lower, upper⟩ := (copyWrite_covers rfl rfl bound).mp covers
      obtain rfl : other = peer := Buffer.recv.inj same
      obtain ⟨k, slot⟩ := Nat.exists_eq_add_of_le lower
      have ofGroup : dpGroup cfg rank = copy.group := by
        have left : k + cfg.maxPrivateTokens < table.tokensTo (dpGroup cfg rank) other := by omega
        exact received_block table left counted (by omega)
      obtain rfl : rank = sourceOf cfg other copy.group := by
        rw [← ofGroup]
        exact sourceOf_unique sameIndex
      refine (copyWrite_data rfl rfl lower).trans ?_
      rw [ofGroup, ← held byte bound, ← split]
      congr 3
      omega
  · intro byte bound
    have moved : Transferred run _ := .overflow source target remote (sourceOf_rem _ _).symm (by rw [sourceOf_group]; omega)
    refine ⟨_, (transfers_mem run admissible _).mpr moved, ?_⟩
    refine (copyWrite_covers rfl rfl bound).mpr ?_
    rw [sourceOf_group]
    exact ⟨rfl, by omega, by omega⟩

end

end PplxGarden.AllToAll.Proofs
