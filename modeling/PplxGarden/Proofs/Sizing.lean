import PplxGarden.AllToAll.Sizing
import PplxGarden.Proofs.Rounds

/-! Whether the buffers are large enough. What a rank receives always fits behind the
private slots, but a DP group also numbers all copies of its own tokens, in the send
buffers of its ranks and, for the outputs, in their receive buffers. -/

namespace PplxGarden.AllToAll.Proofs
open Library Fabric Finset Nat

variable {cfg : Config}
variable {group slot : Nat}

section
variable (batch : Batch cfg)

private theorem routesTo_past (group : Nat) {expert : Nat} (past : cfg.numExperts ≤ expert) :
    batch.routesTo group expert = 0 := by
  rw [routesTo_card, Finset.card_eq_zero, filter_eq_empty_iff]
  intro route member same
  have hosted := expertOf_lt (mem_range.mp member)
  omega

private theorem table_contiguous : Contiguous batch.table := by
  intro group peer _
  rw [expertBound, ← Config.firstExpert]
  rcases Nat.le_total (cfg.firstExpert peer) cfg.numExperts with hosted | past
  · rw [Nat.min_eq_left hosted]
  · rw [Nat.min_eq_right past]
    refine (sum_subset (range_mono past) fun expert _ outside => ?_).symm
    exact routesTo_past batch group (by simpa using outside)

end

section
variable {batch : Batch cfg} {maxNumTokens group : Nat}

private theorem tokenOf_lt {route : Nat} (inside : route < batch.numRoutes group) :
    batch.tokenOf route < batch.numTokens group := by
  rw [Batch.numRoutes, Nat.mul_comm] at inside
  exact Nat.div_lt_of_lt_mul inside

section
variable (assigned : batch.Assigned maxNumTokens)
include assigned

theorem routesTo_le (known : group < cfg.numDpGroups) (expert : Nat) :
    batch.routesTo group expert ≤ maxNumTokens := by
  refine le_trans ?_ (assigned.tokens group known)
  rw [routesTo_card, ← card_range (batch.numTokens group)]
  refine card_le_card_of_injOn batch.tokenOf ?_ ?_
  · intro route member
    exact mem_coe.mpr (mem_range.mpr (tokenOf_lt (mem_range.mp (mem_filter.mp member).1)))
  · intro first left second right token
    obtain ⟨inside, chosen⟩ := mem_filter.mp left
    obtain ⟨_, same⟩ := mem_filter.mp right
    have below := mem_range.mp inside
    have positive : 0 < batch.expertsPerToken := Nat.pos_of_mul_pos_left (zero_lt_of_lt below)
    have agree := chosen.trans same.symm
    rw [Batch.expertOf, Batch.expertOf, ← token] at agree
    have index := assigned.distinct group known _ (tokenOf_lt below) _ (mod_lt first positive)
      _ (mod_lt second positive) agree
    simp only [Batch.tokenOf] at token
    rw [← div_add_mod first batch.expertsPerToken, ← div_add_mod second batch.expertsPerToken, index, token]

private theorem numRoutes_le (known : group < cfg.numDpGroups) :
    batch.numRoutes group ≤ maxNumTokens * batch.expertsPerToken :=
  Nat.mul_le_mul_right _ (assigned.tokens group known)

theorem tokensTo_le (known : group < cfg.numDpGroups) (rank : Nat) :
    batch.table.tokensTo group rank ≤ maxNumTokens * min batch.expertsPerToken cfg.expertsPerRank := by
  rw [← Nat.mul_min_mul_left]
  refine Nat.le_min.mpr ⟨?_, ?_⟩
  · exact (batch.table.tokensTo_le_before group rank).trans (before_numRoutes batch group ▸ numRoutes_le assigned known)
  · have each := sum_le_card_nsmul (Ico (cfg.firstExpert rank) (cfg.lastExpert rank))
      (batch.table.numRouted group) maxNumTokens
      fun expert _ => routesTo_le assigned known expert
    have width : cfg.lastExpert rank - cfg.firstExpert rank ≤ cfg.expertsPerRank :=
      Nat.sub_le_iff_le_add'.mpr (Nat.min_le_left _ _)
    rw [card_Ico, nsmul_eq_mul, cast_id, Nat.mul_comm] at each
    exact each.trans (Nat.mul_le_mul_left _ width)

private theorem received_le (rank : Nat) :
    batch.table.received rank cfg.numDpGroups ≤
      maxNumTokens * cfg.numDpGroups * min batch.expertsPerToken cfg.expertsPerRank := by
  have each := sum_le_card_nsmul (range cfg.numDpGroups) (fun group => batch.table.tokensTo group rank) _
    fun group member => tokensTo_le assigned (mem_range.mp member) rank
  rwa [card_range, nsmul_eq_mul, cast_id, ← Nat.mul_assoc, Nat.mul_comm cfg.numDpGroups] at each

end

end

theorem u32_le (n : Nat) : u32 n ≤ n := mod_le _ _

section
variable {table : RoutingTable cfg} {rank slots : Nat}

/-- The buffers hold the copies that a group numbers, and what a rank receives fits
behind the private slots. -/
structure Roomy (table : RoutingTable cfg) (slots : Nat) : Prop where
  sent : ∀ group, group < cfg.numDpGroups → table.before group cfg.numExperts ≤ slots
  received : ∀ rank, rank < cfg.worldSize →
    cfg.maxPrivateTokens * cfg.numDpGroups + table.received rank cfg.numDpGroups ≤ slots

theorem slotWrite_within {dim : Nat} (buffer : Buffer) (inside : slot < slots) :
    StoreWithin slots dim (slotWrite dim buffer slot ()) := by
  have room := Nat.mul_le_mul_right dim (succ_le_of_lt inside)
  rwa [succ_mul] at room

theorem copyWithin {dim first start count : Nat} {target : ScatterTarget Nat}
    (length : target.length = count * dim) (source : target.srcOffset = first * dim)
    (destination : target.dstOffset = start * dim) (loads : first + count ≤ slots)
    (stores : start + count ≤ slots) : CopyWithin slots dim target := by
  constructor
  · rw [source, length, ← Nat.add_mul]
    exact Nat.mul_le_mul_right dim loads
  · rw [destination, length, ← Nat.add_mul]
    exact Nat.mul_le_mul_right dim stores

private theorem combineRecvPosition_lt {expert index : Nat} (hosted : expert < cfg.numExperts)
    (below : index < table.numRouted group expert) :
    combineRecvPosition table group expert index < table.before group cfg.numExperts := by
  have bound : position table ⟨group, expert, index⟩ < table.before group cfg.numExperts := position_lt hosted below
  rw [combineRecvPosition, offset_before group hosted.le]
  exact (u32_le _).trans_lt bound

private theorem private_lt (roomy : Roomy table slots) (inside : rank < cfg.worldSize) {index : Nat}
    (known : group < cfg.numDpGroups) (fits : index < cfg.maxPrivateTokens) :
    group * cfg.maxPrivateTokens + index < slots := by
  have room := Nat.mul_le_mul_left cfg.maxPrivateTokens (succ_le_of_lt known)
  have bound := roomy.received rank inside
  rw [mul_succ, Nat.mul_comm] at room
  omega

section
variable {copy : TokenCopy}

theorem Roomy.position_lt (roomy : Roomy table slots) (routed : RoutedTo table rank copy) :
    position table copy < slots :=
  (Proofs.position_lt routed.hosted routed.index).trans_le (roomy.sent _ routed.known)

theorem combineOffset_lt (roomy : Roomy table slots) (inside : rank < cfg.worldSize)
    (routed : RoutedTo table rank copy) :
    combineOffset table rank copy.group copy.expert copy.index < slots := by
  by_cases near : copy.group / cfg.groupsPerNode = rank / cfg.nodeSize
  · rw [combineOffset_near routed near]
    exact roomy.position_lt routed
  · have foreign : copy.group ≠ dpGroup cfg rank := fun own => near (by rw [own, dpGroup_node])
    have bound := received_indexOnRank routed
    have room := roomy.received rank inside
    rw [combineOffset, if_pos (Or.inl foreign), if_neg near, u32_add_left, u32_add_right]
    exact (u32_le _).trans_lt (by omega)

private theorem overflow_le {base limit : Nat} (start index : Nat) (room : limit ≤ base) :
    u32 (u32 (u32 start + index) + u32 (u32 base + 2 ^ 32 - u32 limit)) ≤ start + index + (base - limit) := by
  simp only [u32]
  omega

private theorem dispatchOffset_private_lt (roomy : Roomy table slots)
    (inside : rank < cfg.worldSize) (routed : RoutedTo table rank copy)
    (foreign : copy.group ≠ dpGroup cfg rank)
    (fits : indexOnRank table rank copy.group copy.expert copy.index < cfg.maxPrivateTokens) :
    dispatchOffset table rank copy.group copy.expert copy.index < slots := by
  simp only [dispatchOffset, if_neg foreign, index_u32 routed, if_pos fits, u32_add_left, Nat.mul_comm cfg.maxPrivateTokens]
  exact (u32_le _).trans_lt (private_lt roomy inside routed.known fits)

theorem dispatchOffset_far_lt (roomy : Roomy table slots) (inside : rank < cfg.worldSize)
    (routed : RoutedTo table rank copy)
    (far : copy.group / cfg.groupsPerNode ≠ rank / cfg.nodeSize) :
    dispatchOffset table rank copy.group copy.expert copy.index < slots := by
  have foreign : copy.group ≠ dpGroup cfg rank := fun own => far (by rw [own, dpGroup_node])
  by_cases fits : indexOnRank table rank copy.group copy.expert copy.index < cfg.maxPrivateTokens
  · exact dispatchOffset_private_lt roomy inside routed foreign fits
  · have room : cfg.maxPrivateTokens ≤ cfg.maxPrivateTokens * cfg.numDpGroups :=
      Nat.le_mul_of_pos_right _ (zero_lt_of_lt routed.known)
    have bound := received_indexOnRank routed
    have fit := roomy.received rank inside
    simp only [dispatchOffset, if_neg foreign, index_u32 routed, if_neg fits, if_neg far]
    refine (overflow_le _ _ room).trans_lt ?_
    omega

theorem dispatchOffset_near_lt (roomy : Roomy table slots) (inside : rank < cfg.worldSize)
    (routed : RoutedTo table rank copy) (foreign : copy.group ≠ dpGroup cfg rank)
    (near : copy.group / cfg.groupsPerNode = rank / cfg.nodeSize) :
    dispatchOffset table rank copy.group copy.expert copy.index &&& (2 ^ 31 - 1) < slots ∧
      (dispatchOffset table rank copy.group copy.expert copy.index &&& 2 ^ 31 = 0 →
        dispatchOffset table rank copy.group copy.expert copy.index < slots) := by
  by_cases fits : indexOnRank table rank copy.group copy.expert copy.index < cfg.maxPrivateTokens
  · have bound := dispatchOffset_private_lt roomy inside routed foreign fits
    exact ⟨and_le_left.trans_lt bound, fun _ => bound⟩
  · rw [dispatchOffset_peer routed foreign near (Nat.not_lt.mp fits)]
    refine ⟨?_, fun untagged => absurd untagged (tagged _)⟩
    rw [and_two_pow_sub_one_eq_mod, or_mod_two_pow, mod_self, or_zero]
    exact (mod_le _ _).trans_lt (roomy.position_lt routed)

end

theorem dispatchRecvSource_lt (roomy : Roomy table slots) (inside : rank < cfg.worldSize)
    (ordered : cfg.firstExpert rank ≤ cfg.lastExpert rank) {t : Nat} {buffer : Buffer}
    (source : dispatchRecvSource cfg rank (routingInfo table rank) t = some (buffer, slot)) : slot < slots := by
  simp only [dispatchRecvSource, Option.bind_eq_bind, Option.bind_eq_some_iff] at source
  obtain ⟨entry, listed, chosen⟩ := source
  have early := routedTokens_remote ordered inside listed
  obtain ⟨routed, rankEq, offset, _⟩ := entry_described inside (List.mem_of_getElem? listed)
  rw [rankEq, offset] at chosen
  split at chosen
  next remote =>
    cases chosen
    exact dispatchOffset_far_lt roomy inside routed (early.mp remote)
  next here =>
    have near := not_not.mp (mt early.mpr here)
    split at chosen
    next own =>
      cases chosen
      rw [dispatchOffset_own routed ((peer_eq_iff _).mp own)]
      exact roomy.position_lt routed
    next other =>
      have foreign : entry.copy.group ≠ dpGroup cfg rank := fun own => other ((peer_eq_iff _).mpr own)
      obtain ⟨masked, plain⟩ := dispatchOffset_near_lt roomy inside routed foreign near
      split at chosen
      next => cases chosen; exact masked
      next untagged => cases chosen; exact plain (not_not.mp untagged)

theorem Roomy.routes (roomy : Roomy table slots) (contiguous : Contiguous table) (inside : rank < cfg.worldSize)
    (ordered : cfg.firstExpert rank ≤ cfg.lastExpert rank) : RoutesWithin cfg rank (routingInfo table rank) slots where
  received := (Nat.le_add_left _ _).trans (roomy.received rank inside)
  overflow := by
    intro target member
    obtain ⟨peer, listed, rfl⟩ := List.mem_map.mp member
    obtain ⟨remote, exceeds⟩ := List.mem_filter.mp listed
    have bound := ((overflowRanks_mem inside peer).mp remote).1
    have sent := contiguous.block_le (dpGroup cfg rank) bound
    have room : table.before (dpGroup cfg rank) _ ≤ slots := roomy.sent _ (cfg.group_lt inside)
    have kept : table.received peer (dpGroup cfg rank + 1) ≤ _ :=
      table.received_mono peer (succ_le_of_lt (cfg.group_lt inside))
    have all := roomy.received peer bound
    have more := of_decide_eq_true exceeds
    rw [table.received_succ] at kept
    exact copyWithin rfl rfl rfl (by omega) (by omega)
  sources _ _ _ source := dispatchRecvSource_lt roomy inside ordered source
  outputs := by
    intro write member
    obtain ⟨⟨entry, t⟩, listed, stored⟩ := List.mem_filterMap.mp member
    obtain ⟨routed, _, _, offset⟩ := entry_described inside (List.mem_of_getElem? (List.mem_zipIdx_iff_getElem?.mp listed))
    dsimp only at stored
    split at stored
    next =>
      cases stored
      exact slotWrite_within _ (offset ▸ combineOffset_lt roomy inside routed)
    next => cases stored
  returned := by
    intro write member
    obtain ⟨⟨entry, t⟩, listed, stored⟩ := List.mem_flatMap.mp member
    obtain ⟨routed, _, _, offset⟩ := entry_described inside (List.mem_of_getElem? (List.mem_zipIdx_iff_getElem?.mp listed))
    dsimp only at stored
    split at stored
    next =>
      obtain ⟨dpPeer, _, rfl⟩ := List.mem_map.mp stored
      exact slotWrite_within _ (offset ▸ combineOffset_lt roomy inside routed)
    next => cases stored
  combined := by
    intro target member
    obtain ⟨peer, listed, rfl⟩ := List.mem_map.mp member
    obtain ⟨bound, group, _⟩ := (combineRanks_mem inside peer).mp listed
    have known : peer.1 < cfg.numDpGroups := group ▸ cfg.group_lt bound
    have returned := contiguous.block_le peer.1 inside
    have room := roomy.sent _ known
    have kept := table.received_mono rank (succ_le_of_lt known)
    have all := roomy.received rank inside
    have start := u32_le (table.received rank peer.1)
    rw [table.received_succ] at kept
    exact copyWithin rfl rfl rfl (by omega) (by omega)

private theorem processRoutingInfo_ordered {info : RoutingInfo}
    (routed : processRoutingInfo cfg rank table = some info) :
    cfg.firstExpert rank ≤ cfg.lastExpert rank := by
  by_contra empty
  simp [processRoutingInfo, Nat.not_le.mp empty] at routed

theorem Roomy.buffersHold (roomy : Roomy table slots) (contiguous : Contiguous table) : BuffersHold table slots where
  positions := by
    intro rank inside write member
    obtain ⟨⟨expert, j⟩, listed, stored⟩ := List.mem_filterMap.mp member
    obtain ⟨hosted, below⟩ := (groupRoutes_mem _ _).mp listed
    dsimp only at stored
    split at stored
    next => cases stored
    next =>
      cases stored
      exact slotWrite_within _ ((combineRecvPosition_lt hosted below).trans_le (roomy.sent _ (cfg.group_lt inside)))
  privates := by
    intro rank inside write member
    obtain ⟨⟨expert, j⟩, _, stored⟩ := List.mem_filterMap.mp member
    dsimp only at stored
    split at stored
    next near =>
      cases stored
      exact slotWrite_within _ (private_lt roomy inside (cfg.group_lt inside) near.1.2.2)
    next => cases stored
  initial := by
    intro rank inside targets computed target member
    obtain rfl := Option.some.inj ((contiguous.initialRoutes_eq inside).symm.trans computed)
    obtain ⟨peer, listed, rfl⟩ := List.mem_map.mp member
    have bound := ((remoteRanks_mem inside peer).mp listed).1
    have sent := contiguous.block_le (dpGroup cfg rank) bound
    have room : table.before (dpGroup cfg rank) _ ≤ slots := roomy.sent _ (cfg.group_lt inside)
    have slot := Nat.mul_le_mul_left cfg.maxPrivateTokens (succ_le_of_lt (cfg.group_lt inside))
    have all := roomy.received rank inside
    rw [mul_succ, Nat.mul_comm] at slot
    exact copyWithin rfl rfl rfl (by omega) (by simp only [dpGroup]; omega)
  routes := by
    intro rank inside info routed
    have ordered := processRoutingInfo_ordered routed
    obtain rfl := Option.some.inj ((contiguous.routingInfo_eq inside ordered).symm.trans routed)
    exact roomy.routes contiguous inside ordered
  loads := by
    intro rank inside route listed
    obtain ⟨hosted, below⟩ := (groupRoutes_mem _ _).mp listed
    exact (combineRecvPosition_lt hosted below).trans_le (roomy.sent _ (cfg.group_lt inside))

private theorem position_surjective {bound : Nat} (below : slot < table.before group bound) :
    ∃ expert index, expert < bound ∧ index < table.numRouted group expert ∧
      position table ⟨group, expert, index⟩ = slot := by
  induction bound with
  | zero => simp at below
  | succ bound ih =>
    rw [table.before_succ] at below
    rcases Nat.lt_or_ge slot (table.before group bound) with earlier | later
    · obtain ⟨expert, index, inside, counted, same⟩ := ih earlier
      exact ⟨expert, index, by omega, counted, same⟩
    · exact ⟨bound, slot - table.before group bound, by omega, by omega, by simp only [position]; omega⟩

private theorem sent_le (holds : BuffersHold table slots) (known : group < cfg.numDpGroups) :
    table.before group cfg.numExperts ≤ slots := by
  refine le_of_forall_lt fun slot below => ?_
  obtain ⟨expert, index, hosted, counted, rfl⟩ := position_surjective below
  have own : dpGroup cfg (group * cfg.dpSize) = group := Nat.mul_div_cancel _ cfg.dp_pos
  have member : group * cfg.dpSize < cfg.worldSize := cfg.member_lt known cfg.dp_pos
  have load := holds.loads _ member (expert, index) ((groupRoutes_mem _ _).mpr ⟨hosted, own.symm ▸ counted⟩)
  rwa [own, combineRecvPosition_eq (routed_owner ⟨group, expert, index⟩ known hosted counted)] at load

end

section
variable {batch : Batch cfg} {maxNumTokens : Nat}

private theorem maxRecvTokens_received (assigned : batch.Assigned maxNumTokens) (rank : Nat) :
    cfg.maxPrivateTokens * cfg.numDpGroups + batch.table.received rank cfg.numDpGroups ≤
      cfg.maxRecvTokens maxNumTokens batch.expertsPerToken := by
  refine Nat.add_le_add_left ((received_le assigned rank).trans ?_) _
  refine le_trans ?_ ((Nat.le_max_left _ _).trans (padded_le cfg.padding_pos _))
  rw [← Nat.mul_min_mul_left]
  exact min_le_min_right _ (Nat.le_add_right _ _)

theorem maxRecvTokens_sent (few : batch.expertsPerToken ≤ cfg.numExperts) (single : cfg.dpSize = 1) :
    maxNumTokens * batch.expertsPerToken ≤ cfg.maxRecvTokens maxNumTokens batch.expertsPerToken := by
  have groups : cfg.numDpGroups = cfg.worldSize := by rw [Config.numDpGroups, single, Nat.div_one]
  refine le_trans ?_ (Nat.le_add_left _ _)
  refine le_trans ?_ ((Nat.le_max_left _ _).trans (padded_le cfg.padding_pos _))
  rw [groups]
  refine Nat.le_min.mpr ⟨?_, ?_⟩
  · exact (Nat.mul_le_mul_right _ (Nat.le_mul_of_pos_right _ cfg.world_pos)).trans (Nat.le_add_right _ _)
  · rw [Nat.mul_assoc]
    exact Nat.mul_le_mul_left _ (few.trans cfg.experts_covered)

private theorem roomy_of_sent (assigned : batch.Assigned maxNumTokens)
    (sent : ∀ group, group < cfg.numDpGroups →
      batch.numRoutes group ≤ cfg.maxRecvTokens maxNumTokens batch.expertsPerToken) :
    Roomy batch.table (cfg.maxRecvTokens maxNumTokens batch.expertsPerToken) where
  sent group known := before_numRoutes batch group ▸ sent group known
  received rank _ := maxRecvTokens_received assigned rank

/-- The buffers are large enough for a routing exactly when each DP group routes no
more copies than a buffer has slots. -/
theorem buffersHold_iff (assigned : batch.Assigned maxNumTokens) :
    BuffersHold batch.table (cfg.maxRecvTokens maxNumTokens batch.expertsPerToken) ↔
      ∀ group, group < cfg.numDpGroups →
        batch.numRoutes group ≤ cfg.maxRecvTokens maxNumTokens batch.expertsPerToken := by
  constructor
  · intro holds group known
    rw [← before_numRoutes batch group]
    exact sent_le holds known
  · intro sent
    exact (roomy_of_sent assigned sent).buffersHold (table_contiguous batch)

theorem buffersHold_single (assigned : batch.Assigned maxNumTokens)
    (few : batch.expertsPerToken ≤ cfg.numExperts) (single : cfg.dpSize = 1) :
    BuffersHold batch.table (cfg.maxRecvTokens maxNumTokens batch.expertsPerToken) :=
  (roomy_of_sent assigned fun _ known => (numRoutes_le assigned known).trans
    (maxRecvTokens_sent few single)).buffersHold (table_contiguous batch)

end

/-- One DP group of four ranks that host an expert each, with the private slots that the
constructor chooses for one token. -/
def oneGroup : Config :=
  { Config.twoPairs with
    nodeSize := 4
    dpSize := 4
    numExperts := 4
    hiddenDim := 1
    scaleElemsize := 0
    dp_dvd := Nat.dvd_refl _
    node_dvd := Nat.dvd_refl _ }

def allExperts : Batch oneGroup where
  numTokens _ := 1
  expertsPerToken := 4
  indices _ _ k := k
  indices_lt _ _ _ _ below := below
  routes_lt _ := by decide

theorem allExperts_assigned : allExperts.Assigned 1 where
  tokens _ _ := Nat.le_refl 1
  distinct _ _ _ _ _ _ _ _ same := same

theorem buffersHold_iff_allExperts : allExperts.Assigned 1 ∧
    (BuffersHold allExperts.table (oneGroup.maxRecvTokens 1 allExperts.expertsPerToken) ↔
      ∀ group, group < oneGroup.numDpGroups →
        allExperts.numRoutes group ≤ oneGroup.maxRecvTokens 1 allExperts.expertsPerToken) :=
  ⟨allExperts_assigned, buffersHold_iff allExperts_assigned⟩

/-- The last rank stores the copy for its own expert behind the two slots of its send
buffer. -/
theorem allExperts_overrun : allExperts.Assigned 1 ∧ oneGroup.maxRecvTokens 1 allExperts.expertsPerToken = 2 ∧
    (∃ write ∈ dispatchSendStores allExperts.table (fun _ _ _ => ()) 3, write.offset = 3 * oneGroup.dispatchTokenDim) ∧
    ¬ BuffersHold allExperts.table (oneGroup.maxRecvTokens 1 allExperts.expertsPerToken) := by
  have size : oneGroup.maxRecvTokens 1 allExperts.expertsPerToken = 2 := by decide
  have total : allExperts.table.before 0 oneGroup.numExperts = 4 := before_numRoutes allExperts 0
  refine ⟨allExperts_assigned, size, ?_, ?_⟩
  · have found : (dispatchSendStores allExperts.table (fun _ _ _ => ()) 3).any
        (fun write => decide (write.offset = 3 * oneGroup.dispatchTokenDim)) = true := by decide +kernel
    obtain ⟨write, member, same⟩ := List.any_eq_true.mp found
    exact ⟨write, member, of_decide_eq_true same⟩
  · intro holds
    have sent := sent_le holds (show 0 < oneGroup.numDpGroups by decide)
    omega

end PplxGarden.AllToAll.Proofs
