import PplxGarden.Proofs.Delivery

/-! Where combine puts each output row. A row leaves its owner either straight for
the receive buffers of the source group or through the owner's send buffer, and in
both cases it ends up at the position the source group gave to the copy. -/

namespace PplxGarden.AllToAll.Proofs
open Library Fabric List

variable {cfg : Config} {table : RoutingTable cfg} {rank : Nat}
variable {t address : Nat} {entry : RoutedToken}

section
variable {copy : TokenCopy}

theorem combineOffset_near (routed : RoutedTo table rank copy)
    (near : copy.group / cfg.groupsPerNode = rank / cfg.nodeSize) :
    combineOffset table rank copy.group copy.expert copy.index = position table copy := by
  have bound := position_bound routed.hosted routed.index
  unfold combineOffset
  by_cases moved : copy.group ≠ dpGroup cfg rank ∨ 1 < cfg.dpSize
  · rw [if_pos moved, if_pos near, u32_add_left, u32_add_right, indexOnRank_eq table routed.first]
    exact u32_of_lt bound
  · rw [if_neg moved]
    exact u32_of_lt bound

/-- The slot of an output row for another node in its owner's send buffer. -/
def outputSlot (table : RoutingTable cfg) (rank : Nat) (copy : TokenCopy) : Nat :=
  table.received rank copy.group + indexOnRank table rank copy.group copy.expert copy.index

private theorem combineOffset_far (small : table.TotalsFit) (inside : rank < cfg.worldSize)
    (routed : RoutedTo table rank copy) (far : copy.group / cfg.groupsPerNode ≠ rank / cfg.nodeSize) :
    combineOffset table rank copy.group copy.expert copy.index = outputSlot table rank copy := by
  have foreign : copy.group ≠ dpGroup cfg rank := fun own => far (by rw [own, dpGroup_node])
  have bound := received_indexOnRank routed
  have all := small.received rank inside
  rw [combineOffset, if_pos (Or.inl foreign), if_neg far, u32_add_left, u32_add_right]
  exact u32_of_lt (by omega)

private theorem outputSlot_injective {other : TokenCopy} (left : RoutedTo table rank copy)
    (right : RoutedTo table rank other)
    (same : outputSlot table rank copy = outputSlot table rank other) : copy = other := by
  have group := received_block table (indexOnRank_lt left) (indexOnRank_lt right) same
  apply position_injective group left.index right.index
  rw [← indexOnRank_eq table left.first, ← indexOnRank_eq table right.first, group]
  simp only [outputSlot, group] at same
  omega

private theorem routed_of_position (known : copy.group < cfg.numDpGroups)
    (index : copy.index < table.numRouted copy.group copy.expert)
    (lower : table.before copy.group (cfg.firstExpert rank) ≤ position table copy)
    (upper : position table copy < table.before copy.group (cfg.lastExpert rank)) :
    RoutedTo table rank copy := by
  refine ⟨known, ?_, ?_, index⟩
  · by_contra below
    have bound := position_lt (Nat.lt_of_not_le below) index
    omega
  · by_contra above
    have grown := table.before_mono copy.group (Nat.le_of_not_lt above)
    simp only [position] at upper
    omega

end

theorem entry_described (inside : rank < cfg.worldSize) (member : entry ∈ routedTokens table rank) :
    RoutedTo table rank entry.copy ∧ entry.sourceRank = sourceOf cfg rank entry.copy.group ∧
      entry.sourceDispatchOffset = dispatchOffset table rank entry.copy.group entry.copy.expert entry.copy.index ∧
      entry.combineSendOffset = combineOffset table rank entry.copy.group entry.copy.expert entry.copy.index := by
  have routed : RoutedTo table rank entry.copy := (routedTokens_mem inside _).mp (mem_map_of_mem member)
  obtain ⟨earlier, described⟩ := entries_describe _ _ _ member
  refine ⟨routed, ?_, ?_, ?_⟩
  · rw [described]
    exact u32_of_lt ((sourceOf_lt routed.known).trans_le cfg.world_le)
  · rw [described]
    rfl
  · rw [described]
    rfl

/-- What the entry of a received copy says about its output. -/
structure OutputEntry (table : RoutingTable cfg) (rank t : Nat) (entry : RoutedToken) : Prop where
  listed : (routedTokens table rank)[t]? = some entry
  routed : RoutedTo table rank entry.copy
  source : entry.sourceRank = sourceOf cfg rank entry.copy.group
  early : t < (routingInfo table rank).numRecvEfaTokens ↔ entry.copy.group / cfg.groupsPerNode ≠ rank / cfg.nodeSize
  near : entry.copy.group / cfg.groupsPerNode = rank / cfg.nodeSize → entry.combineSendOffset = position table entry.copy
  far : entry.copy.group / cfg.groupsPerNode ≠ rank / cfg.nodeSize →
    entry.combineSendOffset = outputSlot table rank entry.copy

theorem outputEntry (admissible : cfg.Admissible) (small : table.TotalsFit)
    (inside : rank < cfg.worldSize) (listed : (routedTokens table rank)[t]? = some entry) :
    OutputEntry table rank t entry := by
  obtain ⟨routed, source, _, offset⟩ := entry_described inside (mem_of_getElem? listed)
  refine ⟨listed, routed, source, routedTokens_remote (admissible.first_le_last inside) inside listed, ?_, ?_⟩
  · intro near
    rw [offset, combineOffset_near routed near]
  · intro far
    rw [offset, combineOffset_far small inside routed far]

theorem OutputEntry.unique {other : Nat} {another : RoutedToken} {owner : Nat} (inside : rank < cfg.worldSize)
    (first : OutputEntry table rank t entry) (second : OutputEntry table owner other another)
    (same : entry.copy = another.copy) : rank = owner ∧ t = other ∧ entry = another := by
  obtain rfl : rank = owner := by rw [← first.routed.owner, same, second.routed.owner]
  have left := first.listed
  have right := second.listed
  have index : t = other := by
    obtain ⟨bound, _⟩ := List.getElem?_eq_some_iff.mp left
    apply (getElem?_inj (by rwa [length_map]) (routedTokens_nodup table inside)).mp
    simp [left, right, same]
  subst index
  exact ⟨rfl, rfl, Option.some.inj (left.symm.trans right)⟩

section
variable {ν : Type} {rows : Nat → Nat → ν}

private theorem combineInfos (run : CombineRun cfg table rows) (admissible : cfg.Admissible)
    (info : RoutingInfo) (rank : Nat) :
    (info, rank) ∈ run.infos.zipIdx ↔ rank < cfg.worldSize ∧ info = routingInfo table rank := by
  have all := run.routed
  rw [mapM_values (routingInfo table) (fun rank member => processRoutingInfo_eq table admissible (mem_range.mp member)),
    Option.some.injEq] at all
  rw [← all, mem_zipIdx_iff_getElem?, getElem?_map]
  by_cases inside : rank < cfg.worldSize
  · simp [inside, eq_comm]
  · simp [inside]

theorem combineSends_mem (run : CombineRun cfg table rows) (admissible : cfg.Admissible)
    (small : table.TotalsFit) (write : RangeWrite Buffer (ν × Nat)) :
    write ∈ run.sends ↔ ∃ rank t entry, rank < cfg.worldSize ∧ OutputEntry table rank t entry ∧
      entry.copy.group / cfg.groupsPerNode ≠ rank / cfg.nodeSize ∧
      write = slotWrite cfg.combineTokenDim (.send rank) (outputSlot table rank entry.copy)
        (rows rank entry.paddedIndex) := by
  rw [run.sends_perm.mem_iff]
  simp only [mem_flatMap, Prod.exists, combineInfos run admissible, combineSendStores, mem_filterMap,
    mem_zipIdx_iff_getElem?]
  constructor
  · rintro ⟨_, rank, ⟨inside, rfl⟩, entry, t, listed, chosen⟩
    have described := outputEntry admissible small inside listed
    split at chosen
    next kept =>
      have far := described.early.mp kept.1
      rw [described.far far] at chosen
      exact ⟨rank, t, entry, inside, described, far, (Option.some.inj chosen).symm⟩
    next => cases chosen
  · rintro ⟨rank, t, entry, inside, described, far, rfl⟩
    refine ⟨_, rank, ⟨inside, rfl⟩, entry, t, described.listed, ?_⟩
    have remote : entry.sourceRank / cfg.nodeSize ≠ rank / cfg.nodeSize := by
      rw [described.source, sourceOf_node]
      exact far
    rw [if_pos ⟨described.early.mpr far, remote⟩, described.far far]

/-- The other writes of a combine: rows for the own node and network ranges. -/
inductive Returned (run : CombineRun cfg table rows) : RangeWrite Buffer (ν × Nat) → Prop where
  | nvlink {rank t peer : Nat} {entry : RoutedToken} (inside : rank < cfg.worldSize)
    (described : OutputEntry table rank t entry)
      (near : entry.copy.group / cfg.groupsPerNode = rank / cfg.nodeSize) (group : dpGroup cfg peer = entry.copy.group) :
      Returned run (slotWrite cfg.combineTokenDim (.recv peer) (position table entry.copy) (rows rank entry.paddedIndex))
  | network {rank peer : Nat} (inside : rank < cfg.worldSize) (target : peer < cfg.worldSize)
      (far : dpGroup cfg peer / cfg.groupsPerNode ≠ rank / cfg.nodeSize) :
      Returned run (scatterWrite rank run.sent (combineTargetOf table rank (dpGroup cfg peer, peer)))

theorem nvlinkPeer {group index : Nat} (bound : index < cfg.dpSize)
    (near : group / cfg.groupsPerNode = rank / cfg.nodeSize) :
    nodePeer cfg rank ((group * cfg.dpSize + index) % cfg.nodeSize) = group * cfg.dpSize + index :=
  nodePeer_eq (by rw [peer_node group bound, near])

theorem returned_mem (run : CombineRun cfg table rows) (admissible : cfg.Admissible) (small : table.TotalsFit)
    (write : RangeWrite Buffer (ν × Nat)) : write ∈ run.transfers ↔ Returned run write := by
  rw [run.transfers_perm.mem_iff]
  simp only [mem_flatMap, Prod.exists, combineInfos run admissible, combineTransfers, combineNvlinkStores, mem_append,
    mem_zipIdx_iff_getElem?, mem_map]
  constructor
  · rintro ⟨_, rank, ⟨inside, rfl⟩, ⟨entry, t, listed, stored⟩ | ⟨target, member, rfl⟩⟩
    · have described := outputEntry admissible small inside listed
      split at stored
      next kept =>
        have near : entry.copy.group / cfg.groupsPerNode = rank / cfg.nodeSize := by
          by_contra far
          exact absurd (described.early.mpr far) (Nat.not_lt.mpr kept.1)
        obtain ⟨index, bound, rfl⟩ := mem_map.mp stored
        have group : entry.sourceRank / cfg.dpSize = entry.copy.group := by rw [described.source]; exact sourceOf_group _ _
        rw [group, nvlinkPeer (mem_range.mp bound) near, described.near near]
        exact .nvlink inside described near (block_div _ (mem_range.mp bound))
      next => cases stored
    · simp only [routingInfo, mem_map] at member
      obtain ⟨⟨group, peer⟩, listed, rfl⟩ := member
      obtain ⟨bound, same, far⟩ := (combineRanks_mem inside _).mp listed
      obtain rfl : group = dpGroup cfg peer := same
      exact .network inside bound far
  · intro returned
    cases returned with
    | @nvlink rank t peer entry inside described near group =>
      refine ⟨_, rank, ⟨inside, rfl⟩, Or.inl ⟨entry, t, described.listed, ?_⟩⟩
      have late : (routingInfo table rank).numRecvEfaTokens ≤ t := by
        by_contra early
        exact described.early.mp (Nat.lt_of_not_le early) near
      have local_ : entry.sourceRank / cfg.nodeSize = rank / cfg.nodeSize := by
        rw [described.source, sourceOf_node, near]
      rw [if_pos ⟨late, local_⟩]
      refine mem_map.mpr ⟨peer % cfg.dpSize, mem_range.mpr (Nat.mod_lt _ cfg.dp_pos), ?_⟩
      have ofGroup : entry.sourceRank / cfg.dpSize = entry.copy.group := by rw [described.source]; exact sourceOf_group _ _
      rw [ofGroup, nvlinkPeer (Nat.mod_lt _ cfg.dp_pos) near, described.near near, ← group]
      congr 2
      exact Nat.div_add_mod' _ _
    | @network rank peer inside target far =>
      refine ⟨_, rank, ⟨inside, rfl⟩, Or.inr ⟨_, ?_, rfl⟩⟩
      exact mem_map.mpr ⟨(dpGroup cfg peer, peer), (combineRanks_mem inside _).mpr ⟨target, rfl, far⟩, rfl⟩

theorem output_sent (run : CombineRun cfg table rows) (admissible : cfg.Admissible)
    (small : table.TotalsFit) (inside : rank < cfg.worldSize)
    (described : OutputEntry table rank t entry)
    (far : entry.copy.group / cfg.groupsPerNode ≠ rank / cfg.nodeSize) :
    Holds run.sent cfg.combineTokenDim (.send rank) (outputSlot table rank entry.copy)
      (rows rank entry.paddedIndex) := by
  apply applyAll_holds
  · intro byte bound write member covers
    obtain ⟨owner, other, another, known, second, _, rfl⟩ := (combineSends_mem run admissible small write).mp member
    obtain ⟨same, slot⟩ := (slotWrite_covers bound).mp covers
    obtain rfl : owner = rank := Buffer.send.inj same
    have copy := outputSlot_injective second.routed described.routed slot
    obtain ⟨_, _, rfl⟩ := second.unique inside described copy
    exact slotWrite_data _ _ _ _ _
  · intro byte bound
    refine ⟨_, (combineSends_mem run admissible small _).mpr ⟨rank, t, entry, inside, described, far, rfl⟩, ?_⟩
    exact (slotWrite_covers bound).mpr ⟨rfl, rfl⟩

theorem output_returned (run : CombineRun cfg table rows) (admissible : cfg.Admissible) (small : table.TotalsFit)
    (inside : rank < cfg.worldSize) (described : OutputEntry table rank t entry)
    {peer : Nat} (target : peer < cfg.worldSize) (group : dpGroup cfg peer = entry.copy.group) :
    Holds run.final cfg.combineTokenDim (.recv peer) (position table entry.copy) (rows rank entry.paddedIndex) := by
  have split := indexOnRank_eq table described.routed.first
  have counted := indexOnRank_lt described.routed
  apply applyAll_holds
  · intro byte bound write member covers
    have returned := (returned_mem run admissible small write).mp member
    cases returned with
    | @nvlink owner other target another known second _ ofGroup =>
      obtain ⟨same, slot⟩ := (slotWrite_covers bound).mp covers
      obtain rfl : target = peer := Buffer.recv.inj same
      have copy := position_injective (ofGroup.symm.trans group) second.routed.index described.routed.index slot
      obtain ⟨rfl, _, rfl⟩ := second.unique known described copy
      exact slotWrite_data _ _ _ _ _
    | @network owner target known _ far =>
      obtain rfl : target = peer := Buffer.recv.inj covers.1
      rw [group] at far covers ⊢
      obtain ⟨_, lower, upper⟩ := (copyWrite_covers rfl rfl bound).mp covers
      simp only at lower upper
      rw [table.tokensTo_eq (admissible.first_le_last known)] at upper
      have routed := routed_of_position described.routed.known described.routed.index lower upper
      obtain rfl : rank = owner := by rw [← described.routed.owner, routed.owner]
      refine (copyWrite_data rfl rfl lower).trans ?_
      have held := output_sent run admissible small inside described far byte bound
      have start : u32 (table.received rank entry.copy.group) = table.received rank entry.copy.group := by
        have below := received_indexOnRank described.routed
        have all := small.received rank inside
        exact u32_of_lt (by omega)
      rw [start, ← split, Nat.add_sub_cancel_left]
      exact held
  · intro byte bound
    by_cases near : entry.copy.group / cfg.groupsPerNode = rank / cfg.nodeSize
    · refine ⟨_, (returned_mem run admissible small _).mpr (.nvlink inside described near group), ?_⟩
      exact (slotWrite_covers bound).mpr ⟨rfl, rfl⟩
    · refine ⟨_, (returned_mem run admissible small _).mpr (.network inside target (by rw [group]; exact near)), ?_⟩
      refine (copyWrite_covers rfl rfl bound).mpr ⟨rfl, ?_, ?_⟩
      · simp only [group]
        omega
      · simp only [group]
        omega

end

def OutputPlaced (table : RoutingTable cfg) (rank : Nat) (entry : RoutedToken) (buffer : Buffer)
    (address : Nat) : Prop :=
  (buffer = .send rank ∧ address / cfg.combineTokenDim = outputSlot table rank entry.copy) ∨
    ∃ peer, buffer = .recv peer ∧ dpGroup cfg peer = entry.copy.group ∧
      address / cfg.combineTokenDim = position table entry.copy

private theorem outputWritten_sent (admissible : cfg.Admissible) (small : table.TotalsFit)
    (inside : rank < cfg.worldSize) (written : OutputWritten table rank t (.send rank) address) :
    ∃ entry byte, OutputEntry table rank t entry ∧
      entry.copy.group / cfg.groupsPerNode ≠ rank / cfg.nodeSize ∧
      byte < cfg.combineTokenDim ∧ address =
        outputSlot table rank entry.copy * cfg.combineTokenDim + byte := by
  cases written with
  | @send info entry byte routed listed early far bound =>
    obtain rfl := Option.some.inj ((processRoutingInfo_eq table admissible inside).symm.trans routed)
    have described := outputEntry admissible small inside listed
    have remote := described.early.mp early
    exact ⟨entry, byte, described, remote, bound, by rw [described.far remote]⟩

theorem outputWritten_placed (admissible : cfg.Admissible) (small : table.TotalsFit)
    (inside : rank < cfg.worldSize) {buffer : Buffer}
    (written : OutputWritten table rank t buffer address) :
    ∃ entry, OutputEntry table rank t entry ∧ OutputPlaced table rank entry buffer address := by
  cases written with
  | @send info entry byte routed listed early far bound =>
    obtain ⟨entry, byte, described, _, bound, place⟩ :=
      outputWritten_sent admissible small inside (.send routed listed early far bound)
    rw [place]
    exact ⟨entry, described, Or.inl ⟨rfl, block_div _ bound⟩⟩
  | @nvlink info entry dpPeer byte routed listed late near member bound =>
    obtain rfl := Option.some.inj ((processRoutingInfo_eq table admissible inside).symm.trans routed)
    have described := outputEntry admissible small inside listed
    have group : entry.sourceRank / cfg.dpSize = entry.copy.group := by rw [described.source]; exact sourceOf_group _ _
    rw [described.source, sourceOf_node] at near
    rw [group, nvlinkPeer member near, described.near near]
    exact ⟨entry, described, Or.inr ⟨_, rfl, block_div _ member, block_div _ bound⟩⟩
  | @network info target address stored routed listed lower upper =>
    obtain rfl := Option.some.inj ((processRoutingInfo_eq table admissible inside).symm.trans routed)
    obtain ⟨⟨group, peer⟩, chosen, rfl⟩ := mem_map.mp listed
    obtain ⟨target, same, far⟩ := (combineRanks_mem inside _).mp chosen
    obtain rfl : group = dpGroup cfg peer := same
    obtain ⟨entry, byte, described, remote, bound, rfl⟩ := outputWritten_sent admissible small inside stored
    have known : dpGroup cfg peer < cfg.numDpGroups := cfg.group_lt target
    have start : u32 (table.received rank (dpGroup cfg peer)) = table.received rank (dpGroup cfg peer) := by
      have below := table.received_mono rank known.le
      have all := small.received rank inside
      exact u32_of_lt (by omega)
    simp only [combineTargetOf, start] at lower upper ⊢
    obtain ⟨first, last⟩ := (slots_cover _ _ _ bound).mp ⟨lower, upper⟩
    obtain ⟨k, slot⟩ := Nat.exists_eq_add_of_le first
    have group : dpGroup cfg peer = entry.copy.group := by
      apply received_block table (show k < table.tokensTo (dpGroup cfg peer) rank by omega)
        (indexOnRank_lt described.routed)
      rw [← slot, outputSlot]
    have placed : table.before (dpGroup cfg peer) (cfg.firstExpert rank) * cfg.combineTokenDim +
        (outputSlot table rank entry.copy * cfg.combineTokenDim + byte -
          table.received rank (dpGroup cfg peer) * cfg.combineTokenDim) =
        position table entry.copy * cfg.combineTokenDim + byte := by
      rw [← indexOnRank_eq table described.routed.first, outputSlot, group, Nat.add_mul, Nat.add_mul]
      omega
    rw [placed]
    exact ⟨entry, described, Or.inr ⟨peer, rfl, group, block_div _ bound⟩⟩

theorem outputWritten_once (admissible : cfg.Admissible) (small : table.TotalsFit)
    {owner other : Nat} {buffer : Buffer} (inside : rank < cfg.worldSize)
    (known : owner < cfg.worldSize) (first : OutputWritten table rank t buffer address)
    (second : OutputWritten table owner other buffer address) : rank = owner ∧ t = other := by
  obtain ⟨entry, described, placed⟩ := outputWritten_placed admissible small inside first
  obtain ⟨another, described', placed'⟩ := outputWritten_placed admissible small known second
  suffices same : entry.copy = another.copy by
    obtain ⟨ranks, indices, _⟩ := described.unique inside described' same
    exact ⟨ranks, indices⟩
  rcases placed with ⟨rfl, slot⟩ | ⟨peer, rfl, group, slot⟩
  · rcases placed' with ⟨same, slot'⟩ | ⟨_, other, _⟩
    · obtain rfl : rank = owner := Buffer.send.inj same
      exact outputSlot_injective described.routed described'.routed (slot.symm.trans slot')
    · cases other
  · rcases placed' with ⟨other, _⟩ | ⟨peer', same, group', slot'⟩
    · cases other
    · obtain rfl : peer = peer' := Buffer.recv.inj same
      exact position_injective (group.symm.trans group') described.routed.index described'.routed.index
        (slot.symm.trans slot')

theorem combineRecvPosition_eq {copy : TokenCopy} (routed : RoutedTo table rank copy) :
    combineRecvPosition table copy.group copy.expert copy.index = position table copy := by
  rw [combineRecvPosition, offset_before copy.group routed.hosted.le]
  exact u32_of_lt (position_bound routed.hosted routed.index)

/-- The row that the owner of an expert computed for a copy. -/
inductive OutputRow {ν : Type} (table : RoutingTable cfg) (rows : Nat → Nat → ν) (copy : TokenCopy) : ν → Prop where
  | computed {owner t : Nat} {info : RoutingInfo} {entry : RoutedToken} (first : cfg.firstExpert owner ≤ copy.expert)
      (last : copy.expert < cfg.lastExpert owner) (routed : processRoutingInfo cfg owner table = some info)
      (listed : info.tokens[t]? = some entry) (same : entry.copy = copy) :
      OutputRow table rows copy (rows owner entry.paddedIndex)

private theorem outputRow_exists {ν : Type} (rows : Nat → Nat → ν) (admissible : cfg.Admissible) {copy : TokenCopy}
    (routed : RoutedTo table (copy.expert / cfg.expertsPerRank) copy) : ∃ row, OutputRow table rows copy row := by
  have inside := owner_lt routed.hosted
  obtain ⟨entry, listed, copied⟩ := mem_map.mp ((routedTokens_mem inside _).mpr routed)
  obtain ⟨t, bound, found⟩ := getElem_of_mem listed
  exact ⟨_, .computed routed.first routed.last (processRoutingInfo_eq table admissible inside)
    (List.getElem?_eq_some_iff.mpr ⟨bound, found⟩) copied⟩

/-- Combine returns every output row to the position its source group reads, and
no byte of any buffer is written for two received tokens. -/
theorem combine_returns {ν : Type} {rows : Nat → Nat → ν} (admissible : cfg.Admissible) (small : table.TotalsFit)
    (run : CombineRun cfg table rows) :
    (∀ group peer expert j, group < cfg.numDpGroups → peer < cfg.worldSize → dpGroup cfg peer = group →
      expert < cfg.numExperts → j < table.numRouted group expert →
      (∃ row, OutputRow table rows ⟨group, expert, j⟩ row) ∧
      ∀ row, OutputRow table rows ⟨group, expert, j⟩ row →
        Holds run.final cfg.combineTokenDim (.recv peer) (combineRecvPosition table group expert j) row) ∧
    ∀ rank t owner other buffer address, rank < cfg.worldSize → owner < cfg.worldSize →
      OutputWritten table rank t buffer address → OutputWritten table owner other buffer address →
      rank = owner ∧ t = other := by
  refine ⟨?_, fun rank t owner other buffer address inside known => outputWritten_once admissible small inside known⟩
  intro group peer expert j known target member hosted index
  have routed := routed_owner ⟨group, expert, j⟩ known hosted index
  refine ⟨outputRow_exists rows admissible routed, ?_⟩
  intro row output
  obtain @⟨owner, t, info, entry, first, last, computed, listed, copied⟩ := output
  have mine : RoutedTo table owner ⟨group, expert, j⟩ := ⟨known, first, last, index⟩
  have inside : owner < cfg.worldSize := mine.owner ▸ owner_lt hosted
  obtain rfl := Option.some.inj ((processRoutingInfo_eq table admissible inside).symm.trans computed)
  have described := outputEntry admissible small inside listed
  have held := output_returned run admissible small inside described target (by rw [member, copied])
  rw [copied, ← combineRecvPosition_eq mine] at held
  exact held

/-- The combine in which everything lands in program order. -/
def combineInOrder {ν : Type} (table : RoutingTable cfg) (rows : Nat → Nat → ν) (admissible : cfg.Admissible)
    (initial : Memory Buffer (ν × Nat)) : CombineRun cfg table rows where
  infos := (List.range cfg.worldSize).map (routingInfo table)
  routed := mapM_values _ (fun _ member => processRoutingInfo_eq table admissible (mem_range.mp member))
  initial
  sends := _
  sends_perm := .refl _
  transfers := _
  transfers_perm := .refl _

/-- The second copy that the first group routes to the last expert. -/
theorem combine_returns_twoEach :
    ∃ row, Holds (combineInOrder twoEach (fun owner row => (owner, row)) (by decide) (fun _ _ => none)).final
      twoNodes.combineTokenDim (.recv 0) (combineRecvPosition twoEach 0 3 1) row := by
  have returned := (combine_returns (by decide) ⟨by decide, by decide⟩
    (combineInOrder twoEach (fun owner row => (owner, row)) (by decide) (fun _ _ => none))).1 0 0 3 1
    (by decide) (by decide) (by decide) (by decide) (by decide)
  obtain ⟨row, computed⟩ := returned.1
  exact ⟨row, returned.2 row computed⟩

end PplxGarden.AllToAll.Proofs
