import PplxGarden.AllToAll.Worker
import PplxGarden.Library.Rotation

/-! The peer lists built by the worker, as sets: which ranks and groups they name,
and that they name each of them once. -/

namespace PplxGarden.AllToAll.Proofs
open Library List Nat

variable {cfg : Config} {rank : Nat}

theorem node_lt (inside : rank < cfg.worldSize) : rank / cfg.nodeSize < cfg.numNodes := by
  apply Nat.div_lt_of_lt_mul
  rw [Nat.mul_comm, cfg.nodes_mul]
  exact inside

theorem group_node_lt {group : Nat} (known : group < cfg.numDpGroups) : group / cfg.groupsPerNode < cfg.numNodes := by
  apply Nat.div_lt_of_lt_mul
  rw [Nat.mul_comm, cfg.nodes_groups_mul]
  exact known

theorem dpRank_lt : dpRank cfg rank < cfg.dpSize := mod_lt _ cfg.dp_pos

theorem peer_node (group : Nat) {index : Nat} (inside : index < cfg.dpSize) :
    (group * cfg.dpSize + index) / cfg.nodeSize = group / cfg.groupsPerNode := by
  rw [← cfg.node_of_group, block_div group inside]

theorem dpGroup_node : dpGroup cfg rank / cfg.groupsPerNode = rank / cfg.nodeSize := cfg.node_of_group rank

theorem peer_eq_iff (group : Nat) : group * cfg.dpSize + dpRank cfg rank = rank ↔ group = dpGroup cfg rank := by
  constructor
  · intro same
    rw [dpGroup, ← same, block_div group dpRank_lt]
  · rintro rfl
    exact div_add_mod' _ _

private theorem remoteRanks_eq : remoteRanks cfg rank =
    (rotation cfg.numNodes (rank / cfg.nodeSize)).flatMap fun node =>
      (List.range cfg.nodeSize).map fun index => node * cfg.nodeSize + index := by
  simp only [remoteRanks, Library.rotation, flatMap_map]
  congr 1
  funext peerNode
  apply map_congr_left
  intro index member
  rw [← cfg.nodes_mul, block_mod _ (mem_range.mp member)]

theorem remoteRanks_mem (inside : rank < cfg.worldSize) (peer : Nat) :
    peer ∈ remoteRanks cfg rank ↔ peer < cfg.worldSize ∧ peer / cfg.nodeSize ≠ rank / cfg.nodeSize := by
  rw [remoteRanks_eq, blocks_mem, rotation_mem (node_lt inside)]
  constructor
  · rintro ⟨_, bound, other⟩
    refine ⟨?_, other⟩
    rw [← cfg.nodes_mul]
    exact (Nat.div_lt_iff_lt_mul cfg.node_pos).mp bound
  · rintro ⟨bound, other⟩
    exact ⟨cfg.node_pos, node_lt bound, other⟩

theorem remoteRanks_nodup (inside : rank < cfg.worldSize) : (remoteRanks cfg rank).Nodup := by
  rw [remoteRanks_eq]
  exact blocks_nodup (rotation_nodup (node_lt inside)) _

private theorem remoteGroups_eq : remoteGroups cfg rank =
    (rotation cfg.numNodes (rank / cfg.nodeSize)).flatMap fun node =>
      (List.range cfg.groupsPerNode).map fun index => node * cfg.groupsPerNode + index := by
  simp only [remoteGroups, Library.rotation, flatMap_map]

theorem remoteGroups_mem (inside : rank < cfg.worldSize) (group : Nat) :
    group ∈ remoteGroups cfg rank ↔ group < cfg.numDpGroups ∧ group / cfg.groupsPerNode ≠ rank / cfg.nodeSize := by
  rw [remoteGroups_eq, blocks_mem, rotation_mem (node_lt inside)]
  constructor
  · rintro ⟨_, bound, other⟩
    refine ⟨?_, other⟩
    rw [← cfg.nodes_groups_mul]
    exact (Nat.div_lt_iff_lt_mul cfg.groupsPerNode_pos).mp bound
  · rintro ⟨bound, other⟩
    exact ⟨cfg.groupsPerNode_pos, group_node_lt bound, other⟩

theorem remoteGroups_nodup (inside : rank < cfg.worldSize) : (remoteGroups cfg rank).Nodup := by
  rw [remoteGroups_eq]
  exact blocks_nodup (rotation_nodup (node_lt inside)) _

private theorem nodeGroups_eq : nodeGroups cfg rank =
    (rotation cfg.groupsPerNode (dpGroup cfg rank % cfg.groupsPerNode)).map fun index =>
      rank / cfg.nodeSize * cfg.groupsPerNode + index := by
  simp [nodeGroups, Library.rotation]

theorem nodeGroups_mem (group : Nat) :
    group ∈ nodeGroups cfg rank ↔ group / cfg.groupsPerNode = rank / cfg.nodeSize ∧ group ≠ dpGroup cfg rank := by
  have own : rank / cfg.nodeSize * cfg.groupsPerNode + dpGroup cfg rank % cfg.groupsPerNode = dpGroup cfg rank := by
    rw [← dpGroup_node]
    exact div_add_mod' _ _
  have start := mod_lt (dpGroup cfg rank) cfg.groupsPerNode_pos
  simp only [nodeGroups_eq, mem_map, rotation_mem start]
  constructor
  · rintro ⟨index, ⟨bound, other⟩, rfl⟩
    refine ⟨block_div _ bound, ?_⟩
    intro same
    exact other (by omega)
  · rintro ⟨node, other⟩
    have split := div_add_mod' group cfg.groupsPerNode
    rw [node] at split
    refine ⟨group % cfg.groupsPerNode, ⟨mod_lt _ cfg.groupsPerNode_pos, ?_⟩, split⟩
    intro same
    exact other (by omega)

theorem nodeGroups_nodup : (nodeGroups cfg rank).Nodup := by
  rw [nodeGroups_eq]
  exact (rotation_nodup (mod_lt _ cfg.groupsPerNode_pos)).map (fun _ _ same => Nat.add_left_cancel same)

def groupOrder (cfg : Config) (rank : Nat) : List Nat :=
  remoteGroups cfg rank ++ nodeGroups cfg rank ++ [dpGroup cfg rank]

theorem groupOrder_perm (inside : rank < cfg.worldSize) :
    (groupOrder cfg rank).Perm (List.range cfg.numDpGroups) := by
  have own : dpGroup cfg rank < cfg.numDpGroups := cfg.group_lt inside
  have node : dpGroup cfg rank / cfg.groupsPerNode = rank / cfg.nodeSize := dpGroup_node
  apply (perm_ext_iff_of_nodup ?_ nodup_range).mpr
  · intro group
    simp only [groupOrder, mem_append, mem_singleton, remoteGroups_mem inside, nodeGroups_mem, mem_range]
    constructor
    · rintro ((⟨known, _⟩ | ⟨near, _⟩) | rfl)
      · exact known
      · have bound := node_lt inside
        rw [← near] at bound
        rw [← cfg.nodes_groups_mul]
        exact (Nat.div_lt_iff_lt_mul cfg.groupsPerNode_pos).mp bound
      · exact own
    · intro known
      by_cases near : group / cfg.groupsPerNode = rank / cfg.nodeSize
      · by_cases same : group = dpGroup cfg rank
        · exact Or.inr same
        · exact Or.inl (Or.inr ⟨near, same⟩)
      · exact Or.inl (Or.inl ⟨known, near⟩)
  · simp only [groupOrder, nodup_append, mem_append, mem_singleton, remoteGroups_mem inside, nodeGroups_mem]
    refine ⟨⟨remoteGroups_nodup inside, nodeGroups_nodup, ?_⟩, nodup_singleton _, ?_⟩
    · rintro first ⟨_, far⟩ second ⟨near, _⟩ rfl
      exact far near
    · rintro first (⟨_, far⟩ | ⟨_, other⟩) second rfl rfl
      · exact far node
      · exact other rfl

private theorem steps_eq : ceilDiv (cfg.nodeSize - dpRank cfg rank) cfg.dpSize = cfg.groupsPerNode := by
  have inside : dpRank cfg rank < cfg.dpSize := dpRank_lt
  have positive := cfg.groupsPerNode_pos
  have widths : cfg.groupsPerNode * cfg.dpSize - dpRank cfg rank + cfg.dpSize - 1 =
      cfg.groupsPerNode * cfg.dpSize + (cfg.dpSize - 1 - dpRank cfg rank) := by
    have room : 1 * cfg.dpSize ≤ cfg.groupsPerNode * cfg.dpSize := Nat.mul_le_mul_right _ positive
    omega
  rw [ceilDiv, ← cfg.node_groups_mul, widths]
  exact block_div _ (by omega)

theorem overflowRanks_eq :
    overflowRanks cfg rank = (remoteGroups cfg rank).map fun group => group * cfg.dpSize + dpRank cfg rank := by
  have inside : dpRank cfg rank < cfg.dpSize := dpRank_lt
  simp only [overflowRanks, remoteGroups, steps_eq, map_flatMap, map_map]
  congr 1
  funext peerNode
  apply ext_getElem (by simp)
  intro index first _
  have bound : index < cfg.groupsPerNode := by simpa using first
  have within : index * cfg.dpSize + dpRank cfg rank < cfg.nodeSize := by
    have room : (index + 1) * cfg.dpSize ≤ cfg.groupsPerNode * cfg.dpSize := Nat.mul_le_mul_right _ bound
    rw [cfg.node_groups_mul, Nat.add_mul] at room
    omega
  simp only [getElem_map, getElem_range', getElem_range, Function.comp_apply,
    Nat.add_comm (dpRank cfg rank), Nat.mul_comm cfg.dpSize]
  rw [← cfg.nodes_mul, block_mod _ within, Nat.add_mul, Nat.mul_assoc, cfg.node_groups_mul, Nat.add_assoc]

theorem overflowRanks_mem (inside : rank < cfg.worldSize) (peer : Nat) :
    peer ∈ overflowRanks cfg rank ↔
      peer < cfg.worldSize ∧ peer / cfg.nodeSize ≠ rank / cfg.nodeSize ∧ peer % cfg.dpSize = rank % cfg.dpSize := by
  have index : dpRank cfg rank < cfg.dpSize := dpRank_lt
  simp only [overflowRanks_eq, mem_map, remoteGroups_mem inside]
  constructor
  · rintro ⟨group, ⟨known, far⟩, rfl⟩
    exact ⟨cfg.member_lt known index, by rw [peer_node group index]; exact far, block_rem group index⟩
  · rintro ⟨bound, far, same⟩
    refine ⟨peer / cfg.dpSize, ⟨cfg.group_lt bound, ?_⟩, ?_⟩
    · rw [cfg.node_of_group]
      exact far
    · rw [dpRank, ← same]
      exact div_add_mod' _ _

theorem combineRanks_eq :
    combineRanks cfg rank = (remoteGroups cfg rank).flatMap fun group =>
      (List.range cfg.dpSize).map fun index => (group, group * cfg.dpSize + index) := by
  simp only [combineRanks, remoteGroups, flatMap_assoc, flatMap_map]
  congr 1
  funext peerNode
  apply flatMap_congr
  intro index member
  rw [← cfg.nodes_groups_mul, block_mod _ (mem_range.mp member)]

theorem combineRanks_mem (inside : rank < cfg.worldSize) (peer : Nat × Nat) :
    peer ∈ combineRanks cfg rank ↔ peer.2 < cfg.worldSize ∧ peer.1 = dpGroup cfg peer.2 ∧
      dpGroup cfg peer.2 / cfg.groupsPerNode ≠ rank / cfg.nodeSize := by
  simp only [combineRanks_eq, mem_flatMap, mem_map, mem_range, remoteGroups_mem inside]
  constructor
  · rintro ⟨group, ⟨known, far⟩, index, bound, rfl⟩
    have same : dpGroup cfg (group * cfg.dpSize + index) = group := block_div group bound
    exact ⟨cfg.member_lt known bound, same.symm, by simp only [same]; exact far⟩
  · rintro ⟨bound, group, far⟩
    refine ⟨peer.1, ⟨?_, ?_⟩, peer.2 % cfg.dpSize, mod_lt _ cfg.dp_pos, ?_⟩
    · rw [group]
      exact cfg.group_lt bound
    · rw [group]
      exact far
    · obtain ⟨first, second⟩ := peer
      obtain rfl : first = dpGroup cfg second := group
      exact Prod.ext rfl (div_add_mod' _ _)

end PplxGarden.AllToAll.Proofs
