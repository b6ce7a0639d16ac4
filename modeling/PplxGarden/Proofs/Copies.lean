import PplxGarden.Proofs.RoutingInfo

/-! The list of received copies: which copies it names, in which part of the list
they stand, and what the entry of each of them says. -/

namespace PplxGarden.AllToAll.Proofs
open Library Fabric List

variable {cfg : Config} {rank : Nat} {table : RoutingTable cfg}
variable {copy : TokenCopy}

structure RoutedTo (table : RoutingTable cfg) (rank : Nat) (copy : TokenCopy) : Prop where
  known : copy.group < cfg.numDpGroups
  first : cfg.firstExpert rank ≤ copy.expert
  last : copy.expert < cfg.lastExpert rank
  index : copy.index < table.numRouted copy.group copy.expert

def position (table : RoutingTable cfg) (copy : TokenCopy) : Nat := table.before copy.group copy.expert + copy.index

namespace RoutedTo

variable {copy : TokenCopy}

theorem hosted (routed : RoutedTo table rank copy) : copy.expert < cfg.numExperts :=
  routed.last.trans_le (lastExpert_le rank)

theorem owner (routed : RoutedTo table rank copy) : copy.expert / cfg.expertsPerRank = rank := by
  have upper : copy.expert < cfg.firstExpert rank + cfg.expertsPerRank := routed.last.trans_le (Nat.min_le_left _ _)
  have lower := routed.first
  simp only [Config.firstExpert] at upper lower
  obtain ⟨offset, same⟩ := Nat.exists_eq_add_of_le lower
  rw [same]
  exact block_div rank (by omega)

end RoutedTo

theorem position_lt {bound : Nat} (below : copy.expert < bound)
    (index : copy.index < table.numRouted copy.group copy.expert) :
    position table copy < table.before copy.group bound := by
  have grown := table.before_mono copy.group below
  rw [table.before_succ] at grown
  simp only [position]
  omega

theorem position_injective {first second : TokenCopy} (group : first.group = second.group)
    (left : first.index < table.numRouted first.group first.expert)
    (right : second.index < table.numRouted second.group second.expert)
    (same : position table first = position table second) : first = second := by
  have expert : first.expert = second.expert := by
    rcases Nat.lt_trichotomy first.expert second.expert with below | equal | above
    · have bound := position_lt below left
      rw [same, group, position] at bound
      omega
    · exact equal
    · have bound := position_lt above right
      rw [← same, ← group, position] at bound
      omega
  have index : first.index = second.index := by
    simp only [position, group, expert] at same
    omega
  cases first
  cases second
  simp_all

theorem indexOnRank_eq (table : RoutingTable cfg) (first : cfg.firstExpert rank ≤ copy.expert) :
    table.before copy.group (cfg.firstExpert rank) + indexOnRank table rank copy.group copy.expert copy.index =
      position table copy := by
  have split := Finset.sum_range_add_sum_Ico (table.numRouted copy.group) first
  simp only [indexOnRank, position, RoutingTable.before] at split ⊢
  omega

theorem indexOnRank_lt (routed : RoutedTo table rank copy) :
    indexOnRank table rank copy.group copy.expert copy.index < table.tokensTo copy.group rank := by
  have bound := position_lt routed.last routed.index
  rw [← indexOnRank_eq table routed.first, ← table.tokensTo_eq (routed.first.trans routed.last.le)] at bound
  omega

def copiesOf (table : RoutingTable cfg) (rank : Nat) (groups : List Nat) : List TokenCopy :=
  groups.flatMap fun group =>
    (range' (cfg.firstExpert rank) (cfg.lastExpert rank - cfg.firstExpert rank)).flatMap fun expert =>
      (List.range (table.numRouted group expert)).map fun index => ⟨group, expert, index⟩

theorem entries_copies (padded count : Nat → Nat) (groups : List Nat) :
    (entries table rank padded count groups).map RoutedToken.copy = copiesOf table rank groups := by
  induction groups generalizing count with
  | nil => rfl
  | cons group groups ih =>
    rw [entries, map_append, ih]
    simp only [copiesOf, flatMap_cons, groupEntries, expertEntries, map_flatMap, map_map]
    rfl

theorem copiesOf_mem (groups : List Nat) (copy : TokenCopy) :
    copy ∈ copiesOf table rank groups ↔ copy.group ∈ groups ∧ cfg.firstExpert rank ≤ copy.expert ∧
      copy.expert < cfg.lastExpert rank ∧ copy.index < table.numRouted copy.group copy.expert := by
  simp only [copiesOf, mem_flatMap, mem_map, mem_range, mem_range'_1]
  constructor
  · rintro ⟨group, member, expert, bounds, index, below, rfl⟩
    exact ⟨member, bounds.1, by simp only; omega, below⟩
  · rintro ⟨member, first, last, below⟩
    exact ⟨copy.group, member, copy.expert, by omega, copy.index, below, rfl⟩

theorem copiesOf_nodup {groups : List Nat} (distinct : groups.Nodup) : (copiesOf table rank groups).Nodup := by
  simp only [copiesOf, nodup_flatMap, mem_range'_1]
  refine ⟨?_, distinct.imp ?_⟩
  · intro group _
    refine ⟨?_, (nodup_range' 1).imp ?_⟩
    · intro expert _
      exact nodup_range.map (fun _ _ same => (TokenCopy.mk.injEq .. ▸ same).2.2)
    · intro first second other copy left right
      simp only [mem_map] at left right
      obtain ⟨_, _, rfl⟩ := left
      obtain ⟨_, _, same⟩ := right
      exact other (congrArg TokenCopy.expert same).symm
  · intro first second other copy left right
    simp only [mem_flatMap, mem_map] at left right
    obtain ⟨_, _, _, _, rfl⟩ := left
    obtain ⟨_, _, _, _, same⟩ := right
    exact other (congrArg TokenCopy.group same).symm

theorem routedTokens_mem (inside : rank < cfg.worldSize) (copy : TokenCopy) :
    copy ∈ (routedTokens table rank).map RoutedToken.copy ↔ RoutedTo table rank copy := by
  rw [routedTokens, entries_copies, copiesOf_mem, (groupOrder_perm inside).mem_iff, mem_range]
  constructor
  · intro listed
    exact ⟨listed.1, listed.2.1, listed.2.2.1, listed.2.2.2⟩
  · intro routed
    exact ⟨routed.known, routed.first, routed.last, routed.index⟩

theorem routedTokens_nodup (table : RoutingTable cfg) (inside : rank < cfg.worldSize) :
    ((routedTokens table rank).map RoutedToken.copy).Nodup := by
  rw [routedTokens, entries_copies]
  exact copiesOf_nodup ((groupOrder_perm inside).nodup_iff.mpr nodup_range)

theorem routedTokens_length (ordered : cfg.firstExpert rank ≤ cfg.lastExpert rank) (inside : rank < cfg.worldSize) :
    (routedTokens table rank).length = table.received rank cfg.numDpGroups := by
  rw [routedTokens, entries_length_eq ordered, received_eq_order table inside]

theorem entries_describe (padded count : Nat → Nat) (groups : List Nat) {entry : RoutedToken}
    (member : entry ∈ entries table rank padded count groups) :
    ∃ earlier, entry = entryAt table rank padded earlier entry.copy.group entry.copy.expert entry.copy.index := by
  induction groups generalizing count with
  | nil => cases member
  | cons group groups ih =>
    rw [entries, mem_append] at member
    rcases member with here | later
    · simp only [groupEntries, expertEntries, mem_flatMap, mem_map] at here
      obtain ⟨expert, _, index, _, rfl⟩ := here
      exact ⟨count, rfl⟩
    · exact ih _ later

theorem routedTokens_remote (ordered : cfg.firstExpert rank ≤ cfg.lastExpert rank)
    (inside : rank < cfg.worldSize) {t : Nat} {entry : RoutedToken}
    (listed : (routedTokens table rank)[t]? = some entry) :
    t < (routingInfo table rank).numRecvEfaTokens ↔
      entry.copy.group / cfg.groupsPerNode ≠ rank / cfg.nodeSize := by
  have node : dpGroup cfg rank / cfg.groupsPerNode = rank / cfg.nodeSize := dpGroup_node
  rw [routedTokens, groupOrder, append_assoc, entries_append] at listed
  have size : (entries table rank (paddedStart table rank) (fun _ => 0) (remoteGroups cfg rank)).length =
      (routingInfo table rank).numRecvEfaTokens := entries_length_eq ordered _ _ _
  have grouped : ∀ count groups, entry ∈ entries table rank (paddedStart table rank) count groups →
      entry.copy.group ∈ groups := by
    intro count groups member
    have copied := mem_map_of_mem (f := RoutedToken.copy) member
    rw [entries_copies] at copied
    exact ((copiesOf_mem groups _).mp copied).1
  by_cases early : t < (routingInfo table rank).numRecvEfaTokens
  · have part := listed
    rw [getElem?_append_left (size ▸ early)] at part
    have far := ((remoteGroups_mem inside _).mp (grouped _ _ (mem_of_getElem? part))).2
    exact ⟨fun _ => far, fun _ => early⟩
  · rw [getElem?_append_right (size ▸ Nat.not_lt.mp early)] at listed
    have near := grouped _ _ (mem_of_getElem? listed)
    rw [mem_append, mem_singleton, nodeGroups_mem] at near
    refine ⟨fun later => absurd later early, fun far => ?_⟩
    rcases near with ⟨same, _⟩ | own
    · exact absurd same far
    · exact absurd (own ▸ node) far

end PplxGarden.AllToAll.Proofs
