import PplxGarden.AllToAll.Rounds
import PplxGarden.Library.Layout
import PplxGarden.Proofs.Copies

/-! The rows of the expert inputs. Each local expert owns a padded block of rows and
takes the copies of one group after another, so a row names its copy. -/

namespace PplxGarden.AllToAll.Proofs
open Library Finset

variable {cfg : Config} {rank : Nat} {table : RoutingTable cfg}
variable {l : Nat} {copy : TokenCopy}

def expertStart (table : RoutingTable cfg) (rank index : Nat) : Nat :=
  ∑ i ∈ range index, ceilDiv (perExpert table rank cfg.numDpGroups i) cfg.expertPadding * cfg.expertPadding

theorem expertStart_eq (table : RoutingTable cfg) (rank size : Nat) :
    ((tabulate size (perExpert table rank cfg.numDpGroups)).map
      fun count => ceilDiv count cfg.expertPadding * cfg.expertPadding).sum =
        expertStart table rank size := by
  rw [tabulate, List.map_map]
  rfl

def indexOnExpert (table : RoutingTable cfg) (rank : Nat) (copy : TokenCopy) : Nat :=
  blockStart (fun group => table.numRouted group copy.expert) (groupOrder cfg rank) copy.group + copy.index

def rowOf (table : RoutingTable cfg) (rank : Nat) (copy : TokenCopy) : Nat :=
  expertStart table rank (copy.expert - cfg.firstExpert rank) + indexOnExpert table rank copy

theorem entries_row {padded count : Nat → Nat} {groups : List Nat} (distinct : groups.Nodup)
    {entry : RoutedToken} (member : entry ∈ entries table rank padded count groups) :
    entry.paddedIndex = u32 (padded (entry.copy.expert - cfg.firstExpert rank) +
      u32 (count (entry.copy.expert - cfg.firstExpert rank) +
      (blockStart (fun group => table.numRouted group entry.copy.expert) groups entry.copy.group +
        entry.copy.index))) := by
  induction groups generalizing count with
  | nil => cases member
  | cons group groups ih =>
    obtain ⟨absent, distinct⟩ := List.nodup_cons.mp distinct
    rw [entries, List.mem_append] at member
    cases member with
    | inl here =>
      simp only [groupEntries, expertEntries, List.mem_flatMap, List.mem_map] at here
      obtain ⟨expert, _, index, _, same⟩ := here
      subst same
      simp [entryAt, blockStart]
    | inr later =>
      have copied := List.mem_map_of_mem (f := RoutedToken.copy) later
      rw [entries_copies, copiesOf_mem] at copied
      have other : entry.copy.group ≠ group := fun same => absent (same ▸ copied.1)
      have back : cfg.firstExpert rank + (entry.copy.expert - cfg.firstExpert rank) =
        entry.copy.expert := Nat.add_sub_cancel' copied.2.1
      rw [ih distinct later, blockStart, if_neg other, countAfter, List.map_singleton,
        List.sum_singleton, back, Nat.add_assoc, Nat.add_assoc]

theorem received_lt (small : table.TotalsFit) (inside : rank < cfg.worldSize) :
    table.received rank cfg.numDpGroups < 2 ^ 32 :=
  (small.received rank inside).trans (by decide)

theorem perExpert_eq (counted : table.received rank cfg.numDpGroups < 2 ^ 32)
    (inside : rank < cfg.worldSize) {expert : Nat} (first : cfg.firstExpert rank ≤ expert)
    (last : expert < cfg.lastExpert rank) :
    perExpert table rank cfg.numDpGroups (expert - cfg.firstExpert rank) =
        ((groupOrder cfg rank).map fun group => table.numRouted group expert).sum := by
  have back : cfg.firstExpert rank + (expert - cfg.firstExpert rank) = expert := Nat.add_sub_cancel' first
  have total : ∑ g ∈ range cfg.numDpGroups, table.numRouted g expert ≤ table.received rank cfg.numDpGroups :=
    sum_le_sum fun g _ => single_le_sum (f := table.numRouted g) (fun _ _ => Nat.zero_le _) (mem_Ico.mpr ⟨first, last⟩)
  rw [perExpert, filledTo_below _ (by omega), back, u32_of_lt (by omega), ((groupOrder_perm inside).map _).sum_eq]
  rfl

theorem indexOnExpert_lt (counted : table.received rank cfg.numDpGroups < 2 ^ 32)
    (inside : rank < cfg.worldSize) (routed : RoutedTo table rank copy) :
    indexOnExpert table rank copy < perExpert table rank cfg.numDpGroups
      (copy.expert - cfg.firstExpert rank) := by
  rw [perExpert_eq counted inside routed.first routed.last]
  exact blockStart_fits ((groupOrder_perm inside).mem_iff.mpr (List.mem_range.mpr routed.known)) routed.index

theorem padded_le {padding : Nat} (positive : 0 < padding) (count : Nat) :
    count ≤ ceilDiv count padding * padding := by
  have room := Nat.lt_mul_div_succ (count + padding - 1) positive
  rw [Nat.mul_add, Nat.mul_comm] at room
  simp only [ceilDiv]
  omega

theorem rowExpert_start {padding : Nat} (positive : 0 < padding) {counts : List Nat}
    {index count : Nat} (listed : counts[index]? = some count) {place : Nat}
    (inside : place < count) :
    rowExpert padding counts (((counts.take index).map fun count => ceilDiv count padding *
      padding).sum + place) = some index := by
  induction counts generalizing index with
  | nil => cases listed
  | cons head counts ih =>
    cases index with
    | zero =>
      cases listed
      have room := padded_le positive count
      simp only [rowExpert, List.take_zero, List.map_nil, List.sum_nil, Nat.zero_add]
      rw [if_pos (by omega), if_pos inside]
    | succ index =>
      have later := ih listed
      simp only [rowExpert, List.take_succ_cons, List.map_cons, List.sum_cons]
      rw [if_neg (by omega), Nat.add_assoc, Nat.add_sub_cancel_left, later]
      rfl

private theorem take_tabulate {α : Type} {size index : Nat} (entry : Nat → α) (inside : index ≤ size) :
    (tabulate size entry).take index = tabulate index entry := by
  rw [tabulate, ← List.map_take, List.take_range, Nat.min_eq_left inside]
  rfl

private theorem local_lt {expert : Nat} (first : cfg.firstExpert rank ≤ expert) (last : expert < cfg.lastExpert rank) :
    expert - cfg.firstExpert rank < cfg.expertsPerRank := by
  have bound : expert < cfg.firstExpert rank + cfg.expertsPerRank := last.trans_le (Nat.min_le_left _ _)
  omega

section
variable (counted : table.received rank cfg.numDpGroups < 2 ^ 32)
include counted

theorem rowExpert_rowOf (inside : rank < cfg.worldSize) (routed : RoutedTo table rank copy) :
    rowExpert cfg.expertPadding (routingInfo table rank).tokensPerExpert (rowOf table rank copy) =
      some (copy.expert - cfg.firstExpert rank) := by
  have bound := local_lt routed.first routed.last
  have found := rowExpert_start cfg.padding_pos (tabulate_get (perExpert table rank cfg.numDpGroups)
    bound) (indexOnExpert_lt counted inside routed)
  rw [take_tabulate _ bound.le, expertStart_eq] at found
  exact found

theorem rowOf_injective (inside : rank < cfg.worldSize) {first second : TokenCopy}
    (left : RoutedTo table rank first) (right : RoutedTo table rank second)
    (same : rowOf table rank first = rowOf table rank second) : first = second := by
  have experts := rowExpert_rowOf counted inside left
  rw [same, rowExpert_rowOf counted inside right, Option.some.injEq] at experts
  have expert : first.expert = second.expert := by
    have lower := left.first
    have upper := right.first
    omega
  have places : indexOnExpert table rank first = indexOnExpert table rank second := by
    simp only [rowOf, expert] at same
    omega
  simp only [indexOnExpert, expert] at places
  have group := blockStart_injective ((groupOrder_perm inside).mem_iff.mpr (List.mem_range.mpr left.known))
    ((groupOrder_perm inside).mem_iff.mpr (List.mem_range.mpr right.known)) (expert ▸ left.index) right.index places
  rw [group] at places
  cases first
  cases second
  simp_all

theorem routedTokens_row (inside : rank < cfg.worldSize)
    (rows : ((routingInfo table rank).tokensPerExpert.map fun count =>
      ceilDiv count cfg.expertPadding * cfg.expertPadding).sum < 2 ^ 32) {entry : RoutedToken}
    (member : entry ∈ routedTokens table rank) :
    entry.paddedIndex = rowOf table rank entry.copy := by
  have routed : RoutedTo table rank entry.copy := (routedTokens_mem inside _).mp (List.mem_map_of_mem member)
  have last := local_lt routed.first routed.last
  have place := indexOnExpert_lt counted inside routed
  have room := padded_le cfg.padding_pos (perExpert table rank cfg.numDpGroups (entry.copy.expert - cfg.firstExpert rank))
  have total : expertStart table rank (entry.copy.expert - cfg.firstExpert rank + 1) ≤
      expertStart table rank cfg.expertsPerRank :=
    sum_le_sum_of_subset (range_mono last)
  have whole : expertStart table rank cfg.expertsPerRank < 2 ^ 32 := by
    rw [routingInfo, expertStart_eq] at rows
    exact rows
  rw [expertStart, sum_range_succ, ← expertStart] at total
  have row := entries_row ((groupOrder_perm inside).nodup_iff.mpr List.nodup_range) member
  rw [Nat.zero_add, ← indexOnExpert, u32_add_right, paddedStart, u32_add_left] at row
  exact row.trans (u32_of_lt (show expertStart table rank _ + _ < _ by omega))

end

def numLocalExperts (cfg : Config) (rank : Nat) : Nat := cfg.lastExpert rank - cfg.firstExpert rank

def localCount (table : RoutingTable cfg) (rank l : Nat) : Nat :=
  ∑ group ∈ range cfg.numDpGroups, table.numRouted group (cfg.firstExpert rank + l)

/-- The received tokens are the copies routed to the rank, and rows are handed out to the
local experts block by block: `start l` is the first row of expert `l`, and its tokens fill the
rows that follow. -/
structure RowLayout (table : RoutingTable cfg) (rank : Nat) (info : RoutingInfo) (start : Nat → Nat) : Prop where
  distinct : (info.tokens.map RoutedToken.copy).Nodup
  routed : ∀ copy, copy ∈ info.tokens.map RoutedToken.copy ↔ RoutedTo table rank copy
  length : info.tokens.length = info.numRecvTokens
  total : info.numRecvTokens = ∑ l ∈ range (numLocalExperts cfg rank), localCount table rank l
  counts : ∀ l, l < numLocalExperts cfg rank → info.tokensPerExpert[l]? = some (localCount table rank l)
  injective : (info.tokens.map RoutedToken.paddedIndex).Nodup
  start_zero : start 0 = 0
  start_aligned : ∀ l, l < numLocalExperts cfg rank → cfg.expertPadding ∣ start l
  block : ∀ l, l < numLocalExperts cfg rank →
    ∀ row, (∃ entry ∈ info.tokens, entry.copy.expert = cfg.firstExpert rank + l ∧ entry.paddedIndex = row) ↔
      start l ≤ row ∧ row < start l + localCount table rank l
  ordered : ∀ l l', l < l' → l' < numLocalExperts cfg rank → start l + localCount table rank l ≤ start l'
  bounded : ∀ entry ∈ info.tokens, entry.paddedIndex <
    ceilDiv (info.numRecvTokens + numLocalExperts cfg rank * (cfg.expertPadding - 1)) cfg.expertPadding * cfg.expertPadding

def paddedRows (table : RoutingTable cfg) (rank : Nat) : Nat :=
  ∑ l ∈ range (numLocalExperts cfg rank), ceilDiv (localCount table rank l) cfg.expertPadding * cfg.expertPadding

theorem received_eq_localCount (table : RoutingTable cfg) (rank : Nat) :
    table.received rank cfg.numDpGroups = ∑ l ∈ range (numLocalExperts cfg rank), localCount table rank l := by
  simp only [RoutingTable.received, RoutingTable.tokensTo, sum_Ico_eq_sum_range]
  exact sum_comm

private theorem hosted_lt (owned : l < numLocalExperts cfg rank) : cfg.firstExpert rank + l < cfg.numExperts := by
  have last : cfg.lastExpert rank ≤ cfg.numExperts := lastExpert_le rank
  rw [numLocalExperts] at owned
  omega

theorem localCount_trim (table : RoutingTable cfg) (owned : l < numLocalExperts cfg rank) :
    localCount (trim table) rank l = localCount table rank l :=
  sum_congr rfl fun _ _ => if_pos (hosted_lt owned)

private theorem paddedRows_trim (table : RoutingTable cfg) (rank : Nat) :
    paddedRows (trim table) rank = paddedRows table rank := by
  apply sum_congr rfl
  intro l member
  rw [localCount_trim table (mem_range.mp member)]

private theorem routedTo_trim (table : RoutingTable cfg) (copy : TokenCopy) :
    RoutedTo (trim table) rank copy ↔ RoutedTo table rank copy := by
  have same : copy.expert < cfg.lastExpert rank →
      (trim table).numRouted copy.group copy.expert = table.numRouted copy.group copy.expert :=
    fun last => if_pos (last.trans_le (lastExpert_le rank))
  constructor
  · intro routed
    exact ⟨routed.known, routed.first, routed.last, same routed.last ▸ routed.index⟩
  · intro routed
    exact ⟨routed.known, routed.first, routed.last, (same routed.last).symm ▸ routed.index⟩

theorem RowLayout.of_trim {info : RoutingInfo} {start : Nat → Nat} (layout : RowLayout (trim table) rank info start) :
    RowLayout table rank info start where
  distinct := layout.distinct
  routed copy := (layout.routed copy).trans (routedTo_trim table copy)
  length := layout.length
  total := layout.total.trans (sum_congr rfl fun _ member => localCount_trim table (mem_range.mp member))
  counts l owned := by rw [layout.counts l owned, localCount_trim table owned]
  injective := layout.injective
  start_zero := layout.start_zero
  start_aligned := layout.start_aligned
  block l owned := by rw [← localCount_trim table owned]; exact layout.block l owned
  ordered l l' below owned := by rw [← localCount_trim table (below.trans owned)]; exact layout.ordered l l' below owned
  bounded := layout.bounded

private theorem received_le_paddedRows (table : RoutingTable cfg) (rank : Nat) :
    table.received rank cfg.numDpGroups ≤ paddedRows table rank := by
  rw [received_eq_localCount]
  exact sum_le_sum fun l _ => padded_le cfg.padding_pos _

theorem numLocalExperts_le (cfg : Config) (rank : Nat) : numLocalExperts cfg rank ≤ cfg.expertsPerRank := by
  have last : cfg.lastExpert rank ≤ cfg.firstExpert rank + cfg.expertsPerRank := Nat.min_le_left _ _
  rw [numLocalExperts]
  omega

theorem perExpert_local (counted : table.received rank cfg.numDpGroups < 2 ^ 32)
    (owned : l < numLocalExperts cfg rank) :
    perExpert table rank cfg.numDpGroups l = localCount table rank l := by
  rw [received_eq_localCount] at counted
  have part : localCount table rank l ≤ ∑ l ∈ range (numLocalExperts cfg rank), localCount table rank l :=
    single_le_sum (fun _ _ => Nat.zero_le _) (mem_range.mpr owned)
  exact (filledTo_below _ owned).trans (u32_of_lt (part.trans_lt counted))

theorem expertStart_all (counted : table.received rank cfg.numDpGroups < 2 ^ 32) :
    expertStart table rank cfg.expertsPerRank = paddedRows table rank := by
  rw [expertStart, paddedRows, ← sum_range_add_sum_Ico _ (numLocalExperts_le cfg rank)]
  have unused : ∑ l ∈ Ico (numLocalExperts cfg rank) cfg.expertsPerRank,
      ceilDiv (perExpert table rank cfg.numDpGroups l) cfg.expertPadding * cfg.expertPadding = 0 := by
    apply sum_eq_zero
    intro l member
    have empty : perExpert table rank cfg.numDpGroups l = 0 := filledTo_above _ (mem_Ico.mp member).1
    rw [empty, ceilDiv, Nat.zero_add, Nat.div_eq_of_lt (Nat.sub_lt cfg.padding_pos Nat.one_pos), Nat.zero_mul]
  rw [unused, Nat.add_zero]
  apply sum_congr rfl
  intro l member
  rw [perExpert_local counted (mem_range.mp member)]

private theorem expertStart_mono (table : RoutingTable cfg) (rank : Nat) {first last : Nat} (ordered : first ≤ last) :
    expertStart table rank first ≤ expertStart table rank last :=
  sum_le_sum_of_subset (range_mono ordered)

private theorem expertStart_room (table : RoutingTable cfg) (rank : Nat) {first last : Nat} (below : first < last) :
    expertStart table rank first + perExpert table rank cfg.numDpGroups first ≤ expertStart table rank last := by
  have room := padded_le cfg.padding_pos (perExpert table rank cfg.numDpGroups first)
  have next := expertStart_mono table rank (Nat.succ_le_of_lt below)
  rw [expertStart, sum_range_succ, ← expertStart] at next
  omega

theorem paddedRows_le (table : RoutingTable cfg) (rank : Nat) :
    paddedRows table rank ≤ table.received rank cfg.numDpGroups + numLocalExperts cfg rank *
      (cfg.expertPadding - 1) := by
  rw [received_eq_localCount]
  have each : ∀ l ∈ range (numLocalExperts cfg rank),
      ceilDiv (localCount table rank l) cfg.expertPadding * cfg.expertPadding ≤
        localCount table rank l + (cfg.expertPadding - 1) := by
    intro l _
    have positive := cfg.padding_pos
    have whole := Nat.div_mul_le_self (localCount table rank l + cfg.expertPadding - 1) cfg.expertPadding
    rw [ceilDiv]
    omega
  have total := sum_le_sum each
  rw [sum_add_distrib, sum_const, card_range] at total
  exact total

theorem rows_of_expert (counted : table.received rank cfg.numDpGroups < 2 ^ 32) (inside : rank < cfg.worldSize)
    (owned : l < numLocalExperts cfg rank) (row : Nat) :
    (∃ copy, RoutedTo table rank copy ∧ copy.expert = cfg.firstExpert rank + l ∧ rowOf table rank copy = row) ↔
      expertStart table rank l ≤ row ∧ row < expertStart table rank l + perExpert table rank cfg.numDpGroups l := by
  have back : cfg.firstExpert rank + l - cfg.firstExpert rank = l := Nat.add_sub_cancel_left _ _
  rw [numLocalExperts] at owned
  constructor
  · rintro ⟨copy, routed, expert, rfl⟩
    have place := indexOnExpert_lt counted inside routed
    rw [expert, back] at place
    rw [rowOf, expert, back]
    omega
  · rintro ⟨lower, upper⟩
    have total := perExpert_eq counted inside (Nat.le_add_right _ l) (show cfg.firstExpert rank +
      l < cfg.lastExpert rank by omega)
    rw [back] at total
    have place : row - expertStart table rank l <
        ((groupOrder cfg rank).map fun group => table.numRouted group (cfg.firstExpert rank + l)).sum := by omega
    obtain ⟨group, member, index, bound, reached⟩ :=
      blockStart_covers ((groupOrder_perm inside).nodup_iff.mpr List.nodup_range) place
    have known := List.mem_range.mp ((groupOrder_perm inside).mem_iff.mp member)
    refine ⟨⟨group, cfg.firstExpert rank + l, index⟩,
      ⟨known, Nat.le_add_right _ _, show cfg.firstExpert rank + l < _ by omega, bound⟩, rfl, ?_⟩
    simp only [rowOf, indexOnExpert, back, reached]
    omega

private theorem routedTo_local (routed : RoutedTo table rank copy) :
    copy.expert - cfg.firstExpert rank < numLocalExperts cfg rank := by
  have first := routed.first
  have last := routed.last
  rw [numLocalExperts]
  omega

theorem rowLayout (counted : table.received rank cfg.numDpGroups < 2 ^ 32) (rows : paddedRows table rank < 2 ^ 32)
    (inside : rank < cfg.worldSize) (owns : cfg.firstExpert rank ≤ cfg.lastExpert rank) :
    RowLayout table rank (routingInfo table rank) (expertStart table rank) := by
  have fits : ((routingInfo table rank).tokensPerExpert.map fun count =>
      ceilDiv count cfg.expertPadding * cfg.expertPadding).sum < 2 ^ 32 := by
    rw [routingInfo, expertStart_eq, expertStart_all counted]
    exact rows
  have row : ∀ entry ∈ routedTokens table rank, entry.paddedIndex = rowOf table rank entry.copy :=
    fun _ member => routedTokens_row counted inside fits member
  have routed : ∀ entry ∈ routedTokens table rank, RoutedTo table rank entry.copy :=
    fun _ member => (routedTokens_mem inside _).mp (List.mem_map_of_mem member)
  have listed : ∀ l, l < numLocalExperts cfg rank →
      (routingInfo table rank).tokensPerExpert[l]? = some (localCount table rank l) := by
    intro l owned
    rw [← perExpert_local counted owned]
    exact tabulate_get _ (owned.trans_le (numLocalExperts_le cfg rank))
  refine ⟨routedTokens_nodup table inside, routedTokens_mem inside, routedTokens_length owns inside,
    received_eq_localCount table rank, listed, ?_, rfl, ?_, ?_, ?_, ?_⟩
  · have rows : (routedTokens table rank).map RoutedToken.paddedIndex =
        ((routedTokens table rank).map RoutedToken.copy).map (rowOf table rank) := by
      rw [List.map_map]
      exact List.map_congr_left row
    rw [routingInfo, rows]
    apply (routedTokens_nodup table inside).map_on
    intro first left second right same
    exact rowOf_injective counted inside ((routedTokens_mem inside first).mp left)
      ((routedTokens_mem inside second).mp right) same
  · intro l _
    exact sum_induction _ (cfg.expertPadding ∣ ·) (fun _ _ => Nat.dvd_add) (Nat.dvd_zero _) fun _ _ => Nat.dvd_mul_left _ _
  · intro l owned row'
    rw [← perExpert_local counted owned, ← rows_of_expert counted inside owned]
    constructor
    · rintro ⟨entry, member, expert, rfl⟩
      exact ⟨entry.copy, routed entry member, expert, (row entry member).symm⟩
    · rintro ⟨copy, goes, expert, rfl⟩
      obtain ⟨entry, member, rfl⟩ := List.mem_map.mp ((routedTokens_mem inside copy).mpr goes)
      exact ⟨entry, member, expert, row entry member⟩
  · intro l l' below owned
    rw [← perExpert_local counted (below.trans owned)]
    exact expertStart_room table rank below
  · intro entry member
    have owned := routedTo_local (routed entry member)
    have place := (rows_of_expert counted inside owned _).mp ⟨entry.copy, routed entry member,
      (Nat.add_sub_cancel' (routed entry member).first).symm, (row entry member).symm⟩
    have room := expertStart_room table rank (owned.trans_le (numLocalExperts_le cfg rank))
    rw [expertStart_all counted] at room
    have total := paddedRows_le table rank
    have rounded := padded_le cfg.padding_pos (table.received rank cfg.numDpGroups +
      numLocalExperts cfg rank * (cfg.expertPadding - 1))
    simp only [routingInfo]
    omega

/-- Received tokens are laid out expert by expert, if their rows are numbered in 32 bits. -/
theorem padded_layout (table : RoutingTable cfg) (inside : rank < cfg.worldSize)
    (owns : cfg.firstExpert rank < cfg.lastExpert rank) (rows : paddedRows table rank < 2 ^ 32) :
    ∃ info start, processRoutingInfo cfg rank table = some info ∧
      RowLayout table rank info start := by
  rw [← paddedRows_trim] at rows
  have counted := (received_le_paddedRows (trim table) rank).trans_lt rows
  exact ⟨_, _, processRoutingInfo_total table inside owns.le, (rowLayout counted rows inside owns.le).of_trim⟩

def paddedRanks (padding : Nat) (positive : 0 < padding) : Config :=
  { Config.pair with numExperts := 4, maxPrivateTokens := 4, expertPadding := padding, padding_pos := positive }

/-- Every group routes one copy to every expert. -/
def onePerRow (padding : Nat) (positive : 0 < padding) : RoutingTable (paddedRanks padding positive) where
  numRouted _ _ := 1
  total_lt _ := (by decide : ∑ _expert ∈ range 4, 1 < 2 ^ 32)

theorem padded_layout_four : ∃ info start, processRoutingInfo _ 1 (onePerRow 4 (Nat.succ_pos 3)) = some info ∧
    RowLayout (onePerRow 4 (Nat.succ_pos 3)) 1 info start :=
  padded_layout _ (by decide) (by decide) (by decide)

/-- A block of `2 ^ 32` rows is truncated to an empty one, so the first tokens of
both experts share row zero. -/
theorem padded_rows_collide :
    (paddedRanks (2 ^ 32) (Nat.two_pow_pos 32)).firstExpert 0 <
      (paddedRanks (2 ^ 32) (Nat.two_pow_pos 32)).lastExpert 0 ∧
      ¬ ∃ info start, processRoutingInfo _ 0 (onePerRow (2 ^ 32) (Nat.two_pow_pos 32)) = some info ∧
        RowLayout (onePerRow (2 ^ 32) (Nat.two_pow_pos 32)) 0 info start := by
  refine ⟨by decide, ?_⟩
  rintro ⟨info, start, routed, layout⟩
  have collide : (processRoutingInfo _ 0 (onePerRow (2 ^ 32) (Nat.two_pow_pos 32))).all
      fun info => ¬ (info.tokens.map RoutedToken.paddedIndex).Nodup := by decide +kernel
  rw [routed, Option.all_some, decide_eq_true_eq] at collide
  exact collide layout.injective

end PplxGarden.AllToAll.Proofs
