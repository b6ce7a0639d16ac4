import PplxGarden.Proofs.Peers
import PplxGarden.Proofs.RoutingTotals

/-! The second routing pass in closed form. The entry of a received copy depends
only on the copy itself, except for its output row, which counts the copies of the
same expert that came before. -/

namespace PplxGarden.AllToAll.Proofs
open Library Fabric Function Finset Option

variable {cfg : Config} {rank : Nat}

/-- The position of a copy among those its group sends to this rank. -/
def indexOnRank (table : RoutingTable cfg) (rank group expert index : Nat) : Nat :=
  ∑ e ∈ Ico (cfg.firstExpert rank) expert, table.numRouted group e + index

def dispatchOffset (table : RoutingTable cfg) (rank group expert index : Nat) : Nat :=
  let i := u32 (indexOnRank table rank group expert index)
  if group = dpGroup cfg rank then u32 (table.before group expert + index)
  else if i < cfg.maxPrivateTokens then u32 (u32 (cfg.maxPrivateTokens * group) + i)
  else if group / cfg.groupsPerNode = rank / cfg.nodeSize then
    u32 (u32 (table.before group (cfg.firstExpert rank)) + i) ||| 2 ^ 31
  else u32 (u32 (u32 (table.received rank group) + i) +
    u32 (u32 (cfg.maxPrivateTokens * cfg.numDpGroups) + 2 ^ 32 - u32 cfg.maxPrivateTokens))

def combineOffset (table : RoutingTable cfg) (rank group expert index : Nat) : Nat :=
  if group ≠ dpGroup cfg rank ∨ 1 < cfg.dpSize then
    u32 ((if group / cfg.groupsPerNode = rank / cfg.nodeSize then u32 (table.before group (cfg.firstExpert rank))
      else u32 (table.received rank group)) + u32 (indexOnRank table rank group expert index))
  else u32 (table.before group expert + index)

def entryAt (table : RoutingTable cfg) (rank : Nat) (padded count : Nat → Nat)
    (group expert index : Nat) : RoutedToken where
  copy := ⟨group, expert, index⟩
  sourceDispatchOffset := dispatchOffset table rank group expert index
  combineSendOffset := combineOffset table rank group expert index
  sourceRank := u32 (group * cfg.dpSize + dpRank cfg rank)
  paddedIndex := u32 (padded (expert - cfg.firstExpert rank) + u32 (count (expert - cfg.firstExpert rank) + index))

def routeState (cfg : Config) (rank : Nat) (tokens : List RoutedToken)
    (sources dispatched combined count : Nat → Nat) : RouteState where
  tokens
  sourceExpertOffset := tabulate cfg.numExperts sources
  srcDispatchCount := tabulate cfg.numDpGroups dispatched
  srcCombineCount := tabulate cfg.numDpGroups combined
  expertCount := tabulate (cfg.lastExpert rank - cfg.firstExpert rank) count

def updateIf (condition : Prop) [Decidable condition] (entries : Nat → Nat) (index value : Nat) : Nat → Nat :=
  if condition then update entries index value else entries

variable {table : RoutingTable cfg}

section
variable {tokens : List RoutedToken} {sources dispatched combined count : Nat → Nat} {paddedOffset : List Nat}
  {padded : Nat → Nat} {group expert : Nat}

private theorem dispatchSource_eq (index : Nat) (known : group < cfg.numDpGroups)
    (hosted : expert < cfg.numExperts)
    (source : group = dpGroup cfg rank → sources expert = u32 (table.before group expert + index))
    (sent : group ≠ dpGroup cfg rank →
      dispatched group = u32 (indexOnRank table rank group expert index)) :
    dispatchSource cfg rank (totalsAt table rank cfg.numDpGroups) group expert
        (routeState cfg rank tokens sources dispatched combined count) =
      some (dispatchOffset table rank group expert index,
        if group = dpGroup cfg rank then u32 (table.before group expert + index) else 0,
        routeState cfg rank tokens
          (updateIf (group = dpGroup cfg rank) sources expert
            (u32 (table.before group expert + (index + 1))))
          (updateIf (group ≠ dpGroup cfg rank) dispatched group
            (u32 (indexOnRank table rank group expert (index + 1))))
          combined count) := by
  unfold dispatchSource
  by_cases own : group = dpGroup cfg rank
  · rw [if_pos ((peer_eq_iff group).mpr own)]
    simp [routeState, tabulate_get _ hosted, tabulate_set _ _ hosted, source own, updateIf, own, dispatchOffset,
      u32_add_left, Nat.add_assoc]
  · rw [if_neg (fun same => own ((peer_eq_iff group).mp same))]
    simp [routeState, tabulate_get _ known, tabulate_set _ _ known, sent own, updateIf, own, dispatchOffset, totalsAt,
      sentTo, filledTo_below _ known, peer_node group dpRank_lt, u32_add_left, indexOnRank, Nat.add_assoc]

private theorem combineTarget_eq (index : Nat) (known : group < cfg.numDpGroups)
    (sent : group ≠ dpGroup cfg rank ∨ 1 < cfg.dpSize →
      combined group = u32 (indexOnRank table rank group expert index)) :
    combineTarget cfg rank (totalsAt table rank cfg.numDpGroups) group
        (if group = dpGroup cfg rank then u32 (table.before group expert + index) else 0)
        (routeState cfg rank tokens sources dispatched combined count) =
      some (combineOffset table rank group expert index,
        routeState cfg rank tokens sources dispatched
          (updateIf (group ≠ dpGroup cfg rank ∨ 1 < cfg.dpSize) combined group
            (u32 (indexOnRank table rank group expert (index + 1)))) count) := by
  unfold combineTarget
  by_cases routed : group ≠ dpGroup cfg rank ∨ 1 < cfg.dpSize
  · have moved : group * cfg.dpSize + dpRank cfg rank ≠ rank ∨ 1 < cfg.dpSize :=
      routed.imp_left (fun other same => other ((peer_eq_iff group).mp same))
    simp only [if_pos moved, routeState, tabulate_get _ known, tabulate_set _ _ known, sent routed, combineOffset,
      if_pos routed, totalsAt, sentTo, peer_node group dpRank_lt, filledTo_below _ known, updateIf, bind_eq_bind,
      bind_some, u32_add_left, indexOnRank, Nat.add_assoc]
    split <;> simp [u32_add_left]
  · have kept : ¬ (group * cfg.dpSize + dpRank cfg rank ≠ rank ∨ 1 < cfg.dpSize) := by
      rintro (other | wide)
      · exact routed (Or.inl (fun same => other ((peer_eq_iff group).mpr same)))
      · exact routed (Or.inr wide)
    have own : group = dpGroup cfg rank := by
      by_contra other
      exact routed (Or.inl other)
    rw [if_neg kept, if_pos own]
    simp only [combineOffset, updateIf, if_neg routed, Option.pure_def]

private theorem routeCopy_eq (index : Nat) (known : group < cfg.numDpGroups) (hosted : expert < cfg.numExperts)
    (inside : expert - cfg.firstExpert rank < cfg.lastExpert rank - cfg.firstExpert rank)
    (offset : paddedOffset[expert - cfg.firstExpert rank]? = some (padded (expert - cfg.firstExpert rank)))
    (room : tokens.length < table.received rank cfg.numDpGroups) (base : Nat → Nat)
    (counted : count (expert - cfg.firstExpert rank) = base (expert - cfg.firstExpert rank) + index)
    (source : group = dpGroup cfg rank → sources expert = u32 (table.before group expert + index))
    (sent : group ≠ dpGroup cfg rank → dispatched group = u32 (indexOnRank table rank group expert index))
    (returned : group ≠ dpGroup cfg rank ∨ 1 < cfg.dpSize →
      combined group = u32 (indexOnRank table rank group expert index)) :
    routeCopy cfg rank (totalsAt table rank cfg.numDpGroups) paddedOffset group expert
        (routeState cfg rank tokens sources dispatched combined count) index =
      some (routeState cfg rank (tokens ++ [entryAt table rank padded base group expert index])
        (updateIf (group = dpGroup cfg rank) sources expert (u32 (table.before group expert + (index + 1))))
        (updateIf (group ≠ dpGroup cfg rank) dispatched group (u32 (indexOnRank table rank group expert (index + 1))))
        (updateIf (group ≠ dpGroup cfg rank ∨ 1 < cfg.dpSize) combined group
          (u32 (indexOnRank table rank group expert (index + 1))))
        (update count (expert - cfg.firstExpert rank)
          (base (expert - cfg.firstExpert rank) + (index + 1)))) := by
  unfold routeCopy
  rw [dispatchSource_eq index known hosted source sent]
  simp only [bind_eq_bind, bind_some, combineTarget_eq index known returned]
  simp only [routeState, tabulate_get _ inside, tabulate_set _ _ inside, offset, counted, bind_some]
  exact if_pos room

/-- The copies of one expert, in the order their group numbered them. -/
def expertEntries (table : RoutingTable cfg) (rank : Nat) (padded count : Nat → Nat)
    (group expert : Nat) : List RoutedToken :=
  (List.range (table.numRouted group expert)).map (entryAt table rank padded count group expert)

def groupEntries (table : RoutingTable cfg) (rank : Nat) (padded count : Nat → Nat) (group : Nat) : List RoutedToken :=
  (List.range' (cfg.firstExpert rank) (cfg.lastExpert rank - cfg.firstExpert rank)).flatMap
    (expertEntries table rank padded count group)

private theorem indexOnRank_zero (group expert : Nat) (ordered : cfg.firstExpert rank ≤ expert) :
    indexOnRank table rank group (expert + 1) 0 =
      indexOnRank table rank group expert (table.numRouted group expert) := by
  simp only [indexOnRank, Nat.add_zero]
  exact sum_Ico_succ_top ordered _

private theorem updateIf_idem (condition : Prop) [Decidable condition] (entries : Nat → Nat)
    (index first second : Nat) :
    updateIf condition (updateIf condition entries index first) index second =
      updateIf condition entries index second := by
  by_cases holds : condition <;> simp [updateIf, holds]

private theorem updateIf_same (condition : Prop) [Decidable condition] (entries : Nat → Nat) (index value : Nat)
    (same : condition → entries index = value) : updateIf condition entries index value = entries := by
  by_cases holds : condition
  · simp [updateIf, holds, ← same holds]
  · simp [updateIf, holds]

private theorem updateIf_at {condition : Prop} [Decidable condition] (entries : Nat → Nat) (index value : Nat)
    (holds : condition) : updateIf condition entries index value index = value := by
  simp [updateIf, holds]

private theorem routeExpert_eq (base : Nat → Nat) (known : group < cfg.numDpGroups)
    (hosted : expert < cfg.numExperts)
    (inside : expert - cfg.firstExpert rank < cfg.lastExpert rank - cfg.firstExpert rank)
    (offset : paddedOffset[expert - cfg.firstExpert rank]? =
      some (padded (expert - cfg.firstExpert rank)))
    (room : tokens.length + table.numRouted group expert ≤ table.received rank cfg.numDpGroups)
    (counted : count (expert - cfg.firstExpert rank) = base (expert - cfg.firstExpert rank))
    (source : group = dpGroup cfg rank → sources expert = u32 (table.before group expert))
    (sent : group ≠ dpGroup cfg rank →
      dispatched group = u32 (indexOnRank table rank group expert 0))
    (returned : group ≠ dpGroup cfg rank ∨ 1 < cfg.dpSize →
      combined group = u32 (indexOnRank table rank group expert 0)) :
    forRange 0 (table.numRouted group expert)
      (routeState cfg rank tokens sources dispatched combined count)
        (fun state index => routeCopy cfg rank (totalsAt table rank cfg.numDpGroups) paddedOffset
          group expert state index) =
      some (routeState cfg rank (tokens ++ expertEntries table rank padded base group expert)
        (updateIf (group = dpGroup cfg rank) sources expert (u32 (table.before group (expert + 1))))
        (updateIf (group ≠ dpGroup cfg rank) dispatched group
          (u32 (indexOnRank table rank group expert (table.numRouted group expert))))
        (updateIf (group ≠ dpGroup cfg rank ∨ 1 < cfg.dpSize) combined group
          (u32 (indexOnRank table rank group expert (table.numRouted group expert))))
        (update count (expert - cfg.firstExpert rank)
          (base (expert - cfg.firstExpert rank) + table.numRouted group expert))) := by
  rw [forRange_states (fun index => routeState cfg rank
      (tokens ++ (List.range index).map (entryAt table rank padded base group expert))
      (updateIf (group = dpGroup cfg rank) sources expert (u32 (table.before group expert + index)))
      (updateIf (group ≠ dpGroup cfg rank) dispatched group (u32 (indexOnRank table rank group expert index)))
      (updateIf (group ≠ dpGroup cfg rank ∨ 1 < cfg.dpSize) combined group
        (u32 (indexOnRank table rank group expert index)))
      (update count (expert - cfg.firstExpert rank) (base (expert - cfg.firstExpert rank) + index)))
    ?_ (Nat.zero_le _)]
  · simp only [table.before_succ, expertEntries]
  · intro index _ upper
    rw [routeCopy_eq index known hosted inside offset (by simp; omega) base (by simp)
      (fun own => updateIf_at _ _ _ own) (fun other => updateIf_at _ _ _ other) (fun moved => updateIf_at _ _ _ moved)]
    simp only [updateIf_idem, update_idem, List.range_succ, List.map_append, List.map_cons, List.map_nil,
      List.append_assoc]
  · have counters : update count (expert - cfg.firstExpert rank) (base (expert - cfg.firstExpert rank)) = count :=
      update_eq_self_iff.mpr counted.symm
    simp only [List.range_zero, List.map_nil, List.append_nil, Nat.add_zero, counters,
      updateIf_same _ _ _ _ source, updateIf_same _ _ _ _ sent, updateIf_same _ _ _ _ returned]

private theorem entries_length (padded count : Nat → Nat) (group first width : Nat) :
    ((List.range' first width).flatMap (expertEntries table rank padded count group)).length =
      ∑ e ∈ Ico first (first + width), table.numRouted group e := by
  induction width with
  | zero => simp
  | succ width ih =>
    rw [List.range'_concat, List.flatMap_append, List.length_append, ih, ← Nat.add_assoc,
      sum_Ico_succ_top (by omega)]
    simp [expertEntries]

theorem groupEntries_length (ordered : cfg.firstExpert rank ≤ cfg.lastExpert rank)
    (padded count : Nat → Nat) (group : Nat) :
    (groupEntries table rank padded count group).length = table.tokensTo group rank := by
  rw [groupEntries, entries_length, Nat.add_sub_cancel' ordered]
  rfl

/-- The offsets of the own copies once the experts below a bound were served. -/
def servedTo (table : RoutingTable cfg) (rank group : Nat) (sources : Nat → Nat) (bound : Nat) : Nat → Nat :=
  fun expert => if group = dpGroup cfg rank ∧ cfg.firstExpert rank ≤ expert ∧ expert < bound then
    u32 (table.before group (expert + 1)) else sources expert

private theorem servedTo_succ (sources : Nat → Nat) (group : Nat) {bound : Nat}
    (lower : cfg.firstExpert rank ≤ bound) :
    updateIf (group = dpGroup cfg rank) (servedTo table rank group sources bound) bound
      (u32 (table.before group (bound + 1))) =
      servedTo table rank group sources (bound + 1) := by
  funext expert
  by_cases own : group = dpGroup cfg rank
  · by_cases same : expert = bound
    · subst same
      simp [updateIf, servedTo, own, lower]
    · simp only [updateIf, if_pos own, update_of_ne same, servedTo]
      congr 1
      exact propext (by omega)
  · simp [updateIf, servedTo, own]

theorem servedTo_foreign {group : Nat} (foreign : group ≠ dpGroup cfg rank) (sources : Nat → Nat) (bound : Nat) :
    servedTo table rank group sources bound = sources := by
  funext expert
  exact if_neg (fun served => foreign served.1)

theorem routeGroup_eq (table : RoutingTable cfg)
    (ordered : cfg.firstExpert rank ≤ cfg.lastExpert rank) (known : group < cfg.numDpGroups)
    (tokens : List RoutedToken) (sources count : Nat → Nat)
    (offsets : ∀ index, index < cfg.lastExpert rank - cfg.firstExpert rank →
      paddedOffset[index]? = some (padded index))
    (room : tokens.length + table.tokensTo group rank ≤ table.received rank cfg.numDpGroups)
    (source : ∀ expert, group = dpGroup cfg rank → sources expert = u32 (table.before group expert))
    (fresh : dispatched group = 0) (unused : combined group = 0) :
    routeGroup cfg rank table (totalsAt table rank cfg.numDpGroups) paddedOffset
        (routeState cfg rank tokens sources dispatched combined count) group =
      some (table.tokensTo group rank,
        routeState cfg rank (tokens ++ groupEntries table rank padded count group)
          (servedTo table rank group sources (cfg.lastExpert rank))
          (updateIf (group ≠ dpGroup cfg rank) dispatched group (u32 (table.tokensTo group rank)))
          (updateIf (group ≠ dpGroup cfg rank ∨
            1 < cfg.dpSize) combined group (u32 (table.tokensTo group rank)))
          (fun index => count index + table.numRouted group (cfg.firstExpert rank + index))) := by
  have start : indexOnRank table rank group (cfg.firstExpert rank) 0 = 0 := by simp [indexOnRank]
  have stop : indexOnRank table rank group (cfg.lastExpert rank) 0 = table.tokensTo group rank := rfl
  unfold routeGroup
  rw [forRange_states (fun expert => (indexOnRank table rank group expert 0,
      routeState cfg rank
        (tokens ++ (List.range' (cfg.firstExpert rank) (expert - cfg.firstExpert rank)).flatMap
          (expertEntries table rank padded count group))
        (servedTo table rank group sources expert)
        (updateIf (group ≠ dpGroup cfg rank) dispatched group (u32 (indexOnRank table rank group expert 0)))
        (updateIf (group ≠ dpGroup cfg rank ∨ 1 < cfg.dpSize) combined group
          (u32 (indexOnRank table rank group expert 0)))
        (overwrite (expert - cfg.firstExpert rank)
          (fun index => count index + table.numRouted group (cfg.firstExpert rank + index)) count)))
    ?_ ordered]
  · simp only [stop, groupEntries, Option.some.injEq, Prod.mk.injEq, true_and, routeState, RouteState.mk.injEq]
    exact tabulate_congr (fun index bound => if_pos bound)
  · intro expert lower upper
    have hosted : expert < cfg.numExperts := upper.trans_le (lastExpert_le rank)
    have slot : expert - cfg.firstExpert rank < cfg.lastExpert rank - cfg.firstExpert rank := by omega
    have back : cfg.firstExpert rank + (expert - cfg.firstExpert rank) = expert := by omega
    have next : expert + 1 - cfg.firstExpert rank = expert - cfg.firstExpert rank + 1 := by omega
    have used : (tokens ++ (List.range' (cfg.firstExpert rank) (expert - cfg.firstExpert rank)).flatMap
        (expertEntries table rank padded count group)).length + table.numRouted group expert ≤
        table.received rank cfg.numDpGroups := by
      have grown : ∑ e ∈ Ico (cfg.firstExpert rank) (expert + 1), table.numRouted group e ≤ table.tokensTo group rank :=
        sum_le_sum_of_subset (Ico_subset_Ico_right (by omega))
      rw [sum_Ico_succ_top lower] at grown
      rw [List.length_append, entries_length, back]
      omega
    have current : overwrite (expert - cfg.firstExpert rank)
        (fun index => count index + table.numRouted group (cfg.firstExpert rank + index)) count
        (expert - cfg.firstExpert rank) = count (expert - cfg.firstExpert rank) := if_neg (by omega)
    have counters := update_overwrite (expert - cfg.firstExpert rank)
      (fun index => count index + table.numRouted group (cfg.firstExpert rank + index)) count
    simp only [back] at counters
    simp only [getNumRouted_eq known hosted, bind_eq_bind, bind_some]
    rw [routeExpert_eq count known hosted slot (offsets _ slot) used current
      (fun own => by rw [← source expert own]; simp [servedTo])
      (fun other => updateIf_at _ _ _ other) (fun moved => updateIf_at _ _ _ moved)]
    simp only [bind_some, Option.pure_def, servedTo_succ sources group lower, updateIf_idem, counters, next,
      indexOnRank_zero group expert lower, List.range'_concat, Nat.one_mul, back, List.flatMap_append, List.flatMap_cons,
      List.flatMap_nil, List.append_nil, List.append_assoc]
    simp [indexOnRank]
  · have none : servedTo table rank group sources (cfg.firstExpert rank) = sources := by
      funext expert
      exact if_neg (by omega)
    simp [start, none, updateIf_same _ _ _ _ (fun _ => fresh), updateIf_same _ _ _ _ (fun _ => unused)]

end

end PplxGarden.AllToAll.Proofs
