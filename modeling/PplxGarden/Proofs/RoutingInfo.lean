import PplxGarden.Proofs.RoutingTokens

/-! What `process_routing_info` returns. The second pass serves the groups in a
fixed order, so the received copies are listed group by group. -/

namespace PplxGarden.AllToAll.Proofs
open Library Fabric Finset Option

variable {cfg : Config} {rank : Nat} {table : RoutingTable cfg}

/-- Copies that local experts got from a list of groups, on top of earlier ones. -/
def countAfter (table : RoutingTable cfg) (rank : Nat) (count : Nat → Nat) (groups : List Nat) : Nat → Nat :=
  fun index => count index + (groups.map fun group => table.numRouted group (cfg.firstExpert rank + index)).sum

/-- Table entries for the copies of a list of groups. -/
def entries (table : RoutingTable cfg) (rank : Nat) (padded count : Nat → Nat) : List Nat → List RoutedToken
  | [] => []
  | group :: groups =>
    groupEntries table rank padded count group ++ entries table rank padded (countAfter table rank count [group]) groups

private theorem countAfter_nil (count : Nat → Nat) : countAfter table rank count [] = count := by
  funext index
  simp [countAfter]

private theorem countAfter_append (count : Nat → Nat) (first second : List Nat) :
    countAfter table rank count (first ++ second) =
      countAfter table rank (countAfter table rank count first) second := by
  funext index
  simp [countAfter, Nat.add_assoc]

theorem entries_append (padded count : Nat → Nat) (first second : List Nat) :
    entries table rank padded count (first ++ second) =
      entries table rank padded count first ++ entries table rank padded
        (countAfter table rank count first) second := by
  induction first generalizing count with
  | nil => simp [entries, countAfter_nil]
  | cons group groups ih =>
    have joined : countAfter table rank count (group :: groups) =
        countAfter table rank (countAfter table rank count [group]) groups := countAfter_append count [group] groups
    rw [List.cons_append, entries, ih, entries, joined, List.append_assoc]

theorem entries_length_eq (ordered : cfg.firstExpert rank ≤ cfg.lastExpert rank)
    (padded count : Nat → Nat) (groups : List Nat) :
    (entries table rank padded count groups).length =
      (groups.map fun group => table.tokensTo group rank).sum := by
  induction groups generalizing count with
  | nil => rfl
  | cons group groups ih => simp [entries, groupEntries_length ordered, ih]

section
variable {paddedOffset : List Nat} {padded : Nat → Nat}

theorem routeGroups_eq (table : RoutingTable cfg)
    (ordered : cfg.firstExpert rank ≤ cfg.lastExpert rank)
    (offsets : ∀ index, index < cfg.lastExpert rank - cfg.firstExpert rank →
      paddedOffset[index]? = some (padded index)) (sources dispatched combined : Nat → Nat)
    {groups : List Nat} (distinct : groups.Nodup)
    (known : ∀ group ∈ groups, group < cfg.numDpGroups ∧ group ≠ dpGroup cfg rank)
    (fresh : ∀ group ∈ groups, dispatched group = 0 ∧ combined group = 0)
    (tokens : List RoutedToken) (count : Nat → Nat)
    (room : tokens.length + (groups.map fun group => table.tokensTo group rank).sum ≤
      table.received rank cfg.numDpGroups) :
    ∃ dispatched' combined', (∀ group, group ∉ groups → dispatched' group = dispatched group ∧
      combined' group = combined group) ∧
      routeGroups cfg rank table (totalsAt table rank cfg.numDpGroups) paddedOffset groups
          (routeState cfg rank tokens sources dispatched combined count) =
        some ((groups.map fun group => table.tokensTo group rank).sum,
          routeState cfg rank (tokens ++ entries table rank padded count groups) sources dispatched'
            combined'
            (countAfter table rank count groups)) := by
  obtain ⟨step, steps, folds⟩ : ∃ step : Nat × RouteState → Nat → Option (Nat × RouteState),
      (∀ counted group, step counted group =
        (routeGroup cfg rank table (totalsAt table rank cfg.numDpGroups) paddedOffset counted.2 group).bind
          fun routed => some (counted.1 + routed.1, routed.2)) ∧
      ∀ groups state, routeGroups cfg rank table (totalsAt table rank cfg.numDpGroups) paddedOffset
        groups state = groups.foldlM step (0, state) :=
    ⟨_, fun _ _ => rfl, fun _ _ => rfl⟩
  suffices general : ∀ start, ∃ dispatched' combined',
      (∀ group, group ∉ groups → dispatched' group = dispatched group ∧ combined' group = combined group) ∧
      groups.foldlM step (start, routeState cfg rank tokens sources dispatched combined count) =
        some (start + (groups.map fun group => table.tokensTo group rank).sum,
          routeState cfg rank (tokens ++ entries table rank padded count groups) sources dispatched' combined'
            (countAfter table rank count groups)) by
    simpa [folds] using general 0
  intro start
  induction groups generalizing start tokens dispatched combined count with
  | nil => exact ⟨dispatched, combined, fun _ _ => ⟨rfl, rfl⟩, by simp [entries, countAfter_nil]⟩
  | cons group groups ih =>
    obtain ⟨other, distinct⟩ := List.nodup_cons.mp distinct
    obtain ⟨bound, foreign⟩ := known group (by simp)
    obtain ⟨unsent, unused⟩ := fresh group (by simp)
    rw [List.map_cons, List.sum_cons] at room
    have served := routeGroup_eq table ordered bound tokens sources count offsets (by omega)
      (fun expert own => absurd own foreign) unsent unused
    have counted : (fun index => count index + table.numRouted group (cfg.firstExpert rank + index)) =
        countAfter table rank count [group] := by
      funext index
      simp [countAfter]
    rw [servedTo_foreign foreign, counted] at served
    have untouched : ∀ g ∈ groups,
        updateIf (group ≠ dpGroup cfg rank) dispatched group (u32 (table.tokensTo group rank)) g = 0 ∧
        updateIf (group ≠ dpGroup cfg rank ∨ 1 < cfg.dpSize) combined group (u32 (table.tokensTo group rank)) g = 0 := by
      intro g member
      have apart : g ≠ group := fun same => other (same ▸ member)
      obtain ⟨unsent, unused⟩ := fresh g (by simp [member])
      simp [updateIf, foreign, apart, unsent, unused]
    obtain ⟨dispatched', combined', frame, rest⟩ := ih _ _ distinct (fun g member => known g (by simp [member])) untouched
      (tokens ++ groupEntries table rank padded count group) (countAfter table rank count [group])
      (by rw [List.length_append, groupEntries_length ordered]; omega) (start + table.tokensTo group rank)
    refine ⟨dispatched', combined', ?_, ?_⟩
    · intro g absent
      have apart : g ≠ group := fun same => absent (by simp [same])
      obtain ⟨first, second⟩ := frame g (fun member => absent (by simp [member]))
      rw [first, second]
      simp [updateIf, foreign, apart]
    · have joined : countAfter table rank count (group :: groups) =
          countAfter table rank (countAfter table rank count [group]) groups := countAfter_append count [group] groups
      rw [List.foldlM_cons, steps]
      simp only [served, bind_eq_bind, bind_some, joined, entries, List.map_cons,
        List.sum_cons, ← Nat.add_assoc, ← List.append_assoc]
      exact rest

end

theorem u32_add_right (a b : Nat) : u32 (a + u32 b) = u32 (a + b) := Nat.add_mod_mod _ _ _

def paddedStart (table : RoutingTable cfg) (rank index : Nat) : Nat :=
  u32 (∑ i ∈ range index, ceilDiv (perExpert table rank cfg.numDpGroups i) cfg.expertPadding * cfg.expertPadding)

theorem padExperts_eq (size : Nat) (entry : Nat → Nat) : padExperts cfg (tabulate size entry) =
    tabulate size (fun index => u32 (∑ i ∈ range index, ceilDiv (entry i) cfg.expertPadding * cfg.expertPadding)) := by
  obtain ⟨step, steps, folds⟩ : ∃ step : List Nat × Nat → Nat → List Nat × Nat,
      (∀ state count, step state count =
        (state.1 ++ [state.2], u32 (state.2 + u32 (ceilDiv count cfg.expertPadding * cfg.expertPadding)))) ∧
      ∀ counts, padExperts cfg counts = (counts.foldl step ([], 0)).1 := ⟨_, fun _ _ => rfl, fun _ => rfl⟩
  have fold : (tabulate size entry).foldl step ([], 0) =
      (tabulate size (fun index => u32 (∑ i ∈ range index, ceilDiv (entry i) cfg.expertPadding * cfg.expertPadding)),
        u32 (∑ i ∈ range size, ceilDiv (entry i) cfg.expertPadding * cfg.expertPadding)) := by
    induction size with
    | zero => simp [tabulate]
    | succ size ih =>
      rw [tabulate_succ, List.foldl_append, ih, tabulate_succ]
      simp [steps, u32_add_left, u32_add_right, sum_range_succ]
  rw [folds, fold]

def privateTarget (table : RoutingTable cfg) (rank peer : Nat) : ScatterTarget Nat where
  dstMr := peer
  length := min (table.tokensTo (dpGroup cfg rank) peer) cfg.maxPrivateTokens * cfg.dispatchTokenDim
  srcOffset := table.before (dpGroup cfg rank) (cfg.firstExpert peer) * cfg.dispatchTokenDim
  dstOffset := dpGroup cfg rank * cfg.maxPrivateTokens * cfg.dispatchTokenDim

theorem Contiguous.initialRoutes_eq (contiguous : Contiguous table) (inside : rank < cfg.worldSize) :
    dispatchInitialRoutes cfg rank table = some ((remoteRanks cfg rank).map (privateTarget table rank)) := by
  simp only [dispatchInitialRoutes, countInitialRoutes_eq contiguous inside, bind_eq_bind, bind_some]
  apply mapM_values
  intro peer member
  have bound := ((remoteRanks_mem inside peer).mp member).1
  simp only [tabulate_get _ bound, bind_some, Option.pure_def, privateTarget, Nat.mul_comm cfg.dispatchTokenDim]

theorem dispatchInitialRoutes_eq (admissible : cfg.Admissible) (inside : rank < cfg.worldSize) :
    dispatchInitialRoutes cfg rank table = some ((remoteRanks cfg rank).map (privateTarget table rank)) :=
  (Contiguous.of_admissible admissible).initialRoutes_eq inside

/-- The range behind the private parts, for the copies that do not fit them. -/
def overflowTarget (table : RoutingTable cfg) (rank peer : Nat) : ScatterTarget Nat where
  dstMr := peer
  length := (table.tokensTo (dpGroup cfg rank) peer - cfg.maxPrivateTokens) * cfg.dispatchTokenDim
  srcOffset := (cfg.maxPrivateTokens + table.before (dpGroup cfg rank) (cfg.firstExpert peer)) * cfg.dispatchTokenDim
  dstOffset := (cfg.maxPrivateTokens * cfg.numDpGroups + table.received peer (dpGroup cfg rank)) * cfg.dispatchTokenDim

theorem before_lt (group : Nat) {expert : Nat} (hosted : expert ≤ cfg.numExperts) :
    table.before group expert < 2 ^ 32 :=
  (table.before_mono group hosted).trans_lt (table.total_lt group)

private theorem dispatchRange_eq (contiguous : Contiguous table) (inside : rank < cfg.worldSize)
    {peer : Nat} (bound : peer < cfg.worldSize) :
    dispatchRange cfg rank table (totalsAt table rank cfg.numDpGroups) peer =
      some (if table.tokensTo (dpGroup cfg rank) peer ≤ cfg.maxPrivateTokens then none
        else some (overflowTarget table rank peer)) := by
  have known : dpGroup cfg rank < cfg.numDpGroups := cfg.group_lt inside
  have last : min ((peer + 1) * cfg.expertsPerRank) cfg.numExperts = cfg.lastExpert peer := expertBound_succ peer
  have sent : u32 (table.tokensTo (dpGroup cfg rank) peer) = table.tokensTo (dpGroup cfg rank) peer :=
    u32_of_lt (table.tokensTo_lt _ _)
  have start : u32 (table.before (dpGroup cfg rank) (cfg.firstExpert peer)) =
      table.before (dpGroup cfg rank) (cfg.firstExpert peer) := u32_of_lt (contiguous.before_lt _ bound)
  have earlier : (forRange 0 (dpGroup cfg rank) 0 fun dstOffset srcGroup =>
      forRange (peer * cfg.expertsPerRank) (cfg.lastExpert peer) dstOffset fun dstOffset expert => do
        return dstOffset + (← getNumRouted cfg table srcGroup expert)) = some (table.received peer (dpGroup cfg rank)) := by
    apply forRange_states (table.received peer) (by simp) (Nat.zero_le _)
    intro group _ upper
    rw [sumRouted_eq (upper.trans known) _ _ _ (lastExpert_le peer), table.received_succ]
    rfl
  have visited : peer < cfg.numDpGroups * cfg.dpSize := by rw [cfg.groups_mul]; exact bound
  simp only [dispatchRange, totalsAt, sentTo, tabulate_get _ bound, filledTo_below _ visited, sent, start, last,
    bind_eq_bind, bind_some, Option.pure_def]
  split
  · rfl
  · simp only [bind_eq_bind, Option.pure_def] at earlier
    simp only [earlier, bind_some, overflowTarget, Nat.mul_comm cfg.dispatchTokenDim]

def combineTargetOf (table : RoutingTable cfg) (rank : Nat) (peer : Nat × Nat) : ScatterTarget Nat where
  dstMr := peer.2
  length := table.tokensTo peer.1 rank * cfg.combineTokenDim
  srcOffset := u32 (table.received rank peer.1) * cfg.combineTokenDim
  dstOffset := table.before peer.1 (cfg.firstExpert rank) * cfg.combineTokenDim

private theorem combineRange_eq (contiguous : Contiguous table) (inside : rank < cfg.worldSize)
    {peer : Nat × Nat} (known : peer.1 < cfg.numDpGroups) :
    combineRange cfg (totalsAt table rank cfg.numDpGroups) peer =
      some (combineTargetOf table rank peer) := by
  have sent : u32 (table.tokensTo peer.1 rank) = table.tokensTo peer.1 rank := u32_of_lt (table.tokensTo_lt _ _)
  have start : u32 (table.before peer.1 (cfg.firstExpert rank)) = table.before peer.1 (cfg.firstExpert rank) :=
    u32_of_lt (contiguous.before_lt _ inside)
  simp only [combineRange, totalsAt, sentTo, tabulate_get _ known, filledTo_below _ known, sent, start,
    bind_eq_bind, bind_some, Option.pure_def, combineTargetOf, Nat.mul_comm cfg.combineTokenDim]

def routedTokens (table : RoutingTable cfg) (rank : Nat) : List RoutedToken :=
  entries table rank (paddedStart table rank) (fun _ => 0) (groupOrder cfg rank)

/-- Everything `process_routing_info` computes, as functions of the table. -/
def routingInfo (table : RoutingTable cfg) (rank : Nat) : RoutingInfo where
  tokensPerExpert := tabulate cfg.expertsPerRank (perExpert table rank cfg.numDpGroups)
  tokens := routedTokens table rank
  numRecvTokens := table.received rank cfg.numDpGroups
  numRecvEfaTokens := ((remoteGroups cfg rank).map fun group => table.tokensTo group rank).sum
  numRecvTx := ∑ group ∈ range cfg.numDpGroups, announced table rank group
  dispatchRanges := ((overflowRanks cfg rank).filter fun peer =>
    decide (cfg.maxPrivateTokens < table.tokensTo (dpGroup cfg rank) peer)).map (overflowTarget table rank)
  combineRanges := (combineRanks cfg rank).map (combineTargetOf table rank)

theorem received_eq_order (table : RoutingTable cfg) (inside : rank < cfg.worldSize) :
    ((groupOrder cfg rank).map fun group => table.tokensTo group rank).sum = table.received rank cfg.numDpGroups := by
  rw [((groupOrder_perm inside).map _).sum_eq]
  rfl

theorem remoteGroups_foreign (inside : rank < cfg.worldSize) {group : Nat} (member : group ∈ remoteGroups cfg rank) :
    group < cfg.numDpGroups ∧ group ≠ dpGroup cfg rank := by
  obtain ⟨known, far⟩ := (remoteGroups_mem inside group).mp member
  refine ⟨known, ?_⟩
  rintro rfl
  exact far dpGroup_node

private theorem nodeGroups_foreign (inside : rank < cfg.worldSize) {group : Nat}
    (member : group ∈ nodeGroups cfg rank) :
    group < cfg.numDpGroups ∧ group ≠ dpGroup cfg rank := by
  have listed : group ∈ groupOrder cfg rank := by simp [groupOrder, member]
  exact ⟨List.mem_range.mp ((groupOrder_perm inside).mem_iff.mp listed), ((nodeGroups_mem group).mp member).2⟩

private def routeStart (table : RoutingTable cfg) (rank : Nat) : RouteState :=
  routeState cfg rank [] (fun expert => u32 (table.before (dpGroup cfg rank) expert)) (fun _ => 0) (fun _ => 0) (fun _ => 0)

private theorem routeStages (table : RoutingTable cfg)
    (ordered : cfg.firstExpert rank ≤ cfg.lastExpert rank) (inside : rank < cfg.worldSize) :
    ∃ second third last nearCount ownCount,
      routeGroups cfg rank table (totalsAt table rank cfg.numDpGroups)
        (tabulate cfg.expertsPerRank (paddedStart table rank))
          (remoteGroups cfg rank) (routeStart table rank) =
        some (((remoteGroups cfg rank).map fun group => table.tokensTo group rank).sum, second) ∧
      routeGroups cfg rank table (totalsAt table rank cfg.numDpGroups)
        (tabulate cfg.expertsPerRank (paddedStart table rank))
          (nodeGroups cfg rank) second = some (nearCount, third) ∧
      routeGroup cfg rank table (totalsAt table rank cfg.numDpGroups)
        (tabulate cfg.expertsPerRank (paddedStart table rank))
          third (dpGroup cfg rank) = some (ownCount, last) ∧
      last.tokens = routedTokens table rank := by
  have total := received_eq_order table inside
  simp only [groupOrder, List.map_append, List.sum_append, List.map_cons, List.map_nil, List.sum_cons, List.sum_nil,
    Nat.add_zero] at total
  have offsets : ∀ index, index < cfg.lastExpert rank - cfg.firstExpert rank →
      (tabulate cfg.expertsPerRank (paddedStart table rank))[index]? = some (paddedStart table rank index) := by
    intro index bound
    have width : cfg.lastExpert rank ≤ cfg.firstExpert rank + cfg.expertsPerRank := Nat.min_le_left _ _
    exact tabulate_get _ (by omega)
  have separate : ∀ group ∈ nodeGroups cfg rank, group ∉ remoteGroups cfg rank :=
    fun group near far => ((remoteGroups_mem inside group).mp far).2 ((nodeGroups_mem group).mp near).1
  obtain ⟨dispatched, combined, frame, first⟩ := routeGroups_eq table ordered offsets
    (fun expert => u32 (table.before (dpGroup cfg rank) expert)) (fun _ => 0) (fun _ => 0) (remoteGroups_nodup inside)
    (fun _ => remoteGroups_foreign inside) (fun _ _ => ⟨rfl, rfl⟩) [] (fun _ => 0) (by simp only [List.length_nil]; omega)
  rw [List.nil_append] at first
  obtain ⟨dispatched', combined', frame', second⟩ := routeGroups_eq table ordered offsets
    (fun expert => u32 (table.before (dpGroup cfg rank) expert)) dispatched combined nodeGroups_nodup
    (fun _ => nodeGroups_foreign inside) (fun group near => frame group (separate group near))
    (entries table rank (paddedStart table rank) (fun _ => 0) (remoteGroups cfg rank))
    (countAfter table rank (fun _ => 0) (remoteGroups cfg rank))
    (by simp only [entries_length_eq ordered]; omega)
  have unserved : dispatched' (dpGroup cfg rank) = 0 ∧ combined' (dpGroup cfg rank) = 0 := by
    obtain ⟨sent, returned⟩ := frame' (dpGroup cfg rank) (fun near => (nodeGroups_foreign inside near).2 rfl)
    obtain ⟨start, unused⟩ := frame (dpGroup cfg rank) (fun far => (remoteGroups_foreign inside far).2 rfl)
    exact ⟨sent.trans start, returned.trans unused⟩
  have own : dpGroup cfg rank < cfg.numDpGroups := cfg.group_lt inside
  have third := routeGroup_eq table ordered own
    (entries table rank (paddedStart table rank) (fun _ => 0) (remoteGroups cfg rank) ++
      entries table rank (paddedStart table rank) (countAfter table rank (fun _ => 0)
        (remoteGroups cfg rank)) (nodeGroups cfg rank))
    (fun expert => u32 (table.before (dpGroup cfg rank) expert))
    (countAfter table rank (countAfter table rank (fun _ => 0) (remoteGroups cfg rank)) (nodeGroups cfg rank))
    offsets (by simp only [List.length_append, entries_length_eq ordered]; omega)
    (fun _ _ => rfl) unserved.1 unserved.2
  refine ⟨_, _, _, _, _, first, second, third, ?_⟩
  simp [routeState, routedTokens, groupOrder, entries_append, entries]

theorem Contiguous.routingInfo_eq (contiguous : Contiguous table) (inside : rank < cfg.worldSize)
    (ordered : cfg.firstExpert rank ≤ cfg.lastExpert rank) :
    processRoutingInfo cfg rank table = some (routingInfo table rank) := by
  obtain ⟨second, third, last, nearCount, ownCount, remote, near, own, tokens⟩ := routeStages table ordered inside
  have padded : padExperts cfg (totalsAt table rank cfg.numDpGroups).tokensPerExpert =
      tabulate cfg.expertsPerRank (paddedStart table rank) := padExperts_eq _ _
  have start : ({ tokens := [], sourceExpertOffset := (totalsAt table rank cfg.numDpGroups).sourceExpertOffset
                  srcDispatchCount := List.replicate cfg.numDpGroups 0, srcCombineCount := List.replicate cfg.numDpGroups 0
                  expertCount := List.replicate (cfg.lastExpert rank - cfg.firstExpert rank) 0 } : RouteState) =
      routeStart table rank := by
    simp only [totalsAt, sentTo, routeStart, routeState, replicate_eq_tabulate, cfg.groups_mul, expertBound_world,
      tabulate_filledTo _ (Nat.le_refl _)]
  have overflow : (overflowRanks cfg rank).mapM (dispatchRange cfg rank table (totalsAt table rank cfg.numDpGroups)) =
      some ((overflowRanks cfg rank).map fun peer =>
        if table.tokensTo (dpGroup cfg rank) peer ≤ cfg.maxPrivateTokens then none
          else some (overflowTarget table rank peer)) := by
    apply mapM_values
    intro peer member
    rw [overflowRanks_eq] at member
    obtain ⟨group, listed, rfl⟩ := List.mem_map.mp member
    exact dispatchRange_eq contiguous inside (cfg.member_lt (remoteGroups_foreign inside listed).1 dpRank_lt)
  have outputs : (combineRanks cfg rank).mapM (combineRange cfg (totalsAt table rank cfg.numDpGroups)) =
      some ((combineRanks cfg rank).map (combineTargetOf table rank)) := by
    apply mapM_values
    intro peer member
    rw [combineRanks_eq] at member
    obtain ⟨group, listed, inner⟩ := List.mem_flatMap.mp member
    obtain ⟨index, _, rfl⟩ := List.mem_map.mp inner
    exact combineRange_eq contiguous inside (remoteGroups_foreign inside listed).1
  have kept : ((overflowRanks cfg rank).map fun peer =>
        if table.tokensTo (dpGroup cfg rank) peer ≤ cfg.maxPrivateTokens then none
        else some (overflowTarget table rank peer)).filterMap id = (routingInfo table rank).dispatchRanges := by
    simp only [routingInfo]
    rw [List.filterMap_map, ← List.filterMap_eq_map, List.filterMap_filter]
    congr 1
    funext peer
    by_cases fits : table.tokensTo (dpGroup cfg rank) peer ≤ cfg.maxPrivateTokens
    · simp [fits]
    · simp [fits, Nat.lt_of_not_le fits]
  unfold processRoutingInfo
  simp only [if_neg (Nat.not_lt.mpr ordered), bind_eq_bind, bind_some, Option.pure_def,
    countGroups_eq contiguous inside ordered, padded, start, remote, near, own, overflow, outputs, tokens, kept]
  rfl

/-- On an admissible configuration the routing computation never fails. -/
theorem processRoutingInfo_eq (table : RoutingTable cfg) (admissible : cfg.Admissible)
    (inside : rank < cfg.worldSize) :
    processRoutingInfo cfg rank table = some (routingInfo table rank) :=
  (Contiguous.of_admissible admissible).routingInfo_eq inside (admissible.first_le_last inside)

private theorem dispatchInitialRoutes_trim (table : RoutingTable cfg) :
    dispatchInitialRoutes cfg rank (trim table) = dispatchInitialRoutes cfg rank table := by
  simp only [dispatchInitialRoutes, countInitialRoutes, getNumRouted_trim]

theorem processRoutingInfo_trim (table : RoutingTable cfg) :
    processRoutingInfo cfg rank (trim table) = processRoutingInfo cfg rank table := by
  have groups : countGroup cfg rank (trim table) = countGroup cfg rank table := by
    funext totals group
    simp only [countGroup, countPeer, getNumRouted_trim]
  have routed : routeGroup cfg rank (trim table) = routeGroup cfg rank table := by
    funext totals padded state group
    simp only [routeGroup, getNumRouted_trim]
  have ranges : dispatchRange cfg rank (trim table) = dispatchRange cfg rank table := by
    funext totals peer
    simp only [dispatchRange, getNumRouted_trim]
  simp only [processRoutingInfo, routeGroups, groups, routed, ranges]

theorem processRoutingInfo_total (table : RoutingTable cfg) (inside : rank < cfg.worldSize)
    (ordered : cfg.firstExpert rank ≤ cfg.lastExpert rank) :
    processRoutingInfo cfg rank table = some (routingInfo (trim table) rank) := by
  rw [← processRoutingInfo_trim]
  exact (Contiguous.of_trim table).routingInfo_eq inside ordered

theorem first_le_last_iff (cfg : Config) (rank : Nat) :
    cfg.firstExpert rank ≤ cfg.lastExpert rank ↔ cfg.firstExpert rank ≤ cfg.numExperts := by
  rw [Config.lastExpert, Nat.le_min]
  exact ⟨And.right, fun first => ⟨Nat.le_add_right _ _, first⟩⟩

theorem processRoutingInfo_eq_none (table : RoutingTable cfg) (past : cfg.numExperts < cfg.firstExpert rank) :
    processRoutingInfo cfg rank table = none := by
  rw [← Nat.not_le, ← first_le_last_iff, Nat.not_le] at past
  simp [processRoutingInfo, past]

theorem dispatchInitialRoutes_total (table : RoutingTable cfg) (inside : rank < cfg.worldSize) :
    ∃ routes, dispatchInitialRoutes cfg rank table = some routes := by
  have initial := (Contiguous.of_trim table).initialRoutes_eq inside
  rw [dispatchInitialRoutes_trim] at initial
  exact ⟨_, initial⟩

end PplxGarden.AllToAll.Proofs
