import PplxGarden.AllToAll.RoutePhase
import PplxGarden.Proofs.Rounds

/-! The first phase of `dispatch_send` numbers the copies of its group densely, expert by
expert, whatever the order of its atomic additions. -/

namespace PplxGarden.AllToAll.Proofs
open Library Function Finset Nat

variable {cfg : Config}
variable {route expert : Nat}

private theorem addU32_assoc (a b c : Nat) : addU32 (addU32 a b) c = addU32 a (addU32 b c) := by
  simp only [addU32, u32_add_left, u32_add_right, Nat.add_assoc]

private theorem sumBack_addU32 {reg : Nat → Nat} (small : ∀ thread, reg thread < 2 ^ 32)
    {thread count : Nat} (enough : count ≤ thread) :
    sumBack addU32 reg thread count = u32 (∑ e ∈ Ico (thread - count) (thread + 1), reg e) := by
  induction count with
  | zero =>
    rw [sumBack, Nat.sub_zero, sum_Ico_succ_top (Nat.le_refl _), Ico_self, sum_empty, Nat.zero_add,
      u32_of_lt (small _)]
  | succ count ih =>
    have next : thread - (count + 1) + 1 = thread - count := by omega
    rw [sumBack, ih (by omega), addU32, u32_add_left,
      sum_eq_sum_Ico_succ_bot (show thread - (count + 1) < thread + 1 by omega), next,
      Nat.add_comm]

theorem warpScan_eq {bound : Nat} {reg : Nat → Nat} (small : ∀ thread, reg thread < 2 ^ 32)
    {thread : Nat} (inside : thread % warpSize < bound) :
    warpScan bound reg thread = u32 (∑ e ∈ Ico (thread / warpSize * warpSize) (thread + 1),
      reg e) := by
  have start : thread - thread % warpSize = thread / warpSize * warpSize := by
    have split := div_add_mod' thread warpSize
    omega
  rw [warpScan, scan_eq addU32_assoc _ _ _ inside, sumBack_addU32 small (mod_le _ _), start]

private theorem sum_warps (counts : Nat → Nat) (warps : Nat) :
    u32 (∑ warp ∈ range warps, u32 (∑ e ∈ Ico (warp * warpSize) ((warp + 1) * warpSize), counts e)) =
      u32 (∑ e ∈ range (warps * warpSize), counts e) := by
  induction warps with
  | zero => simp
  | succ warps ih =>
    rw [sum_range_succ, u32_add_right, ← u32_add_left, ih, u32_add_left,
      sum_range_add_sum_Ico _ (Nat.mul_le_mul_right _ (le_succ warps))]

section
variable {counts shared : Nat → Nat}

private theorem storeSums_eq (small : ∀ thread, counts thread < 2 ^ 32) {warp : Nat}
    (known : warp < numWarps) :
    storeSums shared (warpScan warpSize counts) warp =
      u32 (∑ e ∈ Ico (warp * warpSize) ((warp + 1) * warpSize), counts e) := by
  have lane : (warp * warpSize + (warpSize - 1)) % warpSize < warpSize := mod_lt _ (by decide)
  have block : (warp * warpSize + (warpSize - 1)) / warpSize = warp := by
    simp only [warpSize]
    omega
  have last : warp * warpSize + (warpSize - 1) + 1 = (warp + 1) * warpSize := by
    simp only [warpSize]
    omega
  rw [storeSums, if_pos known, warpScan_eq small lane, block, last]

theorem sumWarps_eq (small : ∀ thread, counts thread < 2 ^ 32)
    (experts : expertWarps cfg ≤ numWarps) {warp : Nat} (known : warp < expertWarps cfg) :
    sumWarps cfg (storeSums shared (warpScan warpSize counts)) warp =
      u32 (∑ e ∈ range ((warp + 1) * warpSize), counts e) := by
  have few : warp < warpSize := (known.trans_le experts).trans (by decide)
  have bounded : ∀ lane,
      (if lane < expertWarps cfg then storeSums shared (warpScan warpSize counts) lane else 0) < 2 ^ 32 := by
    intro lane
    split
    next listed =>
      rw [storeSums_eq small (listed.trans_le experts)]
      exact mod_lt _ (by decide)
    next => decide
  have lanes : ∑ lane ∈ Ico 0 (warp + 1),
    (if lane < expertWarps cfg then storeSums shared (warpScan warpSize counts) lane else 0) =
      ∑ lane ∈ range (warp + 1), u32 (∑ e ∈ Ico (lane * warpSize) ((lane + 1) * warpSize), counts e) := by
    rw [range_eq_Ico]
    apply sum_congr rfl
    intro lane member
    have listed : lane < expertWarps cfg := (Nat.lt_succ_iff.mp (mem_Ico.mp member).2).trans_lt known
    rw [if_pos listed, storeSums_eq small (listed.trans_le experts)]
  have scanned := warpScan_eq bounded (show warp % warpSize < expertWarps cfg by rwa [mod_eq_of_lt few])
  rw [div_eq_of_lt few, zero_mul, lanes, sum_warps] at scanned
  exact (if_pos ⟨few, known⟩).trans scanned

end

section
variable (batch : Batch cfg) (group : Nat)

theorem countRoutes_from (shared tokenOffset : Nat → Nat) {order : List Nat}
    (known : ∀ route ∈ order, batch.expertOf group route < cfg.numExperts) :
    (∀ expert, expert < cfg.numExperts →
      (order.foldl (batch.countRoute group)
        { tokensPerExpert := clearCounters cfg shared, tokenOffset }).tokensPerExpert expert =
        (batch.countRoutes group order).tokensPerExpert expert) ∧
    ∀ route ∈ order, (order.foldl (batch.countRoute group)
      { tokensPerExpert := clearCounters cfg shared, tokenOffset }).tokenOffset route =
      (batch.countRoutes group order).tokenOffset route := by
  induction order using List.reverseRecOn with
  | nil => exact ⟨fun expert hosted => if_pos hosted, fun route member => by cases member⟩
  | append_singleton order route ih =>
    obtain ⟨counts, offsets⟩ := ih fun other member => known other (List.mem_append_left _ member)
    have hosted := known route (List.mem_append_right _ (List.mem_singleton_self _))
    rw [List.foldl_append, countRoutes_append, List.foldl_cons, List.foldl_nil]
    constructor
    · intro expert listed
      simp only [Batch.countRoute, counts _ hosted]
      by_cases own : expert = batch.expertOf group route
      · rw [own, update_self, update_self]
      · rw [update_of_ne own, update_of_ne own, counts expert listed]
    · intro other member
      simp only [Batch.countRoute, counts _ hosted]
      by_cases own : other = route
      · rw [own, update_self, update_self]
      · have before : other ∈ order := (List.mem_append.mp member).resolve_right fun here =>
          own (List.mem_singleton.mp here)
        rw [update_of_ne own, update_of_ne own, offsets other before]

end

section
variable {batch : Batch cfg} (orders : Orders batch) {rank : Nat} (shared : Nat → Nat) (old : RouteArrays)

abbrev phaseOf (orders : Orders batch) (rank : Nat) (shared : Nat → Nat) (old : RouteArrays) : RouteArrays :=
  routePhase batch (dpGroup cfg rank) shared old (orders.order rank)

private theorem order_hosted (member : route ∈ orders.order rank) :
    batch.expertOf (dpGroup cfg rank) route < cfg.numExperts :=
  expertOf_lt ((order_mem orders).mp member)

theorem loadCounts_eq : loadCounts cfg ((orders.order rank).foldl (batch.countRoute (dpGroup cfg rank))
    { tokensPerExpert := clearCounters cfg shared, tokenOffset := old.tokenOffset }).tokensPerExpert =
      (trim batch.table).numRouted (dpGroup cfg rank) := by
  funext expert
  simp only [loadCounts, trim]
  split
  next hosted =>
    have distinct : (orders.order rank).Nodup := (orders.perm rank).nodup_iff.mpr List.nodup_range
    have short : (orders.order rank).length < 2 ^ 32 := by
      rw [(orders.perm rank).length_eq, List.length_range]
      exact batch.routes_lt _
    rw [(countRoutes_from batch _ shared old.tokenOffset fun _ => order_hosted orders).1 expert hosted,
      (countRoutes_eq batch _ distinct short).1 expert, chosen_length]
  next => rfl

private theorem routed_lt (table : RoutingTable cfg) (group expert : Nat) :
    (trim table).numRouted group expert < 2 ^ 32 := by
  by_cases hosted : expert < cfg.numExperts
  · have part : (trim table).numRouted group expert ≤ ∑ e ∈ range cfg.numExperts, (trim table).numRouted group e :=
      single_le_sum (fun _ _ => Nat.zero_le _) (mem_range.mpr hosted)
    exact part.trans_lt ((trim table).total_lt group)
  · have unused : (trim table).numRouted group expert = 0 := if_neg hosted
    rw [unused]
    decide

theorem phase_expertOffsets (few : cfg.numExperts ≤ numThreads) (hosted : expert < cfg.numExperts) :
    (phaseOf orders rank shared old).expertOffsets expert = expertOffsets batch.table (dpGroup cfg rank) expert := by
  have small := routed_lt batch.table (dpGroup cfg rank)
  have warps : expertWarps cfg ≤ numWarps := by
    simp only [expertWarps, ceilDiv, warpSize, numWarps, numThreads] at few ⊢
    omega
  have lane : expert % warpSize < warpSize := mod_lt _ (by decide)
  have sums : ∑ e ∈ range (expert + 1), (trim batch.table).numRouted (dpGroup cfg rank) e =
      batch.table.before (dpGroup cfg rank) (expert + 1) := by
    apply sum_congr rfl
    intro e member
    exact if_pos ((Nat.lt_succ_iff.mp (mem_range.mp member)).trans_lt hosted)
  simp only [phaseOf, routePhase, if_pos (show expert < numThreads ∧
    expert < cfg.numExperts from ⟨hosted.trans_le few, hosted⟩),
    loadCounts_eq orders shared old, warpScan_eq small lane, expertOffsets, ← sums]
  split
  next later =>
    have known : expert / warpSize - 1 < expertWarps cfg := by
      simp only [expertWarps, ceilDiv, warpSize] at later ⊢
      omega
    have back : expert / warpSize - 1 + 1 = expert / warpSize := Nat.sub_add_cancel later
    have start : expert / warpSize * warpSize ≤ expert + 1 := (div_mul_le_self _ _).trans (le_succ _)
    rw [sumWarps_eq small warps known, back, u32_add_left, u32_add_right, sum_range_add_sum_Ico _ start]
  next first =>
    rw [Nat.eq_zero_of_not_pos first, zero_mul, range_eq_Ico]

private theorem phase_numRouted (few : cfg.numExperts ≤ numThreads) (hosted : expert < cfg.numExperts) :
    (phaseOf orders rank shared old).numRouted expert = batch.routesTo (dpGroup cfg rank) expert := by
  simp only [phaseOf, routePhase, if_pos (show expert < numThreads ∧
    expert < cfg.numExperts from ⟨hosted.trans_le few, hosted⟩),
    loadCounts_eq orders shared old]
  exact if_pos hosted

private theorem phase_tokenOffset (inside : route < batch.numRoutes (dpGroup cfg rank)) :
    (phaseOf orders rank shared old).tokenOffset route = tokenOffset orders rank route :=
  (countRoutes_from batch _ shared old.tokenOffset fun _ => order_hosted orders).2 route ((order_mem orders).mpr inside)

end

/-- What the first phase has to leave behind: prefix counts, counts, and a numbering of
all copies without gaps, also among the copies for one rank. -/
structure DenselyNumbered (batch : Batch cfg) (group : Nat) (arrays : RouteArrays) : Prop where
  offsets : ∀ expert, expert < cfg.numExperts →
    arrays.expertOffsets expert = (List.range (batch.numRoutes group)).countP fun route =>
      batch.expertOf group route ≤ expert
  counts : ∀ expert, expert < cfg.numExperts →
    arrays.numRouted expert = (List.range (batch.numRoutes group)).countP fun route => batch.expertOf group route = expert
  positions : Set.BijOn (fun pair : Nat × Nat => (routeOf batch group arrays pair.1 pair.2).position)
    {pair | pair.1 < batch.numTokens group ∧
      pair.2 < batch.expertsPerToken} (Set.Iio (batch.numTokens group * batch.expertsPerToken))
  ranks : ∀ token k, token < batch.numTokens group → k < batch.expertsPerToken →
    let route := routeOf batch group arrays token k
    let dstRank := route.expert / cfg.expertsPerRank
    let rankOffset := if 0 < dstRank then arrays.expertOffsets (dstRank * cfg.expertsPerRank - 1) else 0
    rankOffset ≤ route.position ∧ route.offset = route.position - rankOffset ∧
      route.offset < (List.range (batch.numRoutes group)).countP fun route =>
        batch.expertOf group route / cfg.expertsPerRank = dstRank

private theorem countP_split {α : Type} {items : List α} {whole left right : α → Prop}
    [DecidablePred whole] [DecidablePred left] [DecidablePred right]
    (split : ∀ item ∈ items, whole item ↔ left item ∨ right item)
    (apart : ∀ item, left item → ¬ right item) :
    items.countP (fun item => decide (whole item)) = items.countP (fun item => decide (left item)) +
      items.countP (fun item => decide (right item)) := by
  induction items with
  | nil => rfl
  | cons item items ih =>
    have here := split item List.mem_cons_self
    have other := apart item
    simp only [List.countP_cons, ih fun item member => split item (List.mem_cons_of_mem _ member), decide_eq_true_eq]
    split_ifs <;> grind

section
variable (batch : Batch cfg) (group : Nat)

theorem before_eq_countP (bound : Nat) : batch.table.before group bound =
    (List.range (batch.numRoutes group)).countP fun route => batch.expertOf group route < bound := by
  induction bound with
  | zero => simp
  | succ bound ih =>
    rw [RoutingTable.before_succ, ih]
    symm
    apply countP_split
    · intro route _
      exact Nat.lt_succ_iff_lt_or_eq
    · intro route below same
      exact Nat.ne_of_lt below same

theorem tokensTo_eq_countP {rank : Nat} (ordered : cfg.firstExpert rank ≤ cfg.lastExpert rank)
    (wide : 0 < cfg.expertsPerRank) :
    batch.table.tokensTo group rank =
      (List.range (batch.numRoutes group)).countP fun route => batch.expertOf group route /
        cfg.expertsPerRank = rank := by
  have total : batch.table.before group _ + batch.table.tokensTo group rank = _ := batch.table.tokensTo_eq ordered
  rw [before_eq_countP, before_eq_countP] at total
  have parts : (List.range (batch.numRoutes group)).countP (fun route =>
    decide (batch.expertOf group route < cfg.lastExpert rank)) =
      (List.range (batch.numRoutes group)).countP (fun route =>
        decide (batch.expertOf group route < cfg.firstExpert rank)) +
        (List.range (batch.numRoutes group)).countP (fun route =>
          decide (batch.expertOf group route / cfg.expertsPerRank = rank)) := by
    apply countP_split
    · intro route member
      have hosted := expertOf_lt (List.mem_range.mp member)
      simp only [Config.lastExpert, Config.firstExpert, Nat.div_eq_iff wide, Nat.lt_min] at ordered ⊢
      omega
    · intro route below same
      rw [Nat.div_eq_iff wide] at same
      rw [Config.firstExpert] at below
      omega
  omega

end

section
variable {batch : Batch cfg} (orders : Orders batch) {rank : Nat} (shared : Nat → Nat) (old : RouteArrays)

def copyOf (orders : Orders batch) (rank route : Nat) : TokenCopy :=
  ⟨dpGroup cfg rank, batch.expertOf (dpGroup cfg rank) route, tokenOffset orders rank route⟩

private theorem copyOf_routed (inside : rank < cfg.worldSize) (listed : route < batch.numRoutes (dpGroup cfg rank)) :
    RoutedTo batch.table (batch.expertOf (dpGroup cfg rank) route / cfg.expertsPerRank) (copyOf orders rank route) :=
  routed_owner (copyOf orders rank route) (cfg.group_lt inside) (expertOf_lt listed) (tokenOffset_lt orders listed)

private theorem copyOf_injective {first second : Nat}
    (left : first < batch.numRoutes (dpGroup cfg rank))
    (right : second < batch.numRoutes (dpGroup cfg rank))
    (same : copyOf orders rank first = copyOf orders rank second) : first = second := by
  simp only [copyOf, TokenCopy.mk.injEq, true_and] at same
  exact tokenOffset_injective orders left right same.1 same.2

theorem positions_perm (rank : Nat) :
    ((List.range (batch.numRoutes (dpGroup cfg rank))).map fun route =>
      position batch.table (copyOf orders rank route)).Perm
      (List.range (batch.numRoutes (dpGroup cfg rank))) := by
  have distinct : ((List.range (batch.numRoutes (dpGroup cfg rank))).map fun route =>
      position batch.table (copyOf orders rank route)).Nodup := by
    apply List.nodup_range.map_on
    intro first left second right same
    have left := List.mem_range.mp left
    have right := List.mem_range.mp right
    exact copyOf_injective orders left right (position_injective rfl (tokenOffset_lt orders left)
      (tokenOffset_lt orders right) same)
  apply (List.subperm_of_subset distinct ?_).perm_of_length_le
  · rw [List.length_map]
  · intro place member
    obtain ⟨route, listed, rfl⟩ := List.mem_map.mp member
    have bound : position batch.table (copyOf orders rank route) < batch.table.before (dpGroup cfg rank) cfg.numExperts :=
      position_lt (expertOf_lt (List.mem_range.mp listed)) (tokenOffset_lt orders (List.mem_range.mp listed))
    rw [List.mem_range, ← before_numRoutes]
    exact bound

private theorem iterate_phase (few : cfg.numExperts ≤ numThreads) (hosted : expert < cfg.numExperts)
    (offset : Nat) :
    iterate cfg (phaseOf orders rank shared old).expertOffsets expert offset =
      expertIterator batch.table (dpGroup cfg rank) expert offset := by
  have owner : expert / cfg.expertsPerRank * cfg.expertsPerRank ≤ expert := div_mul_le_self _ _
  simp only [iterate, expertIterator, phase_expertOffsets orders shared old few (show expert - 1 < cfg.numExperts by omega),
    phase_expertOffsets orders shared old few (show expert / cfg.expertsPerRank *
      cfg.expertsPerRank - 1 < cfg.numExperts by omega)]

theorem routeOf_phase (few : cfg.numExperts ≤ numThreads) (inside : rank < cfg.worldSize)
    {token k : Nat}
    (listed : token * batch.expertsPerToken + k < batch.numRoutes (dpGroup cfg rank))
    (chosen : k < batch.expertsPerToken) :
    routeOf batch (dpGroup cfg rank) (phaseOf orders rank shared old) token k =
      ⟨batch.expertOf (dpGroup cfg rank) (token * batch.expertsPerToken + k),
        indexOnRank batch.table (batch.expertOf (dpGroup cfg rank) (token * batch.expertsPerToken +
          k) / cfg.expertsPerRank) (dpGroup cfg rank)
          (batch.expertOf (dpGroup cfg rank) (token * batch.expertsPerToken + k))
            (tokenOffset orders rank (token * batch.expertsPerToken + k)),
        position batch.table (copyOf orders rank (token * batch.expertsPerToken + k))⟩ := by
  have expert : batch.indices (dpGroup cfg rank) token k =
      batch.expertOf (dpGroup cfg rank) (token * batch.expertsPerToken + k) := by
    rw [Batch.expertOf, Batch.tokenOf, block_div token chosen, block_rem token chosen]
  rw [routeOf, phase_tokenOffset orders shared old listed, expert, iterate_phase orders shared old few (expertOf_lt listed)]
  exact expertIterator_eq (copyOf_routed orders inside listed)

theorem route_lt {group token k : Nat} (listed : token < batch.numTokens group) (chosen : k < batch.expertsPerToken) :
    token * batch.expertsPerToken + k < batch.numRoutes group := by
  have room := Nat.mul_le_mul_right batch.expertsPerToken (succ_le_of_lt listed)
  rw [succ_mul] at room
  rw [Batch.numRoutes]
  omega

theorem phase_rank (few : cfg.numExperts ≤ numThreads) (inside : rank < cfg.worldSize)
    (listed : route < batch.numRoutes (dpGroup cfg rank)) :
    let expert := batch.expertOf (dpGroup cfg rank) route
    let dstRank := expert / cfg.expertsPerRank
    let rankOffset := if 0 < dstRank then (phaseOf orders rank shared old).expertOffsets
      (dstRank * cfg.expertsPerRank - 1) else 0
    let index := indexOnRank batch.table dstRank (dpGroup cfg rank) expert (tokenOffset orders rank route)
    rankOffset ≤ position batch.table (copyOf orders rank route) ∧
      index = position batch.table (copyOf orders rank route) - rankOffset ∧
      index < (List.range (batch.numRoutes (dpGroup cfg rank))).countP fun other =>
        batch.expertOf (dpGroup cfg rank) other / cfg.expertsPerRank = dstRank := by
  intro expert dstRank rankOffset index
  have hosted : expert < cfg.numExperts := expertOf_lt listed
  have routed := copyOf_routed orders inside listed
  have lower : dstRank * cfg.expertsPerRank ≤ expert := div_mul_le_self _ _
  have start : rankOffset = batch.table.before (dpGroup cfg rank) (cfg.firstExpert dstRank) := by
    refine Eq.trans ?_ (rankOffset_eq routed)
    simp only [rankOffset, phase_expertOffsets orders shared old few
      (show dstRank * cfg.expertsPerRank - 1 < cfg.numExperts by omega)]
    rfl
  have split : batch.table.before (dpGroup cfg rank) (cfg.firstExpert dstRank) + index =
      position batch.table (copyOf orders rank route) :=
    indexOnRank_eq batch.table routed.first
  have below : index < batch.table.tokensTo (dpGroup cfg rank) dstRank := indexOnRank_lt routed
  rw [tokensTo_eq_countP batch _ (routed.first.trans routed.last.le) (expertsPerRank_pos hosted)] at below
  rw [start]
  exact ⟨by omega, by omega, below⟩

theorem densely_numbered (few : cfg.numExperts ≤ numThreads) (inside : rank < cfg.worldSize) :
    DenselyNumbered batch (dpGroup cfg rank) (phaseOf orders rank shared old) := by
  refine ⟨?_, ?_, ⟨?_, ?_, ?_⟩, ?_⟩
  · intro expert hosted
    rw [phase_expertOffsets orders shared old few hosted, expertOffsets,
      u32_of_lt (before_lt _ (succ_le_of_lt hosted)), before_eq_countP]
    simp only [Nat.lt_succ_iff]
  · intro expert hosted
    exact phase_numRouted orders shared old few hosted
  · rintro ⟨token, k⟩ ⟨listed, chosen⟩
    have route := route_lt listed chosen
    have member := (positions_perm orders rank).mem_iff.mp (List.mem_map_of_mem (List.mem_range.mpr route))
    simp only [routeOf_phase orders shared old few inside route chosen]
    exact List.mem_range.mp member
  · rintro ⟨token, k⟩ ⟨listed, chosen⟩ ⟨token', k'⟩ ⟨listed', chosen'⟩ same
    have route := route_lt listed chosen
    have route' := route_lt listed' chosen'
    simp only [routeOf_phase orders shared old few inside route chosen,
      routeOf_phase orders shared old few inside route' chosen'] at same
    have routes := copyOf_injective orders route route'
      (position_injective rfl (tokenOffset_lt orders route) (tokenOffset_lt orders route') same)
    have tokens := congrArg (· / batch.expertsPerToken) routes
    have choices := congrArg (· % batch.expertsPerToken) routes
    simp only [block_div _ chosen, block_div _ chosen'] at tokens
    simp only [block_rem _ chosen, block_rem _ chosen'] at choices
    rw [tokens, choices]
  · intro place below
    obtain ⟨route, member, reached⟩ := List.mem_map.mp ((positions_perm orders rank).mem_iff.mpr (List.mem_range.mpr below))
    have listed := List.mem_range.mp member
    have positive : 0 < batch.expertsPerToken := Nat.pos_of_mul_pos_left (zero_lt_of_lt listed)
    have chosen := mod_lt route positive
    have back := div_add_mod' route batch.expertsPerToken
    refine ⟨(route / batch.expertsPerToken, route % batch.expertsPerToken), ⟨?_, chosen⟩, ?_⟩
    · exact Nat.div_lt_of_lt_mul (Nat.mul_comm _ _ ▸ listed)
    · simp only [routeOf_phase orders shared old few inside (back.symm ▸ listed) chosen, back]
      exact reached
  · intro token k listed chosen
    have route := route_lt listed chosen
    simp only [routeOf_phase orders shared old few inside route chosen]
    exact phase_rank orders shared old few inside route

end

/-- The first phase of a rank: the threads of the first block leave their loops having
counted every route once, and any order of their additions numbers the copies densely. -/
structure NumbersDensely (batch : Batch cfg) (rank : Nat) : Prop where
  counted : ∃ fuel visited, countedRoutes batch (dpGroup cfg rank) fuel = some visited ∧
    visited.flatten.Perm (List.range (batch.numRoutes (dpGroup cfg rank)))
  numbered : ∀ (order : List Nat) (shared : Nat →
    Nat) (old : RouteArrays), order.Perm (List.range (batch.numRoutes (dpGroup cfg rank))) →
    DenselyNumbered batch (dpGroup cfg rank) (routePhase batch (dpGroup cfg rank) shared old order)

/-- An order of one rank's additions, the other ranks adding route by route. -/
def ordersWith (batch : Batch cfg) (rank : Nat) (order : List Nat)
    (perm : order.Perm (List.range (batch.numRoutes (dpGroup cfg rank)))) : Orders batch where
  order peer := if peer = rank then order else List.range (batch.numRoutes (dpGroup cfg peer))
  perm peer := by
    split
    next same => exact same ▸ perm
    next => exact List.Perm.refl _

theorem numbers_densely (batch : Batch cfg) {rank : Nat} (inside : rank < cfg.worldSize)
    (few : cfg.numExperts ≤ numThreads)
    (short : batch.numTokens (dpGroup cfg rank) * batch.expertsPerToken + numThreads ≤ 2 ^ 32) :
    NumbersDensely batch rank := by
  refine ⟨(sweep_iff (by decide) (by decide)).mpr short, ?_⟩
  intro order shared old perm
  have numbered := densely_numbered (ordersWith batch rank order perm) shared old few inside
  have same : (ordersWith batch rank order perm).order rank = order := if_pos rfl
  rw [phaseOf, same] at numbered
  exact numbered

/-- Every group has the same number of tokens, all for the first expert. -/
def firstExpertOnly (tokens : Nat) (short : tokens * 1 < 2 ^ 32) : Batch (paddedRanks 4 (succ_pos 3)) where
  numTokens _ := tokens
  expertsPerToken := 1
  indices _ _ _ := 0
  indices_lt _ _ _ _ _ := succ_pos 3
  routes_lt _ := short

theorem numbers_densely_three : NumbersDensely (firstExpertOnly 3 (by decide)) 1 :=
  numbers_densely _ (by decide) (by decide) (by decide)

/-- With `2 ^ 32 - 1` routes the counter of the first thread wraps from its last route
to zero, so the thread counts its routes again and again. -/
theorem counting_wraps : ¬ NumbersDensely (firstExpertOnly (2 ^ 32 - 1) (by decide)) 0 := by
  intro numbers
  obtain ⟨fuel, visited, counted, _⟩ := numbers.counted
  rw [countedRoutes, sweep_stuck (by decide) (by decide) (by decide) fuel] at counted
  cases counted

end PplxGarden.AllToAll.Proofs
