import PplxGarden.Proofs.Combine
import PplxGarden.Proofs.Immediates
import PplxGarden.Proofs.Rows

/-! Whether a round depends on the order in which the ranks number their copies.
The ranks of a DP group share the outputs of their copies, so they have to agree on
which token stands behind each number. -/

namespace PplxGarden.AllToAll.Proofs
open Library Function Finset Option

variable {cfg : Config}
variable {route rank expert t : Nat} {entry : RoutedToken}

section
variable (batch : Batch cfg) (group : Nat)

def chosen (order : List Nat) (expert : Nat) : List Nat :=
  order.filter fun route => batch.expertOf group route = expert

theorem countRoutes_append (order : List Nat) (route : Nat) :
    batch.countRoutes group (order ++ [route]) = batch.countRoute group (batch.countRoutes group order) route := by
  rw [Batch.countRoutes, List.foldl_append]
  rfl

/-- Counters hold how many routes were counted, and every route got the number of
those before it. -/
theorem countRoutes_eq {order : List Nat} (distinct : order.Nodup) (short : order.length < 2 ^ 32) :
    (∀ expert, (batch.countRoutes group order).tokensPerExpert expert =
      (chosen batch group order expert).length) ∧
      ∀ route ∈ order, (batch.countRoutes group order).tokenOffset route =
        (chosen batch group order (batch.expertOf group route)).idxOf route := by
  induction order using List.reverseRecOn with
  | nil => exact ⟨fun _ => rfl, fun route member => by cases member⟩
  | append_singleton order route ih =>
    rw [List.length_append, List.length_singleton] at short
    obtain ⟨earlier, _, apart⟩ := List.nodup_append.mp distinct
    obtain ⟨counts, offsets⟩ := ih earlier (by omega)
    have fresh : route ∉ order := fun member => apart route member route (List.mem_singleton_self _) rfl
    have split (expert : Nat) : chosen batch group (order ++ [route]) expert =
        chosen batch group order expert ++ if batch.expertOf group route = expert then [route] else [] := by
      rw [chosen, chosen, List.filter_append, List.filter_singleton, Bool.cond_decide]
    rw [countRoutes_append]
    constructor
    · intro expert
      have bound : (chosen batch group order expert).length ≤ order.length := List.length_filter_le _ _
      by_cases own : expert = batch.expertOf group route
      · subst own
        simp only [Batch.countRoute, update_self, counts, split, if_true, List.length_append, List.length_singleton]
        exact u32_of_lt (by omega)
      · simp [Batch.countRoute, update_of_ne own, counts, split, Ne.symm own]
    · intro other member
      by_cases own : other = route
      · subst own
        have absent : other ∉ chosen batch group order (batch.expertOf group other) :=
          fun listed => fresh (List.mem_of_mem_filter listed)
        simp [Batch.countRoute, counts, split, List.idxOf_append_of_notMem absent]
      · have before : other ∈ order :=
          (List.mem_append.mp member).resolve_right (fun here => own (List.mem_singleton.mp here))
        have listed : other ∈ chosen batch group order (batch.expertOf group other) := List.mem_filter.mpr ⟨before, by simp⟩
        simp [Batch.countRoute, update_of_ne own, offsets other before, split, List.idxOf_append_of_mem listed]

end

section
variable {batch : Batch cfg} (orders : Orders batch) {rank : Nat}

theorem order_mem : route ∈ orders.order rank ↔ route < batch.numRoutes (dpGroup cfg rank) := by
  rw [(orders.perm rank).mem_iff, List.mem_range]

theorem tokenOffset_eq (inside : route < batch.numRoutes (dpGroup cfg rank)) :
    tokenOffset orders rank route =
      (chosen batch (dpGroup cfg rank) (orders.order rank) (batch.expertOf (dpGroup cfg rank) route)).idxOf route := by
  have distinct : (orders.order rank).Nodup := (orders.perm rank).nodup_iff.mpr List.nodup_range
  have short : (orders.order rank).length < 2 ^ 32 := by
    rw [(orders.perm rank).length_eq, List.length_range]
    exact batch.routes_lt _
  exact (countRoutes_eq batch _ distinct short).2 route ((order_mem orders).mpr inside)

theorem chosen_mem : route ∈ chosen batch (dpGroup cfg rank) (orders.order rank) expert ↔
    route < batch.numRoutes (dpGroup cfg rank) ∧ batch.expertOf (dpGroup cfg rank) route = expert := by
  rw [chosen, List.mem_filter, order_mem, decide_eq_true_eq]

theorem chosen_length (expert : Nat) :
    (chosen batch (dpGroup cfg rank) (orders.order rank) expert).length =
      batch.table.numRouted (dpGroup cfg rank) expert := by
  rw [chosen, ← List.countP_eq_length_filter, (orders.perm rank).countP_eq]
  rfl

theorem tokenOffset_lt (inside : route < batch.numRoutes (dpGroup cfg rank)) :
    tokenOffset orders rank route < batch.table.numRouted (dpGroup cfg rank)
      (batch.expertOf (dpGroup cfg rank) route) := by
  rw [tokenOffset_eq orders inside, ← chosen_length orders]
  exact List.idxOf_lt_length_of_mem ((chosen_mem orders).mpr ⟨inside, rfl⟩)

theorem tokenOffset_injective {first second : Nat}
    (left : first < batch.numRoutes (dpGroup cfg rank))
    (right : second < batch.numRoutes (dpGroup cfg rank))
    (expert : batch.expertOf (dpGroup cfg rank) first = batch.expertOf (dpGroup cfg rank) second)
    (same : tokenOffset orders rank first = tokenOffset orders rank second) : first = second := by
  rw [tokenOffset_eq orders left, tokenOffset_eq orders right, expert] at same
  exact (List.idxOf_inj ((chosen_mem orders).mpr ⟨left, expert⟩)).mp same

private theorem tokenOffset_surjective {offset : Nat}
    (counted : offset < batch.table.numRouted (dpGroup cfg rank) expert) :
    ∃ route, route < batch.numRoutes (dpGroup cfg rank) ∧
      batch.expertOf (dpGroup cfg rank) route = expert ∧
      tokenOffset orders rank route = offset := by
  rw [← chosen_length orders] at counted
  obtain ⟨inside, same⟩ := (chosen_mem orders).mp (List.getElem_mem counted)
  refine ⟨_, inside, same, ?_⟩
  have distinct : (chosen batch (dpGroup cfg rank) (orders.order rank) expert).Nodup :=
    List.Nodup.filter _ ((orders.perm rank).nodup_iff.mpr List.nodup_range)
  rw [tokenOffset_eq orders inside, same, distinct.idxOf_getElem]

theorem tokenAt_eq (inside : route < batch.numRoutes (dpGroup cfg rank)) :
    tokenAt orders rank (batch.expertOf (dpGroup cfg rank) route) (tokenOffset orders rank route) =
      ⟨dpGroup cfg rank, batch.tokenOf route⟩ := by
  simp only [tokenAt]
  cases found : (List.range (batch.numRoutes (dpGroup cfg rank))).find? fun other =>
      batch.expertOf (dpGroup cfg rank) other = batch.expertOf (dpGroup cfg rank) route ∧
        tokenOffset orders rank other = tokenOffset orders rank route with
  | none => simpa using List.find?_eq_none.mp found route (List.mem_range.mpr inside)
  | some other =>
    have matched := List.find?_some found
    have listed := List.mem_range.mp (List.mem_of_find?_eq_some found)
    rw [decide_eq_true_eq] at matched
    rw [tokenOffset_injective orders listed inside matched.1 matched.2]
    rfl

end

section
variable {ν : Type}

private theorem dispatchRecvSource_some (cfg : Config) (info : RoutingInfo) (rank : Nat)
    (listed : info.tokens[t]? = some entry) :
    ∃ source, dispatchRecvSource cfg rank info t = some source := by
  simp only [dispatchRecvSource, listed, bind_eq_bind, bind_some, Option.pure_def]
  split
  next => exact ⟨_, rfl⟩
  next =>
    split
    next => exact ⟨_, rfl⟩
    next =>
      split
      next => exact ⟨_, rfl⟩
      next => exact ⟨_, rfl⟩

private theorem dispatchRecvStores_some (table : RoutingTable cfg) (memory : Memory Buffer ν)
    (admissible : cfg.Admissible) (inside : rank < cfg.worldSize) :
    ∃ stores, dispatchRecvStores table memory rank = some stores := by
  simp only [dispatchRecvStores, processRoutingInfo_eq table admissible inside, bind_eq_bind, bind_some]
  refine mapM_succeeds _ _ ?_
  intro item member
  obtain ⟨source, found⟩ := dispatchRecvSource_some cfg (routingInfo table rank) rank
    (List.mem_zipIdx_iff_getElem?.mp member)
  simp [found]

theorem dispatchRecvStores_mem {table : RoutingTable cfg} {memory : Memory Buffer ν}
    (admissible : cfg.Admissible) (inside : rank < cfg.worldSize) {stores : List (RangeWrite Nat ν)}
    (stored : dispatchRecvStores table memory rank = some stores) (write : RangeWrite Nat ν) :
    write ∈ stores ↔ ∃ entry t buffer slot, (routedTokens table rank)[t]? = some entry ∧
      dispatchRecvSource cfg rank (routingInfo table rank) t = some (buffer, slot) ∧
      write = ⟨rank, entry.paddedIndex * cfg.dispatchTokenDim, cfg.dispatchTokenDim,
        fun byte => memory buffer (slot * cfg.dispatchTokenDim + byte)⟩ := by
  simp only [dispatchRecvStores, processRoutingInfo_eq table admissible inside, bind_eq_bind, bind_some] at stored
  rw [mapM_mem stored]
  constructor
  · intro found
    obtain ⟨⟨entry, t⟩, member, written⟩ := found
    obtain ⟨⟨buffer, slot⟩, source, same⟩ := bind_eq_some_iff.mp written
    exact ⟨entry, t, buffer, slot, List.mem_zipIdx_iff_getElem?.mp member, source, (Option.some.inj same).symm⟩
  · intro found
    obtain ⟨entry, t, buffer, slot, listed, source, same⟩ := found
    refine ⟨(entry, t), List.mem_zipIdx_iff_getElem?.mpr listed, ?_⟩
    rw [source, same]
    rfl

end

section
variable {batch : Batch cfg} {orders : Orders batch}

theorem stores_mem (round : Round orders) (admissible : cfg.Admissible)
    (write : RangeWrite Nat (Token × Nat)) :
    write ∈ round.stores ↔ ∃ rank entry t buffer slot, rank < cfg.worldSize ∧
      (routedTokens batch.table rank)[t]? = some entry ∧
      dispatchRecvSource cfg rank (routingInfo batch.table rank) t = some (buffer, slot) ∧
      write = ⟨rank, entry.paddedIndex * cfg.dispatchTokenDim, cfg.dispatchTokenDim,
        fun byte => round.dispatch.final buffer (slot * cfg.dispatchTokenDim + byte)⟩ := by
  rw [round.stores_perm.mem_iff, List.mem_flatten]
  simp only [mapM_mem round.received, List.mem_range]
  constructor
  · intro found
    obtain ⟨stores, ⟨rank, inside, stored⟩, member⟩ := found
    obtain ⟨entry, t, buffer, slot, rest⟩ := (dispatchRecvStores_mem admissible inside stored write).mp member
    exact ⟨rank, entry, t, buffer, slot, inside, rest⟩
  · intro found
    obtain ⟨rank, entry, t, buffer, slot, inside, rest⟩ := found
    obtain ⟨stores, stored⟩ := dispatchRecvStores_some batch.table round.dispatch.final admissible inside
    exact ⟨stores, ⟨rank, inside, stored⟩,
      (dispatchRecvStores_mem admissible inside stored write).mpr ⟨entry, t, buffer, slot, rest⟩⟩

/-- The row of a received copy holds the token that all ranks of its group sent
under its number. -/
theorem inputs_hold (round : Round orders) (admissible : cfg.Admissible) (fits : batch.Fits)
    (inside : rank < cfg.worldSize) (listed : (routedTokens batch.table rank)[t]? = some entry)
    {token : Token}
    (agree : ∀ peer, peer < cfg.worldSize → dpGroup cfg peer = entry.copy.group →
      tokenAt orders peer entry.copy.expert entry.copy.index = token) :
    Holds round.inputs cfg.dispatchTokenDim rank entry.paddedIndex token := by
  have rows := fits.rows rank inside _ (processRoutingInfo_eq batch.table admissible inside)
  have member := List.mem_of_getElem? listed
  have routed : RoutedTo batch.table rank entry.copy := (routedTokens_mem inside _).mp (List.mem_map_of_mem member)
  obtain ⟨buffer, slot, source, held⟩ :=
    dispatchRecv_holds round.dispatch admissible fits.totals fits.slots inside listed agree
  apply applyAll_holds
  · intro byte bound write stored covers
    obtain ⟨owner, another, other, place, index, known, second, found, same⟩ :=
      (stores_mem round admissible write).mp stored
    subst same
    obtain ⟨ranks, lower, upper⟩ := covers
    have ranks : owner = rank := ranks
    subst ranks
    have row : another.paddedIndex = entry.paddedIndex := by
      have cover := (slots_cover another.paddedIndex 1 entry.paddedIndex bound).mp ⟨lower, by rw [Nat.one_mul]; exact upper⟩
      omega
    have listing := List.mem_of_getElem? second
    have target : RoutedTo batch.table owner another.copy := (routedTokens_mem inside _).mp (List.mem_map_of_mem listing)
    have counted := received_lt fits.totals inside
    rw [routedTokens_row counted inside rows listing, routedTokens_row counted inside rows member] at row
    have copies := rowOf_injective counted inside target routed row
    have described := (outputEntry admissible fits.totals inside second).unique inside
      (outputEntry admissible fits.totals inside listed) copies
    obtain ⟨_, indices, entries⟩ := described
    subst indices
    subst entries
    rw [source] at found
    cases found
    simp only [Nat.add_sub_cancel_left]
    exact held byte bound
  · intro byte bound
    refine ⟨_, (stores_mem round admissible _).mpr ⟨rank, entry, t, buffer, slot, inside, listed, source, rfl⟩, rfl, ?_, ?_⟩
    · exact Nat.le_add_right _ _
    · exact Nat.add_lt_add_left bound _

theorem expertRow_eq (round : Round orders) (admissible : cfg.Admissible) (fits : batch.Fits)
    (inside : rank < cfg.worldSize) (listed : (routedTokens batch.table rank)[t]? = some entry)
    {token : Token}
    (agree : ∀ peer, peer < cfg.worldSize → dpGroup cfg peer = entry.copy.group →
      tokenAt orders peer entry.copy.expert entry.copy.index = token) :
    expertRow batch.table round.inputs rank entry.paddedIndex =
      some (outputFor cfg entry.copy.expert token) := by
  have rows := fits.rows rank inside _ (processRoutingInfo_eq batch.table admissible inside)
  have member := List.mem_of_getElem? listed
  have routed : RoutedTo batch.table rank entry.copy := (routedTokens_mem inside _).mp (List.mem_map_of_mem member)
  have held := inputs_hold round admissible fits inside listed agree
  have counted := received_lt fits.totals inside
  have owner := rowExpert_rowOf counted inside routed
  rw [← routedTokens_row counted inside rows member] at owner
  simp only [expertRow, processRoutingInfo_eq batch.table admissible inside, bind_eq_bind,
    bind_some, owner, Option.pure_def,
    outputFor, Nat.add_sub_cancel' routed.first, Option.some.injEq, ExpertOutput.mk.injEq, true_and]
  funext byte
  by_cases bound : byte < cfg.dispatchTokenDim
  · rw [if_pos bound, if_pos bound, held byte bound]
  · rw [if_neg bound, if_neg bound]

end

section
variable {batch : Batch cfg} {orders : Orders batch}

theorem expertOf_lt {group : Nat} (inside : route < batch.numRoutes group) :
    batch.expertOf group route < cfg.numExperts := by
  have positive : 0 < batch.expertsPerToken := Nat.pos_of_mul_pos_left (Nat.zero_lt_of_lt inside)
  refine batch.indices_lt group _ _ ?_ (Nat.mod_lt _ positive)
  exact Nat.div_lt_of_lt_mul (Nat.mul_comm _ _ ▸ inside)

theorem routesTo_card (batch : Batch cfg) (group expert : Nat) :
    batch.routesTo group expert = ((range (batch.numRoutes group)).filter fun route =>
      batch.expertOf group route = expert).card :=
  List.countP_eq_length_filter

theorem before_numRoutes (batch : Batch cfg) (group : Nat) :
    batch.table.before group cfg.numExperts = batch.numRoutes group := by
  have fibers := card_eq_sum_card_fiberwise (f := batch.expertOf group) (s := range (batch.numRoutes group))
    (t := range cfg.numExperts) (fun route member => by
      simpa using expertOf_lt (mem_range.mp member))
  rw [card_range] at fibers
  rw [fibers]
  exact sum_congr rfl fun expert _ => routesTo_card batch group expert

theorem copy_returned (round : Round orders) (admissible : cfg.Admissible) (fits : batch.Fits)
    {group offset : Nat} (known : group < cfg.numDpGroups) (hosted : expert < cfg.numExperts)
    (counted : offset < batch.table.numRouted group expert) :
    ∃ (owner t : Nat) (entry : RoutedToken), owner < cfg.worldSize ∧
      (routedTokens batch.table owner)[t]? = some entry ∧ entry.copy = ⟨group, expert, offset⟩ ∧
      ∀ peer, peer < cfg.worldSize → dpGroup cfg peer = group →
        Holds round.combine.final cfg.combineTokenDim (.recv peer)
          (combineRecvPosition batch.table group expert offset)
          (expertRow batch.table round.inputs owner entry.paddedIndex) := by
  have routed := routed_owner ⟨group, expert, offset⟩ known hosted counted
  have inside := owner_lt hosted
  obtain ⟨entry, member, copied⟩ := List.mem_map.mp ((routedTokens_mem inside _).mpr routed)
  obtain ⟨t, listed⟩ := List.mem_iff_getElem?.mp member
  refine ⟨_, t, entry, inside, listed, copied, ?_⟩
  intro peer target mine
  have described := outputEntry admissible fits.totals inside listed
  have held := output_returned round.combine admissible fits.totals inside described target (by rw [copied, mine])
  rw [copied, ← combineRecvPosition_eq routed] at held
  exact held

/-- No two tokens of a group go to one expert. -/
def OneTokenPerExpert (batch : Batch cfg) : Prop :=
  ∀ group, group < cfg.numDpGroups → ∀ first second, first < batch.numRoutes group → second < batch.numRoutes group →
    batch.expertOf group first = batch.expertOf group second → batch.tokenOf first = batch.tokenOf second

theorem tokenAt_agree (separate : cfg.dpSize = 1 ∨ OneTokenPerExpert batch) {peer : Nat}
    (inside : rank < cfg.worldSize) (group : dpGroup cfg peer = dpGroup cfg rank)
    (bound : route < batch.numRoutes (dpGroup cfg rank)) :
    tokenAt orders peer (batch.expertOf (dpGroup cfg rank) route) (tokenOffset orders rank route) =
      ⟨dpGroup cfg rank, batch.tokenOf route⟩ := by
  cases separate with
  | inl single =>
    have same : peer = rank := by simpa [dpGroup, single] using group
    rw [same]
    exact tokenAt_eq orders bound
  | inr separate =>
    have counted := tokenOffset_lt orders bound
    rw [← group] at counted
    obtain ⟨other, inside', expert, offset⟩ := tokenOffset_surjective orders counted
    have token := tokenAt_eq orders inside'
    rw [expert, offset, group] at token
    rw [group] at inside' expert
    rw [token, separate _ (cfg.group_lt inside) other route inside' bound expert]

theorem round_correct (round : Round orders) (admissible : cfg.Admissible) (fits : batch.Fits)
    (separate : cfg.dpSize = 1 ∨ OneTokenPerExpert batch) : round.Correct := by
  intro rank inside route bound
  obtain ⟨owner, t, entry, known, listed, copied, returned⟩ :=
    copy_returned round admissible fits (cfg.group_lt inside) (expertOf_lt bound) (tokenOffset_lt orders bound)
  have agree : ∀ peer, peer < cfg.worldSize → dpGroup cfg peer = entry.copy.group →
      tokenAt orders peer entry.copy.expert entry.copy.index = ⟨dpGroup cfg rank, batch.tokenOf route⟩ := by
    intro peer _ group
    rw [copied] at group ⊢
    exact tokenAt_agree separate inside group bound
  have held := returned rank inside rfl
  rw [expertRow_eq round admissible fits known listed agree, copied] at held
  exact held

private theorem round_exists (orders : Orders batch) (admissible : cfg.Admissible) : Nonempty (Round orders) := by
  have dispatch := runInOrder batch.table (tokenAt orders) admissible fun _ _ => none
  obtain ⟨perRank, received⟩ := mapM_succeeds (List.range cfg.worldSize) (dispatchRecvStores batch.table dispatch.final)
    fun rank member => dispatchRecvStores_some batch.table dispatch.final admissible (List.mem_range.mp member)
  exact ⟨{ dispatch, perRank, received, stores := _, stores_perm := .refl _, blank := fun _ _ => none,
           combine := combineInOrder batch.table _ admissible fun _ _ => none }⟩

private theorem round_admissible (round : Round orders) : cfg.Admissible := by
  by_contra excess
  have member : cfg.worldSize - 1 ∈ List.range cfg.worldSize := List.mem_range.mpr (Nat.sub_lt cfg.world_pos Nat.one_pos)
  have routed := round.combine.routed
  rw [mapM_fails member (processRoutingInfo_fails excess)] at routed
  cases routed

def startingWith (batch : Batch cfg) (group first : Nat) : List Nat :=
  first :: (List.range (batch.numRoutes group)).erase first

def clashing (batch : Batch cfg) (group first second : Nat) (left : first < batch.numRoutes group)
    (right : second < batch.numRoutes group) : Orders batch where
  order rank :=
    if dpGroup cfg rank = group then startingWith batch group (if rank % cfg.dpSize = 0 then first else second)
    else List.range (batch.numRoutes (dpGroup cfg rank))
  perm rank := by
    split
    next own =>
      rw [own]
      split
      next => exact (List.perm_cons_erase (List.mem_range.mpr left)).symm
      next => exact (List.perm_cons_erase (List.mem_range.mpr right)).symm
    next => exact .refl _

private theorem tokenOffset_first (rest : List Nat) (order : orders.order rank = route :: rest) :
    tokenOffset orders rank route = 0 := by
  have inside : route < batch.numRoutes (dpGroup cfg rank) :=
    (order_mem orders).mp (by rw [order]; exact List.mem_cons_self ..)
  rw [tokenOffset_eq orders inside, order, chosen, List.filter_cons_of_pos (by simp), List.idxOf_cons_self]

theorem clash_incorrect (fits : batch.Fits) {group first second : Nat}
    (known : group < cfg.numDpGroups) (several : 1 < cfg.dpSize)
    (left : first < batch.numRoutes group) (right : second < batch.numRoutes group)
    (expert : batch.expertOf group first = batch.expertOf group second)
    (tokens : batch.tokenOf first ≠ batch.tokenOf second)
    (round : Round (clashing batch group first second left right)) : ¬ round.Correct := by
  intro correct
  have admissible := round_admissible round
  have ranks (index : Nat) (bound : index < cfg.dpSize) : dpGroup cfg (group * cfg.dpSize + index) =
    group := block_div group bound
  have zero : tokenOffset (clashing batch group first second left right) (group * cfg.dpSize + 0) first = 0 :=
    tokenOffset_first ((List.range (batch.numRoutes group)).erase first) (by
      simp [clashing, startingWith, dpGroup, Nat.mul_div_cancel _ cfg.dp_pos])
  have one : tokenOffset (clashing batch group first second left right) (group * cfg.dpSize + 1) second = 0 :=
    tokenOffset_first ((List.range (batch.numRoutes group)).erase second) (by
      have same := ranks 1 several
      simp only [clashing, startingWith, if_pos same, block_rem group several, if_neg Nat.one_ne_zero])
  have inside : first < batch.numRoutes (dpGroup cfg (group * cfg.dpSize + 0)) := by rwa [ranks 0 cfg.dp_pos]
  have counted := tokenOffset_lt (clashing batch group first second left right) inside
  rw [zero, ranks 0 cfg.dp_pos] at counted
  obtain ⟨owner, t, entry, _, _, _, returned⟩ := copy_returned round admissible fits known (expertOf_lt left) counted
  have mine := correct (group * cfg.dpSize + 0) (cfg.member_lt known cfg.dp_pos) first inside
  have theirs := correct (group * cfg.dpSize + 1) (cfg.member_lt known several) second (by rwa [ranks 1 several])
  simp only [ranks 0 cfg.dp_pos, ranks 1 several, zero, one, ← expert] at mine theirs
  have row := mine.unique fits.bytes (returned _ (cfg.member_lt known cfg.dp_pos) (ranks 0 cfg.dp_pos))
  rw [← theirs.unique fits.bytes (returned _ (cfg.member_lt known several) (ranks 1 several)), Option.some.injEq] at row
  have byte := congrFun (congrArg ExpertOutput.input row) 0
  simp only [outputFor, if_pos cfg.dispatchTokenDim_pos, Option.some.injEq, Prod.mk.injEq, Token.mk.injEq] at byte
  exact tokens byte.1.2

end

/-- A round is right in every order exactly when ranks have no siblings or siblings
never send two tokens to one expert. -/
theorem orderFree_iff {batch : Batch cfg} (fits : batch.Fits) :
    OrderFree batch ↔ cfg.Admissible ∧ (cfg.dpSize = 1 ∨ OneTokenPerExpert batch) := by
  constructor
  · intro free
    have admissible : cfg.Admissible := by
      obtain ⟨round⟩ := (free ⟨fun rank => List.range (batch.numRoutes (dpGroup cfg rank)), fun _ => .refl _⟩).1
      exact round_admissible round
    refine ⟨admissible, ?_⟩
    by_cases single : cfg.dpSize = 1
    · exact .inl single
    · refine .inr ?_
      intro group known first second left right expert
      by_contra tokens
      have positive := cfg.dp_pos
      obtain ⟨⟨round⟩, correct⟩ := free (clashing batch group first second left right)
      exact clash_incorrect fits known (by omega) left right expert tokens round (correct round)
  · intro condition orders
    obtain ⟨admissible, separate⟩ := condition
    exact ⟨round_exists orders admissible, fun round => round_correct round admissible fits separate⟩

def siblings : Config := { Config.pair with dpSize := 2, dp_dvd := Config.pair.node_dvd }

/-- Two tokens that both go to the first expert. -/
def sameExpert : Batch siblings where
  numTokens _ := 2
  expertsPerToken := 1
  indices _ _ _ := 0
  indices_lt _ _ _ _ _ := by decide
  routes_lt _ := by decide

theorem sameExpert_fits : sameExpert.Fits where
  totals := ⟨by decide, by decide⟩
  slots := by decide
  rows rank inside info routed := by
    have bound : ∀ rank, rank < siblings.worldSize → ((routingInfo sameExpert.table rank).tokensPerExpert.map
        fun count => ceilDiv count siblings.expertPadding * siblings.expertPadding).sum < 2 ^ 32 := by decide
    rw [processRoutingInfo_eq sameExpert.table (by decide) inside, Option.some.injEq] at routed
    rw [← routed]
    exact bound rank inside
  bytes := by decide

theorem orderFree_iff_sameExpert : sameExpert.Fits ∧
    (OrderFree sameExpert ↔ siblings.Admissible ∧ (siblings.dpSize = 1 ∨ OneTokenPerExpert sameExpert)) :=
  ⟨sameExpert_fits, orderFree_iff sameExpert_fits⟩

/-- The ranks count the two tokens in different orders; one of them then reads the
output of the other token. -/
theorem siblings_swap_tokens : ∃ orders : Orders sameExpert, orders.order 0 = [0, 1] ∧ orders.order 1 = [1, 0] ∧
    ∃ round : Round orders, ¬ round.Correct := by
  obtain ⟨round⟩ := round_exists (clashing sameExpert 0 0 1 (by decide) (by decide)) (by decide)
  refine ⟨_, by decide, by decide, round, ?_⟩
  exact clash_incorrect sameExpert_fits (by decide) (by decide) (by decide) (by decide) (by decide) (by decide) round

end PplxGarden.AllToAll.Proofs
