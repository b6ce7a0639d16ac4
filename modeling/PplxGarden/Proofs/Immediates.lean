import PplxGarden.Proofs.RoutingInfo
import PplxGarden.Proofs.Sharding
import Mathlib.Algebra.BigOperators.Ring.Finset

/-! How many immediates announce a dispatch. A private range goes to every rank of
every other node, but a receiver expects one for each remote group. -/

namespace PplxGarden.AllToAll.Proofs
open Library Fabric Fabric.Proofs Finset Option

variable {cfg : Config} {table : RoutingTable cfg} {peer rank : Nat}

theorem sum_ranks (cfg : Config) (weight : Nat → Nat) :
    ∑ rank ∈ range cfg.worldSize, weight rank =
      ∑ group ∈ range cfg.numDpGroups, ∑ index ∈ range cfg.dpSize, weight (group * cfg.dpSize + index) := by
  rw [← cfg.groups_mul]
  exact sum_blocks cfg.numDpGroups cfg.dpSize weight

def immsFrom (table : RoutingTable cfg) (peer rank : Nat) : Nat :=
  if peer / cfg.nodeSize ≠ rank / cfg.nodeSize then
    1 + if peer % cfg.dpSize = rank % cfg.dpSize ∧ cfg.maxPrivateTokens < table.tokensTo (dpGroup cfg rank) peer
      then cfg.netsPerGpu else 0
  else 0

private theorem count_map_target {list : List Nat} (distinct : list.Nodup) (target : Nat → ScatterTarget Nat)
    (named : ∀ rank, (target rank).dstMr = rank) (peer : Nat) :
    (list.map target).countP (fun t => decide (t.dstMr = peer)) = if peer ∈ list then 1 else 0 := by
  rw [List.countP_map]
  have same : ((fun t : ScatterTarget Nat => decide (t.dstMr = peer)) ∘ target) = fun rank => rank == peer := by
    funext rank
    simp only [Function.comp_apply, named]
    rfl
  rw [same]
  exact distinct.count

theorem dispatchImms_eq (admissible : cfg.Admissible) (inside : rank < cfg.worldSize) (target : peer < cfg.worldSize) :
    dispatchImms cfg table peer rank = some (immsFrom table peer rank) := by
  have spread : (overflowRanks cfg rank).Nodup := by
    rw [overflowRanks_eq]
    apply (remoteGroups_nodup inside).map
    intro first second same
    exact Nat.eq_of_mul_eq_mul_right cfg.dp_pos (Nat.add_right_cancel same)
  have initial := count_map_target (remoteRanks_nodup inside) (privateTarget table rank) (fun _ => rfl) peer
  have overflow := count_map_target (spread.filter fun peer =>
    decide (cfg.maxPrivateTokens < table.tokensTo (dpGroup cfg rank) peer)) (overflowTarget table rank) (fun _ => rfl) peer
  simp only [dispatchImms, dispatchInitialRoutes_eq admissible inside, processRoutingInfo_eq table admissible inside,
    bind_eq_bind, bind_some, Option.pure_def, scatterWrites_peers cfg.nets_pos, scatterWrites_bytes,
    List.countP_append, initial]
  simp only [routingInfo, overflow, remoteRanks_mem inside, List.mem_filter, overflowRanks_mem inside, decide_eq_true_eq,
    immsFrom, target, true_and]
  by_cases far : peer / cfg.nodeSize ≠ rank / cfg.nodeSize
  · by_cases sent : peer % cfg.dpSize = rank % cfg.dpSize ∧ cfg.maxPrivateTokens < table.tokensTo (dpGroup cfg rank) peer
    · simp [far, sent]
    · simp [far, sent]
  · simp [far]

theorem immsFrom_sum (peer : Nat) :
    ∑ rank ∈ range cfg.worldSize, immsFrom table peer rank =
      ∑ group ∈ range cfg.numDpGroups,
        if group / cfg.groupsPerNode ≠ peer / cfg.nodeSize then
          cfg.dpSize + if cfg.maxPrivateTokens < table.tokensTo group peer then cfg.netsPerGpu else 0
        else 0 := by
  rw [sum_ranks]
  apply sum_congr rfl
  intro group _
  have index : peer % cfg.dpSize < cfg.dpSize := Nat.mod_lt _ cfg.dp_pos
  have terms : ∀ i ∈ range cfg.dpSize, immsFrom table peer (group * cfg.dpSize + i) =
      if group / cfg.groupsPerNode ≠ peer / cfg.nodeSize then
        1 + if i = peer % cfg.dpSize then (if cfg.maxPrivateTokens < table.tokensTo group peer then
          cfg.netsPerGpu else 0) else 0
      else 0 := by
    intro i member
    have bound := mem_range.mp member
    simp only [immsFrom, peer_node group bound, dpGroup, block_div group bound, block_rem group bound]
    by_cases far : group / cfg.groupsPerNode = peer / cfg.nodeSize
    · simp [far]
    · have apart : ¬ peer / cfg.nodeSize = group / cfg.groupsPerNode := fun same => far same.symm
      by_cases same : i = peer % cfg.dpSize
      · simp [far, apart, same]
      · have other : ¬ peer % cfg.dpSize = i := fun equal => same equal.symm
        simp [far, apart, same, other]
  rw [sum_congr rfl terms]
  split
  next far =>
    rw [sum_add_distrib, sum_ite_eq', if_pos (mem_range.mpr index), sum_const,
      card_range, nsmul_eq_mul, Nat.mul_one, Nat.cast_id]
  next => simp

private theorem sum_filter_ne (list : List Nat) (weight : Nat → Nat) (nothing : weight peer = 0) :
    ((list.filter (· ≠ peer)).map weight).sum = (list.map weight).sum := by
  induction list with
  | nil => rfl
  | cons rank list ih =>
    by_cases same : rank = peer
    · simp only [same, ne_eq, not_true, decide_false, Bool.false_eq_true, not_false_eq_true,
        List.filter_cons_of_neg, List.map_cons,
        List.sum_cons, nothing, Nat.zero_add]
      exact ih
    · simp only [ne_eq, same, not_false_eq_true, decide_true, List.filter_cons_of_pos, List.map_cons, List.sum_cons]
      exact congrArg (weight rank + ·) ih

theorem dispatchImmsTo_eq (admissible : cfg.Admissible) (target : peer < cfg.worldSize) :
    dispatchImmsTo cfg table peer = some (∑ rank ∈ range cfg.worldSize, immsFrom table peer rank) := by
  have own : immsFrom table peer peer = 0 := by simp [immsFrom]
  have counts : ((List.range cfg.worldSize).filter (· ≠ peer)).mapM (dispatchImms cfg table peer) =
      some (((List.range cfg.worldSize).filter (· ≠ peer)).map (immsFrom table peer)) :=
    mapM_values _ (fun rank member =>
      dispatchImms_eq admissible (List.mem_range.mp (List.mem_filter.mp member).1) target)
  simp only [dispatchImmsTo, counts, bind_eq_bind, bind_some, Option.pure_def, sum_filter_ne _ _ own]
  rfl

theorem processRoutingInfo_fails (excess : ¬ cfg.Admissible) :
    processRoutingInfo cfg (cfg.worldSize - 1) table = none := by
  have beyond : cfg.numExperts < cfg.firstExpert (cfg.worldSize - 1) := Nat.lt_of_not_le excess
  have short : cfg.lastExpert (cfg.worldSize - 1) < cfg.firstExpert (cfg.worldSize - 1) :=
    (lastExpert_le _).trans_lt beyond
  simp only [processRoutingInfo, if_pos short]
  rfl

/-- Sender and receiver agree on the immediates of one step. -/
def ImmsAgree (table : RoutingTable cfg) (peer : Nat) : Prop :=
  ∃ info, processRoutingInfo cfg peer table = some info ∧ dispatchImmsTo cfg table peer = some info.numRecvTx

private theorem dispatchImmsTo_fails (excess : ¬ cfg.Admissible) (other : peer ≠ cfg.worldSize - 1) :
    dispatchImmsTo cfg table peer = none := by
  have positive := cfg.world_pos
  have member : cfg.worldSize - 1 ∈ (List.range cfg.worldSize).filter (· ≠ peer) := by
    simp only [List.mem_filter, List.mem_range, decide_eq_true_eq]
    exact ⟨by omega, Ne.symm other⟩
  have fails : dispatchImms cfg table peer (cfg.worldSize - 1) = none := by
    simp only [dispatchImms, processRoutingInfo_fails excess]
    cases dispatchInitialRoutes cfg (cfg.worldSize - 1) table <;> rfl
  simp only [dispatchImmsTo, mapM_fails member fails]
  rfl

private theorem announced_far (group : Nat) : announced table peer group =
    if group / cfg.groupsPerNode ≠ peer / cfg.nodeSize then
      1 + if cfg.maxPrivateTokens < table.tokensTo group peer then cfg.netsPerGpu else 0
    else 0 := by
  have node : dpGroup cfg peer / cfg.groupsPerNode = peer / cfg.nodeSize := dpGroup_node
  by_cases far : group / cfg.groupsPerNode = peer / cfg.nodeSize
  · simp [announced, far]
  · have foreign : group ≠ dpGroup cfg peer := fun own => far (own ▸ node)
    simp [announced, far, foreign]

/-- Some group lives on another node, unless there is only one node. -/
theorem far_group (several : cfg.worldSize ≠ cfg.nodeSize) (node : Nat) :
    ∃ group, group < cfg.numDpGroups ∧ group / cfg.groupsPerNode ≠ node := by
  have nodes : 1 < cfg.numNodes := by
    by_contra few
    have one : cfg.numNodes = 1 := by
      have positive := cfg.numNodes_pos
      omega
    apply several
    rw [← cfg.nodes_mul, one, Nat.one_mul]
  have width := cfg.groupsPerNode_pos
  have total := cfg.nodes_groups_mul
  by_cases first : node = 0
  · refine ⟨cfg.groupsPerNode, ?_, ?_⟩
    · have room : 2 * cfg.groupsPerNode ≤ cfg.numNodes * cfg.groupsPerNode := Nat.mul_le_mul_right _ nodes
      omega
    · rw [Nat.div_self width, first]
      exact Nat.one_ne_zero
  · refine ⟨0, ?_, ?_⟩
    · rw [← total]
      exact Nat.mul_pos cfg.numNodes_pos width
    · rw [Nat.zero_div]
      exact Ne.symm first

/-- Sender and receiver agree on the number of dispatch immediates exactly when no
group has two ranks or there is only one node (and no rank panics). -/
theorem dispatch_imms_agree_iff (table : RoutingTable cfg) (target : peer < cfg.worldSize) :
    ImmsAgree table peer ↔ cfg.Admissible ∧ (cfg.dpSize = 1 ∨ cfg.worldSize = cfg.nodeSize) := by
  by_cases admissible : cfg.Admissible
  · have sums : ImmsAgree table peer ↔
        ∑ group ∈ range cfg.numDpGroups, announced table peer group =
          ∑ rank ∈ range cfg.worldSize, immsFrom table peer rank := by
      simp only [ImmsAgree, processRoutingInfo_eq table admissible target, dispatchImmsTo_eq admissible target,
        Option.some.injEq, exists_eq_left']
      exact eq_comm
    have excess : ∑ rank ∈ range cfg.worldSize, immsFrom table peer rank =
        ∑ group ∈ range cfg.numDpGroups, announced table peer group +
          ∑ group ∈ range cfg.numDpGroups, if group / cfg.groupsPerNode ≠ peer / cfg.nodeSize then
            cfg.dpSize - 1 else 0 := by
      rw [immsFrom_sum, ← sum_add_distrib]
      apply sum_congr rfl
      intro group _
      have positive := cfg.dp_pos
      rw [announced_far]
      by_cases far : group / cfg.groupsPerNode ≠ peer / cfg.nodeSize
      · simp only [if_pos far]
        omega
      · simp only [if_neg far]
    rw [sums, excess, Nat.left_eq_add, sum_eq_zero_iff]
    constructor
    · intro none
      refine ⟨admissible, ?_⟩
      by_contra both
      rw [not_or] at both
      obtain ⟨group, known, far⟩ := far_group both.2 (peer / cfg.nodeSize)
      have zero := none group (mem_range.mpr known)
      rw [if_pos far] at zero
      have positive := cfg.dp_pos
      omega
    · rintro ⟨_, single | one⟩ group member
      · simp [single]
      · have near : group / cfg.groupsPerNode = peer / cfg.nodeSize := by
          have nodes : cfg.numNodes = 1 := by rw [Config.numNodes, one, Nat.div_self cfg.node_pos]
          have first := group_node_lt (mem_range.mp member)
          have second := node_lt target
          rw [nodes, Nat.lt_one_iff] at first second
          rw [first, second]
        simp [near]
  · constructor
    · rintro ⟨info, routed, sent⟩
      by_cases last : peer = cfg.worldSize - 1
      · rw [last, processRoutingInfo_fails admissible] at routed
        cases routed
      · rw [dispatchImmsTo_fails admissible last] at sent
        cases sent
    · rintro ⟨given, _⟩
      exact absurd given admissible

/-- Two nodes, each with one group of two ranks. -/
def pairedRanks : Config :=
  { Config.twoPairs with
    dpSize := 2
    numExperts := 4
    dp_dvd := Config.pair.node_dvd }

def oneEach : RoutingTable pairedRanks where
  numRouted _ _ := 1
  total_lt _ := by decide

theorem dispatch_imms_agree_iff_oneEach : ImmsAgree oneEach 3 ↔
    pairedRanks.Admissible ∧ (pairedRanks.dpSize = 1 ∨ pairedRanks.worldSize = pairedRanks.nodeSize) :=
  dispatch_imms_agree_iff oneEach (by decide)

/-- Both ranks of the remote group announce their private range, one is expected. -/
theorem dispatch_imms_drift : dispatchImmsTo pairedRanks oneEach 0 = some 2 ∧
    (processRoutingInfo pairedRanks 0 oneEach).map RoutingInfo.numRecvTx = some 1 ∧ ¬ ImmsAgree oneEach 0 := by
  have sent : dispatchImmsTo pairedRanks oneEach 0 = some 2 := by decide
  have expected : (processRoutingInfo pairedRanks 0 oneEach).map RoutingInfo.numRecvTx = some 1 := by decide
  refine ⟨sent, expected, ?_⟩
  rintro ⟨info, routed, same⟩
  rw [routed, map_some, Option.some.injEq] at expected
  rw [sent, expected] at same
  cases same

end PplxGarden.AllToAll.Proofs
