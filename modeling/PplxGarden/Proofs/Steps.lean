import PplxGarden.AllToAll.Steps
import PplxGarden.Proofs.Immediates

/-! The immediate counters never mix two steps: no wait is short of senders and a
barrier separates any two waits on the same counter. -/

namespace PplxGarden.AllToAll.Proofs
open Library Fabric Fabric.Proofs Counters Finset Option Nat

variable {cfg : Config} {tables : Nat → Nat → RoutingTable cfg}
variable {rank : Nat}

private theorem barrierTargets_eq (inside : rank < cfg.worldSize) :
    barrierTargets cfg rank = rotation cfg.worldSize rank := by
  refine (rotation_skip cfg.worldSize rank (· = rank) id).trans ?_
  rw [List.map_id]
  exact List.filter_eq_self.mpr fun peer member => decide_eq_true ((rotation_mem inside peer).mp member).2

theorem routeTargets_eq (rank : Nat) : (routeTargets cfg rank).map (·.dstMr) =
    (rotation cfg.worldSize rank).filter fun peer =>
      decide ¬ (peer / cfg.dpSize = dpGroup cfg rank ∨ peer % cfg.dpSize ≠ dpRank cfg rank) := by
  have kept := congrArg (List.map (·.dstMr)) (rotation_skip cfg.worldSize rank
    (fun peer => peer / cfg.dpSize = dpGroup cfg rank ∨ peer % cfg.dpSize ≠ dpRank cfg rank)
    fun peer => ({ dstMr := peer, length := cfg.numExperts * 4, srcOffset := dpGroup cfg rank * (cfg.numExperts * 4)
                   dstOffset := dpGroup cfg rank * (cfg.numExperts * 4) } : ScatterTarget Nat))
  refine Eq.trans kept ?_
  rw [List.map_map]
  exact List.map_id _

theorem combineRanges_targets {table : RoutingTable cfg} {info : RoutingInfo}
    (routed : processRoutingInfo cfg rank table = some info) :
    info.combineRanges.map (·.dstMr) = (combineRanks cfg rank).map Prod.snd := by
  unfold processRoutingInfo at routed
  split at routed
  · cases routed
  obtain ⟨totals, _, routed⟩ := bind_eq_some_iff.mp routed
  obtain ⟨_, _, routed⟩ := bind_eq_some_iff.mp routed
  obtain ⟨_, _, routed⟩ := bind_eq_some_iff.mp routed
  obtain ⟨_, _, routed⟩ := bind_eq_some_iff.mp routed
  obtain ⟨_, _, routed⟩ := bind_eq_some_iff.mp routed
  obtain ⟨ranges, served, routed⟩ := bind_eq_some_iff.mp routed
  cases routed
  refine mapM_projection ScatterTarget.dstMr Prod.snd ?_ served
  intro peer range built
  obtain ⟨_, _, built⟩ := bind_eq_some_iff.mp built
  obtain ⟨_, _, built⟩ := bind_eq_some_iff.mp built
  obtain ⟨_, _, built⟩ := bind_eq_some_iff.mp built
  cases built
  rfl

/-- Immediates from a rank to a peer before a wait, unless the rank has panicked. -/
def allowance (cfg : Config) (rank peer : Nat) : Stage → Nat
  | .route => if peer / cfg.dpSize ≠ rank / cfg.dpSize ∧ peer % cfg.dpSize = rank % cfg.dpSize then 1 else 0
  | .combine => if peer / cfg.nodeSize ≠ rank / cfg.nodeSize then cfg.netsPerGpu else 0
  | .dispatchBarrier => if peer ≠ rank then 1 else 0
  | .combineBarrier => if peer ≠ rank then 1 else 0

private theorem combineRanks_nodup (inside : rank < cfg.worldSize) : ((combineRanks cfg rank).map Prod.snd).Nodup := by
  rw [combineRanks_eq, List.map_flatMap]
  simp only [List.map_map]
  exact blocks_nodup (remoteGroups_nodup inside) cfg.dpSize

private theorem count_distinct {list : List Nat} (distinct : list.Nodup) {value : Nat}
    {chosen : Prop} [Decidable chosen] (listed : value ∈ list ↔ chosen) :
    list.count value = if chosen then 1 else 0 := by
  rw [distinct.count]
  simp only [listed]

theorem stageImms_count {peer : Nat} {table : RoutingTable cfg} {stage : Stage} {imms : List Nat}
    (inside : rank < cfg.worldSize) (target : peer < cfg.worldSize)
    (posted : stageImms cfg rank table stage = some imms) :
    imms.count peer = allowance cfg rank peer stage := by
  have others := rotation_mem inside peer
  have barrier : (barrierTargets cfg rank).count peer = if peer ≠ rank then 1 else 0 := by
    rw [barrierTargets_eq inside]
    apply count_distinct (rotation_nodup inside)
    rw [others]
    exact and_iff_right target
  cases stage with
  | route =>
    cases posted
    rw [scatterWrites_peers cfg.nets_pos, routeTargets_eq]
    apply count_distinct ((rotation_nodup inside).filter _)
    simp only [List.mem_filter, others, decide_eq_true_eq, not_or, not_not, dpGroup, dpRank]
    refine ⟨fun listed => listed.2, fun chosen => ⟨⟨target, ?_⟩, chosen⟩⟩
    intro same
    exact chosen.1 (same ▸ rfl)
  | dispatchBarrier =>
    obtain ⟨_, _, posted⟩ := bind_eq_some_iff.mp posted
    obtain ⟨_, _, posted⟩ := bind_eq_some_iff.mp posted
    cases posted
    exact barrier
  | combine =>
    obtain ⟨info, routed, posted⟩ := bind_eq_some_iff.mp posted
    cases posted
    rw [List.count, List.countP_map, scatterWrites_bytes, ← List.countP_map, combineRanges_targets routed]
    have listed : peer ∈ (combineRanks cfg rank).map Prod.snd ↔ peer / cfg.nodeSize ≠ rank / cfg.nodeSize := by
      simp only [List.mem_map, combineRanks_mem inside, dpGroup_node]
      refine ⟨?_, fun far => ⟨(dpGroup cfg peer, peer), ⟨target, rfl, far⟩, rfl⟩⟩
      intro found
      obtain ⟨_, ⟨_, _, far⟩, same⟩ := found
      exact same ▸ far
    rw [← List.count, count_distinct (combineRanks_nodup inside) listed, allowance]
    split
    next => exact Nat.mul_one _
    next => exact mul_zero _
  | combineBarrier =>
    cases posted
    exact barrier

private theorem sum_others {size own : Nat} (inside : own < size) (weight : Nat) :
    ∑ other ∈ range size, (if own ≠ other then weight else 0) = (size - 1) * weight := by
  rw [← sum_filter, filter_ne, sum_const, card_erase_of_mem (mem_range.mpr inside),
    card_range, nsmul_eq_mul, cast_id]

theorem allowance_sum {peer : Nat} (target : peer < cfg.worldSize) (stage : Stage) :
    ∑ rank ∈ range cfg.worldSize, allowance cfg rank peer stage = waitTarget cfg stage := by
  cases stage with
  | route =>
    have member : ∀ group ∈ range cfg.numDpGroups,
        ∑ index ∈ range cfg.dpSize, allowance cfg (group * cfg.dpSize + index) peer .route =
          if peer / cfg.dpSize ≠ group then 1 else 0 := by
      intro group _
      have reduced : ∀ index ∈ range cfg.dpSize, allowance cfg (group * cfg.dpSize + index) peer .route =
          if peer % cfg.dpSize = index then if peer / cfg.dpSize ≠ group then 1 else 0 else 0 := by
        intro index small
        rw [mem_range] at small
        rw [allowance, block_div group small, block_rem group small, ← ite_and]
        exact if_congr and_comm rfl rfl
      rw [sum_congr rfl reduced, sum_ite_eq, if_pos (mem_range.mpr (mod_lt _ cfg.dp_pos))]
    rw [sum_ranks, sum_congr rfl member, sum_others (cfg.group_lt target), Nat.mul_one, waitTarget]
  | combine =>
    have member : ∀ node ∈ range cfg.numNodes,
        ∑ index ∈ range cfg.nodeSize, allowance cfg (node * cfg.nodeSize + index) peer .combine =
          if peer / cfg.nodeSize ≠ node then cfg.nodeSize * cfg.netsPerGpu else 0 := by
      intro node _
      have reduced : ∀ index ∈ range cfg.nodeSize, allowance cfg (node * cfg.nodeSize + index) peer .combine =
          if peer / cfg.nodeSize ≠ node then cfg.netsPerGpu else 0 := by
        intro index small
        rw [allowance, block_div node (mem_range.mp small)]
      rw [sum_congr rfl reduced, sum_const, card_range, nsmul_eq_mul, cast_id, mul_ite, mul_zero]
    have blocks := sum_blocks cfg.numNodes cfg.nodeSize fun rank => allowance cfg rank peer .combine
    rw [cfg.nodes_mul] at blocks
    rw [blocks, sum_congr rfl member, sum_others (node_lt target), waitTarget, ← Nat.mul_assoc, Nat.sub_mul, cfg.nodes_mul,
      Nat.one_mul]
  | dispatchBarrier => exact (sum_others target 1).trans (Nat.mul_one _)
  | combineBarrier => exact (sum_others target 1).trans (Nat.mul_one _)

private theorem sends_le (point : Nat) (rank peer : Fin cfg.worldSize) :
    (stepPlan cfg tables).sends point rank peer ≤ allowance cfg rank peer (Stage.ofPoint point) := by
  simp only [Plan.sends, stepPlan]
  cases posted : stageImms cfg rank (tables (point / 4) rank) (Stage.ofPoint point) with
  | none => exact Nat.zero_le _
  | some imms => exact (stageImms_count rank.isLt peer.isLt posted).le

private theorem allowance_total (point : Nat) (peer : Fin cfg.worldSize) :
    ∑ rank : Fin cfg.worldSize, allowance cfg rank peer (Stage.ofPoint point) =
      (stepPlan cfg tables).target point := by
  rw [Fin.sum_univ_eq_sum_range fun rank => allowance cfg rank peer (Stage.ofPoint point)]
  exact allowance_sum peer.isLt _

private theorem barrier_allowance {point : Nat} (odd : point % 2 = 1) (rank peer : Nat) :
    allowance cfg rank peer (Stage.ofPoint point) = if peer ≠ rank then 1 else 0 := by
  have remainder : point % 4 = 1 ∨ point % 4 = 3 := by omega
  cases remainder with
  | inl first =>
    rw [Stage.ofPoint, first]
    rfl
  | inr second =>
    rw [Stage.ofPoint, second]
    rfl

private theorem barrier_heard {point : Nat} (odd : point % 2 = 1) {source dst : Fin cfg.worldSize}
    (other : source ≠ dst)

    (full : ∑ rank, (stepPlan cfg tables).sends point rank dst = (stepPlan cfg tables).target point) :
    0 < (stepPlan cfg tables).sends point source dst := by
  rw [← allowance_total point dst] at full
  have exact := (sum_eq_sum_iff_of_le fun rank _ => sends_le point rank dst).mp full source (mem_univ _)
  rw [exact, barrier_allowance odd, if_pos (Fin.val_ne_of_ne (Ne.symm other))]
  exact Nat.one_pos

private theorem ofPoint_eq_iff (first second : Nat) :
    Stage.ofPoint first = Stage.ofPoint second ↔ first % 4 = second % 4 := by
  have small := mod_lt first (show 0 < 4 by decide)
  have other := mod_lt second (show 0 < 4 by decide)
  simp only [Stage.ofPoint]
  generalize first % 4 = a at small ⊢
  generalize second % 4 = b at other ⊢
  revert a b
  decide

private theorem stepPlan_sound : (stepPlan cfg tables).Sound := by
  refine ⟨?_, ?_⟩
  · intro point dst
    rw [← allowance_total point dst]
    exact sum_le_sum fun rank _ => sends_le point rank dst
  · intro first second ordered same
    have apart := (ofPoint_eq_iff first second).mp same
    cases mod_two_eq_zero_or_one first with
    | inl even => exact ⟨first + 1, by omega, by omega, fun source dst => barrier_heard (by omega)⟩
    | inr odd => exact ⟨first + 2, by omega, by omega, fun source dst => barrier_heard (by omega)⟩

private theorem ofPoint_waitPoint (step : Nat) (stage : Stage) : Stage.ofPoint (waitPoint step stage) = stage := by
  cases stage with
  | route => simp [Stage.ofPoint, waitPoint, Stage.index]
  | dispatchBarrier => simp [Stage.ofPoint, waitPoint, Stage.index]
  | combine => simp [Stage.ofPoint, waitPoint, Stage.index]
  | combineBarrier => simp [Stage.ofPoint, waitPoint, Stage.index]

/-- When a rank returns from a wait of some step, the immediates its peers send for
that wait in that step have arrived, and none of their later steps. -/
theorem waits_never_mix (cfg : Config) (tables : Nat → Nat → RoutingTable cfg)
    {actions : List (Action (Fin cfg.worldSize))} {state : State Stage (Fin cfg.worldSize)}
    (reached : runs (fire (stepPlan cfg tables)) (State.initial Stage (Fin cfg.worldSize)) actions =
      some state) {rank : Fin cfg.worldSize} {step : Nat} {stage : Stage}
    (returns : Returns (stepPlan cfg tables) state rank (waitPoint step stage))
    (peer : Fin cfg.worldSize) :
    state.delivered (waitPoint step stage) peer rank =
      (stepPlan cfg tables).sends (waitPoint step stage) peer rank ∧
      ∀ later, step < later → state.delivered (waitPoint later stage) peer rank = 0 := by
  obtain ⟨complete, empty⟩ := returns_separated stepPlan_sound reached returns peer
  refine ⟨complete, fun later after => empty _ ?_ ?_⟩
  · simp only [waitPoint]
    omega
  · exact (ofPoint_waitPoint later stage).trans (ofPoint_waitPoint step stage).symm

def twoRanks : Config := { Config.pair with nodeSize := 1, dp_dvd := by decide, node_dvd := by decide }

instance : NeZero twoRanks.worldSize := ⟨by decide⟩

def oneToEach : RoutingTable twoRanks where
  numRouted _ _ := 1
  total_lt _ := by decide

def exchange (point : Nat) : List (Action (Fin twoRanks.worldSize)) :=
  [.submit 0, .submit 1, .deliver point 0 1, .deliver point 1 0, .subtract 0, .subtract 1]

def untilCombine : Option (State Stage (Fin twoRanks.worldSize)) :=
  runs (fire (stepPlan twoRanks fun _ _ => oneToEach)) (State.initial Stage (Fin twoRanks.worldSize))
    (exchange 0 ++ exchange 1 ++ [.submit 1, .submit 0, .deliver 2 1 0])

theorem untilCombine_isSome : untilCombine.isSome := by decide

theorem waits_never_mix_untilCombine :
    (untilCombine.get untilCombine_isSome).delivered (waitPoint 0 .combine) 1 0 =
        (stepPlan twoRanks fun _ _ => oneToEach).sends (waitPoint 0 .combine) 1 0 ∧
      ∀ later, 0 < later → (untilCombine.get untilCombine_isSome).delivered (waitPoint later .combine) 1 0 = 0 :=
  waits_never_mix twoRanks (fun _ _ => oneToEach) (some_get untilCombine_isSome).symm (by decide) 1

end PplxGarden.AllToAll.Proofs
