import PplxGarden.AllToAll.Sends
import PplxGarden.Proofs.Steps

/-! The barrier of a worker never accounts for the exchange of the routing, so it may
return while a transfer is still under way. -/

namespace PplxGarden.AllToAll.Proofs
open Library Fabric List Option

variable {cfg : Config} {rank : Nat}

theorem routeTargets_ne_nil (inside : rank < cfg.worldSize) (groups : 2 ≤ cfg.numDpGroups) :
    routeTargets cfg rank ≠ [] := by
  obtain ⟨group, known, other⟩ : ∃ group, group < cfg.numDpGroups ∧ group ≠ dpGroup cfg rank := by
    by_cases first : dpGroup cfg rank = 0
    · exact ⟨1, by omega, by omega⟩
    · exact ⟨0, by omega, Ne.symm first⟩
  have peerGroup : (group * cfg.dpSize + dpRank cfg rank) / cfg.dpSize = group := block_div group dpRank_lt
  have peerIndex : (group * cfg.dpSize + dpRank cfg rank) % cfg.dpSize = dpRank cfg rank := block_rem group dpRank_lt
  have listed : group * cfg.dpSize + dpRank cfg rank ∈ (routeTargets cfg rank).map (·.dstMr) := by
    rw [routeTargets_eq, mem_filter, rotation_mem inside, peerGroup, peerIndex, decide_eq_true_eq]
    refine ⟨⟨cfg.member_lt known dpRank_lt, ?_⟩, by simp [other]⟩
    exact fun same => other ((peer_eq_iff group).mp same)
  intro empty
  rw [empty] at listed
  cases listed

/-- Tokens are combined over the network exactly when there is a second node. -/
theorem combineRanges_nil (inside : rank < cfg.worldSize) {table : RoutingTable cfg}
    {info : RoutingInfo} (routed : processRoutingInfo cfg rank table = some info) :
    info.combineRanges = [] ↔ ¬ cfg.nodeSize < cfg.worldSize := by
  have targets := combineRanges_targets routed
  constructor
  · intro empty several
    rw [empty, map_nil] at targets
    have nodes : 2 ≤ cfg.numNodes := by
      by_contra single
      have one : cfg.numNodes = 1 := by
        have positive := cfg.numNodes_pos
        omega
      have all := cfg.nodes_mul
      rw [one] at all
      omega
    obtain ⟨node, known, other⟩ : ∃ node, node < cfg.numNodes ∧ node ≠ rank / cfg.nodeSize := by
      by_cases first : rank / cfg.nodeSize = 0
      · exact ⟨1, by omega, by omega⟩
      · exact ⟨0, by omega, Ne.symm first⟩
    have place : node * cfg.nodeSize / cfg.nodeSize = node := Nat.mul_div_cancel _ cfg.node_pos
    have target : node * cfg.nodeSize < cfg.worldSize := by
      rw [← cfg.nodes_mul]
      exact Nat.mul_lt_mul_of_pos_right known cfg.node_pos
    have listed : (dpGroup cfg (node * cfg.nodeSize), node * cfg.nodeSize) ∈ combineRanks cfg rank :=
      (combineRanks_mem inside _).mpr ⟨target, rfl, by rw [dpGroup_node, place]; exact other⟩
    rw [map_eq_nil_iff.mp targets.symm] at listed
    cases listed
  · intro single
    have none : combineRanks cfg rank = [] := by
      apply eq_nil_iff_forall_not_mem.mpr
      intro peer listed
      obtain ⟨target, same, far⟩ := (combineRanks_mem inside peer).mp listed
      rw [dpGroup_node, Nat.div_eq_of_lt (by omega), Nat.div_eq_of_lt (by omega)] at far
      exact far rfl
    rw [none, map_nil] at targets
    exact map_eq_nil_iff.mp targets

theorem stepOps_shape (inside : rank < cfg.worldSize) (groups : 2 ≤ cfg.numDpGroups)
    {table : RoutingTable cfg} {ops : List SendOp} (planned : stepOps cfg rank table = some ops) :
    ∃ optional final : List StepTransfer, ops =
      ((.route :: optional).map .submit ++ barrierOps .dispatchBarrier (1 + optional.length)) ++
      (final.map .submit ++ barrierOps .combineBarrier (1 + final.length)) := by
  obtain ⟨initialRoutes, _, planned⟩ := bind_eq_some_iff.mp planned
  obtain ⟨info, routed, planned⟩ := bind_eq_some_iff.mp planned
  cases planned
  refine ⟨submitUnless (initialRoutes = []) .privateScatter ++ submitUnless (info.dispatchRanges = []) .overflowScatter,
    submitUnless (info.combineRanges = []) .combineScatter, ?_⟩
  have route : submitUnless (routeTargets cfg rank = []) .route = [.route] := if_neg (routeTargets_ne_nil inside groups)
  have count (empty : Prop) [Decidable empty] (transfer : StepTransfer) :
      (submitUnless empty transfer).length = if empty then 0 else 1 := by
    by_cases holds : empty
    · simp [submitUnless, holds]
    · simp [submitUnless, holds]
  have combined : (if cfg.nodeSize < cfg.worldSize then 1 else 0) =
      (submitUnless (info.combineRanges = []) .combineScatter).length := by
    rw [count]
    by_cases several : cfg.nodeSize < cfg.worldSize
    · rw [if_pos several, if_neg fun empty => (combineRanges_nil inside routed).mp empty several]
    · rw [if_neg several, if_pos ((combineRanges_nil inside routed).mpr several)]
  simp only [route, combined, length_append, count, map_append, map_cons, append_assoc, cons_append, nil_append,
    Nat.add_assoc]

private theorem numSubmitted_append (first second : List SendOp) :
    numSubmitted (first ++ second) = numSubmitted first + numSubmitted second := by
  simp [numSubmitted]

private theorem numSubtracted_append (first second : List SendOp) :
    numSubtracted (first ++ second) = numSubtracted first + numSubtracted second := by
  simp [numSubtracted]

private theorem numSubmitted_submits (transfers : List StepTransfer) :
    numSubmitted (transfers.map .submit) = transfers.length := by
  simp [numSubmitted, Function.comp_def]

private theorem numSubtracted_submits (transfers : List StepTransfer) : numSubtracted (transfers.map .submit) = 0 := by
  simp [numSubtracted, Function.comp_def]

section
variable (ops : Nat → Option (List SendOp))

theorem submit_run (transfers : List StepTransfer) (rest : List SendOp) (state : SendState)
    (next : state.rest = transfers.map .submit ++ rest) :
    ∃ after, runs (SendState.fire ops) state (replicate transfers.length .run) = some after ∧
      after.rest = rest ∧
      after.txCounter = state.txCounter ∧
        after.outstanding = transfers.reverse.map (Prod.mk state.step) ++ state.outstanding := by
  induction transfers generalizing state with
  | nil => exact ⟨state, rfl, next, rfl, rfl⟩
  | cons transfer transfers ih =>
    have fired : state.fire ops .run =
        some { state with rest := transfers.map .submit ++ rest, outstanding := (state.step, transfer) :: state.outstanding } := by
      simp only [SendState.fire, next, map_cons, cons_append]
    obtain ⟨after, reached, left, counter, pending⟩ := ih { state with
      rest := transfers.map .submit ++ rest, outstanding := (state.step, transfer) :: state.outstanding } rfl
    refine ⟨after, ?_, left, counter, ?_⟩
    · rw [length_cons, replicate_succ, runs_cons, fired]
      exact reached
    · rw [pending, reverse_cons, map_append, append_assoc]
      rfl

theorem complete_run (done kept : List (Nat × StepTransfer)) (state : SendState)
    (pending : state.outstanding = done ++ kept) :
    ∃ after, runs (SendState.fire ops) state (done.map .complete) = some after ∧
      after.rest = state.rest ∧
      after.txCounter = state.txCounter + done.length ∧ after.outstanding = kept := by
  induction done generalizing state with
  | nil => exact ⟨state, rfl, rfl, (Int.add_zero _).symm, pending⟩
  | cons transfer done ih =>
    have fired : state.fire ops (.complete transfer) =
        some { state with txCounter := state.txCounter + 1, outstanding := done ++ kept } := by
      simp [SendState.fire, pending]
    obtain ⟨after, reached, left, counter, remaining⟩ := ih { state with
      txCounter := state.txCounter + 1, outstanding := done ++ kept } rfl
    refine ⟨after, ?_, left, ?_, remaining⟩
    · rw [map_cons, runs_cons, fired]
      exact reached
    · simp only [counter, length_cons, Nat.cast_add, Nat.cast_one]
      omega

private theorem barrier_passes {state : SendState} {numTx : Nat} {rest : List SendOp}
    (next : state.rest = .subtract numTx :: .ready :: rest) (counter : state.txCounter = numTx) :
    ∃ before after, state.fire ops .run = some before ∧ before.rest.head? = some .ready ∧
        before.fire ops .run = some after ∧ after.outstanding = state.outstanding := by
  refine ⟨{ state with rest := .ready :: rest, txCounter := state.txCounter - numTx, spins := false }, { state with
    rest, txCounter := state.txCounter - numTx, spins := false }, ?_, rfl, rfl, rfl⟩
  simp [SendState.fire, next, counter]

theorem barrier_returns_early {first barrier : StepTransfer} {optional : List StepTransfer}
    {rest : List SendOp}
    (planned : ops 0 = some (((first :: optional).map .submit ++ barrierOps barrier
      (1 + optional.length)) ++ rest)) :
    ∃ actions before after, runs (SendState.fire ops) .initial actions = some before ∧
      before.rest.head? = some .ready ∧
      before.fire ops .run = some after ∧ after.outstanding = [(1, first)] := by
  have start : SendState.initial.fire ops .run = some { SendState.initial with
      step := 1, rest := ((first :: optional).map .submit ++ barrierOps barrier (1 + optional.length)) ++ rest } := by
    simp only [SendState.fire, SendState.initial, planned, map_some]
  obtain ⟨full, submitted, left, counter, pending⟩ := submit_run ops (first :: optional ++ [barrier])
    (.subtract (1 + optional.length) :: .ready :: rest) { SendState.initial with
      step := 1, rest := ((first :: optional).map .submit ++ barrierOps barrier
        (1 + optional.length)) ++ rest } (by simp [barrierOps])
  -- Everything but the first transfer completes.
  obtain ⟨settled, completed, kept, added, remaining⟩ :=
    complete_run ops ((barrier :: optional.reverse).map (Prod.mk 1)) [(1, first)] full
    (by rw [pending]; simp [SendState.initial])
  obtain ⟨before, after, subtracted, head, returned, same⟩ := barrier_passes ops (kept.trans left) (by
    rw [added, counter]
    simp [SendState.initial, Int.add_comm])
  refine ⟨.run :: (replicate (first :: optional ++ [barrier]).length .run ++
    (((barrier :: optional.reverse).map (Prod.mk 1)).map .complete ++ [.run])), before, after, ?_,
      head, returned, same.trans remaining⟩
  rw [runs_cons, start, bind_some, runs_append submitted, runs_append completed, runs_cons, subtracted]
  rfl

private theorem panic_run (panics : ops 0 = none) {actions : List SendAction} {state : SendState}
    (reached : runs (SendState.fire ops) .initial actions = some state) : state = .initial := by
  cases actions with
  | nil =>
    cases reached
    rfl
  | cons action actions =>
    have refused : SendState.initial.fire ops action = none := by
      cases action with
      | run => simp [SendState.fire, SendState.initial, panics]
      | complete transfer => simp [SendState.fire, SendState.initial]
    rw [runs_cons, refused] at reached
    cases reached

end

/-- A worker panics in its steps exactly if it starts past the last expert. -/
theorem stepOps_eq_none_iff (inside : rank < cfg.worldSize) (table : RoutingTable cfg) :
    stepOps cfg rank table = none ↔ cfg.numExperts < cfg.firstExpert rank := by
  obtain ⟨routes, initial⟩ := dispatchInitialRoutes_total table inside
  constructor
  · intro fails
    by_contra first
    have ordered := (first_le_last_iff cfg rank).mpr (Nat.le_of_not_lt first)
    rw [stepOps, initial, processRoutingInfo_total table inside ordered] at fails
    cases fails
  · intro past
    rw [stepOps, initial, processRoutingInfo_eq_none table past]
    rfl

/-- A worker that does not panic can leave its first barrier with the routing still
under way, and every step submits one transfer more than it accounts for. -/
theorem barriersSettle_iff (cfg : Config) (groups : 2 ≤ cfg.numDpGroups) {rank : Nat} (inside : rank < cfg.worldSize)
    (tables : Nat → RoutingTable cfg) :
    (BarriersSettle (fun step => stepOps cfg rank (tables step)) ↔ cfg.numExperts < cfg.firstExpert rank) ∧
      ∀ table ops, stepOps cfg rank table = some ops → numSubmitted ops = numSubtracted ops + 1 := by
  rw [← stepOps_eq_none_iff inside (tables 0)]
  refine ⟨⟨?_, ?_⟩, ?_⟩
  · intro settle
    cases planned : stepOps cfg rank (tables 0) with
    | none => rfl
    | some ops =>
      obtain ⟨optional, final, shape⟩ := stepOps_shape inside groups planned
      rw [shape] at planned
      obtain ⟨actions, before, after, reached, head, returned, remaining⟩ :=
        barrier_returns_early (fun step => stepOps cfg rank (tables step)) planned
      rw [settle actions before after reached head returned] at remaining
      cases remaining
  · intro fails actions before after reached head
    rw [panic_run (fun step => stepOps cfg rank (tables step)) fails reached] at head
    cases head
  · intro table ops planned
    obtain ⟨optional, final, shape⟩ := stepOps_shape inside groups planned
    rw [shape]
    simp only [numSubmitted_append, numSubtracted_append, numSubmitted_submits, numSubtracted_submits, length_cons]
    simp only [numSubmitted, numSubtracted, barrierOps, map_cons, map_nil, sum_cons, sum_nil]
    omega

theorem barriersSettle_iff_twoRanks : 2 ≤ twoRanks.numDpGroups ∧ 0 < twoRanks.worldSize ∧
    ¬ BarriersSettle (fun _ => stepOps twoRanks 0 oneToEach) :=
  ⟨by decide, by decide, (barriersSettle_iff twoRanks (by decide) (by decide) fun _ => oneToEach).1.not.mpr (by decide)⟩

/-- The barrier of the first dispatch returns while the routing is still being sent. -/
theorem dispatch_barrier_early : ∃ before after,
    runs (SendState.fire fun _ => stepOps twoRanks 0 oneToEach) .initial
      [.run, .run, .run, .run, .complete (1, .privateScatter), .complete (1, .dispatchBarrier), .run] = some before ∧
    before.rest.head? = some .ready ∧ before.fire (fun _ => stepOps twoRanks 0 oneToEach) .run = some after ∧
    after.outstanding = [(1, .route)] := by
  refine ⟨_, _, (some_get (by decide)).symm, by decide, (some_get (by decide)).symm, by decide⟩

end PplxGarden.AllToAll.Proofs
