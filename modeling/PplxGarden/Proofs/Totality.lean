import PplxGarden.Proofs.Copies

/-! When the routing computation of a rank completes. The number of local experts
underflows on a rank that starts past the last expert; a second subtraction is only
reached by tokens of other nodes that have no private slot. -/

namespace PplxGarden.AllToAll.Proofs
open Library Fabric List

variable {cfg : Config} {rank : Nat} {table : RoutingTable cfg}

/-- `src_dispatch_count[peer_group]` when received token `t` is routed. -/
def srcDispatchCount (info : RoutingInfo) (group t : Nat) : Nat :=
  u32 ((info.tokens.take t).countP fun entry => entry.copy.group = group)

/-- The offset of received token `t` is computed from `base_offset - max_private_tokens`. -/
def BehindPrivate (cfg : Config) (rank : Nat) (info : RoutingInfo) (t : Nat) : Prop :=
  ∃ entry, info.tokens[t]? = some entry ∧ entry.copy.group * cfg.dpSize + dpRank cfg rank ≠ rank ∧
    cfg.maxPrivateTokens ≤ srcDispatchCount info entry.copy.group t ∧
    (entry.copy.group * cfg.dpSize + dpRank cfg rank) / cfg.nodeSize ≠ rank / cfg.nodeSize

/-- `base_offset as u32 - max_private_tokens as u32` does not underflow. -/
def BaseOffsetFits (cfg : Config) : Prop := u32 cfg.maxPrivateTokens ≤ u32 (cfg.maxPrivateTokens * cfg.numDpGroups)

instance (cfg : Config) : Decidable (BaseOffsetFits cfg) := inferInstanceAs (Decidable (_ ≤ _))

/-- Both routing computations of a rank return, the received tokens fill their tables,
no subtraction underflows and every peer has a handle. -/
structure RoutingCompletes (table : RoutingTable cfg) (rank : Nat) : Prop where
  initial : ∃ targets, dispatchInitialRoutes cfg rank table = some targets
  routed : ∃ info, processRoutingInfo cfg rank table = some info ∧ info.tokens.length = info.numRecvTokens ∧
    ∀ t, BehindPrivate cfg rank info t → BaseOffsetFits cfg
  handles : ∀ peer, peer ∈ remoteRanks cfg rank ∨ peer ∈ overflowRanks cfg rank ∨
    peer ∈ (combineRanks cfg rank).map Prod.snd →
    peer < cfg.worldSize

/-- A group of another node sends more than fits its private slots. -/
def RemoteOverflow (table : RoutingTable cfg) (rank : Nat) : Prop :=
  ∃ group, group < cfg.numDpGroups ∧ group / cfg.groupsPerNode ≠ rank / cfg.nodeSize ∧
    cfg.maxPrivateTokens < table.tokensTo group rank

/-- Some item is met after `bound` others of its kind exactly when there are more. -/
private theorem countP_reaches {α : Type} {items : List α} {counts : α → Bool} {bound : Nat} :
    (∃ (t : Nat) (item : α), items[t]? = some item ∧ counts item = true ∧
      bound ≤ (items.take t).countP counts) ↔ bound < items.countP counts := by
  constructor
  · intro found
    obtain ⟨t, item, listed, counted, reached⟩ := found
    have grown : (items.take (t + 1)).countP counts = (items.take t).countP counts + 1 := by
      rw [take_add_one, listed, Option.toList_some, countP_append, countP_singleton, if_pos counted]
    have total := (take_sublist (t + 1) items).countP_le (p := counts)
    omega
  · intro more
    induction items generalizing bound with
    | nil => exact absurd more (Nat.not_lt_zero _)
    | cons head items ih =>
      rw [countP_cons] at more
      cases kind : counts head with
      | false =>
        rw [kind, if_neg Bool.false_ne_true, Nat.add_zero] at more
        obtain ⟨t, item, listed, counted, reached⟩ := ih more
        refine ⟨t + 1, item, listed, counted, ?_⟩
        rw [take_succ_cons, countP_cons]
        exact reached.trans (Nat.le_add_right _ _)
      | true =>
        rw [kind, if_pos rfl] at more
        cases bound with
        | zero => exact ⟨0, head, rfl, kind, Nat.zero_le _⟩
        | succ bound =>
          obtain ⟨t, item, listed, counted, reached⟩ := ih (Nat.lt_of_succ_lt_succ more)
          refine ⟨t + 1, item, listed, counted, ?_⟩
          rw [take_succ_cons, countP_cons, if_pos kind]
          exact Nat.succ_le_succ reached

section
variable (ordered : cfg.firstExpert rank ≤ cfg.lastExpert rank)
include ordered

theorem entries_count (padded count : Nat → Nat) {groups : List Nat} (distinct : groups.Nodup)
    (group : Nat) : (entries table rank padded count groups).countP (fun entry => decide (entry.copy.group = group)) =
      if group ∈ groups then table.tokensTo group rank else 0 := by
  induction groups generalizing count with
  | nil => rfl
  | cons head groups ih =>
    obtain ⟨absent, distinct⟩ := nodup_cons.mp distinct
    have own : ∀ entry ∈ groupEntries table rank padded count head, entry.copy.group = head := by
      intro entry member
      simp only [groupEntries, expertEntries, mem_flatMap, mem_map] at member
      obtain ⟨expert, _, index, _, rfl⟩ := member
      rfl
    rw [entries, countP_append, ih _ distinct]
    by_cases same : group = head
    · subst same
      rw [if_neg absent, if_pos mem_cons_self, Nat.add_zero,
        ← groupEntries_length ordered padded count group, countP_eq_length]
      intro entry member
      exact decide_eq_true (own entry member)
    · have none : (groupEntries table rank padded count head).countP (fun entry =>
          decide (entry.copy.group = group)) = 0 := by
        rw [countP_eq_zero]
        intro entry member matched
        exact same ((of_decide_eq_true matched).symm.trans (own entry member))
      rw [none, Nat.zero_add]
      simp only [mem_cons, same, false_or]

private theorem routedTokens_count (inside : rank < cfg.worldSize)
    {group : Nat} (known : group < cfg.numDpGroups) :
    (routedTokens table rank).countP (fun entry => decide (entry.copy.group = group)) = table.tokensTo group rank := by
  rw [routedTokens, entries_count ordered _ _ ((groupOrder_perm inside).nodup_iff.mpr nodup_range),
    if_pos ((groupOrder_perm inside).mem_iff.mpr (mem_range.mpr known))]

theorem behindPrivate_iff (inside : rank < cfg.worldSize) :
    (∃ t, BehindPrivate cfg rank (routingInfo table rank) t) ↔ RemoteOverflow table rank := by
  constructor
  · intro found
    obtain ⟨t, entry, listed, _, reached, far⟩ := found
    have known := ((routedTokens_mem inside _).mp (mem_map_of_mem (mem_of_getElem? listed))).known
    rw [peer_node _ dpRank_lt] at far
    refine ⟨entry.copy.group, known, far, ?_⟩
    rw [← routedTokens_count ordered inside known]
    exact countP_reaches.mp ⟨t, entry, listed, decide_eq_true rfl, reached.trans (Nat.mod_le _ _)⟩
  · intro found
    obtain ⟨group, known, far, more⟩ := found
    have below := table.tokensTo_lt group rank
    rw [← routedTokens_count ordered inside known] at more below
    obtain ⟨t, entry, listed, own, reached⟩ := countP_reaches.mpr more
    have same := of_decide_eq_true own
    subst same
    have small := ((take_sublist t (routedTokens table rank)).countP_le (p :=
      fun other => decide (other.copy.group = entry.copy.group))).trans_lt below
    refine ⟨t, entry, listed, ?_, ?_, ?_⟩
    · intro here
      rw [peer_eq_iff] at here
      exact far (here ▸ dpGroup_node)
    · rw [srcDispatchCount]
      exact reached.trans_eq (u32_of_lt small).symm
    · rw [peer_node _ dpRank_lt]
      exact far

end

private theorem handles_known (inside : rank < cfg.worldSize) {peer : Nat}
    (used : peer ∈ remoteRanks cfg rank ∨ peer ∈ overflowRanks cfg rank ∨
      peer ∈ (combineRanks cfg rank).map Prod.snd) : peer < cfg.worldSize := by
  rcases used with first | overflow | combined
  · exact ((remoteRanks_mem inside peer).mp first).1
  · exact ((overflowRanks_mem inside peer).mp overflow).1
  · obtain ⟨pair, listed, rfl⟩ := mem_map.mp combined
    exact ((combineRanks_mem inside pair).mp listed).1

private theorem remoteOverflow_trim (table : RoutingTable cfg) :
    RemoteOverflow (trim table) rank ↔ RemoteOverflow table rank := by
  simp only [RemoteOverflow, tokensTo_trim]

/-- Routing completes exactly on the ranks that do not start past the last expert,
unless the private slots outgrow the `u32` they are counted in. -/
theorem routingCompletes_iff (table : RoutingTable cfg) (inside : rank < cfg.worldSize) :
    RoutingCompletes table rank ↔ cfg.firstExpert rank ≤ cfg.numExperts ∧
      (RemoteOverflow table rank → BaseOffsetFits cfg) := by
  constructor
  · intro completes
    obtain ⟨info, routed, _, fits⟩ := completes.routed
    have first : cfg.firstExpert rank ≤ cfg.numExperts := by
      by_contra past
      rw [processRoutingInfo_eq_none table (Nat.lt_of_not_le past)] at routed
      cases routed
    have ordered := (first_le_last_iff cfg rank).mpr first
    rw [processRoutingInfo_total table inside ordered, Option.some.injEq] at routed
    subst routed
    refine ⟨first, fun overflow => ?_⟩
    obtain ⟨t, behind⟩ := (behindPrivate_iff ordered inside).mpr ((remoteOverflow_trim table).mpr overflow)
    exact fits t behind
  · intro condition
    obtain ⟨first, fits⟩ := condition
    have ordered := (first_le_last_iff cfg rank).mpr first
    refine ⟨dispatchInitialRoutes_total table inside,
      ⟨_, processRoutingInfo_total table inside ordered, routedTokens_length ordered inside, ?_⟩,
      fun _ => handles_known inside⟩
    intro t behind
    exact fits ((remoteOverflow_trim table).mp ((behindPrivate_iff ordered inside).mp ⟨t, behind⟩))

/-- Five experts on four ranks: two for each of the first two, one for the third, and
the last rank would start at expert six. -/
def fiveExperts : Config :=
  { Config.twoPairs with numExperts := 5, maxPrivateTokens := 4 }

/-- Every group routes one copy to every expert. -/
def onePerExpert : RoutingTable fiveExperts where
  numRouted _ _ := 1
  total_lt _ := by decide

theorem routingCompletes_first : RoutingCompletes onePerExpert 0 :=
  (routingCompletes_iff onePerExpert (by decide)).mpr ⟨by decide, fun _ => by decide⟩

theorem routing_underflows : ¬ RoutingCompletes onePerExpert 3 := by
  intro completes
  obtain ⟨info, routed, _⟩ := completes.routed
  have fails : processRoutingInfo fiveExperts 3 onePerExpert = none := by decide
  rw [fails] at routed
  cases routed

end PplxGarden.AllToAll.Proofs
