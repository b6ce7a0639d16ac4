import PplxGarden.AllToAll.Worker

/-! The vectors of the first routing pass in closed form. Every partial sum is a
prefix sum of the routing table, truncated to the width of its vector. -/

namespace PplxGarden.AllToAll.Proofs
open Library Fabric Function Finset Option
variable {peer group expert : Nat}

theorem u32_of_lt {n : Nat} (bound : n < 2 ^ 32) : u32 n = n := Nat.mod_eq_of_lt bound

theorem u32_add_left (a b : Nat) : u32 (u32 a + b) = u32 (a + b) := Nat.mod_add_mod _ _ _

@[simp] theorem u32_zero : u32 0 = 0 := rfl

@[simp] theorem u32_u32 (n : Nat) : u32 (u32 n) = u32 n := Nat.mod_mod _ _

variable {cfg : Config} {rank : Nat} {table : RoutingTable cfg}

theorem getNumRouted_eq (known : group < cfg.numDpGroups) (hosted : expert < cfg.numExperts) :
    getNumRouted cfg table group expert = some (table.numRouted group expert) := if_pos ⟨known, hosted⟩

theorem lastExpert_le (peer : Nat) : cfg.lastExpert peer ≤ cfg.numExperts := Nat.min_le_right _ _

private theorem sumIco_succ (group : Nat) {first : Nat} (ordered : first ≤ expert) :
    ∑ e ∈ Ico first (expert + 1), table.numRouted group e =
      ∑ e ∈ Ico first expert, table.numRouted group e + table.numRouted group expert :=
  sum_Ico_succ_top ordered _

theorem sumRouted_eq (known : group < cfg.numDpGroups) (first last start : Nat)
    (hosted : last ≤ cfg.numExperts) :
    (forRange first last start fun sum expert => do return sum + (← getNumRouted cfg table group expert)) =
      some (start + ∑ e ∈ Ico first last, table.numRouted group e) := by
  rcases Nat.le_total first last with ordered | empty
  · apply forRange_states (fun expert => start + ∑ e ∈ Ico first expert, table.numRouted group e)
      (by simp) ordered
    intro expert lower upper
    rw [getNumRouted_eq known (by omega), sumIco_succ group lower]
    simp [Nat.add_assoc]
  · rw [forRange_empty _ empty, Ico_eq_empty_of_le empty]
    simp

private theorem sumRouted_peer (table : RoutingTable cfg) (known : group < cfg.numDpGroups) (peer : Nat) :
    (forRange (cfg.firstExpert peer) (cfg.lastExpert peer) 0 fun sum expert => do
      return sum + (← getNumRouted cfg table group expert)) = some (table.tokensTo group peer) := by
  rw [sumRouted_eq known _ _ _ (lastExpert_le peer), Nat.zero_add]
  rfl

private theorem sumRouted_u32 (table : RoutingTable cfg) (known : group < cfg.numDpGroups)
    {last : Nat} (hosted : last ≤ cfg.numExperts) :
    (forRange 0 last 0 fun sum expert =>
      do return u32 (sum + (← getNumRouted cfg table group expert))) =
      some (u32 (table.before group last)) := by
  apply forRange_states (fun expert => u32 (table.before group expert)) (by simp) (Nat.zero_le _)
  intro expert _ upper
  rw [getNumRouted_eq known (by omega), table.before_succ]
  simp [u32_add_left]

def expertBound (cfg : Config) (peer : Nat) : Nat := min (peer * cfg.expertsPerRank) cfg.numExperts

theorem expertBound_succ (peer : Nat) : expertBound cfg (peer + 1) = cfg.lastExpert peer := by
  simp only [expertBound, Config.lastExpert, Config.firstExpert, Nat.add_mul, Nat.one_mul]

private theorem expertBound_eq (admissible : cfg.Admissible) (inside : peer < cfg.worldSize) :
    expertBound cfg peer = cfg.firstExpert peer := Nat.min_eq_left (admissible.firstExpert_le inside)

theorem expertBound_world : expertBound cfg cfg.worldSize = cfg.numExperts := Nat.min_eq_right cfg.experts_covered

/-- Ranks past the last expert are as good as empty ones: the table counts nothing for
the experts they would host. -/
def Contiguous (table : RoutingTable cfg) : Prop :=
  ∀ group peer, peer < cfg.worldSize → table.before group (cfg.firstExpert peer) = table.before group (expertBound cfg peer)

namespace Contiguous

theorem of_admissible (admissible : cfg.Admissible) : Contiguous table := by
  intro group peer visited
  rw [expertBound_eq admissible visited]

theorem before_lt (contiguous : Contiguous table) (group : Nat) (visited : peer < cfg.worldSize) :
    table.before group (cfg.firstExpert peer) < 2 ^ 32 := by
  rw [contiguous group peer visited]
  exact (table.before_mono group (Nat.min_le_right _ _)).trans_lt (table.total_lt group)

theorem past (empty : cfg.lastExpert peer < cfg.firstExpert peer) :
    expertBound cfg peer = cfg.numExperts ∧ cfg.lastExpert peer = cfg.numExperts := by
  simp only [expertBound, Config.lastExpert, Config.firstExpert] at empty ⊢
  omega

theorem tokensTo_eq (contiguous : Contiguous table) (group : Nat) (visited : peer < cfg.worldSize) :
    table.before group (cfg.firstExpert peer) + table.tokensTo group peer =
      table.before group (cfg.lastExpert peer) := by
  rcases Nat.lt_or_ge (cfg.lastExpert peer) (cfg.firstExpert peer) with empty | ordered
  · obtain ⟨bound, last⟩ := past empty
    rw [contiguous group peer visited, bound, last, RoutingTable.tokensTo, Ico_eq_empty_of_le empty.le, sum_empty,
      Nat.add_zero]
  · exact table.tokensTo_eq ordered

theorem block_le (contiguous : Contiguous table) (group : Nat) (visited : peer < cfg.worldSize) :
    table.before group (cfg.firstExpert peer) + table.tokensTo group peer ≤ table.before group cfg.numExperts := by
  rw [contiguous.tokensTo_eq group visited]
  exact table.before_mono group (lastExpert_le peer)

end Contiguous

private theorem trim_total (table : RoutingTable cfg) (group : Nat) :
    ∑ expert ∈ range cfg.numExperts, (if expert < cfg.numExperts then table.numRouted group expert
      else 0) < 2 ^ 32 := by
  rw [sum_congr rfl fun expert member => if_pos (mem_range.mp member)]
  exact table.total_lt group

/-- The table as the worker reads it: nothing is routed past the last expert. -/
def trim (table : RoutingTable cfg) : RoutingTable cfg where
  numRouted group expert := if expert < cfg.numExperts then table.numRouted group expert else 0
  total_lt := trim_total table

theorem getNumRouted_trim (table : RoutingTable cfg) : getNumRouted cfg (trim table) = getNumRouted cfg table := by
  funext group expert
  simp only [getNumRouted, trim]
  split
  next known => rw [if_pos known.2]
  next => rfl

theorem tokensTo_trim (table : RoutingTable cfg) (group peer : Nat) :
    (trim table).tokensTo group peer = table.tokensTo group peer := by
  apply sum_congr rfl
  intro expert member
  exact if_pos ((mem_Ico.mp member).2.trans_le (lastExpert_le peer))

private theorem before_past (table : RoutingTable cfg) (group : Nat) (past : cfg.numExperts ≤ expert) :
    (trim table).before group expert = (trim table).before group cfg.numExperts := by
  induction expert, past using Nat.le_induction with
  | base => rfl
  | succ expert past ih =>
    have empty : (trim table).numRouted group expert = 0 := if_neg (Nat.not_lt.mpr past)
    rw [RoutingTable.before_succ, ih, empty, Nat.add_zero]

theorem Contiguous.of_trim (table : RoutingTable cfg) : Contiguous (trim table) := by
  intro group peer _
  rw [expertBound]
  rcases Nat.le_total (peer * cfg.expertsPerRank) cfg.numExperts with below | past
  · rw [Nat.min_eq_left below]
    rfl
  · rw [Nat.min_eq_right past]
    exact before_past table group past

theorem countInitialRoutes_eq (contiguous : Contiguous table) (inside : rank < cfg.worldSize) :
    countInitialRoutes cfg rank table =
      some (tabulate cfg.worldSize (table.tokensTo (dpGroup cfg rank)),
        tabulate cfg.worldSize (fun peer => table.before (dpGroup cfg rank) (cfg.firstExpert peer))) := by
  have known : dpGroup cfg rank < cfg.numDpGroups := cfg.group_lt inside
  unfold countInitialRoutes
  generalize dpGroup cfg rank = own at known ⊢
  rw [forRange_states (fun peer =>
      (tabulate cfg.worldSize (filledTo peer (table.tokensTo own)),
        tabulate cfg.worldSize (filledTo peer (fun peer => table.before own (cfg.firstExpert peer))),
        table.before own (expertBound cfg peer)))
    (by simp [replicate_eq_tabulate, expertBound]) (Nat.zero_le _)]
  · simp [tabulate_filledTo]
  · intro peer _ upper
    have last : min ((peer + 1) * cfg.expertsPerRank) cfg.numExperts = cfg.lastExpert peer := expertBound_succ peer
    have starts := contiguous own peer upper
    have grows : table.before own (cfg.firstExpert peer) + table.tokensTo own peer =
        table.before own (expertBound cfg (peer + 1)) := by
      rw [expertBound_succ, contiguous.tokensTo_eq own upper]
    simp only [last, ← starts]
    erw [sumRouted_peer table known peer]
    simp only [bind_eq_bind, bind_some, tabulate_set _ _ upper, Option.pure_def, grows,
      update_filledTo peer (table.tokensTo own),
      update_filledTo peer (fun peer => table.before own (cfg.firstExpert peer))]

/-- The send-side vectors once the ranks below a bound have been visited. -/
def sentTo (table : RoutingTable cfg) (own peer : Nat) (totals : Totals) : Totals := { totals with
  sourceExpertOffset := tabulate cfg.numExperts (filledTo (expertBound cfg peer) (fun e => u32 (table.before own e)))
  tokensToRank := tabulate cfg.worldSize (filledTo peer (fun r => u32 (table.tokensTo own r)))
  dispatchSrcOffset := tabulate cfg.worldSize (filledTo peer (fun r => u32 (table.before own (cfg.firstExpert r))))
  rankOffset := u32 (table.before own (expertBound cfg peer)) }

private theorem countPeer_past (contiguous : Contiguous table) (totals : Totals) (visited : peer < cfg.worldSize)
    (empty : cfg.lastExpert peer < cfg.firstExpert peer) :
    countPeer cfg rank table (sentTo table (dpGroup cfg rank) peer totals) peer =
      some (sentTo table (dpGroup cfg rank) (peer + 1) totals) := by
  obtain ⟨bound, last⟩ := Contiguous.past empty
  have start := contiguous (dpGroup cfg rank) peer visited
  unfold countPeer
  generalize dpGroup cfg rank = own at start ⊢
  have nothing : u32 (table.tokensTo own peer) = 0 := by
    rw [RoutingTable.tokensTo, Ico_eq_empty_of_le empty.le, sum_empty, u32_zero]
  have sent : filledTo (peer + 1) (fun r => u32 (table.tokensTo own r)) =
      filledTo peer (fun r => u32 (table.tokensTo own r)) := by
    rw [← update_filledTo, nothing]
    exact update_eq_self_iff.mpr (filledTo_above _ (Nat.le_refl _)).symm
  have sources := update_filledTo peer (fun r => u32 (table.before own (cfg.firstExpert r)))
  rw [bound] at start
  rw [last] at empty
  simp only [start] at sources
  simp only [sentTo, expertBound_succ, bound, last, tabulate_set _ _ visited, bind_eq_bind, bind_some, sources, sent,
    forRange_empty _ empty.le]

theorem countPeer_eq (contiguous : Contiguous table) (inside : rank < cfg.worldSize) (totals : Totals)
    (visited : peer < cfg.worldSize) :
    countPeer cfg rank table (sentTo table (dpGroup cfg rank) peer totals) peer =
      some (sentTo table (dpGroup cfg rank) (peer + 1) totals) := by
  have known : dpGroup cfg rank < cfg.numDpGroups := cfg.group_lt inside
  rcases Nat.lt_or_ge (cfg.lastExpert peer) (cfg.firstExpert peer) with empty | ordered
  · exact countPeer_past contiguous totals visited empty
  have starts : expertBound cfg peer = cfg.firstExpert peer := Nat.min_eq_left (ordered.trans (lastExpert_le peer))
  unfold countPeer
  generalize dpGroup cfg rank = own at known ⊢
  have unset : update (filledTo peer (fun r => u32 (table.tokensTo own r))) peer 0 =
      filledTo peer (fun r => u32 (table.tokensTo own r)) :=
    update_eq_self_iff.mpr (filledTo_above _ (Nat.le_refl _)).symm
  simp only [sentTo, starts, tabulate_set _ _ visited, bind_eq_bind, bind_some,
    update_filledTo peer (fun r => u32 (table.before own (cfg.firstExpert r)))]
  rw [forRange_states (fun expert => { totals with
      sourceExpertOffset := tabulate cfg.numExperts (filledTo expert (fun e => u32 (table.before own e)))
      tokensToRank := tabulate cfg.worldSize (update (filledTo peer (fun r => u32 (table.tokensTo own r))) peer
        (u32 (∑ e ∈ Ico (cfg.firstExpert peer) expert, table.numRouted own e)))
      dispatchSrcOffset := tabulate cfg.worldSize
        (filledTo (peer + 1) (fun r => u32 (table.before own (cfg.firstExpert r))))
      rankOffset := u32 (table.before own expert) })
    (by simp [unset]) ordered]
  · have full := update_filledTo peer (fun r => u32 (table.tokensTo own r))
    simp only [RoutingTable.tokensTo] at full
    simp only [expertBound_succ, RoutingTable.tokensTo, full]
  · intro expert lower upper
    have hosted : expert < cfg.numExperts := upper.trans_le (lastExpert_le peer)
    simp only [getNumRouted_eq known hosted, tabulate_set _ _ hosted, tabulate_get _ visited, tabulate_set _ _ visited,
      update_self, update_idem, u32_add_left, sumIco_succ own lower, table.before_succ,
      update_filledTo expert (fun e => u32 (table.before own e)), bind_some, Option.pure_def]

/-- Immediates that announce the copies of one group: one for its private range
and, past the private part, one from every network of the sender. -/
def announced (table : RoutingTable cfg) (rank group : Nat) : Nat :=
  if group ≠ dpGroup cfg rank ∧ group / cfg.groupsPerNode ≠ rank / cfg.nodeSize then
    1 + if cfg.maxPrivateTokens < table.tokensTo group rank then cfg.netsPerGpu else 0
  else 0

/-- The copies each local expert receives from the groups below a bound. -/
def perExpert (table : RoutingTable cfg) (rank group : Nat) : Nat → Nat :=
  filledTo (cfg.lastExpert rank - cfg.firstExpert rank)
    (fun index => u32 (∑ g ∈ range group, table.numRouted g (cfg.firstExpert rank + index)))

/-- All vectors of the first pass once the groups below a bound were visited. -/
def totalsAt (table : RoutingTable cfg) (rank group : Nat) : Totals :=
  sentTo table (dpGroup cfg rank) (group * cfg.dpSize) {
    tokensFromGroup := tabulate cfg.numDpGroups (filledTo group (fun g => u32 (table.tokensTo g rank)))
    srcGroupOffset := tabulate cfg.numDpGroups (filledTo group (fun g => u32 (table.received rank g)))
    dstGroupOffset := tabulate cfg.numDpGroups (filledTo group (fun g => u32 (table.before g (cfg.firstExpert rank))))
    tokensPerExpert := tabulate cfg.expertsPerRank (perExpert table rank group)
    numRecvTokens := table.received rank group
    numRecvTx := ∑ g ∈ range group, announced table rank g
    sourceExpertOffset := []
    tokensToRank := []
    dispatchSrcOffset := []
    rankOffset := 0 }

private theorem totalsAt_zero : totalsAt table rank 0 = Totals.initial cfg := by
  simp [totalsAt, sentTo, Totals.initial, perExpert, replicate_eq_tabulate, expertBound, filledTo]

private theorem countExperts_eq (table : RoutingTable cfg)
    (ordered : cfg.firstExpert rank ≤ cfg.lastExpert rank) (known : group < cfg.numDpGroups) :
    (forRange (cfg.firstExpert rank) (cfg.lastExpert rank)
      (0, tabulate cfg.expertsPerRank (perExpert table rank group))
      fun (numTokens, tokensPerExpert) expert => do
        let n ← getNumRouted cfg table group expert
        let index := expert - cfg.firstExpert rank
        return (numTokens + n, ← vecSet tokensPerExpert index
          (u32 ((← tokensPerExpert[index]?) + n)))) =
      some (table.tokensTo group rank,
        tabulate cfg.expertsPerRank (perExpert table rank (group + 1))) := by
  rw [forRange_states (fun expert =>
      (∑ e ∈ Ico (cfg.firstExpert rank) expert, table.numRouted group e,
        tabulate cfg.expertsPerRank (overwrite (expert - cfg.firstExpert rank)
          (perExpert table rank (group + 1)) (perExpert table rank group))))
    (by simp) ordered]
  · simp only [RoutingTable.tokensTo, Option.some.injEq, Prod.mk.injEq, true_and]
    apply tabulate_congr
    intro index _
    by_cases filled : index < cfg.lastExpert rank - cfg.firstExpert rank
    · exact if_pos filled
    · simp [overwrite, perExpert, filledTo, filled]
  · intro expert lower upper
    have hosted : expert < cfg.numExperts := upper.trans_le (lastExpert_le rank)
    have room : expert - cfg.firstExpert rank < cfg.expertsPerRank := by
      have width : cfg.lastExpert rank ≤ cfg.firstExpert rank + cfg.expertsPerRank := Nat.min_le_left _ _
      omega
    have slot : expert - cfg.firstExpert rank < cfg.lastExpert rank - cfg.firstExpert rank := by omega
    have next : expert + 1 - cfg.firstExpert rank = expert - cfg.firstExpert rank + 1 := by omega
    have back : cfg.firstExpert rank + (expert - cfg.firstExpert rank) = expert := by omega
    have value : u32 (perExpert table rank group (expert - cfg.firstExpert rank) + table.numRouted group expert) =
        perExpert table rank (group + 1) (expert - cfg.firstExpert rank) := by
      simp only [perExpert, filledTo_below _ slot, back, u32_add_left, sum_range_succ]
    have current : overwrite (expert - cfg.firstExpert rank) (perExpert table rank (group + 1))
        (perExpert table rank group) (expert - cfg.firstExpert rank) =
        perExpert table rank group (expert - cfg.firstExpert rank) := if_neg (by omega)
    simp only [getNumRouted_eq known hosted, tabulate_get _ room, tabulate_set _ _ room, current, value,
      update_overwrite, sumIco_succ group lower, next, bind_eq_bind, bind_some, Option.pure_def]

theorem countGroup_eq (contiguous : Contiguous table) (inside : rank < cfg.worldSize)
    (ordered : cfg.firstExpert rank ≤ cfg.lastExpert rank) (known : group < cfg.numDpGroups) :
    countGroup cfg rank table (totalsAt table rank group) group =
      some (totalsAt table rank (group + 1)) := by
  have peers : forRange 0 cfg.dpSize (totalsAt table rank group) (fun totals i =>
      countPeer cfg rank table totals (group * cfg.dpSize + i)) =
      some (sentTo table (dpGroup cfg rank) (group * cfg.dpSize + cfg.dpSize) (totalsAt table rank group)) := by
    apply forRange_states (fun i => sentTo table (dpGroup cfg rank) (group * cfg.dpSize + i) (totalsAt table rank group))
      (by simp [totalsAt, sentTo]) (Nat.zero_le _)
    intro i _ upper
    exact countPeer_eq contiguous inside _ (cfg.member_lt known upper)
  have offset := sumRouted_u32 table known (ordered.trans (lastExpert_le rank))
  have experts := countExperts_eq table ordered known
  have next : (group + 1) * cfg.dpSize = group * cfg.dpSize + cfg.dpSize := by rw [Nat.add_mul, Nat.one_mul]
  have unset : filledTo group (fun g => u32 (table.tokensTo g rank)) group = 0 := filledTo_above _ (Nat.le_refl _)
  unfold countGroup
  simp only [peers, bind_eq_bind, bind_some]
  erw [offset]
  simp only [bind_some, sentTo, totalsAt]
  simp only [bind_eq_bind, Option.pure_def] at experts
  simp only [experts, tabulate_set _ _ known, tabulate_get _ known, bind_some, Option.pure_def, unset, Nat.zero_add,
    u32_u32, update_filledTo group (fun g => u32 (table.tokensTo g rank)),
    update_filledTo group (fun g => u32 (table.received rank g)),
    update_filledTo group (fun g => u32 (table.before g (cfg.firstExpert rank))),
    sum_range_succ, table.received_succ, next, announced]

/-- The first pass never fails and leaves the prefix sums of the whole table. -/
theorem countGroups_eq (contiguous : Contiguous table) (inside : rank < cfg.worldSize)
    (ordered : cfg.firstExpert rank ≤ cfg.lastExpert rank) :
    forRange 0 cfg.numDpGroups (Totals.initial cfg) (countGroup cfg rank table) =
      some (totalsAt table rank cfg.numDpGroups) :=
  forRange_states (totalsAt table rank) totalsAt_zero (Nat.zero_le _)
    (fun _ _ upper => countGroup_eq contiguous inside ordered upper)

end PplxGarden.AllToAll.Proofs
