import PplxGarden.Proofs.Dispatch
import Mathlib.Data.Nat.Bitwise
import Mathlib.Data.Set.Function

/-! The slot read by `dispatch_recv`. Sender and receiver agree on it as long as
the private slots are numbered below the bit that tags peer send buffers. -/

namespace PplxGarden.AllToAll.Proofs
open Library Fabric Nat

variable {cfg : Config} {table : RoutingTable cfg}
variable {rank : Nat}

private theorem untagged {n : Nat} (small : n < 2 ^ 31) : n &&& 2 ^ 31 = 0 := by
  rw [and_two_pow, testBit_lt_two_pow small]
  rfl

theorem tagged (n : Nat) : (n ||| 2 ^ 31) &&& 2 ^ 31 ≠ 0 := by
  rw [and_two_pow, testBit_or, testBit_two_pow_self, Bool.or_true]
  decide

private theorem tagged_slot {n : Nat} (small : n < 2 ^ 31) : (n ||| 2 ^ 31) &&& (2 ^ 31 - 1) = n := by
  rw [and_two_pow_sub_one_eq_mod, or_mod_two_pow, mod_self, or_zero, mod_eq_of_lt small]

section
variable {rank : Nat} {copy : TokenCopy}

theorem received_indexOnRank (routed : RoutedTo table rank copy) :
    table.received rank copy.group + indexOnRank table rank copy.group copy.expert copy.index <
      table.received rank cfg.numDpGroups := by
  have counted := indexOnRank_lt routed
  have grown := table.received_mono rank routed.known
  rw [table.received_succ] at grown
  omega

theorem index_u32 (routed : RoutedTo table rank copy) :
    u32 (indexOnRank table rank copy.group copy.expert copy.index) =
      indexOnRank table rank copy.group copy.expert copy.index :=
  u32_of_lt ((indexOnRank_lt routed).trans (table.tokensTo_lt _ _))

theorem dispatchOffset_own (routed : RoutedTo table rank copy) (own : copy.group = dpGroup cfg rank) :
    dispatchOffset table rank copy.group copy.expert copy.index = position table copy := by
  rw [dispatchOffset, if_pos own]
  exact u32_of_lt (position_bound routed.hosted routed.index)

theorem dispatchOffset_private (fit : cfg.SlotsFit) (routed : RoutedTo table rank copy)
    (foreign : copy.group ≠ dpGroup cfg rank)
    (fits : indexOnRank table rank copy.group copy.expert copy.index < cfg.maxPrivateTokens) :
    dispatchOffset table rank copy.group copy.expert copy.index =
        copy.group * cfg.maxPrivateTokens + indexOnRank table rank copy.group copy.expert
          copy.index ∧
      copy.group * cfg.maxPrivateTokens + indexOnRank table rank copy.group copy.expert copy.index <
        2 ^ 31 := by
  have slots : cfg.maxPrivateTokens * cfg.numDpGroups ≤ 2 ^ 31 := fit
  have room := @block_le cfg.maxPrivateTokens _ _ routed.known
  have bound : copy.group * cfg.maxPrivateTokens +
      indexOnRank table rank copy.group copy.expert copy.index < 2 ^ 31 := by
    omega
  refine ⟨?_, bound⟩
  simp only [dispatchOffset, if_neg foreign, index_u32 routed, if_pos fits, Nat.mul_comm cfg.maxPrivateTokens,
    u32_add_left]
  exact u32_of_lt (by omega)

theorem dispatchOffset_peer (routed : RoutedTo table rank copy)
    (foreign : copy.group ≠ dpGroup cfg rank)
    (near : copy.group / cfg.groupsPerNode = rank / cfg.nodeSize)
    (exceeds : cfg.maxPrivateTokens ≤ indexOnRank table rank copy.group copy.expert copy.index) :
    dispatchOffset table rank copy.group copy.expert copy.index =
      position table copy ||| 2 ^ 31 := by
  simp only [dispatchOffset, if_neg foreign, index_u32 routed, if_neg (Nat.not_lt.mpr exceeds), if_pos near,
    u32_add_left, indexOnRank_eq table routed.first]
  rw [u32_of_lt (position_bound routed.hosted routed.index)]

theorem dispatchOffset_overflow (small : table.TotalsFit) (fit : cfg.SlotsFit) (inside : rank < cfg.worldSize)
    (routed : RoutedTo table rank copy) (far : copy.group / cfg.groupsPerNode ≠ rank / cfg.nodeSize)
    (exceeds : cfg.maxPrivateTokens ≤ indexOnRank table rank copy.group copy.expert copy.index) :
    dispatchOffset table rank copy.group copy.expert copy.index =
      cfg.maxPrivateTokens * cfg.numDpGroups + table.received rank copy.group +
        (indexOnRank table rank copy.group copy.expert copy.index - cfg.maxPrivateTokens) := by
  have slots : cfg.maxPrivateTokens * cfg.numDpGroups ≤ 2 ^ 31 := fit
  have all := small.received rank inside
  have counted := received_indexOnRank routed
  have foreign : copy.group ≠ dpGroup cfg rank := fun own => far (by rw [own, dpGroup_node])
  have room : cfg.maxPrivateTokens * 1 ≤ cfg.maxPrivateTokens * cfg.numDpGroups :=
    Nat.mul_le_mul_left _ (zero_lt_of_lt routed.known)
  simp only [dispatchOffset, if_neg foreign, index_u32 routed, if_neg (Nat.not_lt.mpr exceeds), if_neg far,
    u32_add_left]
  generalize cfg.maxPrivateTokens * cfg.numDpGroups = base at slots room ⊢
  generalize indexOnRank table rank copy.group copy.expert copy.index = index at counted exceeds ⊢
  generalize table.received rank copy.group = start at counted ⊢
  have back : u32 (u32 base + 2 ^ 32 - u32 cfg.maxPrivateTokens) = base - cfg.maxPrivateTokens := by
    rw [u32_of_lt (show base < 2 ^ 32 by omega), u32_of_lt (show cfg.maxPrivateTokens < 2 ^ 32 by omega), u32]
    omega
  rw [back, u32_of_lt (by omega)]
  omega

end

variable {ν : Type} {content : Nat → Nat → Nat → ν}

/-- The slot read for a received copy holds what every rank of the sending group
put at that place of the expert. -/
theorem dispatchRecv_holds (run : DispatchRun cfg table content) (admissible : cfg.Admissible)
    (small : table.TotalsFit) (fit : cfg.SlotsFit) (inside : rank < cfg.worldSize) {t : Nat}
    {entry : RoutedToken} (listed : (routedTokens table rank)[t]? = some entry) {value : ν}
    (agree : ∀ peer, peer < cfg.worldSize → dpGroup cfg peer = entry.copy.group →
      content peer entry.copy.expert entry.copy.index = value) :
    ∃ buffer slot, dispatchRecvSource cfg rank (routingInfo table rank) t = some (buffer, slot) ∧
      Holds run.final cfg.dispatchTokenDim buffer slot value := by
  have member := List.mem_of_getElem? listed
  have routed : RoutedTo table rank entry.copy := (routedTokens_mem inside _).mp (List.mem_map_of_mem member)
  obtain ⟨earlier, described⟩ := entries_describe _ _ _ member
  have offset : entry.sourceDispatchOffset =
      dispatchOffset table rank entry.copy.group entry.copy.expert entry.copy.index := by
    rw [described]
    rfl
  have source : entry.sourceRank = sourceOf cfg rank entry.copy.group := by
    rw [described]
    exact u32_of_lt ((sourceOf_lt routed.known).trans_le cfg.world_le)
  have early := routedTokens_remote (admissible.first_le_last inside) inside listed
  have lookup : (routingInfo table rank).tokens[t]? = some entry := listed
  have own : sourceOf cfg rank entry.copy.group = rank ↔ entry.copy.group = dpGroup cfg rank := peer_eq_iff _
  simp only [dispatchRecvSource, lookup, Option.bind_eq_bind, Option.bind_some, offset, source, early, own]
  by_cases far : entry.copy.group / cfg.groupsPerNode ≠ rank / cfg.nodeSize
  · have foreign : entry.copy.group ≠ dpGroup cfg rank := fun own => far (by rw [own, dpGroup_node])
    refine ⟨_, _, if_pos far, ?_⟩
    by_cases fits : indexOnRank table rank entry.copy.group entry.copy.expert entry.copy.index < cfg.maxPrivateTokens
    · rw [(dispatchOffset_private fit routed foreign fits).1]
      exact private_holds run admissible inside routed foreign fits agree
    · rw [dispatchOffset_overflow small fit inside routed far (Nat.not_lt.mp fits),
        ← agree _ (sourceOf_lt routed.known) (sourceOf_group rank _)]
      exact overflow_holds run admissible inside routed far (Nat.not_lt.mp fits)
  rw [if_neg far]
  have near : entry.copy.group / cfg.groupsPerNode = rank / cfg.nodeSize := not_not.mp far
  by_cases mine : entry.copy.group = dpGroup cfg rank
  · refine ⟨_, _, if_pos mine, ?_⟩
    rw [dispatchOffset_own routed mine, ← agree rank inside mine.symm]
    intro byte bound
    rw [final_send run admissible]
    exact sent_holds run inside inside routed mine (fun near => near.2.1 rfl) byte bound
  rw [if_neg mine]
  by_cases fits : indexOnRank table rank entry.copy.group entry.copy.expert entry.copy.index < cfg.maxPrivateTokens
  · obtain ⟨slot, bound⟩ := dispatchOffset_private fit routed mine fits
    refine ⟨_, _, if_neg (by rw [slot, untagged bound]; simp), ?_⟩
    rw [slot]
    exact private_holds run admissible inside routed mine fits agree
  · have slot := dispatchOffset_peer routed mine near (Nat.not_lt.mp fits)
    have below : position table entry.copy < 2 ^ 31 :=
      (position_lt routed.hosted routed.index).trans (small.sent _ routed.known)
    have peer : nodePeer cfg rank (sourceOf cfg rank entry.copy.group % cfg.nodeSize) =
        sourceOf cfg rank entry.copy.group :=
      nodePeer_eq (by rw [sourceOf_node, near])
    refine ⟨_, _, if_pos (by rw [slot]; exact tagged _), ?_⟩
    rw [slot, tagged_slot below, peer, ← agree _ (sourceOf_lt routed.known) (sourceOf_group rank _)]
    intro byte bound
    rw [final_send run admissible]
    exact sent_holds run (sourceOf_lt routed.known) inside routed (sourceOf_group rank _).symm
      (fun near => fits near.2.2) byte bound

/-- The tokens of a dispatch are named by their group, expert and place in it. -/
def identity (cfg : Config) (rank expert j : Nat) : TokenCopy := ⟨dpGroup cfg rank, expert, j⟩

/-- What dispatch achieves on one rank: every slot `dispatch_recv` reads holds one
token, and the received indices run through the copies routed to the rank. -/
def Delivers (run : DispatchRun cfg table (identity cfg)) (rank : Nat) : Prop :=
  ∃ info copies, processRoutingInfo cfg rank table = some info ∧
    Set.BijOn copies (Set.Iio info.numRecvTokens) {copy | RoutedTo table rank copy} ∧
    ∀ t, t < info.numRecvTokens → ∃ buffer slot, dispatchRecvSource cfg rank info t = some (buffer, slot) ∧
      ∀ token, Holds run.final cfg.dispatchTokenDim buffer slot token ↔ token = copies t

private def copyAt (table : RoutingTable cfg) (rank t : Nat) : TokenCopy :=
  ((routedTokens table rank).map RoutedToken.copy).getD t ⟨0, 0, 0⟩

private theorem copyAt_eq {t : Nat} {entry : RoutedToken} (listed : (routedTokens table rank)[t]? = some entry) :
    copyAt table rank t = entry.copy := by
  simp [copyAt, listed]

private theorem copyAt_bijection (admissible : cfg.Admissible) (inside : rank < cfg.worldSize) :
    Set.BijOn (copyAt table rank) (Set.Iio (table.received rank cfg.numDpGroups))
      {copy | RoutedTo table rank copy} := by
  have size : ((routedTokens table rank).map RoutedToken.copy).length = table.received rank cfg.numDpGroups := by
    rw [List.length_map, routedTokens_length (admissible.first_le_last inside) inside]
  have read : ∀ t (bound : t < ((routedTokens table rank).map RoutedToken.copy).length),
      copyAt table rank t = ((routedTokens table rank).map RoutedToken.copy)[t] := by
    intro t bound
    exact List.getD_eq_getElem _ _ bound
  rw [← size]
  refine ⟨?_, ?_, ?_⟩
  · intro t bound
    rw [read t bound]
    exact (routedTokens_mem inside _).mp (List.getElem_mem _)
  · intro s first t second same
    rw [read s first, read t second] at same
    exact (routedTokens_nodup table inside).getElem_inj_iff.mp same
  · intro copy routed
    obtain ⟨t, bound, found⟩ := List.getElem_of_mem ((routedTokens_mem inside copy).mpr routed)
    exact ⟨t, bound, by rw [read t bound, found]⟩

/-- Dispatch delivers every routed copy to the slot from which it is read. -/
theorem dispatch_delivers (admissible : cfg.Admissible) (small : table.TotalsFit) (fit : cfg.SlotsFit)
    (run : DispatchRun cfg table (identity cfg)) {rank : Nat} (inside : rank < cfg.worldSize) : Delivers run rank := by
  refine ⟨routingInfo table rank, copyAt table rank, processRoutingInfo_eq table admissible inside,
    copyAt_bijection admissible inside, ?_⟩
  intro t bound
  have below : t < (routedTokens table rank).length := by
    rw [routedTokens_length (admissible.first_le_last inside) inside]
    exact bound
  have listed := List.getElem?_eq_getElem below
  have agree : ∀ peer, peer < cfg.worldSize → dpGroup cfg peer = (routedTokens table rank)[t].copy.group →
      identity cfg peer (routedTokens table rank)[t].copy.expert (routedTokens table rank)[t].copy.index =
        copyAt table rank t := by
    intro peer _ group
    rw [copyAt_eq listed, identity, group]
  obtain ⟨buffer, slot, source, held⟩ := dispatchRecv_holds run admissible small fit inside listed agree
  exact ⟨buffer, slot, source, fun token =>
    ⟨fun other => other.unique cfg.dispatchTokenDim_pos held, fun same => same ▸ held⟩⟩

/-- Two nodes of two ranks, four experts and one private slot for each group. -/
def twoNodes : Config := { Config.twoPairs with numExperts := 4 }

/-- Every group routes two copies to every expert. -/
def twoEach : RoutingTable twoNodes where
  numRouted _ _ := 2
  total_lt _ := by decide

theorem dispatch_delivers_twoEach :
    Delivers (runInOrder twoEach (identity twoNodes) (by decide) (fun _ _ => none)) 1 :=
  dispatch_delivers (by decide) ⟨by decide, by decide⟩ (by decide) _ (by decide)

/-- Two ranks of one node with a private part so large that the private slots of
the second group start at the tag bit. -/
def hugePrivate : Config := { Config.pair with maxPrivateTokens := 2 ^ 31 }

/-- The second group sends one copy to the first expert. -/
def oneCopy : RoutingTable hugePrivate where
  numRouted group expert := if group = 1 ∧ expert = 0 then 1 else 0
  total_lt group := by
    by_cases second : group = 1
    · subst second
      decide
    · simp [second]

/-- The copy was stored to a private slot over NVLink and is looked for in the
send buffer of the peer, which nobody wrote. -/
theorem dispatch_tag_collision : hugePrivate.Admissible ∧ oneCopy.TotalsFit ∧
    ¬ Delivers (runInOrder oneCopy (identity hugePrivate) (by decide) (fun _ _ => none)) 0 := by
  refine ⟨by decide, ⟨by decide, by decide⟩, ?_⟩
  rintro ⟨info, copies, routed, _, read⟩
  obtain rfl : info = (processRoutingInfo hugePrivate 0 oneCopy).get (by decide) := by simp [routed]
  obtain ⟨buffer, slot, source, held⟩ := read 0 (by decide)
  have tagged : dispatchRecvSource hugePrivate 0 ((processRoutingInfo hugePrivate 0 oneCopy).get (by decide)) 0 =
      some (.send 1, 0) := by decide
  rw [tagged, Option.some.injEq, Prod.mk.injEq] at source
  obtain ⟨rfl, rfl⟩ := source
  have unsent : (runInOrder oneCopy (identity hugePrivate) (by decide) (fun _ _ => none)).sends = [] := by decide
  have first := (held (copies 0)).mpr rfl 0 (by decide)
  rw [final_send _ (by decide), DispatchRun.sent, unsent] at first
  cases first

end PplxGarden.AllToAll.Proofs
