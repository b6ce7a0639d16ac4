import PplxGarden.AllToAll.Signals
import PplxGarden.Library.Strided
import Mathlib.Data.Fintype.Fin
import Mathlib.Algebra.BigOperators.Ring.Finset

/-! When a kernel raises its done flag exactly once, after its accesses. -/

namespace PplxGarden.AllToAll.Proofs
open Library Library.Grid Finset Nat

variable {launch : Launch}
variable {kernel : Kernel} {thread G T numTokens : Nat} {op : Op} {tokens : List Nat}
  {copies sendCopies : Nat → Nat} {boundM : Option Nat}

/-- The inputs for which the done flag works. A launch with a block for every token
needs a token; its variant for arbitrary token sizes adds a share without waiting for
the other threads of the block. The other launches need a token for every block. -/
def Timely (launch : Launch) : Kernel → Prop
  | .dispatchSend numTokens boundM sendCopies =>
    if numTokens ≤ launch.grid then
      0 < boundM.getD numTokens ∧ boundM.getD numTokens ≤ launch.grid ∧
        (launch.FixedDim ∨ launch.tokenDim ≤ 16 ∨ ∀ token < boundM.getD numTokens, sendCopies token = 0)
    else launch.grid = 1 ∨ launch.grid ≤ boundM.getD numTokens
  | .dispatchRecv _ numEfaTokens => launch.grid = 1 ∨ launch.grid ≤ numEfaTokens
  | .combineSend _ numEfaTokens _ _ => launch.grid ≤ numEfaTokens

theorem copyTokens_mem
    (member : op ∈ launch.copyTokens copies tokens thread) : op = .access := by
  obtain ⟨token, _, found⟩ := List.mem_flatMap.mp member
  exact List.eq_of_mem_replicate found

theorem copyTokens_skeleton (copies : Nat → Nat) (tokens : List Nat) (thread : Nat) :
    skeleton (launch.copyTokens copies tokens thread) = [] := by
  rw [skeleton, List.filter_eq_nil_iff]
  intro op member
  rw [copyTokens_mem member]
  decide

private theorem copyBatches_mem
    (member : op ∈ launch.copyBatches copies tokens thread) : op = .access ∨ op = .sync := by
  obtain ⟨batch, _, found⟩ := List.mem_flatMap.mp member
  simp only [List.mem_append, List.mem_singleton] at found
  rcases found with (first | copied) | last
  · exact .inr first
  · exact .inl (copyTokens_mem copied)
  · exact .inr last

private theorem copyBatches_skeleton (copies : Nat → Nat) (tokens : List Nat) (thread : Nat) :
    skeleton (launch.copyBatches copies tokens thread) = (tokens.toChunks 8).flatMap fun _ => [.sync, .sync] := by
  rw [Launch.copyBatches, skeleton, List.filter_flatMap]
  congr 1
  funext batch
  rw [← skeleton, skeleton_append, skeleton_append, copyTokens_skeleton]
  rfl

private theorem copyBatches_grid (copies : Nat → Nat) (tokens : List Nat) (thread : Nat) :
    (skeleton (launch.copyBatches copies tokens thread)).count .gridSync = 0 := by
  rw [List.count_eq_zero]
  intro member
  rcases copyBatches_mem (List.mem_filter.mp member).1 with impossible | impossible <;> cases impossible

theorem aligned_of_barriers {program : Fin G × Fin T → List Op} (barriers : Fin G → List Op) (meetings : Nat)
    (same : ∀ thread, skeleton (program thread) = barriers thread.1)
    (grid : ∀ thread, (skeleton (program thread)).count .gridSync = meetings) : Aligned program := by
  refine ⟨?_, ?_⟩
  · intro block first second
    rw [same, same]
  · intro first second
    rw [grid, grid]

theorem aligned_const (ops : List Op) : Aligned fun _ : Fin G × Fin T => ops := ⟨fun _ _ _ => rfl, fun _ _ => rfl⟩

private theorem aligned_copies (launch : Launch) (copies : Nat → Nat) (tokens : Fin G → List Nat) :
    Aligned fun thread : Fin G × Fin T => launch.copyTokens copies (tokens thread.1) thread.2 :=
  aligned_of_barriers (fun _ => []) 0 (fun _ => copyTokens_skeleton ..) (fun _ => by rw [copyTokens_skeleton]; rfl)

theorem aligned_batches (launch : Launch) (copies : Nat → Nat) (tokens : Fin G → List Nat) :
    Aligned fun thread : Fin G × Fin T => launch.copyBatches copies (tokens thread.1) thread.2 :=
  aligned_of_barriers (fun block => ((tokens block).toChunks 8).flatMap fun _ => [.sync, .sync]) 0
    (fun _ => copyBatches_skeleton ..) (fun _ => copyBatches_grid ..)

theorem early_aligned (kernel : Kernel) : Aligned (launch.early kernel) := by
  cases kernel with
  | dispatchSend numTokens boundM sendCopies =>
    by_cases quick : numTokens ≤ launch.grid
    · refine (aligned_const [.gridSync]).append (aligned_of_barriers (fun block =>
        if block.val < boundM.getD numTokens ∧ launch.FixedDim then [.sync] else []) 0 ?_ ?_)
      · intro thread
        by_cases busy : thread.1.val < boundM.getD numTokens
        · simp only [quick, busy, if_true, true_and, skeleton_append, copyTokens_skeleton, List.nil_append]
          split <;> rfl
        · simp only [quick, busy, if_true, if_false, false_and]
          rfl
      · intro thread
        by_cases busy : thread.1.val < boundM.getD numTokens
        · simp only [quick, busy, if_true, skeleton_append, copyTokens_skeleton, List.nil_append]
          split <;> rfl
        · simp only [quick, busy, if_true, if_false]
          rfl
    · refine (aligned_const [.gridSync]).append ?_
      simp only [if_neg quick]
      exact (aligned_copies launch sendCopies fun block =>
        blockTokens launch.grid (boundM.getD numTokens) block).append (aligned_const [.sync])
  | dispatchRecv numRecvTokens numEfaTokens =>
    have near := aligned_copies (T := numThreads) launch (fun _ => 1) fun block : Fin launch.grid =>
      blockTokens launch.grid (numRecvTokens - numEfaTokens) block
    have far := aligned_batches (T := numThreads) launch (fun _ => 1) fun block : Fin launch.grid =>
      blockTokens launch.grid numEfaTokens block
    exact ((((aligned_const [.sync, .sync]).append near).append
      (aligned_const launch.nodeSync)).append (aligned_const [.sync, .sync])).append far
  | combineSend numRecvTokens numEfaTokens far elected =>
    refine (Aligned.append ?_ (aligned_const [.sync, .sync])).append
      (aligned_batches launch (fun token => if far token then 1 else 0) fun block =>
        blockTokens launch.grid numEfaTokens block)
    refine aligned_of_barriers (fun _ => []) 0 ?_ ?_
    · intro thread
      split <;> rfl
    · intro thread
      split <;> rfl

theorem trail_aligned (kernel : Kernel) : Aligned (launch.trail kernel) := by
  cases kernel with
  | dispatchSend numTokens boundM sendCopies => exact aligned_const _
  | dispatchRecv numRecvTokens numEfaTokens => exact aligned_const _
  | combineSend numRecvTokens numEfaTokens far elected =>
    have near := aligned_batches (T := numThreads) launch (fun _ => 0) fun block : Fin launch.grid =>
      (blockTokens launch.grid numRecvTokens block).filter fun token => numEfaTokens ≤ token
    refine (((aligned_const [.sync, .sync, .gridSync]).append near).append (aligned_const [.gridSync])).append ?_
    refine aligned_of_barriers (fun _ => []) 0 ?_ ?_
    · intro thread
      split <;> rfl
    · intro thread
      split <;> rfl

theorem copyTokens_quiet :
    ∀ op ∈ launch.copyTokens copies tokens thread, op.isQuiet = true := fun op member => by
  rw [copyTokens_mem member]
  rfl

private theorem copyBatches_quiet :
    ∀ op ∈ launch.copyBatches copies tokens thread, op.isQuiet = true := fun op member => by
  rcases copyBatches_mem member with rfl | rfl <;> rfl

theorem nodeSync_mem (member : op ∈ launch.nodeSync) : op = .gridSync := by
  rw [Launch.nodeSync] at member
  split at member
  · exact List.mem_singleton.mp member
  · cases member

/-- Only `combine_send` raises its flag before the share, and only without tokens. -/
theorem early_mem {thread : Fin launch.grid × Fin numThreads}
    (member : op ∈ launch.early kernel thread) :
    op.isQuiet = true ∨ (op = .signal ∧
      ∃ numRecvTokens far elected, kernel = .combineSend numRecvTokens 0 far elected) := by
  cases kernel with
  | dispatchSend numTokens boundM sendCopies =>
    left
    rcases List.mem_append.mp member with first | rest
    · rw [List.mem_singleton.mp first]
      rfl
    · split at rest
      · split at rest
        · rcases List.mem_append.mp rest with copied | last
          · exact copyTokens_quiet op copied
          · split at last
            · rw [List.mem_singleton.mp last]
              rfl
            · cases last
        · cases rest
      · rcases List.mem_append.mp rest with copied | last
        · exact copyTokens_quiet op copied
        · rw [List.mem_singleton.mp last]
          rfl
  | dispatchRecv numRecvTokens numEfaTokens =>
    left
    simp only [Launch.early, List.mem_append, List.mem_cons, List.not_mem_nil, or_false] at member
    rcases member with ((((rfl | rfl) | copied) | meets) | rfl | rfl) | batches
    · rfl
    · rfl
    · exact copyTokens_quiet op copied
    · rw [nodeSync_mem meets]
      rfl
    · rfl
    · rfl
    · exact copyBatches_quiet op batches
  | combineSend numRecvTokens numEfaTokens far elected =>
    simp only [Launch.early, List.mem_append, List.mem_cons, List.not_mem_nil, or_false] at member
    rcases member with (first | rfl | rfl) | batches
    · split at first
      next alone => exact .inr ⟨List.mem_singleton.mp first, numRecvTokens, far, elected, by rw [alone.2]⟩
      next => cases first
    · exact .inl rfl
    · exact .inl rfl
    · exact .inl (copyBatches_quiet op batches)

private theorem copyBatches_none (member : op ∈ launch.copyBatches (fun _ => 0) tokens thread) :
    op = .sync := by
  obtain ⟨batch, _, found⟩ := List.mem_flatMap.mp member
  have empty : launch.copyTokens (fun _ => 0) batch thread = [] := by
    rw [Launch.copyTokens, List.flatMap_eq_nil_iff]
    intro token _
    rw [zero_mul]
    rfl
  simpa [empty] using found

theorem trail_late {thread : Fin launch.grid × Fin numThreads} {before after : List Op}
    (split : launch.trail kernel thread = before ++ .reset :: after) (other : Fin launch.grid × Fin numThreads) :
    (skeleton after).count .gridSync < (skeleton (launch.trail kernel other)).count .gridSync := by
  have member : Op.reset ∈ launch.trail kernel thread := by simp [split]
  cases kernel with
  | dispatchSend numTokens boundM sendCopies =>
    rcases List.mem_append.mp member with first | meets
    · split at first
      · cases List.mem_singleton.mp first
      · cases first
    · cases nodeSync_mem meets
  | dispatchRecv numRecvTokens numEfaTokens => cases member
  | combineSend numRecvTokens numEfaTokens far elected =>
    have absent : Op.reset ∉ [.sync, .sync, .gridSync] ++ launch.copyBatches (fun _ => 0)
        ((blockTokens launch.grid numRecvTokens thread.1).filter fun token => numEfaTokens ≤
          token) thread.2 ++ [.gridSync] := by
      intro found
      simp only [List.mem_append, List.mem_cons, List.not_mem_nil, or_false, reduceCtorEq, false_or] at found
      cases copyBatches_none found
    obtain ⟨ahead, last⟩ := split_later absent split
    have empty : after = [] := by
      split at last
      · cases ahead with
        | nil => exact (List.cons.inj last).2.symm
        | cons _ ahead => cases ahead <;> cases (List.cons.inj last).2
      · cases ahead <;> cases last
    rw [empty]
    have meets : Op.gridSync ∈ skeleton (launch.trail (.combineSend numRecvTokens numEfaTokens far elected) other) :=
      List.mem_filter.mpr ⟨by simp [Launch.trail], rfl⟩
    exact List.count_pos_iff.mpr meets

theorem trail_mem {thread : Fin launch.grid × Fin numThreads} (member : op ∈ launch.trail kernel thread) :
    op = .sync ∨ op = .gridSync ∨ op = .reset := by
  cases kernel with
  | dispatchSend numTokens boundM sendCopies =>
    rcases List.mem_append.mp member with first | meets
    · split at first
      · exact .inr (.inl (List.mem_singleton.mp first))
      · cases first
    · exact .inr (.inl (nodeSync_mem meets))
  | dispatchRecv numRecvTokens numEfaTokens => cases member
  | combineSend numRecvTokens numEfaTokens far elected =>
    simp only [Launch.trail, List.mem_append, List.mem_cons, List.not_mem_nil, or_false] at member
    rcases member with (((rfl | rfl | rfl) | batches) | rfl) | last
    · exact .inl rfl
    · exact .inl rfl
    · exact .inr (.inl rfl)
    · exact .inl (copyBatches_none batches)
    · exact .inr (.inl rfl)
    · split at last
      · exact .inr (.inr (List.mem_singleton.mp last))
      · cases last

private theorem resets_only (kernel : Kernel) : ∀ op ∈ kernel.resets, op = .resetIf := by
  intro op member
  cases kernel with
  | dispatchSend | dispatchRecv => exact List.mem_singleton.mp member
  | combineSend => cases member

theorem parts (quiet : ∀ thread, ∀ op ∈ launch.early kernel thread, op.isQuiet = true) :
    Parts (launch.early kernel) (launch.trail kernel) (launch.sharing kernel) kernel.resets where
  early_aligned := early_aligned kernel
  trail_aligned := trail_aligned kernel
  quiet := quiet
  closing _ _ := trail_mem
  only := resets_only kernel
  late _ _ _ split block _ := trail_late split (block, 0)

theorem blockTokens_sum (grid count : Nat) (positive : 0 < grid) :
    ∑ block : Fin grid, (blockTokens grid count block).length = count := by
  induction count with
  | zero => simp [blockTokens]
  | succ count ih =>
    have last : ∀ block : Fin grid, (blockTokens grid (count + 1) block).length =
        (blockTokens grid count block).length + if block = ⟨count % grid, mod_lt _ positive⟩ then 1 else 0 := by
      intro block
      rw [blockTokens, List.range_succ, List.filter_append, List.length_append]
      by_cases own : count % grid = block
      · simp [blockTokens, own]
      · have other : ¬ block = ⟨count % grid, mod_lt _ positive⟩ := fun same => own (by rw [same])
        simp [blockTokens, own, other]
    rw [sum_congr rfl fun block _ => last block, sum_add_distrib, ih, sum_ite_eq', if_pos (mem_univ _)]

theorem blockTokens_pos {grid count : Nat} {block : Fin grid} (busy : block.val < count) :
    0 < (blockTokens grid count block).length := by
  apply List.length_pos_of_mem (a := block.val)
  exact List.mem_filter.mpr ⟨List.mem_range.mpr busy, by simp [mod_eq_of_lt block.isLt]⟩

private theorem blockTokens_idle {grid count : Nat} {block : Fin grid} (idle : count ≤ block.val) :
    blockTokens grid count block = [] := by
  rw [blockTokens, List.filter_eq_nil_iff]
  intro token member
  have small := List.mem_range.mp member
  have inside := block.isLt
  rw [mod_eq_of_lt (by omega)]
  simpa using (by omega : token ≠ block.val)

private theorem vectors_other {tokenDim : Nat} (small : tokenDim ≤ 16) (other : thread ≠ 0) :
    vectors tokenDim thread = 0 := by
  rw [vectors, List.countP_eq_zero]
  intro i _ chosen
  obtain ⟨inside, own⟩ := of_decide_eq_true chosen
  obtain rfl : i = 0 := by omega
  exact other own.symm

private theorem vectors_second {tokenDim : Nat} (large : 16 < tokenDim) : 0 < vectors tokenDim 1 := by
  rw [vectors, List.countP_pos_iff]
  exact ⟨1, List.mem_range.mpr (by omega), decide_eq_true ⟨by omega, by decide⟩⟩

theorem copyBatches_last (copies : Nat → Nat) (tokens : List Nat) (thread : Nat) {ahead : List Op}
    (closed : ahead.getLast? = some .sync) :
    (ahead ++ launch.copyBatches copies tokens thread).getLast? = some .sync := by
  have ends : ∀ batches : List (List Nat), (ahead ++ batches.flatMap fun batch =>
      [Op.sync] ++ launch.copyTokens copies batch thread ++ [Op.sync]).getLast? = some Op.sync := by
    intro batches
    cases batches.eq_nil_or_concat with
    | inl none =>
      rw [none, List.flatMap_nil, List.append_nil]
      exact closed
    | inr some =>
      obtain ⟨front, last, rfl⟩ := some
      rw [List.concat_eq_append, List.flatMap_append, List.flatMap_singleton, ← List.append_assoc,
        ← List.append_assoc, List.getLast?_append]
      rfl
  exact ends _

private theorem covering_of_pos {target : Nat} {blocks : Finset (Fin G)} {amount : Fin G → Nat}
    (positive : ∀ block ∈ blocks, 0 < amount block)
    (total : ∑ block ∈ blocks, amount block = target) (part : Finset (Fin G))
    (inside : part ⊆ blocks) (full : ∑ block ∈ part, amount block = target) : part = blocks := by
  by_contra proper
  obtain ⟨block, listed, missing⟩ := exists_of_ssubset (inside.ssubset_of_ne proper)
  have less := sum_lt_sum_of_subset inside listed missing (positive block listed) fun _ _ _ => Nat.zero_le _
  omega

theorem access_early (timely : Timely launch kernel) {thread : Fin launch.grid × Fin numThreads}
    (member : Op.access ∈ launch.early kernel thread) :
    thread.1 ∈ launch.sharing kernel ∧ (thread.2 ≠ 0 → (launch.early kernel thread).getLast? = some .sync) := by
  cases kernel with
  | dispatchSend numTokens boundM sendCopies =>
    by_cases quick : numTokens ≤ launch.grid
    · rw [Timely, if_pos quick] at timely
      obtain ⟨_, _, safe⟩ := timely
      simp only [Launch.early, if_pos quick] at member ⊢
      by_cases busy : thread.1.val < boundM.getD numTokens
      · rw [if_pos busy] at member ⊢
        refine ⟨mem_filter.mpr ⟨mem_univ _, fun _ => busy⟩, fun other => ?_⟩
        by_cases fixed : launch.FixedDim
        · rw [if_pos fixed, ← List.append_assoc, List.getLast?_append]
          rfl
        · have copied : Op.access ∈ launch.copyTokens sendCopies [thread.1.val] thread.2 := by simpa [fixed] using member
          obtain ⟨token, listed, made⟩ := List.mem_flatMap.mp copied
          rw [List.mem_singleton.mp listed] at made
          have count := (List.mem_replicate.mp made).1
          rcases safe with special | small | none
          · exact absurd special fixed
          · rw [vectors_other small (by simpa using other), mul_zero] at count
            exact absurd rfl count
          · rw [none _ busy, zero_mul] at count
            exact absurd rfl count
      · simp [busy] at member
    · refine ⟨mem_filter.mpr ⟨mem_univ _, fun small => absurd small quick⟩, fun _ => ?_⟩
      simp only [Launch.early, if_neg quick]
      rw [← List.append_assoc, List.getLast?_append]
      rfl
  | dispatchRecv numRecvTokens numEfaTokens =>
    refine ⟨mem_univ _, fun _ => copyBatches_last _ _ _ ?_⟩
    rw [List.getLast?_append]
    rfl
  | combineSend numRecvTokens numEfaTokens far elected =>
    refine ⟨mem_univ _, fun _ => copyBatches_last _ _ _ ?_⟩
    rw [List.getLast?_append]
    rfl

theorem share_sum (launch : Launch) (kernel : Kernel) :
    ∑ block ∈ launch.sharing kernel, launch.share kernel block =
      match kernel with
      | .dispatchSend numTokens boundM _ =>
        if numTokens ≤ launch.grid then min launch.grid (boundM.getD numTokens) else boundM.getD numTokens
      | .dispatchRecv _ numEfaTokens => numEfaTokens
      | .combineSend _ numEfaTokens _ _ => numEfaTokens := by
  cases kernel with
  | dispatchSend numTokens boundM sendCopies =>
    by_cases quick : numTokens ≤ launch.grid
    · simp only [Launch.sharing, Launch.share, quick, if_true, true_implies, sum_const,
        Fin.card_filter_val_lt, nsmul_eq_mul,
        Nat.mul_one, cast_id]
    · simp only [Launch.sharing, Launch.share, quick, if_false, false_implies, filter_true]
      exact blockTokens_sum _ _ launch.grid_pos
  | dispatchRecv numRecvTokens numEfaTokens => exact blockTokens_sum _ _ launch.grid_pos
  | combineSend numRecvTokens numEfaTokens far elected => exact blockTokens_sum _ _ launch.grid_pos

private theorem quick_total (quick : numTokens ≤ launch.grid)
    (few : boundM.getD numTokens ≤ launch.grid) :
    ∑ block ∈ launch.sharing (.dispatchSend numTokens boundM sendCopies),
      launch.share (.dispatchSend numTokens boundM sendCopies) block =
      boundM.getD numTokens := by
  rw [share_sum]
  simp only [if_pos quick, min_eq_right few]

private theorem share_total (timely : Timely launch kernel) :
    ∑ block ∈ launch.sharing kernel, launch.share kernel block = kernel.count := by
  cases kernel with
  | dispatchSend numTokens boundM sendCopies =>
    by_cases quick : numTokens ≤ launch.grid
    · rw [Timely, if_pos quick] at timely
      exact quick_total quick timely.2.1
    · exact (share_sum ..).trans (if_neg quick)
  | dispatchRecv numRecvTokens numEfaTokens => exact share_sum ..
  | combineSend numRecvTokens numEfaTokens far elected => exact share_sum ..

instance : NeZero launch.grid := ⟨launch.grid_pos.ne'⟩

section
variable (timely : Timely launch kernel)
include timely

private theorem share_pos (several : launch.grid ≠ 1) {block : Fin launch.grid} :
    0 < launch.share kernel block := by
  have inside := block.isLt
  cases kernel with
  | dispatchSend numTokens boundM sendCopies =>
    rw [Launch.share]
    split
    next => exact Nat.one_pos
    next wide =>
      rw [Timely, if_neg wide] at timely
      exact blockTokens_pos (by omega)
  | dispatchRecv numRecvTokens numEfaTokens =>
    rw [Timely] at timely
    exact blockTokens_pos (by omega)
  | combineSend numRecvTokens numEfaTokens far elected =>
    rw [Timely] at timely
    exact blockTokens_pos (by omega)

private theorem sharing_nonempty : (launch.sharing kernel).Nonempty := by
  cases kernel with
  | dispatchSend numTokens boundM sendCopies =>
    refine ⟨0, mem_filter.mpr ⟨mem_univ _, fun quick => ?_⟩⟩
    rw [Timely, if_pos quick] at timely
    simpa using timely.1
  | dispatchRecv numRecvTokens numEfaTokens => exact univ_nonempty
  | combineSend numRecvTokens numEfaTokens far elected => exact univ_nonempty

private theorem early_quiet (thread : Fin launch.grid × Fin numThreads) :
    ∀ op ∈ launch.early kernel thread, op.isQuiet = true := by
  intro op member
  rcases early_mem member with quiet | ⟨_, _, _, _, rfl⟩
  · exact quiet
  · exact absurd launch.grid_pos (Nat.not_lt.mpr timely)

theorem signals_of_timely : SignalsOnce kernel.count (launch.program kernel) := by
  have cut := parts (early_quiet timely)
  refine cut.shape.signalsOnce (cut.guarded fun _ => access_early timely) ?_ (sharing_nonempty timely) (share_total timely)
  intro part inside some full
  by_cases single : launch.grid = 1
  · have alone : ∀ first second : Fin launch.grid, first = second := fun first second => by
      have one := first.isLt
      have two := second.isLt
      exact Fin.ext (by omega)
    obtain ⟨block, listed⟩ := some
    refine Subset.antisymm inside fun other _ => ?_
    rw [alone other block]
    exact listed
  · exact covering_of_pos (fun _ _ => share_pos timely single) (share_total timely) part inside full

end

def closing (launch : Launch) (kernel : Kernel) (thread : Fin launch.grid × Fin numThreads) : List Op :=
  shareOf (launch.sharing kernel) (launch.share kernel) kernel.resets thread ++ launch.trail kernel thread

theorem closing_first {block : Fin launch.grid} (listed : block ∈ launch.sharing kernel) :
    ∃ rest, closing launch kernel (block, 0) = .add (launch.share kernel block) :: .signalIf :: rest := by
  refine ⟨kernel.resets ++ launch.trail kernel (block, 0), ?_⟩
  simp [closing, shareOf, listed]

private theorem early_neutral (thread : Fin launch.grid × Fin numThreads) :
    ∀ op ∈ launch.early kernel thread, op.isQuiet = true ∨ op = .signal :=
  fun _ member => (early_mem member).imp_right And.left

theorem idle_block_signals (kernel : Kernel) (everywhere : launch.sharing kernel = univ)
    (shares : ∀ block, launch.share kernel block =
      (blockTokens launch.grid kernel.count block).length) (several : launch.grid ≠ 1)
    (idle : kernel.count < launch.grid) : ¬ SignalsOnce kernel.count (launch.program kernel) := by
  have positive := launch.grid_pos
  have listed : ∀ block, block ∈ launch.sharing kernel := fun block => everywhere ▸ mem_univ block
  have empty : ∀ block : Fin launch.grid, kernel.count ≤ block.val → launch.share kernel block = 0 := by
    intro block beyond
    rw [shares, blockTokens_idle beyond, List.length_nil]
  let busy : Finset (Fin launch.grid) := insert 0 (univ.filter fun block => block.val < kernel.count)
  have total : ∑ block ∈ busy, launch.share kernel block = kernel.count := by
    rw [sum_subset (subset_univ busy)]
    · rw [sum_congr rfl fun block _ => shares block]
      exact blockTokens_sum _ _ positive
    · intro block _ outside
      have beyond : ¬ block.val < kernel.count := fun small =>
        outside (mem_insert_of_mem (mem_filter.mpr ⟨mem_univ _, small⟩))
      exact empty block (by omega)
  have last : launch.grid - 1 < launch.grid := by omega
  have beyond : (⟨launch.grid - 1, last⟩ : Fin launch.grid) ∉ busy := by
    intro member
    rcases mem_insert.mp member with first | small
    · have zero : launch.grid - 1 = 0 := congrArg Fin.val first
      omega
    · have below : launch.grid - 1 < kernel.count := (mem_filter.mp small).2
      omega
  refine raised_again (early_aligned kernel) early_neutral ⟨0, mem_insert_self _ _⟩
    (fun block _ => closing_first (listed block)) total beyond ?_
  obtain ⟨rest, share⟩ := closing_first (listed ⟨launch.grid - 1, last⟩)
  rw [empty ⟨launch.grid - 1, last⟩ (show kernel.count ≤ launch.grid - 1 by omega)] at share
  exact ⟨rest, share⟩

theorem combineSend_raises_twice (launch : Launch) (numRecvTokens : Nat) (far : Nat → Bool) (elected : Fin 32) :
    ∃ state, Reachable 0 (launch.program (.combineSend numRecvTokens 0 far elected)) state ∧ 1 < state.signals := by
  have share : ∑ block ∈ ({0} : Finset (Fin launch.grid)),
      launch.share (.combineSend numRecvTokens 0 far elected) block = 0 := by
    simp [Launch.share, blockTokens]
  have shares : ∀ block ∈ ({0} : Finset (Fin launch.grid)), ∃ rest,
    closing launch (.combineSend numRecvTokens 0 far elected) (block, 0) =
      .add (launch.share (.combineSend numRecvTokens 0 far elected) block) :: .signalIf :: rest :=
    fun block _ => closing_first (mem_univ block)
  obtain ⟨state, reachable, _, _, again, _⟩ :=
    raised_by (early_aligned _) early_neutral (singleton_nonempty 0) shares share
  exact ⟨state, reachable, again (0, ⟨elected.val, elected.isLt.trans (by decide)⟩) (by simp [Launch.early])⟩

/-- The quick launch never raises its flag without tokens or with too many. -/
theorem quick_silent (quick : numTokens ≤ launch.grid)
    (odd : boundM.getD numTokens = 0 ∨ launch.grid < boundM.getD numTokens) :
    ¬ SignalsOnce (boundM.getD numTokens) (launch.program (.dispatchSend numTokens boundM sendCopies)) := by
  have quiet : ∀ thread, ∀ op ∈ launch.early (.dispatchSend numTokens boundM sendCopies) thread, op.isQuiet = true := by
    intro thread op member
    rcases early_mem member with quiet | ⟨_, _, _, _, impossible⟩
    · exact quiet
    · cases impossible
  have counted : ∀ part : Finset (Fin launch.grid),
      ∑ block ∈ part, launch.share (.dispatchSend numTokens boundM sendCopies) block = part.card := by
    intro part
    simp [Launch.share, quick]
  have few : ∀ part : Finset (Fin launch.grid), part.card ≤ launch.grid := fun part => by
    simpa using card_le_univ part
  refine (parts quiet).shape.silent ?_ ?_
  · intro part _ some full
    rw [counted] at full
    have positive := some.card_pos
    have bound := few part
    omega
  · cases odd with
    | inl none =>
      left
      simp [Launch.sharing, quick, none]
    | inr many =>
      right
      rw [counted]
      have bound := few (launch.sharing (.dispatchSend numTokens boundM sendCopies))
      omega

/-- The quick launch for arbitrary token sizes raises its flag while other threads of
the block still store. -/
theorem quick_early (quick : numTokens ≤ launch.grid) (some : 0 < boundM.getD numTokens)
    (few : boundM.getD numTokens ≤ launch.grid) (general : ¬ launch.FixedDim)
    (large : 16 < launch.tokenDim) {token : Nat} (sent : token < boundM.getD numTokens)
    (stored : sendCopies token ≠ 0) :
    ¬ SignalsOnce (boundM.getD numTokens)
      (launch.program (.dispatchSend numTokens boundM sendCopies)) := by
  intro once
  -- The first threads run ahead; all others stop at their first store.
  let copies (thread : Fin launch.grid × Fin numThreads) : List Op :=
    if thread.1.val < boundM.getD numTokens then launch.copyTokens sendCopies [thread.1.val] thread.2 else []
  let ahead (thread : Fin launch.grid × Fin numThreads) : List Op :=
    [.gridSync] ++ if thread.2 = 0 then copies thread else []
  let later (thread : Fin launch.grid × Fin numThreads) : List Op :=
    (if thread.2 = 0 then [] else copies thread) ++ closing launch (.dispatchSend numTokens boundM sendCopies) thread
  have split : (fun thread => ahead thread ++ later thread) =
      launch.program (.dispatchSend numTokens boundM sendCopies) := by
    funext thread
    simp only [ahead, later, copies, Launch.program, Launch.early, closing, if_pos quick, if_neg general, List.append_nil]
    split <;> simp
  have copied : ∀ thread, ∀ op ∈ copies thread, op = .access := by
    intro thread op member
    simp only [copies] at member
    split at member
    · exact copyTokens_mem member
    · cases member
  have aligned : Aligned ahead := by
    refine (aligned_const [.gridSync]).append (aligned_of_barriers (fun _ => []) 0 ?_ ?_)
    all_goals
      intro thread
      have flat : skeleton (if thread.2 = 0 then copies thread else []) = [] := by
        rw [skeleton, List.filter_eq_nil_iff]
        intro op member
        split at member
        · rw [copied thread op member]
          decide
        · cases member
      rw [flat]
      try rfl
  have neutral : ∀ thread, ∀ op ∈ ahead thread, op.isQuiet = true ∨ op = .signal := by
    intro thread op member
    left
    rcases List.mem_append.mp member with first | rest
    · rw [List.mem_singleton.mp first]
      rfl
    · split at rest
      · rw [copied thread op rest]
        rfl
      · cases rest
  have shares : ∀ block ∈ launch.sharing (.dispatchSend numTokens boundM sendCopies), ∃ rest, later (block, 0) =
      .add (launch.share (.dispatchSend numTokens boundM sendCopies) block) :: .signalIf :: rest :=
    fun block listed => closing_first listed
  have listed : (⟨0, launch.grid_pos⟩ : Fin launch.grid) ∈ launch.sharing (.dispatchSend numTokens boundM sendCopies) :=
    mem_filter.mpr ⟨mem_univ _, fun _ => some⟩
  obtain ⟨state, reachable, _, raised, _, kept⟩ := raised_by aligned neutral ⟨_, listed⟩ shares (quick_total quick few)
  rw [split] at reachable
  have second : (1 : Fin numThreads) ≠ 0 := by decide
  refine once.afterwards state reachable raised (⟨token, sent.trans_le few⟩, 1) ?_
  rw [kept _ fun first => absurd first second]
  refine List.mem_append_left _ ?_
  have made : 0 < sendCopies token * vectors launch.tokenDim 1 :=
    Nat.mul_pos (Nat.pos_of_ne_zero stored) (vectors_second large)
  simp only [copies, Launch.copyTokens, if_pos sent, if_neg second]
  exact List.mem_flatMap.mpr ⟨token, List.mem_singleton.mpr rfl, List.mem_replicate.mpr ⟨made.ne', rfl⟩⟩

/-! The kernels count tokens and vectors in 32 bits. -/

def loopBounds : Kernel → List Nat
  | .dispatchSend numTokens boundM _ => [boundM.getD numTokens]
  | .dispatchRecv numRecvTokens numEfaTokens => [numRecvTokens, numEfaTokens]
  | .combineSend numRecvTokens numEfaTokens _ _ => [numRecvTokens, numEfaTokens]

/-- The launches whose numbers leave room for one more step of every loop. -/
structure Fits (launch : Launch) (kernel : Kernel) : Prop where
  tokens : ∀ count ∈ loopBounds kernel, count + launch.grid ≤ 2 ^ 32
  vectors : (launch.tokenDim + 15) / 16 + numThreads ≤ 2 ^ 32

/-- Nothing wraps: the loops end and visit the tokens and vectors of the model, and the
shared counter stays below `2 ^ 32` in every interleaving. -/
structure Unwrapped (launch : Launch) (kernel : Kernel) : Prop where
  tokens : ∀ count ∈ loopBounds kernel, ∀ block : Fin launch.grid,
    ∃ fuel, strided (2 ^ 32) count launch.grid fuel block = some (blockTokens launch.grid count block)
  vectors : ∀ thread < numThreads, ∃ fuel visited,
    strided (2 ^ 32) ((launch.tokenDim + 15) / 16) numThreads fuel thread = some visited ∧
      visited.length = vectors launch.tokenDim thread
  counter : ∀ state, Reachable kernel.count (launch.program kernel) state → state.counter < 2 ^ 32

private theorem vectors_places (tokenDim : Nat) (own : thread < numThreads) :
    (places ((tokenDim + 15) / 16) numThreads thread).length = vectors tokenDim thread := by
  have more : (tokenDim + 15) / 16 ≤ tokenDim := by omega
  rw [places_eq_filter own, vectors, List.countP_eq_length_filter]
  apply List.Perm.length_eq
  apply (List.perm_ext_iff_of_nodup (List.nodup_range.filter _) (List.nodup_range.filter _)).mpr
  intro i
  simp only [List.mem_filter, List.mem_range, decide_eq_true_iff]
  omega

private theorem program_unadded (launch : Launch) (kernel : Kernel) :
    ∑ thread, unadded (launch.program kernel thread) ≤ kernel.count := by
  have early : ∀ thread, unadded (launch.early kernel thread) = 0 := by
    intro thread
    apply unadded_eq_zero
    intro op member
    cases early_mem member with
    | inl quiet => cases op <;> first | rfl | cases quiet
    | inr signal => rw [signal.1]; rfl
  have trail : ∀ thread, unadded (launch.trail kernel thread) = 0 := by
    intro thread
    apply unadded_eq_zero
    intro op member
    rcases trail_mem member with rfl | rfl | rfl <;> rfl
  simp only [Launch.program, unadded_append, early, trail, Nat.zero_add, Nat.add_zero]
  rw [shareOf_unadded (resets_only kernel), share_sum]
  cases kernel with
  | dispatchSend numTokens boundM sendCopies =>
    simp only [Kernel.count]
    split
    · exact min_le_right _ _
    · exact Nat.le_refl _
  | dispatchRecv numRecvTokens numEfaTokens => exact Nat.le_refl _
  | combineSend numRecvTokens numEfaTokens far elected => exact Nat.le_refl _

theorem Fits.unwrapped (fits : Fits launch kernel) : Unwrapped launch kernel where
  tokens count listed block := by
    refine ⟨count + 1, ?_⟩
    rw [strided_eq launch.grid_pos (fits.tokens count listed) (by omega), places_eq_filter block.isLt]
    rfl
  vectors thread own := by
    refine ⟨_, _, strided_eq (by decide) fits.vectors (lt_succ_self _), vectors_places launch.tokenDim own⟩
  counter state reachable := by
    have listed : kernel.count ∈ loopBounds kernel := by
      cases kernel with
      | dispatchSend numTokens boundM sendCopies => exact List.mem_singleton_self _
      | dispatchRecv numRecvTokens numEfaTokens => exact List.mem_cons_of_mem _ (List.mem_singleton_self _)
      | combineSend numRecvTokens numEfaTokens far elected => exact List.mem_cons_of_mem _ (List.mem_singleton_self _)
    have room := fits.tokens kernel.count listed
    have some_ := launch.grid_pos
    have below := (Nat.le_add_right _ _).trans ((counter_le reachable).trans (program_unadded launch kernel))
    omega

/-- A kernel raises its done flag exactly once and after its accesses, in every
interleaving, exactly for the inputs above. Tokens and vectors are natural numbers, which is
what the kernel computes with as long as the launch fits. -/
theorem signalsOnce_iff_timely (launch : Launch) (kernel : Kernel) :
    SignalsOnce kernel.count (launch.program kernel) ↔ Timely launch kernel := by
  refine ⟨?_, signals_of_timely⟩
  intro once
  by_contra late
  cases kernel with
  | dispatchSend numTokens boundM sendCopies =>
    rw [Timely] at late
    split at late
    next quick =>
      by_cases odd : boundM.getD numTokens = 0 ∨ launch.grid < boundM.getD numTokens
      · exact quick_silent quick odd once
      · push Not at late odd
        obtain ⟨general, large, token, sent, stored⟩ := late (by omega) odd.2
        exact quick_early quick (by omega) odd.2 general large sent stored once
    next wide =>
      push Not at late
      refine idle_block_signals (.dispatchSend numTokens boundM sendCopies) ?_ ?_ late.1 late.2 once
      · simp [Launch.sharing, wide]
      · intro block
        simp [Launch.share, wide, Kernel.count]
  | dispatchRecv numRecvTokens numEfaTokens =>
    rw [Timely] at late
    push Not at late
    exact idle_block_signals (.dispatchRecv numRecvTokens numEfaTokens) rfl (fun _ => rfl) late.1 late.2 once
  | combineSend numRecvTokens numEfaTokens far elected =>
    rw [Timely, Nat.not_le] at late
    by_cases none : numEfaTokens = 0
    · subst none
      obtain ⟨state, reachable, twice⟩ := combineSend_raises_twice launch numRecvTokens far elected
      exact Nat.not_le.mpr twice (once.once state reachable)
    · exact idle_block_signals (.combineSend numRecvTokens numEfaTokens far elected) rfl (fun _ => rfl) (by omega) late once

def oneBlock : Launch where
  grid := 1
  nodeSize := 2
  tokenDim := 4096
  grid_pos := Nat.one_pos

/-- With all tokens on the node there is nothing to send, and the flag is raised at
the head of the kernel and again at its share. -/
theorem combineSend_flags_twice :
    (∃ state, Reachable 0 (oneBlock.program (.combineSend 1 0 (fun _ => false) 0)) state ∧ 1 < state.signals) ∧
      ¬ SignalsOnce 0 (oneBlock.program (.combineSend 1 0 (fun _ => false) 0)) := by
  obtain ⟨state, reachable, twice⟩ := combineSend_raises_twice oneBlock 1 (fun _ => false) 0
  exact ⟨⟨state, reachable, twice⟩, fun once => Nat.not_le.mpr twice (once.once state reachable)⟩

end PplxGarden.AllToAll.Proofs
