import PplxGarden.AllToAll.Stages
import PplxGarden.Proofs.RoutingTotals

/-! The staged loops take every token once and with its own table entries, and the
positions that `combine_recv` reads are those it stored. -/

namespace PplxGarden.AllToAll.Proofs
open Library List Nat
variable {block i : Nat}

/-- A block handled its tokens between two bounds, each once and with its own entry. -/
structure TakenOnce {α : Type} (grid first last block : Nat) (table : Nat → α) (handled : List (Nat × α)) : Prop where
  own : ∀ token stage, (token, stage) ∈ handled → first ≤ token ∧ token < last ∧ token % grid = block ∧ stage = table token
  once : ∀ token, first ≤ token → token < last → token % grid = block → (handled.map Prod.fst).count token = 1

/-- The slots of `combine_recv`: what a block reads for a token and a route was stored for
them, by nobody else, and inside the allocation. -/
structure PositionsRead (grid numTokens numSendTokens numExpertsPerToken block : Nat)
    (stores : List (List PositionStore)) (tokens : List Nat) : Prop where
  stored : ∀ slot token k, (slot, token, k) ∈ positionReads numExpertsPerToken tokens →
    ⟨slot, token, k, token * numExpertsPerToken + k⟩ ∈ stores.flatten
  sole : ∀ slot token k, (slot, token, k) ∈ positionReads numExpertsPerToken tokens →
    ∀ store ∈ stores.flatten, store.slot = slot → store.token = token ∧ store.route = k
  allocated : ∀ slot token k, (slot, token, k) ∈ positionReads numExpertsPerToken tokens →
    slot < ceilDiv numTokens grid * numExpertsPerToken
  tokens : ∀ token, token ∈ tokens ↔ token < numSendTokens ∧ token % grid = block

/-- All three loops do for every block what they are for. -/
structure StagedLoops (grid numRecvTokens numEfaTokens numTokens numSendTokens numExpertsPerToken : Nat)
    (sourceOffset paddedIndex combineSendOffset sourceRank : Nat → Nat) : Prop where
  dispatchRecv : ∀ block, block < grid → ∀ shared, ∃ fuel handled,
    dispatchRecvBlock grid numEfaTokens block fuel sourceOffset paddedIndex shared = some handled ∧
      TakenOnce grid 0 numEfaTokens block (fun token => ⟨sourceOffset token, paddedIndex token⟩) handled
  combineSend : ∀ block, block < grid → ∀ shared, ∃ fuel first second,
    combineSendBlock grid numEfaTokens block fuel numRecvTokens combineSendOffset paddedIndex
      sourceRank shared = some (first, second) ∧
      TakenOnce grid 0 numEfaTokens block (fun token => ⟨combineSendOffset token, paddedIndex token,
        sourceRank token⟩) first ∧
      TakenOnce grid numEfaTokens numRecvTokens block (fun token =>
        ⟨combineSendOffset token, paddedIndex token, sourceRank token⟩) second
  combineRecv : ∀ block, block < grid → ∃ fuel stores tokens,
    positionStores grid numSendTokens numExpertsPerToken block fuel = some stores ∧
      combinedTokens grid numSendTokens block fuel = some tokens ∧
      PositionsRead grid numTokens numSendTokens numExpertsPerToken block stores tokens

theorem staged : 0 < numStages := by decide

section
variable {α : Type} {grid : Nat} {table : Nat → α}

theorem takenOnce_places (positive : 0 < grid) {first last start : Nat} (lower : first ≤ start)
    (same : start % grid = block)
    (least : ∀ token, first ≤ token → token % grid = block → start ≤ token) :
    TakenOnce grid first last block table ((places last grid start).map fun token =>
      (token, table token)) := by
  constructor
  · intro token stage member
    obtain ⟨_, listed, taken⟩ := mem_map.mp member
    cases taken
    obtain ⟨later, inside, class'⟩ := (places_mem positive).mp listed
    exact ⟨lower.trans later, inside, class'.trans same, rfl⟩
  · intro token above below class'
    rw [map_map]
    simp only [Function.comp_def, map_id']
    apply count_eq_one_of_mem (places_nodup positive start)
    exact (places_mem positive).mpr ⟨least token above class', below, class'.trans same.symm⟩

private theorem takenOnce_block {last : Nat} (known : block < grid) :
    TakenOnce grid 0 last block table ((places last grid block).map fun token => (token, table token)) := by
  apply takenOnce_places (zero_lt_of_lt known) (Nat.zero_le _) (mod_eq_of_lt known)
  intro token _ own
  exact own ▸ mod_le _ _

end

theorem dispatchRecv_once {grid numEfaTokens : Nat} (known : block < grid) (room : numEfaTokens + grid ≤ 2 ^ 32)
    (sourceOffset paddedIndex : Nat → Nat) (shared : Nat → RecvStage) : ∃ fuel handled,
      dispatchRecvBlock grid numEfaTokens block fuel sourceOffset paddedIndex shared = some handled ∧
        TakenOnce grid 0 numEfaTokens block (fun token => ⟨sourceOffset token, paddedIndex token⟩) handled := by
  have positive : 0 < grid := zero_lt_of_lt known
  obtain ⟨final, ended, handled, _⟩ := primed_eq (drain_drains positive) positive staged (Nat.le_refl _) room
    (fun token => ⟨sourceOffset token, paddedIndex token⟩) block shared (lt_succ_self numEfaTokens)
  refine ⟨_, final.handled, by rw [dispatchRecvBlock, ended]; rfl, ?_⟩
  rw [handled]
  exact takenOnce_block known

/-- The first loop of `combine_send` leaves the token at the block's first one from
`num_efa_tokens` on, where the second loop starts. -/
theorem combineSend_once {grid numRecvTokens numEfaTokens : Nat} (known : block < grid)
    (efa : numEfaTokens ≤ numRecvTokens) (room : numRecvTokens + grid ≤ 2 ^ 32)
    (combineSendOffset paddedIndex sourceRank : Nat → Nat) (shared : Nat → SendStage) :
    ∃ fuel first second,
        combineSendBlock grid numEfaTokens block fuel numRecvTokens combineSendOffset paddedIndex
          sourceRank shared = some (first, second) ∧
          TakenOnce grid 0 numEfaTokens block (fun token =>
            ⟨combineSendOffset token, paddedIndex token, sourceRank token⟩) first ∧
          TakenOnce grid numEfaTokens numRecvTokens block (fun token =>
            ⟨combineSendOffset token, paddedIndex token, sourceRank token⟩) second := by
  have positive : 0 < grid := zero_lt_of_lt known
  let table := fun token => (⟨combineSendOffset token, paddedIndex token, sourceRank token⟩ : SendStage)
  obtain ⟨first, ended, handled, item⟩ :=
    primed_eq (ahead_drains positive) positive staged efa (show numEfaTokens + grid ≤
    2 ^ 32 by omega)
    table block shared (lt_succ_of_le efa)
  obtain ⟨second, ended', handled', _⟩ := primed_eq (ahead_drains positive) positive staged (Nat.le_refl _) room
    table first.item first.shared (lt_succ_self numRecvTokens)
  have same : first.item % grid = block := by rw [item, add_mul_mod_self_left, mod_eq_of_lt known]
  obtain ⟨reached, near⟩ := places_end positive numEfaTokens block
  refine ⟨numRecvTokens + 1, first.handled, second.handled, ?_, ?_, ?_⟩
  · exact (congrArg (Option.bind · _) ended).trans
      (congrArg (Option.bind · fun (second : Pipeline SendStage) =>
      some (first.handled, second.handled)) ended')
  · rw [handled]
    exact takenOnce_block known
  · rw [handled']
    apply takenOnce_places positive (item ▸ reached) same
    intro token above own
    have split := div_add_mod token grid
    have earlier : grid * (places numEfaTokens grid block).length < grid * (token / grid + 1) := by
      rw [mul_succ]
      rcases near with none | near
      · rw [none]
        omega
      · omega
    have turns := Nat.mul_le_mul_left grid (le_of_lt_succ (Nat.lt_of_mul_lt_mul_left earlier))
    omega

section
variable {grid numSendTokens numExpertsPerToken block : Nat}

def positionStore (grid numExpertsPerToken block i : Nat) : PositionStore :=
  let token := block + grid * (i / numExpertsPerToken)
  { slot := i, token, route := i % numExpertsPerToken, globalSlot := token * numExpertsPerToken + i % numExpertsPerToken }

def blockPositions (grid numSendTokens numExpertsPerToken block : Nat) : Nat :=
  (places numSendTokens grid block).length * numExpertsPerToken

private theorem token_stored_iff (positive : 0 < grid) (routed : 0 < numExpertsPerToken) :
    block + grid * (i / numExpertsPerToken) < numSendTokens ↔
      i < blockPositions grid numSendTokens numExpertsPerToken block := by
  rw [← place_lt_iff positive, blockPositions, Nat.div_lt_iff_lt_mul routed]

private theorem blockPositions_le (positive : 0 < grid) :
    blockPositions grid numSendTokens numExpertsPerToken block ≤
      numSendTokens * numExpertsPerToken := by
  apply Nat.mul_le_mul_right
  by_contra more
  have inside := (place_lt_iff positive).mp (Nat.lt_of_not_le more)
  have turns := Nat.le_mul_of_pos_left numSendTokens positive
  omega

theorem token_fits (known : block < grid) (routed : 0 < numExpertsPerToken)
    (room : numSendTokens + numThreads * grid ≤ 2 ^ 32)
    (near : i < blockPositions grid numSendTokens numExpertsPerToken block + numThreads) :
    block + grid * (i / numExpertsPerToken) < 2 ^ 32 := by
  have positive : 0 < grid := zero_lt_of_lt known
  have threads := Nat.le_mul_of_pos_right numThreads routed
  have turn : i / numExpertsPerToken < (places numSendTokens grid block).length + numThreads := by
    rw [Nat.div_lt_iff_lt_mul routed, Nat.add_mul]
    exact near.trans_le (Nat.add_le_add_left threads _)
  have turns := Nat.mul_le_mul_left grid (succ_le_of_lt turn)
  rw [mul_succ, Nat.mul_add, Nat.mul_comm grid numThreads] at turns
  rcases (places_end positive numSendTokens block).2 with none | last
  · rw [none] at turns
    omega
  · omega

theorem storePositions_eq (known : block < grid) (routed : 0 < numExpertsPerToken)
    (room : numSendTokens + numThreads * grid ≤ 2 ^ 32)
    (routes : numSendTokens * numExpertsPerToken + numThreads ≤ 2 ^ 32) {fuel : Nat}
    (near : i < blockPositions grid numSendTokens numExpertsPerToken block + numThreads)
    (enough : blockPositions grid numSendTokens numExpertsPerToken block - i < fuel) :
    storePositions grid numSendTokens numExpertsPerToken block fuel i =
      some ((places (blockPositions grid numSendTokens numExpertsPerToken block) numThreads i).map
        (positionStore grid numExpertsPerToken block)) := by
  have positive : 0 < grid := zero_lt_of_lt known
  have all : blockPositions grid numSendTokens numExpertsPerToken block ≤
    numSendTokens * numExpertsPerToken := blockPositions_le positive
  induction fuel generalizing i with
  | zero => exact absurd enough (Nat.not_lt_zero _)
  | succ fuel ih =>
    have quotient : u32 (i / numExpertsPerToken) = i / numExpertsPerToken :=
      u32_of_lt ((Nat.div_le_self _ _).trans_lt (by omega))
    have token : u32 (block + i / numExpertsPerToken * grid) = block + grid * (i / numExpertsPerToken) := by
      rw [Nat.mul_comm]
      exact u32_of_lt (token_fits known routed room near)
    have route : u32 (i % numExpertsPerToken) = i % numExpertsPerToken := u32_of_lt ((mod_le _ _).trans_lt (by omega))
    simp only [storePositions, quotient, token, route]
    split
    next past =>
      have ended := mt (token_stored_iff positive routed).mpr (Nat.not_lt_of_le past)
      rw [places_past (by decide) (Nat.le_of_not_lt ended)]
      rfl
    next inside =>
      have listed := (token_stored_iff positive routed).mp (Nat.lt_of_not_le inside)
      have global : (block + grid * (i / numExpertsPerToken)) * numExpertsPerToken + i % numExpertsPerToken < 2 ^ 32 := by
        have tokens := Nat.mul_le_mul_right numExpertsPerToken (succ_le_of_lt (Nat.lt_of_not_le inside))
        have below := mod_lt i routed
        rw [succ_mul] at tokens
        omega
      have slot : i / numExpertsPerToken * numExpertsPerToken + i % numExpertsPerToken = i := by
        rw [Nat.mul_comm]
        exact div_add_mod _ _
      rw [slot, u32_of_lt (show i < 2 ^ 32 by omega), u32_of_lt (show i + numThreads < 2 ^ 32 by omega), u32_of_lt global,
        ih (by omega) (Nat.lt_of_lt_of_le (Nat.sub_lt_sub_left listed (by simp))
          (le_of_lt_succ enough)), places_step (by decide) listed]
      rfl

theorem positionStores_eq (known : block < grid) (routed : 0 < numExpertsPerToken)
    (room : numSendTokens + numThreads * grid ≤ 2 ^ 32)
    (routes : numSendTokens * numExpertsPerToken + numThreads ≤ 2 ^ 32) {fuel : Nat}
    (enough : blockPositions grid numSendTokens numExpertsPerToken block < fuel) :
    ∃ stores, positionStores grid numSendTokens numExpertsPerToken block fuel = some stores ∧
      stores.flatten.Perm ((List.range (blockPositions grid numSendTokens numExpertsPerToken
        block)).map (positionStore grid numExpertsPerToken block)) := by
  refine ⟨_, mapM_values _ fun thread member => storePositions_eq known routed room routes ?_ (by omega), ?_⟩
  · have below := mem_range.mp member
    omega
  · rw [← Function.comp_def, ← map_map, ← map_flatten]
    exact (places_perm (by decide)).map _

theorem positionReads_mem {slot token k : Nat}
    (read : (slot, token, k) ∈ positionReads numExpertsPerToken (places numSendTokens grid block)) :
    slot < blockPositions grid numSendTokens numExpertsPerToken block ∧
      positionStore grid numExpertsPerToken block slot = ⟨slot, token, k, token * numExpertsPerToken + k⟩ := by
  obtain ⟨⟨_, turn⟩, listed, member⟩ := mem_flatMap.mp read
  obtain ⟨route, known, entry⟩ := mem_map.mp member
  cases entry
  have place := mem_zipIdx_iff_getElem?.mp listed
  have below := mem_range.mp known
  obtain ⟨inside, taken⟩ := List.getElem?_eq_some_iff.mp place
  have numbered : block + grid * turn = token := (getElem_range' _).symm.trans taken
  have quotient : (turn * numExpertsPerToken + k) / numExpertsPerToken = turn := by
    rw [Nat.mul_comm, mul_add_div (zero_lt_of_lt below), div_eq_of_lt below, Nat.add_zero]
  have rest : (turn * numExpertsPerToken + k) % numExpertsPerToken = k := by
    rw [Nat.mul_comm, mul_add_mod, mod_eq_of_lt below]
  constructor
  · have room := Nat.mul_le_mul_right numExpertsPerToken
      (succ_le_of_lt (show turn < (places numSendTokens grid block).length from inside))
    rw [succ_mul] at room
    rw [blockPositions]
    omega
  · simp only [positionStore, quotient, rest, numbered]

private theorem blockPositions_allocated {numTokens : Nat} (sent : numSendTokens ≤ numTokens) (positive : 0 < grid) :
    blockPositions grid numSendTokens numExpertsPerToken block ≤ ceilDiv numTokens grid * numExpertsPerToken := by
  apply Nat.mul_le_mul_right
  rw [places, length_range', ceilDiv]
  apply Nat.div_le_div_right
  omega

theorem combineRecv_reads {numTokens : Nat} (known : block < grid) (routed : 0 < numExpertsPerToken)
    (sent : numSendTokens ≤ numTokens) (room : numSendTokens + numThreads * grid ≤ 2 ^ 32)
    (routes : numSendTokens * numExpertsPerToken + numThreads ≤ 2 ^ 32) : ∃ fuel stores tokens,
      positionStores grid numSendTokens numExpertsPerToken block fuel = some stores ∧
        combinedTokens grid numSendTokens block fuel = some tokens ∧
        PositionsRead grid numTokens numSendTokens numExpertsPerToken block stores tokens := by
  have positive : 0 < grid := zero_lt_of_lt known
  have all : blockPositions grid numSendTokens numExpertsPerToken block ≤
    numSendTokens * numExpertsPerToken := blockPositions_le positive
  have tokens := Nat.le_mul_of_pos_right numSendTokens routed
  have stride := Nat.le_mul_of_pos_left grid (show 0 < numThreads by decide)
  obtain ⟨stores, stored, perm⟩ := positionStores_eq known routed room routes (lt_succ_of_le all)
  refine ⟨_, stores, _, stored, strided_eq positive (by omega) (by omega), ?_⟩
  constructor
  · intro slot token k read
    obtain ⟨inside, entry⟩ := positionReads_mem read
    exact perm.mem_iff.mpr (mem_map.mpr ⟨slot, mem_range.mpr inside, entry⟩)
  · intro slot token k read store member same
    obtain ⟨_, entry⟩ := positionReads_mem read
    obtain ⟨i, _, rfl⟩ := mem_map.mp (perm.mem_iff.mp member)
    cases same
    exact ⟨congrArg PositionStore.token entry, congrArg PositionStore.route entry⟩
  · intro slot token k read
    exact (positionReads_mem read).1.trans_le (blockPositions_allocated sent positive)
  · intro token
    rw [places_mem positive, mod_eq_of_lt known]
    constructor
    · rintro ⟨_, inside, own⟩
      exact ⟨inside, own⟩
    · rintro ⟨inside, own⟩
      exact ⟨own ▸ mod_le _ _, inside, own⟩

end

/-- Every staged loop takes each of its tokens once, as long as no sum of token numbers
leaves 32 bits. -/
theorem staged_loops
    {grid numRecvTokens numEfaTokens numTokens numSendTokens numExpertsPerToken : Nat}
    (efa : numEfaTokens ≤ numRecvTokens) (sent : numSendTokens ≤ numTokens)
    (routed : 1 ≤ numExpertsPerToken) (received : numRecvTokens + grid ≤ 2 ^ 32)
    (combined : numSendTokens + numThreads * grid ≤ 2 ^ 32)
    (routes : numSendTokens * numExpertsPerToken + numThreads ≤ 2 ^ 32)
    (sourceOffset paddedIndex combineSendOffset sourceRank : Nat → Nat) :
    StagedLoops grid numRecvTokens numEfaTokens numTokens numSendTokens numExpertsPerToken
      sourceOffset paddedIndex combineSendOffset sourceRank := by
  constructor
  · intro block known shared
    exact dispatchRecv_once known (by omega) sourceOffset paddedIndex shared
  · intro block known shared
    exact combineSend_once known efa received combineSendOffset paddedIndex sourceRank shared
  · intro block known
    exact combineRecv_reads known routed sent combined routes

theorem staged_loops_two : StagedLoops 2 19 5 7 6 3 id id id id :=
  staged_loops (by decide) (by decide) (by decide) (by decide) (by decide) (by decide) id id id id

/-- With 128 blocks and 2 ^ 32 - 127 network tokens the token of the first block wraps onto
itself, and the block copies its tokens again and again. -/
theorem staged_loop_wraps : ¬ StagedLoops 128 (2 ^ 32 - 127) (2 ^ 32 - 127) 0 0 1 id id id id := by
  intro loops
  obtain ⟨fuel, handled, ended, _⟩ := loops.dispatchRecv 0 (by decide) fun _ => ⟨0, 0⟩
  have aligned : 128 ∣ 2 ^ 32 := ⟨2 ^ 25, by decide⟩
  rw [dispatchRecvBlock, pipeline_stuck aligned (fun stages item inside =>
    drain_stays aligned stages numStages 0 inside) fuel (by decide) (by decide)] at ended
  cases ended

end PplxGarden.AllToAll.Proofs
