import Mathlib.Data.List.Nodup
import Mathlib.Data.List.Range
import Mathlib.Tactic.Common
import Mathlib.Algebra.BigOperators.Intervals

/-! Visiting the other members of a ring, starting with the next one, and lists of
equal blocks. -/

namespace PplxGarden.Library
open List Nat

variable {width size start index : Nat}

/-- The members of a ring other than `start`, beginning after it. -/
def rotation (size start : Nat) : List Nat := (range' 1 (size - 1)).map fun i => (start + i) % size

private theorem rotated {i : Nat} (inside : start < size) (bound : i < size) :
    (start + i) % size = if start + i < size then start + i else start + i - size := by
  split
  next small => exact mod_eq_of_lt small
  next large => rw [mod_eq_sub_mod (by omega), mod_eq_of_lt (by omega)]

theorem rotation_mem (inside : start < size) (value : Nat) :
    value ∈ rotation size start ↔ value < size ∧ value ≠ start := by
  simp only [rotation, mem_map, mem_range'_1]
  constructor
  · rintro ⟨i, bounds, rfl⟩
    rw [rotated inside (by omega)]
    split <;> omega
  · rintro ⟨bound, other⟩
    by_cases later : start < value
    · refine ⟨value - start, by omega, ?_⟩
      rw [rotated inside (by omega)]
      split <;> omega
    · refine ⟨value + size - start, by omega, ?_⟩
      rw [rotated inside (by omega)]
      split <;> omega

theorem rotation_nodup (inside : start < size) : (rotation size start).Nodup := by
  apply Nodup.map_on _ (nodup_range' 1)
  intro i first j second same
  rw [mem_range'_1] at first second
  rw [rotated inside (by omega), rotated inside (by omega)] at same
  split at same <;> split at same <;> omega

theorem rotation_skip (size start : Nat) (skip : Nat → Prop) [DecidablePred skip] (target : Nat → β) :
    (range' 1 (size - 1)).filterMap
        (fun i => if skip ((start + i) % size) then none else some (target ((start + i) % size))) =
      ((rotation size start).filter fun value => decide (¬ skip value)).map target := by
  rw [rotation, filter_map, map_map, ← filterMap_eq_map, filterMap_filter]
  congr 1
  funext i
  by_cases skipped : skip ((start + i) % size)
  · simp [skipped]
  · simp [skipped]

/-- Member `index` of block `block`, when blocks have a fixed width. -/
theorem block_mod {blocks : Nat} (block : Nat) (inside : index < width) :
    (block * width + index) % (blocks * width) = block % blocks * width + index := by
  rw [Nat.mul_comm blocks, mod_mul, Nat.mul_comm block, mul_add_mod, mod_eq_of_lt inside,
    mul_add_div (by omega), div_eq_of_lt inside, Nat.add_zero, Nat.mul_comm width, Nat.add_comm]

theorem block_le {block blocks : Nat} (inside : block < blocks) : block * width + width ≤ width * blocks := by
  have whole := Nat.mul_le_mul_right width inside
  rwa [Nat.add_one_mul, Nat.mul_comm blocks] at whole

theorem block_div (block : Nat) (inside : index < width) :
    (block * width + index) / width = block := by
  rw [Nat.mul_comm, mul_add_div (by omega), div_eq_of_lt inside, Nat.add_zero]

theorem block_rem (block : Nat) (inside : index < width) :
    (block * width + index) % width = index := by
  rw [Nat.mul_comm, mul_add_mod, mod_eq_of_lt inside]

theorem block_unique {block other first second : Nat} (left : first < width) (right : second < width)
    (same : block * width + first = other * width + second) : block = other ∧ first = second := by
  constructor
  · rw [← block_div block left, same, block_div other right]
  · rw [← block_rem block left, same, block_rem other right]

theorem blocks_mem {blocks : List Nat} (value : Nat) :
    value ∈ blocks.flatMap (fun block => (List.range width).map fun index => block * width + index) ↔
      0 < width ∧ value / width ∈ blocks := by
  simp only [mem_flatMap, mem_map, mem_range]
  constructor
  · rintro ⟨block, member, index, inside, rfl⟩
    rw [block_div block inside]
    exact ⟨by omega, member⟩
  · rintro ⟨positive, member⟩
    exact ⟨_, member, value % width, mod_lt _ positive, div_add_mod' _ _⟩

theorem blocks_nodup {blocks : List Nat} (distinct : blocks.Nodup) (width : Nat) :
    (blocks.flatMap (fun block => (List.range width).map fun index => block * width + index)).Nodup := by
  rw [nodup_flatMap]
  refine ⟨?_, ?_⟩
  · intro block _
    exact Nodup.map (fun _ _ same => Nat.add_left_cancel same) nodup_range
  · apply distinct.imp
    intro first second other value left right
    simp only [mem_map, mem_range] at left right
    obtain ⟨i, inside, rfl⟩ := left
    obtain ⟨j, bound, same⟩ := right
    apply other
    rw [← block_div first inside, ← same, block_div second bound]

theorem sum_blocks (blocks width : Nat) (weight : Nat → Nat) :
    ∑ value ∈ Finset.range (blocks * width), weight value =
      ∑ block ∈ Finset.range blocks, ∑ index ∈ Finset.range width, weight (block * width + index) := by
  induction blocks with
  | zero => simp
  | succ blocks ih => rw [Nat.add_mul, Nat.one_mul, Finset.sum_range_add, ih, Finset.sum_range_succ]

end PplxGarden.Library
