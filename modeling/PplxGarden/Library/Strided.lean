import Mathlib.Algebra.Ring.Nat
import Mathlib.Data.List.Nodup
import Mathlib.Data.List.Range
import Mathlib.Data.List.Sort
import PplxGarden.Library.Loop

/-! Loops in which every thread of a grid starts at its own number and advances by the
size of the grid. The counter wraps at a fixed size, so a loop may also never end. -/

namespace PplxGarden.Library
open List Nat

variable {start fuel : Nat}

/-- `for (i = start; i < bound; i += stride)` with a counter below `size`: the values
for which the body runs, if the loop ends within the fuel. -/
def strided (size bound stride : Nat) : Nat → Nat → Option (List Nat)
  | 0, _ => none
  | fuel + 1, i =>
    if i < bound then do return i :: (← strided size bound stride fuel ((i + stride) % size))
    else some []

def sweep (size bound stride fuel : Nat) : Option (List (List Nat)) :=
  (List.range stride).mapM (strided size bound stride fuel)

/-- The values below a bound that a loop without wrapping visits. -/
def places (bound stride start : Nat) : List Nat := range' start ((bound - start + (stride - 1)) / stride) stride

variable {size bound stride : Nat}

theorem places_past (positive : 0 < stride) (past : bound ≤ start) : places bound stride start = [] := by
  rw [places, Nat.sub_eq_zero_of_le past, Nat.zero_add, div_eq_of_lt (by omega)]
  rfl

theorem places_step (positive : 0 < stride) (inside : start < bound) :
    places bound stride start = start :: places bound stride (start + stride) := by
  have count : (bound - start + (stride - 1)) / stride = (bound - (start + stride) + (stride - 1)) / stride + 1 := by
    rcases Nat.lt_or_ge bound (start + stride) with last | more
    · rw [Nat.sub_eq_zero_of_le last.le, Nat.zero_add, div_eq_of_lt (show stride - 1 < stride by omega)]
      exact Nat.div_eq_of_lt_le (by omega) (by omega)
    · rw [← add_div_right _ positive]
      congr 1
      omega
  rw [places, count, range'_succ]
  rfl

theorem places_mem (positive : 0 < stride) {value : Nat} :
    value ∈ places bound stride start ↔ start ≤ value ∧ value < bound ∧ value % stride = start % stride := by
  rw [places, mem_range']
  constructor
  · rintro ⟨turn, below, rfl⟩
    refine ⟨Nat.le_add_right _ _, ?_, add_mul_mod_self_left _ _ _⟩
    have room := (Nat.le_div_iff_mul_le positive).mp (succ_le_of_lt below)
    rw [succ_mul, Nat.mul_comm] at room
    omega
  · rintro ⟨later, inside, same⟩
    obtain ⟨turn, place⟩ := dvd_of_mod_eq_zero (sub_mod_eq_zero_of_mod_eq same)
    refine ⟨turn, ?_, by omega⟩
    apply (Nat.le_div_iff_mul_le positive).mpr
    rw [succ_mul, Nat.mul_comm]
    omega

theorem places_nodup (positive : 0 < stride) (start : Nat) : (places bound stride start).Nodup :=
  nodup_range' stride positive

theorem places_eq_filter (own : start < stride) :
    places bound stride start = (List.range bound).filter fun value => value % stride = start := by
  have positive := zero_lt_of_lt own
  have sorted : (places bound stride start).Pairwise (· < ·) := pairwise_lt_range' _ positive
  apply sorted.eq_of_mem_iff (pairwise_lt_range.filter _)
  intro value
  rw [places_mem positive, mem_filter, mem_range, decide_eq_true_iff, mod_eq_of_lt own]
  constructor
  · intro later
    exact later.2
  · intro inside
    exact ⟨inside.2 ▸ mod_le _ _, inside⟩

section
variable (positive : 0 < stride)
include positive

/-- Without wrapping the loop ends and visits the places of its thread. -/
theorem strided_eq (room : bound + stride ≤ size) (enough : bound - start < fuel) :
    strided size bound stride fuel start = some (places bound stride start) := by
  induction fuel generalizing start with
  | zero => exact absurd enough (Nat.not_lt_zero _)
  | succ fuel ih =>
    rw [strided]
    split
    next inside =>
      rw [mod_eq_of_lt (by omega), ih (by omega), places_step positive inside]
      rfl
    next past => rw [places_past positive (Nat.le_of_not_lt past)]

theorem strided_places (room : bound + stride ≤ size) {list : List Nat}
    (ended : strided size bound stride fuel start = some list) : list = places bound stride start := by
  induction fuel generalizing start list with
  | zero => cases ended
  | succ fuel ih =>
    rw [strided] at ended
    split at ended
    next inside =>
      rw [mod_eq_of_lt (by omega)] at ended
      cases rest : strided size bound stride fuel (start + stride) with
      | none =>
        rw [rest] at ended
        cases ended
      | some visited =>
        rw [rest] at ended
        cases ended
        rw [places_step positive inside, ih rest]
    next past =>
      cases ended
      rw [places_past positive (Nat.le_of_not_lt past)]

theorem sweep_eq (room : bound + stride ≤ size) (enough : bound < fuel) :
    sweep size bound stride fuel = some ((List.range stride).map (places bound stride)) := by
  apply mapM_values
  intro start _
  exact strided_eq positive room (by omega)

theorem places_perm : ((List.range stride).map (places bound stride)).flatten.Perm (List.range bound) := by
  apply (perm_ext_iff_of_nodup ?_ nodup_range).mpr
  · intro value
    simp only [mem_flatten, mem_map, mem_range]
    constructor
    · rintro ⟨_, ⟨start, _, rfl⟩, member⟩
      exact ((places_mem positive).mp member).2.1
    · intro inside
      have start := mod_lt value positive
      exact ⟨_, ⟨value % stride, start, rfl⟩, (places_mem positive).mpr ⟨mod_le _ _, inside, (mod_mod _ _).symm⟩⟩
  · rw [nodup_flatten]
    constructor
    · intro list member
      obtain ⟨start, _, rfl⟩ := mem_map.mp member
      exact places_nodup positive start
    · rw [pairwise_map]
      apply nodup_range.imp_of_mem
      intro first second left right other value here there
      have one := ((places_mem positive).mp here).2.2
      have two := ((places_mem positive).mp there).2.2
      rw [mod_eq_of_lt (mem_range.mp left)] at one
      rw [mod_eq_of_lt (mem_range.mp right)] at two
      exact other (one.symm.trans two)

theorem sweep_perm (room : bound + stride ≤ size) {lists : List (List Nat)}
    (ended : sweep size bound stride fuel = some lists) : lists.flatten.Perm (List.range bound) := by
  have same := mapM_projection id (places bound stride) (fun _ _ => strided_places positive room) ended
  rw [map_id] at same
  rw [same]
  exact places_perm positive

end

/-- The values of a thread are all below a bound that is above the last of them. -/
theorem value_lt (aligned : stride ∣ size) {value : Nat} (inside : value < size)
    (above : size - stride + value % stride < bound) : value < bound := by
  obtain ⟨turns, rfl⟩ := aligned
  have split := div_add_mod value stride
  have turn : value / stride < turns := Nat.div_lt_of_lt_mul inside
  have room := Nat.mul_le_mul_left stride (succ_le_of_lt turn)
  rw [mul_succ] at room
  omega

theorem value_step (aligned : stride ∣ size) (value : Nat) : (value + stride) % size % stride = value % stride := by
  rw [mod_mod_of_dvd _ aligned, add_mod_right]

/-- A counter that wraps onto its own values never leaves a loop whose bound is above
all of them. -/
theorem strided_stuck (aligned : stride ∣ size) (inside : start < size) (above : size - stride + start % stride < bound)
    (fuel : Nat) : strided size bound stride fuel start = none := by
  induction fuel generalizing start with
  | zero => rfl
  | succ fuel ih =>
    have below := value_lt aligned inside above
    have same := value_step aligned start
    rw [strided, if_pos below, ih (mod_lt _ (zero_lt_of_lt inside)) (by rw [same]; exact above)]
    rfl

theorem sweep_stuck (aligned : stride ∣ size) (nonempty : 0 < size) (wraps : size < bound + stride) (fuel : Nat) :
    sweep size bound stride fuel = none := by
  have positive : 0 < stride := pos_of_dvd_of_pos aligned nonempty
  have fits := le_of_dvd nonempty aligned
  apply mapM_fails (mem_range.mpr positive)
  exact strided_stuck aligned nonempty (by rw [zero_mod]; omega) fuel

/-- A grid whose size divides that of the counter sweeps exactly the bounds that leave
room for one more step. -/
theorem sweep_iff (aligned : stride ∣ size) (nonempty : 0 < size) :
    (∃ fuel lists, sweep size bound stride fuel = some lists ∧ lists.flatten.Perm (List.range bound)) ↔ bound + stride ≤ size := by
  constructor
  · rintro ⟨fuel, lists, swept, _⟩
    by_contra wraps
    rw [sweep_stuck aligned nonempty (Nat.lt_of_not_le wraps)] at swept
    cases swept
  · intro room
    have positive : 0 < stride := pos_of_dvd_of_pos aligned nonempty
    exact ⟨bound + 1, _, sweep_eq positive room (lt_succ_self _), places_perm positive⟩

end PplxGarden.Library
