import Mathlib.Data.List.Nodup

/-! Equal shares of a list, one after the other. -/

namespace PplxGarden.Library

variable {α : Type}
variable {items : List α} {width : Nat}

def share (items : List α) (width place : Nat) : List α := (items.drop (place * width)).take width

theorem share_subset (items : List α) (width place : Nat) : share items width place ⊆ items :=
  fun _ member => List.mem_of_mem_drop (List.mem_of_mem_take member)

theorem share_zero (items : List α) (place : Nat) : share items 0 place = [] := List.take_zero

theorem mem_share {place : Nat} {item : α} (member : item ∈ share items width place) :
    ∃ index, items[index]? = some item ∧ place * width ≤ index ∧ index < (place + 1) * width := by
  obtain ⟨offset, found⟩ := List.mem_iff_getElem?.mp member
  rw [share, List.getElem?_take] at found
  split at found
  next inside =>
    rw [List.getElem?_drop] at found
    refine ⟨place * width + offset, found, Nat.le_add_right .., ?_⟩
    rw [Nat.succ_mul]
    exact Nat.add_lt_add_left inside _
  next => cases found

theorem share_disjoint (distinct : items.Nodup) {first second : Nat} (apart : first < second) :
    (share items width first).Disjoint (share items width second) := by
  intro item here there
  obtain ⟨index, found, _, before⟩ := mem_share here
  obtain ⟨other, again, after, _⟩ := mem_share there
  have same : index = other := (List.getElem?_inj (List.getElem?_eq_some_iff.mp found).1 distinct).mp (found.trans again.symm)
  have order : (first + 1) * width ≤ second * width := Nat.mul_le_mul_right width apart
  omega

theorem share_fits {size count place : Nat} (owner : place < count) : (place + 1) * (size / count) ≤ size :=
  Nat.le_trans (Nat.mul_le_mul_right _ owner) (Nat.mul_div_le size count)

theorem share_first (some_ : 0 < width) (fits : width ≤ items.length) : share items width 0 ≠ [] := by
  rw [share, Nat.zero_mul, List.drop_zero]
  intro empty
  have length := congrArg List.length empty
  rw [List.length_take, List.length_nil] at length
  omega

end PplxGarden.Library
