import Mathlib.Algebra.Ring.Nat
import Mathlib.Data.List.Basic
import Mathlib.Tactic.Common

/-! Blocks of given sizes laid out one after another in the order of a list. -/

namespace PplxGarden.Library

variable {α : Type} [DecidableEq α] {size : α → Nat} {order : List α}

def blockStart (size : α → Nat) : List α → α → Nat
  | [], _ => 0
  | head :: order, item => if item = head then 0 else size head + blockStart size order item

theorem blockStart_fits {item : α} (member : item ∈ order) {index : Nat} (inside : index < size item) :
    blockStart size order item + index < (order.map size).sum := by
  induction order with
  | nil => cases member
  | cons head order ih =>
    rw [blockStart, List.map_cons, List.sum_cons]
    split
    next same =>
      subst same
      omega
    next other =>
      have later := ih ((List.mem_cons.mp member).resolve_left other)
      omega

theorem blockStart_injective {first second : α} (listed : first ∈ order) (present : second ∈ order) {i j : Nat} (left : i < size first)
    (right : j < size second) (same : blockStart size order first + i = blockStart size order second + j) : first = second := by
  induction order with
  | nil => cases listed
  | cons head order ih =>
    simp only [blockStart] at same
    by_cases front : first = head
    · by_cases other : second = head
      · rw [front, other]
      · subst front
        rw [if_pos rfl, if_neg other] at same
        omega
    · by_cases other : second = head
      · subst other
        rw [if_neg front, if_pos rfl] at same
        omega
      · rw [if_neg front, if_neg other] at same
        exact ih ((List.mem_cons.mp listed).resolve_left front) ((List.mem_cons.mp present).resolve_left other) (by omega)

theorem blockStart_covers (distinct : order.Nodup) {place : Nat} (inside : place < (order.map size).sum) :
    ∃ item ∈ order, ∃ index, index < size item ∧ blockStart size order item + index = place := by
  induction order generalizing place with
  | nil => exact absurd inside (Nat.not_lt_zero _)
  | cons head order ih =>
    obtain ⟨absent, distinct⟩ := List.nodup_cons.mp distinct
    by_cases here : place < size head
    · exact ⟨head, List.mem_cons_self, place, here, by rw [blockStart, if_pos rfl, Nat.zero_add]⟩
    · rw [List.map_cons, List.sum_cons] at inside
      obtain ⟨item, member, index, bound, reached⟩ := ih distinct (show place - size head < _ by omega)
      have other : item ≠ head := fun same => absent (same ▸ member)
      refine ⟨item, List.mem_cons_of_mem _ member, index, bound, ?_⟩
      rw [blockStart, if_neg other]
      omega

end PplxGarden.Library
