import Mathlib.Tactic.Common

/-! Inclusive sums by doubling: in every round each lane of a warp adds the value of the
lane a given distance below it, and the distance doubles from round to round. -/

namespace PplxGarden.Library

variable {α : Type} (op : α → α → α)

/-- One round of the threads of all warps. The lowest lanes of a warp find no lane to
add. -/
def shuffleUp (width offset : Nat) (reg : Nat → α) : Nat → α :=
  fun thread => if offset ≤ thread % width then op (reg thread) (reg (thread - offset)) else reg thread

/-- `for (; offset < bound; offset <<= 1)`. -/
def scanFrom (width bound offset : Nat) (reg : Nat → α) : Nat → α :=
  if 0 < offset ∧ offset < bound then scanFrom width bound (2 * offset) (shuffleUp op width offset reg) else reg
termination_by bound - offset

/-- The value of a thread and of `count` threads before it, added from the top. -/
def sumBack (reg : Nat → α) (thread : Nat) : Nat → α
  | 0 => reg thread
  | count + 1 => op (sumBack reg thread count) (reg (thread - (count + 1)))

variable {op}

theorem sumBack_join (assoc : ∀ a b c, op (op a b) c = op a (op b c)) (reg : Nat → α) (thread first second : Nat) :
    op (sumBack op reg thread first) (sumBack op reg (thread - (first + 1)) second) = sumBack op reg thread (first + second + 1) := by
  induction second with
  | zero => rfl
  | succ second ih =>
    have place : thread - (first + 1) - (second + 1) = thread - (first + second + 1 + 1) := by omega
    rw [sumBack, ← assoc, ih, place]
    rfl

/-- After the rounds below `offset` a lane holds the sum of up to `offset` lanes. -/
def Summed (op : α → α → α) (width offset : Nat) (input reg : Nat → α) : Prop :=
  ∀ thread, reg thread = sumBack op input thread (min (offset - 1) (thread % width))

section
variable (assoc : ∀ a b c, op (op a b) c = op a (op b c))
include assoc

theorem Summed.round {width offset : Nat} (positive : 0 < offset) {input reg : Nat → α}
    (summed : Summed op width offset input reg) : Summed op width (2 * offset) input (shuffleUp op width offset reg) := by
  intro thread
  rw [shuffleUp]
  split
  next enough =>
    have lower : (thread - offset) % width = thread % width - offset := by
      have split := Nat.div_add_mod thread width
      have place : thread - offset = thread % width - offset + width * (thread / width) := by omega
      rcases Nat.eq_zero_or_pos width with empty | wide
      · subst empty
        simp
      · rw [place, Nat.add_mul_mod_self_left, Nat.mod_eq_of_lt (Nat.lt_of_le_of_lt (Nat.sub_le _ _) (Nat.mod_lt _ wide))]
    rw [summed thread, summed (thread - offset), lower, Nat.min_eq_left (show offset - 1 ≤ thread % width by omega)]
    have joined := sumBack_join assoc input thread (offset - 1) (min (offset - 1) (thread % width - offset))
    rw [Nat.sub_add_cancel positive] at joined
    rw [joined]
    congr 1
    omega
  next few =>
    rw [summed thread]
    congr 1
    omega

theorem Summed.rounds (width bound offset : Nat) (positive : 0 < offset) {input reg : Nat → α}
    (summed : Summed op width offset input reg) {thread : Nat} (inside : thread % width < bound) :
    scanFrom op width bound offset reg thread = sumBack op input thread (thread % width) := by
  fun_induction scanFrom op width bound offset reg with
  | case1 offset reg more ih => exact ih (by omega) (summed.round assoc positive)
  | case2 offset reg done => rw [summed thread, Nat.min_eq_right (by omega)]

/-- The lanes below the bound of the loop end with the sum of their warp up to them. -/
theorem scan_eq (width bound : Nat) (reg : Nat → α) {thread : Nat}
    (inside : thread % width < bound) : scanFrom op width bound 1 reg thread = sumBack op reg thread (thread % width) := by
  apply Summed.rounds assoc width bound 1 Nat.one_pos _ inside
  intro thread
  rw [Nat.sub_self, Nat.zero_min]
  rfl

end

end PplxGarden.Library
