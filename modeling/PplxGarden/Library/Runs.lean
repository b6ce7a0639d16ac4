import Mathlib.Data.List.Count
import Mathlib.Tactic.Common

/-! Runs of a machine whose actions may be refused, and invariants along them. -/

namespace PplxGarden.Library

/-- The state after a list of actions, if none of them is refused. -/
def runs (fire : σ → α → Option σ) (state : σ) (actions : List α) : Option σ := actions.foldlM fire state

theorem runs_nil (fire : σ → α → Option σ) (state : σ) : runs fire state [] = some state := rfl

theorem runs_cons (fire : σ → α → Option σ) (state : σ) (action : α) (actions : List α) :
    runs fire state (action :: actions) = (fire state action).bind fun next => runs fire next actions := rfl

/-- A property that holds at the start and survives the actions of a run holds at
its end. -/
theorem runs_keep {fire : σ → α → Option σ} {invariant : σ → Prop} {state final : σ} {actions : List α} (start : invariant state)
    (kept : ∀ action ∈ actions, ∀ before after, invariant before → fire before action = some after → invariant after)
    (reached : runs fire state actions = some final) : invariant final := by
  induction actions generalizing state with
  | nil =>
    cases reached
    exact start
  | cons action actions ih =>
    rw [runs_cons] at reached
    obtain ⟨next, fired, rest⟩ := Option.bind_eq_some_iff.mp reached
    exact ih (kept action (List.mem_cons_self ..) state next start fired) (fun other member => kept other (List.mem_cons_of_mem _ member)) rest

/-- A property that holds at the start and survives every action holds at the end
of every run. -/
theorem runs_invariant {fire : σ → α → Option σ} {invariant : σ → Prop} {state final : σ} {actions : List α}
    (start : invariant state) (preserved : ∀ before action after, invariant before → fire before action = some after → invariant after)
    (reached : runs fire state actions = some final) : invariant final :=
  runs_keep start (fun action _ before after => preserved before action after) reached

/-- The machine without the actions that miss a condition. -/
def restrict (fire : σ → α → Option σ) (condition : σ → α → Prop) [∀ state action, Decidable (condition state action)] (state : σ) (action : α) :
    Option σ :=
  if condition state action then fire state action else none

theorem restrict_eq_some {fire : σ → α → Option σ} {condition : σ → α → Prop} [∀ state action, Decidable (condition state action)]
    {state next : σ} {action : α} : restrict fire condition state action = some next ↔ condition state action ∧ fire state action = some next := by
  unfold restrict
  split <;> simp [*]

theorem runs_append {fire : σ → α → Option σ} {state middle : σ} {first second : List α} (reached : runs fire state first = some middle) :
    runs fire state (first ++ second) = runs fire middle second := by
  rw [runs, List.foldlM_append]
  exact congrArg (· >>= fun next => runs fire next second) reached

theorem runs_split {fire : σ → α → Option σ} {state final : σ} {first second : List α} (reached : runs fire state (first ++ second) = some final) :
    ∃ middle, runs fire state first = some middle ∧ runs fire middle second = some final := by
  rw [runs, List.foldlM_append] at reached
  exact Option.bind_eq_some_iff.mp reached

theorem runs_imitate {fire : σ → α → Option σ} {other : τ → α → Option τ} (image : σ → τ)
    (imitates : ∀ before action after, fire before action = some after → other (image before) action = some (image after))
    {state final : σ} {actions : List α} (reached : runs fire state actions = some final) :
    runs other (image state) actions = some (image final) := by
  induction actions generalizing state with
  | nil =>
    cases reached
    rfl
  | cons action actions ih =>
    rw [runs_cons] at reached ⊢
    obtain ⟨next, fired, rest⟩ := Option.bind_eq_some_iff.mp reached
    rw [imitates state action next fired]
    exact ih rest

theorem runs_restrict {fire : σ → α → Option σ} {condition : σ → α → Prop} [∀ state action, Decidable (condition state action)]
    {state final : σ} {actions : List α} (reached : runs (restrict fire condition) state actions = some final) :
    runs fire state actions = some final :=
  runs_imitate id (fun _ _ _ fired => (restrict_eq_some.mp fired).2) reached

/-- A condition on every step of a run, as far as the run goes. -/
def Along (fire : σ → α → Option σ) (holds : σ → α → σ → Prop) : σ → List α → Prop
  | _, [] => True
  | state, action :: actions => ∀ next, fire state action = some next → holds state action next ∧ Along fire holds next actions

/-- Two conditions that agree on the steps from good states hold along the same runs, if
they keep the states good. -/
theorem along_iff {fire : σ → α → Option σ} {invariant : σ → Prop} {first second : σ → α → σ → Prop}
    (agree : ∀ before action after, invariant before → fire before action = some after → (first before action after ↔ second before action after))
    (kept : ∀ before action after, invariant before → fire before action = some after → second before action after → invariant after)
    {state : σ} {actions : List α} (start : invariant state) : Along fire first state actions ↔ Along fire second state actions := by
  induction actions generalizing state with
  | nil => exact Iff.rfl
  | cons action actions ih =>
    refine forall₂_congr fun next fired => ?_
    rw [agree state action next start fired]
    exact and_congr_right fun holds => ih (kept state action next start fired holds)

theorem runs_end (fire : σ → α → Option σ) (measure : σ → Nat)
    (decreases : ∀ before action after, fire before action = some after → measure after < measure before) (state : σ) :
    ∃ actions final, runs fire state actions = some final ∧ ∀ action, fire final action = none := by
  induction size : measure state using Nat.strongRecOn generalizing state with
  | _ size ih =>
    by_cases stopped : ∀ action, fire state action = none
    · exact ⟨[], state, rfl, stopped⟩
    · push Not at stopped
      obtain ⟨action, moves⟩ := stopped
      obtain ⟨next, fired⟩ := Option.ne_none_iff_exists'.mp moves
      obtain ⟨actions, final, reached, stuck⟩ := ih (measure next) (size ▸ decreases state action next fired) next rfl
      refine ⟨action :: actions, final, ?_, stuck⟩
      rw [runs_cons, fired]
      exact reached

/-! Calls that are in progress together. Each is at one of its steps, and a step moves
one of them on. -/

theorem count_apart [BEq α] [LawfulBEq α] {other call : α} (differs : other ≠ call) : [call].count other = 0 :=
  List.count_eq_zero.mpr fun member => differs (List.mem_singleton.mp member)

section
variable [BEq α] [LawfulBEq α] {calls : List α} {i : Nat} {before : α} (found : calls[i]? = some before) (after : α)
include found

omit [LawfulBEq α] in
theorem count_moved (other : α) : (calls.set i after).count other + [before].count other = calls.count other + [after].count other := by
  obtain ⟨inside, rfl⟩ := List.getElem?_eq_some_iff.mp found
  have here : [calls[i]].count other ≤ calls.count other := (List.singleton_sublist.mpr (List.getElem_mem inside)).count_le other
  rw [List.count_set inside]
  simp only [List.count_singleton] at here ⊢
  omega

theorem count_left (moves : before ≠ after) : (calls.set i after).count before + 1 = calls.count before := by
  have moved := count_moved found after before
  rwa [List.count_singleton_self, count_apart moves, Nat.add_zero] at moved

theorem count_entered (moves : after ≠ before) : (calls.set i after).count after = calls.count after + 1 := by
  have moved := count_moved found after after
  rwa [List.count_singleton_self, count_apart moves, Nat.add_zero] at moved

theorem count_elsewhere (other : α) (stays : other ≠ before) (avoids : other ≠ after) : (calls.set i after).count other = calls.count other := by
  have moved := count_moved found after other
  rwa [count_apart stays, count_apart avoids] at moved

end

end PplxGarden.Library
