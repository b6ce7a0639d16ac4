import Mathlib.Algebra.Ring.Nat
import PplxGarden.Library.Runs
import Mathlib.Algebra.BigOperators.Group.Finset.Basic
import Mathlib.Algebra.Order.BigOperators.Group.Finset
import Mathlib.Data.Fintype.Prod
import Mathlib.Data.Finset.Prod

/-! Cooperative launches. The threads of a grid of blocks run straight-line programs
and meet at barriers of a block or of the whole grid. They share a counter and a
signal to the host, which is raised when the counter shows a target. -/

namespace PplxGarden.Library.Grid
open Library Function Finset
variable {target : Nat}

/-- `signalIf` and `resetIf` test the value that the last `add` of the thread left. -/
inductive Op where
  | access
  | sync
  | gridSync
  | add (amount : Nat)
  | signalIf
  | resetIf
  | signal
  | reset
deriving Repr, DecidableEq

/-- `rest` is what a thread still has to do. -/
structure State (G T : Nat) where
  rest : Fin G × Fin T → List Op
  register : Fin G × Fin T → Nat
  counter : Nat
  signals : Nat

inductive Action (G T : Nat) where
  | step (thread : Fin G × Fin T)
  | sync (block : Fin G)
  | gridSync
deriving Repr, DecidableEq

variable {G T : Nat}

def State.initial (program : Fin G × Fin T → List Op) : State G T where
  rest := program
  register _ := 0
  counter := 0
  signals := 0

/-- The effect of an operation that is no barrier. -/
def perform (target : Nat) (state : State G T) (thread : Fin G × Fin T) : Op → Option (State G T)
  | .access => some state
  | .sync => none
  | .gridSync => none
  | .add amount => some { state with
      register := update state.register thread (state.counter + amount)
      counter := state.counter + amount }
  | .signalIf => some { state with signals := state.signals + if state.register thread = target then 1 else 0 }
  | .resetIf => some { state with counter := if state.register thread = target then 0 else state.counter }
  | .signal => some { state with signals := state.signals + 1 }
  | .reset => some { state with counter := 0 }

def fire (target : Nat) (state : State G T) : Action G T → Option (State G T)
  | .step thread =>
    match state.rest thread with
    | [] => none
    | op :: rest => perform target { state with rest := update state.rest thread rest } thread op
  | .sync block =>
    if ∀ thread, (state.rest (block, thread)).head? = some .sync then
      some { state with rest := fun thread => if thread.1 = block then (state.rest thread).tail else state.rest thread }
    else none
  | .gridSync =>
    if ∀ thread, (state.rest thread).head? = some .gridSync then
      some { state with rest := fun thread => (state.rest thread).tail }
    else none

def Reachable (target : Nat) (program : Fin G × Fin T → List Op) (state : State G T) : Prop :=
  ∃ actions, runs (fire target) (State.initial program) actions = some state

/-- No thread can go on, so the launch is over or has deadlocked. -/
def Stuck (target : Nat) (state : State G T) : Prop := ∀ action, fire target state action = none

/-- In every interleaving the signal is raised exactly once, and by then every access
has been made. -/
structure SignalsOnce (target : Nat) (program : Fin G × Fin T → List Op) : Prop where
  once : ∀ state, Reachable target program state → state.signals ≤ 1
  afterwards : ∀ state, Reachable target program state → 0 < state.signals → ∀ thread, Op.access ∉ state.rest thread
  raised : ∀ state, Reachable target program state → Stuck target state → state.signals = 1

inductive Step (target : Nat) (state : State G T) : State G T → Prop where
  | step {thread : Fin G × Fin T} {op : Op} {rest : List Op} {after : State G T} : state.rest thread = op :: rest →
      perform target { state with rest := update state.rest thread rest } thread op = some after → Step target state after
  | sync {block : Fin G} : (∀ thread, (state.rest (block, thread)).head? = some .sync) →
      Step target state
        { state with rest := fun thread => if thread.1 = block then (state.rest thread).tail else state.rest thread }
  | gridSync : (∀ thread, (state.rest thread).head? = some .gridSync) →
      Step target state { state with rest := fun thread => (state.rest thread).tail }

theorem fire_step {state after : State G T} {action : Action G T} (fired : fire target state action = some after) :
    Step target state after := by
  cases action with
  | step thread =>
    simp only [fire] at fired
    split at fired
    next => cases fired
    next op rest ahead => exact .step ahead fired
  | sync block =>
    obtain ⟨ready, result⟩ := Option.ite_none_right_eq_some.mp fired
    cases result
    exact .sync ready
  | gridSync =>
    obtain ⟨ready, result⟩ := Option.ite_none_right_eq_some.mp fired
    cases result
    exact .gridSync ready

/-- A property that holds of the initial state and survives every step. -/
theorem reachable_invariant {program : Fin G × Fin T → List Op} (invariant : State G T → Prop)
    (start : invariant (State.initial program)) (preserved : ∀ before after, invariant before → Step target before after → invariant after)
    {state : State G T} (reachable : Reachable target program state) : invariant state := by
  obtain ⟨actions, reached⟩ := reachable
  exact runs_invariant start (fun before _ after holds fired => preserved before after holds (fire_step fired)) reached

variable {op : Op}

theorem perform_rest {state after : State G T} {thread : Fin G × Fin T}
    (performed : perform target state thread op = some after) : after.rest = state.rest := by
  cases op with
  | access | add | signalIf | resetIf | signal | reset =>
    cases performed
    rfl
  | sync | gridSync => cases performed

def Op.amount : Op → Nat
  | .add amount => amount
  | _ => 0

def unadded (ops : List Op) : Nat := (ops.map Op.amount).sum

theorem unadded_cons (op : Op) (ops : List Op) : unadded (op :: ops) = op.amount + unadded ops := rfl

theorem unadded_append (first second : List Op) : unadded (first ++ second) = unadded first + unadded second := by
  rw [unadded, List.map_append, List.sum_append]
  rfl

variable {ops : List Op}

theorem unadded_eq_zero (none : ∀ op ∈ ops, op.amount = 0) : unadded ops = 0 := by
  rw [unadded, List.sum_eq_zero]
  intro amount member
  obtain ⟨op, listed, rfl⟩ := List.mem_map.mp member
  exact none op listed

theorem unadded_tail (ops : List Op) : unadded ops.tail ≤ unadded ops := by
  cases ops with
  | nil => exact Nat.le_refl _
  | cons op rest => exact Nat.le_add_left _ _

private theorem perform_counter {state after : State G T} {thread : Fin G × Fin T}
    (performed : perform target state thread op = some after) : after.counter ≤ state.counter + op.amount := by
  cases op with
  | access | add | signalIf | signal =>
    cases performed
    exact Nat.le_refl _
  | resetIf =>
    cases performed
    simp only
    split
    · exact Nat.zero_le _
    · exact Nat.le_refl _
  | reset =>
    cases performed
    exact Nat.zero_le _
  | sync | gridSync => cases performed

private theorem unadded_update {rest : Fin G × Fin T → List Op} {thread : Fin G × Fin T} {tail : List Op}
    (ahead : rest thread = op :: tail) :
    ∑ other, unadded (rest other) = op.amount + ∑ other, unadded (update rest thread tail other) := by
  have others : ∑ other ∈ univ.erase thread, unadded (update rest thread tail other) =
      ∑ other ∈ univ.erase thread, unadded (rest other) := by
    apply sum_congr rfl
    intro other member
    rw [update_of_ne (ne_of_mem_erase member)]
  have own := add_sum_erase univ (fun other => unadded (update rest thread tail other)) (mem_univ thread)
  rw [← own, others, update_self, ← Nat.add_assoc, ← add_sum_erase _ _ (mem_univ thread), ahead]
  rfl

/-- The counter never holds more than the threads add together. -/
theorem counter_le {program : Fin G × Fin T → List Op} {state : State G T} (reachable : Reachable target program state) :
    state.counter + ∑ thread, unadded (state.rest thread) ≤ ∑ thread, unadded (program thread) := by
  apply reachable_invariant (fun state => state.counter + ∑ thread, unadded (state.rest thread) ≤ _) ?_ ?_ reachable
  · exact Nat.le_of_eq (Nat.zero_add _)
  · intro before after bounded step
    refine Nat.le_trans ?_ bounded
    cases step with
    | step ahead performed =>
      rw [perform_rest performed, unadded_update ahead, ← Nat.add_assoc]
      exact Nat.add_le_add_right (perform_counter performed) _
    | sync ready =>
      apply Nat.add_le_add_left
      apply sum_le_sum
      intro thread _
      simp only
      split
      · exact unadded_tail _
      · exact Nat.le_refl _
    | gridSync ready =>
      apply Nat.add_le_add_left
      apply sum_le_sum
      intro thread _
      exact unadded_tail _

def Op.isBarrier : Op → Bool
  | .sync | .gridSync => true
  | _ => false

/-- The barriers of a program, in order. -/
def skeleton (ops : List Op) : List Op := ops.filter Op.isBarrier

/-- The threads of a block meet the same barriers, and all threads meet at the same
number of grid barriers. -/
structure Aligned (rest : Fin G × Fin T → List Op) : Prop where
  block : ∀ block first second, skeleton (rest (block, first)) = skeleton (rest (block, second))
  grid : ∀ first second, (skeleton (rest first)).count .gridSync = (skeleton (rest second)).count .gridSync

theorem perform_isSome_iff (target : Nat) (state : State G T) (thread : Fin G × Fin T) (op : Op) :
    perform target state thread op = none ↔ op.isBarrier = true := by
  cases op <;> simp [perform, Op.isBarrier]

theorem skeleton_update {rest : Fin G × Fin T → List Op} {thread : Fin G × Fin T} {tail : List Op}
    (ahead : rest thread = op :: tail) (free : op.isBarrier = false) (other : Fin G × Fin T) :
    skeleton (update rest thread tail other) = skeleton (rest other) := by
  by_cases own : other = thread
  · subst own
    rw [update_self, ahead, skeleton, skeleton, List.filter_cons_of_neg (by simp [free])]
  · rw [update_of_ne own]

theorem skeleton_tail {barrier : Op} (ahead : ops.head? = some barrier) (meets : barrier.isBarrier = true) :
    skeleton ops = barrier :: skeleton ops.tail := by
  cases ops with
  | nil => cases ahead
  | cons op rest =>
    cases ahead
    rw [skeleton, List.filter_cons_of_pos meets]
    rfl

theorem Aligned.step {before after : State G T} (aligned : Aligned before.rest) (step : Step target before after) :
    Aligned after.rest := by
  cases step with
  | @step thread op rest _ ahead performed =>
    have free : op.isBarrier = false := by
      by_contra barrier
      rw [(perform_isSome_iff target _ thread op).mpr (by simpa using barrier)] at performed
      cases performed
    rw [perform_rest performed]
    refine ⟨?_, ?_⟩
    · intro block first second
      rw [skeleton_update ahead free, skeleton_update ahead free]
      exact aligned.block block first second
    · intro first second
      rw [skeleton_update ahead free, skeleton_update ahead free]
      exact aligned.grid first second
  | @sync block ready =>
    refine ⟨?_, ?_⟩
    · intro other first second
      have same := aligned.block other first second
      by_cases own : other = block
      · subst own
        rw [skeleton_tail (ready first) rfl, skeleton_tail (ready second) rfl] at same
        simpa using (List.cons.inj same).2
      · simpa [own] using same
    · have kept : ∀ thread : Fin G × Fin T,
          (skeleton (if thread.1 = block then (before.rest thread).tail else before.rest thread)).count .gridSync =
            (skeleton (before.rest thread)).count .gridSync := by
        intro thread
        split
        next own =>
          subst own
          rw [skeleton_tail (ready thread.2) rfl, List.count_cons_of_ne (by decide)]
        next => rfl
      intro first second
      rw [kept, kept]
      exact aligned.grid first second
  | gridSync ready =>
    refine ⟨?_, ?_⟩
    · intro block first second
      have same := aligned.block block first second
      rw [skeleton_tail (ready _) rfl, skeleton_tail (ready _) rfl] at same
      exact (List.cons.inj same).2
    · intro first second
      have same := aligned.grid first second
      rw [skeleton_tail (ready first) rfl, skeleton_tail (ready second) rfl, List.count_cons_self, List.count_cons_self] at same
      exact Nat.succ.inj same

theorem head_skeleton (idle : ∀ op rest, ops = op :: rest → op.isBarrier = true) :
    (skeleton ops).head? = ops.head? := by
  cases ops with
  | nil => rfl
  | cons op rest =>
    rw [skeleton, List.filter_cons_of_pos (idle op rest rfl)]
    rfl

theorem Aligned.stuck {state : State G T} (aligned : Aligned state.rest) (stuck : Stuck target state)
    (thread : Fin G × Fin T) : state.rest thread = [] := by
  have idle : ∀ thread op rest, state.rest thread = op :: rest → op.isBarrier = true := by
    intro thread op rest ahead
    have blocked := stuck (.step thread)
    simp only [fire, ahead] at blocked
    exact (perform_isSome_iff target _ thread op).mp blocked
  have heads : ∀ thread, (state.rest thread).head? = (skeleton (state.rest thread)).head? := fun thread =>
    (head_skeleton (idle thread)).symm
  have noSync : ∀ thread, (state.rest thread).head? ≠ some .sync := by
    intro thread waiting
    have ready : ∀ other, (state.rest (thread.1, other)).head? = some .sync := by
      intro other
      rw [heads, aligned.block thread.1 other thread.2, ← heads, waiting]
    have blocked := stuck (.sync thread.1)
    rw [fire, if_pos ready] at blocked
    cases blocked
  have next : ∀ thread op rest, state.rest thread = op :: rest → op = .gridSync := by
    intro thread op rest ahead
    have barrier := idle thread op rest ahead
    have other := noSync thread
    rw [ahead] at other
    cases op with
    | sync => exact absurd rfl other
    | gridSync => rfl
    | access | add | signalIf | resetIf | signal | reset => cases barrier
  cases ahead : state.rest thread with
  | nil => rfl
  | cons op rest =>
    have some : 0 < (skeleton (state.rest thread)).count .gridSync := by
      rw [ahead, next thread op rest ahead, skeleton, List.filter_cons_of_pos rfl, List.count_cons_self]
      exact Nat.succ_pos _
    have ready : ∀ other, (state.rest other).head? = Option.some .gridSync := by
      intro other
      rw [aligned.grid thread other] at some
      cases later : state.rest other with
      | nil =>
        rw [later] at some
        cases some
      | cons op rest => rw [next other op rest later, List.head?_cons]
    have blocked := stuck .gridSync
    rw [fire, if_pos ready] at blocked
    cases blocked

def remaining (state : State G T) : Nat := ∑ thread, (state.rest thread).length

theorem fire_remaining [NeZero G] [NeZero T] {before after : State G T} {action : Action G T}
    (fired : fire target before action = some after) : remaining after < remaining before := by
  have tails : ∀ ops : List Op, ops.tail.length ≤ ops.length := fun ops => by simp
  have shorter : ∀ {ops : List Op} {op : Op}, ops.head? = some op → ops.tail.length < ops.length := by
    intro ops op ahead
    cases ops with
    | nil => cases ahead
    | cons _ _ => exact Nat.lt_succ_self _
  cases fire_step fired with
  | @step thread op rest _ ahead performed =>
    simp only [remaining, perform_rest performed]
    apply sum_lt_sum
    · intro other _
      by_cases own : other = thread
      · subst own
        rw [update_self, ahead]
        exact Nat.le_succ _
      · rw [update_of_ne own]
    · refine ⟨thread, mem_univ _, ?_⟩
      rw [update_self, ahead]
      exact Nat.lt_succ_self _
  | @sync block ready =>
    apply sum_lt_sum
    · intro other _
      dsimp only
      split
      · exact tails _
      · exact Nat.le_refl _
    · refine ⟨(block, 0), mem_univ _, ?_⟩
      simpa using shorter (ready 0)
  | gridSync ready =>
    apply sum_lt_sum
    · intro other _
      exact tails _
    · exact ⟨(0, 0), mem_univ _, shorter (ready _)⟩

theorem Aligned.finish [NeZero G] [NeZero T] (target : Nat) {program : Fin G × Fin T → List Op} (aligned : Aligned program) :
    ∃ state, Reachable target program state ∧ Stuck target state ∧ ∀ thread, state.rest thread = [] := by
  obtain ⟨actions, final, reached, stuck⟩ :=
    runs_end (fire target) remaining (fun _ _ _ => fire_remaining) (State.initial program)
  have reachable : Reachable target program final := ⟨actions, reached⟩
  have kept : Aligned final.rest := by
    refine reachable_invariant (fun state => Aligned state.rest) aligned ?_ reachable
    exact fun _ _ before step => before.step step
  exact ⟨final, reachable, stuck, kept.stuck stuck⟩

def State.append (state : State G T) (later : Fin G × Fin T → List Op) : State G T :=
  { state with rest := fun thread => state.rest thread ++ later thread }

private theorem head_append (ahead : ops.head? = some op) (later : List Op) : (ops ++ later).head? = some op := by
  cases ops with
  | nil => cases ahead
  | cons _ _ => exact ahead

private theorem tail_append (ahead : ops.head? = some op) (later : List Op) :
    (ops ++ later).tail = ops.tail ++ later := by
  cases ops with
  | nil => cases ahead
  | cons _ _ => rfl

theorem fire_append (target : Nat) (later : Fin G × Fin T → List Op) (before : State G T) (action : Action G T) (after : State G T)
    (fired : fire target before action = some after) : fire target (before.append later) action = some (after.append later) := by
  cases action with
  | step thread =>
    simp only [fire] at fired
    split at fired
    next => cases fired
    next op rest ahead =>
      have moved : (fun other => update before.rest thread rest other ++ later other) =
          update (fun other => before.rest other ++ later other) thread (rest ++ later thread) := by
        funext other
        by_cases own : other = thread
        · subst own
          simp
        · simp [own]
      simp only [fire, State.append, ahead, List.cons_append]
      rw [← moved]
      cases op with
      | access | add | signalIf | resetIf | signal | reset =>
        cases fired
        rfl
      | sync | gridSync => cases fired
  | sync block =>
    obtain ⟨ready, result⟩ := Option.ite_none_right_eq_some.mp fired
    cases result
    have kept : ∀ thread, ((before.append later).rest (block, thread)).head? = some .sync := fun thread =>
      head_append (ready thread) _
    rw [fire, if_pos kept]
    congr 2
    funext thread
    by_cases own : thread.1 = block
    · subst own
      simp only [State.append, if_true]
      exact tail_append (ready thread.2) _
    · simp [State.append, own]
  | gridSync =>
    obtain ⟨ready, result⟩ := Option.ite_none_right_eq_some.mp fired
    cases result
    have kept : ∀ thread, ((before.append later).rest thread).head? = some .gridSync := fun thread => head_append (ready thread) _
    rw [fire, if_pos kept]
    congr 2
    funext thread
    exact tail_append (ready thread) _

theorem step_suffix {before after : State G T} (step : Step target before after) (thread : Fin G × Fin T) :
    after.rest thread <:+ before.rest thread := by
  cases step with
  | @step moved op rest _ ahead performed =>
    have popped : after.rest = update before.rest moved rest := perform_rest performed
    rw [popped]
    by_cases own : thread = moved
    · subst own
      rw [update_self, ahead]
      exact List.suffix_cons op rest
    · rw [update_of_ne own]
  | sync ready =>
    dsimp only
    split
    · exact List.tail_suffix _
    · exact List.suffix_rfl
  | gridSync ready => exact List.tail_suffix _

theorem reachable_suffix {program : Fin G × Fin T → List Op} {state : State G T}
    (reachable : Reachable target program state) (thread : Fin G × Fin T) : state.rest thread <:+ program thread := by
  refine reachable_invariant (fun state => ∀ thread, state.rest thread <:+ program thread) (fun _ => List.suffix_rfl) ?_ reachable thread
  intro before after kept step thread
  exact (step_suffix step thread).trans (kept thread)

end PplxGarden.Library.Grid
