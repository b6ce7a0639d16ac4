import PplxGarden.Library.Runs
import Mathlib.Algebra.BigOperators.Group.Finset.Basic
import Mathlib.Algebra.Order.BigOperators.Group.Finset
import Mathlib.Algebra.BigOperators.Ring.Finset
import Mathlib.Data.Fintype.Basic

/-! Processes that run through the same sequence of waits. At every point a process
posts messages to its peers, subtracts what it expects from its counter of the
point's kind and waits until that counter is no longer negative. A message adds one
to the counter of its kind, which cannot tell where the message came from; full
exchanges between two points of one kind keep them apart nevertheless. -/

namespace PplxGarden.Library.Counters
open Library Function Finset

/-- `posts point source dst` messages are posted, unless the process stops there. -/
structure Plan (κ ι : Type) where
  kind : Nat → κ
  target : Nat → Nat
  posts : Nat → ι → Option (ι → Nat)

inductive Phase where
  | submit
  | subtract
  | spin
deriving Repr, DecidableEq

/-- `delivered point source dst` counts the messages of a point that arrived. -/
structure State (κ ι : Type) where
  point : ι → Nat
  phase : ι → Phase
  counter : κ → ι → Int
  delivered : Nat → ι → ι → Nat

def State.initial (κ ι : Type) : State κ ι where
  point _ := 0
  phase _ := .submit
  counter _ _ := 0
  delivered _ _ _ := 0

inductive Action (ι : Type) where
  | submit (process : ι)
  | subtract (process : ι)
  | observe (process : ι)
  | deliver (point : Nat) (source dst : ι)
deriving Repr, DecidableEq

variable {κ ι : Type}

namespace State

def Submitted (state : State κ ι) (point : Nat) (process : ι) : Prop :=
  point < state.point process ∨ (point = state.point process ∧ state.phase process ≠ .submit)

def Subtracted (state : State κ ι) (point : Nat) (process : ι) : Prop :=
  point < state.point process ∨ (point = state.point process ∧ state.phase process = .spin)

instance (state : State κ ι) (point : Nat) (process : ι) : Decidable (state.Submitted point process) :=
  inferInstanceAs (Decidable (_ ∨ _))

instance (state : State κ ι) (point : Nat) (process : ι) : Decidable (state.Subtracted point process) :=
  inferInstanceAs (Decidable (_ ∨ _))

variable [DecidableEq κ] [DecidableEq ι]

def enter (state : State κ ι) (process : ι) (phase : Phase) : State κ ι :=
  { state with phase := update state.phase process phase }

def proceed (state : State κ ι) (process : ι) : State κ ι :=
  { state with
    point := update state.point process (state.point process + 1)
    phase := update state.phase process .submit }

def add (state : State κ ι) (kind : κ) (process : ι) (amount : Int) : State κ ι :=
  { state with counter := fun k p => state.counter k p + if k = kind ∧ p = process then amount else 0 }

def arrive (state : State κ ι) (point : Nat) (source dst : ι) : State κ ι :=
  { state with delivered := fun i r p => state.delivered i r p + if p = dst ∧ r = source ∧ i = point then 1 else 0 }

end State

variable (plan : Plan κ ι)

/-- How many messages of a point a process sends to another. -/
def Plan.sends (point : Nat) (source dst : ι) : Nat := ((plan.posts point source).getD fun _ => 0) dst

/-- The process is about to return from the wait of a point. -/
def Returns (state : State κ ι) (process : ι) (point : Nat) : Prop :=
  state.point process = point ∧
    ((state.phase process = .subtract ∧ plan.target point ≤ state.counter (plan.kind point) process) ∨
      (state.phase process = .spin ∧ 0 ≤ state.counter (plan.kind point) process))

instance (state : State κ ι) (process : ι) (point : Nat) : Decidable (Returns plan state process point) :=
  inferInstanceAs (Decidable (_ ∧ _))

variable {state before after : State κ ι} {process other : ι} {point current bound : Nat}

section
variable [DecidableEq κ] [DecidableEq ι]

def fire (state : State κ ι) : Action ι → Option (State κ ι)
  | .submit process =>
    if state.phase process = .submit ∧ (plan.posts (state.point process) process).isSome then
      some (state.enter process .subtract)
    else none
  | .subtract process =>
    let point := state.point process
    let old := state.counter (plan.kind point) process
    let after := state.add (plan.kind point) process (-plan.target point)
    if state.phase process = .subtract then
      if plan.target point ≤ old then some (after.proceed process) else some (after.enter process .spin)
    else none
  | .observe process =>
    if state.phase process = .spin ∧ 0 ≤ state.counter (plan.kind (state.point process)) process then
      some (state.proceed process)
    else none
  | .deliver point source dst =>
    if state.Submitted point source ∧ state.delivered point source dst < plan.sends point source dst then
      some ((state.add (plan.kind point) dst 1).arrive point source dst)
    else none

inductive Step (state : State κ ι) : State κ ι → Prop where
  | submit (process : ι) : state.phase process = .submit → Step state (state.enter process .subtract)
  | pass (process : ι) : state.phase process = .subtract → Returns plan state process (state.point process) →
      Step state ((state.add (plan.kind (state.point process)) process (-plan.target (state.point process))).proceed process)
  | spin (process : ι) : state.phase process = .subtract →
      Step state ((state.add (plan.kind (state.point process)) process (-plan.target (state.point process))).enter process .spin)
  | observe (process : ι) : state.phase process = .spin → Returns plan state process (state.point process) →
      Step state (state.proceed process)
  | deliver (point : Nat) (source dst : ι) : state.Submitted point source →
      state.delivered point source dst < plan.sends point source dst →
      Step state ((state.add (plan.kind point) dst 1).arrive point source dst)

variable {plan}

theorem fire_step {action : Action ι} (fired : fire plan state action = some after) :
    Step plan state after := by
  cases action with
  | submit process =>
    obtain ⟨allowed, result⟩ := Option.ite_none_right_eq_some.mp fired
    cases result
    exact .submit process allowed.1
  | subtract process =>
    obtain ⟨allowed, result⟩ := Option.ite_none_right_eq_some.mp fired
    split at result
    next enough =>
      cases result
      exact .pass process allowed ⟨rfl, .inl ⟨allowed, enough⟩⟩
    next =>
      cases result
      exact .spin process allowed
  | observe process =>
    obtain ⟨allowed, result⟩ := Option.ite_none_right_eq_some.mp fired
    cases result
    exact .observe process allowed.1 ⟨rfl, .inr allowed⟩
  | deliver point source dst =>
    obtain ⟨allowed, result⟩ := Option.ite_none_right_eq_some.mp fired
    cases result
    exact .deliver point source dst allowed.1 allowed.2

end

section
variable [DecidableEq κ] [Fintype ι]

/-- No more messages are sent than expected, and between two points of one kind
everybody has to hear from everybody. -/
structure Plan.Sound : Prop where
  expected : ∀ point dst, ∑ source, plan.sends point source dst ≤ plan.target point
  separated : ∀ first second, first < second → plan.kind first = plan.kind second →
    ∃ between, first < between ∧ between < second ∧ ∀ source dst, source ≠ dst →
      ∑ source, plan.sends between source dst = plan.target between → 0 < plan.sends between source dst

/-- Messages of a kind that arrived, among the points below a bound. -/
def arrivals (state : State κ ι) (kind : κ) (process : ι) (bound : Nat) : Nat :=
  ∑ point ∈ range bound, if plan.kind point = kind then ∑ source, state.delivered point source process else 0

omit [Fintype ι] in
/-- What a process has subtracted from a counter, among the points below a bound. -/
def subtractions (state : State κ ι) (kind : κ) (process : ι) (bound : Nat) : Nat :=
  ∑ point ∈ range bound, if plan.kind point = kind ∧ state.Subtracted point process then plan.target point else 0

structure Inv (state : State κ ι) : Prop where
  bounded : ∀ point source dst, state.delivered point source dst ≤ plan.sends point source dst
  posted : ∀ point source dst, 0 < state.delivered point source dst → state.Submitted point source
  counted : ∀ bound, (∀ process, state.point process < bound) → ∀ kind process,
    state.counter kind process = arrivals plan state kind process bound - subtractions plan state kind process bound
  settled : ∀ point process, point < state.point process →
    ∑ source, state.delivered point source process = plan.target point

variable {plan}

theorem inv_initial : Inv plan (State.initial κ ι) := by
  refine ⟨?_, ?_, ?_, ?_⟩
  · intro point source dst
    exact Nat.zero_le _
  · intro point source dst some
    exact absurd some (Nat.lt_irrefl 0)
  · intro bound _ kind process
    simp [State.initial, arrivals, subtractions, State.Subtracted]
  · intro point process before
    exact absurd before (Nat.not_lt_zero _)

/-- As many messages as expected arrived only if all that were sent did. -/
theorem Inv.complete (inv : Inv plan state) (sound : plan.Sound) {dst : ι}
    (full : ∑ source, state.delivered point source dst = plan.target point) (source : ι) :
    state.delivered point source dst = plan.sends point source dst := by
  have below : ∀ source ∈ univ, state.delivered point source dst ≤ plan.sends point source dst :=
    fun source _ => inv.bounded point source dst
  have total : ∑ source, state.delivered point source dst = ∑ source, plan.sends point source dst :=
    (sum_le_sum below).antisymm (full ▸ sound.expected point dst)
  exact (sum_eq_sum_iff_of_le below).mp total source (mem_univ source)

/-- Whoever posts at a point of some kind, everybody is past the earlier points of
that kind. -/
theorem Inv.separate (inv : Inv plan state) (sound : plan.Sound) {first second : Nat} {source : ι}
    (ordered : first < second) (same : plan.kind first = plan.kind second) (submitted : state.Submitted second source) :
    first < state.point process := by
  have reached : second ≤ state.point source := by
    cases submitted with
    | inl passed => exact passed.le
    | inr here => exact here.1.le
  by_cases own : source = process
  · subst own
    omega
  · obtain ⟨between, lower, upper, heard⟩ := sound.separated first second ordered same
    have full := inv.settled between source (by omega)
    have every := inv.complete sound full
    have arrived : 0 < state.delivered between process source := by
      rw [every process]
      apply heard process source (Ne.symm own)
      rw [← full]
      exact sum_congr rfl fun sender _ => (every sender).symm
    cases inv.posted between process source arrived with
    | inl passed => omega
    | inr here => omega

theorem Inv.later_empty (inv : Inv plan state) (sound : plan.Sound)
    (later : state.point process < point) (same : plan.kind (state.point process) = plan.kind point) (source : ι) :
    state.delivered point source process = 0 := by
  by_contra arrived
  have submitted := inv.posted point source process (Nat.pos_of_ne_zero arrived)
  have passed : state.point process < state.point process := inv.separate sound later same submitted
  exact Nat.lt_irrefl _ passed

theorem Inv.balance (inv : Inv plan state) (sound : plan.Sound) (process : ι) :
    state.counter (plan.kind (state.point process)) process = ∑ source, state.delivered (state.point process) source process -
      if state.phase process = .spin then (plan.target (state.point process) : Int) else 0 := by
  have below : ∀ other, state.point other < univ.sup state.point + 1 := fun other =>
    Nat.lt_succ_of_le (le_sup (mem_univ other))
  rw [inv.counted _ below, arrivals, subtractions, Nat.cast_sum, Nat.cast_sum, ← sum_sub_distrib,
    sum_eq_single (state.point process)]
  · simp [State.Subtracted]
  · intro point _ other
    by_cases same : plan.kind point = plan.kind (state.point process)
    · cases Nat.lt_or_gt_of_ne other with
      | inl earlier => simp [same, State.Subtracted, earlier, inv.settled point process earlier]
      | inr later =>
        have absent : ¬ state.Subtracted point process := by
          simp only [State.Subtracted]
          omega
        simp [same, absent, inv.later_empty sound later same.symm]
    · simp [same]
  · intro outside
    exact absurd (mem_range.mpr (below process)) outside

/-- A wait returns only when everything expected at its point has arrived. -/
theorem Inv.returned (inv : Inv plan state) (sound : plan.Sound)
    (returns : Returns plan state process point) : ∑ source, state.delivered point source process = plan.target point := by
  obtain ⟨here, ready⟩ := returns
  subst here
  have balance := inv.balance sound process
  have below := (sum_le_sum fun source _ => inv.bounded (state.point process) source process).trans
    (sound.expected (state.point process) process)
  have above : (plan.target (state.point process) : Int) ≤ ∑ source, state.delivered (state.point process) source process := by
    cases ready with
    | inl direct =>
      rw [balance, direct.1] at direct
      simpa using direct.2
    | inr spinning =>
      rw [balance, spinning.1] at spinning
      simpa using spinning.2
  exact le_antisymm below (by exact_mod_cast above)

section
variable [DecidableEq ι]

omit [DecidableEq κ] [Fintype ι] in
theorem submitted_proceed (process : ι) (submitted : state.Submitted point other) :
    (state.proceed process).Submitted point other := by
  by_cases own : other = process
  · subst own
    left
    cases submitted with
    | inl passed => simpa [State.proceed] using passed.trans (Nat.lt_succ_self _)
    | inr here => simp [State.proceed, here.1]
  · simpa [State.Submitted, State.proceed, own] using submitted

omit [DecidableEq κ] [Fintype ι] in
theorem submitted_enter (process : ι) {phase : Phase} (moved : phase ≠ .submit)
    (submitted : state.Submitted point other) : (state.enter process phase).Submitted point other := by
  by_cases own : other = process
  · subst own
    cases submitted with
    | inl passed => exact .inl passed
    | inr here => exact .inr ⟨here.1, by simpa [State.enter] using moved⟩
  · simpa [State.Submitted, State.enter, own] using submitted

omit [DecidableEq κ] [Fintype ι] in
theorem subtracted_enter (ready : state.phase process ≠ .spin) (phase : Phase) (point : Nat) (other : ι) :
    (state.enter process phase).Subtracted point other ↔
      state.Subtracted point other ∨ (phase = .spin ∧ other = process ∧ point = state.point process) := by
  by_cases own : other = process
  · subst own
    simp only [State.Subtracted, State.enter, update_self, ready, and_false, or_false, true_and]
    tauto
  · simp [State.Subtracted, State.enter, own]

omit [DecidableEq κ] [Fintype ι] in
theorem subtracted_proceed (process : ι) (point : Nat) (other : ι) :
    (state.proceed process).Subtracted point other ↔
      state.Subtracted point other ∨ (other = process ∧ point = state.point process) := by
  by_cases own : other = process
  · subst own
    simp only [State.Subtracted, State.proceed, update_self]
    simp only [reduceCtorEq, and_false, or_false, true_and]
    omega
  · simp [State.Subtracted, State.proceed, own]

omit [Fintype ι] in
theorem subtractions_insert
    (marked : ∀ point other, after.Subtracted point other ↔ before.Subtracted point other ∨ (other = process ∧ point = current))
    (fresh : ¬ before.Subtracted current process) (inside : current < bound) (kind : κ) (other : ι) :
    subtractions plan after kind other bound =
      subtractions plan before kind other bound + if kind = plan.kind current ∧ other = process then plan.target current else 0 := by
  have single : (if kind = plan.kind current ∧ other = process then plan.target current else 0) =
      ∑ point ∈ range bound, if point = current then
        if kind = plan.kind current ∧ other = process then plan.target current else 0 else 0 := by
    rw [sum_ite_eq' (range bound) current, if_pos (mem_range.mpr inside)]
  rw [single, subtractions, subtractions, ← sum_add_distrib]
  refine sum_congr rfl fun point _ => ?_
  by_cases here : point = current
  · subst here
    by_cases own : other = process
    · subst own
      simp [marked, fresh, eq_comm]
    · simp [marked, own]
  · simp [marked, here]

theorem arrivals_arrive (state : State κ ι) (source dst : ι) (inside : current < bound) (kind : κ) (other : ι) :
    arrivals plan (state.arrive current source dst) kind other bound =
      arrivals plan state kind other bound + if kind = plan.kind current ∧ other = dst then 1 else 0 := by
  have single : (if kind = plan.kind current ∧ other = dst then 1 else 0) =
      ∑ point ∈ range bound, if point = current then if kind = plan.kind current ∧ other = dst then 1 else 0 else 0 := by
    rw [sum_ite_eq' (range bound) current, if_pos (mem_range.mpr inside)]
  rw [single, arrivals, arrivals, ← sum_add_distrib]
  refine sum_congr rfl fun point _ => ?_
  by_cases here : point = current
  · subst here
    by_cases own : other = dst
    · subst own
      simp [State.arrive, sum_add_distrib, eq_comm]
      split <;> rfl
    · simp [State.arrive, own]
  · simp [State.arrive, here]

omit [Fintype ι] [DecidableEq ι] in
theorem subtractions_same (same : ∀ point other, after.Subtracted point other ↔ before.Subtracted point other)
    (kind : κ) (other : ι) (bound : Nat) : subtractions plan after kind other bound = subtractions plan before kind other bound := by
  simp only [subtractions, same]

omit [DecidableEq κ] [Fintype ι] in
theorem point_proceed (state : State κ ι) (process other : ι) : state.point other ≤ (state.proceed process).point other := by
  by_cases own : other = process
  · subst own
    simp [State.proceed]
  · simp [State.proceed, own]

theorem Inv.settled_proceed (inv : Inv plan state) (sound : plan.Sound)
    (returns : Returns plan state process (state.point process))
    (passed : point < (state.proceed process).point other) : ∑ source, state.delivered point source other = plan.target point := by
  by_cases own : other = process
  · subst own
    simp only [State.proceed, update_self] at passed
    cases Nat.lt_succ_iff_lt_or_eq.mp passed with
    | inl earlier => exact inv.settled point other earlier
    | inr here =>
      subst here
      exact inv.returned sound returns
  · simp only [State.proceed, update_of_ne own] at passed
    exact inv.settled point other passed

/-- The counter stays balanced when a target is subtracted and its point marked. -/
theorem Inv.counted_subtract (inv : Inv plan state) (after : State κ ι)
    (ready : state.phase process = .subtract)
    (monotone : ∀ other, state.point other ≤ after.point other)
    (delivered : after.delivered = state.delivered)
    (counter : after.counter = (state.add (plan.kind (state.point process)) process
      (-plan.target (state.point process))).counter)
    (marked : ∀ point other, after.Subtracted point other ↔ state.Subtracted point other ∨
      (other = process ∧ point = state.point process)) (below : ∀ other, after.point other < bound)
    (kind : κ) (other : ι) :
    after.counter kind other = arrivals plan after kind other bound - subtractions plan after kind
      other bound := by
  have inside : ∀ other, state.point other < bound := fun other => (monotone other).trans_lt (below other)
  have fresh : ¬ state.Subtracted (state.point process) process := by simp [State.Subtracted, ready]
  have same : arrivals plan after kind other bound = arrivals plan state kind other bound := by simp only [arrivals, delivered]
  rw [counter, same, subtractions_insert marked fresh (inside process)]
  simp only [State.add, inv.counted bound inside kind other]
  split
  next => omega
  next => omega

/-- A delivery is counted once and never concerns a point its destination has passed. -/
theorem Inv.deliver (inv : Inv plan state) (sound : plan.Sound) {source dst : ι}
    (submitted : state.Submitted current source) (room : state.delivered current source dst < plan.sends current source dst) :
    Inv plan ((state.add (plan.kind current) dst 1).arrive current source dst) := by
  have waiting : state.point dst ≤ current := by
    by_contra passed
    have full := inv.complete sound (inv.settled current dst (Nat.lt_of_not_le passed)) source
    omega
  refine ⟨?_, ?_, ?_, ?_⟩
  · intro point sender receiver
    have bound := inv.bounded point sender receiver
    simp only [State.arrive, State.add]
    split
    next same =>
      obtain ⟨rfl, rfl, rfl⟩ := same
      omega
    next => omega
  · intro point sender receiver arrived
    simp only [State.arrive, State.add] at arrived
    split at arrived
    next same =>
      obtain ⟨rfl, rfl, rfl⟩ := same
      exact submitted
    next => exact inv.posted point sender receiver arrived
  · intro bound below kind other
    have reached : current ≤ state.point source := by
      cases submitted with
      | inl passed => exact passed.le
      | inr here => exact here.1.le
    have same : subtractions plan ((state.add (plan.kind current) dst 1).arrive current source dst) kind other bound =
        subtractions plan state kind other bound := subtractions_same (fun _ _ => Iff.rfl) kind other bound
    have grown : arrivals plan ((state.add (plan.kind current) dst 1).arrive current source dst) kind other bound =
        arrivals plan state kind other bound + if kind = plan.kind current ∧ other = dst then 1 else 0 :=
      arrivals_arrive _ source dst (reached.trans_lt (below source)) kind other
    rw [same, grown]
    simp only [State.arrive, State.add, inv.counted bound below kind other]
    split
    next => omega
    next => omega
  · intro point other passed
    have elsewhere : ¬ (other = dst ∧ point = current) := by
      intro same
      obtain ⟨rfl, rfl⟩ := same
      exact absurd passed (Nat.not_lt.mpr waiting)
    rw [← inv.settled point other passed]
    refine sum_congr rfl fun sender _ => ?_
    simp only [State.arrive, State.add]
    rw [if_neg fun same => elsewhere ⟨same.1, same.2.2⟩, Nat.add_zero]

theorem Inv.step (inv : Inv plan before) (sound : plan.Sound) (step : Step plan before after) :
    Inv plan after := by
  cases step with
  | submit process ready =>
    refine ⟨inv.bounded, ?_, ?_, inv.settled⟩
    · intro point source dst arrived
      exact submitted_enter process (by decide) (inv.posted point source dst arrived)
    · intro bound below kind other
      have unmarked : ∀ point other, (before.enter process .subtract).Subtracted point other ↔ before.Subtracted point other := by
        intro point other
        simp [subtracted_enter (show before.phase process ≠ .spin by simp [ready])]
      rw [subtractions_same unmarked]
      exact inv.counted bound below kind other
  | pass process ready returns =>
    refine ⟨inv.bounded, ?_, ?_, ?_⟩
    · intro point source dst arrived
      exact submitted_proceed process (inv.posted point source dst arrived)
    · intro bound below kind other
      exact inv.counted_subtract (State.proceed (before.add _ process _) process) ready (point_proceed before process) rfl rfl (subtracted_proceed process) below kind other
    · intro point other passed
      exact inv.settled_proceed sound returns passed
  | spin process ready =>
    refine ⟨inv.bounded, ?_, ?_, inv.settled⟩
    · intro point source dst arrived
      exact submitted_enter process (by decide) (inv.posted point source dst arrived)
    · intro bound below kind other
      refine inv.counted_subtract (State.enter (before.add _ process _) process .spin) ready (fun _ => Nat.le_refl _) rfl rfl ?_ below kind other
      intro point other
      exact (subtracted_enter (by simp [State.add, ready]) .spin point other).trans (by simp [State.add, State.Subtracted])
  | observe process ready returns =>
    refine ⟨inv.bounded, ?_, ?_, ?_⟩
    · intro point source dst arrived
      exact submitted_proceed process (inv.posted point source dst arrived)
    · intro bound below kind other
      have unmarked : ∀ point other, (before.proceed process).Subtracted point other ↔ before.Subtracted point other := by
        intro point other
        rw [subtracted_proceed]
        refine ⟨?_, .inl⟩
        intro marked
        cases marked with
        | inl earlier => exact earlier
        | inr here =>
          rw [here.1, here.2]
          exact .inr ⟨rfl, ready⟩
      rw [subtractions_same unmarked]
      exact inv.counted bound (fun other => (point_proceed before process other).trans_lt (below other)) kind other
    · intro point other passed
      exact inv.settled_proceed sound returns passed
  | deliver current source dst submitted room => exact inv.deliver sound submitted room

/-- In every run of a sound plan, a process that returns from a wait has received
everything its peers send it there and nothing of a later point of that kind. -/
theorem returns_separated (sound : plan.Sound) {actions : List (Action ι)}
    (reached : runs (fire plan) (State.initial κ ι) actions = some state)
    (returns : Returns plan state process point) (source : ι) :
    state.delivered point source process = plan.sends point source process ∧
      ∀ later, point < later → plan.kind later = plan.kind point → state.delivered later source process = 0 := by
  have inv : Inv plan state := runs_invariant inv_initial (fun _ _ _ inv fired => inv.step sound (fire_step fired)) reached
  refine ⟨inv.complete sound (inv.returned sound returns) source, ?_⟩
  intro later after same
  obtain ⟨here, _⟩ := returns
  subst here
  exact inv.later_empty sound after same.symm source

end

end

end PplxGarden.Library.Counters
