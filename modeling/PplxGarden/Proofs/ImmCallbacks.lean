import Mathlib.Data.List.Count
import Mathlib.Data.List.Range
import Mathlib.Data.List.Nodup
import PplxGarden.Fabric.ImmCallbacks
import PplxGarden.Library.Runs

/-! A counter that is wanted once. Until it is removed the counter starts again whenever
it is full, so what arrives in that time is lost in rounds of the expected count. -/

namespace PplxGarden.Fabric
open Function List Nat

theorem NonZeroU32.load (target : NonZeroU32) (count : Nat) :
    loadU32 ((count % target.value : Nat) : Int) = count % target.value := by
  have below := mod_lt count target.positive
  have small := target.small
  unfold loadU32
  omega

/-- Counting one more value: the counter reaches its target exactly when a round is full. -/
theorem inc_expected (target : NonZeroU32) (count : Nat) :
    (count % target.value + 1 = target.value →
      (ImmCount.expected ((count % target.value : Nat) : Int) target).inc = (true, .expected 0 target) ∧
      (count + 1) / target.value = count / target.value + 1 ∧ (count + 1) % target.value = 0) ∧
    (¬ count % target.value + 1 = target.value →
      (ImmCount.expected ((count % target.value : Nat) : Int) target).inc =
        (false, .expected ((count % target.value + 1 : Nat) : Int) target) ∧
      (count + 1) / target.value = count / target.value ∧ (count + 1) % target.value = count % target.value + 1) := by
  have positive := target.positive
  have below := mod_lt count positive
  have whole := div_add_mod count target.value
  constructor
  · intro full
    refine ⟨?_, (Nat.div_mod_unique positive).mpr ?_⟩
    · have zero : ((count % target.value : Nat) : Int) + 1 - target.value = 0 := by omega
      simp only [ImmCount.inc, NonZeroU32.load, full, decide_true, if_true, zero]
    · rw [Nat.mul_add]
      omega
  · intro more
    refine ⟨?_, (Nat.div_mod_unique positive).mpr ?_⟩
    · simp only [ImmCount.inc, NonZeroU32.load, more, decide_false, Bool.false_eq_true, if_false]
      rfl
    · omega

namespace ImmEngine
open Library

variable {start state next : ImmEngine} {imm : Nat} {target : NonZeroU32} {called : Bool}
  {removed other : Nat} {action : Action} {comp : TransferCompletionEntry}
  {entries : List TransferCompletionEntry}

theorem count_callImm (state : ImmEngine) (other callback imm : Nat) :
    (state.callImm other).immCalls.count (callback, imm) =
      state.immCalls.count (callback, imm) + if other = imm ∧ callback < state.callbacks then 1
        else 0 := by
  rw [callImm, count_append]
  congr 1
  by_cases same : other = imm
  · subst same
    rw [count_map_of_injective _ _ fun one two equal => (Prod.mk.inj equal).1]
    by_cases inside : callback < state.callbacks
    · rw [if_pos ⟨rfl, inside⟩, count_eq_one_of_mem nodup_range (mem_range.mpr inside)]
    · rw [if_neg fun both => inside both.2, count_eq_zero_of_not_mem fun member => inside (mem_range.mp member)]
  · rw [if_neg fun both => same both.1, count_eq_zero_of_not_mem]
    intro member
    obtain ⟨_, _, equal⟩ := mem_map.mp member
    exact same (Prod.mk.inj equal).2

/-- The counter is set; `called` says that its callback has answered. -/
structure Armed (start : ImmEngine) (imm : Nat) (target : NonZeroU32) (called : Bool) (state : ImmEngine) : Prop where
  counter : state.immCountMap imm = some (.expected ((state.arrived imm % target.value : Nat) : Int) target)
  handler : state.handlers imm = some (.repeated (.ok false))
  callbacks : state.callbacks = start.callbacks
  thread : state.thread = .removing imm ↔ called = true
  data : state.entries.count (.immData imm) = 0
  full : state.entries.count (.immCountReached imm) + called.toNat = state.arrived imm / target.value
  ran : state.countCalls.count imm = start.countCalls.count imm + called.toNat
  calls : ∀ callback, state.immCalls.count (callback, imm) = start.immCalls.count (callback, imm)

/-- The counter was removed when `removed` values had arrived. -/
structure Disarmed (start : ImmEngine) (imm : Nat) (target : NonZeroU32) (removed : Nat)
    (state : ImmEngine) : Prop where
  counter : state.immCountMap imm = none
  handler : state.handlers imm = none
  callbacks : state.callbacks = start.callbacks
  thread : state.thread ≠ .removing imm
  ran : state.countCalls.count imm = start.countCalls.count imm + 1
  calls : ∀ callback, callback < start.callbacks →
    state.immCalls.count (callback, imm) + state.entries.count (.immData imm) + removed =
    start.immCalls.count (callback, imm) + removed % target.value + state.arrived imm

structure Aside (imm : Nat) (state next : ImmEngine) : Prop where
  counter : next.immCountMap imm = state.immCountMap imm
  handler : next.handlers imm = state.handlers imm
  callbacks : next.callbacks = state.callbacks
  thread : next.thread = .removing imm ↔ state.thread = .removing imm
  data : next.entries.count (.immData imm) = state.entries.count (.immData imm)
  full : next.entries.count (.immCountReached imm) = state.entries.count (.immCountReached imm)
  ran : next.countCalls.count imm = state.countCalls.count imm
  calls : ∀ callback, next.immCalls.count (callback, imm) = state.immCalls.count (callback, imm)
  arrived : next.arrived imm = state.arrived imm

theorem Armed.aside (armed : Armed start imm target called state) (aside : Aside imm state next) :
    Armed start imm target called next := by
  obtain ⟨counter, handler, callbacks, thread, data, full, ran, calls, arrived⟩ := aside
  refine ⟨?_, ?_, ?_, ?_, ?_, ?_, ?_, ?_⟩
  · rw [counter, arrived, armed.counter]
  · rw [handler, armed.handler]
  · rw [callbacks, armed.callbacks]
  · rw [thread, armed.thread]
  · rw [data, armed.data]
  · rw [full, arrived, armed.full]
  · rw [ran, armed.ran]
  · intro callback
    rw [calls, armed.calls]

theorem Disarmed.aside (disarmed : Disarmed start imm target removed state) (aside : Aside imm state next) :
    Disarmed start imm target removed next := by
  obtain ⟨counter, handler, callbacks, thread, data, full, ran, calls, arrived⟩ := aside
  refine ⟨?_, ?_, ?_, ?_, ?_, ?_⟩
  · rw [counter, disarmed.counter]
  · rw [handler, disarmed.handler]
  · rw [callbacks, disarmed.callbacks]
  · rw [Ne, thread]
    exact disarmed.thread
  · rw [ran, disarmed.ran]
  · intro callback inside
    rw [calls, data, arrived, disarmed.calls callback inside]

private theorem handleCqe_aside (apart : other ≠ imm) : Aside imm state (state.handleCqe other) := by
  have counter : (state.immCountMap.inc other).2 imm = state.immCountMap imm := by
    unfold ImmCountMap.inc
    split
    next => rfl
    next => exact update_of_ne (Ne.symm apart) ..
  refine ⟨counter, rfl, rfl, Iff.rfl, ?_, ?_, rfl, fun _ => rfl, update_of_ne (Ne.symm apart) ..⟩
  · rw [handleCqe, count_append]
    split <;> simp [DomainCompletionEntry.txComp, apart]
  · rw [handleCqe, count_append]
    split <;> simp [DomainCompletionEntry.txComp, apart]

theorem Armed.arrive (armed : Armed start imm target called state) :
    Armed start imm target called (state.handleCqe imm) := by
  have step := inc_expected target (state.arrived imm)
  have arrives : (state.handleCqe imm).arrived imm = state.arrived imm + 1 := update_self ..
  by_cases reached : state.arrived imm % target.value + 1 = target.value
  · obtain ⟨counted, quotient, rest⟩ := step.1 reached
    have inc : state.immCountMap.inc imm = (.reached, update state.immCountMap imm (some (.expected 0 target))) := by
      rw [ImmCountMap.inc, armed.counter]
      simp only [counted, if_true]
    refine ⟨?_, armed.handler, armed.callbacks, armed.thread, ?_, ?_, armed.ran, armed.calls⟩
    · rw [arrives, rest, handleCqe, inc]
      exact update_self ..
    · rw [handleCqe, inc, count_append, armed.data]
      rfl
    · rw [arrives, quotient, ← armed.full, handleCqe, inc, count_append]
      simp [DomainCompletionEntry.txComp]
      omega
  · obtain ⟨counted, quotient, rest⟩ := step.2 reached
    have inc : state.immCountMap.inc imm =
        (.notReached, update state.immCountMap imm
          (some (.expected ((state.arrived imm % target.value + 1 : Nat) : Int) target))) := by
      rw [ImmCountMap.inc, armed.counter]
      simp only [counted, if_false, Bool.false_eq_true]
    refine ⟨?_, armed.handler, armed.callbacks, armed.thread, ?_, ?_, armed.ran, armed.calls⟩
    · rw [arrives, rest, handleCqe, inc]
      exact update_self ..
    · rw [handleCqe, inc, count_append, armed.data]
      rfl
    · rw [arrives, quotient, ← armed.full, handleCqe, inc, count_append]
      rfl

theorem Disarmed.arrive (disarmed : Disarmed start imm target removed state) :
    Disarmed start imm target removed (state.handleCqe imm) := by
  have inc : state.immCountMap.inc imm = (.vacant, state.immCountMap) := by
    rw [ImmCountMap.inc, disarmed.counter]
  have arrives : (state.handleCqe imm).arrived imm = state.arrived imm + 1 := update_self ..
  refine ⟨?_, disarmed.handler, disarmed.callbacks, disarmed.thread, disarmed.ran, fun callback inside => ?_⟩
  · rw [handleCqe, inc]
    exact disarmed.counter
  · have before := disarmed.calls callback inside
    have entries : (state.handleCqe imm).entries.count (.immData imm) = state.entries.count (.immData imm) + 1 := by
      rw [handleCqe, inc, count_append]
      simp [DomainCompletionEntry.txComp]
    rw [arrives, entries]
    change state.immCalls.count (callback, imm) + (state.entries.count (.immData imm) + 1) + removed = _
    omega

theorem callImms (items : List Nat) (state : ImmEngine) (other : Nat) :
    ∃ immCalls, items.foldl (fun state _ => state.callImm other) state =
      { state with immCalls } ∧ ∀ callback imm, immCalls.count (callback, imm) =
        state.immCalls.count (callback, imm) + if other = imm ∧ callback < state.callbacks then
          items.length else 0 := by
  induction items generalizing state with
  | nil => exact ⟨state.immCalls, rfl, fun _ _ => by simp⟩
  | cons item rest ih =>
    obtain ⟨immCalls, same, counts⟩ := ih (state.callImm other)
    refine ⟨immCalls, same, fun callback imm => ?_⟩
    rw [counts, count_callImm]
    change _ + (if other = imm ∧ callback < state.callbacks then rest.length else 0) = _
    split
    · rw [length_cons]
      omega
    · rfl

theorem removeImmCount_aside (apart : other ≠ imm) (busy : state.thread = .removing other) :
    Aside imm state (state.removeImmCount other) := by
  have away : ∀ {α : Type} (values : Nat → Option α) (value : Option α), update values other value imm = values imm :=
    fun values value => update_of_ne (Ne.symm apart) ..
  have thread : CallbackThread.idle = .removing imm ↔ state.thread = .removing imm := by
    rw [busy]
    simp [apart]
  unfold removeImmCount
  simp only
  split
  next => exact ⟨away .., away .., rfl, thread, rfl, rfl, rfl, fun _ => rfl, rfl⟩
  next immCount _ =>
    obtain ⟨immCalls, same, counts⟩ := callImms (List.range immCount.consume.1) { state with
      handlers := update state.handlers other none
      immCountMap := state.immCountMap.remove other
      thread := .idle } other
    rw [same]
    refine ⟨away .., away .., rfl, thread, rfl, rfl, rfl, fun callback => ?_, rfl⟩
    rw [counts, if_neg fun both => apart both.1, Nat.add_zero]

theorem Armed.remove (armed : Armed start imm target true state) :
    Disarmed start imm target (state.arrived imm) (state.removeImmCount imm) := by
  unfold removeImmCount
  simp only [armed.counter]
  obtain ⟨immCalls, same, counts⟩ := callImms
    (List.range (ImmCount.expected ((state.arrived imm % target.value : Nat) : Int) target).consume.1) { state with
      handlers := update state.handlers imm none
      immCountMap := state.immCountMap.remove imm
      thread := .idle } imm
  rw [same]
  refine ⟨update_self .., update_self .., armed.callbacks, (fun busy => by cases busy),
    armed.ran, fun callback inside => ?_⟩
  rw [counts, if_pos ⟨rfl, armed.callbacks ▸ inside⟩, armed.calls, length_range, ImmCount.consume,
    NonZeroU32.load, armed.data]
  rfl

theorem poll_aside (idle : state.thread = .idle)
    (front : state.entries = comp :: entries) (data : comp ≠ .immData imm) (full : comp ≠ .immCountReached imm) :
    Aside imm state ({ state with entries }.handleTransferCompletion comp) := by
  have popped : Aside imm state { state with entries } := by
    refine ⟨rfl, rfl, rfl, Iff.rfl, ?_, ?_, rfl, fun _ => rfl, rfl⟩
    · rw [front, count_cons_of_ne data]
    · rw [front, count_cons_of_ne full]
  have quiet : ∀ other, other ≠ imm → (CallbackThread.removing other = .removing imm ↔ state.thread = .removing imm) := by
    intro other apart
    rw [idle]
    simp [apart]
  obtain ⟨_, _, _, _, sameData, sameFull, _, _, _⟩ := popped
  cases comp with
  | immData other =>
    have apart : other ≠ imm := fun same => data (congrArg _ same)
    refine ⟨rfl, rfl, rfl, Iff.rfl, sameData, sameFull, rfl, fun callback => ?_, rfl⟩
    rw [handleTransferCompletion, count_callImm, if_neg fun both => apart both.1, Nat.add_zero]
  | immCountReached other =>
    have apart : other ≠ imm := fun same => full (congrArg _ same)
    have ran : (state.countCalls ++ [other]).count imm = state.countCalls.count imm := by
      rw [count_append, count_singleton, if_neg (by simpa using apart), Nat.add_zero]
    simp only [handleTransferCompletion]
    split
    next => exact ⟨rfl, rfl, rfl, Iff.rfl, sameData, sameFull, rfl, fun _ => rfl, rfl⟩
    next => exact ⟨rfl, update_of_ne (Ne.symm apart) .., rfl, Iff.rfl, sameData, sameFull, ran, fun _ => rfl, rfl⟩
    next => exact ⟨rfl, rfl, rfl, Iff.rfl, sameData, sameFull, ran, fun _ => rfl, rfl⟩
    next => exact ⟨rfl, rfl, rfl, quiet other apart, sameData, sameFull, ran, fun _ => rfl, rfl⟩
  | _ => exact ⟨rfl, rfl, rfl, Iff.rfl, sameData, sameFull, rfl, fun _ => rfl, rfl⟩

theorem Armed.poll (armed : Armed start imm target called state) (idle : state.thread = .idle)
    (front : state.entries = comp :: entries) :
    ∃ called, Armed start imm target called ({ state with entries }.handleTransferCompletion
      comp) := by
  have before : called = false := by
    rw [Bool.eq_false_iff]
    intro set
    rw [armed.thread.mpr set] at idle
    cases idle
  subst before
  by_cases data : comp = .immData imm
  · have none_ := armed.data
    rw [front, data, count_cons_self] at none_
    omega
  · by_cases full : comp = .immCountReached imm
    · subst full
      refine ⟨true, ?_⟩
      simp only [handleTransferCompletion, armed.handler]
      have data := armed.data
      have counted := armed.full
      have ran := armed.ran
      rw [front] at data counted
      rw [count_cons_of_ne (by simp)] at data
      rw [count_cons_self] at counted
      refine ⟨armed.counter, armed.handler, armed.callbacks, by simp, data, ?_, ?_, armed.calls⟩
      · exact counted
      · rw [runCount, count_append, ran, count_singleton_self]
        rfl
    · exact ⟨false, armed.aside (poll_aside idle front data full)⟩

theorem Disarmed.poll (disarmed : Disarmed start imm target removed state)
    (idle : state.thread = .idle) (front : state.entries = comp :: entries) :
    Disarmed start imm target removed ({ state with entries }.handleTransferCompletion comp) := by
  by_cases data : comp = .immData imm
  · subst data
    refine ⟨disarmed.counter, disarmed.handler, disarmed.callbacks, disarmed.thread,
      disarmed.ran, fun callback inside => ?_⟩
    have before := disarmed.calls callback inside
    rw [front, count_cons_self] at before
    rw [handleTransferCompletion, count_callImm, if_pos ⟨rfl, disarmed.callbacks ▸ inside⟩]
    change state.immCalls.count (callback, imm) + 1 + entries.count (.immData imm) + removed = _ + state.arrived imm
    omega
  · by_cases full : comp = .immCountReached imm
    · subst full
      simp only [handleTransferCompletion, disarmed.handler]
      refine ⟨disarmed.counter, disarmed.handler, disarmed.callbacks, disarmed.thread,
        disarmed.ran, fun callback inside => ?_⟩
      have before := disarmed.calls callback inside
      rw [front, count_cons_of_ne (by simp)] at before
      exact before
    · exact disarmed.aside (poll_aside idle front data full)

def Action.registers (imm : Nat) : Action → Prop
  | .register other _ _ => other = imm
  | _ => False

private theorem register_aside {expected : NonZeroU32} {callback : Except String Bool} (apart : other ≠ imm) :
    Aside imm state (state.setImmCountExpected other expected callback) :=
  ⟨update_of_ne (Ne.symm apart) .., update_of_ne (Ne.symm apart) .., rfl, Iff.rfl, rfl, rfl, rfl, fun _ => rfl,
    update_of_ne (Ne.symm apart) ..⟩

/-- A step removes the counter; or it is set aside, counts a value or takes an entry. -/
theorem fire_cases (others : ¬ action.registers imm) (fired : fire state action = some next) :
    (action = .remove ∧ state.thread = .removing imm) ∧ next = state.removeImmCount imm ∨
      ¬ (action = .remove ∧ state.thread = .removing imm) ∧
        (Aside imm state next ∨ next = state.handleCqe imm ∨
        ∃ comp entries, state.thread = .idle ∧ state.entries = comp :: entries ∧
          next = { state with entries }.handleTransferCompletion comp) := by
  cases action with
  | register other expected callback =>
    cases fired
    exact .inr ⟨(fun both => by cases both.1), .inl (register_aside others)⟩
  | arrive other =>
    cases fired
    refine .inr ⟨(fun both => by cases both.1), ?_⟩
    by_cases same : other = imm
    · exact .inr (.inl (same ▸ rfl))
    · exact .inl (handleCqe_aside same)
  | poll =>
    unfold fire at fired
    simp only at fired
    split at fired
    next comp entries idle front =>
      cases fired
      exact .inr ⟨(fun both => by cases both.1), .inr (.inr ⟨comp, entries, idle, front, rfl⟩)⟩
    next => cases fired
  | remove =>
    unfold fire at fired
    simp only at fired
    split at fired
    next other busy =>
      cases fired
      by_cases same : other = imm
      · subst same
        exact .inl ⟨⟨rfl, busy⟩, rfl⟩
      · refine .inr ⟨fun both => ?_, .inl (removeImmCount_aside same busy)⟩
        cases busy.symm.trans both.2
        exact same rfl
    next => cases fired

/-- The counter is removed before it is full for a second time. -/
def Prompt (imm : Nat) (target : NonZeroU32) (state : ImmEngine) : Action → Prop
  | .remove => state.thread = .removing imm → state.arrived imm < 2 * target.value
  | _ => True

instance (state : ImmEngine) (action : Action) : Decidable (Prompt imm target state action) := by
  unfold Prompt
  split <;> infer_instance

private theorem prompt_of_not (other : ¬ (action = .remove ∧ state.thread = .removing imm)) :
    Prompt imm target state action := by
  cases action with
  | remove => exact fun busy => absurd ⟨rfl, busy⟩ other
  | _ => trivial

theorem Disarmed.step (disarmed : Disarmed start imm target removed state) (others : ¬ action.registers imm)
    (fired : fire state action = some next) :
    Disarmed start imm target removed next ∧ restrict fire (Prompt imm target) state action = some next := by
  rcases fire_cases others fired with ⟨now, -⟩ | ⟨other, cases_⟩
  · exact absurd now.2 disarmed.thread
  · refine ⟨?_, restrict_eq_some.mpr ⟨prompt_of_not other, fired⟩⟩
    rcases cases_ with aside | rfl | ⟨comp, entries, idle, front, rfl⟩
    · exact disarmed.aside aside
    · exact disarmed.arrive
    · exact disarmed.poll idle front

theorem Disarmed.run {actions : List Action} {final : ImmEngine} (disarmed : Disarmed start imm target removed state)
    (others : ∀ action ∈ actions, ¬ action.registers imm) (reached : runs fire state actions = some final) :
    Disarmed start imm target removed final ∧ runs (restrict fire (Prompt imm target)) state actions = some final := by
  induction actions generalizing state with
  | nil =>
    cases reached
    exact ⟨disarmed, rfl⟩
  | cons action rest ih =>
    rw [runs_cons] at reached
    obtain ⟨next, fired, later⟩ := Option.bind_eq_some_iff.mp reached
    obtain ⟨kept, allowed⟩ := disarmed.step (others action (mem_cons_self ..)) fired
    rw [runs_cons, allowed]
    exact ih kept (fun other member => others other (mem_cons_of_mem _ member)) later

theorem Armed.step (armed : Armed start imm target called state) (others : ¬ action.registers imm)
    (fired : fire state action = some next) :
    (∃ called, Armed start imm target called next) ∧
      restrict fire (Prompt imm target) state action = some next ∨
      target.value ≤ state.arrived imm ∧ Disarmed start imm target (state.arrived imm) next ∧
        restrict fire (Prompt imm target) state action =
          if state.arrived imm < 2 * target.value then some next else none := by
  rcases fire_cases others fired with ⟨⟨rfl, busy⟩, rfl⟩ | ⟨other, cases_⟩
  · right
    cases armed.thread.mp busy
    refine ⟨?_, armed.remove, ?_⟩
    · have full := armed.full
      have once : 0 < state.arrived imm / target.value := by
        rw [← full]
        exact succ_pos _
      exact (Nat.div_pos_iff.mp once).2
    · rw [restrict, fired]
      simp [Prompt, busy]
  · left
    refine ⟨?_, restrict_eq_some.mpr ⟨prompt_of_not other, fired⟩⟩
    rcases cases_ with aside | rfl | ⟨comp, entries, idle, front, rfl⟩
    · exact ⟨called, armed.aside aside⟩
    · exact ⟨called, armed.arrive⟩
    · exact armed.poll idle front

theorem Armed.run {actions : List Action} {final : ImmEngine} (armed : Armed start imm target called state)
    (others : ∀ action ∈ actions, ¬ action.registers imm) (reached : runs fire state actions = some final) :
    (∃ called, Armed start imm target called final) ∨
      ∃ removed, target.value ≤ removed ∧ Disarmed start imm target removed final ∧
        (runs (restrict fire (Prompt imm target)) state actions = some final ↔ removed < 2 * target.value) := by
  induction actions generalizing state called with
  | nil =>
    cases reached
    exact .inl ⟨called, armed⟩
  | cons action rest ih =>
    rw [runs_cons] at reached
    obtain ⟨next, fired, later⟩ := Option.bind_eq_some_iff.mp reached
    have behind : ∀ other ∈ rest, ¬ other.registers imm := fun other member => others other (mem_cons_of_mem _ member)
    rw [runs_cons]
    rcases armed.step (others action (mem_cons_self ..)) fired with ⟨⟨called, kept⟩, allowed⟩ | ⟨once, disarmed, allowed⟩
    · rw [allowed]
      exact ih kept behind later
    · obtain ⟨last, goes⟩ := disarmed.run behind later
      refine .inr ⟨state.arrived imm, once, last, ?_⟩
      rw [allowed]
      by_cases prompt : state.arrived imm < 2 * target.value
      · rw [if_pos prompt]
        exact ⟨fun _ => prompt, fun _ => goes⟩
      · rw [if_neg prompt]
        exact ⟨(fun none_ => by cases none_), fun now => absurd now prompt⟩

def Clear (state : ImmEngine) (imm : Nat) : Prop :=
  .immData imm ∉ state.entries ∧ .immCountReached imm ∉ state.entries ∧ state.thread ≠ .removing imm

theorem Clear.armed (clear : start.Clear imm) (target : NonZeroU32) :
    Armed start imm target false (start.setImmCountExpected imm target (.ok false)) := by
  obtain ⟨data, full, thread⟩ := clear
  have zero : (start.setImmCountExpected imm target (.ok false)).arrived imm = 0 := update_self ..
  refine ⟨?_, update_self .., rfl, ?_, count_eq_zero_of_not_mem data, ?_, rfl, fun _ => rfl⟩
  · rw [zero, zero_mod]
    exact update_self ..
  · exact ⟨fun busy => absurd busy thread, fun set => by cases set⟩
  · rw [zero, Nat.zero_div]
    exact count_eq_zero_of_not_mem full

end ImmEngine

open Library ImmEngine

/-- The count callback ran once, and every other callback ran once for each value beyond
the expected count. -/
def Exact (start final : ImmEngine) (imm : Nat) (target : NonZeroU32) : Prop :=
  final.countCalls.count imm = start.countCalls.count imm + 1 ∧ ∀ callback, callback < start.callbacks →
    final.immCalls.count (callback, imm) = start.immCalls.count (callback, imm) + (final.arrived imm - target.value)

theorem exact_iff_prompt (start : ImmEngine) (imm : Nat) (target : NonZeroU32)
    (clear : start.Clear imm) (actions : List ImmEngine.Action)
    (others : ∀ action ∈ actions, ¬ action.registers imm) (final : ImmEngine)
    (reached : runs fire (start.setImmCountExpected imm target (.ok false)) actions = some final)
    (done : final.entries = [] ∧ final.thread = .idle) (enough : target.value ≤ final.arrived imm) :
    Exact start final imm target ↔ start.callbacks = 0 ∨
      runs (restrict fire (Prompt imm target)) (start.setImmCountExpected imm target (.ok false))
        actions = some final := by
  have below := mod_lt (final.arrived imm) target.positive
  rcases (clear.armed target).run others reached with ⟨called, armed⟩ | ⟨removed, once, disarmed, prompt⟩
  · -- With nothing left to take, fewer values than expected have arrived.
    have full := armed.full
    have unset : called = false := by
      rw [Bool.eq_false_iff]
      intro set
      cases done.2.symm.trans (armed.thread.mpr set)
    rw [done.1, unset] at full
    have few := (div_eq_zero_iff_lt target.positive).mp full.symm
    omega
  · rw [prompt]
    have rest := mod_lt removed target.positive
    have calls := disarmed.calls
    simp only [done.1, count_nil] at calls
    constructor
    · rintro ⟨-, exact⟩
      rcases Nat.eq_zero_or_pos start.callbacks with none_ | some_
      · exact .inl none_
      · have one := calls 0 some_
        have other := exact 0 some_
        right
        omega
    · intro holds
      refine ⟨disarmed.ran, fun callback inside => ?_⟩
      have one := calls callback inside
      have soon : removed < 2 * target.value := holds.resolve_left (by omega)
      have rest : removed % target.value = removed - target.value := by
        rw [mod_eq_sub_mod once, mod_eq_of_lt (by omega)]
      omega

def oneCallback : ImmEngine where
  immCountMap _ := none
  handlers _ := none
  callbacks := 1
  entries := []
  thread := .idle
  immCalls := []
  countCalls := []
  arrived _ := 0

/-- Four values arrive before the callback thread takes the first entry. -/
def twiceFull : List ImmEngine.Action := [.arrive 7, .arrive 7, .arrive 7, .arrive 7, .poll, .remove, .poll]

theorem second_round_lost :
    ∃ final, runs fire (oneCallback.setImmCountExpected 7 .two (.ok false)) twiceFull = some final ∧
      (final.entries = [] ∧ final.thread = .idle) ∧ final.arrived 7 = 4 ∧ final.immCalls = [] ∧
        ¬ Exact oneCallback final 7 .two := by
  have lost : (runs fire (oneCallback.setImmCountExpected 7 .two (.ok false)) twiceFull).any fun final =>
      decide ((final.entries = [] ∧ final.thread = .idle) ∧ final.arrived 7 = 4 ∧ final.immCalls = []) := by decide +kernel
  obtain ⟨final, reached, holds⟩ := (Option.any_eq_true ..).mp lost
  obtain ⟨done, arrived, none_⟩ := of_decide_eq_true holds
  refine ⟨final, reached, done, arrived, none_, fun exact => ?_⟩
  have calls := exact.2 0 (by decide)
  rw [arrived, none_] at calls
  cases calls

/-- One value too many arrives before the counter is removed, and one after it. -/
def onceFull : List ImmEngine.Action := [.arrive 7, .arrive 7, .arrive 7, .poll, .remove, .arrive 7, .poll]

theorem exact_iff_prompt_onceFull :
    ∃ final, runs fire (oneCallback.setImmCountExpected 7 .two (.ok false)) onceFull = some final ∧
      final.immCalls = [(0, 7), (0, 7)] ∧ Exact oneCallback final 7 .two := by
  have ends : (runs (restrict fire (Prompt 7 .two)) (oneCallback.setImmCountExpected 7 .two
    (.ok false)) onceFull).any fun final =>
      decide ((final.entries = [] ∧ final.thread = .idle) ∧ final.arrived 7 = 4 ∧
          final.immCalls = [(0, 7), (0, 7)]) := by
        decide +kernel
  obtain ⟨final, prompt, holds⟩ := (Option.any_eq_true ..).mp ends
  obtain ⟨done, arrived, calls⟩ := of_decide_eq_true holds
  have reached := runs_restrict prompt
  have others : ∀ action ∈ onceFull, ¬ action.registers 7 := by simp [onceFull, ImmEngine.Action.registers]
  have clear : oneCallback.Clear 7 := ⟨not_mem_nil, not_mem_nil, by decide⟩
  exact ⟨final, reached, calls, (exact_iff_prompt oneCallback 7 .two clear onceFull others final
    reached done (by rw [arrived]; decide)).mpr (.inr prompt)⟩

end PplxGarden.Fabric
