import PplxGarden.Fabric.CounterSteps
import PplxGarden.Library.Runs

/-! Counters under concurrent calls. Every call takes its own steps to the end, but the
steps in between are not protected: an expected value is only noticed while fewer calls
come in during a subtraction than it counts, and a flag's counter is stored over whatever
happened since it became zero. -/

namespace PplxGarden.Fabric.Proofs
open Library List Option Nat
variable {i : Nat} {state : GdrSteps} {expected : NonZeroU32}

namespace ExpectedSteps
open Fabric.ExpectedSteps

theorem step_add {state : ExpectedSteps} (found : state.incs[i]? = some .fetchAdd) :
    step expected state i = some ⟨state.counter + 1,
      state.incs.set i (if loadU32 state.counter + 1 = expected.value then .fetchSub else .returned .notReached)⟩ := by
  simp only [step, found]

private theorem step_sub {state : ExpectedSteps} (found : state.incs[i]? = some .fetchSub) :
    step expected state i = some ⟨state.counter - expected.value, state.incs.set i (.returned .reached)⟩ := by
  simp only [step, found]

theorem alone_inc (expected : NonZeroU32) {state : ExpectedSteps}
    (found : state.incs[i]? = some .fetchAdd) :
    ∃ own next, (∀ action ∈ own, action = i) ∧ runs (step expected) state own = some next ∧
      (ImmCount.expected state.counter expected).inc =
        (decide (next.incs[i]? = some (.returned .reached)), .expected next.counter expected) := by
  have inside : i < state.incs.length := (List.getElem?_eq_some_iff.mp found).1
  by_cases reached : loadU32 state.counter + 1 = expected.value
  · have subtracts : (state.incs.set i ExpectedInc.fetchSub)[i]? = some .fetchSub := getElem?_set_self inside
    refine ⟨[i, i], ⟨state.counter + 1 - expected.value, (state.incs.set i .fetchSub).set i
      (.returned .reached)⟩, by simp, ?_, ?_⟩
    · rw [runs_cons, step_add found, if_pos reached, bind_some, runs_cons, step_sub subtracts, bind_some, runs_nil]
    · simp [ImmCount.inc, reached, inside]
  · refine ⟨[i], ⟨state.counter + 1, state.incs.set i (.returned .notReached)⟩, by simp, ?_, ?_⟩
    · rw [runs_cons, step_add found, if_neg reached, bind_some, runs_nil]
    · simp [ImmCount.inc, reached, inside]

/-- A call comes in while the counter is less than one below twice the expected value. -/
def InTime (expected : NonZeroU32) (state : ExpectedSteps) (i : Nat) : Prop :=
  state.incs[i]? = some .fetchAdd → state.counter + 1 < 2 * expected.value

instance (expected : NonZeroU32) (state : ExpectedSteps) (i : Nat) : Decidable (InTime expected state i) :=
  inferInstanceAs (Decidable (_ → _))

/-- The counter with `adds` calls still to come in and `subs` about to subtract, of which
there is one exactly when the counter is not below the expected value. -/
structure Balanced (expected n : Nat) (counter : Int) (adds subs reached : Nat) : Prop where
  counted : counter + expected * reached + adds = n
  low : 0 ≤ counter
  high : counter < 2 * expected
  subtracts : subs = if (expected : Int) ≤ counter then 1 else 0

section
variable {expected n : Nat} {counter : Int} {adds subs reached : Nat}

theorem Balanced.reach (balanced : Balanced expected n counter (adds + 1) subs reached)
    (found : counter + 1 = expected) :
    Balanced expected n (counter + 1) adds (subs + 1) reached := by
  obtain ⟨counted, low, high, subtracts⟩ := balanced
  rw [if_neg (by omega)] at subtracts
  refine ⟨?_, by omega, by omega, ?_⟩
  · rw [← counted]
    omega
  · rw [if_pos (by omega), subtracts]

theorem Balanced.pass (balanced : Balanced expected n counter (adds + 1) subs reached)
    (missed : counter + 1 ≠ expected) (bound : counter + 1 < 2 * expected) :
    Balanced expected n (counter + 1) adds subs reached := by
  obtain ⟨counted, low, high, subtracts⟩ := balanced
  refine ⟨?_, by omega, bound, ?_⟩
  · rw [← counted]
    omega
  · rw [subtracts]
    split <;> split <;> omega

theorem Balanced.subtract (balanced : Balanced expected n counter adds (subs + 1) reached) :
    Balanced expected n (counter - expected) adds subs (reached + 1) := by
  obtain ⟨counted, low, high, subtracts⟩ := balanced
  have above : (expected : Int) ≤ counter := by
    by_contra below
    rw [if_neg below] at subtracts
    cases subtracts
  rw [if_pos above] at subtracts
  refine ⟨?_, by omega, by omega, ?_⟩
  · rw [← counted, cast_succ, Int.mul_add, Int.mul_one]
    omega
  · rw [if_neg (by omega)]
    exact succ.inj subtracts

theorem Balanced.divides (balanced : Balanced expected n counter 0 0 reached) :
    reached = n / expected ∧ counter = (n % expected : Nat) := by
  obtain ⟨counted, low, high, subtracts⟩ := balanced
  have below : counter < expected := by
    by_contra above
    rw [if_pos (by omega)] at subtracts
    cases subtracts
  obtain ⟨left, rfl⟩ := Int.eq_ofNat_of_zero_le low
  have whole : left + expected * reached = n := by exact_mod_cast counted
  have small : left < expected := by exact_mod_cast below
  rw [← whole, add_mul_div_left _ _ (by omega), div_eq_of_lt small, add_mul_mod_self_left, mod_eq_of_lt small]
  exact ⟨(Nat.zero_add _).symm, rfl⟩

end

def Exact (expected : NonZeroU32) (n : Nat) (state : ExpectedSteps) : Prop :=
  Balanced expected.value n state.counter (state.incs.count .fetchAdd) (state.incs.count .fetchSub) state.reached

private theorem exact_start (expected : NonZeroU32) (n : Nat) : Exact expected n (start n) := by
  have positive := expected.positive
  have counts : (start n).incs.count .fetchAdd = n ∧ (start n).incs.count .fetchSub = 0 ∧ (start n).reached = 0 := by
    simp [start, reached, count_replicate]
  rw [Exact, counts.1, counts.2.1, counts.2.2]
  refine ⟨by simp [start], Int.le_refl 0, ?_, ?_⟩
  · simp only [start]
    omega
  · rw [if_neg (by simp only [start]; omega)]

/-- The cast to 32 bits does not matter while the counter is below twice the expected
value. -/
theorem loadU32_reached {counter : Int} (low : 0 ≤ counter) (high : counter + 1 < 2 * expected.value) :
    loadU32 counter + 1 = expected.value ↔ counter + 1 = expected.value := by
  have small := expected.small
  unfold loadU32
  omega

theorem step_exact {n : Nat} {state next : ExpectedSteps} (balanced : Exact expected n state)
    (inTime : InTime expected state i) (fired : step expected state i = some next) : Exact expected n next := by
  unfold Exact Fabric.ExpectedSteps.reached at balanced ⊢
  cases found : state.incs[i]? with
  | none => simp [step, found] at fired
  | some phase =>
    cases phase with
    | returned status => simp [step, found] at fired
    | fetchAdd =>
      have bound := inTime found
      rw [step_add found] at fired
      by_cases reached : state.counter + 1 = expected.value
      · rw [if_pos ((loadU32_reached balanced.low bound).mpr reached)] at fired
        cases fired
        rw [← count_left found .fetchSub (by decide)] at balanced
        dsimp only
        rw [count_entered found _ (by decide), count_elsewhere found _ (.returned .reached) (by decide) (by decide)]
        exact balanced.reach reached
      · rw [if_neg (mt (loadU32_reached balanced.low bound).mp reached)] at fired
        cases fired
        rw [← count_left found (.returned .notReached) (by decide)] at balanced
        dsimp only
        rw [count_elsewhere found _ .fetchSub (by decide) (by decide),
          count_elsewhere found _ (.returned .reached) (by decide) (by decide)]
        exact balanced.pass reached bound
    | fetchSub =>
      rw [step_sub found] at fired
      cases fired
      rw [← count_left found (.returned .reached) (by decide)] at balanced
      dsimp only
      rw [count_entered found _ (by decide), count_elsewhere found _ .fetchAdd (by decide) (by decide)]
      exact balanced.subtract

/-- While fewer calls come in during a subtraction than the expected value counts, the
calls that return `Reached` and what is left in the counter are exact. -/
theorem reached_exact (expected : NonZeroU32) (n : Nat) (schedule : List Nat)
    (final : ExpectedSteps)
    (ran : runs (restrict (step expected) (InTime expected)) (start n) schedule = some final)
    (finished : final.Finished) :
    final.reached = n / expected.value ∧ final.counter = (n % expected.value : Nat) := by
  have balanced : Exact expected n final :=
    runs_invariant (exact_start expected n)
      (fun before action after kept moved => step_exact kept (restrict_eq_some.mp moved).1
        (restrict_eq_some.mp moved).2) ran
  rw [Exact, count_eq_zero.mpr finished.1, count_eq_zero.mpr finished.2] at balanced
  exact balanced.divides

/-- Two is reached by the second of three calls, and the third comes in before it has
subtracted. -/
theorem reached_exact_three :
    ∃ final, runs (restrict (step .two) (InTime .two)) (start 3) [0, 1, 2, 1] = some final ∧
      final.reached = 3 / 2 ∧ final.counter = (3 % 2 : Nat) := by
  obtain ⟨final, ran, finished⟩ := (Option.any_eq_true ..).mp (by decide +kernel :
    (runs (restrict (step .two) (InTime .two)) (start 3) [0, 1, 2, 1]).any
      fun final => decide final.Finished)
  exact ⟨final, ran, reached_exact _ 3 _ final ran (of_decide_eq_true finished)⟩

/-- Two more calls come in before the second has subtracted. Two is passed twice, one call
says so. -/
theorem reached_missed :
    ∃ final, runs (step .two) (start 4) [0, 1, 2, 3, 1] = some final ∧ final.Finished ∧
      final.reached = 1 ∧ final.counter = 2 :=
  ⟨_, rfl, by decide, by decide, by decide⟩

end ExpectedSteps

namespace GdrSteps
open Fabric.GdrSteps

theorem inc_add (found : state.incs[i]? = some .fetchAdd) :
    state.inc i = some { state with
      counter := state.counter + 1, incs :=
        state.incs.set i (if state.counter + 1 = 0 then .setFlag else .returned) } := by
  simp only [Fabric.GdrSteps.inc, found]

private theorem inc_setFlag (found : state.incs[i]? = some .setFlag) :
    state.inc i = some { state.setFlag with incs := state.incs.set i .store } := by
  simp only [Fabric.GdrSteps.inc, found]

private theorem inc_store (found : state.incs[i]? = some .store) :
    state.inc i = some { state with counter := 0, incs := state.incs.set i .returned } := by
  simp only [Fabric.GdrSteps.inc, found]

theorem alone_inc (found : state.incs[i]? = some .fetchAdd) :
    ∃ own next, (∀ action ∈ own, action = i) ∧ runs Fabric.GdrSteps.inc state own = some next ∧
      next.incs = state.incs.set i .returned ∧
      ∀ flag, (ImmCount.gdr state.counter flag).inc =
        (false, .gdr next.counter (flag || decide (next.fired ≠ state.fired))) := by
  have inside : i < state.incs.length := (List.getElem?_eq_some_iff.mp found).1
  by_cases zero : state.counter + 1 = 0
  · have sets : (state.incs.set i GdrInc.setFlag)[i]? = some .setFlag := getElem?_set_self inside
    have stores : ((state.incs.set i GdrInc.setFlag).set i GdrInc.store)[i]? = some .store :=
      getElem?_set_self (by simpa using inside)
    refine ⟨[i, i, i],
      { state with counter := 0, incs := state.incs.set i .returned, fired := state.fired ++ [state.targets.length] }, by simp, ?_, rfl, ?_⟩
    · rw [runs_cons, inc_add found, if_pos zero, bind_some, runs_cons, inc_setFlag sets, bind_some,
        runs_cons, inc_store stores,
        bind_some, runs_nil]
      simp [Fabric.GdrSteps.setFlag]
    · intro flag
      simp [ImmCount.inc, zero]
  · refine ⟨[i], { state with counter := state.counter + 1, incs := state.incs.set i .returned }, by simp, ?_, rfl, ?_⟩
    · rw [runs_cons, inc_add found, if_neg zero, bind_some, runs_nil]
    · intro flag
      simp [ImmCount.inc, zero]

def increments (state : GdrSteps) : Nat := state.incs.length - state.incs.count .fetchAdd

/-- A call is between the addition that made the counter zero and its store. -/
def Storing (state : GdrSteps) : Prop := .setFlag ∈ state.incs ∨ .store ∈ state.incs

instance (state : GdrSteps) : Decidable (Storing state) := inferInstanceAs (Decidable (_ ∨ _))

def Counts (state : GdrSteps) : Action → Prop
  | .inc i => state.incs[i]? = some .fetchAdd
  | .wait _ => True
  | .waitSetFlag => False

instance (state : GdrSteps) (action : Action) : Decidable (Counts state action) :=
  match action with
  | .inc _ => inferInstanceAs (Decidable (_ = _))
  | .wait _ => inferInstanceAs (Decidable True)
  | .waitSetFlag => inferInstanceAs (Decidable False)

/-- Nothing else happens to the counter before a call has stored. -/
def Undisturbed (state : GdrSteps) (action : Action) : Prop := Counts state action → ¬ Storing state

instance (state : GdrSteps) (action : Action) : Decidable (Undisturbed state action) := inferInstanceAs (Decidable (_ → _))

/-- The counter with `adds` calls still to come in, `flags` about to set the flag and
`stores` about to store. The flag is owed to the last wait while the counter is negative or
somebody is about to set it. -/
structure Settled (size : Nat) (counter : Int) (targets fired : List Nat) (waitSets : Bool)
    (adds flags stores : Nat) : Prop where
  counted : counter + targets.sum + adds = size
  single : flags + stores ≤ 1
  zero : 0 < flags + stores → counter = 0
  settles : waitSets = true → 0 ≤ counter ∧ flags = 0
  earlier : targets.dropLast.sum + adds ≤ size
  owed : counter < 0 ∨ 0 < flags ∨ waitSets = true → fired ++ [targets.length] = range' 1 targets.length
  paid : 0 ≤ counter → flags = 0 → waitSets = false → fired = range' 1 targets.length

section
variable {size : Nat} {counter : Int} {targets fired : List Nat} {waitSets : Bool} {adds flags stores : Nat}

theorem Settled.pass (settled : Settled size counter targets fired waitSets (adds + 1) 0 0) (more : counter + 1 ≠ 0) :
    Settled size (counter + 1) targets fired waitSets adds 0 0 := by
  obtain ⟨counted, single, zero, settles, earlier, owed, paid⟩ := settled
  refine ⟨by rw [← counted]; omega, single, fun busy => by omega, fun sets => ?_, by omega, fun owes => owed ?_, fun low => paid (by omega)⟩
  · have low := (settles sets).1
    exact ⟨by omega, rfl⟩
  · exact owes.imp_left fun negative => by omega

theorem Settled.reach (settled : Settled size counter targets fired waitSets (adds + 1) 0 0)
    (found : counter + 1 = 0) : Settled size (counter + 1) targets fired waitSets adds 1 0 := by
  obtain ⟨counted, single, zero, settles, earlier, owed, paid⟩ := settled
  refine ⟨by rw [← counted]; omega, by omega, fun _ => found, fun sets => ?_, by omega, fun _ => owed (Or.inl (by omega)), fun _ none_ => by cases none_⟩
  have low := (settles sets).1
  omega

theorem Settled.setFlag (settled : Settled size counter targets fired waitSets adds (flags + 1) stores) :
    Settled size counter targets (fired ++ [targets.length]) waitSets adds flags (stores + 1) := by
  obtain ⟨counted, single, zero, settles, earlier, owed, paid⟩ := settled
  have same := zero (by omega)
  have unset : waitSets ≠ true := fun sets => succ_ne_zero _ (settles sets).2
  refine ⟨counted, by omega, fun _ => same, fun sets => absurd sets unset, earlier, ?_, fun _ _ _ => owed (Or.inr (Or.inl (succ_pos _)))⟩
  rintro (negative | more | sets)
  · omega
  · omega
  · exact absurd sets unset

theorem Settled.store (settled : Settled size counter targets fired waitSets adds flags (stores + 1)) :
    Settled size 0 targets fired waitSets adds flags stores := by
  obtain ⟨counted, single, zero, settles, earlier, owed, paid⟩ := settled
  obtain rfl := zero (by omega)
  exact ⟨counted, by omega, fun _ => rfl, settles, earlier, owed, paid⟩

theorem Settled.free (settled : Settled size counter targets fired waitSets adds flags stores)
    (set_ : targets = [] ∨ targets.length ∈ fired) : 0 ≤ counter := by
  by_contra negative
  have owed := settled.owed (Or.inl (by omega))
  cases set_ with
  | inl none_ =>
    rw [none_] at owed
    exact append_ne_nil_of_right_ne_nil _ (cons_ne_nil _ _) owed
  | inr member =>
    have nodup : (fired ++ [targets.length]).Nodup := owed ▸ nodup_range'
    exact (nodup_append.mp nodup).2.2 _ member _ (mem_singleton_self _) rfl

theorem Settled.wait (settled : Settled size counter targets fired false adds 0 0)
    (set_ : targets = [] ∨ targets.length ∈ fired) (target : Nat) :
    Settled size (counter - target) (targets ++ [target]) fired (decide ((target : Int) ≤ counter))
      adds 0 0 := by
  have low := settled.free set_
  obtain ⟨counted, single, zero, settles, earlier, owed, paid⟩ := settled
  have before := paid low rfl rfl
  refine ⟨?_, single, fun busy => by omega, fun sets => ?_, ?_, fun _ => ?_, fun enough _ unset => ?_⟩
  · rw [← counted, sum_append, sum_singleton]
    omega
  · have enough := of_decide_eq_true sets
    exact ⟨by omega, rfl⟩
  · rw [dropLast_concat]
    omega
  · rw [before, length_append, length_singleton, range'_1_concat, Nat.add_comm 1]
  · have short := of_decide_eq_false unset
    omega

theorem Settled.waitSetFlag (settled : Settled size counter targets fired true adds flags stores) :
    Settled size counter targets (fired ++ [targets.length]) false adds flags stores := by
  obtain ⟨counted, single, zero, settles, earlier, owed, paid⟩ := settled
  obtain ⟨low, unset⟩ := settles rfl
  refine ⟨counted, single, zero, fun sets => (by cases sets), earlier, ?_, fun _ _ _ => owed (Or.inr (Or.inr rfl))⟩
  rintro (negative | more | sets)
  · omega
  · omega
  · cases sets

private theorem sum_take_le (numbers : List Nat) (k : Nat) : (numbers.take k).sum ≤ numbers.sum := by
  conv_rhs => rw [← take_append_drop k numbers, sum_append]
  exact Nat.le_add_right _ _

/-- When nothing is in progress the flag was set once for every wait whose target has been
reached, together with the targets before it. -/
theorem Settled.fires (settled : Settled size counter targets fired false adds 0 0) (k : Nat) :
    fired.count k = if 0 < k ∧ k ≤ targets.length ∧ (targets.take k).sum + adds ≤ size then 1 else 0 := by
  obtain ⟨counted, single, zero, settles, earlier, owed, paid⟩ := settled
  by_cases low : 0 ≤ counter
  · have part := sum_take_le targets k
    rw [paid low rfl rfl, Nodup.count nodup_range']
    refine if_congr ?_ rfl rfl
    rw [mem_range'_1]
    omega
  · have behind := owed (Or.inl (by omega))
    obtain ⟨last, sized⟩ : ∃ last, targets.length = last + 1 :=
      exists_eq_succ_of_ne_zero fun none_ => by
        rw [none_] at behind
        exact append_ne_nil_of_right_ne_nil _ (cons_ne_nil _ _) behind
    rw [sized, range'_1_concat, Nat.add_comm 1] at behind
    rw [append_cancel_right behind, Nodup.count nodup_range']
    refine if_congr ?_ rfl rfl
    rw [mem_range'_1, sized]
    rw [dropLast_eq_take, sized, Nat.add_sub_cancel] at earlier
    by_cases final : k = last + 1
    · -- The last wait has not been reached: the counter is negative.
      rw [final, ← sized, take_length]
      omega
    · have part := sum_take_le (targets.take last) k
      rw [take_take] at part
      by_cases inside : k ≤ last
      · rw [Nat.min_eq_left inside] at part
        omega
      · omega

end

def Intact (state : GdrSteps) : Prop :=
  Settled state.incs.length state.counter state.targets state.fired state.waitSets
    (state.incs.count .fetchAdd) (state.incs.count .setFlag) (state.incs.count .store)

private theorem intact_start (n : Nat) : Intact (start n) := by
  have counts : (start n).incs.length = n ∧ (start n).incs.count .fetchAdd = n ∧
      (start n).incs.count .setFlag = 0 ∧ (start n).incs.count .store = 0 := by
    simp [start, count_replicate]
  rw [Intact, counts.1, counts.2.1, counts.2.2.1, counts.2.2.2]
  refine ⟨?_, ?_, ?_, ?_, ?_, ?_, ?_⟩ <;> simp [start]

private theorem not_storing (free : ¬ Storing state) : state.incs.count .setFlag = 0 ∧ state.incs.count .store = 0 :=
  ⟨count_eq_zero.mpr fun member => free (Or.inl member), count_eq_zero.mpr fun member => free (Or.inr member)⟩

theorem inc_intact {next : GdrSteps} (intact : Intact state) (undisturbed : Undisturbed state (.inc i))
    (fired : state.inc i = some next) : Intact next := by
  unfold Intact at intact ⊢
  cases found : state.incs[i]? with
  | none => simp [Fabric.GdrSteps.inc, found] at fired
  | some phase =>
    cases phase with
    | returned => simp [Fabric.GdrSteps.inc, found] at fired
    | fetchAdd =>
      obtain ⟨noFlag, noStore⟩ := not_storing (undisturbed found)
      rw [inc_add found] at fired
      by_cases zero : state.counter + 1 = 0
      · rw [if_pos zero] at fired
        cases fired
        rw [← count_left found .setFlag (by decide), noFlag, noStore] at intact
        dsimp only
        rw [length_set, count_entered found _ (by decide),
          count_elsewhere found _ .store (by decide) (by decide), noFlag, noStore]
        exact intact.reach zero
      · rw [if_neg zero] at fired
        cases fired
        rw [← count_left found .returned (by decide), noFlag, noStore] at intact
        dsimp only
        rw [length_set, count_elsewhere found _ .setFlag (by decide) (by decide),
          count_elsewhere found _ .store (by decide) (by decide),
          noFlag, noStore]
        exact intact.pass zero
    | setFlag =>
      rw [inc_setFlag found] at fired
      cases fired
      rw [← count_left found .store (by decide)] at intact
      dsimp only
      rw [length_set, count_entered found _ (by decide), count_elsewhere found _ .fetchAdd (by decide) (by decide)]
      exact intact.setFlag
    | store =>
      rw [inc_store found] at fired
      cases fired
      rw [← count_left found .returned (by decide)] at intact
      dsimp only
      rw [length_set, count_elsewhere found _ .setFlag (by decide) (by decide),
        count_elsewhere found _ .fetchAdd (by decide) (by decide)]
      exact intact.store

theorem step_intact {next : GdrSteps} {action : Action} (intact : Intact state)
    (undisturbed : Undisturbed state action)
    (fired : Fabric.GdrSteps.step state action = some next) :
    Intact next := by
  cases action with
  | inc i => exact inc_intact intact undisturbed fired
  | wait target =>
    obtain ⟨noFlag, noStore⟩ := not_storing (undisturbed trivial)
    rw [Fabric.GdrSteps.step, Fabric.GdrSteps.wait, ite_none_right_eq_some] at fired
    obtain ⟨⟨-, unset, set_⟩, same⟩ := fired
    cases same
    rw [Intact, unset, noFlag, noStore] at intact
    rw [Intact]
    dsimp only
    rw [noFlag, noStore]
    exact intact.wait set_ target
  | waitSetFlag =>
    rw [Fabric.GdrSteps.step, ite_none_right_eq_some] at fired
    obtain ⟨sets, same⟩ := fired
    cases same
    rw [Intact, sets] at intact
    exact intact.waitSetFlag

/-- While nothing happens to the counter between an addition that makes it zero and the
store after it, no count is lost and the flag is set once for every wait. -/
theorem gdr_exact (n : Nat) (schedule : List Action) (final : GdrSteps)
    (ran : runs (restrict Fabric.GdrSteps.step Undisturbed) (start n) schedule = some final)
    (idle : final.Idle) :
    final.counter = (increments final : Int) - (final.targets.sum : Nat) ∧
      ∀ k, final.fired.count k =
        if 0 < k ∧ k ≤ final.targets.length ∧ (final.targets.take k).sum ≤ increments final then 1 else 0 := by
  have intact : Intact final :=
    runs_invariant (intact_start n)
      (fun before action after kept moved => step_intact kept (restrict_eq_some.mp moved).1
        (restrict_eq_some.mp moved).2) ran
  have started : final.incs.count .fetchAdd ≤ final.incs.length := count_le_length
  rw [Intact, count_eq_zero.mpr idle.1, count_eq_zero.mpr idle.2.1, idle.2.2] at intact
  have counted := intact.counted
  refine ⟨by unfold increments; omega, fun k => ?_⟩
  rw [intact.fires k]
  refine if_congr ?_ rfl rfl
  rw [increments, Nat.le_sub_iff_add_le started]

/-- The first wait is met by the second call, the second wait by a third call that comes
in before it. -/
theorem gdr_exact_twice :
    ∃ final, runs (restrict Fabric.GdrSteps.step Undisturbed) (start 3)
        [.inc 0, .wait 2, .inc 1, .inc 1, .inc 1, .inc 2, .wait 1, .waitSetFlag] = some final ∧
      final.counter = 0 ∧ final.fired.count 2 = 1 := by
  obtain ⟨final, ran, good⟩ := (Option.any_eq_true ..).mp (by decide +kernel :
    (runs (restrict Fabric.GdrSteps.step Undisturbed) (start 3)
        [.inc 0, .wait 2, .inc 1, .inc 1, .inc 1, .inc 2, .wait 1, .waitSetFlag]).any
      fun final => decide (final.Idle ∧ final.targets = [2, 1] ∧ increments final = 3))
  obtain ⟨idle, targets, started⟩ := of_decide_eq_true good
  obtain ⟨counter, fires⟩ := gdr_exact 3 _ final ran idle
  rw [targets, started] at counter fires
  exact ⟨final, ran, counter, fires 2⟩

/-- The next wait starts when the flag is set, before the call that set it has stored. The
store undoes the wait, whose flag is then never set. -/
theorem gdr_wait_lost :
    ∃ final, runs Fabric.GdrSteps.step (start 2) [.wait 1, .inc 0, .inc 0, .wait 1, .inc 0,
      .inc 1] = some final ∧ final.Idle ∧
      final.targets = [1, 1] ∧ increments final = 2 ∧ final.counter = 1 ∧ final.fired = [1] :=
  ⟨_, rfl, by decide, by decide, by decide, by decide, by decide⟩

end GdrSteps

end PplxGarden.Fabric.Proofs
