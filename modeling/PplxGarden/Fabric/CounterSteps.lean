import PplxGarden.Fabric.ImmCount
import PplxGarden.Library.Runs

/-! Calls on one counter as sequences of atomic steps. The workers of all GPUs share the
counters, so that the steps of several calls interleave. -/

namespace PplxGarden.Fabric
open Library

/-- The next step of a call of `ImmCountMap::inc` on a counter with an expected value. -/
inductive ExpectedInc where
  | fetchAdd
  | fetchSub
  | returned (status : ImmCountStatus)
deriving Repr, DecidableEq

structure ExpectedSteps where
  counter : Int
  incs : List ExpectedInc
deriving Repr, DecidableEq

namespace ExpectedSteps

def start (n : Nat) : ExpectedSteps := ⟨0, List.replicate n .fetchAdd⟩

/-- The next step of the `i`-th call. -/
def step (expected : NonZeroU32) (state : ExpectedSteps) (i : Nat) : Option ExpectedSteps :=
  match state.incs[i]? with
  | some .fetchAdd =>
    let next := if loadU32 state.counter + 1 = expected.value then ExpectedInc.fetchSub else .returned .notReached
    some ⟨state.counter + 1, state.incs.set i next⟩
  | some .fetchSub => some ⟨state.counter - expected.value, state.incs.set i (.returned .reached)⟩
  | _ => none

def reached (state : ExpectedSteps) : Nat := state.incs.count (.returned .reached)

def Finished (state : ExpectedSteps) : Prop := .fetchAdd ∉ state.incs ∧ .fetchSub ∉ state.incs

instance (state : ExpectedSteps) : Decidable state.Finished := inferInstanceAs (Decidable (_ ∧ _))

end ExpectedSteps

/-- The next step of a call of `ImmCount::inc` on a counter with a flag. -/
inductive GdrInc where
  | fetchAdd
  | setFlag
  | store
  | returned
deriving Repr, DecidableEq

/-- `targets` are the targets of the waits that have started, and `waitSets` says that the
last of them still has to set the flag. `fired` has an entry for each time the flag was
set, the number of the wait that was the last to start. -/
structure GdrSteps where
  counter : Int
  incs : List GdrInc
  waitSets : Bool
  targets : List Nat
  fired : List Nat
deriving Repr, DecidableEq

namespace GdrSteps

inductive Action where
  | inc (i : Nat)
  | wait (target : Nat)
  | waitSetFlag
deriving Repr, DecidableEq

def start (n : Nat) : GdrSteps := ⟨0, List.replicate n .fetchAdd, false, [], []⟩

def setFlag (state : GdrSteps) : GdrSteps := { state with fired := state.fired ++ [state.targets.length] }

/-- The next step of the `i`-th call of `inc`. -/
def inc (state : GdrSteps) (i : Nat) : Option GdrSteps :=
  match state.incs[i]? with
  | some .fetchAdd =>
    let value := state.counter + 1
    some { state with counter := value, incs := state.incs.set i (if value = 0 then .setFlag else .returned) }
  | some .setFlag => some { state.setFlag with incs := state.incs.set i .store }
  | some .store => some { state with counter := 0, incs := state.incs.set i .returned }
  | _ => none

/-- A wait starts when the flag was set for the wait before it. -/
def wait (state : GdrSteps) (target : Nat) : Option GdrSteps :=
  if 1 ≤ target ∧ state.waitSets = false ∧ (state.targets = [] ∨ state.targets.length ∈ state.fired) then
    some { state with
      counter := state.counter - target
      waitSets := decide ((target : Int) ≤ state.counter)
      targets := state.targets ++ [target] }
  else none

def step (state : GdrSteps) : Action → Option GdrSteps
  | .inc i => state.inc i
  | .wait target => state.wait target
  | .waitSetFlag => if state.waitSets then some { state.setFlag with waitSets := false } else none

def Idle (state : GdrSteps) : Prop := .setFlag ∉ state.incs ∧ .store ∉ state.incs ∧ state.waitSets = false

instance (state : GdrSteps) : Decidable state.Idle := inferInstanceAs (Decidable (_ ∧ _))

end GdrSteps

end PplxGarden.Fabric
