import Mathlib.Algebra.Ring.Int.Defs
import Mathlib.Algebra.Ring.Nat
import Mathlib.Logic.Function.Basic

/-! Counters of immediate values. A counter that has reached its expected value starts
again from what is left. -/

namespace PplxGarden.Fabric

structure NonZeroU32 where
  value : Nat
  positive : 0 < value
  small : value < 2 ^ 32

def NonZeroU32.two : NonZeroU32 := ⟨2, Nat.two_pos, Nat.le_of_ble_eq_true rfl⟩

/-- The counters are signed 64-bit numbers; `flag` is a word the device reads. -/
inductive ImmCount where
  | expected (counter : Int) (expected : NonZeroU32)
  | imm (counter : Int)
  | gdr (counter : Int) (flag : Bool)

/-- `counter.load(Relaxed) as u32`. -/
def loadU32 (counter : Int) : Nat := (counter % 2 ^ 32).toNat

namespace ImmCount

def consume : ImmCount → Nat × Option NonZeroU32
  | .expected counter target => (loadU32 counter, some target)
  | .imm counter => (loadU32 counter, none)
  | .gdr counter _ => (loadU32 counter, none)

/-- Whether the counter has reached the expected value, which is then taken off. -/
def inc : ImmCount → Bool × ImmCount
  | .expected counter target =>
    let reached := decide (loadU32 counter + 1 = target.value)
    (reached, .expected (if reached then counter + 1 - target.value else counter + 1) target)
  | .imm counter => (false, .imm (counter + 1))
  | .gdr counter flag => if counter + 1 = 0 then (false, .gdr 0 true) else (false, .gdr (counter + 1) flag)

end ImmCount

inductive ImmCountStatus where
  | vacant
  | notReached
  | reached
deriving Repr, DecidableEq

abbrev ImmCountMap := Nat → Option ImmCount

namespace ImmCountMap

def setExpected (map : ImmCountMap) (imm : Nat) (expected : NonZeroU32) : ImmCountMap :=
  Function.update map imm (some (.expected 0 expected))

def remove (map : ImmCountMap) (imm : Nat) : ImmCountMap := Function.update map imm none

def inc (map : ImmCountMap) (imm : Nat) : ImmCountStatus × ImmCountMap :=
  match map imm with
  | none => (.vacant, map)
  | some immCount =>
    let (reached, next) := immCount.inc
    (if reached then .reached else .notReached, Function.update map imm (some next))

end ImmCountMap

end PplxGarden.Fabric
