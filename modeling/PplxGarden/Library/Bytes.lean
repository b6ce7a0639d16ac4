import Mathlib.Algebra.Ring.Nat
import Mathlib.Logic.Equiv.Defs
import Mathlib.Tactic.Common

/-! Numbers as bytes, least significant byte first. -/

namespace PplxGarden.Library

/-- `to_le_bytes` for a number of the given width in bytes. -/
def leBytes : Nat → Nat → List UInt8
  | 0, _ => []
  | width + 1, value => UInt8.ofNat value :: leBytes width (value / 256)

/-- `from_le_bytes`. -/
def ofLeBytes : List UInt8 → Nat
  | [] => 0
  | byte :: rest => byte.toNat + 256 * ofLeBytes rest

@[simp]
theorem length_leBytes (width value : Nat) : (leBytes width value).length = width := by
  induction width generalizing value with
  | zero => rfl
  | succ width ih => rw [leBytes, List.length_cons, ih]

theorem ofLeBytes_leBytes {width value : Nat} (fits : value < 256 ^ width) : ofLeBytes (leBytes width value) = value := by
  induction width generalizing value with
  | zero =>
    rw [leBytes, ofLeBytes]
    omega
  | succ width ih =>
    rw [leBytes, ofLeBytes, ih (Nat.div_lt_of_lt_mul (by rwa [Nat.pow_succ, Nat.mul_comm] at fits)), UInt8.toNat_ofNat']
    exact Nat.mod_add_div value 256

theorem ofLeBytes_lt (bytes : List UInt8) : ofLeBytes bytes < 256 ^ bytes.length := by
  induction bytes with
  | nil => exact Nat.one_pos
  | cons byte rest ih =>
    have small := byte.toNat_lt
    rw [ofLeBytes, List.length_cons, Nat.pow_succ]
    omega

theorem leBytes_ofLeBytes (bytes : List UInt8) : leBytes bytes.length (ofLeBytes bytes) = bytes := by
  induction bytes with
  | nil => rfl
  | cons byte rest ih =>
    have small := byte.toNat_lt
    have low : UInt8.ofNat (byte.toNat + 256 * ofLeBytes rest) = byte := by
      apply UInt8.toNat_inj.mp
      rw [UInt8.toNat_ofNat']
      omega
    have high : (byte.toNat + 256 * ofLeBytes rest) / 256 = ofLeBytes rest := by omega
    rw [List.length_cons, ofLeBytes, leBytes, low, high, ih]

/-- The bytes `first..first + count`. -/
def slice (bytes : List UInt8) (first count : Nat) : List UInt8 := (bytes.drop first).take count

theorem slice_append {first middle last : List UInt8} {start size : Nat} (starts : first.length = start) (sized : middle.length = size) :
    slice (first ++ (middle ++ last)) start size = middle := by
  rw [slice, List.drop_left' starts, List.take_left' sized]

theorem slice_drop (bytes : List UInt8) (first count : Nat) : slice bytes first count ++ bytes.drop (first + count) = bytes.drop first := by
  rw [slice, ← List.drop_drop, List.take_append_drop]

theorem length_slice {bytes : List UInt8} {first count : Nat} (inside : first + count ≤ bytes.length) : (slice bytes first count).length = count := by
  rw [slice, List.length_take, List.length_drop]
  omega

/-! Byte strings of all lengths, numbered by digits from 1 to 256. -/

def number : List UInt8 → Nat
  | [] => 0
  | byte :: bytes => number bytes * 256 + byte.toNat + 1

/-- The byte string with a number that is at most the fuel. -/
def numbered : Nat → Nat → List UInt8
  | 0, _ => []
  | fuel + 1, value => if value = 0 then [] else UInt8.ofNat ((value - 1) % 256) :: numbered fuel ((value - 1) / 256)

theorem number_numbered {fuel value : Nat} (enough : value ≤ fuel) : number (numbered fuel value) = value := by
  induction fuel generalizing value with
  | zero =>
    obtain rfl : value = 0 := by omega
    rfl
  | succ fuel ih =>
    rw [numbered]
    split
    next zero => rw [number, zero]
    next some_ =>
      rw [number, ih (by omega), UInt8.toNat_ofNat']
      omega

theorem numbered_number {fuel : Nat} {bytes : List UInt8} (enough : number bytes ≤ fuel) : numbered fuel (number bytes) = bytes := by
  induction bytes generalizing fuel with
  | nil => cases fuel <;> rfl
  | cons byte bytes ih =>
    have small := byte.toNat_lt
    rw [number] at enough ⊢
    obtain ⟨fuel, rfl⟩ : ∃ less, fuel = less + 1 := ⟨fuel - 1, by omega⟩
    have high : (number bytes * 256 + byte.toNat + 1 - 1) / 256 = number bytes := by omega
    have low : UInt8.ofNat ((number bytes * 256 + byte.toNat + 1 - 1) % 256) = byte := by
      apply UInt8.toNat_inj.mp
      rw [UInt8.toNat_ofNat']
      omega
    rw [numbered, if_neg (Nat.succ_ne_zero _), high, low, ih (by omega)]

def numbering : Nat ≃ List UInt8 where
  toFun value := numbered value value
  invFun := number
  left_inv value := number_numbered (Nat.le_refl value)
  right_inv _ := numbered_number (Nat.le_refl _)

end PplxGarden.Library
