import Mathlib.Data.List.Perm.Basic
import Mathlib.Tactic.Common

/-! Byte-addressed buffers under range writes that may land in any order. What a
write leaves behind at one byte depends only on the writes that cover that byte,
so a byte on which all of them agree is settled whatever the order was. -/

namespace PplxGarden.Library

variable {size slot : Nat}

/-- Contents of every buffer; a byte nobody wrote yet may hold anything. -/
abbrev Memory (β ν : Type) := β → Nat → Option ν

/-- A write of `length` bytes at `offset`, with the value stored at each of them. -/
structure RangeWrite (β ν : Type) where
  buffer : β
  offset : Nat
  length : Nat
  data : Nat → Option ν

namespace RangeWrite

def Covers (write : RangeWrite β ν) (buffer : β) (address : Nat) : Prop :=
  write.buffer = buffer ∧ write.offset ≤ address ∧ address < write.offset + write.length

instance [DecidableEq β] (write : RangeWrite β ν) (buffer : β) (address : Nat) :
    Decidable (write.Covers buffer address) :=
  inferInstanceAs (Decidable (_ ∧ _ ∧ _))

def apply [DecidableEq β] (memory : Memory β ν) (write : RangeWrite β ν) : Memory β ν :=
  fun buffer address =>
    if write.Covers buffer address then write.data (address - write.offset) else memory buffer address

end RangeWrite

/-- The memory after the writes of a list have landed one after another. -/
def applyAll [DecidableEq β] (writes : List (RangeWrite β ν)) (memory : Memory β ν) : Memory β ν :=
  writes.foldl RangeWrite.apply memory

/-- Every write covering a byte stores the same value there. -/
def AgreeAt (writes : List (RangeWrite β ν)) (buffer : β) (address : Nat) (value : Option ν) : Prop :=
  ∀ write ∈ writes, write.Covers buffer address → write.data (address - write.offset) = value

section
variable [DecidableEq β]

theorem applyAll_frame (writes : List (RangeWrite β ν)) (memory : Memory β ν) {buffer : β} {address : Nat}
    (untouched : ∀ write ∈ writes, ¬ write.Covers buffer address) :
    applyAll writes memory buffer address = memory buffer address := by
  induction writes generalizing memory with
  | nil => rfl
  | cons write writes ih =>
    have missed := untouched write (by simp)
    calc applyAll (write :: writes) memory buffer address
        = write.apply memory buffer address := ih _ (fun other member => untouched other (by simp [member]))
      _ = memory buffer address := if_neg missed

theorem applyAll_agree (writes : List (RangeWrite β ν)) (memory : Memory β ν) {buffer : β} {address : Nat}
    {value : Option ν} (agree : AgreeAt writes buffer address value)
    (reached : ∃ write ∈ writes, write.Covers buffer address) :
    applyAll writes memory buffer address = value := by
  induction writes generalizing memory with
  | nil => obtain ⟨_, member, _⟩ := reached; cases member
  | cons write writes ih =>
    have later : AgreeAt writes buffer address value := fun other member => agree other (by simp [member])
    by_cases again : ∃ other ∈ writes, other.Covers buffer address
    · exact ih _ later again
    · have untouched : ∀ other ∈ writes, ¬ other.Covers buffer address :=
        fun other member covers => again ⟨other, member, covers⟩
      have first : write.Covers buffer address := by
        obtain ⟨other, member, covers⟩ := reached
        rcases List.mem_cons.mp member with rfl | member
        · exact covers
        · exact absurd covers (untouched other member)
      calc applyAll (write :: writes) memory buffer address
          = write.apply memory buffer address := applyAll_frame writes _ untouched
        _ = write.data (address - write.offset) := if_pos first
        _ = value := agree write (by simp) first

end

/-- Bytes are grouped into slots of a fixed size. A slot holds a value when each
of its bytes is the corresponding byte of that value's image. -/
def Holds (memory : Memory β (ν × Nat)) (size : Nat) (buffer : β) (slot : Nat) (value : ν) : Prop :=
  ∀ byte, byte < size → memory buffer (slot * size + byte) = some (value, byte)

theorem Holds.unique {memory : Memory β (ν × Nat)} {buffer : β} {first second : ν} (positive : 0 < size)
    (left : Holds memory size buffer slot first) (right : Holds memory size buffer slot second) : first = second :=
  congrArg Prod.fst (Option.some.inj ((left 0 positive).symm.trans (right 0 positive)))

def slotWrite (size : Nat) (buffer : β) (slot : Nat) (value : ν) : RangeWrite β (ν × Nat) :=
  ⟨buffer, slot * size, size, fun byte => some (value, byte)⟩

/-- A copy of `length` bytes out of a buffer of a memory that no longer changes. -/
def copyWrite (source : Memory β ν) (src : β) (srcOffset : Nat) (dst : β) (dstOffset length : Nat) :
    RangeWrite β ν :=
  ⟨dst, dstOffset, length, fun byte => source src (srcOffset + byte)⟩

/-- Whole slots: a range of slots covers a byte exactly when it covers its slot. -/
theorem slots_cover (first count slot : Nat) {byte : Nat} (inside : byte < size) :
    (first * size ≤ slot * size + byte ∧ slot * size + byte < first * size + count * size) ↔
      first ≤ slot ∧ slot < first + count := by
  rw [← Nat.add_mul]
  constructor
  · rintro ⟨lower, upper⟩
    constructor
    · by_contra below
      have gap : (slot + 1) * size ≤ first * size := Nat.mul_le_mul_right size (by omega)
      rw [Nat.add_mul] at gap
      omega
    · by_contra above
      have gap : (first + count) * size ≤ slot * size := Nat.mul_le_mul_right size (by omega)
      omega
  · rintro ⟨lower, upper⟩
    have start : first * size ≤ slot * size := Nat.mul_le_mul_right size lower
    have stop : (slot + 1) * size ≤ (first + count) * size := Nat.mul_le_mul_right size upper
    rw [Nat.add_mul slot] at stop
    omega

theorem slotWrite_covers {buffer other : β} {target byte : Nat} {value : ν} (inside : byte < size) :
    (slotWrite size buffer slot value).Covers other (target * size + byte) ↔ buffer = other ∧ slot = target := by
  have cover := slots_cover slot 1 target inside
  simp only [RangeWrite.Covers, slotWrite, Nat.one_mul] at cover ⊢
  rw [cover]
  constructor
  · rintro ⟨same, lower, upper⟩
    exact ⟨same, by omega⟩
  · rintro ⟨same, rfl⟩
    exact ⟨same, by omega, by omega⟩

theorem slotWrite_data (size : Nat) (buffer : β) (slot : Nat) (value : ν) (byte : Nat) :
    (slotWrite size buffer slot value).data (slot * size + byte - (slotWrite size buffer slot value).offset) =
      some (value, byte) := by
  simp [slotWrite]

section
variable {source : Memory β ν} {src dst : β} {srcOffset dstOffset length origin first count slot size byte : Nat}

theorem copyWrite_covers {other : β} (start : dstOffset = first * size) (long : length = count * size) (inside : byte < size) :
    (copyWrite source src srcOffset dst dstOffset length).Covers other (slot * size + byte) ↔
      dst = other ∧ first ≤ slot ∧ slot < first + count := by
  simp only [RangeWrite.Covers, copyWrite, start, long, slots_cover _ _ _ inside]

theorem copyWrite_data (begins : srcOffset = origin * size) (start : dstOffset = first * size) (lower : first ≤ slot) :
    (copyWrite source src srcOffset dst dstOffset length).data
        (slot * size + byte - (copyWrite source src srcOffset dst dstOffset length).offset) =
      source src ((origin + (slot - first)) * size + byte) := by
  have split : slot * size = first * size + (slot - first) * size := by
    rw [← Nat.add_mul]
    congr 1
    omega
  simp only [copyWrite, begins, start, Nat.add_mul]
  congr 1
  omega

end

/-- A slot settles on a value when some write reaches it and every write
reaching any of its bytes brings that value's byte. -/
theorem applyAll_holds [DecidableEq β] (writes : List (RangeWrite β (ν × Nat))) (memory : Memory β (ν × Nat)) {buffer : β} {value : ν}
    (agree : ∀ byte, byte < size → AgreeAt writes buffer (slot * size + byte) (some (value, byte)))
    (reached : ∀ byte, byte < size → ∃ write ∈ writes, write.Covers buffer (slot * size + byte)) :
    Holds (applyAll writes memory) size buffer slot value :=
  fun byte inside => applyAll_agree writes memory (agree byte inside) (reached byte inside)

end PplxGarden.Library
