import Mathlib.Data.List.Basic
import Mathlib.Tactic.Common

/-! A pool of cells that are handed out and given back. The cell given back last is
handed out first. Using a cell in the wrong state is refused. -/

namespace PplxGarden.Library
open Function

inductive Cell (α : Type) where
  | vacant
  | uninit
  | live (value : α)
deriving Repr, DecidableEq

structure Pool (α : Type) where
  cell : Nat → Cell α
  freeList : List Nat
  next : Nat
  fresh : ∀ slot, next ≤ slot → cell slot = .vacant
  listed : ∀ slot, slot ∈ freeList ↔ slot < next ∧ cell slot = .vacant
  distinct : freeList.Nodup

namespace Pool

variable {α : Type}

def empty : Pool α where
  cell _ := .vacant
  freeList := []
  next := 0
  fresh _ _ := rfl
  listed slot := by simp
  distinct := .nil

variable (pool : Pool α)

/-- The value of a cell that was written and not yet given back. -/
def read (slot : Nat) : Option α :=
  match pool.cell slot with
  | .live value => some value
  | _ => none

def top : Nat := pool.freeList.headD pool.next

theorem top_vacant : pool.cell pool.top = .vacant := by
  unfold top
  cases free : pool.freeList with
  | nil => exact pool.fresh _ (Nat.le_refl _)
  | cons slot rest => exact ((pool.listed slot).mp (by rw [free]; exact List.mem_cons_self ..)).2

theorem top_le : pool.top ≤ pool.next := by
  unfold top
  cases free : pool.freeList with
  | nil => exact Nat.le_refl _
  | cons slot rest => exact Nat.le_of_lt ((pool.listed slot).mp (by rw [free]; exact List.mem_cons_self ..)).1

theorem mem_tail_iff {slot : Nat} : slot ∈ pool.freeList.tail ↔ slot ∈ pool.freeList ∧ slot ≠ pool.top := by
  have distinct := pool.distinct
  unfold top
  cases free : pool.freeList with
  | nil => simp
  | cons first rest =>
    rw [free, List.nodup_cons] at distinct
    rw [List.tail_cons, List.headD_cons, List.mem_cons]
    constructor
    · intro later
      exact ⟨.inr later, fun same => distinct.1 (same ▸ later)⟩
    · rintro ⟨member, other⟩
      exact member.resolve_left other

/-- Hand out a cell; its value is not initialised. -/
def alloc : Nat × Pool α := (pool.top, {
  cell := update pool.cell pool.top .uninit
  freeList := pool.freeList.tail
  next := max pool.next (pool.top + 1)
  fresh slot beyond := by
    rw [update_of_ne (by omega)]
    exact pool.fresh slot (by omega)
  listed slot := by
    have bound := pool.top_le
    rw [mem_tail_iff, listed]
    by_cases same : slot = pool.top
    · subst same
      simp
    · rw [update_of_ne same]
      constructor
      · rintro ⟨⟨inside, vacant⟩, -⟩
        exact ⟨by omega, vacant⟩
      · rintro ⟨inside, vacant⟩
        exact ⟨⟨by omega, vacant⟩, same⟩
  distinct := pool.distinct.tail })

def set (slot : Nat) (value : α) (out : pool.cell slot ≠ .vacant) : Pool α where
  cell := update pool.cell slot (.live value)
  freeList := pool.freeList
  next := pool.next
  fresh other beyond := by
    have vacant := pool.fresh other beyond
    have apart : other ≠ slot := by
      rintro rfl
      exact out vacant
    rw [update_of_ne apart, vacant]
  listed other := by
    rw [listed]
    by_cases same : other = slot
    · subst same
      simp [out]
    · rw [update_of_ne same]
  distinct := pool.distinct

/-- `set`, refused for a cell that is not handed out. -/
def write (slot : Nat) (value : α) : Option (Pool α) :=
  match known : pool.cell slot with
  | .vacant => none
  | .uninit => some (pool.set slot value (by simp [known]))
  | .live _ => some (pool.set slot value (by simp [known]))

def clear (slot : Nat) (out : pool.cell slot ≠ .vacant) : Pool α where
  cell := update pool.cell slot .vacant
  freeList := slot :: pool.freeList
  next := pool.next
  fresh other beyond := by
    by_cases same : other = slot
    · rw [same, update_self]
    · rw [update_of_ne same, pool.fresh other beyond]
  listed other := by
    have inside : slot < pool.next := by
      by_contra beyond
      exact out (pool.fresh slot (Nat.le_of_not_lt beyond))
    rw [List.mem_cons, listed]
    by_cases same : other = slot
    · subst same
      simp [inside]
    · rw [update_of_ne same]
      simp [same]
  distinct := List.nodup_cons.mpr ⟨fun member => out ((pool.listed slot).mp member).2, pool.distinct⟩

/-- `clear`, refused for a cell without a value. -/
def free (slot : Nat) : Option (Pool α) :=
  match known : pool.cell slot with
  | .live _ => some (pool.clear slot (by simp [known]))
  | _ => none

variable {pool} {slot other : Nat} {value : α}

theorem read_eq_some : pool.read slot = some value ↔ pool.cell slot = .live value := by
  unfold read
  split <;> simp_all

@[simp]
theorem read_empty : (empty : Pool α).read slot = none := rfl

@[simp]
theorem read_top : pool.read pool.top = none := by
  rw [read, top_vacant]

theorem alloc_slot : pool.alloc.1 = pool.top := rfl

theorem alloc_freeList : pool.alloc.2.freeList = pool.freeList.tail := rfl

theorem alloc_next : pool.alloc.2.next = max pool.next (pool.top + 1) := rfl

theorem read_alloc : pool.alloc.2.read = pool.read := by
  funext other
  by_cases same : other = pool.top
  · subst same
    rw [read_top, read]
    simp [alloc]
  · simp only [read, alloc]
    rw [update_of_ne same]

theorem read_set (out : pool.cell slot ≠ .vacant) : (pool.set slot value out).read = update pool.read slot (some value) := by
  funext other
  by_cases same : other = slot
  · subst same
    simp [read, set]
  · simp [read, set, update_of_ne same]

theorem read_clear (out : pool.cell slot ≠ .vacant) : (pool.clear slot out).read = update pool.read slot none := by
  funext other
  by_cases same : other = slot
  · subst same
    simp [read, clear]
  · simp [read, clear, update_of_ne same]

theorem write_eq (out : pool.cell slot ≠ .vacant) (value : α) : pool.write slot value = some (pool.set slot value out) := by
  unfold write
  split
  next vacant => exact absurd vacant out
  next => rfl
  next => rfl

theorem write_alloc (pool : Pool α) (value : α) : ∃ after, pool.alloc.2.write pool.alloc.1 value = some after ∧
    after.read = update pool.read pool.top (some value) := by
  have out : pool.alloc.2.cell pool.alloc.1 ≠ .vacant := by simp [alloc]
  refine ⟨_, write_eq out value, ?_⟩
  rw [read_set, read_alloc, alloc_slot]

theorem read_write {after : Pool α} (written : pool.write slot value = some after) : after.read = update pool.read slot (some value) := by
  unfold write at written
  split at written
  next => cases written
  next =>
    cases written
    exact read_set _
  next =>
    cases written
    exact read_set _

theorem write_live (held : pool.read slot = some value) (next : α) :
    ∃ after, pool.write slot next = some after ∧ after.read = update pool.read slot (some next) := by
  have out : pool.cell slot ≠ .vacant := by simp [read_eq_some.mp held]
  exact ⟨_, write_eq out next, read_set out⟩

theorem free_live (held : pool.read slot = some value) :
    ∃ after, pool.free slot = some after ∧ after.read = update pool.read slot none := by
  have known := read_eq_some.mp held
  have out : pool.cell slot ≠ .vacant := by simp [known]
  refine ⟨pool.clear slot out, ?_, read_clear out⟩
  unfold free
  split
  next => rfl
  next other => exact absurd known (other value)

end Pool

end PplxGarden.Library
