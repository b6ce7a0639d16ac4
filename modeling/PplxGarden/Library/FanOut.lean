import Mathlib.Data.List.Count
import Mathlib.Algebra.BigOperators.Group.Finset.Basic
import Mathlib.Data.Fintype.Basic
import Mathlib.Data.Finsupp.Weight
import Mathlib.Tactic.Abel

/-! A job that is split into parts whose outcomes come in one after another. A record
counts the parts. The last success closes it, and so does the first failure; every
failure is announced. A tallied job counts how it was closed instead of announcing a
success. -/

namespace PplxGarden.Library.FanOut
open Function Finset

structure Record where
  expected : Nat
  seen : Nat
  tallied : Bool
deriving Repr, DecidableEq

/-- The record while it is open, with everything that was announced and counted. -/
structure Ledger where
  record : Option Record
  notices : Nat
  counted : Nat
  errors : Nat
deriving Repr, DecidableEq

def Record.fail (record : Record) (ledger : Ledger) : Ledger where
  record := none
  notices := ledger.notices + 1
  counted := ledger.counted + record.tallied.toNat
  errors := ledger.errors + record.tallied.toNat

def Record.succeed (record : Record) (ledger : Ledger) : Ledger :=
  if record.expected = record.seen + 1 then
    { ledger with
      record := none
      notices := ledger.notices + (!record.tallied).toNat
      counted := ledger.counted + record.tallied.toNat }
  else { ledger with record := some { record with seen := record.seen + 1 } }

def Ledger.take (ledger : Ledger) (failed : Bool) : Ledger :=
  match ledger.record, failed with
  | none, false => ledger
  | none, true => { ledger with notices := ledger.notices + 1 }
  | some record, false => record.succeed ledger
  | some record, true => record.fail ledger

variable {ledger : Ledger} {record : Record} (outcomes : List Bool)

theorem take_success (opened : ledger.record = some record) : ledger.take false = record.succeed ledger := by
  simp only [Ledger.take, opened]

theorem take_failure (opened : ledger.record = some record) : ledger.take true = record.fail ledger := by
  simp only [Ledger.take, opened]

theorem foldl_closed (closed : ledger.record = none) :
    outcomes.foldl Ledger.take ledger = { ledger with notices := ledger.notices + outcomes.count true } := by
  induction outcomes generalizing ledger with
  | nil => simp
  | cons failed outcomes ih =>
    cases failed with
    | false =>
      have same : ledger.take false = ledger := by simp only [Ledger.take, closed]
      rw [List.foldl_cons, same, ih closed]
      simp
    | true =>
      have noted : ledger.take true = { ledger with notices := ledger.notices + 1 } := by simp only [Ledger.take, closed]
      rw [List.foldl_cons, noted, ih (by exact closed), List.count_cons_self]
      simp only [Nat.add_assoc, Nat.add_comm 1]

theorem foldl_succeeds (opened : ledger.record = some record) (room : record.seen + outcomes.length ≤ record.expected)
    (clean : true ∉ outcomes) : outcomes.foldl Ledger.take ledger =
      if outcomes ≠ [] ∧ record.seen + outcomes.length = record.expected then
        { ledger with
          record := none
          notices := ledger.notices + (!record.tallied).toNat
          counted := ledger.counted + record.tallied.toNat }
      else { ledger with record := some { record with seen := record.seen + outcomes.length } } := by
  induction outcomes generalizing ledger record with
  | nil => simp [← opened]
  | cons failed outcomes ih =>
    cases failed with
    | true => exact absurd (List.mem_cons_self ..) clean
    | false =>
      have others : true ∉ outcomes := fun member => clean (List.mem_cons_of_mem _ member)
      rw [List.length_cons] at room
      rw [List.foldl_cons, take_success opened, Record.succeed]
      by_cases last : record.expected = record.seen + 1
      · have none : outcomes = [] := List.eq_nil_of_length_eq_zero (by omega)
        subst none
        simp [last]
      · have further : ({ ledger with record := some { record with seen := record.seen + 1 } } : Ledger).record =
            some { record with seen := record.seen + 1 } := rfl
        rw [if_neg last, ih further (by simp only; omega) others]
        by_cases empty : outcomes = []
        · subst empty
          simp [Ne.symm last]
        · simp [empty, Nat.add_assoc, Nat.add_comm 1]

/-- The first failure closes a job, and only failures are announced. -/
theorem foldl_fails (opened : ledger.record = some record) (room : record.seen + outcomes.length ≤ record.expected)
    (failed : true ∈ outcomes) : outcomes.foldl Ledger.take ledger = {
      record := none
      notices := ledger.notices + outcomes.count true
      counted := ledger.counted + record.tallied.toNat
      errors := ledger.errors + record.tallied.toNat } := by
  induction outcomes generalizing ledger record with
  | nil => cases failed
  | cons first outcomes ih =>
    cases first with
    | true =>
      rw [List.foldl_cons, take_failure opened, foldl_closed outcomes rfl, List.count_cons_self]
      simp only [Record.fail, Nat.add_assoc, Nat.add_comm 1]
    | false =>
      have later : true ∈ outcomes := by simpa using failed
      have positive := List.length_pos_of_mem later
      have further : ({ ledger with record := some { record with seen := record.seen + 1 } } : Ledger).record =
        some { record with seen := record.seen + 1 } := rfl
      rw [List.length_cons] at room
      rw [List.foldl_cons, take_success opened, Record.succeed, if_neg (by omega), ih further (by simp only; omega) later]
      simp

/-! Outcomes wait in queues until they are taken. -/

section
variable {ι α : Type} [Fintype ι] [DecidableEq ι] (queues : ι → List α) (i : ι) (select : α → Bool)

def queued : Nat := ∑ j, (queues j).countP select

theorem queued_update (entries : List α) :
    queued (update queues i entries) select + (queues i).countP select = queued queues select + entries.countP select := by
  have others : ∑ j ∈ univ.erase i, (update queues i entries j).countP select =
      ∑ j ∈ univ.erase i, (queues j).countP select := by
    refine sum_congr rfl fun j other => ?_
    rw [update_of_ne (ne_of_mem_erase other)]
  have before := add_sum_erase univ (fun j => (queues j).countP select) (mem_univ i)
  have after := add_sum_erase univ (fun j => (update queues i entries j).countP select) (mem_univ i)
  simp only [update_self] at after
  unfold queued
  omega

theorem queued_push (entry : α) :
    queued (update queues i (queues i ++ [entry])) select = queued queues select + if select entry then 1 else 0 := by
  have total := queued_update queues i select (queues i ++ [entry])
  rw [List.countP_append, List.countP_singleton] at total
  omega

theorem queued_pop {i : ι} {entry : α} {entries : List α} (head : queues i = entry :: entries) :
    queued (update queues i entries) select + (if select entry then 1 else 0) = queued queues select := by
  have total := queued_update queues i select entries
  rw [head, List.countP_cons] at total
  omega

end

end PplxGarden.Library.FanOut

/-! A conservation law. What was taken on is settled, or some holder still owes it. -/

namespace PplxGarden.Library

variable {ι M : Type} [AddCancelCommMonoid M]

/-- `share i x` says that the holder `i` owes `x`. -/
def Balanced (share : ι → M → Prop) (opened settled : M) : Prop :=
  ∃ owed : ι →₀ M, (∀ i, share i (owed i)) ∧ opened = settled + owed.degree

variable {share after : ι → M → Prop} {opened settled opened' settled' : M}

theorem Balanced.new (none : ∀ i, share i 0) : Balanced share 0 0 := ⟨0, none, by simp⟩

theorem degree_update (owed : ι →₀ M) (i : ι) (y : M) : (owed.update i y).degree + owed i = owed.degree + y := by
  have split := congrArg Finsupp.degree (Finsupp.erase_add_single i owed)
  rw [map_add, Finsupp.degree_single] at split
  rw [Finsupp.update_eq_erase_add_single, map_add, Finsupp.degree_single, ← split]
  exact add_right_comm ..

theorem Balanced.change (balanced : Balanced share opened settled) (i : ι) (others : ∀ j, j ≠ i → ∀ x, share j x → after j x)
    (here : ∀ x, share i x → ∃ y, after i y ∧ opened' + (settled + x) = opened + (settled' + y)) : Balanced after opened' settled' := by
  classical
  obtain ⟨owed, shares, total⟩ := balanced
  obtain ⟨y, changed, same⟩ := here (owed i) (shares i)
  refine ⟨owed.update i y, fun j => ?_, ?_⟩
  · by_cases equal : j = i
    · subst equal
      simpa using changed
    · simpa [equal] using others j equal _ (shares j)
  · have moved := degree_update owed i y
    apply add_right_cancel (b := settled + owed i)
    calc opened' + (settled + owed i) = opened + (settled' + y) := same
      _ = settled + owed.degree + (settled' + y) := by rw [total]
      _ = settled' + settled + (owed.degree + y) := by abel
      _ = settled' + (owed.update i y).degree + (settled + owed i) := by
        rw [← moved]
        abel

end PplxGarden.Library
