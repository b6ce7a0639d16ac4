import Mathlib.Logic.Function.Basic
import Mathlib.Data.List.Basic
import Mathlib.Tactic.Common

/-! Counted loops over checked vectors. A loop body may fail, and a failure ends
the loop: an index outside a vector is a failure rather than a default value. -/

namespace PplxGarden.Library
open Function List Option

variable {size index bound : Nat}

/-- `for i in first..last`, threading a state and stopping at the first failure. -/
def forRange (first last : Nat) (state : σ) (body : σ → Nat → Option σ) : Option σ :=
  (range' first (last - first)).foldlM body state

/-- A loop is solved by naming the state at the head of every iteration. -/
theorem forRange_states {first last : Nat} {state : σ} {body : σ → Nat → Option σ} (states : Nat → σ)
    (starts : states first = state) (ordered : first ≤ last)
    (step : ∀ i, first ≤ i → i < last → body (states i) i = some (states (i + 1))) :
    forRange first last state body = some (states last) := by
  obtain ⟨count, rfl⟩ := Nat.exists_eq_add_of_le ordered
  subst starts
  simp only [forRange, Nat.add_sub_cancel_left]
  clear ordered
  induction count generalizing first with
  | zero => rfl
  | succ count ih =>
    rw [range'_succ, foldlM_cons, step first (Nat.le_refl _) (by omega)]
    have rest : (range' (first + 1) count).foldlM body (states (first + 1)) = some (states (first + 1 + count)) :=
      ih (fun i lower upper => step i (by omega) (by omega))
    simpa only [bind_eq_bind, bind_some, Nat.add_assoc, Nat.add_comm 1] using rest

theorem forRange_empty {first last : Nat} {body : σ → Nat → Option σ} (state : σ)
    (empty : last ≤ first) : forRange first last state body = some state := by
  simp [forRange, Nat.sub_eq_zero_of_le empty]

theorem toOption_eq_some {ε α : Type} {result : Except ε α} {value : α} (found : result.toOption = some value) : result = .ok value := by
  cases result with
  | ok other =>
    cases found
    rfl
  | error fault => cases found

/-- A loop that may stop with an error: what its rounds keep, and what the error says. -/
theorem foldlM_except {σ α ε : Type} {body : σ → α → Except ε σ} {invariant : σ → Prop} {stopped : ε → Prop} {entries : List α} {start : σ}
    (holds : invariant start) (each : ∀ entry ∈ entries, ∀ before, invariant before →
      (∀ next, body before entry = .ok next → invariant next) ∧ ∀ error, body before entry = .error error → stopped error) :
    (∀ final, entries.foldlM body start = .ok final → invariant final) ∧ ∀ error, entries.foldlM body start = .error error → stopped error := by
  induction entries generalizing start with
  | nil =>
    refine ⟨fun final done => ?_, fun error failed => ?_⟩
    · cases done
      exact holds
    · cases failed
  | cons entry rest ih =>
    obtain ⟨goes, fails⟩ := each entry (mem_cons_self ..) start holds
    rw [foldlM_cons]
    cases stepped : body start entry with
    | ok next => exact ih (goes next stepped) fun other member => each other (mem_cons_of_mem _ member)
    | error error =>
      refine ⟨fun final done => ?_, fun other failed => ?_⟩
      · cases done
      · cases failed
        exact fails error stepped

theorem bind_ok {first : Except ε α} {next : α → Except ε β} {result : β} (done : first >>= next = .ok result) :
    ∃ value, first = .ok value ∧ next value = .ok result := by
  cases first with
  | error => cases done
  | ok value => exact ⟨value, rfl, done⟩

theorem mapM_ok {list : List α} {body : α → Except ε β} {results : List β} (served : list.mapM body = .ok results) :
    Forall₂ (fun item result => body item = .ok result) list results := by
  induction list generalizing results with
  | nil =>
    cases served
    exact .nil
  | cons item list ih =>
    rw [mapM_cons] at served
    obtain ⟨result, first, rest⟩ := bind_ok served
    obtain ⟨others, later, same⟩ := bind_ok rest
    cases same
    exact .cons first (ih later)

theorem forall₂_mem {related : α → β → Prop} {first : List α} {second : List β} (each : Forall₂ related first second) {item : α}
    (member : item ∈ first) : ∃ other ∈ second, related item other := by
  induction each with
  | nil => cases member
  | cons head _ ih =>
    rcases mem_cons.mp member with rfl | later
    · exact ⟨_, mem_cons_self .., head⟩
    · obtain ⟨other, listed, fits⟩ := ih later
      exact ⟨other, mem_cons_of_mem _ listed, fits⟩

theorem mapM_values {list : List α} {body : α → Option γ} (value : α → γ)
    (succeeds : ∀ item ∈ list, body item = some (value item)) : list.mapM body = some (list.map value) := by
  induction list with
  | nil => rfl
  | cons item list ih =>
    rw [mapM_cons, succeeds item (by simp), ih (fun other member => succeeds other (by simp [member]))]
    rfl

theorem mapM_fails {list : List α} {body : α → Option γ} {item : α} (member : item ∈ list) (fails : body item = none) :
    list.mapM body = none := by
  induction list with
  | nil => cases member
  | cons head list ih =>
    rw [mapM_cons]
    rcases mem_cons.mp member with rfl | later
    · rw [fails]
      rfl
    · rw [ih later]
      cases body head <;> rfl

/-- What every result of the body keeps of its item, the results keep of the list. -/
theorem mapM_projection {list : List α} {body : α → Option γ} (view : γ → δ) (source : α → δ)
    (kept : ∀ item result, body item = some result → view result = source item) {results : List γ}
    (served : list.mapM body = some results) : results.map view = list.map source := by
  induction list generalizing results with
  | nil =>
    cases served
    rfl
  | cons item list ih =>
    rw [mapM_cons] at served
    obtain ⟨result, first, rest⟩ := bind_eq_some_iff.mp served
    obtain ⟨others, later, same⟩ := bind_eq_some_iff.mp rest
    cases same
    rw [map_cons, map_cons, kept item result first, ih later]

theorem mapM_succeeds (list : List α) (body : α → Option γ) (succeeds : ∀ item ∈ list, ∃ result, body item = some result) :
    ∃ results, list.mapM body = some results := by
  induction list with
  | nil => exact ⟨[], rfl⟩
  | cons item list ih =>
    obtain ⟨result, first⟩ := succeeds item (by simp)
    obtain ⟨results, rest⟩ := ih (fun other member => succeeds other (by simp [member]))
    exact ⟨result :: results, by rw [mapM_cons, first, rest]; rfl⟩

theorem mapM_mem {list : List α} {body : α → Option γ} {results : List γ} (served : list.mapM body = some results) (result : γ) :
    result ∈ results ↔ ∃ item ∈ list, body item = some result := by
  induction list generalizing results with
  | nil =>
    cases served
    simp
  | cons item list ih =>
    rw [mapM_cons] at served
    obtain ⟨first, head, rest⟩ := bind_eq_some_iff.mp served
    obtain ⟨others, later, same⟩ := bind_eq_some_iff.mp rest
    cases same
    simp [ih later, head, eq_comm]

/-- Store into a vector of fixed length; an index past the end fails. -/
def vecSet (vector : List α) (index : Nat) (value : α) : Option (List α) :=
  if index < vector.length then some (vector.set index value) else none

/-- The vector whose entry at each index is the value of a function there. -/
def tabulate (size : Nat) (entry : Nat → α) : List α := (List.range size).map entry

@[simp] theorem tabulate_length (size : Nat) (entry : Nat → α) : (tabulate size entry).length = size := by
  simp [tabulate]

theorem tabulate_get (entry : Nat → α) (inside : index < size) :
    (tabulate size entry)[index]? = some (entry index) := by
  simp [tabulate, getElem?_range inside]

theorem replicate_eq_tabulate (size : Nat) (value : α) :
    replicate size value = tabulate size (fun _ => value) := by
  simp [tabulate]

theorem tabulate_congr {first second : Nat → α}
    (same : ∀ index, index < size → first index = second index) : tabulate size first = tabulate size second :=
  map_congr_left (fun index member => same index (mem_range.mp member))

theorem tabulate_set (entry : Nat → α) (value : α) (inside : index < size) :
    vecSet (tabulate size entry) index value = some (tabulate size (update entry index value)) := by
  simp only [vecSet, tabulate_length, inside, if_true, Option.some.injEq]
  apply ext_getElem (by simp)
  intro position first last
  have bound : position < size := by simpa using last
  by_cases same : index = position
  · subst same
    simp [tabulate]
  · simp [tabulate, getElem_set_ne same, update_of_ne (Ne.symm same)]

theorem tabulate_succ (size : Nat) (entry : Nat → α) :
    tabulate (size + 1) entry = tabulate size entry ++ [entry size] := by
  simp [tabulate, range_succ]

/-- A vector halfway through a pass: new entries below a bound, old ones above. -/
def overwrite (bound : Nat) (new old : Nat → α) : Nat → α := fun index => if index < bound then new index else old index

@[simp] theorem overwrite_zero (new old : Nat → α) : overwrite 0 new old = old := by
  funext index
  simp [overwrite]

@[simp] theorem overwrite_self (bound : Nat) (entry : Nat → α) : overwrite bound entry entry = entry := by
  funext index
  simp [overwrite]

theorem update_overwrite (bound : Nat) (new old : Nat → α) :
    update (overwrite bound new old) bound (new bound) = overwrite (bound + 1) new old := by
  funext index
  by_cases same : index = bound
  · subst same
    simp [overwrite]
  · rw [update_of_ne same]
    simp only [overwrite]
    congr 1
    exact propext (by omega)

/-- The entries below a bound are filled in, the others are still zero. -/
def filledTo (bound : Nat) (entry : Nat → Nat) : Nat → Nat := overwrite bound entry (fun _ => 0)

@[simp] theorem filledTo_zero (entry : Nat → Nat) : filledTo 0 entry = fun _ => 0 := overwrite_zero _ _

theorem filledTo_below (entry : Nat → Nat) (below : index < bound) :
    filledTo bound entry index = entry index := if_pos below

theorem filledTo_above (entry : Nat → Nat) (above : bound ≤ index) :
    filledTo bound entry index = 0 := if_neg (by omega)

theorem update_filledTo (bound : Nat) (entry : Nat → Nat) :
    update (filledTo bound entry) bound (entry bound) = filledTo (bound + 1) entry := update_overwrite _ _ _

theorem tabulate_filledTo (entry : Nat → Nat) (full : size ≤ bound) :
    tabulate size (filledTo bound entry) = tabulate size entry :=
  tabulate_congr (fun index inside => filledTo_below entry (by omega))

end PplxGarden.Library
