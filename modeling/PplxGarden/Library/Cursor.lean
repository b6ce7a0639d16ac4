import Mathlib.Data.List.Basic
import Mathlib.Tactic.Common

/-! Cursors. A cursor shows the next items of a sequence and can be moved past a
part of what it shows. Items are built on demand, so that a move may fail. -/

namespace PplxGarden.Library
open List Option

structure Cursor (σ α : Type) where
  peek : σ → List α
  advance : σ → Nat → Option σ

namespace Cursor

variable {σ α : Type} {cursor : Cursor σ α}

/-- A cursor is moved by one item that many times, or to its end; `false` if a move fails. -/
def hands (cursor : Cursor σ α) : Nat → σ → Bool
  | 0, _ => true
  | count + 1, state =>
    if (cursor.peek state).isEmpty then true
    else match cursor.advance state 1 with
      | none => false
      | some next => cursor.hands count next

/-- The items taken from a cursor that was moved to its end. -/
inductive Yields (cursor : Cursor σ α) : σ → List α → Prop where
  | done {state : σ} (nothing : cursor.peek state = []) : Yields cursor state []
  | move {state next : σ} {count : Nat} {items : List α} (something : cursor.peek state ≠ []) (shown : count ≤ (cursor.peek state).length)
      (moved : cursor.advance state count = some next) (rest : Yields cursor next items) :
      Yields cursor state ((cursor.peek state).take count ++ items)

/-- `left state rest` says that `rest` is what the cursor has still to show, `none`
being an item that cannot be built. -/
structure Reads (cursor : Cursor σ α) (left : σ → List (Option α) → Prop) : Prop where
  shows : ∀ {state rest}, left state rest → (cursor.peek state).map some <+: rest
  ends : ∀ {state rest}, left state rest → cursor.peek state = [] → rest = []
  moves : ∀ {state rest next count}, left state rest → count ≤ (cursor.peek state).length →
    cursor.advance state count = some next → left next (rest.drop count)
  goes : ∀ {state rest}, left state rest → cursor.peek state ≠ [] → (∀ item ∈ rest, item.isSome) →
    ∃ next, cursor.advance state (cursor.peek state).length = some next

variable {left : σ → List (Option α) → Prop} {state : σ} {rest : List (Option α)}

theorem Reads.take_shown (reads : Reads cursor left) (start : left state rest) {count : Nat} (shown : count ≤ (cursor.peek state).length) :
    rest.take count = ((cursor.peek state).take count).map some := by
  obtain ⟨later, rfl⟩ := reads.shows start
  rw [take_append_of_le_length (by simpa using shown), map_take]

/-- Whatever the moves, a cursor yields exactly what it has to show. -/
theorem Reads.yields_eq (reads : Reads cursor left) {items : List α} (start : left state rest) (yields : Yields cursor state items) :
    rest = items.map some := by
  induction yields generalizing rest with
  | done nothing => exact reads.ends start nothing
  | @move state next count items something shown moved others ih =>
    have later := ih (reads.moves start shown moved)
    rw [map_append, ← later, ← reads.take_shown start shown, take_append_drop]

theorem Reads.yields_all (reads : Reads cursor left) (start : left state rest) (buildable : ∀ item ∈ rest, item.isSome) :
    ∃ items, Yields cursor state items := by
  induction size : rest.length using Nat.strongRecOn generalizing state rest with
  | _ size ih =>
    by_cases nothing : cursor.peek state = []
    · exact ⟨[], .done nothing⟩
    · obtain ⟨next, moved⟩ := reads.goes start nothing buildable
      have later := reads.moves start (Nat.le_refl _) moved
      have positive := length_pos_iff.mpr nothing
      have fits := (reads.shows start).length_le
      rw [length_map] at fits
      obtain ⟨items, yields⟩ := ih _ (by rw [length_drop]; omega) later
        (fun item member => buildable item (mem_of_mem_drop member)) rfl
      exact ⟨_, .move nothing (Nat.le_refl _) moved yields⟩

theorem Reads.yields_iff (reads : Reads cursor left) (start : left state rest) (items : List α) :
    Yields cursor state items ↔ rest = items.map some := by
  constructor
  · exact reads.yields_eq start
  · intro known
    obtain ⟨others, yields⟩ := reads.yields_all start (by
      subst known
      intro item member
      obtain ⟨found, -, rfl⟩ := List.mem_map.mp member
      rfl)
    have same := reads.yields_eq start yields
    rw [known] at same
    rw [map_injective_iff.mpr (fun _ _ => Option.some.inj) same]
    exact yields

/-- A cursor that may fail to be made: it is made if what it requires holds and its
items can be built. -/
theorem Reads.made_iff (reads : Reads cursor left) {made : Option σ} {required : Prop} (starts : ∀ state, made = some state → left state rest)
    (checked : ∀ state, made = some state → required) (makes : required → (∀ item ∈ rest, item.isSome) → ∃ state, made = some state)
    (items : List α) : (∃ state, made = some state ∧ Yields cursor state items) ↔ required ∧ rest = items.map some := by
  constructor
  · rintro ⟨state, found, yields⟩
    exact ⟨checked state found, reads.yields_eq (starts state found) yields⟩
  · rintro ⟨holds, known⟩
    obtain ⟨state, found⟩ := makes holds (by
      subst known
      intro item member
      obtain ⟨built, -, rfl⟩ := List.mem_map.mp member
      rfl)
    exact ⟨state, found, (reads.yields_iff (starts state found) items).mpr known⟩

/-- A cursor that holds one item at a time: `state i held` is the cursor at position
`i`, where `held` is the last item that was built. -/
structure OneByOne {β : Type} (cursor : Cursor σ α) (build : Nat → Option β) (display : Nat → β → α) (stop : Nat) (state : Nat → β → σ) :
    Prop where
  inside : ∀ {i held}, i < stop → cursor.peek (state i held) = [display i held]
  outside : ∀ {held}, cursor.peek (state stop held) = []
  next : ∀ {i held}, i < stop → cursor.advance (state i held) 1 =
    if i + 1 < stop then (build (i + 1)).map (state (i + 1)) else some (state (i + 1) held)
  only : ∀ {i held count next}, cursor.advance (state i held) count = some next → count = 1

variable {β : Type} {build : Nat → Option β} {display : Nat → β → α} {stop : Nat} {position : Nat → β → σ}

inductive From (build : Nat → Option β) (display : Nat → β → α) (stop : Nat) (position : Nat → β → σ) : σ → List (Option α) → Prop where
  | start {i : Nat} {held : β} (bound : i ≤ stop) (current : i < stop → build i = some held) :
      From build display stop position (position i held) ((range' i (stop - i)).map fun k => (build k).map (display k))

section
variable (single : OneByOne cursor build display stop position)
include single

theorem OneByOne.reads : Reads cursor (From build display stop position) where
  shows {state rest} left := by
    obtain @⟨i, held, bound, current⟩ := left
    by_cases more : i < stop
    · obtain ⟨width, length⟩ := Nat.exists_eq_succ_of_ne_zero (Nat.sub_ne_zero_of_lt more)
      rw [single.inside more, length, range'_succ, map_cons, map_cons, current more]
      exact ⟨_, rfl⟩
    · obtain rfl : i = stop := by omega
      rw [single.outside]
      exact nil_prefix
  ends {state rest} left nothing := by
    obtain @⟨i, held, bound, current⟩ := left
    by_cases more : i < stop
    · rw [single.inside more] at nothing
      cases nothing
    · obtain rfl : i = stop := by omega
      simp
  moves {state rest next count} left shown moved := by
    obtain @⟨i, held, bound, current⟩ := left
    obtain rfl := single.only moved
    have more : i < stop := by
      by_contra beyond
      obtain rfl : i = stop := by omega
      rw [single.outside] at shown
      cases shown
    have shifted : (range' i (stop - i)).drop 1 = range' (i + 1) (stop - (i + 1)) := by
      rw [show stop - i = stop - (i + 1) + 1 by omega, range'_succ]
      rfl
    rw [← map_drop, shifted]
    rw [single.next more] at moved
    by_cases further : i + 1 < stop
    · rw [if_pos further] at moved
      obtain ⟨built, found, rfl⟩ := map_eq_some_iff.mp moved
      exact .start (Nat.le_of_lt further) fun _ => found
    · rw [if_neg further] at moved
      cases moved
      exact .start (by omega) fun inside => absurd inside further
  goes {state rest} left something buildable := by
    obtain @⟨i, held, bound, current⟩ := left
    have more : i < stop := by
      by_contra beyond
      obtain rfl : i = stop := by omega
      exact something single.outside
    rw [single.inside more, length_singleton, single.next more]
    by_cases further : i + 1 < stop
    · have known := buildable _ (List.mem_map_of_mem (mem_range'_1.mpr ⟨Nat.le_succ i, by omega⟩))
      rw [isSome_map] at known
      obtain ⟨built, found⟩ := isSome_iff_exists.mp known
      rw [if_pos further, found]
      exact ⟨_, rfl⟩
    · rw [if_neg further]
      exact ⟨_, rfl⟩

/-- Such a cursor shows one item and can be moved by it, if the next one can be built. -/
theorem OneByOne.moves_iff (start : From build display stop position state rest)
    (something : cursor.peek state ≠ []) : (cursor.peek state).length = 1 ∧
      ∀ count, (cursor.advance state count).isSome ↔ count = 1 ∧ rest[1]? ≠ some none := by
  obtain @⟨i, held, bound, current⟩ := start
  have more : i < stop := by
    by_contra beyond
    obtain rfl : i = stop := by omega
    exact something single.outside
  refine ⟨by rw [single.inside more, length_singleton], fun count => ?_⟩
  by_cases one : count = 1
  · subst one
    rw [single.next more, getElem?_map]
    by_cases further : i + 1 < stop
    · rw [if_pos further, getElem?_range' (by omega), Nat.one_mul]
      cases known : build (i + 1) <;> simp [known]
    · rw [if_neg further, getElem?_eq_none (by rw [length_range']; omega)]
      simp
  · refine iff_of_false (fun moves => one ?_) fun both => one both.1
    obtain ⟨next, moved⟩ := isSome_iff_exists.mp moves
    exact single.only moved

/-- Such a cursor hands out items as long as the one after each of them can be built. -/
theorem OneByOne.hands_iff {i : Nat} {held : β} (bound : i ≤ stop) (count : Nat) :
    cursor.hands count (position i held) ↔ ∀ k, i < k → k ≤ i + count → k < stop → (build k).isSome := by
  induction count generalizing i held with
  | zero => exact iff_of_true rfl fun k low high => absurd high (by omega)
  | succ count ih =>
    by_cases more : i < stop
    · rw [hands, single.inside more, isEmpty_cons, if_neg Bool.false_ne_true, single.next more]
      by_cases further : i + 1 < stop
      · rw [if_pos further]
        cases built : build (i + 1) with
        | none =>
          refine iff_of_false Bool.false_ne_true fun all => ?_
          have next := all (i + 1) (by omega) (by omega) further
          rw [built] at next
          cases next
        | some part =>
          rw [map_some]
          refine (ih (by omega)).trans ⟨fun later k low high inside => ?_, fun all k low high inside => all k (by omega) (by omega) inside⟩
          by_cases next : k = i + 1
          · rw [next, built]
            rfl
          · exact later k (by omega) (by omega) inside
      · rw [if_neg further]
        exact (ih (by omega)).trans (iff_of_true (fun k low _ inside => absurd inside (by omega)) fun k low _ inside => absurd inside (by omega))
    · obtain rfl : i = stop := by omega
      rw [hands, single.outside]
      exact iff_of_true rfl fun k low _ inside => absurd inside (by omega)

/-- A cursor that was just made hands out items if the first can be built as well. -/
theorem OneByOne.any_hands_iff {first : Nat} (bound : first < stop) (count : Nat) :
    ((build first).map (position first)).any (cursor.hands count) ↔
      ∀ k, first ≤ k → k ≤ first + count → k < stop → (build k).isSome := by
  cases built : build first with
  | none =>
    refine iff_of_false Bool.false_ne_true fun all => ?_
    have start := all first (Nat.le_refl first) (Nat.le_add_right first count) bound
    rw [built] at start
    cases start
  | some part =>
    refine (single.hands_iff (Nat.le_of_lt bound) count).trans ⟨fun later k low high inside => ?_, fun all k low => all k (Nat.le_of_lt low)⟩
    obtain rfl | further := Nat.eq_or_lt_of_le low
    · rw [built]
      rfl
    · exact later k further high inside

end

theorem exists_map_some {items : List (Option α)} (buildable : ∀ item ∈ items, item.isSome) : ∃ parts : List α, items = parts.map some := by
  induction items with
  | nil => exact ⟨[], rfl⟩
  | cons item items ih =>
    rw [forall_mem_cons] at buildable
    obtain ⟨part, rfl⟩ := isSome_iff_exists.mp buildable.1
    obtain ⟨parts, rfl⟩ := ih buildable.2
    exact ⟨part :: parts, rfl⟩

/-- Items that are built from parts can be built exactly if the parts can. -/
theorem map_range'_eq_some_iff {build : Nat → Option β} {display : Nat → β → α} {first count : Nat} {items : List α} :
    (range' first count).map (fun i => (build i).map (display i)) = items.map some ↔
      ∃ parts : List β, (range' first count).map build = parts.map some ∧ items = parts.mapIdx fun k => display (first + k) := by
  induction count generalizing first items with
  | zero =>
    constructor
    · intro same
      obtain rfl := map_eq_nil_iff.mp same.symm
      exact ⟨[], rfl, rfl⟩
    · rintro ⟨parts, known, rfl⟩
      obtain rfl := map_eq_nil_iff.mp known.symm
      rfl
  | succ count ih =>
    rw [range'_succ, map_cons, map_cons]
    constructor
    · intro same
      cases items with
      | nil => cases same
      | cons item items =>
        rw [map_cons, List.cons.injEq] at same
        obtain ⟨part, found, rfl⟩ := map_eq_some_iff.mp same.1
        obtain ⟨parts, known, rfl⟩ := ih.mp same.2
        refine ⟨part :: parts, by rw [found, known, map_cons], ?_⟩
        simp only [mapIdx_cons, Nat.add_zero, Nat.add_comm, Nat.add_left_comm]
    · rintro ⟨parts, known, rfl⟩
      cases parts with
      | nil => cases known
      | cons part parts =>
        rw [map_cons, List.cons.injEq] at known
        rw [known.1, ih.mpr ⟨parts, known.2, rfl⟩]
        simp only [mapIdx_cons, map_cons, map_some, Nat.add_zero, Nat.add_comm, Nat.add_left_comm]

end Cursor

end PplxGarden.Library
