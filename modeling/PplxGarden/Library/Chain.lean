import Mathlib.Data.List.Nodup
import Mathlib.Tactic.Common

/-! Chains in a memory. A place holds an item and the place of the next one; a place that
cannot be read holds nothing. -/

namespace PplxGarden.Library.Chain
open Option

variable {ι α : Type} (read : ι → Option (α × Option ι))

/-- The places of a chain in order, up to its end. -/
def visit : Nat → Option ι → Option (List ι)
  | _, none => some []
  | 0, some _ => none
  | fuel + 1, some place => do
    let (_, next) ← read place
    return place :: (← visit fuel next)

/-- The first items of a chain, and the place after them if the chain goes on. -/
def takeItems : Nat → Option ι → Option (List α × Option ι)
  | _, none => some ([], none)
  | 0, some place => some ([], some place)
  | count + 1, some place => do
    let (item, next) ← read place
    let (items, last) ← takeItems count next
    return (item :: items, last)

def distance [DecidableEq ι] (target : ι) : Nat → Option ι → Option Nat
  | 0, _ => none
  | _, none => none
  | fuel + 1, some place =>
    if place = target then some 0
    else do
      let (_, next) ← read place
      return (← distance target fuel next) + 1

/-- The chain from a place on has these places and items. -/
inductive Linked : Option ι → List (ι × α) → Prop where
  | nil : Linked none []
  | cons {place : ι} {item : α} {next : Option ι} {chain : List (ι × α)} (found : read place = some (item, next)) (rest : Linked next chain) :
      Linked (some place) ((place, item) :: chain)

variable {read} {first : Option ι} {chain : List (ι × α)}

theorem Linked.visit (linked : Linked read first chain) {fuel : Nat} (enough : chain.length ≤ fuel) :
    visit read fuel first = some (chain.map Prod.fst) := by
  induction linked generalizing fuel with
  | nil => cases fuel <;> rfl
  | cons found rest ih =>
    obtain ⟨fuel, rfl⟩ := Nat.exists_eq_add_one_of_ne_zero (Nat.ne_of_gt (Nat.lt_of_lt_of_le (Nat.succ_pos _) enough))
    rw [Chain.visit, found]
    simp only [bind_eq_bind, bind_some, ih (Nat.le_of_succ_le_succ enough)]
    rfl

theorem Linked.takeItems (linked : Linked read first chain) (count : Nat) :
    takeItems read count first = some ((chain.take count).map Prod.snd, chain[count]?.map Prod.fst) := by
  induction linked generalizing count with
  | nil => cases count <;> rfl
  | cons found rest ih =>
    cases count with
    | zero => rfl
    | succ count =>
      rw [Chain.takeItems, found]
      simp only [bind_eq_bind, bind_some, ih count]
      rfl

/-- In a chain without repetitions the number of links to a place is its position. -/
theorem Linked.distance [DecidableEq ι] (linked : Linked read first chain) (distinct : (chain.map Prod.fst).Nodup) {fuel position : Nat}
    (enough : position < fuel) {target : ι} (found : chain[position]?.map Prod.fst = some target) :
    distance read target fuel first = some position := by
  induction linked generalizing fuel position with
  | nil => cases found
  | @cons place item next chain known rest ih =>
    obtain ⟨fuel, rfl⟩ := Nat.exists_eq_add_one_of_ne_zero (Nat.ne_of_gt (Nat.lt_of_le_of_lt (Nat.zero_le _) enough))
    rw [List.map_cons, List.nodup_cons] at distinct
    rw [Chain.distance]
    cases position with
    | zero =>
      cases found
      rw [if_pos rfl]
    | succ position =>
      rw [List.getElem?_cons_succ] at found
      have other : place ≠ target := by
        rintro rfl
        obtain ⟨entry, listed, same⟩ := map_eq_some_iff.mp found
        exact distinct.1 (List.mem_map.mpr ⟨entry, List.mem_of_getElem? listed, same⟩)
      rw [if_neg other, known]
      simp only [bind_eq_bind, bind_some, ih distinct.2 (Nat.lt_of_succ_lt_succ enough) found]
      rfl

end PplxGarden.Library.Chain
