import Mathlib.Data.List.Nodup
import Mathlib.Order.Lattice

/-! Maps that keep their entries in the order of the keys. -/

namespace PplxGarden.Library
open List

variable {κ α : Type} [LinearOrder κ]
variable {entries : List (κ × α)}

def insertEntry (key : κ) (value : α) : List (κ × α) → List (κ × α)
  | [] => [(key, value)]
  | entry :: entries =>
    if key < entry.1 then (key, value) :: entry :: entries
    else if key = entry.1 then (key, value) :: entries
    else entry :: insertEntry key value entries

theorem insertEntry_mem {key : κ} {value : α} {entry : κ × α} (member : entry ∈ insertEntry key value entries) :
    entry = (key, value) ∨ entry ∈ entries := by
  induction entries with
  | nil => exact Or.inl (mem_singleton.mp member)
  | cons head entries ih =>
    rw [insertEntry] at member
    split at member
    next => exact mem_cons.mp member
    next =>
      split at member
      next => exact (mem_cons.mp member).imp_right (mem_cons_of_mem _)
      next =>
        rcases mem_cons.mp member with rfl | later
        · exact Or.inr (mem_cons_self ..)
        · exact (ih later).imp_right (mem_cons_of_mem _)

theorem insertEntry_sorted (key : κ) (value : α) (sorted : entries.Pairwise fun first second => first.1 < second.1) :
    (insertEntry key value entries).Pairwise fun first second => first.1 < second.1 := by
  induction entries with
  | nil => exact pairwise_singleton ..
  | cons head entries ih =>
    obtain ⟨least, rest⟩ := pairwise_cons.mp sorted
    rw [insertEntry]
    split
    next before =>
      refine pairwise_cons.mpr ⟨?_, sorted⟩
      intro entry member
      rcases mem_cons.mp member with rfl | later
      · exact before
      · exact lt_trans before (least entry later)
    next notBefore =>
      split
      next same => exact pairwise_cons.mpr ⟨fun entry member => same ▸ least entry member, rest⟩
      next other =>
        refine pairwise_cons.mpr ⟨?_, ih rest⟩
        intro entry member
        rcases insertEntry_mem member with rfl | later
        · exact lt_of_le_of_ne (not_lt.mp notBefore) (Ne.symm other)
        · exact least entry later

theorem insertEntry_perm {key : κ} (value : α) (fresh : key ∉ entries.map Prod.fst) :
    (insertEntry key value entries).Perm ((key, value) :: entries) := by
  induction entries with
  | nil => exact Perm.refl _
  | cons head entries ih =>
    rw [map_cons, mem_cons, not_or] at fresh
    rw [insertEntry]
    split
    next => exact Perm.refl _
    next =>
      rw [if_neg fresh.1]
      exact ((ih fresh.2).cons head).trans (Perm.swap ..)

structure SortedMap (κ α : Type) [LinearOrder κ] where
  entries : List (κ × α)
  sorted : entries.Pairwise fun first second => first.1 < second.1

namespace SortedMap

def empty : SortedMap κ α := ⟨[], Pairwise.nil⟩

def insert (map : SortedMap κ α) (key : κ) (value : α) : SortedMap κ α := ⟨insertEntry key value map.entries, insertEntry_sorted key value map.sorted⟩

def first? (map : SortedMap κ α) : Option (κ × α) := map.entries.head?

def ofList (entries : List (κ × α)) : SortedMap κ α := entries.foldl (fun map entry => map.insert entry.1 entry.2) empty

theorem first_least {map : SortedMap κ α} {first : κ × α} (found : map.first? = some first) :
    first ∈ map.entries ∧ ∀ entry ∈ map.entries, first.1 ≤ entry.1 := by
  obtain ⟨entries, sorted⟩ := map
  cases entries with
  | nil => cases found
  | cons head entries =>
    cases found
    refine ⟨mem_cons_self .., ?_⟩
    intro entry member
    rcases mem_cons.mp member with rfl | later
    · exact le_refl _
    · exact le_of_lt ((pairwise_cons.mp sorted).1 entry later)

theorem insertAll_perm {map : SortedMap κ α} (distinct : ((entries ++ map.entries).map Prod.fst).Nodup) :
    (entries.foldl (fun map entry => map.insert entry.1 entry.2) map).entries.Perm (entries ++ map.entries) := by
  induction entries generalizing map with
  | nil => exact Perm.refl _
  | cons entry entries ih =>
    have added : (insertEntry entry.1 entry.2 map.entries).Perm (entry :: map.entries) := by
      apply insertEntry_perm
      intro known
      rw [cons_append, map_cons, nodup_cons, map_append, mem_append, not_or] at distinct
      exact distinct.1.2 known
    have moved : (entries ++ insertEntry entry.1 entry.2 map.entries).Perm (entry :: (entries ++ map.entries)) :=
      (added.append_left entries).trans perm_middle
    exact (ih ((moved.map Prod.fst).nodup_iff.mpr distinct)).trans moved

theorem ofList_perm (distinct : (entries.map Prod.fst).Nodup) : (ofList entries).entries.Perm entries := by
  have all : (ofList entries).entries.Perm (entries ++ []) := insertAll_perm (by rwa [show (empty : SortedMap κ α).entries = [] from rfl, append_nil])
  rwa [append_nil] at all

end SortedMap

end PplxGarden.Library
