import Mathlib.Data.List.DropRight
import Mathlib.Algebra.Ring.Nat
import Mathlib.Tactic.Common

/-! Texts as lists of characters, with offsets in bytes of their UTF-8 form. A text can be cut
only where a character starts; a cut anywhere else is refused. -/

namespace PplxGarden.Library
open List

variable {char : Char} {offset : Nat}

abbrev Text := List Char

variable {text : Text}

namespace Text

def byteLen (text : Text) : Nat := (text.map Char.utf8Size).sum

@[simp] theorem byteLen_nil : byteLen [] = 0 := rfl

@[simp] theorem byteLen_cons (char : Char) (text : Text) : byteLen (char :: text) = char.utf8Size + byteLen text := by
  simp [byteLen]

@[simp] theorem byteLen_append (first second : Text) : byteLen (first ++ second) = byteLen first + byteLen second := by
  simp [byteLen]

theorem byteLen_pos (some_ : text ≠ []) : 0 < byteLen text := by
  obtain ⟨char, rest, rfl⟩ := exists_cons_of_ne_nil some_
  have wide := char.utf8Size_pos
  rw [byteLen_cons]
  omega

theorem byteLen_narrow (narrow : ∀ char ∈ text, char.utf8Size = 1) : byteLen text = text.length := by
  induction text with
  | nil => rfl
  | cons char text ih =>
    rw [byteLen_cons, narrow char (mem_cons_self ..), ih fun other member => narrow other (mem_cons_of_mem _ member),
      length_cons, Nat.add_comm]

/-- The text before and after an offset, if a character starts or the text ends there. -/
def cut : Text → Nat → Option (Text × Text)
  | text, 0 => some ([], text)
  | [], _ + 1 => none
  | char :: text, offset + 1 =>
    if char.utf8Size ≤ offset + 1 then (cut text (offset + 1 - char.utf8Size)).map fun (before, after) => (char :: before, after)
    else none

theorem cut_zero (text : Text) : cut text 0 = some ([], text) := by
  cases text <;> rfl

theorem cut_cons (fits : char.utf8Size ≤ offset) :
    cut (char :: text) offset = (cut text (offset - char.utf8Size)).map fun (before, after) => (char :: before, after) := by
  have wide := char.utf8Size_pos
  obtain ⟨offset, rfl⟩ := Nat.exists_eq_succ_of_ne_zero (show offset ≠ 0 by omega)
  exact if_pos fits

theorem cut_inside (some_ : 0 < offset) (inside : offset < char.utf8Size) :
    cut (char :: text) offset = none := by
  obtain ⟨offset, rfl⟩ := Nat.exists_eq_succ_of_ne_zero (Nat.ne_of_gt some_)
  exact if_neg (Nat.not_le_of_lt inside)

theorem cut_append (before after : Text) : cut (before ++ after) (byteLen before) = some (before, after) := by
  induction before with
  | nil => exact cut_zero after
  | cons char before ih =>
    rw [cons_append, byteLen_cons, cut_cons (Nat.le_add_right ..), Nat.add_sub_cancel_left, ih]
    rfl

theorem cut_past (narrow : char.utf8Size = 1) (before after : Text) :
    cut (before ++ char :: after) (byteLen before + 1) = some (before ++ [char], after) := by
  have size : byteLen before + 1 = byteLen (before ++ [char]) := by rw [byteLen_append, byteLen_cons, narrow, byteLen_nil]
  rw [size, ← cut_append (before ++ [char]) after, append_assoc]
  rfl

theorem cut_eq_some {before after : Text} (found : cut text offset = some (before, after)) :
    text = before ++ after ∧ offset = byteLen before := by
  induction text generalizing offset before with
  | nil =>
    cases offset with
    | zero =>
      cases found
      exact ⟨rfl, rfl⟩
    | succ => cases found
  | cons char text ih =>
    cases offset with
    | zero =>
      cases found
      exact ⟨rfl, rfl⟩
    | succ offset =>
      by_cases fits : char.utf8Size ≤ offset + 1
      · rw [cut_cons fits] at found
        obtain ⟨⟨first, second⟩, rest, same⟩ := Option.map_eq_some_iff.mp found
        cases same
        obtain ⟨joined, sized⟩ := ih rest
        rw [joined, cons_append, byteLen_cons]
        exact ⟨rfl, by omega⟩
      · rw [cut_inside (Nat.succ_pos _) (Nat.lt_of_not_le fits)] at found
        cases found

/-- `&text[first..last]`. -/
def slice (text : Text) (first last : Nat) : Option Text :=
  if first ≤ last then (cut text first).bind fun halves => (cut halves.2 (last - first)).map Prod.fst else none

theorem slice_append (before rest : Text) (size : Nat) :
    slice (before ++ rest) (byteLen before) (byteLen before + size) =
      (cut rest size).map Prod.fst := by
  rw [slice, if_pos (Nat.le_add_right ..), cut_append, Nat.add_sub_cancel_left]
  rfl

/-- The offset of the first occurrence. -/
def find (text : Text) (char : Char) : Option Nat :=
  if char ∈ text then some (byteLen (text.takeWhile (· ≠ char))) else none

theorem find_eq_some (found : find text char = some offset) :
    ∃ before after, text = before ++ char :: after ∧ char ∉ before ∧ offset = byteLen before := by
  unfold find at found
  split at found
  next member =>
    cases found
    obtain ⟨before, after, rfl, fresh⟩ := eq_append_cons_of_mem member
    refine ⟨before, after, rfl, fresh, ?_⟩
    rw [takeWhile_append_of_pos (fun other listed => by simpa using ne_of_mem_of_not_mem listed fresh), takeWhile_cons]
    simp
  next => cases found

theorem find_first {before after : Text} (fresh : char ∉ before) : find (before ++ char :: after) char = some (byteLen before) := by
  rw [find, if_pos (by simp), takeWhile_append_of_pos (fun other listed => by simpa using ne_of_mem_of_not_mem listed fresh), takeWhile_cons]
  simp

/-- The property `White_Space` of Unicode. -/
def whiteSpace (char : Char) : Bool :=
  let code := char.toNat
  (9 ≤ code ∧ code ≤ 13) ∨ code = 32 ∨ code = 0x85 ∨ code = 0xa0 ∨ code = 0x1680 ∨ (0x2000 ≤ code ∧ code ≤ 0x200a) ∨
    code = 0x2028 ∨ code = 0x2029 ∨ code = 0x202f ∨ code = 0x205f ∨ code = 0x3000

def trim (text : Text) : Text := (text.dropWhile whiteSpace).rdropWhile whiteSpace

theorem trim_append {space : Text} (solid : ∀ char ∈ text, whiteSpace char = false) (blank : ∀ char ∈ space, whiteSpace char) :
    trim (text ++ space) = text := by
  cases text with
  | nil =>
    rw [nil_append, trim, dropWhile_eq_nil_iff.mpr blank]
    exact rdropWhile_nil ..
  | cons char text =>
    have start : (char :: text ++ space).dropWhile whiteSpace = char :: text ++ space := by
      rw [cons_append, dropWhile_cons, if_neg (by simp [solid char (mem_cons_self ..)])]
    rw [trim, start]
    clear start
    induction space using reverseRecOn with
    | nil =>
      rw [append_nil, rdropWhile_eq_self_iff]
      intro some_
      simp [solid _ (getLast_mem some_)]
    | append_singleton space last ih =>
      rw [← append_assoc, rdropWhile_concat_pos _ _ _ (blank last (by simp))]
      exact ih fun other member => blank other (by simp [member])

end Text

end PplxGarden.Library
