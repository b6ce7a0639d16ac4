import PplxGarden.Library.Text

/-! Numbers written in digits, and how an unsigned number below a limit is read from a text. A
sign may stand before the digits. -/

namespace PplxGarden.Library
open Option Nat

open Text
variable {radix limit number value : Nat} {char : Char}

/-- What a digit stands for: the decimal digits, then the letters of either case. -/
def digitValue (char : Char) : Option Nat :=
  let code := char.toNat
  if 48 ≤ code ∧ code ≤ 57 then some (code - 48)
  else if 97 ≤ code ∧ code ≤ 122 then some (code - 87)
  else if 65 ≤ code ∧ code ≤ 90 then some (code - 55)
  else none

def toDigit (radix : Nat) (char : Char) : Option Nat := (digitValue char).filter (· < radix)

def addDigit (radix limit value : Nat) (char : Char) : Option Nat :=
  (toDigit radix char).bind fun digit => if value * radix + digit < limit then some (value * radix + digit) else none

def readDigits (radix limit : Nat) (value : Nat) (digits : Text) : Option Nat := digits.foldlM (addDigit radix limit) value

/-- `from_str_radix` of an unsigned type with the values below a limit. -/
def fromStrRadix (radix limit : Nat) (text : Text) : Option Nat :=
  if text = [] ∨ text = ['+'] ∨ text = ['-'] then none
  else readDigits radix limit 0 (if text.head? = some '+' then text.tail else text)

theorem digitValue_digitChar (small : value < 16) : digitValue value.digitChar = some value := by
  rcases value with _ | _ | _ | _ | _ | _ | _ | _ | _ | _ | _ | _ | _ | _ | _ | _ | value
  all_goals first | rfl | omega

theorem toDigit_digitChar (known : radix ≤ 16) (small : value < radix) : toDigit radix value.digitChar = some value := by
  rw [toDigit, digitValue_digitChar (small.trans_le known), filter_some, if_pos (decide_eq_true small)]

theorem toDigit_lt {digit : Nat} (found : toDigit radix char = some digit) : digit < radix := by
  simpa using (filter_eq_some_iff.mp found).2

theorem toDigit_code {digit : Nat} (found : toDigit radix char = some digit) : 48 ≤ char.toNat ∧ char.toNat ≤ 122 := by
  have value := (filter_eq_some_iff.mp found).1
  simp only [digitValue] at value
  split at value
  next decimal => omega
  next =>
    split at value
    next lower => omega
    next =>
      split at value
      next upper => omega
      next => cases value

theorem toDigit_none (early : char.toNat < 48) : toDigit radix char = none := by
  cases found : toDigit radix char with
  | none => rfl
  | some digit =>
    have code := toDigit_code found
    omega

theorem readDigits_cons (char : Char) (digits : Text) :
    readDigits radix limit value (char :: digits) = (addDigit radix limit value char).bind fun next => readDigits radix limit next digits := rfl

theorem readDigits_toDigits (large : 1 < radix) (known : radix ≤ 16) (fits : number < limit) :
    readDigits radix limit 0 (toDigits radix number) = some number := by
  -- The numeral is split at its last digit, as it is built.
  induction number using Nat.strongRecOn with
  | _ number ih =>
    by_cases small : number < radix
    · rw [toDigits_of_lt_base small, readDigits_cons, addDigit, toDigit_digitChar known small]
      simp [fits, readDigits]
    · have smaller : number / radix < number := Nat.div_lt_self (by omega) large
      have digit : number % radix < radix := mod_lt _ (by omega)
      have whole := div_add_mod number radix
      have split := toDigits_append_toDigits large (Nat.div_pos (Nat.le_of_not_lt small) (by omega)) digit
      rw [whole] at split
      rw [← split, readDigits, List.foldlM_append]
      have front := ih (number / radix) smaller (smaller.trans fits)
      rw [readDigits] at front
      rw [front, toDigits_of_lt_base digit, bind_eq_bind, bind_some, List.foldlM_cons, addDigit, toDigit_digitChar known digit,
        bind_some, Nat.mul_comm, whole, if_pos fits]
      rfl

theorem readDigits_lt {digits : Text} (start : value < limit) (read : readDigits radix limit value digits = some number) :
    number < limit := by
  induction digits generalizing value with
  | nil =>
    cases read
    exact start
  | cons char digits ih =>
    obtain ⟨next, added, rest⟩ := bind_eq_some_iff.mp read
    obtain ⟨digit, _, fits⟩ := bind_eq_some_iff.mp added
    refine ih ?_ rest
    split at fits
    next small =>
      cases fits
      exact small
    next => cases fits

theorem fromStrRadix_lt {text : Text} (read : fromStrRadix radix limit text = some number) (positive : 0 < limit) :
    number < limit := by
  unfold fromStrRadix at read
  split at read
  next => cases read
  next => exact readDigits_lt positive read

theorem fromStrRadix_unsigned {first : Char} {rest : Text} (unsigned : first ≠ '+') :
    fromStrRadix radix limit (first :: rest) = readDigits radix limit 0 (first :: rest) := by
  have sign : ¬ (first :: rest).head? = some '+' := fun plus => unsigned (Option.some.inj plus)
  by_cases special : first :: rest = [] ∨ first :: rest = ['+'] ∨ first :: rest = ['-']
  · rw [fromStrRadix, if_pos special]
    rcases special with empty | plus | minus
    · cases empty
    · exact absurd (List.cons.inj plus).1 unsigned
    · cases minus
      rw [readDigits_cons, addDigit, toDigit_none (by decide)]
      rfl
  · rw [fromStrRadix, if_neg special, if_neg sign]

theorem fromStrRadix_plus {rest : Text} (some_ : rest ≠ []) :
    fromStrRadix radix limit ('+' :: rest) = readDigits radix limit 0 rest := by
  have sign : ('+' :: rest).head? = some '+' := rfl
  rw [fromStrRadix, if_neg (by simp [some_]), if_pos sign, List.tail_cons]

theorem digit_code (member : char ∈ toDigits 10 number) : 48 ≤ char.toNat ∧ char.toNat ≤ 57 := by
  have digit := isDigit_of_mem_toDigits (by decide) (by decide) member
  rw [Char.isDigit, Bool.and_eq_true, decide_eq_true_eq, decide_eq_true_eq] at digit
  exact ⟨UInt32.le_iff_toNat_le.mp digit.1, UInt32.le_iff_toNat_le.mp digit.2⟩

theorem fromStrRadix_toDigits (fits : number < limit) : fromStrRadix 10 limit (toDigits 10 number) = some number := by
  obtain ⟨first, rest, numeral⟩ := List.exists_cons_of_ne_nil (toDigits_ne_nil : toDigits 10 number ≠ [])
  have unsigned : first ≠ '+' := by
    rintro rfl
    have code := digit_code (numeral ▸ List.mem_cons_self : '+' ∈ toDigits 10 number)
    exact absurd code.1 (by decide)
  rw [numeral, fromStrRadix_unsigned unsigned, ← numeral]
  exact readDigits_toDigits (by decide) (by decide) fits

end PplxGarden.Library
