import PplxGarden.Fabric.Addresses
import Mathlib.Data.List.Forall2
import Mathlib.Tactic.IntervalCases

/-! A printed address is read back. What else is read as an address: a pair may start with a
sign, and a text may be cut inside a character. -/

namespace PplxGarden.Fabric.Proofs
open Library Text List Option Nat
variable {pairs : List Text} {char : Char} {bytes : List UInt8} {pair rest s : Text}
  {digit value : Nat}

def HexDigit (char : Char) : Prop := ('0' ≤ char ∧ char ≤ '9') ∨ ('a' ≤ char ∧ char ≤ 'f') ∨ ('A' ≤ char ∧ char ≤ 'F')

/-- A text is an address exactly if it is made of pairs of digits, and then the address prints
as the text in lower case. -/
structure ReadsExactly (s : Text) : Prop where
  returns : DomainAddress.fromStr s ≠ none
  accepts : (∃ bytes, DomainAddress.fromStr s = some (.ok bytes)) ↔ s ≠ [] ∧ s.byteLen % 2 = 0 ∧ ∀ char ∈ s, HexDigit char
  prints : ∀ bytes, DomainAddress.fromStr s = some (.ok bytes) → fmtHex bytes = s.map Char.toLower

def PairRead (pair : Text) : Prop :=
  ∃ first second, pair = [first, second] ∧ (HexDigit first ∨ first = '+') ∧ HexDigit second

/-- A text of odd length; or one where, after pairs that are read, no character crosses the end
of the next pair, and no pair has a sign if nothing follows. -/
def Unambiguous (s : Text) : Prop :=
  s.byteLen % 2 = 1 ∨ ∀ (pairs : List Text) (rest : Text), (∀ pair ∈ pairs, PairRead pair) → s = pairs.flatten ++ rest →
    (rest ≠ [] → rest.cut 2 ≠ none) ∧ (rest = [] → '+' ∉ s)

private theorem le_iff_code (first second : Char) : first ≤ second ↔ first.toNat ≤ second.toNat :=
  UInt32.le_iff_toNat_le

theorem hexDigit_iff_code : HexDigit char ↔
    (48 ≤ char.toNat ∧ char.toNat ≤ 57) ∨ (97 ≤ char.toNat ∧ char.toNat ≤ 102) ∨
      (65 ≤ char.toNat ∧ char.toNat ≤ 70) := by
  simp only [HexDigit, le_iff_code]
  exact Iff.rfl

theorem hexDigit_iff : HexDigit char ↔ ∃ digit, toDigit 16 char = some digit := by
  rw [hexDigit_iff_code]
  constructor
  · intro digit
    simp only [toDigit, filter_eq_some_iff, decide_eq_true_eq, digitValue]
    rcases digit with decimal | lower | upper
    · exact ⟨char.toNat - 48, if_pos decimal, by omega⟩
    · exact ⟨char.toNat - 87, by rw [if_neg (by omega), if_pos (by omega)], by omega⟩
    · exact ⟨char.toNat - 55, by rw [if_neg (by omega), if_neg (by omega), if_pos (by omega)], by omega⟩
  · rintro ⟨digit, found⟩
    obtain ⟨value, small⟩ := filter_eq_some_iff.mp found
    simp only [digitValue, decide_eq_true_eq] at value small
    split at value
    next decimal => exact .inl decimal
    next =>
      split at value
      next lower =>
        cases value
        exact .inr (.inl ⟨lower.1, by omega⟩)
      next =>
        split at value
        next upper =>
          cases value
          exact .inr (.inr ⟨upper.1, by omega⟩)
        next => cases value

theorem HexDigit.narrow (digit : HexDigit char) : char.utf8Size = 1 := by
  have code := hexDigit_iff_code.mp digit
  apply Char.utf8Size_eq_one_iff.mpr
  apply UInt32.le_iff_toNat_le.mpr
  have small : char.toNat ≤ 127 := by omega
  exact small

theorem plus_not_digit : ¬ HexDigit '+' := by
  rw [hexDigit_iff_code]
  decide

private theorem digitChar_lower (found : toDigit 16 char = some digit) : digit.digitChar = char.toLower := by
  have code := hexDigit_iff_code.mp (hexDigit_iff.mpr ⟨digit, found⟩)
  have whole : char = Char.ofNat char.toNat := (Char.ofNat_toNat char).symm
  generalize char.toNat = number at code whole
  subst whole
  rcases code with decimal | lower | upper
  · obtain ⟨first, last⟩ := decimal
    interval_cases number <;> cases found <;> rfl
  · obtain ⟨first, last⟩ := lower
    interval_cases number <;> cases found <;> rfl
  · obtain ⟨first, last⟩ := upper
    interval_cases number <;> cases found <;> rfl

private theorem ne_plus (found : toDigit 16 char = some digit) : char ≠ '+' := by
  rintro rfl
  exact plus_not_digit (hexDigit_iff.mpr ⟨digit, found⟩)

theorem addDigit_hex (found : toDigit 16 char = some digit) (small : value < 16) :
    addDigit 16 (2 ^ 8) value char = some (value * 16 + digit) := by
  have bound := toDigit_lt found
  rw [addDigit, found, bind_some, if_pos (by omega)]

theorem read_digits {first second : Char} {high low : Nat} (upper : toDigit 16 first = some high)
    (lower : toDigit 16 second = some low) :
    fromStrRadix 16 (2 ^ 8) [first, second] = some (high * 16 + low) := by
  rw [fromStrRadix_unsigned (ne_plus upper), readDigits_cons, addDigit_hex upper (by decide),
    bind_some, zero_mul, Nat.zero_add, readDigits_cons,
    addDigit_hex lower (toDigit_lt upper)]
  rfl

private theorem read_signed {second : Char} {low : Nat} (lower : toDigit 16 second = some low) :
    fromStrRadix 16 (2 ^ 8) ['+', second] = some low := by
  rw [fromStrRadix_plus (by simp), readDigits_cons, addDigit_hex lower (by decide), zero_mul, Nat.zero_add]
  rfl

theorem readDigits_head {byte : Nat} {first : Char} (read : readDigits 16 (2 ^ 8) value (first :: rest) = some byte) :
    HexDigit first ∧ ∃ next, readDigits 16 (2 ^ 8) next rest = some byte := by
  obtain ⟨next, added, rest⟩ := bind_eq_some_iff.mp read
  obtain ⟨digit, found, _⟩ := bind_eq_some_iff.mp added
  exact ⟨hexDigit_iff.mpr ⟨digit, found⟩, next, rest⟩

private theorem wide_unread (wide : char.utf8Size = 2) : fromStrRadix 16 (2 ^ 8) [char] = none := by
  have unsigned : char ≠ '+' := by
    rintro rfl
    cases wide
  rw [fromStrRadix_unsigned unsigned]
  refine eq_none_iff_forall_ne_some.mpr fun byte read => ?_
  have narrow := (readDigits_head read).1.narrow
  omega

private theorem two_bytes (sized : byteLen pair = 2) :
    (∃ char, pair = [char] ∧ char.utf8Size = 2) ∨ ∃ first second, pair = [first, second] := by
  cases pair with
  | nil => cases sized
  | cons first rest =>
    cases rest with
    | nil => exact .inl ⟨first, rfl, by rwa [byteLen_cons, byteLen_nil, Nat.add_zero] at sized⟩
    | cons second rest =>
      have width := first.utf8Size_pos
      have width' := second.utf8Size_pos
      rw [byteLen_cons, byteLen_cons] at sized
      have single : rest = [] := by
        by_contra some_
        have more := byteLen_pos some_
        omega
      exact .inr ⟨first, second, by rw [single]⟩

theorem pairRead_iff (sized : byteLen pair = 2) :
    PairRead pair ↔ ∃ byte, fromStrRadix 16 (2 ^ 8) pair = some byte := by
  constructor
  · rintro ⟨first, second, rfl, sign, digit⟩
    obtain ⟨low, lower⟩ := hexDigit_iff.mp digit
    rcases sign with digit' | rfl
    · obtain ⟨high, upper⟩ := hexDigit_iff.mp digit'
      exact ⟨_, read_digits upper lower⟩
    · exact ⟨_, read_signed lower⟩
  · rintro ⟨byte, read⟩
    rcases two_bytes sized with ⟨char, rfl, wide⟩ | ⟨first, second, rfl⟩
    · rw [wide_unread wide] at read
      cases read
    · refine ⟨first, second, rfl, ?_⟩
      by_cases sign : first = '+'
      · rw [sign, fromStrRadix_plus (by simp)] at read
        exact ⟨.inr sign, (readDigits_head read).1⟩
      · rw [fromStrRadix_unsigned sign] at read
        obtain ⟨digit, _, rest⟩ := readDigits_head read
        exact ⟨.inl digit, (readDigits_head rest).1⟩

theorem PairRead.sized (read : PairRead pair) : byteLen pair = 2 := by
  obtain ⟨first, second, rfl, sign, digit⟩ := read
  have narrow : first.utf8Size = 1 := by
    rcases sign with digit' | rfl
    · exact digit'.narrow
    · rfl
  rw [byteLen_cons, byteLen_cons, narrow, digit.narrow]
  rfl

theorem byteLen_pairs (read : ∀ pair ∈ pairs, PairRead pair) : byteLen pairs.flatten = 2 * pairs.length := by
  induction pairs with
  | nil => rfl
  | cons pair pairs ih =>
    rw [flatten_cons, byteLen_append, (read pair (mem_cons_self ..)).sized, ih fun other member =>
      read other (mem_cons_of_mem _ member),
      length_cons]
    omega

private theorem fromHexFrom_step (before rest : Text) (rounds : Nat) :
    fromHexFrom (before ++ rest) (rounds + 1) (byteLen before) =
      (rest.cut 2).bind fun halves => (fromStrRadix 16 (2 ^ 8) halves.1).elim
        (some (.error ())) fun byte =>
        (fromHexFrom (before ++ rest) rounds (byteLen before + 2)).map
          (Except.map (UInt8.ofNat byte :: ·)) := by
  rw [fromHexFrom, Text.slice_append]
  cases rest.cut 2 with
  | none => rfl
  | some halves =>
    simp only [map_some, bind_eq_bind, bind_some]
    cases fromStrRadix 16 (2 ^ 8) halves.1 with
    | none => rfl
    | some byte => cases fromHexFrom (before ++ rest) rounds (byteLen before + 2) <;> rfl

theorem fromHexFrom_pairs
    (read : Forall₂ (fun pair (byte : UInt8) => byteLen pair = 2 ∧
      fromStrRadix 16 (2 ^ 8) pair = some byte.toNat) pairs bytes) (before rest : Text)
    (rounds : Nat) :
    fromHexFrom (before ++ (pairs.flatten ++ rest)) (pairs.length + rounds) (byteLen before) =
        (fromHexFrom ((before ++ pairs.flatten) ++ rest) rounds
          (byteLen (before ++ pairs.flatten))).map (Except.map (bytes ++ ·)) := by
  induction read generalizing before with
  | nil =>
    simp only [flatten_nil, nil_append, length_nil, Nat.zero_add, append_nil]
    cases fromHexFrom (before ++ rest) rounds (byteLen before) with
    | none => rfl
    | some result => cases result <;> rfl
  | @cons pair byte pairs bytes head _ ih =>
    obtain ⟨sized, value⟩ := head
    have next := ih (before ++ pair)
    rw [byteLen_append, sized] at next
    have halves : Text.cut ((pair ++ pairs.flatten) ++ rest) 2 = some (pair, pairs.flatten ++ rest) := by
      rw [append_assoc, ← sized, cut_append]
    rw [flatten_cons, length_cons, Nat.add_right_comm, fromHexFrom_step, halves, bind_some, value,
      elim_some, UInt8.ofNat_toNat]
    simp only [append_assoc] at next ⊢
    rw [next]
    cases fromHexFrom (before ++ (pair ++ (pairs.flatten ++ rest))) rounds
      (byteLen (before ++ (pair ++ pairs.flatten))) with
    | none => rfl
    | some result => cases result <;> rfl

theorem bytes_of_pairs (read : ∀ pair ∈ pairs, PairRead pair) :
    ∃ bytes, Forall₂ (fun pair (byte : UInt8) => byteLen pair = 2 ∧
      fromStrRadix 16 (2 ^ 8) pair = some byte.toNat) pairs bytes := by
  induction pairs with
  | nil => exact ⟨[], .nil⟩
  | cons pair pairs ih =>
    obtain ⟨bytes, rest⟩ := ih fun other member => read other (mem_cons_of_mem _ member)
    have sized := (read pair (mem_cons_self ..)).sized
    obtain ⟨byte, value⟩ := (pairRead_iff sized).mp (read pair (mem_cons_self ..))
    have small : byte < 2 ^ 8 := fromStrRadix_lt value (by decide)
    refine ⟨UInt8.ofNat byte :: bytes, .cons ⟨sized, ?_⟩ rest⟩
    rw [value, UInt8.toNat_ofNat', mod_eq_of_lt small]

theorem fromStr_pairs
    (read : Forall₂ (fun pair (byte : UInt8) => byteLen pair = 2 ∧
      fromStrRadix 16 (2 ^ 8) pair = some byte.toNat) pairs bytes)
    (sized : byteLen pairs.flatten = 2 * pairs.length)
    (even : byteLen (pairs.flatten ++ rest) % 2 = 0) (some_ : pairs.flatten ++ rest ≠ []) :
    DomainAddress.fromStr (pairs.flatten ++ rest) =
      (fromHexFrom (pairs.flatten ++ rest) (byteLen rest / 2) (byteLen pairs.flatten)).map
        fun result =>
        (result.map (bytes ++ ·)).mapError fun _ => .custom "Invalid address" := by
  have rounds : (byteLen (pairs.flatten ++ rest) + 1) / 2 = pairs.length + byteLen rest / 2 := by
    rw [byteLen_append] at even ⊢
    omega
  have loop := fromHexFrom_pairs read [] rest (byteLen rest / 2)
  rw [nil_append, nil_append, byteLen_nil] at loop
  rw [DomainAddress.fromStr, if_neg (by rw [even]; simpa using some_), fromHex, rounds, loop, Option.map_map]
  rfl

theorem leading_pairs (s : Text) :
    ∃ (pairs : List Text) (rest : Text), (∀ pair ∈ pairs, PairRead pair) ∧
      s = pairs.flatten ++ rest ∧
      (rest = [] ∨ rest.cut 2 = none ∨ ∃ pair after, rest.cut 2 = some (pair, after) ∧
        ¬ PairRead pair) := by
  induction size : s.length using Nat.strongRecOn generalizing s with
  | _ count ih =>
    by_cases more : ∃ pair after, s.cut 2 = some (pair, after) ∧ PairRead pair
    · obtain ⟨pair, after, halves, read⟩ := more
      obtain ⟨joined, _⟩ := cut_eq_some halves
      have shorter : after.length < count := by
        obtain ⟨first, second, rfl, _⟩ := read
        rw [← size, joined, length_append]
        simp
      obtain ⟨pairs, rest, reads, split, ends⟩ := ih _ shorter after rfl
      refine ⟨pair :: pairs, rest, ?_, ?_, ends⟩
      · intro other member
        rcases mem_cons.mp member with rfl | later
        · exact read
        · exact reads other later
      · rw [joined, split, flatten_cons, append_assoc]
    · refine ⟨[], s, by simp, rfl, .inr ?_⟩
      cases halves : s.cut 2 with
      | none => exact .inl rfl
      | some parts =>
        obtain ⟨pair, after⟩ := parts
        exact .inr ⟨pair, after, rfl, fun read => more ⟨pair, after, halves, read⟩⟩

theorem fromStr_whole
    (read : Forall₂ (fun pair (byte : UInt8) => byteLen pair = 2 ∧
      fromStrRadix 16 (2 ^ 8) pair = some byte.toNat) pairs bytes)
    (sized : byteLen pairs.flatten = 2 * pairs.length) (some_ : pairs.flatten ≠ []) :
    DomainAddress.fromStr pairs.flatten = some (.ok bytes) := by
  have result := fromStr_pairs read sized (by rw [append_nil, sized]; omega) (by simpa using some_)
  rw [append_nil] at result
  rw [result]
  simp [fromHexFrom, Except.map, Except.mapError]

private theorem hexDigit_digitChar (small : value < 16) : HexDigit value.digitChar :=
  hexDigit_iff.mpr ⟨value, toDigit_digitChar (Nat.le_refl _) small⟩

def bytePair (byte : UInt8) : Text := [digitChar (byte.toNat / 16), digitChar (byte.toNat % 16)]

theorem read_bytePair (byte : UInt8) :
    byteLen (bytePair byte) = 2 ∧ fromStrRadix 16 (2 ^ 8) (bytePair byte) = some byte.toNat := by
  have whole := byte.toNat_lt
  have high : byte.toNat / 16 < 16 := by omega
  have low : byte.toNat % 16 < 16 := by omega
  constructor
  · exact PairRead.sized ⟨_, _, rfl, .inl (hexDigit_digitChar high), hexDigit_digitChar low⟩
  · rw [bytePair, read_digits (toDigit_digitChar (Nat.le_refl _) high)
      (toDigit_digitChar (Nat.le_refl _) low), Nat.mul_comm, div_add_mod]

theorem fromStr_fmtHex (some_ : bytes ≠ []) : DomainAddress.fromStr (fmtHex bytes) = some (.ok bytes) := by
  have pairs : fmtHex bytes = (bytes.map bytePair).flatten := flatMap_def
  have read : Forall₂ (fun pair (byte : UInt8) => byteLen pair = 2 ∧
      fromStrRadix 16 (2 ^ 8) pair = some byte.toNat) (bytes.map bytePair) bytes := by
    rw [forall₂_map_left_iff, forall₂_same]
    exact fun byte _ => read_bytePair byte
  have reads : ∀ pair ∈ bytes.map bytePair, PairRead pair := by
    intro pair member
    obtain ⟨byte, _, rfl⟩ := List.mem_map.mp member
    exact (pairRead_iff (read_bytePair byte).1).mpr ⟨_, (read_bytePair byte).2⟩
  rw [pairs]
  apply fromStr_whole read (byteLen_pairs reads)
  obtain ⟨byte, rest, rfl⟩ := exists_cons_of_ne_nil some_
  simp [bytePair]

theorem fmtHex_lower
    (read : Forall₂ (fun pair (byte : UInt8) => byteLen pair = 2 ∧
      fromStrRadix 16 (2 ^ 8) pair = some byte.toNat) pairs bytes)
    (unsigned : '+' ∉ pairs.flatten) :
    (∀ char ∈ pairs.flatten, HexDigit char) ∧ fmtHex bytes = pairs.flatten.map Char.toLower := by
  induction read with
  | nil => exact ⟨by simp, rfl⟩
  | @cons pair byte pairs bytes head _ ih =>
    obtain ⟨sized, value⟩ := head
    rw [flatten_cons, mem_append, not_or] at unsigned
    obtain ⟨digits, lower⟩ := ih unsigned.2
    obtain ⟨first, second, rfl, sign, digit⟩ := (pairRead_iff sized).mpr ⟨_, value⟩
    have digit' : HexDigit first := by
      rcases sign with digit' | rfl
      · exact digit'
      · exact absurd (mem_cons_self ..) unsigned.1
    obtain ⟨high, upper⟩ := hexDigit_iff.mp digit'
    obtain ⟨low, lowerDigit⟩ := hexDigit_iff.mp digit
    rw [read_digits upper lowerDigit, Option.some.injEq] at value
    have small := toDigit_lt lowerDigit
    have halves : byte.toNat / 16 = high ∧ byte.toNat % 16 = low := by omega
    constructor
    · intro char member
      rcases mem_append.mp member with here | later
      · rcases mem_pair.mp here with rfl | rfl
        · exact digit'
        · exact digit
      · exact digits char later
    · have pieces : fmtHex (byte :: bytes) = bytePair byte ++ fmtHex bytes := flatMap_cons
      rw [pieces, lower, flatten_cons, map_append, bytePair, halves.1, halves.2,
        digitChar_lower upper, digitChar_lower lowerDigit]
      rfl

private theorem digits_read (sized : byteLen pair = 2) (digits : ∀ char ∈ pair, HexDigit char) : PairRead pair := by
  have count := byteLen_narrow fun char member => (digits char member).narrow
  rw [sized] at count
  obtain ⟨first, second, rfl⟩ := length_eq_two.mp count.symm
  exact ⟨first, second, rfl, .inl (digits first (by simp)), digits second (by simp)⟩

theorem fromStr_next (reads : ∀ pair ∈ pairs, PairRead pair) (even : byteLen (pairs.flatten ++ rest) % 2 = 0)
    (more : rest ≠ []) : (rest.cut 2 = none → DomainAddress.fromStr (pairs.flatten ++ rest) = none) ∧
      ∀ pair after, rest.cut 2 = some (pair, after) → fromStrRadix 16 (2 ^ 8) pair = none →
        DomainAddress.fromStr (pairs.flatten ++ rest) = some (.error (.custom "Invalid address")) := by
  obtain ⟨bytes, read⟩ := bytes_of_pairs reads
  have sized := byteLen_pairs reads
  have left : byteLen rest / 2 = byteLen rest / 2 - 1 + 1 := by
    have long := byteLen_pos more
    rw [byteLen_append] at even
    omega
  rw [fromStr_pairs read sized even (by simp [more]), left, fromHexFrom_step]
  constructor
  · intro crossed
    rw [crossed]
    rfl
  · intro pair after halves unread
    rw [halves, bind_some, unread]
    rfl

theorem ReadsExactly.of_refused {error : FabricLibError} (refused : DomainAddress.fromStr s = some (.error error))
    (other : ¬ (s ≠ [] ∧ byteLen s % 2 = 0 ∧ ∀ char ∈ s, HexDigit char)) : ReadsExactly s := by
  have unread (bytes : List UInt8) : DomainAddress.fromStr s ≠ some (.ok bytes) := by
    rw [refused]
    nofun
  refine ⟨by simp [refused], iff_of_false ?_ other, fun bytes accepted => absurd accepted (unread bytes)⟩
  rintro ⟨bytes, accepted⟩
  exact unread bytes accepted

theorem ReadsExactly.of_pairs (reads : ∀ pair ∈ pairs, PairRead pair) (some_ : pairs.flatten ≠ [])
    (unsigned : '+' ∉ pairs.flatten) : ReadsExactly pairs.flatten := by
  have sized := byteLen_pairs reads
  obtain ⟨bytes, read⟩ := bytes_of_pairs reads
  have whole := fromStr_whole read sized some_
  obtain ⟨digits, lower⟩ := fmtHex_lower read unsigned
  refine ⟨by simp [whole], iff_of_true ⟨bytes, whole⟩ ⟨some_, by omega, digits⟩, fun other same => ?_⟩
  rw [whole] at same
  cases same
  exact lower

theorem readsExactly_iff (even : byteLen s % 2 = 0) (some_ : s ≠ []) : ReadsExactly s ↔ Unambiguous s := by
  constructor
  · intro faithful
    refine .inr fun pairs rest reads split => ⟨fun more crossed => ?_, fun last sign => ?_⟩
    · subst split
      exact faithful.returns ((fromStr_next reads even more).1 crossed)
    · subst last
      rw [append_nil] at split
      subst split
      obtain ⟨bytes, read⟩ := bytes_of_pairs reads
      have whole := fromStr_whole read (byteLen_pairs reads) some_
      exact plus_not_digit ((faithful.accepts.mp ⟨bytes, whole⟩).2.2 '+' sign)
  · intro clear
    have clear := clear.resolve_left (by omega)
    obtain ⟨pairs, rest, reads, split, ends⟩ := leading_pairs s
    obtain ⟨crosses, unsigned⟩ := clear pairs rest reads split
    subst split
    by_cases last : rest = []
    · have unsigned := unsigned last
      subst last
      rw [append_nil] at some_ unsigned ⊢
      exact .of_pairs reads some_ unsigned
    · obtain ⟨pair, after, halves, unread⟩ := (ends.resolve_left last).resolve_left (crosses last)
      obtain ⟨joined, sized⟩ := cut_eq_some halves
      have fails : fromStrRadix 16 (2 ^ 8) pair = none := by
        by_contra byte
        exact unread ((pairRead_iff sized.symm).mpr (ne_none_iff_exists'.mp byte))
      refine .of_refused ((fromStr_next reads even last).2 pair after halves fails) ?_
      rintro ⟨_, _, digits⟩
      refine unread (digits_read sized.symm fun char member => digits char ?_)
      rw [joined]
      simp [member]

theorem Unambiguous.of_narrow (narrow : ∀ char ∈ s, char.utf8Size = 1) (unsigned : '+' ∉ s) : Unambiguous s := by
  rcases mod_two_eq_zero_or_one (byteLen s) with even | odd
  · refine .inr fun pairs rest reads split => ⟨fun more => ?_, fun _ => unsigned⟩
    subst split
    rw [byteLen_append, byteLen_pairs reads] at even
    match rest with
    | [] => exact absurd rfl more
    | [last] =>
      rw [byteLen_cons, byteLen_nil, narrow last (by simp)] at even
      omega
    | first :: second :: after =>
      rw [cut_cons (by rw [narrow first (by simp)]; decide), narrow first (by simp),
        cut_cons (Nat.le_of_eq (narrow second (by simp))), narrow second (by simp), cut_zero]
      exact some_ne_none _
  · exact .inl odd

/-- Every address is read back, and a text is read exactly if it is unambiguous. -/
theorem address_text (bytes : List UInt8) (s : Text) :
    (bytes ≠ [] → DomainAddress.fromStr (fmtHex bytes) = some (.ok bytes)) ∧ (ReadsExactly s ↔ Unambiguous s) := by
  refine ⟨fun some_ => fromStr_fmtHex some_, ?_⟩
  by_cases usable : byteLen s % 2 ≠ 0 ∨ s = []
  · have refused : DomainAddress.fromStr s = some (.error (.custom "Invalid address length")) := if_pos usable
    refine iff_of_true (.of_refused refused ?_) ?_
    · rintro ⟨some_, even, _⟩
      rcases usable with odd | empty
      · exact odd even
      · exact some_ empty
    · rcases usable with odd | rfl
      · exact .inl (by omega)
      · refine .inr fun pairs rest _ split => ⟨fun more => ?_, fun _ => not_mem_nil⟩
        exact absurd (append_eq_nil_iff.mp split.symm).2 more
  · rw [not_or, not_not] at usable
    exact readsExactly_iff usable.1 usable.2

/-- The point is no digit: the text is refused. -/
theorem address_text_point :
    DomainAddress.fromStr (fmtHex [15, 160]) = some (.ok [15, 160]) ∧
      ReadsExactly ['1', '0', '.', '0'] :=
  ⟨(address_text [15, 160] []).1 (cons_ne_nil _ _),
    (address_text [] ['1', '0', '.', '0']).2.mpr (.of_narrow (by simp [Char.utf8Size]) (by decide))⟩

/-- A sign and a digit are read as a byte, and a character of two bytes after one byte is cut. -/
theorem sign_and_cut : DomainAddress.fromStr ['+', 'f'] = some (.ok [15]) ∧ ¬ ReadsExactly ['+', 'f'] ∧
    DomainAddress.fromStr ['a', 'é', 'a'] = none ∧ ¬ ReadsExactly ['a', 'é', 'a'] := by
  refine ⟨by decide, ?_, by decide, ?_⟩
  · intro faithful
    exact plus_not_digit ((faithful.accepts.mp ⟨[15], by decide⟩).2.2 '+' (by simp))
  · intro faithful
    exact faithful.returns (by decide)

end PplxGarden.Fabric.Proofs
