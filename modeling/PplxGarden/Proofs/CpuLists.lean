import PplxGarden.Fabric.Topology

/-! A list of CPUs as the kernel prints it is read back, and every text is read without a
panic. -/

namespace PplxGarden.Fabric.Proofs
open Library Text List Nat
variable {number : Nat} {space : Text}

/-- An interval of `u16` numbers. -/
structure CpuInterval where
  first : Nat
  last : Nat
  ordered : first ≤ last
  fits : last < 2 ^ 16

namespace CpuInterval

def elements (interval : CpuInterval) : List Nat := range' interval.first (interval.last + 1 - interval.first)

def render (interval : CpuInterval) : Text :=
  if interval.first = interval.last then toDigits 10 interval.first
  else toDigits 10 interval.first ++ '-' :: toDigits 10 interval.last

end CpuInterval

def renderIntervals (intervals : List CpuInterval) : Text := [','].intercalate (intervals.map CpuInterval.render)

private theorem digit_solid {char : Char} (member : char ∈ toDigits 10 number) : whiteSpace char = false := by
  have code := digit_code member
  simp only [whiteSpace, decide_eq_false_iff_not]
  omega

private theorem digit_ne {char : Char} (early : char.toNat < 48) : char ∉ toDigits 10 number := by
  intro member
  have code := digit_code member
  omega

theorem read_numeral (fits : number < 2 ^ 16) (blank : ∀ char ∈ space, whiteSpace char) :
    fromStrRadix 10 (2 ^ 16) (trim (toDigits 10 number ++ space)) = some number := by
  rw [trim_append (fun _ member => digit_solid member) blank]
  exact fromStrRadix_toDigits fits

private theorem parsePart_dash {before after : Text} (fresh : '-' ∉ before) : parsePart (before ++ '-' :: after) =
    some (expandRange (fromStrRadix 10 (2 ^ 16) before.trim) (fromStrRadix 10 (2 ^ 16) after.trim)) := by
  rw [parsePart, find_first fresh]
  simp only [cut_append, cut_past (show '-'.utf8Size = 1 from rfl), Option.bind_some, Option.map_some]

theorem parsePart_plain {part : Text} (plain : '-' ∉ part) :
    parsePart part = some (fromStrRadix 10 (2 ^ 16) part.trim).toList := by
  rw [parsePart, Text.find, if_neg plain]

theorem parsePart_returns (part : Text) : ∃ numbers, parsePart part = some numbers := by
  by_cases member : '-' ∈ part
  · obtain ⟨before, after, rfl, fresh⟩ := eq_append_cons_of_mem member
    exact ⟨_, parsePart_dash fresh⟩
  · exact ⟨_, parsePart_plain member⟩

theorem parsePart_render (interval : CpuInterval) (blank : ∀ char ∈ space, whiteSpace char) :
    parsePart (interval.render ++ space) = some interval.elements := by
  have dash : ∀ number : Nat, '-' ∉ toDigits 10 number := fun _ => digit_ne (by decide)
  have start := interval.ordered.trans_lt interval.fits
  unfold CpuInterval.render CpuInterval.elements
  split
  next same =>
    have plain : '-' ∉ toDigits 10 interval.first ++ space := by
      rw [mem_append, not_or]
      exact ⟨dash _, fun member => absurd (blank '-' member) (by decide)⟩
    rw [parsePart_plain plain, read_numeral start blank, ← same, Nat.add_sub_cancel_left]
    rfl
  next =>
    have first := read_numeral start (fun char (member : char ∈ ([] : Text)) => absurd member not_mem_nil)
    rw [append_nil] at first
    rw [append_assoc, cons_append, parsePart_dash (dash _), first, read_numeral interval.fits blank, expandRange]

private theorem render_comma (interval : CpuInterval) : ',' ∉ interval.render := by
  have comma : ∀ number : Nat, ',' ∉ toDigits 10 number := fun _ => digit_ne (by decide)
  unfold CpuInterval.render
  split
  next => exact comma _
  next =>
    rw [mem_append, mem_cons, not_or, not_or]
    exact ⟨comma _, by decide, comma _⟩

private theorem intercalate_append (parts : List Text) (last space : Text) :
    [','].intercalate (parts ++ [last]) ++ space = [','].intercalate (parts ++ [last ++ space]) := by
  induction parts with
  | nil => simp
  | cons part parts ih =>
    obtain ⟨next, rest, joined⟩ := exists_cons_of_ne_nil (show parts ++ [last] ≠ [] by simp)
    obtain ⟨next', rest', joined'⟩ := exists_cons_of_ne_nil (show parts ++ [last ++ space] ≠ [] by simp)
    rw [joined, joined'] at ih
    rw [cons_append, cons_append, joined, joined', intercalate_cons_cons, intercalate_cons_cons, append_assoc,
      append_assoc, ih, append_assoc]

theorem parse_rendered (intervals : List CpuInterval) (blank : ∀ char ∈ space, whiteSpace char)
    (single : ',' ∉ space) :
    parseCommaDashIntList (renderIntervals intervals ++ space) =
      some (intervals.flatMap CpuInterval.elements) := by
  rcases eq_nil_or_concat intervals with rfl | ⟨front, last, rfl⟩
  · have empty : trim space = [] := trim_append (fun char (member : char ∈ ([] : Text)) => absurd member not_mem_nil) blank
    have parts : splitOn ',' space = [space] := by
      have joined := splitOn_intercalate ',' (fun part (member : part ∈ [space]) =>
        (mem_singleton.mp member) ▸ single) (by simp)
      simpa using joined
    have plain : '-' ∉ space := fun member => absurd (blank '-' member) (by decide)
    rw [renderIntervals, parseCommaDashIntList]
    simp [parts, parsePart_plain plain, empty, fromStrRadix]
  · rw [concat_eq_append]
    have parts : splitOn ',' (renderIntervals (front ++ [last]) ++ space) =
        front.map CpuInterval.render ++ [last.render ++ space] := by
      rw [renderIntervals, map_append, map_singleton, intercalate_append]
      apply splitOn_intercalate _ _ (by simp)
      intro part member
      rcases mem_append.mp member with early | late
      · obtain ⟨interval, _, rfl⟩ := mem_map.mp early
        exact render_comma interval
      · rw [mem_singleton.mp late, mem_append, not_or]
        exact ⟨render_comma last, single⟩
    have early : (front.map CpuInterval.render).mapM parsePart = some (front.map CpuInterval.elements) := by
      rw [mapM_map]
      apply mapM_values
      intro interval _
      simpa using parsePart_render interval (fun char (member : char ∈ ([] : Text)) => absurd member not_mem_nil)
    rw [parseCommaDashIntList, parts, mapM_append, early, mapM_cons, parsePart_render last blank]
    simp [flatMap]

/-- The elements of the printed intervals in order, with or without a newline, and no panic on
any text. -/
theorem cpulist_inverts : (∀ (intervals : List CpuInterval) (newline : Bool),
      parseCommaDashIntList (renderIntervals intervals ++ if newline then ['\n'] else []) =
        some (intervals.flatMap CpuInterval.elements)) ∧
    ∀ s : Text, (parseCommaDashIntList s).isSome := by
  constructor
  · intro intervals newline
    apply parse_rendered
    · cases newline with
      | false => exact forall_mem_nil _
      | true => exact forall_mem_singleton.mpr (by decide)
    · cases newline <;> decide
  · intro s
    obtain ⟨parts, parsed⟩ := mapM_succeeds (s.splitOn ',') parsePart fun part _ => parsePart_returns part
    rw [parseCommaDashIntList, parsed]
    rfl

end PplxGarden.Fabric.Proofs
