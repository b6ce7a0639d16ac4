import PplxGarden.Fabric.VerbsPosting
import PplxGarden.Proofs.WriteIters

/-! The chain buffer of the Verbs iterator over pages. Request number `n` lies in place
`n` modulo the length of the buffer, and the requests that are ready form a chain. -/

namespace PplxGarden.Fabric.Verbs
open Library Cursor Function List Option Nat
variable {count : Nat}

def slot (n : Nat) : Fin wrChainLen := Fin.ofNat wrChainLen n

theorem slot_eq_iff {m n : Nat} : slot m = slot n ↔ m % 4 = n % 4 := Fin.ext_iff

theorem slot_add (m n : Nat) : slot m + Fin.ofNat wrChainLen n = slot (m + n) := by
  apply Fin.ext
  simp [slot, Fin.val_add, add_mod]

/-- The iterator after `taken` requests were posted, with `held` more in the chain. -/
def ringAt (op : PagedWriteOp) (rmaQp : Qp) (buf : WrChainBuffer) (taken held : Nat) : PagedWriteOpIter :=
  { PagedWriteOpIter.template op rmaQp with
    wrChainBuffer := buf
    iWrHead := slot taken
    iWrTail := slot (taken + held)
    wrLen := held
    iPage := op.pageIndicesBeg + (taken + held) }

def numPages (op : PagedWriteOp) : Nat := op.pageIndicesEnd - op.pageIndicesBeg

/-- The chain holds the requests after `taken`, each linked to the next. -/
structure Ring (op : PagedWriteOp) (buf : WrChainBuffer) (taken held : Nat) : Prop where
  short : held ≤ wrChainLen
  inside : taken + held ≤ numPages op
  window : ∀ n, taken ≤ n → n < taken + held → ∃ pages, op.pages (op.pageIndicesBeg + n) = some pages ∧
    buf (slot n) = some ⟨pagesWr op pages, if n + 1 < taken + held then some (slot (n + 1)) else none⟩
  ready : ∀ i : Fin wrChainLen, i < numPages op → ∃ addr remoteAddr next, buf i = some ⟨pageWr op addr remoteAddr, next⟩

def filled (op : PagedWriteOp) (buf : WrChainBuffer) (n : Nat) (pages : Nat × Nat) : WrChainBuffer :=
  update (PagedWriteOpIter.link buf (slot n + 3) (slot n)) (slot n) (some ⟨pagesWr op pages, none⟩)

private theorem filled_self (op : PagedWriteOp) (buf : WrChainBuffer) (n : Nat) (pages : Nat × Nat) :
    filled op buf n pages (slot n) = some ⟨pagesWr op pages, none⟩ := update_self ..

private theorem slot_previous (n : Nat) : slot (n + 1) + 3 = slot n := by
  have whole := slot_add (n + 1) 3
  rw [slot_eq_iff.mpr (show (n + 1 + 3) % 4 = n % 4 by omega)] at whole
  exact whole

private theorem filled_previous (op : PagedWriteOp) (buf : WrChainBuffer) (n : Nat) (pages : Nat × Nat) :
    filled op buf (n + 1) pages (slot n) = (buf (slot n)).map ({ · with next := some (slot (n + 1)) }) := by
  have other : slot n ≠ slot (n + 1) := by
    rw [Ne, slot_eq_iff]
    omega
  rw [filled, update_of_ne other, PagedWriteOpIter.link, slot_previous, update_self]

private theorem filled_other (op : PagedWriteOp) (buf : WrChainBuffer) {m n : Nat}
    (pages : Nat × Nat) (later : m + 1 < n) (near : n < m + 4) :
    filled op buf n pages (slot m) = buf (slot m) := by
  obtain ⟨n, rfl⟩ := exists_eq_add_one_of_ne_zero (show n ≠ 0 by omega)
  have other : slot m ≠ slot (n + 1) := by
    rw [Ne, slot_eq_iff]
    omega
  have another : slot m ≠ slot n := by
    rw [Ne, slot_eq_iff]
    omega
  rw [filled, update_of_ne other, PagedWriteOpIter.link, slot_previous, update_of_ne another]

variable {op : PagedWriteOp} {rmaQp : Qp} {buf : WrChainBuffer} {taken held : Nat}

section
variable (ring : Ring op buf taken held)
include ring

theorem Ring.fill (room : held < wrChainLen) (more : taken + held < numPages op) {pages : Nat × Nat}
    (found : op.pages (op.pageIndicesBeg + (taken + held)) = some pages) :
    Ring op (filled op buf (taken + held) pages) taken (held + 1) where
  short := room
  inside := more
  window n from_ until_ := by
    by_cases last : n = taken + held
    · subst last
      exact ⟨pages, found, by rw [filled_self, if_neg (by omega)]⟩
    · obtain ⟨others, known, stored⟩ := ring.window n from_ (by omega)
      refine ⟨others, known, ?_⟩
      rw [if_pos (by omega)]
      by_cases previous : n + 1 = taken + held
      · rw [← previous, filled_previous, stored]
        rfl
      · have near : held < 4 := room
        rw [filled_other op buf pages (by omega) (by omega), stored, if_pos (by omega)]
  ready i initialised := by
    obtain ⟨addr, remoteAddr, next, stored⟩ := ring.ready i initialised
    by_cases new : i = slot (taken + held)
    · subst new
      exact ⟨_, _, _, filled_self ..⟩
    · rw [filled, update_of_ne new, PagedWriteOpIter.link]
      by_cases previous : i = slot (taken + held) + 3
      · subst previous
        rw [update_self, stored]
        exact ⟨addr, remoteAddr, _, rfl⟩
      · rw [update_of_ne previous]
        exact ⟨addr, remoteAddr, next, stored⟩

theorem Ring.fillWr (more : taken + held < numPages op) :
    (ringAt op rmaQp buf taken held).fillWr = (op.pages (op.pageIndicesBeg + (taken + held))).map fun pages =>
      ringAt op rmaQp (filled op buf (taken + held) pages) taken (held + 1) := by
  have place : (slot (taken + held)).val < numPages op := Nat.lt_of_le_of_lt (mod_le _ _) more
  obtain ⟨addr, remoteAddr, next, stored⟩ := ring.ready _ place
  have apart : slot (taken + held) ≠ slot (taken + held) + 3 := by
    generalize slot (taken + held) = place
    revert place
    decide
  have tail : slot (taken + held) + 1 = slot (taken + (held + 1)) := slot_add (taken + held) 1
  simp only [PagedWriteOpIter.fillWr, ringAt, PagedWriteOp.pages, PagedWriteOpIter.template]
  rw [PagedWriteOpIter.link, update_of_ne apart, stored, ← tail]
  cases op.srcPageIndices[op.pageIndicesBeg + (taken + held)]? <;>
    cases op.dstPageIndices[op.pageIndicesBeg + (taken + held)]? <;> rfl

theorem Ring.fillChain {rounds : Nat} {iter : PagedWriteOpIter} (enough : wrChainLen ≤ held + rounds)
    (done : PagedWriteOpIter.fillChain rounds (ringAt op rmaQp buf taken held) = some iter) :
    ∃ buf', iter = ringAt op rmaQp buf' taken (min wrChainLen (numPages op - taken)) ∧
      Ring op buf' taken (min wrChainLen (numPages op - taken)) := by
  have short := ring.short
  have inside := ring.inside
  induction rounds generalizing buf held with
  | zero =>
    cases done
    obtain rfl : held = min wrChainLen (numPages op - taken) := by omega
    exact ⟨buf, rfl, ring⟩
  | succ rounds ih =>
    rw [PagedWriteOpIter.fillChain] at done
    split at done
    next more =>
      have further : taken + held < numPages op := by
        have page : op.pageIndicesBeg + (taken + held) < op.pageIndicesEnd := more.1
        unfold numPages
        omega
      rw [ring.fillWr further] at done
      obtain ⟨next, built, rest⟩ := bind_eq_some_iff.mp done
      obtain ⟨pages, found, rfl⟩ := map_eq_some_iff.mp built
      have grown := ring.fill more.2 further found
      exact ih grown (by omega) rest grown.short grown.inside
    next full =>
      cases done
      have page : ¬ (op.pageIndicesBeg + (taken + held) < op.pageIndicesEnd ∧ held < wrChainLen) := full
      obtain rfl : held = min wrChainLen (numPages op - taken) := by
        unfold numPages at inside ⊢
        omega
      exact ⟨buf, rfl, ring⟩

theorem Ring.fillChain_goes (rmaQp : Qp) (rounds : Nat)
    (buildable : ∀ n, taken + held ≤ n → n < numPages op → (op.pages (op.pageIndicesBeg + n)).isSome) :
    ∃ iter, PagedWriteOpIter.fillChain rounds (ringAt op rmaQp buf taken held) = some iter := by
  induction rounds generalizing buf held with
  | zero => exact ⟨_, rfl⟩
  | succ rounds ih =>
    rw [PagedWriteOpIter.fillChain]
    split
    next more =>
      have further : taken + held < numPages op := by
        have page : op.pageIndicesBeg + (taken + held) < op.pageIndicesEnd := more.1
        unfold numPages
        omega
      obtain ⟨pages, found⟩ := isSome_iff_exists.mp (buildable _ (Nat.le_refl _) further)
      rw [ring.fillWr further, found]
      exact ih (ring.fill more.2 further found) fun n later => buildable n (by omega)
    next => exact ⟨_, rfl⟩

theorem Ring.drop (shown : count ≤ held) : Ring op buf (taken + count) (held - count) where
  short := by
    have short := ring.short
    omega
  inside := by
    have inside := ring.inside
    omega
  window n from_ until_ := by
    rw [show taken + count + (held - count) = taken + held by omega] at until_ ⊢
    exact ring.window n (by omega) until_
  ready := ring.ready

theorem Ring.chain {left : Nat} (some_ : 0 < left) (shown : left ≤ held) :
    ∃ chain, Chain.Linked (readWr buf) (some (slot (taken + held - left))) chain ∧
      chain.map Prod.fst = (range' (taken + held - left) left).map slot ∧
      (range' (op.pageIndicesBeg + (taken + held - left)) left).map (fun i => (op.pages i).map (pagesWr op)) =
        (chain.map Prod.snd).map some := by
  induction left with
  | zero => cases some_
  | succ left ih =>
    obtain ⟨pages, found, stored⟩ := ring.window (taken + held - (left + 1)) (by omega) (by omega)
    rw [range'_succ, range'_succ, map_cons, map_cons, found]
    by_cases last : left = 0
    · subst last
      rw [if_neg (by omega)] at stored
      exact ⟨[(slot (taken + held - 1), pagesWr op pages)], .cons (by rw [readWr, stored]; rfl) .nil, rfl, rfl⟩
    · obtain ⟨chain, linked, places, same⟩ := ih (by omega) (by omega)
      rw [if_pos (by omega), show taken + held - (left + 1) + 1 = taken + held - left by omega] at stored
      rw [show taken + held - (left + 1) + 1 = taken + held - left by omega,
        show op.pageIndicesBeg + (taken + held - (left + 1)) + 1 =
          op.pageIndicesBeg + (taken + held - left) by omega, ← places, same]
      exact ⟨(slot (taken + held - (left + 1)), pagesWr op pages) :: chain,
        .cons (by rw [readWr, stored]; rfl) linked, rfl, rfl⟩

end

theorem linked_of_chain {first : Option (Fin wrChainLen)} {chain : List (Fin wrChainLen × WorkRequest)}
    (follows : Chain.Linked (readWr buf) first chain) {fuel : Nat} (enough : chain.length ≤ fuel) :
    linked buf fuel first = some (chain.map Prod.snd) := by
  induction follows generalizing fuel with
  | nil => cases fuel <;> rfl
  | cons found rest ih =>
    obtain ⟨fuel, rfl⟩ := exists_eq_add_one_of_ne_zero (Nat.ne_of_gt (Nat.lt_of_lt_of_le (succ_pos _) enough))
    obtain ⟨wr, stored, same⟩ := map_eq_some_iff.mp found
    cases same
    rw [linked, stored]
    simp only [bind_eq_bind, bind_some, ih (le_of_succ_le_succ enough)]
    rfl

theorem Ring.linked (ring : Ring op buf taken held) {fuel left : Nat} (some_ : 0 < left)
    (shown : left ≤ held) (enough : left ≤ fuel) :
    ∃ requests, linked buf fuel (some (slot (taken + held - left))) = some requests ∧
      (range' (op.pageIndicesBeg + (taken + held - left)) left).map (fun i =>
        (op.pages i).map (pagesWr op)) = requests.map some := by
  obtain ⟨chain, follows, places, same⟩ := ring.chain some_ shown
  have size : chain.length = left := by simpa using congrArg List.length places
  exact ⟨chain.map Prod.snd, linked_of_chain follows (by omega), same⟩

theorem Ring.peek (ring : Ring op buf taken held) (rmaQp : Qp) :
    (cursor.peek (.paged (ringAt op rmaQp buf taken held))).map some =
      (range' (op.pageIndicesBeg + taken) held).map fun i => (op.pages i).map fun pages =>
        (rmaQp, pagesWr op pages) := by
  by_cases empty : held = 0
  · subst empty
    rfl
  · obtain ⟨requests, chained, same⟩ := ring.linked (Nat.pos_of_ne_zero empty) (Nat.le_refl _) ring.short
    rw [Nat.add_sub_cancel] at chained same
    have shown : cursor.peek (.paged (ringAt op rmaQp buf taken held)) = requests.map (rmaQp, ·) := by
      simp only [cursor, WriteOpIter.peek, PagedWriteOpIter.peek, ringAt, if_neg empty, chained, Batch.requests]
      rfl
    have paired := congrArg (List.map (Option.map (rmaQp, ·))) same
    rw [shown]
    simpa [comp_def] using paired.symm

/-- What the iterator has still to hand out. -/
inductive Chained (op : PagedWriteOp) (rmaQp : Qp) : WriteOpIter → List (Option (Qp × WorkRequest)) → Prop where
  | ring {buf : WrChainBuffer} {taken : Nat} (ring : Ring op buf taken (min wrChainLen (numPages op - taken))) :
      Chained op rmaQp (.paged (ringAt op rmaQp buf taken (min wrChainLen (numPages op - taken))))
        ((range' (op.pageIndicesBeg + taken) (numPages op - taken)).map fun i =>
          (op.pages i).map fun pages => (rmaQp, pagesWr op pages))

theorem Ring.peek_length (ring : Ring op buf taken held) (rmaQp : Qp) :
    (cursor.peek (.paged (ringAt op rmaQp buf taken held))).length = held := by
  have size := congrArg List.length (ring.peek rmaQp)
  simpa using size

private theorem ringAt_drop (op : PagedWriteOp) (rmaQp : Qp) (buf : WrChainBuffer) (taken : Nat)
    {held : Nat} (shown : count ≤ held) :
    (ringAt op rmaQp buf taken held).advance count =
      PagedWriteOpIter.fillChain wrChainLen (ringAt op rmaQp buf (taken + count)
        (held - count)) := by
  have same : taken + count + (held - count) = taken + held := by omega
  have head : slot taken + Fin.ofNat wrChainLen count = slot (taken + count) := slot_add taken count
  simp only [PagedWriteOpIter.advance, ringAt, if_pos shown, same, head]

theorem chained_goes {op : PagedWriteOp} {rmaQp : Qp} {iter : WriteOpIter}
    {rest : List (Option (Qp × WorkRequest))} (left : Chained op rmaQp iter rest)
    (shown : count ≤ (cursor.peek iter).length) (buildable : ∀ item ∈ rest, item.isSome) :
    ∃ next, cursor.advance iter count = some next := by
  obtain @⟨buf, taken, ring⟩ := left
  rw [ring.peek_length] at shown
  obtain ⟨iter, filled⟩ := (ring.drop shown).fillChain_goes rmaQp wrChainLen (by
    intro n later inside
    have known := buildable _ (List.mem_map_of_mem (mem_range'_1.mpr
      ⟨show op.pageIndicesBeg + taken ≤ op.pageIndicesBeg + n by omega, by omega⟩))
    rwa [isSome_map] at known)
  refine ⟨.paged iter, ?_⟩
  simp only [cursor, WriteOpIter.advance, ringAt_drop op rmaQp buf taken shown, filled, map_some]

theorem chained_reads (op : PagedWriteOp) (rmaQp : Qp) : Reads cursor (Chained op rmaQp) where
  shows {state rest} left := by
    obtain @⟨buf, taken, ring⟩ := left
    have split := range'_append_1 (s := op.pageIndicesBeg + taken) (m := min wrChainLen (numPages op - taken))
      (n := numPages op - taken - min wrChainLen (numPages op - taken))
    rw [add_sub_of_le (Nat.min_le_right ..)] at split
    rw [ring.peek, ← split, map_append]
    exact prefix_append ..
  ends {state rest} left nothing := by
    obtain @⟨buf, taken, ring⟩ := left
    have size := ring.peek_length rmaQp
    rw [nothing, length_nil] at size
    have none : numPages op - taken = 0 := by
      have positive : 0 < wrChainLen := by decide
      omega
    rw [none]
    rfl
  moves {state rest next count} left shown moved := by
    obtain @⟨buf, taken, ring⟩ := left
    rw [ring.peek_length] at shown
    obtain ⟨iter, advanced, rfl⟩ := map_eq_some_iff.mp moved
    rw [ringAt_drop op rmaQp buf taken shown] at advanced
    obtain ⟨buf, rfl, later⟩ := (ring.drop shown).fillChain (Nat.le_add_left ..) advanced
    have window : Chained op rmaQp _ _ := .ring later
    rw [← map_drop, drop_range', Nat.mul_one, Nat.sub_sub, Nat.add_assoc]
    exact window
  goes left something buildable := chained_goes left (Nat.le_refl _) buildable

theorem ring_start (op : PagedWriteOp) (rmaQp : Qp) :
    Ring op (PagedWriteOpIter.template op rmaQp).wrChainBuffer 0 0 where
  short := Nat.zero_le _
  inside := Nat.zero_le _
  window n from_ until_ := absurd until_ (Nat.not_lt_zero n)
  ready i initialised := by
    refine ⟨0, 0, none, if_pos ?_⟩
    exact Nat.lt_min.mpr ⟨initialised, i.isLt⟩

theorem template_eq (op : PagedWriteOp) (rmaQp : Qp) :
    PagedWriteOpIter.template op rmaQp = ringAt op rmaQp (PagedWriteOpIter.template op rmaQp).wrChainBuffer 0 0 := rfl

end PplxGarden.Fabric.Verbs
