import PplxGarden.AllToAll.TokenRows
import PplxGarden.Library.Rotation

/-! What the copy loops of a dispatch carry along. The scales ride on the loop over the
vectors of a token, the vectors are moved sixteen bytes at a time, and nothing checks that the
rows of the tensors leave room for either. -/

namespace PplxGarden.AllToAll.Proofs
open Library List Option Nat
variable {copy : RowCopy} {i fuel : Nat} {visited : List (List Nat)}

/-- A byte of a token, counted in its vectors, or of one of its scales. -/
inductive RowByte
  | vector (i byte : Nat)
  | scale (j byte : Nat)

namespace RowByte

def index : RowByte → Nat
  | vector i _ => i
  | scale j _ => j

def Of (cfg : Config) : RowByte → Prop
  | vector i byte => i < vectorsPerToken cfg ∧ byte < 16
  | scale j byte => j < cfg.hiddenDimScale ∧ byte < 4

def Moved (cfg : Config) (scaled : Bool) : RowByte → Prop
  | vector _ byte => byte < 16
  | scale j byte => scaled ∧ j < cfg.hiddenDimScale ∧ byte < 4

end RowByte

def byteAt (row : TokenRow) : RowByte → RowBuffer × Nat
  | .vector i byte => (row.buffer, row.vectorAt i + byte)
  | .scale j byte => (row.scaleBuffer, row.scaleAt j + byte)

section
variable (cfg : Config) (senders : Nat → Tensors cfg) (receiver : Tensors cfg) (copies : RowCopies)

def sentRow (copy : RowCopy) : TokenRow := (senders copy.source).sourceRow copy.source copy.token

def deliveredRow (copy : RowCopy) : TokenRow := receiver.outputRow copy.paddedToken

/-- Every copy passes through `dispatch_send` and `dispatch_recv` with all its scales: the
loops end, every vector and every scale belongs to one iteration of one thread, no access
faults, and the rows of the receiver are those of the senders. -/
structure CarriesRows : Prop where
  loops : ∃ fuel visited, vectorLoops cfg fuel = some visited
  once : ∀ fuel visited, vectorLoops cfg fuel = some visited →
    (∀ i, i < vectorsPerToken cfg → visited.flatten.count i = 1) ∧
      ∀ j, j < cfg.hiddenDimScale → visited.flatten.count j = 1
  rows : ∀ fuel visited, vectorLoops cfg fuel = some visited →
    ∀ sent received, sent.Perm (copies.iterations visited) → received.Perm (copies.iterations visited) →
      ∀ memory, ∃ final, dispatchRows cfg senders receiver sent received memory = some final ∧
        ∀ copy ∈ copies.list, ∀ byte : RowByte, byte.Of cfg →
          final.uncurry (byteAt (deliveredRow cfg receiver copy) byte) =
            memory.uncurry (byteAt (sentRow cfg senders copy) byte)

/-- The tensors let their rows be copied: a token has a vector for each of its scales, all
accesses are aligned, and rows of the receiver share a byte only where the rows of the
senders do. -/
structure CopyableRows : Prop where
  scales : cfg.hiddenDimScale ≤ vectorsPerToken cfg
  room : vectorsPerToken cfg + numThreads ≤ 2 ^ 32
  aligned : ∀ copy ∈ copies.list, 0 < vectorsPerToken cfg →
    16 ∣ (sentRow cfg senders copy).start ∧ 16 ∣ (deliveredRow cfg receiver copy).start
  scales_aligned : ∀ copy ∈ copies.list, 0 < cfg.hiddenDimScale →
    4 ∣ (senders copy.source).xScalePtr ∧ 4 ∣ receiver.xScalePtr
  apart : ∀ copy ∈ copies.list, ∀ other ∈ copies.list, ∀ first second : RowByte, first.Of cfg → second.Of cfg →
    byteAt (deliveredRow cfg receiver copy) first = byteAt (deliveredRow cfg receiver other) second →
      byteAt (sentRow cfg senders copy) first = byteAt (sentRow cfg senders other) second

end

variable {byte : RowByte}

section
variable {cfg : Config} {scaled : Bool} {memory : Memory RowBuffer UInt8} {source target : TokenRow} {i : Nat}
  {writes : List (RangeWrite RowBuffer UInt8)}

structure AlignedElement (cfg : Config) (scaled : Bool) (source target : TokenRow) (i : Nat) : Prop where
  vector : 16 ∣ source.vectorAt i ∧ 16 ∣ target.vectorAt i
  scale : scaled ∧ i < cfg.hiddenDimScale → 4 ∣ source.scaleAt i ∧ 4 ∣ target.scaleAt i

private def elementWrites (cfg : Config) (scaled : Bool) (memory : Memory RowBuffer UInt8)
    (source target : TokenRow) (i : Nat) : List (RangeWrite RowBuffer UInt8) :=
  copyWrite memory source.buffer (source.vectorAt i) target.buffer (target.vectorAt i) 16 ::
    if scaled ∧ i < cfg.hiddenDimScale then
      [copyWrite memory source.scaleBuffer (source.scaleAt i) target.scaleBuffer (target.scaleAt i) 4]
    else []

private theorem copyElement_eq_some :
    copyElement cfg scaled memory source target i = some writes ↔
      AlignedElement cfg scaled source target i ∧ elementWrites cfg scaled memory source target i = writes := by
  unfold copyElement moveAligned elementWrites
  by_cases vector : 16 ∣ source.vectorAt i ∧ 16 ∣ target.vectorAt i
  · by_cases carried : scaled ∧ i < cfg.hiddenDimScale
    · by_cases scale : 4 ∣ source.scaleAt i ∧ 4 ∣ target.scaleAt i
      · simp only [if_pos vector, if_pos carried, if_pos scale, bind_eq_bind, bind_some, Option.pure_def,
          Option.some.injEq]
        exact ⟨fun same => ⟨⟨vector, fun _ => scale⟩, same⟩, And.right⟩
      · simp only [if_pos vector, if_pos carried, if_neg scale, bind_eq_bind, bind_some, bind_none]
        exact iff_of_false nofun fun ⟨aligned, _⟩ => scale (aligned.scale carried)
    · simp only [if_pos vector, if_neg carried, bind_eq_bind, bind_some, Option.pure_def, Option.some.injEq]
      exact ⟨fun same => ⟨⟨vector, fun both => absurd both carried⟩, same⟩, And.right⟩
  · simp only [if_neg vector, bind_eq_bind, bind_none]
    exact iff_of_false nofun fun ⟨aligned, _⟩ => vector aligned.vector

/-- A store of an iteration puts a byte of the source row to its place in the target row. -/
private theorem elementWrites_covers {write : RangeWrite RowBuffer UInt8}
    (member : write ∈ elementWrites cfg scaled memory source target i) {buffer : RowBuffer} {address : Nat}
    (covers : write.Covers buffer address) :
    ∃ byte : RowByte, byte.index = i ∧ byte.Moved cfg scaled ∧ byteAt target byte = (buffer, address) ∧
      write.data (address - write.offset) = memory.uncurry (byteAt source byte) := by
  obtain ⟨same, lower, upper⟩ := covers
  rcases mem_cons.mp member with rfl | scale
  · simp only [copyWrite] at same lower upper ⊢
    refine ⟨.vector i (address - target.vectorAt i), rfl, ?_, ?_, rfl⟩
    · simp only [RowByte.Moved]
      omega
    · rw [byteAt, same, add_sub_of_le lower]
  · split at scale
    next carried =>
      cases mem_singleton.mp scale
      simp only [copyWrite] at same lower upper ⊢
      refine ⟨.scale i (address - target.scaleAt i), rfl, ⟨carried.1, carried.2, ?_⟩, ?_, rfl⟩
      · omega
      · rw [byteAt, same, add_sub_of_le lower]
    next => cases scale

private theorem elementWrites_reaches (memory : Memory RowBuffer UInt8) (source target : TokenRow)
    (moved : byte.Moved cfg scaled) :
    ∃ write ∈ elementWrites cfg scaled memory source target byte.index,
      write.Covers (byteAt target byte).1 (byteAt target byte).2 := by
  cases byte with
  | vector i byte =>
    exact ⟨_, mem_cons_self, rfl, Nat.le_add_right _ _, Nat.add_lt_add_left moved _⟩
  | scale j byte =>
    obtain ⟨given, listed, inside⟩ := moved
    have stored : copyWrite memory source.scaleBuffer (source.scaleAt j) target.scaleBuffer (target.scaleAt j) 4 ∈
        elementWrites cfg scaled memory source target j := by
      rw [elementWrites, if_pos ⟨given, listed⟩]
      exact mem_cons_of_mem _ (mem_singleton_self _)
    exact ⟨_, stored, rfl, Nat.le_add_right _ _, Nat.add_lt_add_left inside _⟩

end

section
variable {cfg : Config} {scaled : RowCopy → Bool} {source target : RowCopy → TokenRow} {order : List (RowCopy × Nat)}
  {memory after : Memory RowBuffer UInt8}

private theorem copyRows_goes (scaled : RowCopy → Bool) (source target : RowCopy → TokenRow)
    (memory : Memory RowBuffer UInt8)
    (aligned : ∀ copy i, (copy, i) ∈ order →
      AlignedElement cfg (scaled copy) (source copy) (target copy) i) :
    ∃ after, copyRows (fun memory copy => copyElement cfg (scaled copy) memory (source copy)
      (target copy)) order memory =
      some after := by
  obtain ⟨writes, ran⟩ := mapM_succeeds order
    (fun iteration => copyElement cfg (scaled iteration.1) memory (source iteration.1) (target iteration.1) iteration.2)
    fun iteration member => ⟨_, copyElement_eq_some.mpr ⟨aligned iteration.1 iteration.2 member, rfl⟩⟩
  exact ⟨_, by rw [copyRows, ran]; rfl⟩

variable (ran : copyRows (fun memory copy => copyElement cfg (scaled copy) memory (source copy) (target copy)) order memory =
  some after)
include ran

private theorem copyRows_aligned (member : (copy, i) ∈ order) :
    AlignedElement cfg (scaled copy) (source copy) (target copy) i := by
  obtain ⟨writes, done, _⟩ := bind_eq_some_iff.mp ran
  cases one : copyElement cfg (scaled copy) memory (source copy) (target copy) i with
  | none =>
    rw [mapM_fails member one] at done
    cases done
  | some result => exact (copyElement_eq_some.mp one).1

/-- A place holds a byte of a row if some iteration stores to it, and all that do store that
byte. -/
private theorem copyRows_byte {target_ : RowBuffer × Nat} {value : Option UInt8}
    (reached : ∃ copy byte, (copy, RowByte.index byte) ∈ order ∧ byte.Moved cfg (scaled copy) ∧
      byteAt (target copy) byte = target_)
    (agree : ∀ copy byte, (copy, RowByte.index byte) ∈ order → byte.Moved cfg (scaled copy) →
      byteAt (target copy) byte = target_ → memory.uncurry (byteAt (source copy) byte) = value) :
    after.uncurry target_ = value := by
  obtain ⟨writes, done, same⟩ := bind_eq_some_iff.mp ran
  cases same
  have listed := mapM_mem done
  apply applyAll_agree
  · intro write member covers
    obtain ⟨list, inside, own⟩ := mem_flatten.mp member
    obtain ⟨⟨copy, i⟩, visited, copied⟩ := (listed list).mp inside
    obtain ⟨_, rfl⟩ := copyElement_eq_some.mp copied
    obtain ⟨byte, rfl, moved, here, data⟩ := elementWrites_covers own covers
    rw [data]
    exact agree copy byte visited moved here
  · obtain ⟨copy, byte, visited, moved, rfl⟩ := reached
    obtain ⟨write, own, covers⟩ := elementWrites_reaches memory (source copy) (target copy) moved
    have aligned := copyRows_aligned ran visited
    refine ⟨write, mem_flatten.mpr ⟨_, (listed _).mpr ⟨_, visited, copyElement_eq_some.mpr ⟨aligned, rfl⟩⟩, own⟩, covers⟩

end

section
variable {cfg : Config}

private theorem ceilDiv_mul_le (count : Nat) : count ≤ ceilDiv count 16 * 16 := by
  rw [ceilDiv]
  omega

private theorem slotRow_place (float32 : cfg.scaleElemsize = 4) {first second : RowByte}
    (left : first.Of cfg) (right : second.Of cfg) {slot other : Nat}
    (same : byteAt (slotRow cfg slot) first = byteAt (slotRow cfg other) second) :
    slot = other ∧ first = second := by
  have room := ceilDiv_mul_le (cfg.hiddenDimScale * cfg.scaleElemsize)
  rw [float32] at room
  have stride : cfg.dispatchTokenDim =
      tokenDim cfg + ceilDiv (cfg.hiddenDimScale * 4) 16 * 16 + 16 := by rw [← float32]; rfl
  have address := congrArg Prod.snd same
  cases first with
  | vector i byte =>
    obtain ⟨listed, inside⟩ := left
    cases second with
    | vector i' byte' =>
      obtain ⟨listed', inside'⟩ := right
      simp only [byteAt, slotRow, TokenRow.vectorAt, Nat.add_assoc] at address
      obtain ⟨slots, offsets⟩ := block_unique (by rw [stride, tokenDim]; omega) (by rw [stride, tokenDim]; omega) address
      obtain ⟨rfl, rfl⟩ := block_unique inside inside' offsets
      exact ⟨slots, rfl⟩
    | scale j byte' =>
      obtain ⟨listed', inside'⟩ := right
      simp only [byteAt, slotRow, TokenRow.vectorAt, TokenRow.scaleAt, Nat.add_assoc] at address
      obtain ⟨_, offsets⟩ := block_unique (by rw [stride, tokenDim]; omega) (by rw [stride]; omega) address
      rw [tokenDim] at offsets
      omega
  | scale j byte =>
    obtain ⟨listed, inside⟩ := left
    cases second with
    | vector i byte' =>
      obtain ⟨listed', inside'⟩ := right
      simp only [byteAt, slotRow, TokenRow.vectorAt, TokenRow.scaleAt, Nat.add_assoc] at address
      obtain ⟨_, offsets⟩ := block_unique (by rw [stride]; omega) (by rw [stride, tokenDim]; omega) address
      rw [tokenDim] at offsets
      omega
    | scale j' byte' =>
      obtain ⟨listed', inside'⟩ := right
      simp only [byteAt, slotRow, TokenRow.scaleAt, Nat.add_assoc] at address
      obtain ⟨slots, offsets⟩ := block_unique (by rw [stride]; omega) (by rw [stride]; omega) address
      obtain ⟨rfl, rfl⟩ := block_unique inside inside' (Nat.add_left_cancel offsets)
      exact ⟨slots, rfl⟩

private theorem slotRow_aligned (cfg : Config) (slot i : Nat) :
    16 ∣ (slotRow cfg slot).vectorAt i ∧ 4 ∣ (slotRow cfg slot).scaleAt i := by
  have stride : 16 ∣ slot * cfg.dispatchTokenDim := by
    apply Nat.dvd_mul_left_of_dvd
    rw [Config.dispatchTokenDim]
    omega
  simp only [slotRow, TokenRow.vectorAt, TokenRow.scaleAt, tokenDim]
  omega

end

section
variable {cfg : Config} {senders : Nat → Tensors cfg} {receiver : Tensors cfg} {copies : RowCopies}

section
variable (ended : vectorLoops cfg fuel = some visited)
include ended

private theorem sweep_room :
    vectorsPerToken cfg + numThreads ≤ 2 ^ 32 := by
  by_contra wraps
  rw [vectorLoops, sweep_stuck (by decide) (by decide) (Nat.lt_of_not_le wraps)] at ended
  cases ended

private theorem vectorLoops_perm :
    visited.flatten.Perm (List.range (vectorsPerToken cfg)) :=
  sweep_perm (by decide) (sweep_room ended) ended

private theorem iterations_mem
    {order : List (RowCopy × Nat)} (perm : order.Perm (copies.iterations visited)) (copy : RowCopy) (i : Nat) :
    (copy, i) ∈ order ↔ copy ∈ copies.list ∧ i < vectorsPerToken cfg := by
  rw [perm.mem_iff, RowCopies.iterations, pair_mem_product, (vectorLoops_perm ended).mem_iff, mem_range]

end

private theorem index_lt (scales : cfg.hiddenDimScale ≤ vectorsPerToken cfg) (own : byte.Of cfg) :
    byte.index < vectorsPerToken cfg := by
  cases byte with
  | vector i byte => exact own.1
  | scale j byte => exact own.1.trans_le scales

private theorem moved_of (tensors : Tensors cfg) (own : byte.Of cfg) :
    byte.Moved cfg (tensors.xScalePtr ≠ 0) := by
  cases byte with
  | vector i byte => exact own.2
  | scale j byte => exact ⟨decide_eq_true (tensors.scales_given (zero_lt_of_lt own.1)), own.1, own.2⟩

private theorem of_moved {scaled : Bool} (moved : byte.Moved cfg scaled)
    (visited : byte.index < vectorsPerToken cfg) : byte.Of cfg := by
  cases byte with
  | vector i byte => exact ⟨visited, moved⟩
  | scale j byte => exact moved.2

private theorem source_aligned (copyable : CopyableRows cfg senders receiver copies)
    (member : copy ∈ copies.list) (visited : i < vectorsPerToken cfg) (scaled : Bool) :
    AlignedElement cfg scaled (sentRow cfg senders copy) (slotRow cfg copy.slot) i := by
  obtain ⟨vector, scale⟩ := slotRow_aligned cfg copy.slot i
  constructor
  · have start := (copyable.aligned copy member (zero_lt_of_lt visited)).1
    exact ⟨Nat.dvd_add start (Nat.dvd_mul_left _ _), vector⟩
  · rintro ⟨_, listed⟩
    have start := (copyable.scales_aligned copy member (zero_lt_of_lt listed)).1
    simp only [sentRow, Tensors.sourceRow, TokenRow.scaleAt]
    exact ⟨Nat.dvd_add (Nat.dvd_add start (Nat.dvd_mul_left _ _)) (Nat.dvd_mul_left_of_dvd (Nat.dvd_mul_left _ _) _), scale⟩

private theorem output_aligned (copyable : CopyableRows cfg senders receiver copies)
    (member : copy ∈ copies.list) (visited : i < vectorsPerToken cfg) (scaled : Bool) :
    AlignedElement cfg scaled (slotRow cfg copy.slot) (deliveredRow cfg receiver copy) i := by
  obtain ⟨vector, scale⟩ := slotRow_aligned cfg copy.slot i
  constructor
  · have start := (copyable.aligned copy member (zero_lt_of_lt visited)).2
    exact ⟨vector, Nat.dvd_add start (Nat.dvd_mul_left _ _)⟩
  · rintro ⟨_, listed⟩
    have start := (copyable.scales_aligned copy member (zero_lt_of_lt listed)).2
    simp only [deliveredRow, Tensors.outputRow, TokenRow.scaleAt]
    exact ⟨scale, Nat.dvd_add (Nat.dvd_add start (Nat.dvd_mul_left _ _)) (Nat.dvd_mul_left_of_dvd (Nat.dvd_mul_left _ _) _)⟩

private theorem slot_unique (copies : RowCopies) {other : RowCopy} (member : copy ∈ copies.list)
    (listed : other ∈ copies.list) (same : copy.slot = other.slot) : copy = other :=
  inj_on_of_nodup_map copies.slots_nodup member listed same

theorem CopyableRows.carries (float32 : cfg.scaleElemsize = 4) (copyable : CopyableRows cfg senders receiver copies) :
    CarriesRows cfg senders receiver copies := by
  refine ⟨⟨_, _, sweep_eq (by decide) copyable.room (lt_succ_self _)⟩, ?_, ?_⟩
  · intro fuel visited ended
    have once : ∀ i, i < vectorsPerToken cfg → visited.flatten.count i = 1 := by
      intro i inside
      rw [(vectorLoops_perm ended).count_eq]
      exact count_eq_one_of_mem nodup_range (mem_range.mpr inside)
    exact ⟨once, fun j scaled => once j (scaled.trans_le copyable.scales)⟩
  · intro fuel visited ended sent received left right memory
    have sends := iterations_mem ended left
    have receives := iterations_mem ended right
    obtain ⟨stored, stores⟩ := copyRows_goes (fun copy => (senders copy.source).xScalePtr ≠ 0) (sentRow cfg senders)
      (fun copy => slotRow cfg copy.slot) memory
      fun copy i member => source_aligned copyable ((sends copy i).mp member).1 ((sends copy i).mp member).2 _
    obtain ⟨final, loads⟩ := copyRows_goes (fun _ => receiver.xScalePtr ≠ 0) (fun copy => slotRow cfg copy.slot)
      (deliveredRow cfg receiver) stored
      fun copy i member => output_aligned copyable ((receives copy i).mp member).1 ((receives copy i).mp member).2 _
    -- Each slot holds the row of its copy before `dispatch_recv` starts.
    have kept : ∀ copy ∈ copies.list, ∀ byte : RowByte, byte.Of cfg →
        stored.uncurry (byteAt (slotRow cfg copy.slot) byte) = memory.uncurry (byteAt (sentRow cfg senders copy) byte) := by
      intro copy member byte own
      apply copyRows_byte stores
      · exact ⟨copy, byte, (sends _ _).mpr ⟨member, index_lt copyable.scales own⟩, moved_of _ own, rfl⟩
      · intro other byte' visits moved same
        obtain ⟨listed, inside⟩ := (sends _ _).mp visits
        obtain ⟨slots, rfl⟩ := slotRow_place float32 (of_moved moved inside) own same
        rw [slot_unique copies listed member slots]
    refine ⟨final, bind_eq_some_iff.mpr ⟨stored, stores, loads⟩, ?_⟩
    intro copy member byte own
    apply copyRows_byte loads
    · exact ⟨copy, byte, (receives _ _).mpr ⟨member, index_lt copyable.scales own⟩, moved_of receiver own, rfl⟩
    · intro other byte' visits moved same
      obtain ⟨listed, inside⟩ := (receives _ _).mp visits
      have own' := of_moved moved inside
      rw [kept other listed byte' own', copyable.apart other listed copy member byte' byte own' own same]

theorem CarriesRows.copyable (carries : CarriesRows cfg senders receiver copies) :
    CopyableRows cfg senders receiver copies := by
  obtain ⟨fuel, visited, ended⟩ := carries.loops
  have scales : cfg.hiddenDimScale ≤ vectorsPerToken cfg := by
    by_contra more
    have once := (carries.once fuel visited ended).2 (vectorsPerToken cfg) (Nat.lt_of_not_le more)
    rw [(vectorLoops_perm ended).count_eq, count_eq_zero_of_not_mem (by simp)] at once
    cases once
  have delivered := carries.rows fuel visited ended _ _ (Perm.refl _) (Perm.refl _)
  have listed := iterations_mem ended (Perm.refl (copies.iterations visited))
  obtain ⟨_, ran, _⟩ := delivered fun _ _ => none
  obtain ⟨stored, stores, loads⟩ := bind_eq_some_iff.mp ran
  -- The first iteration for a copy tells whether its rows are aligned.
  have first : ∀ copy ∈ copies.list, 0 < vectorsPerToken cfg →
      AlignedElement cfg ((senders copy.source).xScalePtr ≠ 0) (sentRow cfg senders copy) (slotRow cfg copy.slot) 0 ∧
        AlignedElement cfg (receiver.xScalePtr ≠ 0) (slotRow cfg copy.slot) (deliveredRow cfg receiver copy) 0 := by
    intro copy member some_
    have visits := (listed copy 0).mpr ⟨member, some_⟩
    exact ⟨copyRows_aligned stores visits, copyRows_aligned loads visits⟩
  refine ⟨scales, sweep_room ended, ?_, ?_, ?_⟩
  · intro copy member some_
    obtain ⟨sends, receives⟩ := first copy member some_
    have left := sends.vector.1
    have right := receives.vector.2
    rw [TokenRow.vectorAt, zero_mul, Nat.add_zero] at left right
    exact ⟨left, right⟩
  · intro copy member some_
    obtain ⟨sends, receives⟩ := first copy member (some_.trans_le scales)
    have left := (sends.scale ⟨decide_eq_true ((senders copy.source).scales_given some_), some_⟩).1
    have right := (receives.scale ⟨decide_eq_true (receiver.scales_given some_), some_⟩).2
    simp only [sentRow, deliveredRow, Tensors.sourceRow, Tensors.outputRow, TokenRow.scaleAt] at left right
    omega
  · intro copy member other listed' byte byte' own own' same
    by_contra differ
    -- A memory in which only the byte of one of the rows is set.
    obtain ⟨final, _, rows⟩ := delivered fun buffer address =>
      if (buffer, address) = byteAt (sentRow cfg senders copy) byte then some 1 else none
    have here := rows copy member byte own
    have there := rows other listed' byte' own'
    rw [same, there] at here
    simp only [Function.uncurry, Prod.mk.eta, if_neg (Ne.symm differ)] at here
    cases here

/-- Tokens are carried with all their scales exactly if the tensors let them. -/
theorem carriesRows_iff (cfg : Config) (float32 : cfg.scaleElemsize = 4) (senders : Nat → Tensors cfg)
    (receiver : Tensors cfg) (copies : RowCopies) :
    CarriesRows cfg senders receiver copies ↔ CopyableRows cfg senders receiver copies :=
  ⟨CarriesRows.copyable, CopyableRows.carries float32⟩

structure WholeRows (tensors : Tensors cfg) : Prop where
  ptr : 16 ∣ tensors.xPtr
  stride : 16 ∣ tensors.xStride
  scalePtr : 4 ∣ tensors.xScalePtr

private theorem WholeRows.row {tensors : Tensors cfg} (whole : WholeRows tensors) (token : Nat) :
    16 ∣ tensors.xPtr + token * tensors.xStride :=
  Nat.dvd_add whole.ptr (Nat.dvd_mul_left_of_dvd whole.stride _)

private theorem outputRow_place (wide : tokenDim cfg ≤ receiver.xStride)
    (scaled : 0 < receiver.xScaleStrideElem)
    (scales : cfg.hiddenDimScale * receiver.xScaleStrideElem ≤ receiver.xScaleStrideToken)
    {first second : RowByte} (left : first.Of cfg) (right : second.Of cfg) {row other : Nat}
    (same : byteAt (receiver.outputRow row) first = byteAt (receiver.outputRow other) second) :
    row = other ∧ first = second := by
  have buffers := congrArg Prod.fst same
  have address := congrArg Prod.snd same
  cases first with
  | vector i byte =>
    obtain ⟨listed, inside⟩ := left
    cases second with
    | scale j byte' => cases buffers
    | vector i' byte' =>
      obtain ⟨listed', inside'⟩ := right
      rw [tokenDim] at wide
      simp only [byteAt, Tensors.outputRow, TokenRow.vectorAt, Nat.add_assoc] at address
      obtain ⟨rows, offsets⟩ := block_unique (by omega) (by omega) (Nat.add_left_cancel address)
      obtain ⟨rfl, rfl⟩ := block_unique inside inside' offsets
      exact ⟨rows, rfl⟩
  | scale j byte =>
    obtain ⟨listed, inside⟩ := left
    cases second with
    | vector i byte' => cases buffers
    | scale j' byte' =>
      obtain ⟨listed', inside'⟩ := right
      have bound : ∀ k, k < cfg.hiddenDimScale →
          k * (receiver.xScaleStrideElem * 4) + receiver.xScaleStrideElem * 4 ≤ receiver.xScaleStrideToken * 4 := by
        intro k below
        have room := (Nat.mul_le_mul_right receiver.xScaleStrideElem (succ_le_of_lt below)).trans scales
        rw [succ_mul] at room
        rw [← Nat.mul_assoc]
        omega
      have here := bound j listed
      have there := bound j' listed'
      simp only [byteAt, Tensors.outputRow, TokenRow.scaleAt, Nat.add_assoc, Nat.mul_assoc] at address
      obtain ⟨rows, offsets⟩ := block_unique (by omega) (by omega) (Nat.add_left_cancel address)
      obtain ⟨rfl, rfl⟩ := block_unique (by omega) (by omega) offsets
      exact ⟨rows, rfl⟩

/-- Rows of whole vectors that are at least `token_dim` bytes apart can be copied. -/
theorem copyable_of_strides (scales : cfg.hiddenDimScale ≤ vectorsPerToken cfg)
    (room : vectorsPerToken cfg + numThreads ≤ 2 ^ 32) (sources : ∀ rank, WholeRows (senders rank))
    (whole : WholeRows receiver) (wide : tokenDim cfg ≤ receiver.xStride)
    (scaled : 0 < receiver.xScaleStrideElem)
    (apart : cfg.hiddenDimScale * receiver.xScaleStrideElem ≤ receiver.xScaleStrideToken)
    (rows : (copies.list.map RowCopy.paddedToken).Nodup) :
    CopyableRows cfg senders receiver copies where
  scales := scales
  room := room
  aligned copy _ _ := ⟨(sources copy.source).row copy.token, whole.row copy.paddedToken⟩
  scales_aligned copy _ _ := ⟨(sources copy.source).scalePtr, whole.scalePtr⟩
  apart copy member other listed first second left right same := by
    obtain ⟨padded, rfl⟩ := outputRow_place wide scaled apart left right same
    rw [inj_on_of_nodup_map rows member listed padded]

end

/-- Tensors without gaps between their rows. -/
def packed (cfg : Config) : Tensors cfg where
  xPtr := 4096
  xStride := cfg.hiddenDim * cfg.inElemsize
  xScalePtr := 4096
  xScaleStrideElem := 1
  xScaleStrideToken := cfg.hiddenDimScale
  scales_given _ := by decide

/-- The first two tokens of a rank, in the first two slots, for the first two rows. -/
def firstTwo : RowCopies where
  list := [⟨0, 0, 0, 0⟩, ⟨0, 1, 1, 1⟩]
  slots_nodup := by decide

def byteTokens (hiddenDim hiddenDimScale : Nat) : Config :=
  { Config.pair with hiddenDim, hiddenDimScale, inElemsize := 1 }

theorem carriesRows_iff_packed :
    CarriesRows (byteTokens 128 1) (fun _ => packed (byteTokens 128 1)) (packed (byteTokens 128 1)) firstTwo := by
  apply (carriesRows_iff (byteTokens 128 1) rfl _ _ _).mpr
  have whole : WholeRows (packed (byteTokens 128 1)) := ⟨by decide, by decide, by decide⟩
  exact copyable_of_strides (by decide) (by decide) (fun _ => whole) whole (by decide) (by decide) (by decide) (by decide)

/-- Blocks of eight elements: a token has eight vectors, and the last eight of its scales are
copied by no thread. Tokens of a hundred bytes: the second row is not aligned. -/
theorem scales_dropped :
    ¬ CarriesRows (byteTokens 128 16) (fun _ => packed (byteTokens 128 16)) (packed (byteTokens 128 16)) firstTwo ∧
      ¬ CarriesRows (byteTokens 100 1) (fun _ => packed (byteTokens 100 1)) (packed (byteTokens 100 1)) firstTwo := by
  constructor
  · intro carries
    exact absurd carries.copyable.scales (by decide)
  · intro carries
    have second := (carries.copyable.aligned ⟨0, 1, 1, 1⟩ (by decide) (by decide)).1
    exact absurd second (by decide)

end PplxGarden.AllToAll.Proofs
