import PplxGarden.Cuda.Gdr
import PplxGarden.Library.Runs
import Mathlib.Data.List.Perm.Basic

/-! The window that a GDRCopy buffer pins. Rounding up the rounded sum skips a page for
almost every pointer, and the spare page does not cover it then. -/

namespace PplxGarden.Cuda.Proofs
open Fabric Library Option
variable {aligned ptr nbytes : Nat}

theorem u64_eq_some {value result : Nat} (fits : u64 value = some result) : result = value := by
  unfold u64 at fits
  split at fits
  · exact (Option.some.inj fits).symm
  · contradiction

theorem alignTo_eq_some {alignment : Nat} (ran : alignTo ptr alignment = some aligned) :
    0 < alignment ∧ aligned = divCeil (ptr + alignment - 1) alignment * alignment := by
  unfold alignTo at ran
  by_cases none : alignment = 0
  · simp [none] at ran
  simp only [none, if_false] at ran
  obtain ⟨sum, added, rounded⟩ := bind_eq_some_iff.mp ran
  exact ⟨Nat.pos_of_ne_zero none, by rw [u64_eq_some rounded, u64_eq_some added]⟩

section
variable (ran : alignTo ptr gdrPageSize = some aligned)
include ran

/-- A pointer at the start of a page, or one byte behind it, is moved to the next page. -/
theorem alignTo_near (near : ptr % gdrPageSize ≤ 1) :
    aligned = (ptr / gdrPageSize + 1) * gdrPageSize := by
  rw [(alignTo_eq_some ran).2]
  simp only [divCeil, gdrPageSize] at near ⊢
  omega

private theorem alignTo_far (far : ¬ ptr % gdrPageSize ≤ 1) :
    aligned = (ptr / gdrPageSize + 2) * gdrPageSize := by
  rw [(alignTo_eq_some ran).2]
  simp only [divCeil, gdrPageSize] at far ⊢
  omega

theorem alignTo_dvd : gdrPageSize ∣ aligned := by
  rw [(alignTo_eq_some ran).2]
  exact Nat.dvd_mul_left ..

end

/-- The addresses of the window belong to the allocation. -/
def WindowOwned (devicePtr aligned bytesize : Nat) : Prop :=
  ∀ address, aligned ≤ address → address < aligned + bytesize → devicePtr ≤ address ∧
    address < devicePtr + bytesize + gdrPageSize

private theorem window_within {devicePtr bytesize : Nat} (some : 0 < bytesize) :
    WindowOwned devicePtr aligned bytesize ↔ devicePtr ≤ aligned ∧ aligned ≤ devicePtr + gdrPageSize := by
  constructor
  · intro owned
    have first := owned aligned (Nat.le_refl _) (by omega)
    have last := owned (aligned + bytesize - 1) (by omega) (by omega)
    omega
  · intro within address above below
    omega

private theorem window_empty (devicePtr aligned : Nat) : WindowOwned devicePtr aligned 0 := by
  intro address above below
  omega

theorem window_owned {devicePtr : Nat} (ran : alignTo devicePtr gdrPageSize = some aligned) :
    WindowOwned devicePtr aligned (roundUp nbytes gdrPageSize) ↔ nbytes = 0 ∨ devicePtr % gdrPageSize ≤ 1 := by
  rcases Nat.eq_zero_or_pos nbytes with rfl | some
  · exact iff_of_true (window_empty devicePtr aligned) (Or.inl rfl)
  have pages : 0 < roundUp nbytes gdrPageSize := by
    simp only [roundUp, divCeil, gdrPageSize]
    omega
  rw [window_within pages]
  by_cases near : devicePtr % gdrPageSize ≤ 1
  · rw [alignTo_near ran near]
    simp only [gdrPageSize] at near ⊢
    omega
  · rw [alignTo_far ran near]
    simp only [gdrPageSize] at near ⊢
    omega

inductive Allocates (nbytes : Nat) : GdrAnswers → Except CudaError GdrBuffer → List GdrCall → Prop where
  | refused {pinBuffer map allocated} :
      Allocates nbytes ⟨none, pinBuffer, map⟩
        (.error (.gdrCopyError "Failed to allocate GDR buffer")) [.memAlloc allocated none]
  | unpinned {map devicePtr aligned allocated} (moved : alignTo devicePtr gdrPageSize = some aligned) :
      Allocates nbytes ⟨some devicePtr, none, map⟩ (.error (.gdrCopyError "Failed to pin GDR buffer"))
        [.memAlloc allocated (some devicePtr), .pinBuffer aligned (roundUp nbytes gdrPageSize) none, .memFree devicePtr]
  | unmapped {devicePtr mh aligned allocated} (moved : alignTo devicePtr gdrPageSize = some aligned) :
      Allocates nbytes ⟨some devicePtr, some mh, none⟩ (.error (.gdrCopyError "Failed to map GDR buffer"))
        [.memAlloc allocated (some devicePtr), .pinBuffer aligned (roundUp nbytes gdrPageSize) (some mh),
          .map mh (roundUp nbytes gdrPageSize) none, .unpinBuffer mh, .memFree devicePtr]
  | made {devicePtr mh mappedPtr aligned allocated} (moved : alignTo devicePtr gdrPageSize = some aligned) :
      Allocates nbytes ⟨some devicePtr, some mh, some mappedPtr⟩
        (.ok ⟨devicePtr, aligned, mappedPtr, mh, roundUp nbytes gdrPageSize⟩)
        [.memAlloc allocated (some devicePtr), .pinBuffer aligned (roundUp nbytes gdrPageSize) (some mh),
          .map mh (roundUp nbytes gdrPageSize) (some mappedPtr)]

theorem allocBuffer_cases {answers : GdrAnswers} {result : Except CudaError GdrBuffer} {calls : List GdrCall}
    (ran : allocBuffer answers nbytes = some (result, calls)) : Allocates nbytes answers result calls := by
  obtain ⟨memAlloc, pinBuffer, map⟩ := answers
  obtain ⟨bytesize, rounded, ran⟩ := bind_eq_some_iff.mp ran
  obtain rfl := u64_eq_some rounded
  obtain ⟨allocated, _, ran⟩ := bind_eq_some_iff.mp ran
  cases memAlloc with
  | none =>
    cases ran
    exact .refused
  | some devicePtr =>
    obtain ⟨aligned, moved, ran⟩ := bind_eq_some_iff.mp ran
    cases pinBuffer with
    | none =>
      cases ran
      exact .unpinned moved
    | some mh =>
      cases map with
      | none =>
        cases ran
        exact .unmapped moved
      | some mappedPtr =>
        cases ran
        exact .made moved

theorem pinned_window {devicePtr nbytes : Nat} {pinned mapped : Option Nat}
    {result : Except CudaError GdrBuffer} {calls : List GdrCall}
    (ran : allocBuffer ⟨some devicePtr, pinned, mapped⟩ nbytes = some (result, calls)) :
    ∃ aligned, alignTo devicePtr gdrPageSize = some aligned ∧
      (∀ address size mh, GdrCall.pinBuffer address size mh ∈ calls ↔ address = aligned ∧
        size = roundUp nbytes gdrPageSize ∧ mh = pinned) ∧
      (∀ mh size ptr, GdrCall.map mh size ptr ∈ calls → pinned = some mh ∧
        size = roundUp nbytes gdrPageSize ∧ ptr = mapped) ∧
      gdrPageSize ∣ aligned ∧
      (WindowOwned devicePtr aligned (roundUp nbytes gdrPageSize) ↔ nbytes = 0 ∨
        devicePtr % gdrPageSize ≤ 1) := by
  cases allocBuffer_cases ran with
  | unpinned moved => exact ⟨_, moved, by simp, by simp, alignTo_dvd moved, window_owned moved⟩
  | unmapped moved => exact ⟨_, moved, by simp, by simp [eq_comm], alignTo_dvd moved, window_owned moved⟩
  | made moved => exact ⟨_, moved, by simp, by simp [eq_comm], alignTo_dvd moved, window_owned moved⟩

/-- The second page of the allocation, pinned for one byte at the start of the first. -/
theorem pinned_window_first :
    ∃ aligned, alignTo 65536 gdrPageSize = some aligned ∧
      (∀ address size mh, GdrCall.pinBuffer address size mh ∈ [.memAlloc 131072 (some 65536),
        .pinBuffer 131072 65536 (some 7), .map 7 65536 (some 9)] ↔
        address = aligned ∧ size = roundUp 1 gdrPageSize ∧ mh = some 7) ∧
      (∀ mh size ptr, GdrCall.map mh size ptr ∈ [.memAlloc 131072 (some 65536),
        .pinBuffer 131072 65536 (some 7), .map 7 65536 (some 9)] →
        some 7 = some mh ∧ size = roundUp 1 gdrPageSize ∧ ptr = some 9) ∧
      gdrPageSize ∣ aligned ∧ (WindowOwned 65536 aligned (roundUp 1 gdrPageSize) ↔ 1 = 0 ∨
        65536 % gdrPageSize ≤ 1) :=
  @pinned_window 65536 1 (some 7) (some 9) (.ok ⟨65536, 131072, 9, 7, 65536⟩) _ rfl

/-- One byte at an allocation 256 bytes into its page: the pinned page ends behind the
allocation. -/
theorem pinned_beyond :
    allocBuffer ⟨some 256, some 7, some 9⟩ 1 =
        some (.ok ⟨256, 131072, 9, 7, 65536⟩,
          [.memAlloc 131072 (some 256), .pinBuffer 131072 65536 (some 7), .map 7 65536 (some 9)]) ∧
      ¬ WindowOwned 256 131072 65536 := by
  refine ⟨by rfl, ?_⟩
  intro owned
  have last := owned 196607 (by decide) (by decide)
  exact absurd last.2 (by decide)

private theorem failed_alloc_returns {answers : GdrAnswers} {error : CudaError}
    {calls : List GdrCall} (ran : allocBuffer answers nbytes = some (.error error, calls))
    (driver : GdrDriver) : calls.foldl GdrDriver.apply driver = driver := by
  cases allocBuffer_cases ran with
  | refused => rfl
  | unpinned => simp [GdrDriver.apply]
  | unmapped => simp [GdrDriver.apply]

/-- The driver holds what the buffers have taken and not given back. -/
structure Held (state : GdrBuffers) : Prop where
  allocated : state.driver.allocated.Perm (state.live.map (·.devicePtr))
  pinned : state.driver.pinned.Perm (state.live.map (·.mh))
  mapped : state.driver.mapped.Perm (state.live.map (·.mappedPtr))

theorem perm_dropped {live : List GdrBuffer} {index : Nat} {buffer : GdrBuffer}
    (found : live[index]? = some buffer) {taken : List Nat} {field : GdrBuffer → Nat}
    (held : taken.Perm (live.map field)) :
    (taken.erase (field buffer)).Perm ((live.eraseIdx index).map field) := by
  obtain ⟨inside, rfl⟩ := List.getElem?_eq_some_iff.mp found
  have split := (List.getElem_cons_eraseIdx_perm inside).map field
  simpa using (held.trans split.symm).erase (field live[index])

theorem Held.fire {state after : GdrBuffers} {action : GdrBuffers.Action} (held : Held state)
    (fired : state.fire action = some after) : Held after := by
  cases action with
  | alloc answers nbytes =>
    obtain ⟨⟨result, calls⟩, ran, same⟩ := bind_eq_some_iff.mp fired
    cases same
    cases result with
    | error error =>
      rw [failed_alloc_returns ran]
      exact held
    | ok buffer =>
      cases allocBuffer_cases ran with
      | made => exact ⟨held.allocated.cons _, held.pinned.cons _, held.mapped.cons _⟩
  | drop index =>
    obtain ⟨buffer, found, rfl⟩ := map_eq_some_iff.mp fired
    exact ⟨perm_dropped found held.allocated, perm_dropped found held.pinned, perm_dropped found held.mapped⟩

/-- Whatever buffers are made, refused and dropped, in whatever order, the driver holds the
allocation, the pin and the mapping of every live buffer and nothing else. -/
theorem buffers_held {actions : List GdrBuffers.Action} {state : GdrBuffers}
    (ran : runs GdrBuffers.fire .new actions = some state) : Held state :=
  runs_invariant ⟨.nil, .nil, .nil⟩ (fun _ _ _ => Held.fire) ran

/-- The first of two buffers is dropped, after a third could not be mapped. -/
theorem buffers_held_second : Held ⟨[⟨262144, 327680, 6, 2, 65536⟩], ⟨[262144], [2], [6]⟩⟩ :=
  @buffers_held [.alloc ⟨some 0, some 1, some 5⟩ 1, .alloc ⟨some 262144, some 2, some 6⟩ 1,
    .alloc ⟨some 524288, some 3, none⟩ 1, .drop 1] _ rfl

end PplxGarden.Cuda.Proofs
