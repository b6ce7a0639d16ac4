import PplxGarden.Fabric.ObjectPool
import Mathlib.Data.List.Nodup

/-! A slot of the pool has one owner: it is out, or on the free list, or was never handed out.
The pool without chunks that the domains are modelled with hands out the same slots. -/

namespace PplxGarden.Fabric.Proofs
open Library List
variable {pool : ObjectPool} {state : PoolUse}

namespace ObjectPool

def Created (pool : ObjectPool) (slot : Slot) : Prop := slot.chunk < pool.chunks ∧ slot.index < pool.chunkSize

def Untouched (pool : ObjectPool) (slot : Slot) : Prop := slot.chunk + 1 = pool.chunks ∧ pool.nextInLast ≤ slot.index

/-- The slots that are out or on the free list are those handed out so far, each once. -/
structure Owned (state : PoolUse) : Prop where
  positive : 0 < state.pool.chunkSize
  fits : state.pool.nextInLast ≤ state.pool.chunkSize
  distinct : (state.allocated ++ state.pool.freeList).Nodup
  listed : ∀ slot, slot ∈ state.allocated ++ state.pool.freeList ↔ Created state.pool slot ∧ ¬ Untouched state.pool slot

theorem Owned.new {chunkSize : Nat} (made : ObjectPool.withChunkSize chunkSize = some pool) : Owned ⟨pool, []⟩ := by
  unfold ObjectPool.withChunkSize at made
  split at made
  next positive =>
    cases made
    exact ⟨positive, Nat.zero_le _, nodup_nil, fun slot => iff_of_false not_mem_nil fun out =>
      absurd out.1.1 (Nat.not_lt_zero _)⟩
  next => cases made

section
variable {state : PoolUse}

theorem grown_cases (pool : ObjectPool) :
    (pool.grown = pool ∧ pool.chunks ≠ 0 ∧ pool.nextInLast ≠ pool.chunkSize) ∨
      ((pool.chunks = 0 ∨ pool.nextInLast = pool.chunkSize) ∧
        pool.grown = { pool with chunks := pool.chunks + 1, nextInLast := 0 }) := by
  unfold ObjectPool.grown
  split
  next full => exact .inr ⟨full, rfl⟩
  next room => exact .inl ⟨rfl, not_or.mp room⟩

theorem Owned.grown (owned : Owned state) (empty : state.pool.freeList = []) :
    Owned ⟨state.pool.grown, state.allocated⟩ ∧
      0 < state.pool.grown.chunks ∧ state.pool.grown.nextInLast < state.pool.grown.chunkSize ∧
        state.pool.grown.freeList = [] := by
  have positive := owned.positive
  have fits := owned.fits
  rcases grown_cases state.pool with ⟨same, some_, room⟩ | ⟨full, same⟩
  · rw [same]
    exact ⟨owned, Nat.pos_of_ne_zero some_, Nat.lt_of_le_of_ne fits room, empty⟩
  · rw [same]
    refine ⟨⟨positive, Nat.zero_le _, owned.distinct, fun slot => ?_⟩, Nat.succ_pos _, positive, empty⟩
    rw [owned.listed]
    simp only [Created, Untouched]
    omega

private theorem touched_next (some_ : 0 < pool.chunks) (room : pool.nextInLast < pool.chunkSize) (slot : Slot) :
    Created pool slot ∧ ¬ Untouched { pool with nextInLast := pool.nextInLast + 1 } slot ↔
      slot = ⟨pool.chunks - 1, pool.nextInLast⟩ ∨ Created pool slot ∧ ¬ Untouched pool slot := by
  obtain ⟨chunk, index⟩ := slot
  simp only [Created, Untouched, Slot.mk.injEq]
  omega

theorem Owned.allocUninit (owned : Owned state) :
    Owned ⟨state.pool.allocUninit.2, state.pool.allocUninit.1 :: state.allocated⟩ := by
  unfold ObjectPool.allocUninit
  split
  next slot rest free =>
    have moved : (slot :: state.allocated ++ rest).Perm (state.allocated ++ state.pool.freeList) := by
      rw [free]
      exact perm_middle.symm
    exact ⟨owned.positive, owned.fits, moved.nodup_iff.mpr owned.distinct, fun other =>
      moved.mem_iff.trans (owned.listed other)⟩
  next empty =>
    obtain ⟨ready, some_, room, free⟩ := owned.grown empty
    have listed := ready.listed
    have distinct := ready.distinct
    simp only [free, append_nil] at listed distinct
    refine ⟨ready.positive, room, ?_, fun slot => ?_⟩
    · simp only [free, append_nil]
      refine nodup_cons.mpr ⟨fun member => ?_, distinct⟩
      exact ((listed _).mp member).2 ⟨Nat.sub_add_cancel some_, Nat.le_refl _⟩
    · simp only [free, append_nil, mem_cons, listed]
      exact (touched_next some_ room slot).symm

theorem Owned.free (owned : Owned state) {slot : Slot} (out : slot ∈ state.allocated) :
    Owned ⟨state.pool.freeNoDrop slot, state.allocated.erase slot⟩ := by
  have moved : (state.allocated.erase slot ++ slot :: state.pool.freeList).Perm (state.allocated ++ state.pool.freeList) :=
    perm_middle.trans ((perm_cons_erase out).symm.append_right _)
  exact ⟨owned.positive, owned.fits, moved.nodup_iff.mpr owned.distinct, fun other =>
    moved.mem_iff.trans (owned.listed other)⟩

theorem Owned.fire {next : PoolUse} (owned : Owned state) {action : PoolUse.Action}
    (fired : state.fire action = some next) : Owned next := by
  cases action with
  | allocUninit =>
    cases fired
    exact owned.allocUninit
  | freeAndDrop slot =>
    simp only [PoolUse.fire] at fired
    split at fired
    next out =>
      cases fired
      exact owned.free out
    next => cases fired
  | freeNoDrop slot =>
    simp only [PoolUse.fire] at fired
    split at fired
    next out =>
      cases fired
      exact owned.free out
    next => cases fired

end

structure Exclusive (state : PoolUse) : Prop where
  inside : Created state.pool.allocUninit.2 state.pool.allocUninit.1
  unused : state.pool.allocUninit.1 ∉ state.allocated
  owner : ∀ slot, Created state.pool slot →
    (slot ∈ state.allocated ∧ slot ∉ state.pool.freeList ∧ ¬ Untouched state.pool slot) ∨
    (slot ∉ state.allocated ∧ state.pool.freeList.count slot = 1 ∧ ¬ Untouched state.pool slot) ∨
    (slot ∉ state.allocated ∧ slot ∉ state.pool.freeList ∧ Untouched state.pool slot)
  grows : state.pool.allocUninit.2.chunks ≠ state.pool.chunks → state.pool.freeList = [] ∧
    ∀ slot, Created state.pool slot → slot ∈ state.allocated

theorem Owned.slot (owned : Owned state) :
    Created state.pool.allocUninit.2 state.pool.allocUninit.1 ∧ state.pool.allocUninit.1 ∉ state.allocated := by
  have after := owned.allocUninit
  constructor
  · exact ((after.listed _).mp (mem_append_left _ (mem_cons_self ..))).1
  · exact (nodup_cons.mp (nodup_append.mp after.distinct).1).1

theorem Owned.owner (owned : Owned state) {slot : Slot} (created : Created state.pool slot) :
    (slot ∈ state.allocated ∧ slot ∉ state.pool.freeList ∧ ¬ Untouched state.pool slot) ∨
    (slot ∉ state.allocated ∧ state.pool.freeList.count slot = 1 ∧ ¬ Untouched state.pool slot) ∨
    (slot ∉ state.allocated ∧ slot ∉ state.pool.freeList ∧ Untouched state.pool slot) := by
  obtain ⟨_, free, apart⟩ := nodup_append.mp owned.distinct
  have listed := owned.listed slot
  rw [mem_append] at listed
  by_cases out : slot ∈ state.allocated
  · exact .inl ⟨out, fun member => apart slot out slot member rfl, (listed.mp (.inl out)).2⟩
  · by_cases given : slot ∈ state.pool.freeList
    · exact .inr (.inl ⟨out, count_eq_one_of_mem free given, (listed.mp (.inr given)).2⟩)
    · refine .inr (.inr ⟨out, given, ?_⟩)
      by_contra touched
      exact (listed.mpr ⟨created, touched⟩).elim out given

theorem Owned.grows (owned : Owned state) (new : state.pool.allocUninit.2.chunks ≠ state.pool.chunks) :
    state.pool.freeList = [] ∧ ∀ slot, Created state.pool slot → slot ∈ state.allocated := by
  unfold ObjectPool.allocUninit at new
  split at new
  next => exact absurd rfl new
  next empty =>
    refine ⟨empty, fun slot created => ?_⟩
    have listed := owned.listed slot
    rw [empty, append_nil] at listed
    refine listed.mpr ⟨created, ?_⟩
    rintro ⟨last, touched⟩
    rcases grown_cases state.pool with ⟨same, _⟩ | ⟨full, _⟩
    · exact new (by rw [same])
    · obtain ⟨chunk, index⟩ := created
      omega

/-- Whatever is allocated and freed, every slot has one owner. -/
theorem slots_exclusive {chunkSize : Nat} {pool : ObjectPool}
    (made : ObjectPool.withChunkSize chunkSize = some pool) {actions : List PoolUse.Action}
    {state : PoolUse} (reached : runs PoolUse.fire ⟨pool, []⟩ actions = some state) :
    Exclusive state := by
  have owned : Owned state := runs_invariant (Owned.new made) (fun _ _ _ before fired => before.fire fired) reached
  exact ⟨owned.slot.1, owned.slot.2, fun _ created => owned.owner created, owned.grows⟩

/-- Three slots of chunks of two, and the second one freed. -/
theorem slots_exclusive_three : Exclusive ⟨⟨2, 2, 1, [⟨0, 1⟩]⟩, [⟨1, 0⟩, ⟨0, 0⟩]⟩ :=
  slots_exclusive (show ObjectPool.withChunkSize 2 = some ⟨0, 2, 0, []⟩ from rfl)
    (show runs PoolUse.fire _ [.allocUninit, .allocUninit, .allocUninit, .freeNoDrop ⟨0, 1⟩] = some _ from rfl)

section
variable {α : Type} {flat : Pool α}

def number (chunkSize : Nat) (slot : Slot) : Nat := slot.chunk * chunkSize + slot.index

/-- The pool without chunks that numbers the slots of a pool. -/
structure Numbers (pool : ObjectPool) (flat : Pool α) : Prop where
  free : flat.freeList = pool.freeList.map (number pool.chunkSize)
  next : flat.next = (pool.chunks - 1) * pool.chunkSize + pool.nextInLast
  start : pool.chunks = 0 → pool.nextInLast = 0

theorem Numbers.grown (numbers : Numbers pool flat) :
    0 < pool.grown.chunks ∧ pool.grown.chunkSize = pool.chunkSize ∧
      pool.grown.freeList = pool.freeList ∧
        flat.next = number pool.chunkSize ⟨pool.grown.chunks - 1, pool.grown.nextInLast⟩ := by
  have next := numbers.next
  have start := numbers.start
  rcases grown_cases pool with ⟨same, some_, _⟩ | ⟨full, same⟩
  · rw [same]
    exact ⟨Nat.pos_of_ne_zero some_, rfl, rfl, next⟩
  · rw [same]
    refine ⟨Nat.succ_pos _, rfl, rfl, ?_⟩
    rw [next, number, Nat.add_sub_cancel, Nat.add_zero]
    by_cases none : pool.chunks = 0
    · simp [start none, none]
    · rw [full.resolve_left none, ← Nat.succ_mul, Nat.succ_eq_add_one, Nat.sub_add_cancel (Nat.pos_of_ne_zero none)]

theorem Numbers.alloc (numbers : Numbers pool flat) :
    flat.alloc.1 = number pool.chunkSize pool.allocUninit.1 ∧ Numbers pool.allocUninit.2 flat.alloc.2 := by
  have bound := flat.top_le
  unfold ObjectPool.allocUninit
  cases free : pool.freeList with
  | cons slot rest =>
    have listed : flat.freeList = number pool.chunkSize slot ::
        rest.map (number pool.chunkSize) := by
      rw [numbers.free, free, map_cons]
    have top : flat.top = number pool.chunkSize slot := by rw [Pool.top, listed, headD_cons]
    have below : flat.top < flat.next := ((flat.listed flat.top).mp (by rw [listed, top]; exact mem_cons_self ..)).1
    refine ⟨top, ⟨?_, ?_, numbers.start⟩⟩
    · rw [Pool.alloc_freeList, listed, tail_cons]
    · rw [Pool.alloc_next, Nat.max_eq_left below]
      exact numbers.next
  | nil =>
    obtain ⟨some_, sized, kept, next⟩ := numbers.grown
    have listed : flat.freeList = [] := by rw [numbers.free, free, map_nil]
    have top : flat.top = flat.next := by rw [Pool.top, listed, headD_nil]
    refine ⟨top.trans next, ⟨?_, ?_, fun none => absurd none (Nat.ne_of_gt some_)⟩⟩
    · rw [Pool.alloc_freeList, listed]
      exact (congrArg (List.map _) (kept.trans free)).symm
    · rw [Pool.alloc_next, top, Nat.max_eq_right (Nat.le_succ _), next, ← sized]
      rfl

theorem Numbers.clear (numbers : Numbers pool flat) {slot : Slot}
    (out : flat.cell (number pool.chunkSize slot) ≠ .vacant) : Numbers (pool.freeNoDrop slot) (flat.clear _ out) :=
  ⟨congrArg (number pool.chunkSize slot :: ·) numbers.free, numbers.next, numbers.start⟩

end

end ObjectPool

end PplxGarden.Fabric.Proofs
