import PplxGarden.Fabric.HostBuffer
import Mathlib.Algebra.BigOperators.Group.Multiset.Basic
import Mathlib.Data.List.Nodup

/-! Host buffers are conserved: each entry of the cache is alive once or free once, under the
length of its storage. -/

namespace PplxGarden.Fabric.Proofs.HostBuffers
open Library Fabric.HostBuffers List
variable {index length size : Nat} {freeBufs walk : FreeBufs}

def classPairs (entries : Nat × List Nat) : Multiset (Nat × Nat) :=
  (entries.2 : Multiset Nat).map fun index => (index, entries.1)

def freePairs (freeBufs : FreeBufs) : Multiset (Nat × Nat) := (freeBufs.map classPairs).sum

theorem freePairs_cons (entries : Nat × List Nat) (rest : FreeBufs) :
    freePairs (entries :: rest) = classPairs entries + freePairs rest :=
  rfl

private theorem classPairs_cons (size index : Nat) (others : List Nat) :
    classPairs (size, index :: others) = (index, size) ::ₘ classPairs (size, others) :=
  rfl

theorem mem_freePairs :
    (index, size) ∈ freePairs freeBufs ↔ ∃ entries ∈ freeBufs, entries.1 = size ∧ index ∈ entries.2 := by
  induction freeBufs with
  | nil => simp [freePairs]
  | cons entries rest ih =>
    rw [freePairs_cons, Multiset.mem_add, ih, exists_mem_cons_iff]
    simp [classPairs, and_comm]

private theorem reordered_pairs (reordered : walk.Reordered freeBufs) : freePairs walk = freePairs freeBufs := by
  have sums := reordered.map (fun entries : Nat × Multiset Nat => entries.2.map fun index => (index, entries.1))
  rw [map_map, map_map] at sums
  exact sums.sum_eq

private theorem reordered_sizes (reordered : walk.Reordered freeBufs) :
    (walk.map Prod.fst).Perm (freeBufs.map Prod.fst) := by
  simpa [Function.comp_def] using reordered.map Prod.fst

private theorem nextIndex_eq_some {entries : Nat × List Nat} (next : nextIndex size entries = some index) :
    size ≤ entries.1 ∧ classPairs entries = (index, entries.1) ::ₘ classPairs (entries.1, entries.2.erase index) := by
  obtain ⟨allocatedSize, indices⟩ := entries
  rw [nextIndex] at next
  split at next
  next => cases next
  next large =>
    obtain ⟨others, rfl⟩ := head?_eq_some_iff.mp next
    rw [erase_cons_head]
    exact ⟨Nat.le_of_not_lt large, classPairs_cons ..⟩

theorem take_eq_some {left : FreeBufs} (taken : walk.take size = some (length, index, left)) :
    size ≤ length ∧ freePairs walk = (index, length) ::ₘ freePairs left ∧ left.map Prod.fst = walk.map Prod.fst := by
  induction walk generalizing left with
  | nil => cases taken
  | cons entries rest ih =>
    rw [FreeBufs.take] at taken
    split at taken
    next first next =>
      cases taken
      obtain ⟨large, pairs⟩ := nextIndex_eq_some next
      refine ⟨large, ?_, rfl⟩
      rw [freePairs_cons, freePairs_cons, pairs, Multiset.cons_add]
    next =>
      obtain ⟨⟨_, _, others⟩, later, found⟩ := Option.map_eq_some_iff.mp taken
      cases found
      obtain ⟨large, pairs, sizes⟩ := ih later
      refine ⟨large, ?_, congrArg (entries.1 :: ·) sizes⟩
      rw [freePairs_cons, freePairs_cons, pairs, Multiset.add_cons]

theorem insert_freePairs (fresh : (index, length) ∉ freePairs freeBufs) :
    freePairs (freeBufs.insert index length) = (index, length) ::ₘ freePairs freeBufs := by
  induction freeBufs with
  | nil => rfl
  | cons entries rest ih =>
    obtain ⟨size, indices⟩ := entries
    rw [freePairs_cons, Multiset.mem_add, not_or] at fresh
    rw [FreeBufs.insert]
    split
    next same =>
      subst same
      have absent : index ∉ indices := fun member => fresh.1 (by simpa [classPairs] using member)
      rw [insert_of_not_mem absent, freePairs_cons, freePairs_cons, classPairs_cons, Multiset.cons_add]
    next => rw [freePairs_cons, freePairs_cons, ih fresh.2, Multiset.add_cons]

private theorem insert_size (member : size ∈ (freeBufs.insert index length).map Prod.fst) :
    size = length ∨ size ∈ freeBufs.map Prod.fst := by
  induction freeBufs with
  | nil => exact .inl (mem_singleton.mp member)
  | cons entries rest ih =>
    obtain ⟨first, indices⟩ := entries
    rw [FreeBufs.insert] at member
    split at member
    next => exact .inr member
    next =>
      rcases mem_cons.mp member with rfl | later
      · exact .inr (mem_cons_self ..)
      · exact (ih later).imp_right (mem_cons_of_mem _)

private theorem insert_sizes (distinct : (freeBufs.map Prod.fst).Nodup) :
    ((freeBufs.insert index length).map Prod.fst).Nodup := by
  induction freeBufs with
  | nil => exact nodup_singleton _
  | cons entries rest ih =>
    obtain ⟨size, indices⟩ := entries
    obtain ⟨absent, others⟩ := nodup_cons.mp distinct
    rw [FreeBufs.insert]
    split
    next => exact distinct
    next other =>
      refine nodup_cons.mpr ⟨fun member => ?_, ih others⟩
      exact (insert_size member).elim other absent

def entryPairs (buffers : List HostBufferEntry) : Multiset (Nat × Nat) :=
  (buffers.mapIdx fun index entry => (index, entry.storageLen) : List (Nat × Nat))

def livePairs (live : List HostBuffer) : Multiset (Nat × Nat) :=
  (live.map fun buffer => (buffer.index, buffer.length) : List (Nat × Nat))

structure Conserved (state : HostBuffers) : Prop where
  pairs : livePairs state.live + freePairs state.cache.freeBufs = entryPairs state.cache.buffers
  sizes : (state.cache.freeBufs.map Prod.fst).Nodup

private theorem mem_entryPairs {buffers : List HostBufferEntry} :
    (index, length) ∈ entryPairs buffers ↔ ∃ entry, buffers[index]? = some entry ∧ entry.storageLen = length := by
  rw [entryPairs, Multiset.mem_coe, mem_mapIdx]
  constructor
  · rintro ⟨place, inside, same⟩
    cases same
    exact ⟨_, List.getElem?_eq_getElem inside, rfl⟩
  · rintro ⟨entry, found, rfl⟩
    obtain ⟨inside, rfl⟩ := List.getElem?_eq_some_iff.mp found
    exact ⟨index, inside, rfl⟩

private theorem entryPairs_nodup (buffers : List HostBufferEntry) : ((entryPairs buffers).map Prod.fst).Nodup := by
  have indices : (buffers.mapIdx fun index entry => (index, entry.storageLen)).map Prod.fst =
      List.range buffers.length := by
    refine ext_getElem (by simp) fun index _ _ => by simp
  rw [entryPairs, Multiset.map_coe, indices]
  exact nodup_range

private theorem entryPairs_append (buffers : List HostBufferEntry) (entry : HostBufferEntry) :
    entryPairs (buffers ++ [entry]) = (buffers.length, entry.storageLen) ::ₘ entryPairs buffers := by
  simp [entryPairs, mapIdx_append, ← Multiset.coe_add, Multiset.add_comm, ← Multiset.singleton_add]

private theorem livePairs_cons (buffer : HostBuffer) (live : List HostBuffer) :
    livePairs (buffer :: live) = (buffer.index, buffer.length) ::ₘ livePairs live :=
  rfl

private theorem le_nextPowerOfTwo (n : Nat) : n ≤ nextPowerOfTwo n := by
  unfold nextPowerOfTwo
  split
  next small => exact small
  next =>
    have above : n - 1 < 2 ^ (Nat.log2 (n - 1) + 1) := Nat.lt_log2_self
    omega

section
variable {state : HostBuffers} (conserved : Conserved state)
include conserved

theorem Conserved.indices :
    (((livePairs state.live).map Prod.fst) + (freePairs state.cache.freeBufs).map
      Prod.fst).Nodup := by
  rw [← Multiset.map_add, conserved.pairs]
  exact entryPairs_nodup _

theorem Conserved.apart {other : Nat} (alive : (index, length) ∈ livePairs state.live) :
    (index, other) ∉ freePairs state.cache.freeBufs := by
  intro free
  obtain ⟨_, _, disjoint⟩ := Multiset.nodup_add.mp conserved.indices
  exact Multiset.disjoint_left.mp disjoint (Multiset.mem_map.mpr ⟨_, alive, rfl⟩) (Multiset.mem_map.mpr ⟨_, free, rfl⟩)

theorem Conserved.entry
    (held : (index, length) ∈ livePairs state.live ∨
      (index, length) ∈ freePairs state.cache.freeBufs) :
    ∃ entry, state.cache.buffers[index]? = some entry ∧ entry.storageLen = length := by
  rw [← mem_entryPairs, ← conserved.pairs]
  exact Multiset.mem_add.mpr held

theorem Conserved.allocate (reordered : walk.Reordered state.cache.freeBufs)
    {answer : HostBufferAnswer} {outcome : Allocation} {cache : HostBufferCache}
    (ran : state.cache.allocate walk size answer = (outcome, cache)) :
    (∃ buffer, outcome = .ok buffer ∧ size ≤ buffer.length ∧
      Conserved ⟨cache, buffer :: state.live⟩) ∨
      (∀ buffer, outcome ≠ .ok buffer) ∧ cache = state.cache ∧
        (outcome = .panic → isizeMax < nextPowerOfTwo size) := by
  unfold HostBufferCache.allocate at ran
  split at ran
  next length index left taken =>
    obtain ⟨large, pairs, sizes⟩ := take_eq_some taken
    rw [reordered_pairs reordered] at pairs
    obtain ⟨entry, found, _⟩ := conserved.entry (.inr (pairs ▸ Multiset.mem_cons_self ..))
    rw [found] at ran
    cases ran
    refine .inl ⟨_, rfl, large, ⟨?_, ?_⟩⟩
    · rw [← conserved.pairs, livePairs_cons, pairs, Multiset.cons_add, Multiset.add_cons]
    · rw [sizes, (reordered_sizes reordered).nodup_iff]
      exact conserved.sizes
  next =>
    dsimp only at ran
    split at ran
    next huge =>
      cases ran
      exact .inr ⟨nofun, rfl, fun _ => huge⟩
    next =>
      split at ran
      next =>
        cases ran
        exact .inr ⟨nofun, rfl, nofun⟩
      next =>
        cases ran
        refine .inl ⟨_, rfl, le_nextPowerOfTwo size, ⟨?_, conserved.sizes⟩⟩
        rw [entryPairs_append, ← conserved.pairs, livePairs_cons, Multiset.cons_add]

theorem Conserved.drop {position : Nat} {buffer : HostBuffer} (found : state.live[position]? = some buffer) :
    Conserved ⟨state.cache.free buffer.index buffer.length, state.live.eraseIdx position⟩ := by
  have moved : livePairs state.live = (buffer.index, buffer.length) ::ₘ livePairs (state.live.eraseIdx position) := by
    obtain ⟨inside, rfl⟩ := List.getElem?_eq_some_iff.mp found
    exact (Multiset.coe_eq_coe.mpr ((getElem_cons_eraseIdx_perm inside).map _)).symm
  have fresh : (buffer.index, buffer.length) ∉ freePairs state.cache.freeBufs :=
    conserved.apart (moved ▸ Multiset.mem_cons_self ..)
  refine ⟨?_, insert_sizes conserved.sizes⟩
  rw [HostBufferCache.free, insert_freePairs fresh, Multiset.add_cons, ← Multiset.cons_add, ← moved]
  exact conserved.pairs

end

theorem Conserved.fire {state next : HostBuffers} {action : Action} (conserved : Conserved state)
    (fired : state.fire action = some next) : Conserved next := by
  cases action with
  | allocate walk size answer =>
    by_cases valid : walk.Reordered state.cache.freeBufs ∧ size ≤ 2 ^ 63
    · rw [HostBuffers.fire, if_pos valid] at fired
      generalize ran : state.cache.allocate walk size answer = outcome at fired
      obtain ⟨result, cache⟩ := outcome
      rcases conserved.allocate valid.1 ran with ⟨buffer, rfl, _, kept⟩ | ⟨failed, rfl, _⟩
      · cases fired
        exact kept
      · cases result with
        | ok buffer => exact absurd rfl (failed buffer)
        | error error =>
          cases fired
          exact conserved
        | panic =>
          cases fired
          exact conserved
    · rw [HostBuffers.fire, if_neg valid] at fired
      cases fired
  | drop position =>
    obtain ⟨buffer, found, rfl⟩ := Option.map_eq_some_iff.mp fired
    exact conserved.drop found

def Free (cache : HostBufferCache) (index : Nat) : Prop := ∃ entries ∈ cache.freeBufs, index ∈ entries.2

structure Exclusive (state : HostBuffers) : Prop where
  live : (state.live.map HostBuffer.index).Nodup
  alive : ∀ buffer ∈ state.live, ∃ entry, state.cache.buffers[buffer.index]? = some entry ∧ entry.storageLen = buffer.length
  apart : ∀ buffer ∈ state.live, ¬ Free state.cache buffer.index
  free : ∀ index, Free state.cache index → ∃ entry, state.cache.buffers[index]? = some entry ∧
    (∃! entries, entries ∈ state.cache.freeBufs ∧ index ∈ entries.2) ∧
      ∀ entries ∈ state.cache.freeBufs, index ∈ entries.2 → entries.1 = entry.storageLen

/-- What a call of `allocate` returns and leaves. -/
structure AllocatesWell (state : HostBuffers) (size : Nat) (outcome : Allocation)
    (cache : HostBufferCache) : Prop where
  returned : ∀ buffer, outcome = .ok buffer → size ≤ buffer.length ∧
    (∃ entry, cache.buffers[buffer.index]? = some entry ∧ entry.storageLen = buffer.length) ∧
      ∀ other ∈ state.live, other.index ≠ buffer.index
  failed : (∀ buffer, outcome ≠ .ok buffer) → cache = state.cache
  panics : outcome = .panic → isizeMax < nextPowerOfTwo size

private theorem mem_livePairs {buffer : HostBuffer} {live : List HostBuffer}
    (member : buffer ∈ live) : (buffer.index, buffer.length) ∈ livePairs live :=
  Multiset.mem_coe.mpr (mem_map_of_mem member)

theorem Conserved.exclusive {state : HostBuffers} (conserved : Conserved state) : Exclusive state where
  live := by
    have distinct := (Multiset.nodup_add.mp conserved.indices).1
    rwa [livePairs, Multiset.map_coe, map_map, Multiset.coe_nodup] at distinct
  alive buffer member := conserved.entry (.inl (mem_livePairs member))
  apart buffer member := by
    rintro ⟨entries, listed, free⟩
    exact conserved.apart (mem_livePairs member) (mem_freePairs.mpr ⟨entries, listed, rfl, free⟩)
  free index := by
    rintro ⟨entries, listed, free⟩
    obtain ⟨entry, found, length⟩ := conserved.entry (.inr (mem_freePairs.mpr ⟨entries, listed, rfl, free⟩))
    -- Every list that has the index is listed under the length of the entry.
    have only (other) (member : other ∈ state.cache.freeBufs) (held : index ∈ other.2) : other.1 = entry.storageLen := by
      obtain ⟨again, same, storage⟩ := conserved.entry (.inr (mem_freePairs.mpr ⟨other, member, rfl, held⟩))
      rw [← storage, Option.some.inj (found.symm.trans same)]
    refine ⟨entry, found, ⟨entries, ⟨listed, free⟩, ?_⟩, only⟩
    rintro other ⟨member, held⟩
    exact inj_on_of_nodup_map conserved.sizes member listed ((only other member held).trans (only entries listed free).symm)

/-- Whatever is allocated and dropped, a buffer has one holder and the length of its storage,
and a call that fails changes nothing. -/
theorem host_buffers_exclusive {actions : List Action} {state : HostBuffers}
    (reached : runs HostBuffers.fire .new actions = some state) :
    Exclusive state ∧ ∀ walk size answer, FreeBufs.Reordered walk state.cache.freeBufs →
      size ≤ 2 ^ 63 →
      AllocatesWell state size (state.cache.allocate walk size answer).1
        (state.cache.allocate walk size answer).2 := by
  have start : Conserved .new := ⟨rfl, nodup_nil⟩
  have conserved := runs_invariant start (fun _ _ _ kept fired => kept.fire fired) reached
  refine ⟨conserved.exclusive, fun walk size answer reordered _ => ?_⟩
  rcases conserved.allocate reordered (Prod.mk.eta (p :=
    state.cache.allocate walk size answer)).symm with ⟨buffer, returned, large, kept⟩ | ⟨failed,
    same, panics⟩
  · have exclusive := kept.exclusive
    refine ⟨?_, fun failed => absurd returned (failed buffer), fun panics => ?_⟩
    · intro other again
      obtain rfl : buffer = other := by simpa using returned.symm.trans again
      refine ⟨large, exclusive.alive buffer (mem_cons_self ..), fun other member same => ?_⟩
      exact (nodup_cons.mp exclusive.live).1 (same ▸ mem_map_of_mem member)
    · rw [returned] at panics
      cases panics
  · exact ⟨fun buffer returned => absurd returned (failed buffer), fun _ => same, panics⟩

/-- A buffer of 8 bytes that is dropped and used again for 3. -/
theorem host_buffers_exclusive_reused :
    Exclusive ⟨⟨[⟨100, 8, 100⟩], [(8, [])]⟩, [⟨0, 100, 8, 100⟩]⟩ ∧
      ∀ walk size answer, FreeBufs.Reordered walk [(8, [])] → size ≤ 2 ^ 63 →
        AllocatesWell ⟨⟨[⟨100, 8, 100⟩], [(8, [])]⟩, [⟨0, 100, 8, 100⟩]⟩ size
          (HostBufferCache.allocate ⟨[⟨100, 8, 100⟩], [(8, [])]⟩ walk size answer).1
          (HostBufferCache.allocate ⟨[⟨100, 8, 100⟩], [(8, [])]⟩ walk size answer).2 :=
  @host_buffers_exclusive [.allocate [] 5 ⟨100, .ok 100⟩, .drop 0, .allocate [(8, [0])] 3 ⟨200, .ok 200⟩]
    ⟨⟨[⟨100, 8, 100⟩], [(8, [])]⟩, [⟨0, 100, 8, 100⟩]⟩ (by decide)

end PplxGarden.Fabric.Proofs.HostBuffers
