import PplxGarden.Fabric.Registration
import PplxGarden.Library.Runs
import Mathlib.Data.Multiset.Basic
import Mathlib.Algebra.Ring.Nat

/-! Host buffers that are registered once and used again. A buffer that is dropped goes to the
free buffers of its size; a request takes any of them that is large enough. -/

namespace PplxGarden.Fabric

structure HostBuffer where
  index : Nat
  ptr : MemoryPtr
  length : Nat
  mrHandle : MemoryPtr
deriving Repr, DecidableEq

structure HostBufferEntry where
  ptr : MemoryPtr
  storageLen : Nat
  mrHandle : MemoryPtr
deriving Repr, DecidableEq

/-- The free indices by size. The lists are in some order in which the hash map and its hash
sets may be iterated. -/
abbrev FreeBufs := List (Nat × List Nat)

def FreeBufs.Reordered (walk freeBufs : FreeBufs) : Prop :=
  (walk.map fun entries => (entries.1, (entries.2 : Multiset Nat))).Perm (freeBufs.map fun entries => (entries.1, (entries.2 : Multiset Nat)))

instance (walk freeBufs : FreeBufs) : Decidable (walk.Reordered freeBufs) := inferInstanceAs (Decidable (List.Perm _ _))

def FreeBufs.insert (index length : Nat) : FreeBufs → FreeBufs
  | [] => [(length, [index])]
  | (size, entries) :: rest =>
    if size = length then (size, entries.insert index) :: rest
    else (size, entries) :: FreeBufs.insert index length rest

def nextIndex (size : Nat) (entries : Nat × List Nat) : Option Nat := if entries.1 < size then none else entries.2.head?

/-- The first index that is found, with its size, and what is left. -/
def FreeBufs.take (size : Nat) : FreeBufs → Option (Nat × Nat × FreeBufs)
  | [] => none
  | entries :: rest =>
    match nextIndex size entries with
    | some index => some (entries.1, index, (entries.1, entries.2.erase index) :: rest)
    | none => (FreeBufs.take size rest).map fun found => (found.1, found.2.1, entries :: found.2.2)

structure HostBufferCache where
  buffers : List HostBufferEntry
  freeBufs : FreeBufs
deriving Repr, DecidableEq

def HostBufferCache.free (cache : HostBufferCache) (index length : Nat) : HostBufferCache :=
  { cache with freeBufs := cache.freeBufs.insert index length }

def nextPowerOfTwo (n : Nat) : Nat := if n ≤ 1 then 1 else 2 ^ (Nat.log2 (n - 1) + 1)

/-- Where the storage is, and what `register_memory_local` returns. -/
structure HostBufferAnswer where
  ptr : MemoryPtr
  registered : Except RegisterError MemoryPtr

inductive Allocation where
  | ok (buffer : HostBuffer)
  | error (error : RegisterError)
  | panic
deriving Repr, DecidableEq

def isizeMax : Nat := 2 ^ 63 - 1

/-- `walk` is the order in which the free buffers are iterated. -/
def HostBufferCache.allocate (cache : HostBufferCache) (walk : FreeBufs) (size : Nat) (answer : HostBufferAnswer) : Allocation × HostBufferCache :=
  match walk.take size with
  | some (length, index, left) =>
    match cache.buffers[index]? with
    | some entry => (.ok ⟨index, entry.ptr, length, entry.mrHandle⟩, { cache with freeBufs := left })
    | none => (.panic, { cache with freeBufs := left })
  | none =>
    let size := nextPowerOfTwo size
    if isizeMax < size then (.panic, cache)
    else
      match answer.registered with
      | .error error => (.error error, cache)
      | .ok mrHandle =>
        (.ok ⟨cache.buffers.length, answer.ptr, size, mrHandle⟩, { cache with buffers := cache.buffers ++ [⟨answer.ptr, size, mrHandle⟩] })

structure HostBuffers where
  cache : HostBufferCache
  live : List HostBuffer
deriving Repr, DecidableEq

def HostBuffers.new : HostBuffers := ⟨⟨[], []⟩, []⟩

inductive HostBuffers.Action where
  | allocate (walk : FreeBufs) (size : Nat) (answer : HostBufferAnswer)
  | drop (position : Nat)

/-- The next power of two of the size is a `usize`. -/
def HostBuffers.fire (state : HostBuffers) : Action → Option HostBuffers
  | .allocate walk size answer =>
    if walk.Reordered state.cache.freeBufs ∧ size ≤ 2 ^ 63 then
      match state.cache.allocate walk size answer with
      | (.ok buffer, cache) => some ⟨cache, buffer :: state.live⟩
      | (_, cache) => some ⟨cache, state.live⟩
    else none
  | .drop position => state.live[position]?.map fun buffer => ⟨state.cache.free buffer.index buffer.length, state.live.eraseIdx position⟩

end PplxGarden.Fabric
