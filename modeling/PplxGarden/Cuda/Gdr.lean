import PplxGarden.Fabric.DomainGroup

/-! Buffers of GDRCopy: device memory that the driver pins and maps into the host, in
pages of 64 KiB inside an allocation with one page to spare. -/

namespace PplxGarden.Cuda
open Fabric

inductive CudaError where
  | cudart (code : Nat) (context : String)
  | gdrCopyError (message : String)
  | customError (message : String)
deriving Repr, DecidableEq

/-- The result of an operation on `u64`, unless it overflows. -/
def u64 (value : Nat) : Option Nat := if value < 2 ^ 64 then some value else none

def alignTo (ptr alignment : Nat) : Option Nat := do
  if alignment = 0 then none
  let sum ← u64 (ptr + alignment)
  u64 (divCeil (sum - 1) alignment * alignment)

/-- A call of the driver with what it answers; no answer is an error code. -/
inductive GdrCall where
  | memAlloc (size : Nat) (devicePtr : Option Nat)
  | memFree (devicePtr : Nat)
  | pinBuffer (address size : Nat) (mh : Option Nat)
  | unpinBuffer (mh : Nat)
  | map (mh size : Nat) (mappedPtr : Option Nat)
  | unmap (mh mappedPtr size : Nat)
deriving Repr, DecidableEq

structure GdrAnswers where
  memAlloc : Option Nat
  pinBuffer : Option Nat
  map : Option Nat
deriving Repr, DecidableEq

structure GdrBuffer where
  devicePtr : Nat
  alignedDevicePtr : Nat
  mappedPtr : Nat
  mh : Nat
  bytesize : Nat
deriving Repr, DecidableEq

def gdrPageSize : Nat := 2 ^ 16

/-- What `alloc_buffer` returns and the calls it makes; nothing if the arithmetic overflows. -/
def allocBuffer (answers : GdrAnswers) (nbytes : Nat) : Option (Except CudaError GdrBuffer × List GdrCall) := do
  let bytesize ← u64 (roundUp nbytes gdrPageSize)
  let allocated ← u64 (bytesize + gdrPageSize)
  match answers.memAlloc with
  | none => return (.error (.gdrCopyError "Failed to allocate GDR buffer"), [.memAlloc allocated none])
  | some devicePtr =>
    let alignedDevicePtr ← alignTo devicePtr gdrPageSize
    let pin := [.memAlloc allocated (some devicePtr), .pinBuffer alignedDevicePtr bytesize answers.pinBuffer]
    match answers.pinBuffer with
    | none => return (.error (.gdrCopyError "Failed to pin GDR buffer"), pin ++ [.memFree devicePtr])
    | some mh =>
      match answers.map with
      | none => return (.error (.gdrCopyError "Failed to map GDR buffer"), pin ++ [.map mh bytesize none, .unpinBuffer mh, .memFree devicePtr])
      | some mappedPtr =>
        return (.ok { devicePtr, alignedDevicePtr, mappedPtr, mh, bytesize }, pin ++ [.map mh bytesize (some mappedPtr)])

def GdrBuffer.drop (buffer : GdrBuffer) : List GdrCall :=
  [.unmap buffer.mh buffer.mappedPtr buffer.bytesize, .unpinBuffer buffer.mh, .memFree buffer.devicePtr]

structure GdrDriver where
  allocated : List Nat
  pinned : List Nat
  mapped : List Nat
deriving Repr, DecidableEq

def GdrDriver.apply (driver : GdrDriver) : GdrCall → GdrDriver
  | .memAlloc _ devicePtr => { driver with allocated := devicePtr.toList ++ driver.allocated }
  | .memFree devicePtr => { driver with allocated := driver.allocated.erase devicePtr }
  | .pinBuffer _ _ mh => { driver with pinned := mh.toList ++ driver.pinned }
  | .unpinBuffer mh => { driver with pinned := driver.pinned.erase mh }
  | .map _ _ mappedPtr => { driver with mapped := mappedPtr.toList ++ driver.mapped }
  | .unmap _ mappedPtr _ => { driver with mapped := driver.mapped.erase mappedPtr }

structure GdrBuffers where
  live : List GdrBuffer
  driver : GdrDriver
deriving Repr, DecidableEq

def GdrBuffers.new : GdrBuffers := ⟨[], ⟨[], [], []⟩⟩

inductive GdrBuffers.Action where
  | alloc (answers : GdrAnswers) (nbytes : Nat)
  | drop (index : Nat)

def GdrBuffers.fire (state : GdrBuffers) : Action → Option GdrBuffers
  | .alloc answers nbytes => do
    let (result, calls) ← allocBuffer answers nbytes
    return ⟨result.toOption.toList ++ state.live, calls.foldl GdrDriver.apply state.driver⟩
  | .drop index => state.live[index]?.map fun buffer => ⟨state.live.eraseIdx index, buffer.drop.foldl GdrDriver.apply state.driver⟩

end PplxGarden.Cuda
