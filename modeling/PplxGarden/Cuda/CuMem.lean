import PplxGarden.Cuda.Gdr
import PplxGarden.Fabric.Registration
import Mathlib.Logic.Function.Basic

/-! Physical memory of CUmem mapped into reserved address ranges. The clones of a mapping
share one holder, which keeps a flag for whether the range is mapped; the driver knows what
backs the range. -/

namespace PplxGarden.Cuda
open Fabric (Device)

structure AddressRange where
  size : Nat
  backing : Option Nat
  access : Option Nat
deriving Repr, DecidableEq

inductive CUMemMappingRef where
  | alloc (handle allocSize deviceId : Nat)
  | multicast (handle allocSize : Nat)
deriving Repr, DecidableEq

def CUMemMappingRef.size : CUMemMappingRef → Nat
  | .alloc _ allocSize _ => allocSize
  | .multicast _ allocSize => allocSize

def CUMemMappingRef.handle : CUMemMappingRef → Nat
  | .alloc handle _ _ => handle
  | .multicast handle _ => handle

def CUMemMappingRef.deviceId : CUMemMappingRef → Nat
  | .alloc _ _ deviceId => deviceId
  | .multicast _ _ => 0

def CUMemMappingRef.accessFrom (alloc : CUMemMappingRef) : Device → Nat
  | .cuda deviceId => deviceId
  | .host => alloc.deviceId

structure CUMemMappingHolder where
  allocSize : Nat
  deviceId : Nat
  mapped : Bool
  ptr : Nat
deriving Repr, DecidableEq

/-- The holder of a mapping and how many clones there are besides the first. -/
structure CUMemMapping where
  holder : CUMemMappingHolder
  others : Nat
deriving Repr, DecidableEq

/-- The address ranges the driver has reserved and the mappings that are alive, both by
the start of their range. -/
structure CuProcess where
  ranges : Nat → Option AddressRange
  mappings : Nat → Option CUMemMapping

def CuProcess.new : CuProcess := ⟨fun _ => none, fun _ => none⟩

def CuProcess.setRange (process : CuProcess) (ptr : Nat) (range : Option AddressRange) : CuProcess :=
  { process with ranges := Function.update process.ranges ptr range }

def CuProcess.setMapping (process : CuProcess) (ptr : Nat) (mapping : Option CUMemMapping) : CuProcess :=
  { process with mappings := Function.update process.mappings ptr mapping }

def CuProcess.backing (process : CuProcess) (ptr : Nat) : Option Nat := (process.ranges ptr).bind AddressRange.backing

/-- A call of the driver that answers with `code`; one that fails changes nothing. -/
def answer (code : Nat) (effect : CuProcess → CuProcess) : StateM CuProcess Nat := do
  if code = 0 then modify effect
  return code

def cuMemAddressReserve (code ptr size : Nat) : StateM CuProcess Nat :=
  answer code fun process => process.setRange ptr (some ⟨size, none, none⟩)

def cuMemMap (code ptr handle : Nat) : StateM CuProcess Nat :=
  answer code fun process => process.setRange ptr ((process.ranges ptr).map fun range => { range with backing := some handle })

def cuMemSetAccess (code ptr deviceId : Nat) : StateM CuProcess Nat :=
  answer code fun process => process.setRange ptr ((process.ranges ptr).map fun range => { range with access := some deviceId })

def invalidValue : Nat := 1

/-- A range that is not mapped cannot be unmapped. -/
def cuMemUnmap (code ptr : Nat) : StateM CuProcess Nat := do
  let code := if code = 0 ∧ ((← get).backing ptr).isNone then invalidValue else code
  answer code fun process => process.setRange ptr ((process.ranges ptr).map fun range => { range with backing := none, access := none })

/-- A range that is mapped cannot be freed. -/
def cuMemAddressFree (ptr : Nat) : StateM CuProcess Nat := do
  let code := if ((← get).backing ptr).isSome then invalidValue else 0
  answer code fun process => process.setRange ptr none

abbrev CudaResult := ExceptT CudaError (StateM CuProcess)

def cudaCheck (call : StateM CuProcess Nat) : CudaResult Unit := do
  let code ← call
  if code ≠ 0 then throw (.cudart code "cuda_check call failed")

structure MapAnswers where
  reserve : Nat
  ptr : Nat
  map : Nat
  setAccess : Nat
deriving Repr, DecidableEq

def CUMemAlloc.map (alloc : CUMemMappingRef) (device : Device) (answers : MapAnswers) : CudaResult CUMemMappingHolder := do
  let deviceId := alloc.accessFrom device
  cudaCheck (cuMemAddressReserve answers.reserve answers.ptr alloc.size)
  cudaCheck (cuMemMap answers.map answers.ptr alloc.handle)
  cudaCheck (cuMemSetAccess answers.setAccess answers.ptr deviceId)
  return { allocSize := alloc.size, deviceId, mapped := true, ptr := answers.ptr }

def storeMapped (mapping : CUMemMapping) (mapped : Bool) : CudaResult Unit :=
  modify fun process => process.setMapping mapping.holder.ptr (some { mapping with holder := { mapping.holder with mapped } })

/-- The mapping is an argument by value: that clone is dropped when the call has returned. -/
def CUMemAlloc.mapTo (alloc : CUMemMappingRef) (mapping : CUMemMapping) (mapCode setAccessCode : Nat) : CudaResult Unit := do
  if mapping.holder.allocSize ≠ alloc.size then
    throw (.customError s!"Mapping size {mapping.holder.allocSize} does not match allocation size {alloc.size}")
  cudaCheck (cuMemMap mapCode mapping.holder.ptr alloc.handle)
  cudaCheck (cuMemSetAccess setAccessCode mapping.holder.ptr mapping.holder.deviceId)
  storeMapped mapping true

def CUMemMapping.unmap (mapping : CUMemMapping) (code : Nat) : CudaResult Unit := do
  storeMapped mapping false
  if mapping.holder.mapped then cudaCheck (cuMemUnmap code mapping.holder.ptr)

/-- Whether the drop returns; a driver call that fails panics. -/
def CUMemMappingHolder.drop (holder : CUMemMappingHolder) (code : Nat) : StateM CuProcess Bool := do
  if holder.mapped then
    if (← cuMemUnmap code holder.ptr) ≠ 0 then return false
  return (← cuMemAddressFree holder.ptr) = 0

inductive MappingAction where
  | map (alloc : CUMemMappingRef) (device : Device) (answers : MapAnswers)
  | clone (ptr : Nat)
  | mapTo (alloc : CUMemMappingRef) (ptr mapCode setAccessCode : Nat)
  | unmap (ptr code : Nat)
  | drop (ptr code : Nat)
deriving Repr, DecidableEq

/-- A range that the driver hands out is not reserved yet. -/
def MapAnswers.Fresh (answers : MapAnswers) (process : CuProcess) : Prop := answers.reserve = 0 → process.ranges answers.ptr = none

instance (answers : MapAnswers) (process : CuProcess) : Decidable (answers.Fresh process) :=
  inferInstanceAs (Decidable (_ → _))

def CuProcess.fire (process : CuProcess) : MappingAction → Option CuProcess
  | .map alloc device answers =>
    if answers.Fresh process then
      match (CUMemAlloc.map alloc device answers).run.run process with
      | (.ok holder, process) => some (process.setMapping holder.ptr (some ⟨holder, 0⟩))
      | (.error _, process) => some process
    else none
  | .clone ptr => (process.mappings ptr).map fun mapping => process.setMapping ptr (some { mapping with others := mapping.others + 1 })
  | .mapTo alloc ptr mapCode setAccessCode =>
    (process.mappings ptr).map fun mapping => ((CUMemAlloc.mapTo alloc mapping mapCode setAccessCode).run.run process).2
  | .unmap ptr code => (process.mappings ptr).map fun mapping => ((mapping.unmap code).run.run process).2
  | .drop ptr code =>
    (process.mappings ptr).map fun mapping =>
      if mapping.others = 0 then ((mapping.holder.drop code).run (process.setMapping ptr none)).2
      else process.setMapping ptr (some { mapping with others := mapping.others - 1 })

end PplxGarden.Cuda
