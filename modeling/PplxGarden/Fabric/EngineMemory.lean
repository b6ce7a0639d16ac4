import PplxGarden.Fabric.Registration

/-! The memory regions of a transfer engine. A region is registered with the worker of its
device, and the engine remembers the device by the pointer. -/

namespace PplxGarden.Fabric

abbrev MrGroup (α : Type) := List (DomainAddress × MrDomain α)

namespace MrGroup

variable {α ε : Type} (provider : MrProvider α ε) (region : MemoryRegion)

/-- The first domain that fails ends the loop; the domains before it keep the region. -/
def registerEach {β : Type} (register : MrDomain α → Nat → Except RegisterError β × MrDomain α) :
    Nat → MrGroup α → Except RegisterError (List (DomainAddress × β)) × MrGroup α
  | _, [] => (.ok [], [])
  | k, (addr, domain) :: rest =>
    match register domain k with
    | (.error error, next) => (.error error, (addr, next) :: rest)
    | (.ok value, next) =>
      let (result, others) := registerEach register (k + 1) rest
      (result.map ((addr, value) :: ·), (addr, next) :: others)

def registerMrAllowRemote (group : MrGroup α) (answers : Nat → ε) : Except RegisterError (MemoryPtr × MemoryRegionDescriptor) × MrGroup α :=
  let (result, next) := registerEach (fun domain k => provider.registerMrAllowRemote domain region (answers k)) 0 group
  (result.map fun addrRkeyList => (region.ptr, ⟨region.ptr, addrRkeyList⟩), next)

def registerMrLocal (group : MrGroup α) (answers : Nat → ε) : Except RegisterError MemoryPtr × MrGroup α :=
  let (result, next) := registerEach (fun domain k => provider.registerMrLocal domain region (answers k)) 0 group
  (result.map fun _ => region.ptr, next)

def unregisterMr (group : MrGroup α) (ptr : MemoryPtr) : MrGroup α := group.map fun (addr, domain) => (addr, domain.unregisterMr ptr)

end MrGroup

/-- The domains of a worker on its thread. The device that is selected is the thread's: a
domain finds it as the domain before left it. -/
structure MrThread (α : Type) where
  domains : MrGroup α
  cudaDevice : Nat

namespace MrThread

variable {α ε : Type} (provider : MrProvider α ε) (region : MemoryRegion)

def registerEach {β : Type} (register : MrDomain α → Nat → Except RegisterError β × MrDomain α) :
    Nat → Nat → MrGroup α → Except RegisterError (List (DomainAddress × β)) × MrThread α
  | _, cudaDevice, [] => (.ok [], ⟨[], cudaDevice⟩)
  | k, cudaDevice, (addr, domain) :: rest =>
    match register { domain with cudaDevice } k with
    | (.error error, next) => (.error error, ⟨(addr, next) :: rest, next.cudaDevice⟩)
    | (.ok value, next) =>
      let (result, others) := registerEach register (k + 1) next.cudaDevice rest
      (result.map ((addr, value) :: ·), ⟨(addr, next) :: others.domains, others.cudaDevice⟩)

def registerMrAllowRemote (thread : MrThread α) (answers : Nat → ε) : Except RegisterError (MemoryPtr × MemoryRegionDescriptor) × MrThread α :=
  let (result, next) := registerEach (fun domain k => provider.registerMrAllowRemote domain region (answers k)) 0 thread.cudaDevice thread.domains
  (result.map fun addrRkeyList => (region.ptr, ⟨region.ptr, addrRkeyList⟩), next)

def registerMrLocal (thread : MrThread α) (answers : Nat → ε) : Except RegisterError MemoryPtr × MrThread α :=
  let (result, next) := registerEach (fun domain k => provider.registerMrLocal domain region (answers k)) 0 thread.cudaDevice thread.domains
  (result.map fun _ => region.ptr, next)

end MrThread

/-- The workers are ordered by the device they belong to, and there is at least one. -/
structure FabricEngine (α : Type) where
  workers : List (Nat × MrGroup α)
  mrDeviceMap : MemoryPtr → Option Device
  ordered : (workers.map Prod.fst).Pairwise (· < ·)
  nonempty : workers ≠ []

namespace FabricEngine

variable {α ε : Type}

def new (workers : List (Nat × MrGroup α)) (ordered : (workers.map Prod.fst).Pairwise (· < ·)) (nonempty : workers ≠ []) : FabricEngine α where
  workers := workers
  mrDeviceMap _ := none
  ordered := ordered
  nonempty := nonempty

variable (provider : MrProvider α ε) (engine : FabricEngine α)

def getMainWorker : Nat × MrGroup α := engine.workers.head engine.nonempty

def getWorker : Device → Except RegisterError (Nat × MrGroup α)
  | .host => .ok engine.getMainWorker
  | .cuda deviceId =>
    match engine.workers.find? fun worker => worker.1 = deviceId with
    | some worker => .ok worker
    | none => .error (.custom "Worker not found")

def replaceWorker (deviceId : Nat) (group : MrGroup α) : List (Nat × MrGroup α) :=
  engine.workers.map fun worker => if worker.1 = deviceId then (deviceId, group) else worker

theorem replaceWorker_devices (deviceId : Nat) (group : MrGroup α) :
    (engine.replaceWorker deviceId group).map Prod.fst = engine.workers.map Prod.fst := by
  rw [replaceWorker, List.map_map]
  refine List.map_congr_left fun worker _ => ?_
  simp only [Function.comp_apply]
  split
  next same => exact same.symm
  next => rfl

theorem replaceWorker_ordered (deviceId : Nat) (group : MrGroup α) : ((engine.replaceWorker deviceId group).map Prod.fst).Pairwise (· < ·) := by
  rw [replaceWorker_devices]
  exact engine.ordered

theorem replaceWorker_nonempty (deviceId : Nat) (group : MrGroup α) : engine.replaceWorker deviceId group ≠ [] :=
  fun empty => engine.nonempty (List.map_eq_nil_iff.mp empty)

def setWorker (deviceId : Nat) (group : MrGroup α) : FabricEngine α where
  workers := engine.replaceWorker deviceId group
  mrDeviceMap := engine.mrDeviceMap
  ordered := replaceWorker_ordered engine deviceId group
  nonempty := replaceWorker_nonempty engine deviceId group

def rememberDevice (ptr : MemoryPtr) (device : Device) : FabricEngine α :=
  { engine with mrDeviceMap := Function.update engine.mrDeviceMap ptr (some device) }

variable (ptr : MemoryPtr) (len : Nat) (device : Device) (pointer : Option Bool)

/-- `call` is what the worker does with the region. -/
def registerMemory (call : MemoryRegion → MrGroup α → Except RegisterError β × MrGroup α) : Except RegisterError β × FabricEngine α :=
  match engine.getWorker device with
  | .error error => (.error error, engine)
  | .ok (deviceId, group) =>
    match MemoryRegion.new ptr len device pointer with
    | .error error => (.error error, engine)
    | .ok region =>
      match call region group with
      | (.error error, next) => (.error error, engine.setWorker deviceId next)
      | (.ok value, next) => (.ok value, (engine.setWorker deviceId next).rememberDevice ptr device)

def registerMemoryLocal (answers : Nat → ε) : Except RegisterError MemoryPtr × FabricEngine α :=
  engine.registerMemory ptr len device pointer fun region group => MrGroup.registerMrLocal provider region group answers

def registerMemoryAllowRemote (answers : Nat → ε) : Except RegisterError (MemoryPtr × MemoryRegionDescriptor) × FabricEngine α :=
  engine.registerMemory ptr len device pointer fun region group => MrGroup.registerMrAllowRemote provider region group answers

def unregisterMemory : FabricEngine α :=
  engine.setWorker engine.getMainWorker.1 (engine.getMainWorker.2.unregisterMr ptr)

def getWorkerByMr : Except RegisterError (Nat × MrGroup α) :=
  match engine.mrDeviceMap ptr with
  | some device => engine.getWorker device
  | none => .error (.custom "Invalid memory region")

def submitTransfer : TransferRequest → Except RegisterError (Nat × MrGroup α)
  | .imm _ => .ok engine.getMainWorker
  | .barrier _ => .ok engine.getMainWorker
  | .single request => engine.getWorkerByMr request.srcMr
  | .paged request => engine.getWorkerByMr request.srcMr
  | .scatter request => engine.getWorkerByMr request.srcMr

inductive Call (ε : Type) where
  | registerMemoryLocal (ptr : MemoryPtr) (len : Nat) (device : Device) (pointer : Option Bool) (answers : Nat → ε)
  | registerMemoryAllowRemote (ptr : MemoryPtr) (len : Nat) (device : Device) (pointer : Option Bool) (answers : Nat → ε)
  | unregisterMemory (ptr : MemoryPtr)

def call : Call ε → FabricEngine α
  | .registerMemoryLocal ptr len device pointer answers => (engine.registerMemoryLocal provider ptr len device pointer answers).2
  | .registerMemoryAllowRemote ptr len device pointer answers => (engine.registerMemoryAllowRemote provider ptr len device pointer answers).2
  | .unregisterMemory ptr => engine.unregisterMemory ptr

def calls (calls : List (Call ε)) : FabricEngine α := calls.foldl (call provider) engine

def Call.registers : Call ε → Option MemoryPtr
  | .registerMemoryLocal ptr _ _ _ _ => some ptr
  | .registerMemoryAllowRemote ptr _ _ _ _ => some ptr
  | .unregisterMemory _ => none

def succeeds : Call ε → Bool
  | .registerMemoryLocal ptr len device pointer answers => (engine.registerMemoryLocal provider ptr len device pointer answers).1.isOk
  | .registerMemoryAllowRemote ptr len device pointer answers => (engine.registerMemoryAllowRemote provider ptr len device pointer answers).1.isOk
  | .unregisterMemory _ => true

end FabricEngine

end PplxGarden.Fabric
