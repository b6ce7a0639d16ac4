import PplxGarden.Fabric.DomainGroup
import Mathlib.Logic.Function.Basic

/-! Memory regions as a domain registers them. A domain finds the regions it has registered
by their base pointer; the device knows a region until it is closed. -/

namespace PplxGarden.Fabric

inductive Device where
  | host
  | cuda (deviceId : Nat)
deriving Repr, DecidableEq

inductive Mapping where
  | host
  | device (deviceId : Nat) (dmabufFd : Option Nat)
deriving Repr, DecidableEq

structure MemoryRegion where
  ptr : MemoryPtr
  len : Nat
  mapping : Mapping
deriving Repr, DecidableEq

inductive RegisterError where
  | libfabric (code : Int) (context : String)
  | verbs (context : String)
  | cudart
  | custom (message : String)
deriving Repr, DecidableEq

/-- `pointer` is what `cudaPointerGetAttributes` answers: whether this is device memory. -/
def MemoryRegion.new (ptr : MemoryPtr) (len : Nat) (device : Device) (pointer : Option Bool) : Except RegisterError MemoryRegion :=
  match device with
  | .host => .ok ⟨ptr, len, .host⟩
  | .cuda deviceId =>
    match pointer with
    | none => .error .cudart
    | some false => .error (.custom "not a device pointer")
    | some true => .ok ⟨ptr, len, .device deviceId none⟩

/-- A region that the device knows, with the rights it was registered with. -/
structure Mr (α : Type) where
  region : MemoryRegion
  access : List α
  key : RemoteKey
  desc : LocalDescriptor
deriving Repr, DecidableEq

/-- The part of a domain that registers memory. `registered` are the regions the device
knows, and `cudaDevice` is the device the worker has selected. -/
structure MrDomain (α : Type) where
  localMrMap : MemoryPtr → Option (Mr α)
  registered : List (Mr α)
  cudaDevice : Nat

namespace MrDomain

variable {α : Type} (state : MrDomain α)

def new (cudaDevice : Nat) : MrDomain α where
  localMrMap _ := none
  registered := []
  cudaDevice := cudaDevice

def getMemDesc (ptr : MemoryPtr) : Except RegisterError LocalDescriptor :=
  match state.localMrMap ptr with
  | some mr => .ok mr.desc
  | none => .error (.custom "Local MR not found")

def unregisterMr (ptr : MemoryPtr) : MrDomain α :=
  match state.localMrMap ptr with
  | some mr => { state with
      localMrMap := Function.update state.localMrMap ptr none
      registered := state.registered.filter fun other => other.key ≠ mr.key }
  | none => state

def byKey (key : RemoteKey) : Option (Mr α) := state.registered.find? fun mr => mr.key = key

def byDesc (desc : LocalDescriptor) : Option (Mr α) := state.registered.find? fun mr => mr.desc = desc

end MrDomain

namespace Efa

inductive Access where
  | send
  | recv
  | write
  | read
  | remoteWrite
  | remoteRead
deriving Repr, DecidableEq

/-- What libfabric answers: the key and the descriptor of a new region, and the codes that
`fi_mr_regattr`, `fi_mr_bind` and `fi_control` return. -/
structure MrAnswer where
  mr : Option (RemoteKey × LocalDescriptor)
  regattr : Int
  bind : Int
  enable : Int
deriving Repr, DecidableEq

/-- The device that is selected for `fi_mr_regattr`. -/
def selectedDevice (cudaDevice : Nat) : Mapping → Nat
  | .device deviceId none => deviceId
  | _ => cudaDevice

/-- A region that could not be bound or enabled is not closed, and the device that was
selected for it stays so. -/
def registerMr (state : MrDomain Access) (region : MemoryRegion) (allowRemote : Bool) (answer : MrAnswer) :
    Except RegisterError RemoteKey × MrDomain Access :=
  match state.localMrMap region.ptr with
  | some mr => (.ok mr.key, state)
  | none =>
    let access := [.send, .recv, .write, .read] ++ if allowRemote then [Access.remoteWrite, .remoteRead] else []
    let selected := { state with cudaDevice := selectedDevice state.cudaDevice region.mapping }
    match answer.mr with
    | none => (.error (.libfabric answer.regattr "fi_mr_regattr"), selected)
    | some (key, desc) =>
      let mr : Mr Access := ⟨region, access, key, desc⟩
      let made := { selected with registered := mr :: state.registered }
      if answer.bind ≠ 0 then (.error (.libfabric answer.bind "fi_mr_bind"), made)
      else if answer.enable ≠ 0 then (.error (.libfabric answer.enable "fi_mr_enable"), made)
      else (.ok key, { made with
        localMrMap := Function.update state.localMrMap region.ptr (some mr)
        cudaDevice := state.cudaDevice })

end Efa

namespace Verbs

inductive Access where
  | localWrite
  | relaxedOrdering
  | remoteRead
  | remoteWrite
deriving Repr, DecidableEq

/-- `answer` has the `rkey` and the `lkey` of a new region. -/
def registerMr (state : MrDomain Access) (region : MemoryRegion) (allowRemote : Bool) (answer : Option (RemoteKey × LocalDescriptor)) :
    Except RegisterError RemoteKey × MrDomain Access :=
  match state.localMrMap region.ptr with
  | some mr => (.ok mr.key, state)
  | none =>
    let access := [.localWrite, .relaxedOrdering] ++ if allowRemote then [Access.remoteRead, .remoteWrite] else []
    let fname := match region.mapping with
      | .device _ (some _) => "ibv_reg_dmabuf_mr"
      | _ => "ibv_reg_mr"
    match answer with
    | none => (.error (.verbs fname), state)
    | some (key, desc) =>
      let mr : Mr Access := ⟨region, access, key, desc⟩
      (.ok key, { state with
        localMrMap := Function.update state.localMrMap region.ptr (some mr)
        registered := mr :: state.registered })

end Verbs

/-- How a provider registers regions: `handle` are the key and the descriptor that an answer
of the device gives to a new region, and `remote` the rights of a remote peer. -/
structure MrProvider (α ε : Type) where
  registerMr : MrDomain α → MemoryRegion → Bool → ε → Except RegisterError RemoteKey × MrDomain α
  handle : ε → Option (RemoteKey × LocalDescriptor)
  remote : List α

def Efa.mrProvider : MrProvider Efa.Access Efa.MrAnswer where
  registerMr := Efa.registerMr
  handle answer := answer.mr
  remote := [.remoteWrite, .remoteRead]

def Verbs.mrProvider : MrProvider Verbs.Access (Option (RemoteKey × LocalDescriptor)) where
  registerMr := Verbs.registerMr
  handle answer := answer
  remote := [.remoteRead, .remoteWrite]

namespace MrProvider

variable {α ε : Type} (provider : MrProvider α ε) (state : MrDomain α)

def registerMrLocal (region : MemoryRegion) (answer : ε) : Except RegisterError Unit × MrDomain α :=
  let (result, next) := provider.registerMr state region false answer
  (result.map fun _ => (), next)

def registerMrAllowRemote (region : MemoryRegion) (answer : ε) : Except RegisterError RemoteKey × MrDomain α :=
  provider.registerMr state region true answer

inductive Call (ε : Type) where
  | registerMrLocal (region : MemoryRegion) (answer : ε)
  | registerMrAllowRemote (region : MemoryRegion) (answer : ε)
  | unregisterMr (ptr : MemoryPtr)

/-- The device gives a new region a key and a descriptor that are not in use. -/
def Fresh (region : MemoryRegion) (answer : ε) : Prop :=
  state.localMrMap region.ptr = none → ∀ key desc, provider.handle answer = some (key, desc) →
    ∀ mr ∈ state.registered, mr.key ≠ key ∧ mr.desc ≠ desc

inductive Step : MrDomain α → Call ε → MrDomain α → Prop where
  | registerMrLocal {state : MrDomain α} {region : MemoryRegion} {answer : ε} (fresh : Fresh provider state region answer) :
      Step state (.registerMrLocal region answer) (provider.registerMrLocal state region answer).2
  | registerMrAllowRemote {state : MrDomain α} {region : MemoryRegion} {answer : ε} (fresh : Fresh provider state region answer) :
      Step state (.registerMrAllowRemote region answer) (provider.registerMrAllowRemote state region answer).2
  | unregisterMr {state : MrDomain α} {ptr : MemoryPtr} : Step state (.unregisterMr ptr) (state.unregisterMr ptr)

inductive Reachable : MrDomain α → Prop where
  | new (cudaDevice : Nat) : Reachable (.new cudaDevice)
  | step {state next : MrDomain α} {call : Call ε} (before : Reachable state) (step : Step provider state call next) : Reachable next

end MrProvider

end PplxGarden.Fabric
