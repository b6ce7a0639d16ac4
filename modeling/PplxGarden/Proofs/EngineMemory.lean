import PplxGarden.Fabric.EngineMemory

/-! What unregistering undoes. The main worker forgets the pointer; the other workers and the
map of the devices do not. -/

namespace PplxGarden.Fabric.Proofs.EngineMemory
open FabricEngine Function List

variable {α ε : Type} {provider : MrProvider α ε}
variable {ptr : MemoryPtr}

private theorem unregisterMr_forgets (domain : MrDomain α) (ptr : MemoryPtr) :
    (domain.unregisterMr ptr).localMrMap ptr = none := by
  unfold MrDomain.unregisterMr
  split
  next => exact update_self ..
  next unknown => exact unknown

/-- A domain of the worker finds a region by the pointer. -/
def Holds (worker : Nat × MrGroup α) (ptr : MemoryPtr) : Prop := ∃ domain ∈ worker.2, domain.2.localMrMap ptr ≠ none

theorem unregisterMemory_workers (engine : FabricEngine α) (ptr : MemoryPtr) :
    (engine.unregisterMemory ptr).workers =
      (engine.getMainWorker.1, engine.getMainWorker.2.unregisterMr ptr) :: engine.workers.tail := by
  obtain ⟨workers, mrDeviceMap, ordered, nonempty⟩ := engine
  cases workers with
  | nil => exact absurd rfl nonempty
  | cons main others =>
    rw [map_cons, pairwise_cons] at ordered
    simp only [unregisterMemory, setWorker, replaceWorker, getMainWorker, head_cons, map_cons,
      if_true, tail_cons, List.cons.injEq, true_and]
    rw [map_congr_left (g := id), map_id]
    intro worker member
    have later := ordered.1 worker.1 (mem_map_of_mem member)
    exact if_neg (Nat.ne_of_gt later)

/-- No domain of any worker finds a region by the pointer. -/
def Cleared (engine : FabricEngine α) (ptr : MemoryPtr) : Prop := ∀ worker ∈ engine.workers, ¬ Holds worker ptr

theorem cleared_iff (engine : FabricEngine α) (ptr : MemoryPtr) :
    Cleared (engine.unregisterMemory ptr) ptr ↔ ∀ worker ∈ engine.workers.tail, ¬ Holds worker ptr := by
  rw [Cleared, unregisterMemory_workers, forall_mem_cons, and_iff_right]
  rintro ⟨domain, member, found⟩
  obtain ⟨before, -, rfl⟩ := mem_map.mp member
  exact found (unregisterMr_forgets _ _)

def sourceMr : TransferRequest → Option MemoryPtr
  | .single request => some request.srcMr
  | .paged request => some request.srcMr
  | .scatter request => some request.srcMr
  | _ => none

def Rejects (engine : FabricEngine α) (ptr : MemoryPtr) : Prop :=
  ∀ request, sourceMr request = some ptr → ∃ error, engine.submitTransfer request = .error error

private theorem submitTransfer_source (engine : FabricEngine α) {request : TransferRequest}
    (source : sourceMr request = some ptr) :
    engine.submitTransfer request = engine.getWorkerByMr ptr := by
  cases request with
  | imm request => cases source
  | barrier request => cases source
  | single request => cases source; rfl
  | paged request => cases source; rfl
  | scatter request => cases source; rfl

def Served (devices : List Nat) : Device → Prop
  | .host => True
  | .cuda deviceId => deviceId ∈ devices

theorem getWorker_isOk_iff (engine : FabricEngine α) (device : Device) :
    (∃ worker, engine.getWorker device = .ok worker) ↔ Served (engine.workers.map Prod.fst) device := by
  cases device with
  | host => exact iff_of_true ⟨_, rfl⟩ trivial
  | cuda deviceId =>
    simp only [getWorker, Served, mem_map]
    cases found : engine.workers.find? fun worker => worker.1 = deviceId with
    | none =>
      constructor
      · rintro ⟨worker, same⟩
        cases same
      · rintro ⟨worker, member, same⟩
        exact absurd (decide_eq_true same) (by simpa using find?_eq_none.mp found worker member)
    | some worker =>
      have same := find?_some found
      exact iff_of_true ⟨worker, rfl⟩ ⟨worker, mem_of_find?_eq_some found, of_decide_eq_true same⟩

/-- What a call does to the map of the devices: a registration that succeeds adds the
device, whose worker exists. -/
inductive Remembers (provider : MrProvider α ε) (engine : FabricEngine α) (call : Call ε) (next : FabricEngine α) : Prop where
  | same (unchanged : next.mrDeviceMap = engine.mrDeviceMap) (fails : call.registers ≠ none →
    engine.succeeds provider call = false)
  | added (ptr : MemoryPtr) (device : Device) (served : Served (engine.workers.map Prod.fst) device)
    (registers : call.registers = some ptr)
      (changed : next.mrDeviceMap = update engine.mrDeviceMap ptr (some device))
        (succeeds : engine.succeeds provider call = true)

theorem registerMemory_effect {β : Type} (engine : FabricEngine α) (ptr : MemoryPtr) (len : Nat)
    (device : Device) (pointer : Option Bool)
    (call : MemoryRegion → MrGroup α → Except RegisterError β × MrGroup α) :
    (engine.registerMemory ptr len device pointer call).2.workers.map Prod.fst =
      engine.workers.map Prod.fst ∧
      if (engine.registerMemory ptr len device pointer call).1.isOk then
        Served (engine.workers.map Prod.fst) device ∧
          (engine.registerMemory ptr len device pointer call).2.mrDeviceMap =
            update engine.mrDeviceMap ptr (some device)
      else (engine.registerMemory ptr len device pointer call).2.mrDeviceMap =
        engine.mrDeviceMap := by
  unfold registerMemory
  split
  next => exact ⟨rfl, rfl⟩
  next deviceId group found =>
    have served := (getWorker_isOk_iff engine device).mp ⟨_, found⟩
    split
    next => exact ⟨rfl, rfl⟩
    next =>
      split
      next => exact ⟨replaceWorker_devices .., rfl⟩
      next => exact ⟨replaceWorker_devices .., served, rfl⟩

theorem call_effect (provider : MrProvider α ε) (engine : FabricEngine α) (call : Call ε) :
    (engine.call provider call).workers.map Prod.fst = engine.workers.map Prod.fst ∧
      Remembers provider engine call (engine.call provider call) := by
  cases call with
  | unregisterMemory ptr => exact ⟨replaceWorker_devices .., .same rfl fun registers => absurd rfl registers⟩
  | registerMemoryLocal ptr len device pointer answers =>
    obtain ⟨devices, effect⟩ := registerMemory_effect engine ptr len device pointer fun region group =>
      MrGroup.registerMrLocal provider region group answers
    refine ⟨devices, ?_⟩
    split at effect
    next succeeds => exact .added ptr device effect.1 rfl effect.2 succeeds
    next fails => exact .same effect fun _ => Bool.not_eq_true _ ▸ fails
  | registerMemoryAllowRemote ptr len device pointer answers =>
    obtain ⟨devices, effect⟩ := registerMemory_effect engine ptr len device pointer fun region group =>
      MrGroup.registerMrAllowRemote provider region group answers
    refine ⟨devices, ?_⟩
    split at effect
    next succeeds => exact .added ptr device effect.1 rfl effect.2 succeeds
    next fails => exact .same effect fun _ => Bool.not_eq_true _ ▸ fails

/-- One of the calls registers the pointer and returns `Ok`. -/
def Registers (provider : MrProvider α ε) (ptr : MemoryPtr) : FabricEngine α → List (Call ε) → Prop
  | _, [] => False
  | engine, call :: calls =>
    (call.registers = some ptr ∧ engine.succeeds provider call = true) ∨
      Registers provider ptr (engine.call provider call) calls

/-- The engine remembers a device for the pointers that were registered, whose worker
exists. -/
theorem calls_remember (provider : MrProvider α ε) (ptr : MemoryPtr) (engine : FabricEngine α)
    (calls : List (Call ε))
    (served : ∀ device, engine.mrDeviceMap ptr = some device →
      Served (engine.workers.map Prod.fst) device) :
    ((engine.calls provider calls).mrDeviceMap ptr = none ↔ engine.mrDeviceMap ptr = none ∧
      ¬ Registers provider ptr engine calls) ∧
      ∀ device, (engine.calls provider calls).mrDeviceMap ptr = some device →
        Served ((engine.calls provider calls).workers.map Prod.fst) device := by
  induction calls generalizing engine with
  | nil => exact ⟨(and_iff_left not_false).symm, served⟩
  | cons call calls ih =>
    obtain ⟨devices, effect⟩ := call_effect provider engine call
    have later := ih (engine.call provider call)
    cases effect with
    | same unchanged fails =>
      have idle : ¬ (call.registers = some ptr ∧ engine.succeeds provider call = true) := by
        rintro ⟨registers, succeeds⟩
        rw [fails (registers ▸ Option.some_ne_none ptr)] at succeeds
        cases succeeds
      rw [unchanged, devices] at later
      rw [Registers, or_iff_right idle]
      exact later served
    | added place device at_ registers changed succeeds =>
      rw [changed, devices] at later
      by_cases here : ptr = place
      · subst here
        rw [update_self] at later
        obtain ⟨none_, serves⟩ := later fun other same => Option.some.inj same ▸ at_
        refine ⟨none_.trans (iff_of_false (fun both => by cases both.1) fun both =>
          both.2 (Or.inl ⟨registers, succeeds⟩)), serves⟩
      · have idle : ¬ (call.registers = some ptr ∧ engine.succeeds provider call = true) := by
          rintro ⟨others, -⟩
          rw [registers] at others
          exact here (Option.some.inj others).symm
        rw [update_of_ne here] at later
        rw [Registers, or_iff_right idle]
        exact later served

/-- Unregistering the pointer has undone its registration. -/
def Undone (provider : MrProvider α ε) (engine : FabricEngine α) (ptr : MemoryPtr) : Prop :=
  Cleared engine ptr ∧ ∀ later : List (Call ε), (∀ call ∈ later, call.registers ≠ some ptr) →
    Rejects (engine.calls provider later) ptr

theorem rejects_iff {engine : FabricEngine α}
    (served : ∀ device, engine.mrDeviceMap ptr = some device → Served (engine.workers.map Prod.fst) device) :
    Rejects engine ptr ↔ engine.mrDeviceMap ptr = none := by
  constructor
  · intro rejects
    cases known : engine.mrDeviceMap ptr with
    | none => rfl
    | some device =>
      obtain ⟨error, refused⟩ := rejects (.single ⟨ptr, 0, 0, none, ⟨0, []⟩, 0, .pinned 0⟩) rfl
      obtain ⟨worker, found⟩ := (getWorker_isOk_iff engine device).mpr (served device known)
      rw [submitTransfer_source engine rfl, getWorkerByMr, known] at refused
      exact absurd (refused.symm.trans found) (fun same => by cases same)
  · intro unknown request source
    exact ⟨_, by rw [submitTransfer_source engine source, getWorkerByMr, unknown]⟩

private theorem not_registers {engine : FabricEngine α} {calls : List (Call ε)}
    (others : ∀ call ∈ calls, call.registers ≠ some ptr) :
    ¬ Registers provider ptr engine calls := by
  induction calls generalizing engine with
  | nil => exact not_false
  | cons call calls ih =>
    rw [forall_mem_cons] at others
    rintro (now | later)
    · exact others.1 now.1
    · exact ih others.2 later

/-- Unregistering undoes a registration only where there is none to undo: when no worker but
the main one finds a region by the pointer and it was never registered with success. -/
theorem unregister_undone_iff (provider : MrProvider α ε) (workers : List (Nat × MrGroup α))
    (ordered : (workers.map Prod.fst).Pairwise (· < ·)) (nonempty : workers ≠ [])
    (calls : List (Call ε)) (ptr : MemoryPtr) :
    Undone provider (((FabricEngine.new workers ordered nonempty).calls provider
      calls).unregisterMemory ptr) ptr ↔
      (∀ worker ∈ ((FabricEngine.new workers ordered nonempty).calls provider calls).workers.tail,
        ¬ Holds worker ptr) ∧
        ¬ Registers provider ptr (.new workers ordered nonempty) calls := by
  obtain ⟨registered, served⟩ := calls_remember provider ptr (.new workers ordered nonempty)
    calls fun device known => (by cases known)
  rw [and_iff_right (show (FabricEngine.new workers ordered nonempty).mrDeviceMap ptr = none from rfl)] at registered
  rw [Undone, cleared_iff, ← registered]
  refine and_congr_right fun _ => ?_
  generalize (FabricEngine.new workers ordered nonempty).calls provider calls = engine at served ⊢
  have serves : ∀ device, (engine.unregisterMemory ptr).mrDeviceMap ptr = some device →
      Served ((engine.unregisterMemory ptr).workers.map Prod.fst) device := by
    intro device known
    rw [show (engine.unregisterMemory ptr).workers.map Prod.fst = _ from replaceWorker_devices ..]
    exact served device known
  constructor
  · intro rejects
    exact (rejects_iff serves).mp (rejects [] fun call member => (by cases member))
  · intro unknown later others
    obtain ⟨none_, after⟩ := calls_remember provider ptr (engine.unregisterMemory ptr) later serves
    exact (rejects_iff after).mpr (none_.mpr ⟨unknown, not_registers others⟩)

def twoWorkers : List (Nat × MrGroup Verbs.Access) := [(0, [(10, .new 0)]), (1, [(11, .new 1)])]

private theorem twoWorkers_ordered : (twoWorkers.map Prod.fst).Pairwise (· < ·) := by decide

private theorem twoWorkers_nonempty : twoWorkers ≠ [] := cons_ne_nil _ _

def twoWorkerEngine : FabricEngine Verbs.Access := .new twoWorkers twoWorkers_ordered twoWorkers_nonempty

/-- Another pointer is registered on the second device, and this one fails to be on the host. -/
def othersRegistered : List (Call (Option (RemoteKey × LocalDescriptor))) :=
  [.registerMemoryLocal 8192 64 (.cuda 1) (some true) fun _ => some (7, 8),
    .registerMemoryLocal 4096 64 .host none fun _ => none]

theorem unregister_undone_unknown :
    Undone Verbs.mrProvider ((twoWorkerEngine.calls Verbs.mrProvider
      othersRegistered).unregisterMemory 4096) 4096 := by
  refine (unregister_undone_iff Verbs.mrProvider twoWorkers twoWorkers_ordered twoWorkers_nonempty
    othersRegistered 4096).mpr ⟨?_, ?_⟩
  · intro worker member
    obtain rfl := mem_singleton.mp member
    rintro ⟨domain, listed, found⟩
    obtain rfl := mem_singleton.mp listed
    exact found rfl
  · rintro (first | second | none_)
    · exact absurd first.1 (by decide)
    · exact Bool.false_ne_true second.2
    · exact none_

/-- A region of the second device stays with its worker, and transfers from a region are
accepted after it was unregistered, wherever it was. -/
theorem unregister_leaves :
    (∃ engine, engine = (twoWorkerEngine.registerMemoryLocal Verbs.mrProvider 4096 64 (.cuda 1)
      (some true) fun _ => some (7, 8)).2 ∧
      ¬ Cleared (engine.unregisterMemory 4096) 4096) ∧
    ∃ engine, engine = (twoWorkerEngine.registerMemoryLocal Verbs.mrProvider 4096 64 .host
      none fun _ => some (7, 8)).2 ∧
      Cleared (engine.unregisterMemory 4096) 4096 ∧
        ¬ Rejects (engine.unregisterMemory 4096) 4096 := by
  refine ⟨⟨_, rfl, fun cleared => ?_⟩, _, rfl, (cleared_iff _ _).mpr ?_, fun rejects => ?_⟩
  · exact (cleared_iff _ _).mp cleared _ (mem_singleton_self _) ⟨_, mem_singleton_self _, Option.some_ne_none _⟩
  · intro worker member
    obtain rfl := mem_singleton.mp member
    rintro ⟨domain, listed, found⟩
    obtain rfl := mem_singleton.mp listed
    exact found rfl
  · obtain ⟨error, refused⟩ := rejects (.single ⟨4096, 0, 64, none, ⟨0, []⟩, 0, .pinned 0⟩) rfl
    cases refused

end PplxGarden.Fabric.Proofs.EngineMemory
