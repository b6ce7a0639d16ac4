import Mathlib.Data.List.Forall2
import PplxGarden.Fabric.EngineInit
import PplxGarden.Library.Loop

/-! The main address is that of the first worker in the list, but receives are posted on the
worker of the smallest device. -/

namespace PplxGarden.Fabric.Proofs
open Library StartedEngine List
variable {worker : Worker} {workers : List (Nat × Worker)}

def firstAddress (worker : Worker) : Option DomainAddress :=
  worker.domainList.head?.bind fun info => info.opened.toOption.map OpenedDomain.addr

/-- The main address is the first address of the worker that receives, and `nets_per_gpu` is
the number of its domains. -/
def MainAdvertised (engine : StartedEngine) : Prop :=
  ∃ device worker, engine.submitRecv = some (device, worker) ∧ worker.addressList.head? = some engine.mainAddress ∧
    engine.netsPerGpu = worker.addressList.length

/-- The first worker in the list has the first address and the number of domains of the
worker with the smallest device, as when it is that worker. -/
def FirstIsMain (workers : List (Nat × Worker)) : Prop :=
  ∃ first ∈ workers.head?, ∃ least ∈ workers, (∀ other ∈ workers, least.1 ≤ other.1) ∧
    firstAddress first.2 = firstAddress least.2 ∧ first.2.domainList.length = least.2.domainList.length

private theorem checkDomains_ok (checked : worker.checkDomains = .ok ()) : worker.domainList.length < 2 ^ 8 := by
  simp only [Worker.checkDomains] at checked
  split at checked
  next =>
    split at checked
    next few => omega
    next => cases checked
  next =>
    split at checked
    next =>
      split at checked
      next few => omega
      next => cases checked
    next => cases checked

private theorem spawn_ok {started : Worker} (done : worker.spawn = .ok started) :
    started = worker ∧ worker.domainList.length < 2 ^ 8 := by
  obtain ⟨_, checked, later⟩ := bind_ok done
  obtain ⟨_, _, returned⟩ := bind_ok later
  cases returned
  exact ⟨rfl, checkDomains_ok checked⟩

private theorem waitInit_ok {handle : WorkerHandle} (done : worker.waitInit = .ok handle) :
    handle.addressList.head? = firstAddress worker ∧ handle.addressList.length = worker.domainList.length := by
  obtain ⟨_, _, later⟩ := bind_ok done
  obtain ⟨domains, opened, watched⟩ := bind_ok later
  obtain ⟨_, _, returned⟩ := bind_ok watched
  cases returned
  have each := mapM_ok opened
  refine ⟨?_, (length_map ..).trans each.length_eq.symm⟩
  rw [firstAddress]
  generalize worker.domainList = infos at each ⊢
  cases each with
  | nil => rfl
  | cons first _ => simp [first, Except.toOption]

structure Initialized (worker : Nat × Worker) (entry : Nat × WorkerHandle) : Prop where
  device : entry.1 = worker.1
  address : entry.2.addressList.head? = firstAddress worker.2
  domains : entry.2.addressList.length = worker.2.domainList.length
  few : worker.2.domainList.length < 2 ^ 8

theorem initializedWorkers_ok {initialized : List (Nat × WorkerHandle)}
    (done : initializedWorkers workers = .ok initialized) : Forall₂ Initialized workers initialized := by
  obtain ⟨spawned, first, second⟩ := bind_ok done
  have started := mapM_ok first
  have waited := mapM_ok second
  clear done first second
  induction started generalizing initialized with
  | nil =>
    cases waited
    exact .nil
  | cons spawns _ ih =>
    cases waited with
    | cons waits rest =>
      refine .cons ?_ (ih rest)
      obtain ⟨started, spawned, same⟩ := bind_ok spawns
      cases same
      obtain ⟨handle, opened, same⟩ := bind_ok waits
      cases same
      obtain ⟨rfl, few⟩ := spawn_ok spawned
      obtain ⟨address, domains⟩ := waitInit_ok opened
      exact ⟨rfl, address, domains, few⟩

theorem new_ok {engine : StartedEngine} (started : StartedEngine.new workers = some (.ok engine)) :
    ∃ initialized first, Forall₂ Initialized workers initialized ∧
      engine.workers = .ofList initialized ∧ workers.head? = some first ∧
      firstAddress first.2 = some engine.mainAddress ∧
        engine.netsPerGpu = first.2.domainList.length := by
  unfold StartedEngine.new at started
  split at started
  next => cases started
  next initialized done =>
    have each := initializedWorkers_ok done
    obtain ⟨_, made, same⟩ := Option.map_eq_some_iff.mp started
    cases same
    cases each with
    | nil => cases made
    | cons head rest =>
      obtain ⟨mainAddress, found, same⟩ := Option.bind_eq_some_iff.mp made
      cases same
      refine ⟨_, _, .cons head rest, rfl, rfl, head.address.symm.trans found, ?_⟩
      simp only [head.domains]
      exact Nat.mod_eq_of_lt head.few

theorem first_initialized {initialized : List (Nat × WorkerHandle)}
    (each : Forall₂ Initialized workers initialized) (distinct : (workers.map Prod.fst).Nodup)
    (nonempty : workers ≠ []) :
    ∃ entry, (SortedMap.ofList initialized).first? = some entry ∧
      ∃ least ∈ workers, Initialized least entry ∧ ∀ other ∈ workers, least.1 ≤ other.1 := by
  have devices : workers.map Prod.fst = initialized.map Prod.fst := by
    rw [← forall₂_eq_eq_eq, forall₂_map_left_iff, forall₂_map_right_iff]
    exact each.imp fun _ _ made => made.device.symm
  have perm := SortedMap.ofList_perm (devices ▸ distinct)
  cases found : (SortedMap.ofList initialized).first? with
  | none =>
    rw [SortedMap.first?, head?_eq_none_iff] at found
    rw [found, nil_perm] at perm
    rw [perm, map_nil, map_eq_nil_iff] at devices
    exact absurd devices nonempty
  | some entry =>
    obtain ⟨member, below⟩ := SortedMap.first_least found
    obtain ⟨least, listed, made⟩ := forall₂_mem each.flip (perm.mem_iff.mp member)
    refine ⟨entry, rfl, least, listed, made, ?_⟩
    intro other known
    obtain ⟨later, listed', made'⟩ := forall₂_mem each known
    rw [← made.device, ← made'.device]
    exact below later (perm.mem_iff.mpr listed')

theorem mainAdvertised_iff {workers : List (Nat × Worker)} {engine : StartedEngine}
    (distinct : (workers.map Prod.fst).Nodup)
    (started : StartedEngine.new workers = some (.ok engine)) :
    MainAdvertised engine ↔ FirstIsMain workers := by
  obtain ⟨initialized, first, each, entries, head, address, domains⟩ := new_ok started
  obtain ⟨entry, found, least, listed, made, below⟩ := first_initialized each distinct (by rintro rfl; cases head)
  have receives : engine.submitRecv = some entry := by rw [StartedEngine.submitRecv, getMainWorker, entries, found]
  constructor
  · rintro ⟨device, worker, receives', address', domains'⟩
    rw [receives] at receives'
    cases receives'
    exact ⟨first, head, least, listed, below, address.trans (address'.symm.trans made.address),
      domains.symm.trans (domains'.trans made.domains)⟩
  · rintro ⟨first', head', least', listed', below', address', domains'⟩
    have same := Option.some.inj (head.symm.trans head')
    have same' : least' = least := inj_on_of_nodup_map distinct listed' listed
      (Nat.le_antisymm (below' least listed) (below least' listed'))
    rw [← same, same'] at address' domains'
    exact ⟨entry.1, entry.2, receives, made.address.trans (address'.symm.trans address),
      domains.trans (domains'.trans made.domains.symm)⟩

/-- Among workers with different addresses the first one listed must have the smallest device. -/
theorem firstIsMain_iff_smallest {first : Nat × Worker} {rest : List (Nat × Worker)}
    (different : ∀ other ∈ rest, firstAddress first.2 ≠ firstAddress other.2) :
    FirstIsMain (first :: rest) ↔ ∀ other ∈ rest, first.1 ≤ other.1 := by
  constructor
  · rintro ⟨_, head, least, listed, below, address, -⟩ other member
    cases head
    cases listed with
    | head => exact below other (mem_cons_of_mem _ member)
    | tail _ later => exact absurd address (different least later)
  · intro smallest
    exact ⟨first, rfl, first, mem_cons_self .., forall_mem_cons.mpr ⟨Nat.le_refl _, smallest⟩, rfl, rfl⟩

def oneDomain (addr : DomainAddress) : Worker := ⟨[.efa (.ok ⟨addr, 100⟩)], .ok (), .ok (), .ok ()⟩

theorem mainAdvertised_two :
    ∃ engine, StartedEngine.new [(0, oneDomain 10), (1, oneDomain 11)] = some (.ok engine) ∧
      MainAdvertised engine := by
  have distinct : ([(0, oneDomain 10), (1, oneDomain 11)].map Prod.fst).Nodup := by decide
  have different : ∀ other ∈ [(1, oneDomain 11)], firstAddress (oneDomain 10) ≠ firstAddress other.2 := by decide
  refine ⟨_, rfl, (mainAdvertised_iff distinct rfl).mpr ((firstIsMain_iff_smallest different).mpr ?_)⟩
  decide

/-- Device 1 is listed before device 0: peers are told the address of device 1, but receives
are posted on device 0. -/
theorem main_address_elsewhere :
    ∃ engine, StartedEngine.new [(1, oneDomain 11), (0, oneDomain 10)] = some (.ok engine) ∧ engine.mainAddress = 11 ∧
      engine.submitRecv = some (0, ⟨[10], 100⟩) ∧ ¬ MainAdvertised engine := by
  refine ⟨_, rfl, rfl, rfl, ?_⟩
  rintro ⟨_, _, receives, address, _⟩
  cases receives
  cases address

end PplxGarden.Fabric.Proofs
