import PplxGarden.Fabric.EngineMemory
import Mathlib.Data.List.Forall2

/-! What a registration that fails leaves behind. Nothing is closed and no device is
selected again on the way out, so only a call that fails before it has done anything is
undone. -/

namespace PplxGarden.Fabric.Proofs.Rollback
open Efa List
variable {region : MemoryRegion}

/-- A domain as a registration finds it and as it leaves it. -/
structure Unchanged (before after : DomainAddress × MrDomain Access) : Prop where
  localMrMap : after.2.localMrMap = before.2.localMrMap
  registered : after.2.registered = before.2.registered

structure RolledBack (before after : MrThread Access) : Prop where
  domains : Forall₂ Unchanged before.domains after.domains
  cudaDevice : after.cudaDevice = before.cudaDevice

/-- The first domain that does not know the region fails to register it, without another
device having been selected. -/
def FailsFirst (region : MemoryRegion) (answers : Nat → MrAnswer) (cudaDevice : Nat)
    (domains : MrGroup Access) (k : Nat) : Prop :=
  ∃ done addr domain rest, domains = done ++ (addr, domain) :: rest ∧
    (∀ entry ∈ done, entry.2.localMrMap region.ptr ≠ none) ∧
    domain.localMrMap region.ptr = none ∧ (answers (k + done.length)).mr = none ∧
      selectedDevice cudaDevice region.mapping = cudaDevice

section FailsFirst
variable {region : MemoryRegion} {answers : Nat → MrAnswer} {cudaDevice k : Nat} {addr : DomainAddress} {domain : MrDomain Access} {rest : MrGroup Access}

theorem failsFirst_known (found : domain.localMrMap region.ptr ≠ none) :
    FailsFirst region answers cudaDevice ((addr, domain) :: rest) k ↔
      FailsFirst region answers cudaDevice rest (k + 1) := by
  constructor
  · rintro ⟨done, other, failing, later, whole, known, unknown, failed, selected⟩
    cases done with
    | nil =>
      cases whole
      exact absurd unknown found
    | cons first done =>
      cases whole
      refine ⟨done, other, failing, later, rfl, fun entry member =>
        known entry (mem_cons_of_mem _ member), unknown, ?_, selected⟩
      rwa [length_cons, Nat.add_comm done.length, ← Nat.add_assoc] at failed
  · rintro ⟨done, other, failing, later, rfl, known, unknown, failed, selected⟩
    refine ⟨(addr, domain) :: done, other, failing, later, rfl, forall_mem_cons.mpr ⟨found, known⟩, unknown, ?_, selected⟩
    rwa [length_cons, Nat.add_comm done.length, ← Nat.add_assoc]

theorem failsFirst_unknown (unknown : domain.localMrMap region.ptr = none) :
    FailsFirst region answers cudaDevice ((addr, domain) :: rest) k ↔ (answers k).mr = none ∧
      selectedDevice cudaDevice region.mapping = cudaDevice := by
  constructor
  · rintro ⟨done, other, failing, later, whole, known, _, failed, selected⟩
    cases done with
    | nil =>
      cases whole
      exact ⟨failed, selected⟩
    | cons first done =>
      cases whole
      exact absurd unknown (known _ (mem_cons_self ..))
  · rintro ⟨failed, selected⟩
    exact ⟨[], addr, domain, rest, rfl, nofun, unknown, failed, selected⟩

end FailsFirst

/-- How a domain registers a region: it knows it, libfabric does not make it, it is made and
left open, or it is kept. -/
inductive Outcome (state : MrDomain Access) (region : MemoryRegion) (answer : MrAnswer) : Except RegisterError β → MrDomain Access → Prop where
  | known {value} (found : state.localMrMap region.ptr ≠ none) : Outcome state region answer (.ok value) state
  | refused {error} (unknown : state.localMrMap region.ptr = none) (failed : answer.mr = none) :
      Outcome state region answer (.error error) { state with cudaDevice := selectedDevice state.cudaDevice region.mapping }
  | leftOpen {error mr cudaDevice} (unknown : state.localMrMap region.ptr = none) (made : answer.mr ≠ none) :
      Outcome state region answer (.error error) { state with registered := mr :: state.registered, cudaDevice }
  | kept {value mr} (unknown : state.localMrMap region.ptr = none) (made : answer.mr ≠ none) :
      Outcome state region answer (.ok value) { state with
        localMrMap := Function.update state.localMrMap region.ptr (some mr)
        registered := mr :: state.registered }

theorem registerMr_outcome (state : MrDomain Access) (region : MemoryRegion) (allowRemote : Bool)
    (answer : MrAnswer) :
    Outcome state region answer (Efa.registerMr state region allowRemote answer).1
      (Efa.registerMr state region allowRemote answer).2 := by
  unfold Efa.registerMr
  split
  next mr found => exact .known (by simp [found])
  next unknown =>
    dsimp only
    split
    next failed => exact .refused unknown failed
    next made =>
      have some := Option.ne_none_iff_exists'.mpr ⟨_, made⟩
      split
      next => exact .leftOpen unknown some
      next =>
        split
        next => exact .leftOpen unknown some
        next => exact .kept unknown some

theorem Outcome.map {state after : MrDomain Access} {answer : MrAnswer}
    {result : Except RegisterError β} (outcome : Outcome state region answer result after)
    (change : β → γ) : Outcome state region answer (result.map change) after := by
  cases outcome with
  | known found => exact .known found
  | refused unknown failed => exact .refused unknown failed
  | leftOpen unknown made => exact .leftOpen unknown made
  | kept unknown made => exact .kept unknown made

private theorem local_outcome (domain : MrDomain Access) (region : MemoryRegion)
    (answer : MrAnswer) :
    Outcome domain region answer (mrProvider.registerMrLocal domain region answer).1
      (mrProvider.registerMrLocal domain region answer).2 :=
  (registerMr_outcome domain region false answer).map _

private theorem remote_outcome (domain : MrDomain Access) (region : MemoryRegion)
    (answer : MrAnswer) :
    Outcome domain region answer (mrProvider.registerMrAllowRemote domain region answer).1
      (mrProvider.registerMrAllowRemote domain region answer).2 :=
  registerMr_outcome domain region true answer

private theorem unchanged_refl (domains : MrGroup Access) : Forall₂ Unchanged domains domains :=
  forall₂_same.mpr fun _ _ => ⟨rfl, rfl⟩

theorem rolledBack_cons {first last : DomainAddress × MrDomain Access}
    {before after : MrGroup Access} {cudaDevice later : Nat} :
    RolledBack ⟨first :: before, cudaDevice⟩ ⟨last :: after, later⟩ ↔ Unchanged first last ∧
      RolledBack ⟨before, cudaDevice⟩ ⟨after, later⟩ := by
  constructor
  · rintro ⟨domains, device⟩
    obtain ⟨head, tail⟩ := forall₂_cons.mp domains
    exact ⟨head, tail, device⟩
  · rintro ⟨head, tail, device⟩
    exact ⟨.cons head tail, device⟩

theorem map_eq_error {result : Except ε α} {change : α → β} {error : ε}
    (failed : result.map change = .error error) : result = .error error := by
  cases result with
  | error => exact congrArg Except.error (Except.error.inj failed)
  | ok => cases failed

section RegisterEach
variable {register : MrDomain Access → Nat → Except RegisterError β × MrDomain Access} {k cudaDevice : Nat} {addr : DomainAddress}
  {domain next : MrDomain Access} {rest : MrGroup Access}

private theorem registerEach_error {error : RegisterError}
    (ran : register { domain with cudaDevice } k = (.error error, next)) :
    MrThread.registerEach register k cudaDevice ((addr, domain) :: rest) =
      (.error error, ⟨(addr, next) :: rest, next.cudaDevice⟩) := by
  rw [MrThread.registerEach, ran]

private theorem registerEach_ok {value : β} (ran : register { domain with cudaDevice } k = (.ok value, next)) :
    MrThread.registerEach register k cudaDevice ((addr, domain) :: rest) =
      ((MrThread.registerEach register (k + 1) next.cudaDevice rest).1.map ((addr, value) :: ·),
        ⟨(addr, next) :: (MrThread.registerEach register (k + 1) next.cudaDevice rest).2.domains,
          (MrThread.registerEach register (k + 1) next.cudaDevice rest).2.cudaDevice⟩) := by
  rw [MrThread.registerEach, ran]

end RegisterEach

theorem registerEach_rolledBack
    {register : MrDomain Access → Nat → Except RegisterError β × MrDomain Access}
    {answers : Nat → MrAnswer}
    (outcomes : ∀ domain k, Outcome domain region (answers k) (register domain k).1
      (register domain k).2) {k cudaDevice : Nat} {domains : MrGroup Access} {error : RegisterError}
    (failed : (MrThread.registerEach register k cudaDevice domains).1 = .error error) :
    RolledBack ⟨domains, cudaDevice⟩ (MrThread.registerEach register k cudaDevice domains).2 ↔
      FailsFirst region answers cudaDevice domains k := by
  induction domains generalizing k with
  | nil => cases failed
  | cons entry rest ih =>
    obtain ⟨addr, domain⟩ := entry
    have outcome := outcomes { domain with cudaDevice } k
    generalize ran : register { domain with cudaDevice } k = outcome' at outcome
    obtain ⟨result, next⟩ := outcome'
    cases outcome with
    | known found =>
      rw [registerEach_ok ran] at failed ⊢
      rw [rolledBack_cons, failsFirst_known (show domain.localMrMap region.ptr ≠ none from found),
        ← ih (map_eq_error failed)]
      exact and_iff_right ⟨rfl, rfl⟩
    | refused unknown refused =>
      rw [registerEach_error ran, rolledBack_cons,
        failsFirst_unknown (show domain.localMrMap region.ptr = none from unknown)]
      constructor
      · rintro ⟨_, _, device⟩
        exact ⟨refused, device⟩
      · rintro ⟨_, device⟩
        exact ⟨⟨rfl, rfl⟩, unchanged_refl rest, device⟩
    | leftOpen unknown made =>
      -- The region was made, and nothing closes it.
      rw [registerEach_error ran, rolledBack_cons,
        failsFirst_unknown (show domain.localMrMap region.ptr = none from unknown)]
      exact iff_of_false (fun undone => cons_ne_self _ _ undone.1.registered) fun clean => made clean.1
    | kept unknown made =>
      rw [registerEach_ok ran, rolledBack_cons, failsFirst_unknown (show domain.localMrMap region.ptr = none from unknown)]
      exact iff_of_false (fun undone => cons_ne_self _ _ undone.1.registered) fun clean => made clean.1

/-- A registration that fails is undone exactly if it fails first. -/
theorem failed_registration (thread : MrThread Access) (region : MemoryRegion)
    (answers : Nat → MrAnswer) :
    (∀ error, (thread.registerMrLocal mrProvider region answers).1 = .error error →
      (RolledBack thread (thread.registerMrLocal mrProvider region answers).2 ↔
        FailsFirst region answers thread.cudaDevice thread.domains 0)) ∧
    ∀ error, (thread.registerMrAllowRemote mrProvider region answers).1 = .error error →
      (RolledBack thread (thread.registerMrAllowRemote mrProvider region answers).2 ↔
        FailsFirst region answers thread.cudaDevice thread.domains 0) := by
  constructor
  · intro error failed
    exact registerEach_rolledBack (fun domain k => local_outcome domain region (answers k)) (map_eq_error failed)
  · intro error failed
    exact registerEach_rolledBack (fun domain k => remote_outcome domain region (answers k)) (map_eq_error failed)

/-- Two domains, of which the first has a region registered. -/
def knownToFirst (region : MemoryRegion) : MrThread Access where
  domains := [(5, ⟨fun ptr => if ptr = region.ptr then some ⟨region, [], 1, 1⟩ else none,
    [⟨region, [], 1, 1⟩], 0⟩), (6, .new 0)]
  cudaDevice := 0

/-- The second domain fails to register the region at once. -/
theorem failed_registration_second : ∃ error after,
    (knownToFirst ⟨4096, 64, .host⟩).registerMrLocal mrProvider ⟨4096, 64, .host⟩ (fun _ =>
      ⟨none, -12, 0, 0⟩) = (.error error, after) ∧
      RolledBack (knownToFirst ⟨4096, 64, .host⟩) after := by
  refine ⟨_, _, rfl, ((failed_registration (knownToFirst ⟨4096, 64, .host⟩) ⟨4096, 64, .host⟩ fun _ => ⟨none, -12, 0, 0⟩).1
    (.libfabric (-12) "fi_mr_regattr") rfl).mpr ?_⟩
  refine ⟨[_], 6, .new 0, [], rfl, ?_, rfl, rfl, rfl⟩
  intro entry member
  rw [mem_singleton.mp member]
  exact Option.some_ne_none _

/-- A device region on two domains, of which the second does not bind it: the first domain
keeps the region, the second leaves its own open, and the thread stays on the other device. -/
theorem registration_left :
    ∃ after : MrThread Access,
      MrThread.registerMrLocal mrProvider ⟨4096, 64, .device 1 none⟩ ⟨[(5, .new 0), (6, .new 0)], 0⟩
          (fun k => if k = 0 then ⟨some (1, 1), 0, 0, 0⟩ else ⟨some (2, 2), 0, -22, 0⟩) =
            (.error (.libfabric (-22) "fi_mr_bind"), after) ∧
        after.domains.map (fun entry => (entry.2.localMrMap 4096).map Mr.key) = [some 1, none] ∧
        after.domains.map (fun entry => entry.2.registered.map Mr.key) = [[1], [2]] ∧
          after.cudaDevice = 1 :=
  ⟨_, rfl, rfl, rfl, rfl⟩

section Group
variable {α β : Type} {register : MrDomain α → Nat → Except RegisterError β × MrDomain α}

def onDevice (cudaDevice : Nat) (entry : DomainAddress × MrDomain α) : DomainAddress × MrDomain α :=
  (entry.1, { entry.2 with cudaDevice })

/-- The domains of a thread register like domains that each have the device selected, since
a registration that succeeds selects the first device again. -/
theorem registerEach_onDevice
    (restores : ∀ domain k value next, register domain k = (.ok value, next) →
      next.cudaDevice = domain.cudaDevice) (k cudaDevice : Nat) (domains : MrGroup α) :
    (MrThread.registerEach register k cudaDevice domains).1 =
      (MrGroup.registerEach register k (domains.map (onDevice cudaDevice))).1 ∧
      (MrThread.registerEach register k cudaDevice domains).2.domains.map (onDevice cudaDevice) =
        (MrGroup.registerEach register k (domains.map (onDevice cudaDevice))).2.map
          (onDevice cudaDevice) := by
  induction domains generalizing k with
  | nil => exact ⟨rfl, rfl⟩
  | cons entry rest ih =>
    obtain ⟨addr, domain⟩ := entry
    rw [map_cons, onDevice, MrThread.registerEach, MrGroup.registerEach]
    generalize ran : register { domain with cudaDevice } k = outcome
    obtain ⟨result, next⟩ := outcome
    cases result with
    | error error =>
      refine ⟨rfl, ?_⟩
      simp [onDevice, Function.comp_def]
    | ok value =>
      have device : next.cudaDevice = cudaDevice := restores _ _ _ _ ran
      obtain ⟨results, domains⟩ := ih (k + 1)
      simp only [device, results, map_cons, domains, and_self]

end Group

theorem Outcome.restores {state next : MrDomain Access} {answer : MrAnswer} {value : β}
    (outcome : Outcome state region answer (.ok value) next) : next.cudaDevice = state.cudaDevice := by
  cases outcome with
  | known => rfl
  | kept => rfl

/-- A thread and a group whose domains all have the thread's device return the same. -/
theorem thread_registers (thread : MrThread Access) (region : MemoryRegion)
    (answers : Nat → MrAnswer) :
    (thread.registerMrLocal mrProvider region answers).1 =
        (MrGroup.registerMrLocal mrProvider region (thread.domains.map (onDevice thread.cudaDevice))
          answers).1 ∧
      (thread.registerMrAllowRemote mrProvider region answers).1 =
        (MrGroup.registerMrAllowRemote mrProvider region
          (thread.domains.map (onDevice thread.cudaDevice)) answers).1 := by
  constructor
  · refine congrArg (Except.map _) (registerEach_onDevice ?_ 0 thread.cudaDevice thread.domains).1
    intro domain k value next ran
    have outcome := local_outcome domain region (answers k)
    rw [ran] at outcome
    exact outcome.restores
  · refine congrArg (Except.map _) (registerEach_onDevice ?_ 0 thread.cudaDevice thread.domains).1
    intro domain k value next ran
    have outcome := remote_outcome domain region (answers k)
    rw [ran] at outcome
    exact outcome.restores

end PplxGarden.Fabric.Proofs.Rollback
