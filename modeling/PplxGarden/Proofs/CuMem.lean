import PplxGarden.Cuda.CuMem
import PplxGarden.Library.Runs

/-! Whether a mapping knows that its range is mapped. An action touches one range and its
mapping; what the flag says can only go wrong where a call fails half way. -/

namespace PplxGarden.Cuda.Proofs
open Library Fabric Option
variable {action : MappingAction} {next : CuProcess} {call : StateM CuProcess Nat}

section Calls
variable {process middle after : CuProcess} {α β : Type} {first : CudaResult α} {rest : α → CudaResult β}

theorem bind_returns {value : α} (ran : first.run.run process = (.ok value, middle)) :
    (first >>= rest).run.run process = (rest value).run.run middle := by
  rw [ExceptT.run_bind, StateT.run_bind, ran]
  rfl

theorem bind_throws {error : CudaError} (ran : first.run.run process = (.error error, middle)) :
    (first >>= rest).run.run process = (.error error, middle) := by
  rw [ExceptT.run_bind, StateT.run_bind, ran]
  rfl

private theorem lifted_run {code : Nat} (answered : call.run process = (code, after)) :
    (liftM call : CudaResult Nat).run.run process = (.ok code, after) := by
  show (Except.ok <$> call).run process = _
  rw [StateT.run_map, answered]
  rfl

private theorem check_returns (answered : call.run process = (0, after)) :
    (cudaCheck call).run.run process = (.ok (), after) :=
  bind_returns (lifted_run answered)

theorem check_answered (effect : CuProcess → CuProcess) :
    (cudaCheck (answer 0 effect)).run.run process = (.ok (), effect process) :=
  check_returns rfl

theorem answer_fails {code : Nat} (failed : code ≠ 0) (effect : CuProcess → CuProcess) :
    (answer code effect).run process = (code, process) := by
  simp only [answer, failed, if_false]
  rfl

theorem check_fails {code : Nat} (failed : code ≠ 0) (answered : call.run process = (code, after)) :
    (cudaCheck call).run.run process = (.error (.cudart code "cuda_check call failed"), after) := by
  rw [cudaCheck, bind_returns (lifted_run answered), if_pos failed]
  rfl

variable (process) in
private theorem unmap_answered {ptr : Nat} (backed : (process.backing ptr).isSome) :
    (cuMemUnmap 0 ptr).run process =
      (0, process.setRange ptr ((process.ranges ptr).map fun range =>
        { range with backing := none, access := none })) := by
  have kept : ¬ (True ∧ (process.backing ptr).isNone) := by simp [isSome_iff_ne_none.mp backed]
  show (answer (if 0 = 0 ∧ (process.backing ptr).isNone then invalidValue else 0) _).run process = _
  simp only [kept, if_false]
  rfl

variable (process) in
private theorem unmap_fails {ptr code : Nat} (failed : code ≠ 0 ∨ process.backing ptr = none) :
    ∃ answered, answered ≠ 0 ∧ (cuMemUnmap code ptr).run process = (answered, process) := by
  show ∃ answered, answered ≠ 0 ∧ (answer (if code = 0 ∧ (process.backing ptr).isNone then
    invalidValue else code) _).run process = _
  split
  · exact ⟨invalidValue, by decide, answer_fails (by decide) _⟩
  · next kept =>
    have refused : code ≠ 0 := by
      intro zero
      rcases failed with failed | bare
      · exact failed zero
      · exact kept ⟨zero, by simp [bare]⟩
    exact ⟨code, refused, answer_fails refused _⟩

end Calls

def Touches (ptr : Nat) (call : StateM CuProcess α) : Prop :=
  ∀ process, ∃ range, (call.run process).2 = process.setRange ptr range

theorem setRange_self (process : CuProcess) (ptr : Nat) : process.setRange ptr (process.ranges ptr) = process := by
  simp [CuProcess.setRange]

private theorem setRange_setRange (process : CuProcess) (ptr : Nat) (range again : Option AddressRange) :
    (process.setRange ptr range).setRange ptr again = process.setRange ptr again := by
  simp [CuProcess.setRange]

namespace Touches
variable {ptr : Nat} {α β : Type}

theorem pure (value : α) : Touches ptr (Pure.pure value) := fun process => ⟨_, (setRange_self process ptr).symm⟩

theorem get : Touches ptr MonadState.get := fun process => ⟨_, (setRange_self process ptr).symm⟩

theorem bind {call : StateM CuProcess α} {rest : α → StateM CuProcess β} (first : Touches ptr call)
    (then_ : ∀ value, Touches ptr (rest value)) : Touches ptr (call >>= rest) := by
  intro process
  obtain ⟨range, ran⟩ := first process
  obtain ⟨again, ended⟩ := then_ (call.run process).1 (call.run process).2
  exact ⟨again, by rw [← setRange_setRange process ptr range, ← ran, ← ended]; rfl⟩

theorem answer (code : Nat) {effect : CuProcess → CuProcess}
    (touched : ∀ process, ∃ range, effect process = process.setRange ptr range) :
    Touches ptr (answer code effect) := by
  intro process
  by_cases answered : code = 0
  · subst answered
    exact touched process
  · exact ⟨_, by rw [answer_fails answered, setRange_self]⟩

end Touches

section Ranges
variable (process : CuProcess) (ptr : Nat) (range : Option AddressRange) (mapping : Option CUMemMapping)

def put : CuProcess := (process.setRange ptr range).setMapping ptr mapping

@[simp] theorem put_ranges : (put process ptr range mapping).ranges = Function.update process.ranges ptr range := rfl

@[simp] theorem put_mappings :
    (put process ptr range mapping).mappings = Function.update process.mappings ptr mapping :=
  rfl

theorem put_self : put process ptr (process.ranges ptr) (process.mappings ptr) = process := by
  simp [put, CuProcess.setRange, CuProcess.setMapping]

private theorem setRange_eq_put : process.setRange ptr range = put process ptr range (process.mappings ptr) := by
  simp [put, CuProcess.setRange, CuProcess.setMapping]

theorem setMapping_eq_put : process.setMapping ptr mapping = put process ptr (process.ranges ptr) mapping := by
  simp [put, CuProcess.setRange, CuProcess.setMapping]

end Ranges

section Operations
variable (process : CuProcess) (alloc : CUMemMappingRef) (device : Device)

theorem setRange_change (ptr : Nat) (range : Option AddressRange)
    (change : AddressRange → AddressRange) :
    (process.setRange ptr range).setRange ptr
      (((process.setRange ptr range).ranges ptr).map change) =
      process.setRange ptr (range.map change) := by
  simp [CuProcess.setRange]

/-- A call of `map` reserves nothing, leaves a range that nobody holds, or makes a mapping. -/
inductive MapRun (process : CuProcess) (alloc : CUMemMappingRef) : MapAnswers → Except CudaError CUMemMappingHolder → CuProcess → Prop where
  | refused {answers error} (failed : answers.reserve ≠ 0) : MapRun process alloc answers (.error error) process
  | stranded {answers error range} (reserved : answers.reserve = 0) (failed : ¬ (answers.map = 0 ∧ answers.setAccess = 0)) :
      MapRun process alloc answers (.error error) (process.setRange answers.ptr (some range))
  | made {ptr allocSize deviceId access} :
      MapRun process alloc ⟨0, ptr, 0, 0⟩ (.ok ⟨allocSize, deviceId, true, ptr⟩)
        (process.setRange ptr (some ⟨alloc.size, some alloc.handle, access⟩))

theorem map_run (answers : MapAnswers) :
    MapRun process alloc answers ((CUMemAlloc.map alloc device answers).run.run process).1
      ((CUMemAlloc.map alloc device answers).run.run process).2 := by
  obtain ⟨reserve, ptr, map, setAccess⟩ := answers
  simp only [CUMemAlloc.map, cuMemAddressReserve, cuMemMap, cuMemSetAccess]
  by_cases reserved : reserve = 0
  · subst reserved
    rw [bind_returns (check_answered _)]
    by_cases backed : map = 0
    · subst backed
      rw [bind_returns (check_answered _), setRange_change]
      by_cases granted : setAccess = 0
      · subst granted
        rw [bind_returns (check_answered _), setRange_change]
        exact .made
      · rw [bind_throws (check_fails granted (answer_fails granted _))]
        exact .stranded rfl fun all => granted all.2
    · rw [bind_throws (check_fails backed (answer_fails backed _))]
      exact .stranded rfl fun all => backed all.1
  · rw [bind_throws (check_fails reserved (answer_fails reserved _))]
    exact .refused reserved

end Operations

def withFlag (mapping : CUMemMapping) (mapped : Bool) : CUMemMapping :=
  { mapping with holder := { mapping.holder with mapped } }

private theorem withFlag_self {mapping : CUMemMapping} {mapped : Bool}
    (flag : mapping.holder.mapped = mapped) : withFlag mapping mapped = mapping := by
  rw [← flag]
  rfl

/-- What an action can do to the range at `ptr` and the mapping that holds it. -/
inductive RangeStep (ptr : Nat) : MappingAction → Option AddressRange → Option CUMemMapping → Option AddressRange → Option CUMemMapping → Prop where
  | refused {alloc device answers range mapping} (failed : answers.reserve ≠ 0) :
      RangeStep ptr (.map alloc device answers) range mapping range mapping
  | stranded {alloc device answers range mapping} (reserved : answers.reserve = 0)
    (failed : ¬ (answers.map = 0 ∧ answers.setAccess = 0)) :
      RangeStep ptr (.map alloc device answers) none mapping (some range) mapping
  | made {alloc device range mapping allocSize deviceId} (backed : range.backing = some alloc.handle) :
      RangeStep ptr (.map alloc device ⟨0, ptr, 0, 0⟩) none mapping (some range)
        (some ⟨⟨allocSize, deviceId, true, ptr⟩, 0⟩)
  | cloned {range mapping} :
      RangeStep ptr (.clone ptr) range (some mapping) range (some { mapping with others := mapping.others + 1 })
  | mapToRefused {alloc mapCode setAccessCode range mapping}
    (failed : ¬ (mapping.holder.allocSize = alloc.size ∧ mapCode = 0)) :
      RangeStep ptr (.mapTo alloc ptr mapCode setAccessCode) range (some mapping) range (some mapping)
  | noAccess {alloc setAccessCode range mapping} (fits : mapping.holder.allocSize = alloc.size)
    (failed : setAccessCode ≠ 0) :
      RangeStep ptr (.mapTo alloc ptr 0 setAccessCode) range (some mapping)
        (range.map fun range => { range with backing := some alloc.handle }) (some mapping)
  | remapped {alloc range mapping} (fits : mapping.holder.allocSize = alloc.size) :
      RangeStep ptr (.mapTo alloc ptr 0 0) range (some mapping)
        (range.map fun range =>
          { range with backing := some alloc.handle, access := some mapping.holder.deviceId })
          (some (withFlag mapping true))
  | notMapped {code range mapping} (idle : mapping.holder.mapped = false) :
      RangeStep ptr (.unmap ptr code) range (some mapping) range (some mapping)
  | unmapFails {code range mapping} (flagged : mapping.holder.mapped = true)
    (failed : code ≠ 0 ∨ range.bind AddressRange.backing = none) :
      RangeStep ptr (.unmap ptr code) range (some mapping) range (some (withFlag mapping false))
  | unmapped {range mapping} (flagged : mapping.holder.mapped = true) :
      RangeStep ptr (.unmap ptr 0) range (some mapping)
        (range.map fun range => { range with backing := none, access := none }) (some (withFlag mapping false))
  | released {code range mapping} :
      RangeStep ptr (.drop ptr code) range (some mapping) range (some { mapping with others := mapping.others - 1 })
  | dropped {code range mapping after} : RangeStep ptr (.drop ptr code) range (some mapping) after none

section Steps
variable {process : CuProcess} {alloc : CUMemMappingRef} {mapping : CUMemMapping} {ptr : Nat}

def Steps (process : CuProcess) (ptr : Nat) (action : MappingAction) (after : CuProcess) : Prop :=
  ∃ range mapping, RangeStep ptr action (process.ranges ptr) (process.mappings ptr) range mapping ∧
    after = put process ptr range mapping

private theorem storeMapped_run (mapped : Bool) :
    (storeMapped mapping mapped).run.run process =
      (.ok (), process.setMapping mapping.holder.ptr (some (withFlag mapping mapped))) :=
  rfl

theorem mapTo_steps (live : process.mappings mapping.holder.ptr = some mapping) (mapCode setAccessCode : Nat) :
    Steps process mapping.holder.ptr (.mapTo alloc mapping.holder.ptr mapCode setAccessCode)
      ((CUMemAlloc.mapTo alloc mapping mapCode setAccessCode).run.run process).2 := by
  unfold Steps
  rw [live]
  simp only [CUMemAlloc.mapTo, cuMemMap, cuMemSetAccess]
  by_cases fits : mapping.holder.allocSize = alloc.size
  · rw [if_neg (not_not_intro fits)]
    by_cases backed : mapCode = 0
    · subst backed
      rw [bind_returns (check_answered _)]
      by_cases granted : setAccessCode = 0
      · subst granted
        rw [bind_returns (check_answered _), setRange_change, storeMapped_run]
        refine ⟨_, _, .remapped fits, ?_⟩
        rw [Option.map_map]
        rfl
      · rw [bind_throws (check_fails granted (answer_fails granted _))]
        refine ⟨_, _, .noAccess fits granted, ?_⟩
        rw [setRange_eq_put, live]
    · rw [bind_throws (check_fails backed (answer_fails backed _))]
      refine ⟨_, _, .mapToRefused fun both => backed both.2, ?_⟩
      rw [← live, put_self]
  · rw [if_pos fits]
    refine ⟨_, _, .mapToRefused fun both => fits both.1, ?_⟩
    rw [← live, put_self]
    rfl

theorem unmap_steps (live : process.mappings mapping.holder.ptr = some mapping) (code : Nat) :
    Steps process mapping.holder.ptr (.unmap mapping.holder.ptr code) ((mapping.unmap code).run.run process).2 := by
  unfold Steps
  rw [live, CUMemMapping.unmap, bind_returns (storeMapped_run false)]
  have cleared := setMapping_eq_put process mapping.holder.ptr (some (withFlag mapping false))
  by_cases flagged : mapping.holder.mapped = true
  · rw [if_pos flagged]
    by_cases failed : code ≠ 0 ∨ process.backing mapping.holder.ptr = none
    · obtain ⟨answered, refused, ran⟩ :=
        unmap_fails (process.setMapping mapping.holder.ptr (some (withFlag mapping false))) failed
      rw [check_fails refused ran]
      exact ⟨_, _, .unmapFails flagged failed, cleared⟩
    · push Not at failed
      obtain ⟨rfl, backed⟩ := failed
      rw [check_returns (unmap_answered (process.setMapping mapping.holder.ptr
        (some (withFlag mapping false))) (isSome_iff_ne_none.mpr backed))]
      exact ⟨_, _, .unmapped flagged, rfl⟩
  · have idle := Bool.eq_false_iff.mpr flagged
    rw [if_neg flagged]
    refine ⟨_, _, .notMapped idle, ?_⟩
    rw [← withFlag_self idle]
    exact cleared

private theorem free_answered {ptr : Nat} (bare : process.backing ptr = none) :
    (cuMemAddressFree ptr).run process = (0, process.setRange ptr none) := by
  show (answer (if (process.backing ptr).isSome then invalidValue else 0) _).run process = _
  rw [bare]
  rfl

variable {holder : CUMemMappingHolder}

theorem drop_returns (agrees : holder.mapped = true ↔ (process.backing holder.ptr).isSome) :
    (holder.drop 0).run process = (true, process.setRange holder.ptr none) := by
  rw [CUMemMappingHolder.drop]
  by_cases flagged : holder.mapped = true
  · have cleared : (process.setRange holder.ptr ((process.ranges holder.ptr).map fun range =>
      { range with backing := none, access := none })).backing
        holder.ptr = none := by
      simp [CuProcess.backing, CuProcess.setRange]
    rw [if_pos flagged, StateT.run_bind, unmap_answered process (agrees.mp flagged)]
    show (do return (← cuMemAddressFree holder.ptr) = 0 : StateM CuProcess Bool).run _ = _
    rw [StateT.run_bind, free_answered cleared, setRange_setRange]
    rfl
  · have bare : process.backing holder.ptr = none := not_isSome_iff_eq_none.mp fun backed => flagged (agrees.mpr backed)
    rw [if_neg flagged]
    show (do return (← cuMemAddressFree holder.ptr) = 0 : StateM CuProcess Bool).run process = _
    rw [StateT.run_bind, free_answered bare]
    rfl

/-- Whatever fails, a drop touches only the range of its holder. -/
theorem drop_touches (holder : CUMemMappingHolder) (code : Nat) : Touches holder.ptr (holder.drop code) := by
  have free : Touches holder.ptr (do return (← cuMemAddressFree holder.ptr) = 0 : StateM CuProcess Bool) :=
    .bind (.bind .get fun _ => .answer _ fun _ => ⟨_, rfl⟩) fun _ => .pure _
  rw [CUMemMappingHolder.drop]
  split
  · refine .bind (.bind .get fun _ => .answer _ fun _ => ⟨_, rfl⟩) fun answered => ?_
    split
    · exact .pure _
    · exact free
  · exact free

/-- The holder at a pointer is that range's, and its range is reserved. -/
def LinkedAt (ptr : Nat) (range : Option AddressRange) (mapping : Option CUMemMapping) : Prop :=
  ∀ held, mapping = some held → held.holder.ptr = ptr ∧ range.isSome

def Linked (process : CuProcess) : Prop := ∀ ptr, LinkedAt ptr (process.ranges ptr) (process.mappings ptr)

theorem map_steps {device : Device} {answers : MapAnswers}
    (fired : process.fire (.map alloc device answers) = some next) :
    Steps process answers.ptr (.map alloc device answers) next := by
  unfold CuProcess.fire at fired
  by_cases fresh : answers.Fresh process
  · simp only [fresh, if_true] at fired
    have ran := map_run process alloc device answers
    generalize (CUMemAlloc.map alloc device answers).run.run process = outcome at fired ran
    obtain ⟨result, after⟩ := outcome
    cases ran with
    | refused failed =>
      cases fired
      exact ⟨_, _, .refused failed, (put_self ..).symm⟩
    | stranded reserved failed =>
      cases fired
      exact ⟨_, _, fresh reserved ▸ .stranded reserved failed, setRange_eq_put ..⟩
    | made =>
      cases fired
      exact ⟨_, _, fresh rfl ▸ .made rfl, rfl⟩
  · simp [fresh] at fired

theorem drop_steps (live : process.mappings mapping.holder.ptr = some mapping) (code : Nat) :
    Steps process mapping.holder.ptr (.drop mapping.holder.ptr code)
      (if mapping.others = 0 then ((mapping.holder.drop code).run (process.setMapping mapping.holder.ptr none)).2
        else process.setMapping mapping.holder.ptr (some { mapping with others := mapping.others - 1 })) := by
  by_cases last : mapping.others = 0
  · obtain ⟨range, ended⟩ := drop_touches mapping.holder code (process.setMapping mapping.holder.ptr none)
    rw [if_pos last, ended]
    exact ⟨range, none, live ▸ .dropped, rfl⟩
  · rw [if_neg last]
    exact ⟨_, _, live ▸ .released, setMapping_eq_put ..⟩

theorem fire_steps (linked : Linked process) (fired : process.fire action = some next) :
    ∃ ptr, Steps process ptr action next := by
  cases action with
  | map alloc device answers => exact ⟨_, map_steps fired⟩
  | clone ptr =>
    obtain ⟨mapping, live, rfl⟩ := map_eq_some_iff.mp fired
    exact ⟨ptr, _, _, live ▸ .cloned, setMapping_eq_put ..⟩
  | mapTo alloc ptr mapCode setAccessCode =>
    obtain ⟨mapping, live, rfl⟩ := map_eq_some_iff.mp fired
    obtain ⟨rfl, _⟩ := linked ptr mapping live
    exact ⟨_, mapTo_steps live mapCode setAccessCode⟩
  | unmap ptr code =>
    obtain ⟨mapping, live, rfl⟩ := map_eq_some_iff.mp fired
    obtain ⟨rfl, _⟩ := linked ptr mapping live
    exact ⟨_, unmap_steps live code⟩
  | drop ptr code =>
    obtain ⟨mapping, live, rfl⟩ := map_eq_some_iff.mp fired
    obtain ⟨rfl, _⟩ := linked ptr mapping live
    exact ⟨_, drop_steps live code⟩

end Steps

def AgreesAt (range : Option AddressRange) (mapping : Option CUMemMapping) : Prop :=
  ∀ held, mapping = some held → (held.holder.mapped = true ↔ (range.bind AddressRange.backing).isSome)

def Agrees (process : CuProcess) : Prop := ∀ ptr, AgreesAt (process.ranges ptr) (process.mappings ptr)

/-- What holds of every range still holds of the ones that an action does not touch. -/
theorem forall_put {holds : Nat → Option AddressRange → Option CUMemMapping → Prop}
    {process : CuProcess} {ptr : Nat} {range : Option AddressRange} {mapping : Option CUMemMapping}
    (before : ∀ ptr, holds ptr (process.ranges ptr) (process.mappings ptr)) :
    (∀ other, holds other ((put process ptr range mapping).ranges other)
      ((put process ptr range mapping).mappings other)) ↔ holds ptr range mapping := by
  constructor
  · intro all
    simpa using all ptr
  · intro here other
    by_cases same : other = ptr
    · subst same
      simpa using here
    · simpa [same] using before other

theorem RangeStep.linked {ptr : Nat} {range after : Option AddressRange}
    {mapping later : Option CUMemMapping} (step : RangeStep ptr action range mapping after later)
    (linked : LinkedAt ptr range mapping) : LinkedAt ptr after later := by
  intro held live
  cases step with
  | refused => exact linked held live
  | stranded => exact ⟨(linked held live).1, rfl⟩
  | made =>
    cases live
    exact ⟨rfl, rfl⟩
  | dropped => cases live
  | _ =>
    cases live
    simpa [withFlag] using linked _ rfl

private theorem fire_linked {process : CuProcess} (linked : Linked process) (fired : process.fire action = some next) :
    Linked next := by
  obtain ⟨ptr, range, mapping, step, rfl⟩ := fire_steps linked fired
  exact (forall_put linked).mpr (step.linked (linked ptr))

def KnowsMapped (process : CuProcess) : Prop :=
  ∀ ptr mapping, process.mappings ptr = some mapping →
    (mapping.holder.mapped = true ↔ (process.backing mapping.holder.ptr).isSome) ∧
      ∃ after, (mapping.holder.drop 0).run (process.setMapping ptr none) = (true, after) ∧
        after.ranges mapping.holder.ptr = none

/-- A call of `map` that returns an error leaves the address space as it was. -/
def FailedMapUndone (before : CuProcess) (action : MappingAction) (after : CuProcess) : Prop :=
  ∀ alloc device answers error, action = .map alloc device answers →
    ((CUMemAlloc.map alloc device answers).run.run before).1 = .error error → after.ranges = before.ranges

/-- A call fails after one has succeeded that it should have undone: a reservation, the
mapping of a range whose flag is down, or the flag itself. -/
def Strands (process : CuProcess) : MappingAction → Prop
  | .map _ _ answers => answers.reserve = 0 ∧ ¬ (answers.map = 0 ∧ answers.setAccess = 0)
  | .mapTo alloc ptr mapCode setAccessCode =>
    ∃ mapping, process.mappings ptr = some mapping ∧ mapping.holder.mapped = false ∧ mapping.holder.allocSize = alloc.size ∧
      mapCode = 0 ∧ setAccessCode ≠ 0
  | .unmap ptr code => ∃ mapping, process.mappings ptr = some mapping ∧ mapping.holder.mapped = true ∧ code ≠ 0
  | .clone _ => False
  | .drop _ _ => False

private theorem knows_iff {process : CuProcess} (linked : Linked process) : KnowsMapped process ↔ Agrees process := by
  constructor
  · intro knows ptr mapping live
    obtain ⟨rfl, _⟩ := linked ptr mapping live
    exact (knows _ mapping live).1
  · intro agrees ptr mapping live
    obtain ⟨rfl, _⟩ := linked ptr mapping live
    have flag := agrees _ mapping live
    exact ⟨flag, _, drop_returns flag, by simp [CuProcess.setRange]⟩

theorem map_error_iff {process : CuProcess} {alloc : CUMemMappingRef} {device : Device} {answers : MapAnswers} :
    (∃ error, ((CUMemAlloc.map alloc device answers).run.run process).1 = .error error) ↔
      ¬ (answers.reserve = 0 ∧ answers.map = 0 ∧ answers.setAccess = 0) := by
  have ran := map_run process alloc device answers
  generalize (CUMemAlloc.map alloc device answers).run.run process = outcome at ran ⊢
  obtain ⟨result, after⟩ := outcome
  cases ran with
  | refused failed => exact iff_of_true ⟨_, rfl⟩ fun all => failed all.1
  | stranded _ failed => exact iff_of_true ⟨_, rfl⟩ fun all => failed all.2
  | made => exact iff_of_false nofun (not_not_intro ⟨rfl, rfl, rfl⟩)

private theorem undone_of_kept {process : CuProcess} {ptr : Nat} {mapping : Option CUMemMapping} :
    FailedMapUndone process action (put process ptr (process.ranges ptr) mapping) :=
  fun _ _ _ _ _ _ => by simp

theorem step_knows {process : CuProcess} {ptr : Nat} {range after : Option AddressRange}
    {mapping later : Option CUMemMapping} (step : RangeStep ptr action range mapping after later)
    (here : process.ranges ptr = range) (held : process.mappings ptr = mapping)
    (linked : LinkedAt ptr range mapping) (agrees : AgreesAt range mapping) :
    AgreesAt after later ∧ FailedMapUndone process action (put process ptr after later) ↔
      ¬ Strands process action := by
  cases step with
  | refused failed =>
    refine iff_of_true ⟨agrees, ?_⟩ fun strands => failed strands.1
    rw [← here]
    exact undone_of_kept
  | stranded reserved failed =>
    refine iff_of_false ?_ (not_not_intro ⟨reserved, failed⟩)
    rintro ⟨_, undone⟩
    obtain ⟨error, failing⟩ := map_error_iff.mpr fun all => failed all.2
    have same := congrFun (undone _ _ _ error rfl failing) ptr
    simp [here] at same
  | made backed =>
    refine iff_of_true ⟨?_, ?_⟩ fun strands => strands.2 ⟨rfl, rfl⟩
    · rintro _ ⟨⟩
      simp [backed]
    · rintro _ _ _ error ⟨⟩ failing
      exact absurd ⟨rfl, rfl, rfl⟩ (map_error_iff.mp ⟨error, failing⟩)
  | cloned =>
    refine iff_of_true ⟨?_, nofun⟩ id
    rintro _ ⟨⟩
    have flag := agrees _ rfl
    exact flag
  | mapToRefused failed =>
    refine iff_of_true ⟨agrees, nofun⟩ ?_
    rintro ⟨_, live, _, fits, backed, _⟩
    obtain rfl := Option.some.inj (held.symm.trans live)
    exact failed ⟨fits, backed⟩
  | @noAccess _ _ _ mapping fits failed =>
    obtain ⟨reserved, rfl⟩ := isSome_iff_exists.mp (linked _ rfl).2
    by_cases flagged : mapping.holder.mapped = true
    · refine iff_of_true ⟨?_, nofun⟩ ?_
      · rintro _ ⟨⟩
        exact iff_of_true flagged rfl
      · rintro ⟨_, live, down, _⟩
        obtain rfl := Option.some.inj (held.symm.trans live)
        simp [flagged] at down
    · -- The range is backed, and the flag stays down.
      refine iff_of_false ?_ (not_not_intro ⟨mapping, held, Bool.eq_false_iff.mpr flagged, fits, rfl, failed⟩)
      rintro ⟨agree, _⟩
      exact flagged ((agree _ rfl).mpr rfl)
  | remapped =>
    refine iff_of_true ⟨?_, nofun⟩ fun strands => strands.choose_spec.2.2.2.2 rfl
    rintro _ ⟨⟩
    obtain ⟨reserved, rfl⟩ := isSome_iff_exists.mp (linked _ rfl).2
    exact iff_of_true rfl rfl
  | notMapped idle =>
    refine iff_of_true ⟨agrees, nofun⟩ ?_
    rintro ⟨_, live, flagged, _⟩
    obtain rfl := Option.some.inj (held.symm.trans live)
    simp [idle] at flagged
  | unmapFails flagged failed =>
    -- The flag is lowered before the call that fails.
    have backed := (agrees _ rfl).mp flagged
    have refused := failed.resolve_right (isSome_iff_ne_none.mp backed)
    refine iff_of_false ?_ (not_not_intro ⟨_, held, flagged, refused⟩)
    rintro ⟨agree, _⟩
    exact absurd ((agree _ rfl).mpr backed) (by simp [withFlag])
  | unmapped flagged =>
    refine iff_of_true ⟨?_, nofun⟩ fun strands => strands.choose_spec.2.2 rfl
    rintro _ ⟨⟩
    obtain ⟨reserved, rfl⟩ := isSome_iff_exists.mp (linked _ rfl).2
    exact iff_of_false (by simp [withFlag]) (by simp)
  | released =>
    refine iff_of_true ⟨?_, nofun⟩ id
    rintro _ ⟨⟩
    have flag := agrees _ rfl
    exact flag
  | dropped => exact iff_of_true ⟨nofun, nofun⟩ id

private theorem fire_knows {process : CuProcess} (linked : Linked process) (agrees : Agrees process)
    (fired : process.fire action = some next) :
    KnowsMapped next ∧ FailedMapUndone process action next ↔ ¬ Strands process action := by
  rw [knows_iff (fire_linked linked fired)]
  obtain ⟨ptr, range, mapping, step, rfl⟩ := fire_steps linked fired
  rw [Agrees, @forall_put (fun _ => AgreesAt) _ _ _ _ agrees]
  exact step_knows step rfl rfl (linked ptr) (agrees ptr)

/-- Along every run the flags are right, and a failed `map` leaves nothing, as far as no
call strands what the one before it did. -/
theorem mappings_know (actions : List MappingAction) :
    Along CuProcess.fire (fun before action after => KnowsMapped after ∧
      FailedMapUndone before action after) .new actions ↔
      Along CuProcess.fire (fun before action _ => ¬ Strands before action) .new actions := by
  refine @along_iff _ _ _ (fun process => Linked process ∧ Agrees process) _ _ ?_ ?_ _ _ ⟨nofun, nofun⟩
  · intro before action after good fired
    exact fire_knows good.1 good.2 fired
  · intro before action after good fired kept
    have linked := fire_linked good.1 fired
    exact ⟨linked, (knows_iff linked).mp ((fire_knows good.1 good.2 fired).mpr kept).1⟩

/-- A mapping whose unmapping failed believes that it is not mapped, and a `map` that the
driver did not back keeps the range it reserved. -/
theorem stranded_ranges :
    (∃ process, runs CuProcess.fire .new [.map (.alloc 5 4096 0) .host ⟨0, 1024, 0, 0⟩, .unmap 1024 1] = some process ∧
      process.mappings 1024 = some ⟨⟨4096, 0, false, 1024⟩, 0⟩ ∧ process.backing 1024 = some 5) ∧
      (CUMemAlloc.map (.alloc 5 4096 0) .host ⟨0, 1024, 1, 0⟩).run.run .new =
        (.error (.cudart 1 "cuda_check call failed"), CuProcess.new.setRange 1024 (some ⟨4096, none, none⟩)) :=
  ⟨⟨_, rfl, rfl, rfl⟩, rfl⟩

end PplxGarden.Cuda.Proofs
