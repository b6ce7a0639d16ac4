import Mathlib.Data.List.Count
import PplxGarden.Fabric.EngineThreads
import PplxGarden.Library.Runs

/-! When the threads of an engine wait for each other. Every receive that is not in the
command channel may come back to it through the callback thread, so the clients have to
leave room for it. -/

namespace PplxGarden.Fabric.EngineThreads
open Library List Option

variable {state next : EngineThreads}

def isRecv : TransferCompletionEntry → Bool
  | .recv _ _ => true
  | _ => false

def recvs (entries : List TransferCompletionEntry) : Nat := entries.countP isRecv

theorem recvs_cons (entry : TransferCompletionEntry) (entries : List TransferCompletionEntry) :
    recvs (entry :: entries) = recvs entries + if isRecv entry = true then 1 else 0 := countP_cons

theorem recvs_append (first second : List TransferCompletionEntry) :
    recvs (first ++ second) = recvs first + recvs second :=
  countP_append

private theorem complete_recv {posted left : List TransferId} {comp : DomainCompletionEntry}
    (done : complete posted comp = some left) :
    left.length + (if isRecv comp.txComp = true then 1 else 0) ≤ posted.length := by
  cases comp with
  | recv transferId dataLen =>
    obtain ⟨member, equal⟩ := ite_none_right_eq_some.mp done
    cases equal
    have shorter := length_erase_of_mem member
    have positive := length_pos_of_mem member
    simp only [DomainCompletionEntry.txComp, isRecv, if_true]
    omega
  | error transferId error =>
    cases done
    exact length_erase_le
  | _ =>
    cases done
    exact Nat.le_refl _

private theorem completes_recvs (completions : List DomainCompletionEntry) {posted left : List TransferId}
    (done : completions.foldlM complete posted = some left) :
    left.length + recvs (completions.map (·.txComp)) ≤ posted.length := by
  induction completions generalizing posted with
  | nil =>
    cases done
    exact Nat.le_refl _
  | cons comp completions hypothesis =>
    rw [foldlM_cons] at done
    obtain ⟨middle, first, rest⟩ := bind_eq_some_iff.mp done
    have now := complete_recv first
    have later := hypothesis rest
    rw [map_cons, recvs_cons]
    omega

/-- The RDMA worker only starts a step when it has sent everything, and a receive is a
command, posted or to be sent. -/
theorem workerStep_cases {failure : Option FabricLibError} {completions : List DomainCompletionEntry}
    (done : state.workerStep failure completions = some next) : state.sending = [] ∧
      ∃ cmd posted sending, next = { state with cmd, posted, sending } ∧
        cmd.length + (posted.length + recvs sending) ≤ state.cmd.length + state.posted.length := by
  unfold workerStep at done
  cases idle : state.sending with
  | cons comp sending => simp [idle] at done
  | nil =>
    refine ⟨rfl, ?_⟩
    cases queue : state.cmd with
    | nil =>
      simp only [idle, queue] at done
      obtain ⟨posted, folded, equal⟩ := bind_eq_some_iff.mp done
      cases equal
      have fits := completes_recvs completions folded
      exact ⟨[], posted, _, rfl, by simpa using fits⟩
    | cons command cmd =>
      simp only [idle, queue] at done
      obtain ⟨posted, folded, equal⟩ := bind_eq_some_iff.mp done
      cases equal
      have fits := completes_recvs completions folded
      refine ⟨cmd, posted, _, rfl, ?_⟩
      have errors : recvs (failure.map (TransferCompletionEntry.error command.transferId)).toList =
          0 := by
        cases failure <;> rfl
      have split : recvs ((failure.map (TransferCompletionEntry.error command.transferId)).toList ++
        completions.map (·.txComp)) =
          recvs (completions.map (·.txComp)) := by
        rw [recvs_append, errors, Nat.zero_add]
      have bound : posted.length + recvs (completions.map (·.txComp)) ≤ state.posted.length + 1 :=
        Nat.le_trans fits (by split <;> simp)
      rw [split, length_cons]
      omega

private theorem workerSend_cases (done : state.workerSend = some next) : ∃ comp sending,
    state.sending = comp :: sending ∧ state.cq.length < capacity ∧
      next = { state with cq := state.cq ++ [comp], sending } := by
  unfold workerSend at done
  cases todo : state.sending with
  | nil => simp [todo] at done
  | cons comp sending =>
    simp only [todo] at done
    obtain ⟨free, equal⟩ := ite_none_right_eq_some.mp done
    cases equal
    exact ⟨comp, sending, rfl, free, rfl⟩

/-- The UVM thread only starts a step when it has sent everything; one that serves a
release lets the callback thread go on. -/
theorem uvmStep_cases {events : List (Nat × Nat × Nat)} (done : state.uvmStep events = some next) :
    state.uvmSending = [] ∧
      ∃ uvmSending uvmCalls callback watchers, next =
        { state with uvmSending, uvmCalls, callback, watchers } ∧
        ((∃ watcher, state.callback = .awaitRelease watcher ∧ callback = .polling) ∨
          callback = state.callback ∧ (state.uvmCalls = [] → uvmCalls = []) ∧
            ∀ watcher rest, state.callback = .awaitRelease watcher →
              state.uvmCalls ≠ .releaseUvmWatcher watcher :: rest) := by
  unfold uvmStep at done
  cases idle : state.uvmSending with
  | cons comp sending => simp [idle] at done
  | nil =>
    refine ⟨rfl, ?_⟩
    simp only [idle] at done
    cases queue : state.uvmCalls with
    | nil =>
      simp only [queue] at done
      cases done
      exact ⟨_, _, _, _, rfl, .inr ⟨rfl, fun _ => rfl, fun _ _ _ => nofun⟩⟩
    | cons call uvmCalls =>
      simp only [queue] at done
      cases call with
      | acquireUvmWatcher =>
        cases done
        exact ⟨_, _, _, _, rfl, .inr ⟨rfl, nofun, fun _ _ _ => nofun⟩⟩
      | releaseUvmWatcher watcher =>
        cases at_ : state.callback with
        | awaitRelease other =>
          simp only [at_] at done
          cases done
          exact ⟨_, _, _, _, rfl, .inl ⟨other, rfl, rfl⟩⟩
        | _ =>
          simp only [at_] at done
          cases done
          exact ⟨_, _, _, _, rfl, .inr ⟨rfl, nofun, fun _ _ => nofun⟩⟩

private theorem uvmSend_cases (done : state.uvmSend = some next) : ∃ id old new uvmSending,
    state.uvmSending = (id, old, new) :: uvmSending ∧ state.cq.length < capacity ∧
      next = { state with cq := state.cq ++ [.uvmWatch id old new], uvmSending } := by
  unfold uvmSend at done
  cases todo : state.uvmSending with
  | nil => simp [todo] at done
  | cons event uvmSending =>
    obtain ⟨id, old, new⟩ := event
    simp only [todo] at done
    obtain ⟨free, equal⟩ := ite_none_right_eq_some.mp done
    cases equal
    exact ⟨id, old, new, uvmSending, rfl, free, rfl⟩

private theorem callbackPoll_cases {answer : Except String Bool}
    (done : state.callbackPoll answer = some next) :
    state.callback = .polling ∧ ∃ comp cq, state.cq = comp :: cq ∧
      next = { state with cq }.handleTransferCompletion answer comp := by
  unfold callbackPoll at done
  cases at_ : state.callback with
  | polling =>
    cases todo : state.cq with
    | nil => simp [at_, todo] at done
    | cons comp cq =>
      simp only [at_, todo] at done
      cases done
      exact ⟨rfl, comp, cq, rfl, rfl⟩
  | _ => simp [at_] at done

theorem callbackSend_cases (done : state.callbackSend = some next) :
    (∃ transferId, state.callback = .submitRecv transferId ∧ state.cmd.length < capacity ∧
      next = { state with cmd := state.cmd ++ [.submitRecv transferId], callback := .polling }) ∨
    (∃ watcher, state.callback = .callRelease watcher ∧ state.uvmCalls.length < capacity ∧
      next = { state with uvmCalls := state.uvmCalls ++ [.releaseUvmWatcher watcher], callback := .awaitRelease watcher }) := by
  unfold callbackSend at done
  cases at_ : state.callback with
  | submitRecv transferId =>
    simp only [at_] at done
    obtain ⟨free, equal⟩ := ite_none_right_eq_some.mp done
    cases equal
    exact .inl ⟨transferId, rfl, free, rfl⟩
  | callRelease watcher =>
    simp only [at_] at done
    obtain ⟨free, equal⟩ := ite_none_right_eq_some.mp done
    cases equal
    exact .inr ⟨watcher, rfl, free, rfl⟩
  | _ => simp [at_] at done

private theorem clientCommand_cases {command : WorkerCommand} (done : state.clientCommand command = some next) :
    state.cmd.length < capacity ∧ ∃ recvOps, next = { state with cmd := state.cmd ++ [command], recvOps } := by
  obtain ⟨free, equal⟩ := ite_none_right_eq_some.mp done
  cases equal
  exact ⟨free, _, rfl⟩

private theorem clientCall_cases (done : state.clientCall = some next) :
    state.uvmCalls.length < capacity ∧ next = { state with uvmCalls := state.uvmCalls ++ [.acquireUvmWatcher] } := by
  obtain ⟨free, equal⟩ := ite_none_right_eq_some.mp done
  cases equal
  exact ⟨free, rfl⟩

theorem WaitCycle.stays {action : Action} (cycle : state.WaitCycle)
    (fired : fire state action = some next) : next.WaitCycle := by
  have full : capacity ≤ state.cq.length := by
    unfold WaitCycle at cycle
    split at cycle
    · exact cycle.elim
    · exact cycle.2.2
    · exact cycle.2.2
    · exact cycle.2
  cases action with
  | clientCommand command =>
    obtain ⟨free, recvOps, rfl⟩ := clientCommand_cases fired
    unfold WaitCycle at cycle ⊢
    split at cycle
    all_goals simp_all [Nat.not_le_of_lt free]
  | clientCall =>
    obtain ⟨free, rfl⟩ := clientCall_cases fired
    unfold WaitCycle at cycle ⊢
    split at cycle
    all_goals simp_all [Nat.not_le_of_lt free]
  | clientWatch watcher =>
    cases fired
    exact cycle
  | workerStep failure completions =>
    obtain ⟨idle, cmd, posted, sending, rfl, -⟩ := workerStep_cases fired
    unfold WaitCycle at cycle ⊢
    split at cycle
    all_goals simp_all [Stuck]
  | workerSend =>
    obtain ⟨_, _, _, free, -⟩ := workerSend_cases fired
    exact absurd free (Nat.not_lt.mpr full)
  | uvmStep events =>
    obtain ⟨idle, uvmSending, uvmCalls, callback, watchers, rfl, steps⟩ := uvmStep_cases fired
    unfold WaitCycle at cycle ⊢
    split at cycle
    all_goals simp_all [Stuck]
  | uvmSend =>
    obtain ⟨_, _, _, _, _, free, -⟩ := uvmSend_cases fired
    exact absurd free (Nat.not_lt.mpr full)
  | callbackPoll answer =>
    unfold WaitCycle at cycle
    rw [(callbackPoll_cases fired).1] at cycle
    exact cycle.elim
  | callbackSend =>
    unfold WaitCycle at cycle
    obtain ⟨transferId, sending, free, -⟩ | ⟨watcher, calling, free, -⟩ := callbackSend_cases fired
    · rw [sending] at cycle
      exact absurd free (Nat.not_lt.mpr cycle.1)
    · rw [calling] at cycle
      exact absurd free (Nat.not_lt.mpr cycle.1)

def outside (state : EngineThreads) : Nat :=
  state.posted.length + recvs state.sending + recvs state.cq + match state.callback with
    | .submitRecv _ => 1
    | _ => 0

/-- The callback thread is about to call the UVM thread. -/
def calls (state : EngineThreads) : Bool :=
  match state.callback with
  | .callRelease _ => true
  | _ => false

/-- The steps that leave room: a client sends a command only if the receives still fit
into the channel, and a watcher is released while the UVM thread is between two steps and
no other call is made. -/
def Roomy (state : EngineThreads) : Action → Prop
  | .clientCommand _ => state.cmd.length + state.outside < capacity
  | .clientCall => state.calls = false
  | .callbackPoll (.ok true) => True
  | .callbackPoll _ => state.uvmCalls = []
  | .callbackSend => state.calls = true → state.uvmSending = []
  | _ => True

instance (state : EngineThreads) (action : Action) : Decidable (Roomy state action) := by
  unfold Roomy
  split <;> infer_instance

/-- What the steps with room keep. -/
structure Fits (state : EngineThreads) : Prop where
  room : state.cmd.length + state.outside ≤ capacity
  calling : state.calls = true → state.uvmCalls = []
  awaiting : ∀ watcher, state.callback = .awaitRelease watcher →
    state.uvmSending = [] ∧ ∃ rest, state.uvmCalls = .releaseUvmWatcher watcher :: rest

theorem Fits.new : Fits new := ⟨by decide, fun _ => rfl, nofun⟩

section
variable (fits : Fits state)
include fits

theorem Fits.noWaitCycle : ¬ state.WaitCycle := by
  unfold WaitCycle
  intro cycle
  split at cycle
  case h_1 => exact cycle
  case h_2 transferId at_ =>
    have room := fits.room
    simp only [outside, at_] at room
    have full := cycle.1
    omega
  case h_3 watcher at_ =>
    have none : state.uvmCalls = [] := fits.calling (by rw [calls, at_])
    rw [none] at cycle
    exact absurd cycle.1 (by decide)
  case h_4 watcher at_ => exact cycle.1 (fits.awaiting watcher at_).1

theorem Fits.aside (room : next.cmd.length + next.outside ≤ state.cmd.length + state.outside)
    (callback : next.callback = state.callback) (uvmCalls : next.uvmCalls = state.uvmCalls)
    (uvmSending : state.uvmSending = [] → next.uvmSending = []) : Fits next := by
  refine ⟨Nat.le_trans room fits.room, ?_, ?_⟩
  · rw [calls, callback, uvmCalls]
    exact fits.calling
  · intro watcher
    rw [callback, uvmCalls]
    intro at_
    obtain ⟨sent, first⟩ := fits.awaiting watcher at_
    exact ⟨uvmSending sent, first⟩

theorem Fits.clientCommand {command : WorkerCommand} (roomy : Roomy state (.clientCommand command))
    (done : state.clientCommand command = some next) : Fits next := by
  obtain ⟨-, recvOps, rfl⟩ := clientCommand_cases done
  refine ⟨?_, fits.calling, fits.awaiting⟩
  rw [length_append, length_singleton, Nat.add_right_comm]
  exact roomy

theorem Fits.clientCall (roomy : Roomy state .clientCall) (done : state.clientCall = some next) : Fits next := by
  obtain ⟨-, rfl⟩ := clientCall_cases done
  refine ⟨fits.room, fun calling => ?_, fun watcher at_ => ?_⟩
  · exact absurd (roomy.symm.trans calling) nofun
  · obtain ⟨sent, rest, first⟩ := fits.awaiting watcher at_
    exact ⟨sent, rest ++ [.acquireUvmWatcher], by rw [first, cons_append]⟩

theorem Fits.workerStep {failure : Option FabricLibError} {completions : List DomainCompletionEntry}
    (done : state.workerStep failure completions = some next) : Fits next := by
  obtain ⟨idle, cmd, posted, sending, rfl, fewer⟩ := workerStep_cases done
  refine fits.aside ?_ ?_ ?_ id
  · simp only [outside, idle, recvs, countP_nil] at fewer ⊢
    omega
  · rfl
  · rfl

theorem Fits.workerSend (done : state.workerSend = some next) : Fits next := by
  obtain ⟨comp, sending, todo, -, rfl⟩ := workerSend_cases done
  refine fits.aside ?_ ?_ ?_ id
  · have first := recvs_cons comp sending
    have last : recvs [comp] = _ := recvs_cons comp []
    have none : recvs [] = 0 := rfl
    simp only [outside, todo, recvs_append]
    omega
  · rfl
  · rfl

theorem Fits.uvmSend (done : state.uvmSend = some next) : Fits next := by
  obtain ⟨id, old, new, uvmSending, todo, -, rfl⟩ := uvmSend_cases done
  refine fits.aside ?_ ?_ ?_ ?_
  · have other : recvs [.uvmWatch id old new] = 0 := rfl
    simp only [outside, recvs_append, other]
    exact Nat.le_refl _
  · rfl
  · rfl
  · intro sent
    rw [sent] at todo
    cases todo

theorem Fits.uvmStep {events : List (Nat × Nat × Nat)} (done : state.uvmStep events = some next) : Fits next := by
  obtain ⟨idle, uvmSending, uvmCalls, callback, watchers, rfl,
    ⟨watcher, at_, rfl⟩ | ⟨rfl, fewer, other⟩⟩ := uvmStep_cases done
  · refine ⟨?_, nofun, nofun⟩
    have room := fits.room
    simp only [outside, at_] at room ⊢
    exact room
  · refine ⟨fits.room, fun calling => fewer (fits.calling calling), fun watcher at_ => ?_⟩
    obtain ⟨-, rest, first⟩ := fits.awaiting watcher at_
    exact absurd first (other watcher rest at_)

/-- A completion that was taken is a receive that is sent again, or is not counted any more. -/
theorem Fits.callbackPoll {answer : Except String Bool} (roomy : Roomy state (.callbackPoll answer))
    (done : state.callbackPoll answer = some next) : Fits next := by
  obtain ⟨polling, comp, cq, taken, rfl⟩ := callbackPoll_cases done
  have room := fits.room
  have one := recvs_cons comp cq
  simp only [outside, polling, taken] at room
  have idle : ∀ recvOps, Fits { state with cq, recvOps } := by
    intro recvOps
    refine ⟨?_, ?_, ?_⟩
    · simp only [outside, polling]
      omega
    · simp [calls, polling]
    · simp [polling]
  cases comp with
  | recv transferId dataLen =>
    by_cases registered : state.recvOps transferId = true
    · simp only [handleTransferCompletion, registered, if_true]
      refine ⟨?_, nofun, nofun⟩
      simp only [isRecv, if_true] at one
      simp only [outside]
      omega
    · simp only [handleTransferCompletion, registered]
      exact idle state.recvOps
  | uvmWatch watcher old new =>
    have release : state.uvmCalls = [] → Fits { state with cq, callback := .callRelease watcher } := by
      intro alone
      refine ⟨?_, fun _ => alone, nofun⟩
      simp only [outside]
      omega
    by_cases watched : state.watchers watcher = true
    · simp only [handleTransferCompletion, watched, if_true]
      cases answer with
      | error _ => exact release roomy
      | ok again =>
        cases again with
        | false => exact release roomy
        | true => exact idle state.recvOps
    · simp only [handleTransferCompletion, watched]
      exact idle state.recvOps
  | error transferId error => exact idle _
  | _ => exact idle state.recvOps

theorem Fits.callbackSend (roomy : Roomy state .callbackSend) (done : state.callbackSend = some next) : Fits next := by
  obtain ⟨transferId, at_, -, rfl⟩ | ⟨watcher, at_, -, rfl⟩ := callbackSend_cases done
  · refine ⟨?_, nofun, nofun⟩
    have room := fits.room
    simp only [outside, at_, length_append, length_singleton] at room ⊢
    omega
  · have calling : state.calls = true := by rw [calls, at_]
    refine ⟨?_, nofun, fun other same => ?_⟩
    · have room := fits.room
      simp only [outside, at_] at room ⊢
      exact room
    · cases same
      exact ⟨roomy calling, [], by rw [fits.calling calling, nil_append]⟩

theorem fire_fits {action : Action} (roomy : Roomy state action) (fired : fire state action = some next) :
    Fits next := by
  cases action with
  | clientCommand command => exact fits.clientCommand roomy fired
  | clientCall => exact fits.clientCall roomy fired
  | clientWatch watcher =>
    cases fired
    exact ⟨fits.room, fits.calling, fits.awaiting⟩
  | workerStep failure completions => exact fits.workerStep fired
  | workerSend => exact fits.workerSend fired
  | uvmStep events => exact fits.uvmStep fired
  | uvmSend => exact fits.uvmSend fired
  | callbackPoll answer => exact fits.callbackPoll roomy fired
  | callbackSend => exact fits.callbackSend roomy fired

end

/-- The threads of an engine do not wait for each other as long as every step leaves room. -/
theorem roomy_noWaitCycle (actions : List Action) (state : EngineThreads)
    (reached : runs (restrict fire Roomy) new actions = some state) : ¬ state.WaitCycle := by
  have fits : Fits state := by
    refine runs_invariant Fits.new ?_ reached
    intro before action after fits fired
    obtain ⟨roomy, steps⟩ := restrict_eq_some.mp fired
    exact fire_fits fits roomy steps
  exact fits.noWaitCycle

/-- A receive completes and is registered again while the watcher's callback ends. -/
def roomyRun : List Action :=
  [.clientCommand (.submitRecv 0), .workerStep none [.recv 0 64], .clientCall, .uvmStep [],
    .clientWatch 0, .uvmStep [(0, 0, 1)],
    .workerSend, .uvmSend, .callbackPoll (.ok true), .callbackSend, .callbackPoll (.ok false), .callbackSend]

theorem roomy_noWaitCycle_roomyRun : ∃ state, runs (restrict fire Roomy) new roomyRun = some state ∧
    state.callback = .awaitRelease 0 ∧ state.cmd = [.submitRecv 0] ∧ ¬ state.WaitCycle := by
  have reached : ((runs (restrict fire Roomy) new roomyRun).any fun state =>
      decide (state.callback = .awaitRelease 0 ∧ state.cmd = [.submitRecv 0])) = true := by decide
  obtain ⟨state, ends, holds⟩ := (Option.any_eq_true ..).mp reached
  obtain ⟨awaiting, again⟩ := of_decide_eq_true holds
  exact ⟨state, ends, awaiting, again, roomy_noWaitCycle roomyRun state ends⟩

/-- A receive completes while the worker and the clients keep both channels full. -/
def receiveRun : List Action :=
  [.clientCommand (.submitRecv 0), .workerStep none [.recv 0 64], .workerSend] ++
    (replicate 127 [.workerStep none [.immData 9], .workerSend]).flatten ++
    [.workerStep none [.immData 9]] ++ replicate 128 (.clientCommand (.submitTransfer 1)) ++
    [.callbackPoll (.ok true), .workerSend, .workerStep none [.immData 9], .clientCommand (.submitTransfer 1)]

/-- A watched value changes while its callback ends. -/
def releaseRun : List Action :=
  [.clientCall, .uvmStep [], .clientWatch 0] ++ (List.range 128).flatMap (fun value =>
    [.uvmStep [(0, value, value + 1)], .uvmSend]) ++
    [.uvmStep [(0, 128, 129)], .callbackPoll (.ok false), .uvmSend, .uvmStep [(0, 129, 130)], .callbackSend]

/-- A run that ends in a wait cycle which is never left. -/
def EndsWaiting (actions : List Action) : Prop :=
  ∃ state, runs fire new actions = some state ∧ state.WaitCycle ∧
    ∀ more final, runs fire state more = some final → final.WaitCycle

private theorem endsWaiting {actions : List Action}
    (reached : ((runs fire new actions).any fun state => decide state.WaitCycle) = true) :
    EndsWaiting actions := by
  obtain ⟨state, ends, holds⟩ := (Option.any_eq_true ..).mp reached
  have cycle := of_decide_eq_true holds
  refine ⟨state, ends, cycle, fun more final continues => ?_⟩
  exact runs_invariant cycle (fun _ _ _ => WaitCycle.stays) continues

/-- Both blocking sends of the callback thread end so. -/
theorem threads_wait_cycle : EndsWaiting receiveRun ∧ EndsWaiting releaseRun :=
  ⟨endsWaiting (by decide +kernel), endsWaiting (by decide +kernel)⟩

end PplxGarden.Fabric.EngineThreads
