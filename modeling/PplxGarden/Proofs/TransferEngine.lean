import PplxGarden.Fabric.TransferEngine

/-! A submission that fails leaves its callback behind. -/

namespace PplxGarden.Fabric.Proofs
open TransferEngine

variable {α : Type}

def SameOps (before after : Callbacks) : Prop :=
  after.transferOps = before.transferOps ∧ after.sendOps = before.sendOps ∧ after.recvOps = before.recvOps

/-- If the submission returns an error, the maps are as before. -/
def FailsCleanly (state : TransferEngine α) (submission : Submission) : Prop :=
  (∃ error, (state.submit submission).1 = .error error) → SameOps state.callbacks (state.submit submission).2.callbacks

def workerFor (state : TransferEngine α) : Submission → Option Nat
  | .transfer request _ => (state.engine.submitTransfer request).toOption.map Prod.fst
  | _ => some state.engine.getMainWorker.1

/-- There is a worker for the submission, and it is up. -/
def Accepted (state : TransferEngine α) (submission : Submission) : Prop :=
  ∃ worker, workerFor state submission = some worker ∧ state.down worker = false

/-- The callback is in its map already, under the id that the submission gets. -/
def Stored (state : TransferEngine α) : Submission → Prop
  | .transfer _ callback => state.callbacks.transferOps state.nextTransferId = some callback
  | .send _ _ callback => state.callbacks.sendOps state.nextTransferId = some callback
  | .recv mr ptr len onRecv onError => state.callbacks.recvOps state.nextTransferId = some ⟨mr, ptr, len, onRecv, onError⟩

section
variable (state : TransferEngine α)
include state

theorem sendCommand_callbacks (worker : Nat) (command : EngineCommand) :
    (state.sendCommand worker command).2.callbacks = state.callbacks := by
  unfold sendCommand
  split <;> rfl

theorem sendCommand_fails_iff (worker : Nat) (command : EngineCommand) :
    (∃ error, (state.sendCommand worker command).1 = .error error) ↔ ¬ state.down worker = false := by
  unfold sendCommand
  split
  next down => simp [down]
  next up => simp [up]

theorem submit_fails_iff (submission : Submission) :
    (∃ error, (state.submit submission).1 = .error error) ↔ ¬ Accepted state submission := by
  unfold Accepted
  cases submission with
  | transfer request callback =>
    simp only [submit, submitTransfer, assignTransferId, workerFor]
    cases state.engine.submitTransfer request with
    | error error => simp [Except.toOption]
    | ok worker =>
      simp only [Except.toOption, Option.map_some, Option.some.injEq, exists_eq_left']
      exact sendCommand_fails_iff ..
  | send addr buffer callback =>
    simp only [workerFor, Option.some.injEq, exists_eq_left']
    exact sendCommand_fails_iff ..
  | recv mr ptr len onRecv onError =>
    simp only [workerFor, Option.some.injEq, exists_eq_left']
    exact sendCommand_fails_iff ..

private theorem submitTransfer_callbacks (request : TransferRequest) (callback : TransferCallback) :
    (state.submitTransfer request callback).2.callbacks =
      { state.callbacks with transferOps := Function.update state.callbacks.transferOps state.nextTransferId (some callback) } := by
  simp only [submitTransfer, assignTransferId]
  split
  next => rfl
  next => exact sendCommand_callbacks ..

/-- Whether or not it fails, a submission keeps the maps only if they have its callback. -/
theorem submit_same_iff (submission : Submission) :
    SameOps state.callbacks (state.submit submission).2.callbacks ↔ Stored state submission := by
  unfold SameOps Stored
  cases submission with
  | transfer request callback => simp [submit, submitTransfer_callbacks, eq_comm]
  | send addr buffer callback => simp [submit, submitSend, assignTransferId, sendCommand_callbacks, eq_comm]
  | recv mr ptr len onRecv onError => simp [submit, submitRecv, assignTransferId, sendCommand_callbacks, eq_comm]

end

/-- A submission leaves nothing behind exactly if it does not fail, or repeats a callback. -/
theorem failsCleanly_iff (state : TransferEngine α) (submission : Submission) :
    FailsCleanly state submission ↔ Accepted state submission ∨ Stored state submission := by
  rw [FailsCleanly, submit_fails_iff, submit_same_iff]
  exact or_iff_not_imp_left.symm

def oneWorker : FabricEngine Unit := .new [(0, [])] (List.pairwise_singleton ..) (List.cons_ne_nil _ _)

/-- A receive on an engine whose worker is down fails, and its context stays. -/
theorem recv_callback_left : ¬ FailsCleanly { TransferEngine.new oneWorker with down := fun _ => true }
    (.recv 1 1 64 (fun _ => .ok ()) (fun _ => .ok ())) := by
  intro clean
  have same := (clean ⟨_, rfl⟩).2.2
  have entry := congrFun same 0
  cases entry

end PplxGarden.Fabric.Proofs
