import PplxGarden.Fabric.Callbacks

/-! Where the callback thread blocks on itself: it removes a watcher while it still holds the
reference to it. All other removals come after the reference is dropped. -/

namespace PplxGarden.Fabric.Proofs
open CallbackState

/-- The thread gets to the end and holds no reference there. -/
def Ends (handled : Option (Except String Unit × CallbackState)) : Prop :=
  ∃ result final, handled = some (result, final) ∧ final.refs = []

/-- A watcher that is called wants to be called again. -/
def WatcherStays (callbacks : Callbacks) : TransferCompletionEntry → Prop
  | .uvmWatch id old new => ∀ callback, callbacks.watchers id = some callback → callback old new = .ok true
  | _ => True

section
variable {state : CallbackState} {engine : EngineAnswers}

theorem remove_free (key : CallbackKey) (free : state.refs = []) :
    ∃ final, state.remove key = some final ∧ final.refs = [] :=
  ⟨_, if_neg (by rw [free]; exact List.not_mem_nil), free⟩

theorem log_refs (context : String) (result : Except String Unit) : (state.log context result).refs = state.refs := by
  unfold log
  split <;> rfl

theorem drop_get (key : CallbackKey) : ((state.get key).drop key).refs = state.refs := List.erase_cons_head ..

private theorem handleTransfer_ends (free : state.refs = []) (transferId : TransferId) :
    Ends (state.handleTransfer transferId) := by
  obtain ⟨final, removed, after⟩ := remove_free (.transferOps transferId) free
  simp only [handleTransfer, removed]
  cases state.callbacks.transferOps transferId with
  | none => exact ⟨_, _, rfl, after⟩
  | some handler => exact ⟨_, _, rfl, after⟩

private theorem handleSend_ends (free : state.refs = []) (transferId : TransferId) :
    Ends (state.handleSend transferId) := by
  obtain ⟨final, removed, after⟩ := remove_free (.sendOps transferId) free
  simp only [handleSend, removed]
  cases state.callbacks.sendOps transferId with
  | none => exact ⟨_, _, rfl, after⟩
  | some handler => exact ⟨_, _, rfl, after⟩

/-- The reference is held while the receive is posted again, which touches no map. -/
theorem handleRecv_refs (transferId : TransferId) (dataLen : Nat) :
    (state.handleRecv engine transferId dataLen).2.refs = state.refs := by
  unfold handleRecv
  split
  next => rfl
  next =>
    simp only
    split
    next => exact drop_get _
    next => exact drop_get _

private theorem handleImmCountReached_ends (free : state.refs = []) (imm : Nat) :
    Ends (state.handleImmCountReached engine imm) := by
  have dropped := (drop_get (.immCount imm)).trans free
  obtain ⟨final, removed, after⟩ := remove_free (.immCount imm) dropped
  unfold handleImmCountReached
  split
  next => exact ⟨_, _, rfl, free⟩
  next handler _ =>
    cases handler with
    | once =>
      simp only [removed]
      exact ⟨_, _, rfl, after⟩
    | repeated answer =>
      simp only [removed]
      split
      next => exact ⟨_, _, rfl, dropped⟩
      next => exact ⟨_, _, rfl, after⟩

theorem handleError_ends (free : state.refs = []) (transferId : TransferId)
    (error : FabricLibError) :
    Ends (state.handleError transferId error) := by
  obtain ⟨first, removed, after⟩ := remove_free (.transferOps transferId) free
  obtain ⟨second, removed', after'⟩ := remove_free (.sendOps transferId) after
  obtain ⟨third, removed'', after''⟩ := remove_free (.recvOps transferId) after'
  simp only [handleError, removed, removed', removed'', Option.bind_eq_bind, Option.bind_some]
  split
  next => exact ⟨_, _, rfl, (log_refs ..).trans after⟩
  next =>
    split
    next => exact ⟨_, _, rfl, (log_refs ..).trans after'⟩
    next =>
      split
      next => exact ⟨_, _, rfl, (log_refs ..).trans after''⟩
      next => exact ⟨_, _, rfl, after''⟩

theorem handleUvmWatch_ends_iff (free : state.refs = []) (id old new : Nat) :
    Ends (state.handleUvmWatch engine id old new) ↔
      ∀ callback, state.callbacks.watchers id = some callback → callback old new = .ok true := by
  have dropped := (drop_get (.watchers id)).trans free
  unfold handleUvmWatch
  cases state.callbacks.watchers id with
  | none => exact iff_of_true ⟨_, _, rfl, free⟩ fun _ called => absurd called.symm (Option.some_ne_none _)
  | some callback =>
    simp only [Option.some.injEq, forall_eq']
    split
    next again => exact iff_of_true ⟨_, _, rfl, dropped⟩ again
    next stops =>
      refine iff_of_false ?_ stops
      rintro ⟨_, _, ended, _⟩
      obtain ⟨_, removed, _⟩ := Option.bind_eq_some_iff.mp ended
      have held : CallbackKey.watchers id ∈
          (((state.get (.watchers id)).call (.releaseUvmWatcher id)).log "Failed to release UvmWatcher: "
          ((engine.releaseUvmWatcher id).mapError FabricLibError.display)).refs := by
        rw [log_refs]
        exact List.mem_cons_self ..
      rw [remove, if_pos held] at removed
      cases removed

end

/-- A completion is handled to its end unless it stops a watcher. -/
theorem handling_ends_iff (engine : EngineAnswers) (callbacks : Callbacks) (comp : TransferCompletionEntry) :
    Ends (handleTransferCompletion ⟨callbacks, [], [], []⟩ engine comp) ↔ WatcherStays callbacks comp := by
  cases comp with
  | transfer transferId => exact iff_of_true (handleTransfer_ends rfl transferId) trivial
  | recv transferId dataLen => exact iff_of_true ⟨_, _, rfl, handleRecv_refs transferId dataLen⟩ trivial
  | send transferId => exact iff_of_true (handleSend_ends rfl transferId) trivial
  | immData imm => exact iff_of_true ⟨_, _, rfl, rfl⟩ trivial
  | immCountReached imm => exact iff_of_true (handleImmCountReached_ends rfl imm) trivial
  | uvmWatch id old new => exact handleUvmWatch_ends_iff rfl id old new
  | error transferId error => exact iff_of_true (handleError_ends rfl transferId error) trivial

/-- A watcher that is told of a new value and answers that it is done. -/
theorem stopped_watcher_blocks :
    ¬ Ends (handleTransferCompletion
      ⟨{ Callbacks.new with watchers := fun _ => some fun _ _ => .ok false }, [], [], []⟩
      ⟨fun _ _ _ _ => .ok (), fun _ => none, fun _ => .ok ()⟩ (.uvmWatch 0 0 1)) := by
  rintro ⟨_, _, ended, _⟩
  cases ended

end PplxGarden.Fabric.Proofs
