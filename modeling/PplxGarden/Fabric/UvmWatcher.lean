import PplxGarden.Fabric.EngineThreads
import PplxGarden.Library.Runs

/-! Watchers of words that the device writes. The thread hands out slots of one host page,
polls those in use, and reports each change as the old and the new value. -/

namespace PplxGarden.Fabric

/-- The free slots are a vector, the end first; the used slots are a set. -/
structure UvmWatcherContext where
  base : Nat
  size : Nat
  memory : Nat → Nat
  lastValues : List Nat
  freeSlots : List Nat
  usedSlots : List Nat

namespace UvmWatcherContext

def uvmWatcherBytes : Nat := 4096

def numSlots : Nat := uvmWatcherBytes / 8

def new (base : Nat) : UvmWatcherContext where
  base := base
  size := uvmWatcherBytes
  memory _ := 0
  lastValues := List.replicate numSlots 0
  freeSlots := List.range numSlots
  usedSlots := []

variable (context : UvmWatcherContext)

def slotToId (slot : Nat) : Nat := context.base + 8 * slot

def acquire : Option Nat × UvmWatcherContext :=
  match context.freeSlots with
  | slot :: freeSlots => (some (context.slotToId slot), { context with freeSlots, usedSlots := context.usedSlots.insert slot })
  | [] => (none, context)

def idToSlot (id : Nat) : Nat := (id - context.base) / 8

def InBounds (id : Nat) : Prop := context.base ≤ id ∧ id < context.base + context.size

instance (id : Nat) : Decidable (context.InBounds id) := inferInstanceAs (Decidable (_ ∧ _))

def reset (slot : Nat) : UvmWatcherContext :=
  { context with
    memory := Function.update context.memory slot 0
    lastValues := context.lastValues.set slot 0
    freeSlots := slot :: context.freeSlots
    usedSlots := context.usedSlots.erase slot }

/-- `none` is a panic. -/
def release (id : Nat) : Option UvmWatcherContext :=
  let slot := context.idToSlot id
  if ¬ context.InBounds id then none
  else if slot ∉ context.usedSlots then some context
  else if slot < context.lastValues.length then some (context.reset slot)
  else none

/-- The change of a slot, if there is one; `none` is a panic. -/
def poll (slot : Nat) : Option (UvmWatcherContext × Option (Nat × Nat)) :=
  context.lastValues[slot]?.map fun old =>
    let value := context.memory slot
    if value ≠ old then ({ context with lastValues := context.lastValues.set slot value }, some (old, value)) else (context, none)

end UvmWatcherContext

inductive UvmReceived where
  | call (call : UvmWatcherCall)
  | empty
  | disconnected
deriving Repr, DecidableEq

inductive UvmEntry where
  | acquired (id : Nat)
  | released (id : Nat)
  | uvmWatch (id old new : Nat)
deriving Repr, DecidableEq

/-- `pending` are the slots that the step has still to poll, and the thread has `stopped` once
a step has failed. -/
structure UvmWorker where
  context : Option UvmWatcherContext
  pending : List Nat
  stopped : Bool
  log : List UvmEntry

namespace UvmWorker

def new : UvmWorker := ⟨none, [], false, []⟩

variable (base : Nat) (worker : UvmWorker)

def acquire (answered : Bool) : UvmWorker :=
  let (result, context) := (worker.context.getD (.new base)).acquire
  { worker with context := some context, log := worker.log ++ (result.map .acquired).toList, stopped := !answered }

def release (watcher : Nat) (answered : Bool) : Option UvmWorker :=
  match worker.context with
  | none => some { worker with stopped := !answered }
  | some context =>
    let slot := context.idToSlot watcher
    (context.release watcher).map fun next => { worker with
      context := some next
      log := worker.log ++ if slot ∈ context.usedSlots then [.released (context.slotToId slot)] else []
      stopped := !answered }

/-- The start of a step; `answered` is whether the caller waits for the result. -/
def receive (answered : Bool) : UvmReceived → Option UvmWorker
  | .call .acquireUvmWatcher => some (worker.acquire base answered)
  | .call (.releaseUvmWatcher watcher) => worker.release watcher answered
  | .empty => some worker
  | .disconnected => some { worker with stopped := true }

def usedSlots : List Nat := worker.context.elim [] UvmWatcherContext.usedSlots

/-- One slot of the loop of a step; `sent` is whether the completion queue takes an event. -/
def pollSlot (sent : Bool) (slot : Nat) (pending : List Nat) : Option UvmWorker := do
  let context ← worker.context
  let (next, change) ← context.poll slot
  match change with
  | none => return { worker with context := some next, pending }
  | some (old, value) =>
    if sent then return { worker with context := some next, pending, log := worker.log ++ [.uvmWatch (context.slotToId slot) old value] }
    else return { worker with context := some next, pending, stopped := true }

inductive Action where
  | write (slot value : Nat)
  | step (received : UvmReceived) (answered : Bool) (order : List Nat)
  | poll (sent : Bool)
deriving Repr, DecidableEq

/-- A step of the thread, with the writes of the device between the slots it polls. The used
slots are polled in the order in which the set is iterated. -/
def fire : Action → Option UvmWorker
  | .write slot value =>
    worker.context.map fun context => { worker with context := some { context with memory := Function.update context.memory slot value } }
  | .step received answered order =>
    if worker.stopped ∨ worker.pending ≠ [] then none
    else
      (worker.receive base answered received).bind fun next =>
        if next.stopped then some next
        else if order.Perm next.usedSlots then some { next with pending := order }
        else none
  | .poll sent =>
    if worker.stopped then none
    else
      match worker.pending with
      | [] => none
      | slot :: pending => worker.pollSlot sent slot pending

end UvmWorker

end PplxGarden.Fabric
