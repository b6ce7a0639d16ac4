import PplxGarden.Fabric.ImmCount
import PplxGarden.Fabric.Worker

/-! Immediate values on their way to the callbacks. The worker counts them as they
arrive; the callback thread takes what the worker sends, one entry after the other. -/

namespace PplxGarden.Fabric

/-- A repeated callback answers whether it wants to be called again. -/
inductive ImmCountFn where
  | once
  | repeated (answer : Except String Bool)

/-- Between the answer of a callback and the removal of its counter, values may
arrive. -/
inductive CallbackThread where
  | idle
  | removing (imm : Nat)
deriving Repr, DecidableEq

/-- `immCalls` and `countCalls` are the callbacks run, and `arrived` are the values that
arrived since their counter was set. -/
structure ImmEngine where
  immCountMap : ImmCountMap
  handlers : Nat → Option ImmCountFn
  callbacks : Nat
  entries : List TransferCompletionEntry
  thread : CallbackThread
  immCalls : List (Nat × Nat)
  countCalls : List Nat
  arrived : Nat → Nat

namespace ImmEngine

variable (state : ImmEngine)

def setImmCountExpected (imm : Nat) (expected : NonZeroU32) (callback : Except String Bool) : ImmEngine :=
  { state with
    handlers := Function.update state.handlers imm (some (.repeated callback))
    immCountMap := state.immCountMap.setExpected imm expected
    arrived := Function.update state.arrived imm 0 }

/-- `handle_cqe` of a remote write, on its way through the worker. -/
def handleCqe (imm : Nat) : ImmEngine :=
  let (status, immCountMap) := state.immCountMap.inc imm
  let entry : Option DomainCompletionEntry :=
    match status with
    | .vacant => some (.immData imm)
    | .notReached => none
    | .reached => some (.immCountReached imm)
  { state with
    immCountMap
    entries := state.entries ++ (entry.map (·.txComp)).toList
    arrived := Function.update state.arrived imm (state.arrived imm + 1) }

def callImm (imm : Nat) : ImmEngine :=
  { state with immCalls := state.immCalls ++ (List.range state.callbacks).map (·, imm) }

def runCount (imm : Nat) : ImmEngine := { state with countCalls := state.countCalls ++ [imm] }

/-- `handle_transfer_completion`, for the entries of immediate values. -/
def handleTransferCompletion (comp : TransferCompletionEntry) : ImmEngine :=
  match comp with
  | .immData imm => state.callImm imm
  | .immCountReached imm =>
    match state.handlers imm with
    | none => state
    | some .once => { state with handlers := Function.update state.handlers imm none }.runCount imm
    | some (.repeated (.ok true)) => state.runCount imm
    | some (.repeated _) => { state.runCount imm with thread := .removing imm }
  | _ => state

/-- The counter is removed, and what it holds goes to the callbacks. -/
def removeImmCount (imm : Nat) : ImmEngine :=
  let immCount := state.immCountMap imm
  let state := { state with
    handlers := Function.update state.handlers imm none
    immCountMap := state.immCountMap.remove imm
    thread := .idle }
  match immCount with
  | none => state
  | some immCount => (List.range immCount.consume.1).foldl (fun state _ => state.callImm imm) state

inductive Action where
  | register (imm : Nat) (expected : NonZeroU32) (callback : Except String Bool)
  | arrive (imm : Nat)
  | poll
  | remove

def fire (state : ImmEngine) : Action → Option ImmEngine
  | .register imm expected callback => some (state.setImmCountExpected imm expected callback)
  | .arrive imm => some (state.handleCqe imm)
  | .poll =>
    match state.thread, state.entries with
    | .idle, comp :: entries => some ({ state with entries }.handleTransferCompletion comp)
    | _, _ => none
  | .remove =>
    match state.thread with
    | .removing imm => some (state.removeImmCount imm)
    | .idle => none

end ImmEngine

end PplxGarden.Fabric
