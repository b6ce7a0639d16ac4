import Mathlib.Algebra.BigOperators.Fin
import PplxGarden.Fabric.Worker
import PplxGarden.Library.FanOut

/-! What the worker does for one transfer. Seen from a single transfer, every step of
the worker leaves the ledger alone or takes the outcome of one of its operations. -/

namespace PplxGarden.Fabric
open Library.FanOut List
variable {start : Ledger} {posted : Nat}

/-- The transfer whose operation an entry reports, and whether it failed. -/
def DomainCompletionEntry.outcome : DomainCompletionEntry → Option (TransferId × Bool)
  | .transfer transferId => some (transferId, false)
  | .error transferId _ => some (transferId, true)
  | _ => none

def TransferCompletionEntry.notifies (id : TransferId) : TransferCompletionEntry → Bool
  | .transfer transferId => transferId = id
  | .error transferId _ => transferId = id
  | _ => false

namespace Engine

variable {N : Nat} (state : Engine N) (id : TransferId)

def numNotices : Nat := state.sent.countP (·.notifies id)

/-- How often the transfer incremented `tx_counter`. -/
def numCounted : Nat := state.counted.countP (·.1 = id)

def numErrors : Nat := state.counted.countP (· = (id, true))

def numReported (failed : Bool) : Nat := state.reported.countP (· = (id, failed))

def numOutstanding : Nat := state.outstanding.countP (·.transferId = id)

def numQueued (failed : Bool) : Nat := queued state.completions (·.outcome = some (id, failed))

end Engine

def WriteOpContext.record (ctx : WriteOpContext) : Record :=
  ⟨ctx.numUsedDomains, ctx.cntDomainCompletion, ctx.txCounter⟩

def Engine.ledger {N : Nat} (state : Engine N) (id : TransferId) : Ledger where
  record := (state.group.writeOps id).map WriteOpContext.record
  notices := state.numNotices id
  counted := state.numCounted id
  errors := state.numErrors id

@[ext]
structure View where
  ledger : Ledger
  reported : Bool → Nat
  queued : Bool → Nat
  outstanding : Nat

def Engine.view {N : Nat} (state : Engine N) (id : TransferId) : View where
  ledger := state.ledger id
  reported := state.numReported id
  queued := state.numQueued id
  outstanding := state.numOutstanding id

/-- All outcomes taken so far explain the ledger, and no outcome was lost. -/
def View.Tracks (start : Ledger) (posted : Nat) (view : View) : Prop :=
  ∃ outcomes : List Bool, view.ledger = outcomes.foldl Ledger.take start ∧
    (∀ failed, outcomes.count failed + view.queued failed = view.reported failed) ∧
    view.reported false + view.reported true + view.outstanding = posted

def View.take (view : View) (failed : Bool) : View :=
  { view with ledger := view.ledger.take failed, queued := fun other => if other = failed then view.queued other - 1 else view.queued other }

theorem View.Tracks.take {view : View} {failed : Bool} (tracks : view.Tracks start posted)
    (waiting : 0 < view.queued failed) : (view.take failed).Tracks start posted := by
  obtain ⟨outcomes, explained, complete, total⟩ := tracks
  refine ⟨outcomes ++ [failed], ?_, ?_, total⟩
  · rw [foldl_append, ← explained]
    rfl
  · intro other
    have before := complete other
    rw [count_append, count_singleton, View.take]
    by_cases same : other = failed
    · subst same
      simp only [if_true, beq_self_eq_true]
      omega
    · have different : (failed == other) = false := by simpa using Ne.symm same
      simp only [if_neg same, different, Bool.false_eq_true, if_false]
      omega

def View.settle (view : View) (id : TransferId) (entry : DomainCompletionEntry) : View :=
  match entry.outcome with
  | some (transferId, failed) => if transferId = id then view.take failed else view
  | none => view

namespace Proofs

section
variable {N : Nat} {state : Engine N} {domain : Fin N} {entry : DomainCompletionEntry} {entries : List DomainCompletionEntry}
  (id : TransferId)

theorem settle_own {view : View} {failed : Bool} (own : entry.outcome = some (id, failed)) :
    view.settle id entry = view.take failed := by
  simp only [View.settle, own, if_true]

theorem settle_other {view : View} (other : ∀ failed, entry.outcome ≠ some (id, failed)) :
    view.settle id entry = view := by
  unfold View.settle
  split
  next transferId failed reported =>
    refine if_neg fun own => other failed ?_
    rw [reported, own]
  next => rfl

theorem pop_queued (head : state.completions domain = entry :: entries) :
    (state.pop domain entries).numQueued id = ((state.view id).settle id entry).queued := by
  funext failed
  have popped : (state.pop domain entries).numQueued id failed + _ = state.numQueued id failed :=
    queued_pop state.completions (·.outcome = some (id, failed)) head
  by_cases own : ∃ failed, entry.outcome = some (id, failed)
  · obtain ⟨reported, own⟩ := own
    rw [settle_own id own]
    rw [own] at popped
    by_cases same : failed = reported
    · subst same
      simp [View.take, Engine.view] at popped ⊢
      omega
    · simp [Ne.symm same, same, View.take, Engine.view] at popped ⊢
      exact popped
  · have other := not_exists.mp own
    rw [settle_other id other]
    simp [other failed] at popped
    exact popped

private theorem settle_tracks (head : state.completions domain = entry :: entries)
    (tracks : (state.view id).Tracks start posted) : ((state.view id).settle id entry).Tracks start posted := by
  by_cases own : ∃ failed, entry.outcome = some (id, failed)
  · obtain ⟨reported, own⟩ := own
    rw [settle_own id own]
    apply tracks.take
    have popped := queued_pop state.completions (·.outcome = some (id, reported)) head
    simp only [own, decide_true, if_true] at popped
    exact Nat.lt_of_lt_of_eq (Nat.zero_lt_succ _) popped
  · rw [settle_other id (not_exists.mp own)]
    exact tracks

end

section
variable {N : Nat} (state : Engine N) (id : TransferId)

theorem ledger_record : (state.ledger id).record = (state.group.writeOps id).map WriteOpContext.record := rfl

@[simp] theorem send_ledger (entry : TransferCompletionEntry) : (state.send entry).ledger id =
    { state.ledger id with notices := (state.ledger id).notices + if entry.notifies id then 1 else 0 } := by
  simp [Engine.ledger, Engine.send, Engine.numNotices, Engine.numCounted, Engine.numErrors, countP_singleton]

@[simp] theorem count_ledger (transferId : TransferId) (failed : Bool) : (state.count transferId failed).ledger id =
    { state.ledger id with
      counted := (state.ledger id).counted + if transferId = id then 1 else 0
      errors := (state.ledger id).errors + if transferId = id ∧ failed then 1 else 0 } := by
  simp [Engine.ledger, Engine.count, Engine.numNotices, Engine.numCounted, Engine.numErrors, countP_singleton]

@[simp] theorem setWriteOp_ledger (transferId : TransferId) (ctx : Option WriteOpContext) :
    (state.setWriteOp transferId ctx).ledger id =
      { state.ledger id with record := if id = transferId then ctx.map WriteOpContext.record else (state.ledger id).record } := by
  rw [ledger_record, ← apply_ite (Option.map WriteOpContext.record)]
  simp [Engine.ledger, Engine.setWriteOp, Function.update_apply, Engine.numNotices, Engine.numCounted, Engine.numErrors]

theorem failTransfer_ledger (transferId : TransferId) (err : FabricLibError) :
    ((state.failTransfer transferId).send (.error transferId err)).ledger id =
      if transferId = id then (state.ledger id).take true else state.ledger id := by
  by_cases own : transferId = id
  · subst own
    cases found : state.group.writeOps transferId with
    | none => simp [Engine.failTransfer, found, TransferCompletionEntry.notifies, Ledger.take, ledger_record]
    | some ctx =>
      cases tallied : ctx.txCounter <;>
        simp [Engine.failTransfer, found, tallied, TransferCompletionEntry.notifies, Ledger.take,
          ledger_record, Record.fail, WriteOpContext.record]
  · cases found : state.group.writeOps transferId with
    | none => simp [Engine.failTransfer, found, own, TransferCompletionEntry.notifies]
    | some ctx =>
      cases tallied : ctx.txCounter <;> simp [Engine.failTransfer, found, tallied, own, Ne.symm own,
        TransferCompletionEntry.notifies]

private theorem ignored_ledger {transferId : TransferId} (missing : state.group.writeOps transferId = none) :
    state.ledger id = if transferId = id then (state.ledger id).take false else state.ledger id := by
  split
  next own =>
    subst own
    simp [Ledger.take, ledger_record, missing]
  next => rfl

section
variable {transferId : TransferId} {ctx : WriteOpContext} (found : state.group.writeOps transferId = some ctx)
include found

private theorem counted_ledger (last : ctx.numUsedDomains = ctx.cntDomainCompletion + 1)
    (tallied : ctx.txCounter = true) :
    ((state.setWriteOp transferId none).count transferId false).ledger id =
      if transferId = id then (state.ledger id).take false else state.ledger id := by
  by_cases own : transferId = id
  · subst own
    simp [Ledger.take, ledger_record, found, Record.succeed, WriteOpContext.record, last, tallied]
  · simp [own, Ne.symm own]

private theorem announced_ledger (last : ctx.numUsedDomains = ctx.cntDomainCompletion + 1)
    (plain : ctx.txCounter = false) :
    ((state.setWriteOp transferId none).send (.transfer transferId)).ledger id =
      if transferId = id then (state.ledger id).take false else state.ledger id := by
  by_cases own : transferId = id
  · subst own
    simp [Ledger.take, ledger_record, found, Record.succeed, WriteOpContext.record, last, plain,
      TransferCompletionEntry.notifies]
  · simp [own, Ne.symm own, TransferCompletionEntry.notifies]

private theorem advanced_ledger (more : ctx.numUsedDomains ≠ ctx.cntDomainCompletion + 1) :
    (state.setWriteOp transferId (some { ctx with cntDomainCompletion := ctx.cntDomainCompletion + 1 })).ledger id =
      if transferId = id then (state.ledger id).take false else state.ledger id := by
  by_cases own : transferId = id
  · subst own
    simp [Ledger.take, ledger_record, found, Record.succeed, WriteOpContext.record, more]
  · simp [own, Ne.symm own]

end

end

section
variable {N : Nat} {state : Engine N} {domain : Fin N} {entry : DomainCompletionEntry} {entries : List DomainCompletionEntry}
  {id : TransferId}

private theorem settle_ledger (id : TransferId) (entry : DomainCompletionEntry) (view : View) :
    (view.settle id entry).ledger =
      match entry.outcome with
      | some (transferId, failed) => if transferId = id then view.ledger.take failed
        else view.ledger
      | none => view.ledger := by
  unfold View.settle
  cases entry.outcome with
  | none => rfl
  | some outcome => exact apply_ite View.ledger _ _ _

private theorem settle_frame (id : TransferId) (entry : DomainCompletionEntry) (view : View) :
    (view.settle id entry).reported = view.reported ∧ (view.settle id entry).outstanding = view.outstanding := by
  by_cases own : ∃ failed, entry.outcome = some (id, failed)
  · obtain ⟨failed, own⟩ := own
    rw [settle_own id own]
    exact ⟨rfl, rfl⟩
  · rw [settle_other id (not_exists.mp own)]
    exact ⟨rfl, rfl⟩

/-- The worker dealt with an entry: nothing but its record, notices and counters
changed after the entry was taken off the queue. -/
structure Handled (popped after : Engine N) : Prop where
  reported : after.reported = popped.reported
  outstanding : after.outstanding = popped.outstanding
  completions : after.completions = popped.completions

theorem settled_view {after : Engine N} (head : state.completions domain = entry :: entries)
    (ledger : after.ledger id = ((state.view id).settle id entry).ledger)
    (handled : Handled (state.pop domain entries) after) :
    after.view id = (state.view id).settle id entry := by
  obtain ⟨reported, outstanding⟩ := settle_frame id entry (state.view id)
  refine View.ext ledger ?_ ?_ ?_
  · rw [reported]
    funext failed
    exact congrArg (countP _) handled.reported
  · rw [← pop_queued id head]
    funext failed
    exact congrArg (fun queues => queued queues _) handled.completions
  · rw [outstanding]
    exact congrArg (countP _) handled.outstanding

theorem settled_tracks {after : Engine N} (tracks : (state.view id).Tracks start posted)
    (head : state.completions domain = entry :: entries)
    (ledger : after.ledger id = ((state.view id).settle id entry).ledger)
    (handled : Handled (state.pop domain entries) after) : (after.view id).Tracks start posted := by
  rw [settled_view head ledger handled]
  exact settle_tracks id head tracks

/-- What the worker has after it sent on what a call of `get_completion` returned. -/
def announce : Option DomainCompletionEntry × Engine N → Engine N
  | (none, state) => state
  | (some entry, state) => state.send entry.txComp

private theorem failTransfer_handled (transferId : TransferId) (entry : TransferCompletionEntry) :
    Handled state ((state.failTransfer transferId).send entry) := by
  unfold Engine.failTransfer
  split
  next => exact ⟨rfl, rfl, rfl⟩
  next =>
    simp only
    split
    next => exact ⟨rfl, rfl, rfl⟩
    next => exact ⟨rfl, rfl, rfl⟩

theorem passed_tracks (tracks : (state.view id).Tracks start posted)
    (head : state.completions domain = entry :: entries) (silent : entry.outcome = none)
    (foreign : entry.txComp.notifies id = false) :
    (((state.pop domain entries).send entry.txComp).view id).Tracks start posted := by
  refine settled_tracks tracks head ?_ ⟨rfl, rfl, rfl⟩
  rw [settle_ledger, silent, send_ledger, foreign]
  rfl

theorem getCompletionFrom_tracks (domains : List (Fin N)) (tracks : (state.view id).Tracks start posted) :
    ((announce (Engine.getCompletionFrom domains state)).view id).Tracks start posted := by
  induction domains generalizing state with
  | nil => exact tracks
  | cons domain domains ih =>
    unfold Engine.getCompletionFrom
    split
    next => exact ih tracks
    next entry entries head =>
      have ledger := settle_ledger id entry (state.view id)
      cases entry with
      | error transferId err =>
        exact settled_tracks tracks head
          ((failTransfer_ledger (state.pop domain entries) id transferId err).trans ledger.symm)
          (failTransfer_handled transferId _)
      | transfer transferId =>
        simp only
        split
        next missing =>
          exact ih (settled_tracks tracks head
            ((ignored_ledger (state.pop domain entries) id missing).trans ledger.symm) ⟨rfl, rfl,
            rfl⟩)
        next ctx found =>
          split
          next last =>
            split
            next tallied =>
              exact settled_tracks tracks head ((counted_ledger _ id found last tallied).trans ledger.symm) ⟨rfl, rfl, rfl⟩
            next plain =>
              have untallied := Bool.eq_false_of_not_eq_true plain
              exact settled_tracks tracks head ((announced_ledger _ id found last untallied).trans
                ledger.symm) ⟨rfl, rfl, rfl⟩
          next more =>
            exact ih (settled_tracks tracks head ((advanced_ledger _ id found more).trans ledger.symm) ⟨rfl, rfl, rfl⟩)
      | recv transferId dataLen => exact passed_tracks tracks head rfl rfl
      | send transferId => exact passed_tracks tracks head rfl rfl
      | immData imm => exact passed_tracks tracks head rfl rfl
      | immCountReached imm => exact passed_tracks tracks head rfl rfl

theorem sendCompletions_tracks (rounds : Nat) (tracks : (state.view id).Tracks start posted) :
    ((Engine.sendCompletions rounds state).view id).Tracks start posted := by
  induction rounds generalizing state with
  | zero => exact tracks
  | succ rounds ih =>
    have polled := getCompletionFrom_tracks (finRange N) tracks
    unfold Engine.sendCompletions Engine.getCompletion
    split
    next after result =>
      rw [result] at polled
      exact polled
    next entry after result =>
      rw [result] at polled
      exact ih polled

/-! The loop ends before its bound: every round takes an entry. -/

theorem numCompletions_eq (state : Engine N) : state.numCompletions = queued state.completions fun _ => true := by
  simp [Engine.numCompletions, queued, Fin.sum_univ_def]

private theorem pop_numCompletions (head : state.completions domain = entry :: entries) :
    (state.pop domain entries).numCompletions + 1 = state.numCompletions := by
  rw [numCompletions_eq, numCompletions_eq]
  exact queued_pop state.completions (fun _ => true) head

theorem getCompletionFrom_takes (domains : List (Fin N)) : (Engine.getCompletionFrom domains state).2.numCompletions +
    (Engine.getCompletionFrom domains state).1.isSome.toNat ≤ state.numCompletions := by
  induction domains generalizing state with
  | nil => exact Nat.le_refl _
  | cons domain domains ih =>
    unfold Engine.getCompletionFrom
    split
    next => exact ih
    next entry entries head =>
      have popped := pop_numCompletions head
      have fewer : (state.pop domain entries).numCompletions ≤ state.numCompletions := by omega
      cases entry with
      | error transferId err =>
        have same : ((state.pop domain entries).failTransfer transferId).numCompletions =
            (state.pop domain entries).numCompletions :=
          congrArg (fun queues : Fin N → List DomainCompletionEntry =>
            ((finRange N).map fun domain => (queues domain).length).sum)
            (failTransfer_handled transferId (.transfer transferId)).completions
        exact Nat.le_of_eq ((congrArg (· + 1) same).trans popped)
      | transfer transferId =>
        simp only
        split
        next missing => exact Nat.le_trans ih fewer
        next ctx found =>
          split
          next last =>
            split
            next tallied => exact fewer
            next plain => exact Nat.le_of_eq popped
          next more => exact Nat.le_trans ih fewer
      | recv transferId dataLen => exact Nat.le_of_eq popped
      | send transferId => exact Nat.le_of_eq popped
      | immData imm => exact Nat.le_of_eq popped
      | immCountReached imm => exact Nat.le_of_eq popped

theorem sendCompletions_ends {rounds : Nat} (enough : state.numCompletions < rounds) :
    ∃ last : Engine N, last.getCompletion = (none, Engine.sendCompletions rounds state) := by
  induction rounds generalizing state with
  | zero => exact absurd enough (Nat.not_lt_zero _)
  | succ rounds ih =>
    have taken : state.getCompletion.2.numCompletions + state.getCompletion.1.isSome.toNat ≤ state.numCompletions :=
      getCompletionFrom_takes (finRange N)
    rw [Engine.sendCompletions]
    split
    next after result => exact ⟨state, result⟩
    next entry after result =>
      rw [result] at taken
      refine ih ?_
      have fewer : after.numCompletions + 1 ≤ state.numCompletions := taken
      exact Nat.lt_of_lt_of_le fewer (Nat.le_of_lt_succ enough)

theorem complete_tracks (tracks : (state.view id).Tracks start posted) (domain : Fin N)
    (silent : entry.outcome = none) : ((state.complete domain entry).view id).Tracks start posted := by
  have queues : (state.complete domain entry).numQueued id = state.numQueued id := by
    funext failed
    refine (queued_push state.completions domain _ entry).trans ?_
    simp [silent, Engine.numQueued]
  obtain ⟨outcomes, explained, complete, total⟩ := tracks
  refine ⟨outcomes, explained, fun failed => ?_, total⟩
  exact (congrArg (outcomes.count failed + ·) (congrFun queues failed)).trans (complete failed)

private theorem erase_outstanding {op : Posted N} {ops : List (Posted N)} (member : op ∈ ops) :
    (ops.erase op).countP (·.transferId = id) + (if op.transferId = id then 1 else 0) =
      ops.countP (·.transferId = id) := by
  rw [(perm_cons_erase member).countP_eq, countP_cons]
  simp

private theorem completionEntry_outcome (transferId : TransferId) (failure : Option FabricLibError) :
    (completionEntry transferId failure).outcome = some (transferId, failure.isSome) := by
  cases failure with
  | none => rfl
  | some err => rfl

theorem report_tracks (tracks : (state.view id).Tracks start posted) (op : Posted N)
    (failure : Option FabricLibError) : ((state.report op failure).view id).Tracks start posted := by
  by_cases member : op ∈ state.outstanding
  · obtain ⟨outcomes, explained, complete, total⟩ := tracks
    have outstanding : (state.report op failure).numOutstanding id + (if op.transferId = id then 1
        else 0) = state.numOutstanding id := by
      rw [Engine.report, if_pos member]
      exact erase_outstanding member
    have reported (failed : Bool) : (state.report op failure).numReported id failed =
        state.numReported id failed + if op.transferId = id ∧ failure.isSome = failed then 1 else 0 := by
      rw [Engine.report, if_pos member]
      simp [Engine.numReported, countP_singleton]
    have queues (failed : Bool) : (state.report op failure).numQueued id failed =
        state.numQueued id failed + if op.transferId = id ∧ failure.isSome = failed then 1 else 0 := by
      rw [Engine.report, if_pos member]
      refine (queued_push state.completions op.domain _ _).trans ?_
      simp [completionEntry_outcome, Engine.numQueued]
    refine ⟨outcomes, ?_, fun failed => ?_, ?_⟩
    · rw [← explained, Engine.report, if_pos member]
      rfl
    · have before := complete failed
      simp only [Engine.view, reported, queues] at before ⊢
      omega
    · simp only [Engine.view, reported] at total ⊢
      by_cases own : op.transferId = id
      · cases failure.isSome <;> simp [own] at outstanding ⊢ <;> omega
      · simp [own] at outstanding ⊢
        omega
  · rw [Engine.report, if_neg member]
    exact tracks

theorem progress_tracks (tracks : (state.view id).Tracks start posted) (progress : Progress N) :
    ((state.progress progress).view id).Tracks start posted := by
  cases progress with
  | report op failure => exact report_tracks tracks op failure
  | recv domain transferId dataLen => exact complete_tracks tracks domain rfl
  | send domain transferId => exact complete_tracks tracks domain rfl
  | immData domain imm => exact complete_tracks tracks domain rfl
  | immCountReached domain imm => exact complete_tracks tracks domain rfl

end

end Proofs

end PplxGarden.Fabric
