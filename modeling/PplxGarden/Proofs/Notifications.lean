import Mathlib.Data.Bool.Count
import PplxGarden.Library.Runs
import PplxGarden.Proofs.Ledgers
import PplxGarden.Proofs.Panics

/-! How often the caller hears of a transfer. A transfer that is accepted, posts
something that the domains take and fails at most once is notified once. A transfer
that is refused is never counted, one that posts nothing is never completed, and every
failure of a domain is a notice of its own. -/

namespace PplxGarden.Fabric
open Library Library.FanOut Proofs List

variable {N : Nat}
variable {group : DomainGroup N} {txCounter : Bool} {count : Nat}
  {result : Except FabricLibError Unit} {record : Option Record}

/-- Every operation of a transfer was reported and every report was dealt with. -/
def Engine.Completed (state : Engine N) (id : TransferId) : Prop :=
  state.numOutstanding id = 0 ∧ ∀ failed, state.numQueued id failed = 0

instance (state : Engine N) (id : TransferId) : Decidable (state.Completed id) := inferInstanceAs (Decidable (_ ∧ _))

/-- The submission itself returned an error. -/
def Engine.Refuses (state : Engine N) (command : SubmitTransfer) : Prop :=
  ∃ error after, submitTransferRequest state.group command.transferId command.request
    command.txCounter = some (.error error, after)

/-- Without a counter there is one notice. With one, `tx_counter` is incremented once,
and `err_counter` exactly if the transfer failed. -/
def Engine.NotifiedOnce (state : Engine N) (command : SubmitTransfer) (failed : Prop) : Prop :=
  if command.txCounter then
    state.numCounted command.transferId = 1 ∧ state.numErrors command.transferId ≤ 1 ∧
      (state.numErrors command.transferId = 1 ↔ failed)
  else state.numNotices command.transferId = 1

/-- How many operations of a transfer fail in a run. -/
def numFailures (run : Option (Engine N)) (id : TransferId) : Nat :=
  match run with
  | some final => final.numReported id true
  | none => 0

def TransferRequest.NonEmpty (request : TransferRequest) : Prop :=
  ∀ paged, request = .paged paged → paged.srcPageIndices ≠ []

/-- What it takes to be notified once, given how many operations fail. -/
def Notifies (group : DomainGroup N) (around : Fin N → Surroundings) (command : SubmitTransfer)
    (failures : Nat) : Prop :=
  (Accepts group command.request ∧ TakenBy group around command.request ∧ command.request.NonEmpty ∧
      (command.txCounter = true ∨ failures ≤ 1)) ∨
    (¬ Accepts group command.request ∧ ¬ Panics group command.request ∧
      if command.txCounter then 0 < failures else failures = 0)

namespace Proofs

/-! What a submission means for the transfers of a group. -/

section
variable {group : DomainGroup N} {id : TransferId} {request : TransferRequest}

private theorem acceptedOps_own : ∀ op ∈ acceptedOps group id request, op.transferId = id := by
  intro op member
  cases request with
  | imm request =>
    obtain ⟨_, _, rfl⟩ := mem_map.mp member
    rfl
  | barrier request =>
    obtain ⟨_, _, rfl⟩ := mem_map.mp member
    rfl
  | single request =>
    obtain ⟨_, _, rfl⟩ := mem_map.mp member
    rfl
  | paged request =>
    obtain ⟨_, _, rfl⟩ := mem_map.mp member
    rfl
  | scatter request =>
    obtain ⟨_, _, rfl⟩ := mem_map.mp member
    rfl

private theorem divideEvenly_eq_nil (count : Nat) (positive : 0 < N) : divideEvenly count N = [] ↔ count = 0 := by
  constructor
  · intro none
    have slices := divideEvenly_slices positive (replicate count ())
    rw [length_replicate, none, flatMap_nil] at slices
    exact (replicate_eq_nil_iff ()).mp slices.symm
  · intro zero
    subst zero
    rw [divideEvenly]
    cases N <;> simp [divideEvenly.go]

private theorem scatterParts_nonempty (positive : 0 < N) (targets : count ≠ 0) (routing : GroupTransferRouting) :
    scatterParts routing N count ≠ [] := by
  have domains : List.range N ≠ [] := by simpa using Nat.pos_iff_ne_zero.mp positive
  cases routing with
  | allDomainsShardPeers =>
    have ranges : divideEvenly count N ≠ [] := fun none => targets ((divideEvenly_eq_nil count positive).mp none)
    simp [scatterParts, zip_eq_nil_iff, domains, ranges]
  | allDomainsShardBytes => simp [scatterParts, domains]
  | single domainIdx => simp [scatterParts]

theorem acceptedOps_nonempty (accepts : Accepts group request) :
    0 < (acceptedOps group id request).length ↔ request.NonEmpty := by
  have positive : 0 < N := Nat.zero_lt_of_lt group.rrNext.isLt
  cases request with
  | imm request => simp [acceptedOps, immOps, TransferRequest.NonEmpty]
  | barrier request =>
    have targets := accepts.1
    simpa [acceptedOps, immOps, TransferRequest.NonEmpty, length_pos_iff] using targets
  | single request =>
    have shards := numShards_pos request.domain
    simpa [acceptedOps, singleOps, shardSingleTransfer_length, TransferRequest.NonEmpty] using shards
  | paged request =>
    have pages := (divideEvenly_eq_nil request.srcPageIndices.length positive).not
    simpa [acceptedOps, pageOps, TransferRequest.NonEmpty, length_pos_iff] using pages
  | scatter request =>
    have parts := scatterParts_nonempty positive (fun none => accepts.1 (eq_nil_of_length_eq_zero none)) request.domain
    simpa [acceptedOps, scatterPosts, TransferRequest.NonEmpty, length_pos_iff] using parts

end

/-! The worker as seen from a transfer while commands are submitted. -/

section
variable {state after : Engine N} {id : TransferId} {command : SubmitTransfer} {start : Ledger} {posted : Nat}
  {around : Fin N → Surroundings}

private theorem submitted_view (id : TransferId) {ops : List (Posted N)}
    (posts : group.posted = state.group.posted ++ ops) :
    (state.submitted group).view id = { state.view id with
      ledger := { state.ledger id with record := (group.writeOps id).map WriteOpContext.record }
      outstanding := state.numOutstanding id + ops.countP (·.transferId = id) } := by
  refine View.ext rfl rfl rfl ?_
  simp only [Engine.view, Engine.numOutstanding, Engine.submitted, posts, drop_left, countP_append]

private theorem send_view {entry : TransferCompletionEntry} (id : TransferId) :
    (state.send entry).view id =
      { state.view id with ledger := { state.ledger id with notices := state.numNotices id + if entry.notifies id then 1 else 0 } } :=
  View.ext (send_ledger state id entry) rfl rfl rfl

theorem taken_iff : state.taken around group ↔
    ∀ op ∈ group.posted.drop state.group.posted.length, (state.group.domains op.domain).takes
      (around op.domain) op.op :=
  all_eq_true

private theorem submit_eq
    (ran : submitTransferRequest state.group command.transferId command.request command.txCounter =
      some (result, group)) :
    state.submit around command = if state.taken around group then
      match result with
      | .ok () => some (state.submitted group)
      | .error error => some ((state.submitted group).send (.error command.transferId error))
    else none := by
  rw [Engine.submit, ran]
  rfl

theorem submit_cases (submitted : state.submit around command = some after) :
    ∃ group, state.taken around group ∧
      ((submitTransferRequest state.group command.transferId command.request command.txCounter =
      some (.ok (), group) ∧
        after = state.submitted group) ∨
      ∃ error, submitTransferRequest state.group command.transferId command.request
        command.txCounter = some (.error error, group) ∧
        after = (state.submitted group).send (.error command.transferId error)) := by
  obtain ⟨⟨result, group⟩, ran, -⟩ := Option.bind_eq_some_iff.mp submitted
  rw [submit_eq ran] at submitted
  by_cases taken : state.taken around group
  · rw [if_pos taken] at submitted
    refine ⟨group, taken, ?_⟩
    cases result with
    | ok _ => exact .inl ⟨ran, (Option.some.inj submitted).symm⟩
    | error error => exact .inr ⟨error, ran, (Option.some.inj submitted).symm⟩
  · rw [if_neg taken] at submitted
    cases submitted

theorem submission_own {after : DomainGroup N} {id : TransferId} {request : TransferRequest}
    (ran : submitTransferRequest group id request txCounter = some (result, after)) :
    (∃ ops, after.posted = group.posted ++ ops ∧ ∀ op ∈ ops, op.transferId = id) ∧
      ∀ other, other ≠ id → after.writeOps other = group.writeOps other := by
  have outcome := submit_outcome group id txCounter request
  rw [ran] at outcome
  cases outcome with
  | accepted turn accepts => exact ⟨⟨_, rfl, acceptedOps_own⟩, fun other different => if_neg different⟩
  | refused error fails survives left =>
    cases left with
    | early turn => exact ⟨⟨[], rfl, by simp⟩, fun _ _ => rfl⟩
    | late turn count ops own short => exact ⟨⟨ops, rfl, own⟩, fun other different => if_neg different⟩

private theorem submitted_other {request : TransferRequest}
    {transferId : TransferId} (other : id ≠ transferId)
    (ran : submitTransferRequest state.group transferId request txCounter = some (result, group)) :
    (state.submitted group).view id = state.view id := by
  obtain ⟨⟨ops, posts, own⟩, kept⟩ := submission_own ran
  have none : ops.countP (·.transferId = id) = 0 := by
    rw [countP_eq_zero]
    intro op member
    simpa [own op member] using Ne.symm other
  rw [submitted_view id posts, none, kept id other]
  rfl

theorem submit_other_tracks (other : id ≠ command.transferId) (submitted : state.submit around command = some after)
    (tracks : (state.view id).Tracks start posted) : (after.view id).Tracks start posted := by
  obtain ⟨group, -, done⟩ := submit_cases submitted
  cases done with
  | inl accepted =>
    rw [accepted.2, submitted_other other accepted.1]
    exact tracks
  | inr refused =>
    obtain ⟨error, ran, rfl⟩ := refused
    have foreign : TransferCompletionEntry.notifies id (.error command.transferId error) = false := by
      simpa [TransferCompletionEntry.notifies] using Ne.symm other
    have same := submitted_other other ran
    rw [send_view, foreign]
    rw [← same] at tracks
    exact tracks

theorem insert_self (group : DomainGroup N) (id : TransferId) (count : Nat) (txCounter : Bool) :
    (group.insert id count txCounter).writeOps id = some ⟨count, 0, txCounter⟩ := if_pos rfl

/-- Before its command nothing is known of a transfer. -/
def idle : Ledger := ⟨none, 0, 0, 0⟩

structure Quiet (view : View) (ledger : Ledger) (posted : Nat) : Prop where
  ledger : view.ledger = ledger
  outstanding : view.outstanding = posted
  reported : ∀ failed, view.reported failed = 0
  queued : ∀ failed, view.queued failed = 0

theorem Quiet.tracks {view : View} {ledger : Ledger} (quiet : Quiet view ledger posted) :
    view.Tracks ledger posted := by
  refine ⟨[], quiet.ledger, fun failed => ?_, ?_⟩
  · rw [quiet.queued failed, quiet.reported failed]
    rfl
  · rw [quiet.reported, quiet.reported, quiet.outstanding]
    exact Nat.zero_add _

private theorem quiet_of_idle {view : View} (tracks : view.Tracks idle 0) : Quiet view idle 0 := by
  obtain ⟨outcomes, explained, complete, total⟩ := tracks
  have reported (failed : Bool) : view.reported failed = 0 := by cases failed <;> omega
  have empty : outcomes = [] := by
    rw [eq_nil_iff_forall_not_mem]
    intro failed member
    have count := count_pos_iff.mpr member
    have sum := complete failed
    rw [reported failed] at sum
    omega
  subst empty
  refine ⟨explained, by omega, reported, fun failed => ?_⟩
  have sum := complete failed
  rw [reported failed] at sum
  omega

theorem submitted_quiet (group : DomainGroup N) (ops : List (Posted N))
    (quiet : Quiet (state.view id) idle 0) (posts : group.posted = state.group.posted ++ ops)
    (own : ∀ op ∈ ops, op.transferId = id) :
    Quiet ((state.submitted group).view id)
      { idle with record := (group.writeOps id).map WriteOpContext.record } ops.length := by
  have all : ops.countP (·.transferId = id) = ops.length := by
    rw [countP_eq_length]
    intro op member
    simpa using own op member
  have ledger : state.ledger id = idle := quiet.ledger
  have outstanding : state.numOutstanding id = 0 := quiet.outstanding
  rw [submitted_view id posts, all, ledger, outstanding, Nat.zero_add]
  exact ⟨rfl, rfl, quiet.reported, quiet.queued⟩

private theorem announced_quiet (error : FabricLibError) (quiet : Quiet (state.view id) { idle with record } posted) :
    Quiet ((state.send (.error id error)).view id) { idle with record, notices := 1 } posted := by
  have ledger : state.ledger id = { idle with record } := quiet.ledger
  refine ⟨?_, quiet.outstanding, quiet.reported, quiet.queued⟩
  refine (send_ledger state id _).trans ?_
  rw [ledger]
  simp [TransferCompletionEntry.notifies, idle]

def ShortRecord (txCounter : Bool) (posted : Nat) : Option Record → Prop
  | none => posted = 0
  | some record => record.seen = 0 ∧ record.tallied = txCounter ∧ (posted < record.expected ∨ posted = 0)

theorem submit_own_tracks (tracks : (state.view command.transferId).Tracks idle 0)
    (submitted : state.submit around command = some after) :
    (Accepts state.group command.request ∧ TakenBy state.group around command.request ∧
      (after.view command.transferId).Tracks
        { idle with record := some ⟨(acceptedOps state.group command.transferId command.request).length, 0, command.txCounter⟩ }
        (acceptedOps state.group command.transferId command.request).length) ∨
      (¬ Accepts state.group command.request ∧ ¬ Panics state.group command.request ∧
        state.Refuses command ∧
        ∃ record posted, ShortRecord command.txCounter posted record ∧
          (after.view command.transferId).Tracks { idle with record, notices := 1 } posted) := by
  have quiet := quiet_of_idle tracks
  have outcome := submit_outcome state.group command.transferId command.txCounter command.request
  obtain ⟨group, taken, done⟩ := submit_cases submitted
  cases done with
  | inl accepted =>
    obtain ⟨ran, rfl⟩ := accepted
    rw [ran] at outcome
    cases outcome with
    | accepted turn accepts =>
      rw [taken_iff, accepted_posts ran, drop_left] at taken
      have took := (accepted_taken_iff command.transferId around accepts).mp taken
      generalize ops : acceptedOps state.group command.transferId command.request = all
      have own : ∀ op ∈ all, op.transferId = command.transferId := ops ▸ acceptedOps_own
      have posted := submitted_quiet ((moved state.group turn all).insert command.transferId
        all.length command.txCounter) all quiet rfl own
      rw [insert_self] at posted
      exact .inl ⟨accepts, took, posted.tracks⟩
  | inr refused =>
    obtain ⟨error, ran, rfl⟩ := refused
    have refuses : state.Refuses command := ⟨error, group, ran⟩
    rw [ran] at outcome
    cases outcome with
    | refused _ fails survives left =>
      refine .inr ⟨fails, survives, refuses, ?_⟩
      cases left with
      | early turn =>
        have record : (state.group.writeOps command.transferId).map WriteOpContext.record = none :=
          congrArg Ledger.record quiet.ledger
        have posted := submitted_quiet (moved state.group turn []) [] quiet rfl (fun _ member => by cases member)
        rw [moved, record] at posted
        exact ⟨none, 0, rfl, (announced_quiet error posted).tracks⟩
      | late turn count ops own short =>
        have posted := submitted_quiet ((moved state.group turn ops).insert command.transferId count
          command.txCounter) ops quiet rfl own
        rw [insert_self] at posted
        have unfinished : ops.length < count ∨ ops.length = 0 := by
          cases short with
          | inl fewer => exact .inl fewer
          | inr none => exact .inr (length_eq_zero_iff.mpr none)
        exact ⟨some ⟨count, 0, command.txCounter⟩, ops.length, ⟨rfl, rfl, unfinished⟩,
          (announced_quiet error posted).tracks⟩

/-! Whole steps and runs of the worker. -/

theorem call_view (call : Option (WorkerCall N)) : (state.call call).view id = state.view id := by
  cases call with
  | none => rfl
  | some call => rfl

private theorem poll_tracks (events : List (Progress N)) (tracks : (state.view id).Tracks start posted) :
    ((state.poll events).view id).Tracks start posted := by
  apply sendCompletions_tracks
  induction events generalizing state with
  | nil => exact tracks
  | cons event events ih => exact ih (progress_tracks tracks event)

theorem workerStep_tracks {input : WorkerInput N}
    (foreign : ∀ command, input.command = some command → command.transferId ≠ id)
    (tracks : (state.view id).Tracks start posted) (stepped : state.workerStep input = some after) :
    (after.view id).Tracks start posted := by
  obtain ⟨middle, consumed, rest⟩ := Option.bind_eq_some_iff.mp stepped
  have called : ((state.call input.call).view id).Tracks start posted := by
    rw [call_view]
    exact tracks
  have kept : (middle.view id).Tracks start posted := by
    cases command : input.command with
    | none =>
      rw [command] at consumed
      cases consumed
      exact called
    | some command' =>
      rw [command] at consumed
      exact submit_other_tracks (Ne.symm (foreign command' command)) consumed called
  rw [← Option.some.inj rest]
  exact poll_tracks input.progress kept

/-- The inputs hold no command of the transfer. -/
def Foreign (id : TransferId) (inputs : List (WorkerInput N)) : Prop :=
  ∀ input ∈ inputs, ∀ command, input.command = some command → command.transferId ≠ id

private theorem runs_tracks {inputs : List (WorkerInput N)} (foreign : Foreign id inputs)
    (tracks : (state.view id).Tracks start posted)
    (reached : runs Engine.workerStep state inputs = some after) :
    (after.view id).Tracks start posted := by
  refine @runs_keep (Engine N) _ _ (fun state => (state.view id).Tracks start posted) _ _ _ tracks ?_ reached
  intro input member before next kept stepped
  exact workerStep_tracks (foreign input member) kept stepped

private theorem new_tracks (positive : 0 < N) (domains : Fin N → Domain) :
    ((Engine.new positive domains).view id).Tracks idle 0 := by
  refine Quiet.tracks ⟨rfl, rfl, fun _ => rfl, fun failed => ?_⟩
  simp [Engine.view, Engine.numQueued, Engine.new, queued]

theorem completed_outcomes (tracks : (state.view id).Tracks start posted) (completed : state.Completed id) :
    ∃ outcomes : List Bool, state.ledger id = outcomes.foldl Ledger.take start ∧ outcomes.length = posted ∧
      outcomes.count true = state.numReported id true := by
  obtain ⟨outcomes, explained, complete, total⟩ := tracks
  have counts (failed : Bool) : outcomes.count failed = state.numReported id failed := by
    have sum : outcomes.count failed + state.numQueued id failed = state.numReported id failed := complete failed
    rw [completed.2 failed] at sum
    exact sum
  have none : state.numOutstanding id = 0 := completed.1
  refine ⟨outcomes, explained, ?_, counts true⟩
  rw [← count_false_add_count_true, counts, counts, ← total]
  exact (congrArg (state.numReported id false + state.numReported id true + ·) none).symm

theorem accepted_ledger
    (tracks : (state.view id).Tracks { idle with record := some ⟨count, 0, txCounter⟩ } count)
    (completed : state.Completed id) :
    (0 < state.numReported id true → 0 < count ∧
        state.ledger id = ⟨none, state.numReported id true, txCounter.toNat, txCounter.toNat⟩) ∧
      (state.numReported id true = 0 →
        (0 < count → state.ledger id = ⟨none, (!txCounter).toNat, txCounter.toNat, 0⟩) ∧
        (count = 0 → state.ledger id = { idle with record := some ⟨count, 0, txCounter⟩ })) := by
  obtain ⟨outcomes, explained, length, failures⟩ := completed_outcomes tracks completed
  have room : 0 + outcomes.length ≤ count := by omega
  rw [explained, ← failures]
  refine ⟨fun failed => ?_, fun clean => ?_⟩
  · have member := count_pos_iff.mp failed
    refine ⟨length ▸ length_pos_of_mem member, ?_⟩
    rw [foldl_fails outcomes rfl room member]
    simp [idle]
  · rw [foldl_succeeds outcomes rfl room (count_eq_zero.mp clean)]
    refine ⟨fun some => ?_, fun none => ?_⟩
    · rw [if_pos ⟨ne_nil_of_length_pos (length ▸ some), by simp only; omega⟩]
      simp [idle]
    · have empty : outcomes = [] := eq_nil_of_length_eq_zero (length.trans none)
      simp [empty]

theorem refused_ledger (short : ShortRecord txCounter posted record)
    (tracks : (state.view id).Tracks { idle with record, notices := 1 } posted)
    (completed : state.Completed id) :
    ∃ left, state.ledger id = ⟨left, 1 + state.numReported id true,
      if 0 < state.numReported id true then txCounter.toNat else 0,
      if 0 < state.numReported id true then txCounter.toNat else 0⟩ := by
  obtain ⟨outcomes, explained, length, failures⟩ := completed_outcomes tracks completed
  rw [explained, ← failures]
  cases record with
  | none =>
    have empty : outcomes = [] := eq_nil_of_length_eq_zero (length.trans short)
    exact ⟨none, by simp [empty, idle]⟩
  | some record =>
    obtain ⟨seen, tallied, unfinished⟩ := short
    by_cases failed : true ∈ outcomes
    · have positive := length_pos_of_mem failed
      rw [foldl_fails outcomes rfl (by omega) failed, if_pos (count_pos_iff.mpr failed), tallied]
      exact ⟨none, by simp [idle]⟩
    · have clean := count_eq_zero.mpr failed
      by_cases empty : outcomes = []
      · exact ⟨some record, by simp [empty, idle]⟩
      · have positive := length_pos_iff.mpr empty
        rw [foldl_succeeds outcomes rfl (by omega) failed, if_neg (by omega), clean]
        exact ⟨some { record with seen := record.seen + outcomes.length }, by simp [idle]⟩

theorem accepted_notified {failed : Prop}
    (failing : failed ↔ 0 < state.numReported command.transferId true)
    (tracks : (state.view command.transferId).Tracks
      { idle with record := some ⟨count, 0, command.txCounter⟩ } count)
    (completed : state.Completed command.transferId) :
    state.NotifiedOnce command failed ↔ 0 < count ∧
      (command.txCounter = true ∨ state.numReported command.transferId true ≤ 1) := by
  obtain ⟨failure, success⟩ := accepted_ledger tracks completed
  have notices : state.numNotices command.transferId = (state.ledger command.transferId).notices := rfl
  have counted : state.numCounted command.transferId = (state.ledger command.transferId).counted := rfl
  have errors : state.numErrors command.transferId = (state.ledger command.transferId).errors := rfl
  unfold Engine.NotifiedOnce
  rw [notices, counted, errors, failing]
  by_cases clean : state.numReported command.transferId true = 0
  · by_cases empty : count = 0
    · rw [(success clean).2 empty]
      simp [idle, empty]
    · have some := Nat.pos_of_ne_zero empty
      rw [(success clean).1 some]
      cases command.txCounter <;> simp [clean, some]
  · have some := Nat.pos_of_ne_zero clean
    obtain ⟨positive, ledger⟩ := failure some
    rw [ledger]
    cases command.txCounter
    · simp only [Bool.false_eq_true, if_false, positive, true_and, false_or]
      omega
    · simp [positive, some]

theorem refused_notified {failed : Prop} (fails : failed)
    (short : ShortRecord command.txCounter posted record)
    (tracks : (state.view command.transferId).Tracks { idle with record, notices := 1 } posted)
    (completed : state.Completed command.transferId) :
    state.NotifiedOnce command failed ↔
      if command.txCounter then 0 < state.numReported command.transferId true
        else state.numReported command.transferId true = 0 := by
  obtain ⟨left, ledger⟩ := refused_ledger short tracks completed
  have notices : state.numNotices command.transferId = (state.ledger command.transferId).notices := rfl
  have counted : state.numCounted command.transferId = (state.ledger command.transferId).counted := rfl
  have errors : state.numErrors command.transferId = (state.ledger command.transferId).errors := rfl
  unfold Engine.NotifiedOnce
  rw [notices, counted, errors, ledger]
  cases command.txCounter
  · simp
  · by_cases some : 0 < state.numReported command.transferId true
    · simp [some, fails]
    · simp [some]

private theorem not_refuses (accepts : Accepts state.group command.request) : ¬ state.Refuses command := by
  intro refuses
  obtain ⟨error, group, ran⟩ := refuses
  have outcome := submit_outcome state.group command.transferId command.txCounter command.request
  rw [ran] at outcome
  cases outcome with
  | refused _ fails => exact fails accepts

theorem panics_of_submit (panicked : state.submit around command = none) :
    (¬ Accepts state.group command.request ∧ Panics state.group command.request) ∨
      Accepts state.group command.request ∧ ¬ TakenBy state.group around command.request := by
  have outcome := submit_outcome state.group command.transferId command.txCounter command.request
  generalize ran : submitTransferRequest state.group command.transferId command.request
    command.txCounter = result at outcome
  cases outcome with
  | panicked fails panics => exact .inl ⟨fails, panics⟩
  | accepted turn accepts =>
    refine .inr ⟨accepts, fun taken => ?_⟩
    rw [submit_eq ran, if_pos] at panicked
    · cases panicked
    · rw [taken_iff, accepted_posts ran, drop_left]
      exact (accepted_taken_iff command.transferId around accepts).mpr taken
  | refused error fails survives left =>
    rw [submit_eq ran, if_pos (taken_iff.mpr (refused_taken around ran))] at panicked
    cases panicked

theorem submitted_notified {final : Engine N}
    (tracks : (state.view command.transferId).Tracks idle 0)
    (submitted : state.submit around command = some after)
    (keeps : ∀ start posted, (after.view command.transferId).Tracks start posted →
      (final.view command.transferId).Tracks start posted)
    (completed : final.Completed command.transferId) :
    final.NotifiedOnce command (state.Refuses command ∨
      0 < final.numReported command.transferId true) ↔
      Notifies state.group around command (final.numReported command.transferId true) := by
  cases submit_own_tracks tracks submitted with
  | inl accepted =>
    obtain ⟨accepts, taken, followed⟩ := accepted
    have failing := or_iff_right (b := 0 < final.numReported command.transferId true) (not_refuses accepts)
    rw [accepted_notified failing (keeps _ _ followed) completed, acceptedOps_nonempty accepts]
    simp [Notifies, accepts, taken]
  | inr refused =>
    obtain ⟨fails, survives, refuses, record, posted, short, followed⟩ := refused
    rw [refused_notified (.inl refuses) short (keeps _ _ followed) completed]
    simp [Notifies, fails, survives]

end

def pagingDomains : Fin 2 → Domain := fun domain => .ofRegions fun ptr => if ptr = 5 then some domain else none

def pagesTo (srcPageIndices dstPageIndices : List Nat) : TransferRequest :=
  .paged ⟨64, 5, srcPageIndices, 64, 0, ⟨100, [(10, 1), (11, 2)]⟩, dstPageIndices, 64, 0, none⟩

def pagingWorker : Engine 2 := .new Nat.two_pos pagingDomains

/-- All peers are connected, and a device takes one request at once. -/
def connectedPeers : Fin 2 → Surroundings := fun _ => ⟨fun _ => .found, fun _ => false, 1⟩

/-- A step in which a worker gets a command and what it posts is reported. -/
def onlyStep (request : TransferRequest) (txCounter : Bool) (failure : Option FabricLibError) : WorkerInput 2 where
  call := none
  command := some ⟨0, request, txCounter⟩
  around := connectedPeers
  progress := match pagingWorker.submit connectedPeers ⟨0, request, txCounter⟩ with
    | some submitted => submitted.outstanding.map (.report · failure)
    | none => []

private theorem pagesTo_accepted : Accepts pagingWorker.group (pagesTo [0, 1] [0, 1]) := by
  refine ⟨rfl, rfl, ?_⟩
  decide

end Proofs

end PplxGarden.Fabric
