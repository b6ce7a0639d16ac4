import PplxGarden.Proofs.WriteOps

/-! When contexts are given back. A context that is taken out of the queue because it
posted its last request keeps `in_queue` set and is never dropped, so what can be
proved is about runs in which this does not happen. -/

namespace PplxGarden.Fabric
open Library Function List
variable {room : Nat}

namespace Provider

/-- All posted requests have completed and no more will be posted. -/
def WriteOpContext.Quiet {ι : Type} (context : WriteOpContext ι) : Prop :=
  context.cntFinishedOps = context.cntPostedOps ∧ (context.cntPostedOps = context.totalOps ∨ context.bad = true)

instance {ι : Type} (context : WriteOpContext ι) : Decidable context.Quiet := inferInstanceAs (Decidable (_ ∧ _))

/-- One completion is missing of a failed context that was taken out of the queue. -/
def WriteOpContext.LastOfFailed {ι : Type} (context : WriteOpContext ι) : Prop :=
  context.bad = true ∧ context.inQueue = false ∧ context.cntFinishedOps + 1 = context.cntPostedOps ∧
    context.cntPostedOps < context.totalOps

instance {ι : Type} (context : WriteOpContext ι) : Decidable context.LastOfFailed := inferInstanceAs (Decidable (_ ∧ _))

namespace Writes

variable {ω ι ρ : Type}

/-- Every context that is quiet in one state is given back in another, with its buffer. -/
def Released (state next : Writes ι ρ) : Prop :=
  ∀ slot context, state.objpoolWriteOp.read slot = some context → context.Quiet →
    next.objpoolWriteOp.read slot = none ∧ next.objpoolMsg.read context.msgBuf = none

/-- Failed contexts stand first in the queue, and the first of the others is not
posted to its end. -/
def steady (provider : Provider ω ι ρ) (contexts : Nat → Option (WriteOpContext ι)) (room : Nat) : List Nat → Bool
  | [] => true
  | slot :: rest =>
    match contexts slot with
    | none => true
    | some context =>
      if context.bad then steady provider contexts room rest
      else rest.all (fun other => (contexts other).all fun later => !later.bad) &&
        (provider.progress context.rdmaOpIter room).all fun posting => context.cntPostedOps +
          posting.count ≠ context.totalOps

/-- The steps after which nothing is left behind. -/
def Clean (provider : Provider ω ι ρ) (state : Writes ι ρ) : Action ω ρ → Prop
  | .submit .. => True
  | .progress room => steady provider state.objpoolWriteOp.read room state.writeOps = true
  | .cqe slot _ failure => failure = none → ∀ context ∈ state.objpoolWriteOp.read slot, ¬ context.LastOfFailed

instance (provider : Provider ω ι ρ) (state : Writes ι ρ) (action : Action ω ρ) : Decidable (Clean provider state action) := by
  cases action <;> unfold Clean <;> infer_instance

def Tidy (state : Writes ι ρ) : Prop :=
  ∀ slot context, state.objpoolWriteOp.read slot = some context →
    slot ∈ state.writeOps ∨ context.inQueue = false ∧ context.cntFinishedOps < context.cntPostedOps

structure Fades (before after : Writes ι ρ) : Prop where
  contexts : ∀ slot, before.objpoolWriteOp.read slot = none → after.objpoolWriteOp.read slot = none
  buffers : ∀ msgBuf, before.objpoolMsg.read msgBuf = none → after.objpoolMsg.read msgBuf = none

theorem Fades.refl (state : Writes ι ρ) : Fades state state := ⟨fun _ vacant => vacant, fun _ vacant => vacant⟩

theorem Fades.trans {before middle after : Writes ι ρ} (first : Fades before middle)
    (second : Fades middle after) : Fades before after :=
  ⟨fun slot vacant => second.contexts slot (first.contexts slot vacant), fun msgBuf vacant =>
    second.buffers msgBuf (first.buffers msgBuf vacant)⟩

variable {left : ω → ι → List (Option ρ) → Prop} {state after : Writes ι ρ} {slot : Nat} {context : WriteOpContext ι}

theorem Fades.replaced {next : WriteOpContext ι} (held : state.objpoolWriteOp.read slot = some context)
    (contexts : after.objpoolWriteOp.read = update state.objpoolWriteOp.read slot (some next))
    (messages : after.objpoolMsg = state.objpoolMsg) : Fades state after := by
  refine ⟨fun other vacant => ?_, fun _ vacant => messages ▸ vacant⟩
  rw [contexts, update_of_ne, vacant]
  rintro rfl
  rw [held] at vacant
  cases vacant

/-- Dropping a context touches no other, and leaves it only if it waits or is marked. -/
theorem settle_spec (state : Writes ι ρ) {slot : Nat} (context : WriteOpContext ι)
    (held : state.objpoolWriteOp.read slot = some context)
    (buffer : state.objpoolMsg.read context.msgBuf = some ()) :
    Fades state (state.settle slot context) ∧
      (∀ other, other ≠ slot → (state.settle slot context).objpoolWriteOp.read other =
        state.objpoolWriteOp.read other) ∧
      if context.cntFinishedOps = context.cntPostedOps ∧ context.inQueue = false then
        (state.settle slot context).objpoolWriteOp.read slot = none ∧
          (state.settle slot context).objpoolMsg.read context.msgBuf = none
      else (state.settle slot context).objpoolWriteOp.read slot = some context := by
  unfold settle
  split
  next idle =>
    obtain ⟨contexts, messages⟩ := read_release held buffer
    rw [contexts, messages, update_self, update_self]
    refine ⟨⟨fun other vacant => ?_, fun msgBuf vacant => ?_⟩, fun other apart => update_of_ne apart .., rfl, rfl⟩
    · rw [contexts]
      by_cases same : other = slot
      · rw [same, update_self]
      · rw [update_of_ne same, vacant]
    · rw [messages]
      by_cases same : msgBuf = context.msgBuf
      · rw [same, update_self]
      · rw [update_of_ne same, vacant]
  next => exact ⟨.refl state, fun _ _ => rfl, held⟩

/-- A failed context leaves the queue; it stays only if it waits for the device. -/
theorem discarded_spec (inv : Inv left state) (rest : List Nat)
    (held : state.objpoolWriteOp.read slot = some context) :
    Fades state (state.discarded slot rest context) ∧
      (∀ other, other ≠ slot → (state.discarded slot rest context).objpoolWriteOp.read other =
        state.objpoolWriteOp.read other) ∧
      if context.cntFinishedOps = context.cntPostedOps then
        (state.discarded slot rest context).objpoolWriteOp.read slot = none ∧
          (state.discarded slot rest context).objpoolMsg.read context.msgBuf = none
      else (state.discarded slot rest context).objpoolWriteOp.read slot =
        some { context with inQueue := false } := by
  obtain ⟨fades, others, here⟩ := settle_spec (state.dequeued slot rest context) { context with inQueue := false }
    (by rw [read_dequeued held, update_self]) (inv.tracked held).buffer
  refine ⟨.trans (.replaced held (read_dequeued held) rfl) fades, ?_, ?_⟩
  · intro other apart
    rw [discarded, others other apart, read_dequeued held, update_of_ne apart]
  · simpa only [discarded, and_true] using here

private theorem writeOps_settle (state : Writes ι ρ) (slot : Nat) (context : WriteOpContext ι) :
    (state.settle slot context).writeOps = state.writeOps := by
  unfold settle
  split <;> rfl

theorem writeOps_discarded (state : Writes ι ρ) (slot : Nat) (rest : List Nat) (context : WriteOpContext ι) :
    (state.discarded slot rest context).writeOps = rest :=
  writeOps_settle ..

theorem Tidy.discarded (inv : Inv left state) (tidy : Tidy state) {rest : List Nat}
    (head : state.writeOps = slot :: rest) (held : state.objpoolWriteOp.read slot = some context) :
    Tidy (state.discarded slot rest context) := by
  obtain ⟨-, others, here⟩ := discarded_spec inv rest held
  intro other found present
  rw [writeOps_discarded]
  by_cases same : other = slot
  · subst same
    split at here
    next =>
      rw [here.1] at present
      cases present
    next waits =>
      rw [here, Option.some.injEq] at present
      subst present
      have balance := (inv.tracked held).waits
      exact .inr ⟨rfl, show context.cntFinishedOps < context.cntPostedOps by omega⟩
  · rw [others other same] at present
    refine (tidy other found present).imp_left fun member => ?_
    rw [head] at member
    exact (mem_cons.mp member).resolve_left same

variable {provider : Provider ω ι ρ} {requests : ω → List (Option ρ)}

theorem steady_congr {contexts others : Nat → Option (WriteOpContext ι)} {queue : List Nat}
    (same : ∀ slot ∈ queue, contexts slot = others slot) :
    steady provider contexts room queue = steady provider others room queue := by
  induction queue with
  | nil => rfl
  | cons slot rest ih =>
    have later : ∀ other ∈ rest, contexts other = others other := fun other member => same other (mem_cons_of_mem _ member)
    have goods : rest.all (fun other => (contexts other).all fun next => !next.bad) =
        rest.all fun other => (others other).all fun next => !next.bad := by
      rw [Bool.eq_iff_iff, all_eq_true, all_eq_true]
      exact forall₂_congr fun other member => by rw [later other member]
    rw [steady, steady, same slot (mem_cons_self ..), ih later, goods]

/-- A call of `progress_rdma_write_ops` on a steady queue gives back what it should. -/
theorem progressLoop_steady (inv : Inv left state) (tidy : Tidy state) {rounds : Nat}
    (enough : state.writeOps.length ≤ rounds)
    (calm : steady provider state.objpoolWriteOp.read room state.writeOps = true)
    (done : progressLoop provider rounds room state = .ok after) :
    Fades state after ∧ Tidy after ∧ ∀ slot context, state.objpoolWriteOp.read slot = some context →
      slot ∈ state.writeOps →
      context.bad = true → context.cntFinishedOps = context.cntPostedOps →
      after.objpoolWriteOp.read slot = none ∧ after.objpoolMsg.read context.msgBuf = none := by
  induction rounds generalizing state with
  | zero =>
    cases done
    have empty := eq_nil_of_length_eq_zero (Nat.le_zero.mp enough)
    refine ⟨.refl _, tidy, fun slot context _ member => ?_⟩
    rw [empty] at member
    cases member
  | succ rounds ih =>
    cases head : state.writeOps with
    | nil =>
      simp only [progressLoop, head] at done
      cases done
      exact ⟨.refl _, tidy, fun _ _ _ member => by cases member⟩
    | cons slot rest =>
      obtain ⟨context, held⟩ := inv.listed slot (by simp [head])
      rw [progressLoop_cons inv head held] at done
      rw [head, steady, held] at calm
      split at done
      next failed =>
        obtain ⟨fades, others, here⟩ := discarded_spec inv rest held
        have distinct := inv.distinct
        rw [head] at distinct
        have apart : ∀ other ∈ rest, other ≠ slot := fun other member same => (nodup_cons.mp distinct).1 (same ▸ member)
        have next := ih (inv.discarded head held failed) (tidy.discarded inv head held)
          (by rw [writeOps_discarded]; rw [head] at enough; exact Nat.le_of_succ_le_succ enough)
          (by
            rw [writeOps_discarded, steady_congr fun other member => others other (apart other member)]
            simpa only [failed, if_true] using calm) done
        obtain ⟨later, tidied, released⟩ := next
        refine ⟨fades.trans later, tidied, fun other found present member bad complete => ?_⟩
        rcases mem_cons.mp member with same | member
        · subst same
          rw [held, Option.some.injEq] at present
          subst present
          rw [if_pos complete] at here
          exact ⟨later.contexts _ here.1, later.buffers _ here.2⟩
        · exact released other found (by rw [others other (apart other member)]; exact present)
            (by rw [writeOps_discarded]; exact member) bad complete
      next good =>
        simp only [good, Bool.false_eq_true, if_false, Bool.and_eq_true, all_eq_true] at calm
        obtain ⟨goods, unfinished⟩ := calm
        split at done
        next => cases done
        next posting posted =>
          have more : (WriteOpContext.advanced context posting).cntPostedOps ≠ context.totalOps := by
            rw [posted] at unfinished
            simpa [WriteOpContext.advanced] using unfinished
          rw [if_pos more, pushed, if_pos more] at done
          cases done
          have changed := read_put (state.hand slot posting) held (.advanced context posting)
          refine ⟨.replaced held changed rfl, ?_, ?_⟩
          · intro other found present
            by_cases same : other = slot
            · exact .inl (show other ∈ state.writeOps by simp [head, same])
            · rw [changed, update_of_ne same] at present
              exact tidy other found present
          · intro other found present member bad complete
            rcases mem_cons.mp member with same | member
            · rw [same, held, Option.some.injEq] at present
              exact absurd (present ▸ bad) good
            · have fine := goods other member
              rw [present] at fine
              simp [bad] at fine

theorem Tidy.opens (lawful : Lawful provider requests left fun _ => True) (tidy : Tidy state)
    {transferId : TransferId} {op : ω} {iter : ι} {posting : Posting ι ρ}
    (made : provider.construct op = some iter)
    (opens : Opens provider state transferId iter posting after) : Tidy after := by
  intro slot context present
  by_cases same : slot = state.objpoolWriteOp.top
  · subst same
    rw [opens.read_top, Option.some.injEq] at present
    subst present
    rw [opens.queue]
    split
    next => exact .inl (mem_append_right _ (mem_singleton_self _))
    next ended =>
      have positive := length_pos_iff.mpr (lawful.nonempty made)
      have total := lawful.total made
      refine .inr ⟨decide_eq_false ended, ?_⟩
      show 0 < 0 + posting.count
      omega
  · rw [opens.read_other same] at present
    exact (tidy slot context present).imp_left (opens.mem_iff same).mpr

structure Tended (left : ω → ι → List (Option ρ) → Prop) (state : Writes ι ρ) : Prop where
  inv : Inv left state
  tidy : Tidy state

theorem Tended.new : Tended left (Writes.new : Writes ι ρ) :=
  ⟨inv_new, fun slot context held => by simp [Writes.new] at held⟩

variable [DecidableEq ρ]

private theorem writeOps_handled (state : Writes ι ρ) (slot : Nat) (context : WriteOpContext ι)
    (request : ρ) (failed : Bool) :
    (state.handled slot context request failed).writeOps = state.writeOps := by
  unfold handled
  split
  next => rfl
  next => exact writeOps_settle ..

theorem Tidy.handled (inv : Inv left state) (tidy : Tidy state) {request : ρ}
    (member : (slot, request) ∈ state.inFlight)
    (held : state.objpoolWriteOp.read slot = some context) {failed : Bool}
    (clean : failed = false → ¬ context.LastOfFailed) :
    Tidy (state.handled slot context request failed) := by
  have tracked := inv.tracked held
  have landed := read_landed held request failed
  have here : (state.landed slot context request failed).objpoolWriteOp.read slot = some (context.counted failed) := by
    rw [landed, update_self]
  have flies : 0 < state.waiting slot := countP_pos_iff.mpr ⟨_, member, by simp⟩
  have balance := tracked.waits
  obtain ⟨-, others, left_⟩ := settle_spec _ _ here tracked.buffer
  intro other found present
  rw [writeOps_handled]
  by_cases same : other = slot
  · subst same
    by_cases queued : other ∈ state.writeOps
    · exact .inl queued
    · right
      have idle : context.inQueue = false := ((tidy other context held).resolve_left queued).1
      have waits : context.cntFinishedOps + 1 < context.cntPostedOps ∨
          context.cntFinishedOps + 1 = context.cntPostedOps := by
        omega
      -- The last completion either drops the context or is a success of a failed context.
      have kept : found = context.counted failed ∧ context.cntFinishedOps + 1 ≠ context.cntPostedOps := by
        unfold Writes.handled at present
        split at present
        next more =>
          rw [here, Option.some.injEq] at present
          refine ⟨present.symm, fun last => clean more.1 ?_⟩
          have short : context.cntPostedOps < context.totalOps := by omega
          exact ⟨((tracked.unqueued queued).resolve_left (Nat.ne_of_lt short)).1, idle, last, short⟩
        next =>
          by_cases last : context.cntFinishedOps + 1 = context.cntPostedOps
          · rw [if_pos ⟨last, idle⟩] at left_
            rw [left_.1] at present
            cases present
          · rw [if_neg fun both => last both.1] at left_
            rw [left_, Option.some.injEq] at present
            exact ⟨present.symm, last⟩
      rw [kept.1]
      exact ⟨idle, waits.resolve_right kept.2⟩
  · refine tidy other found ?_
    unfold Writes.handled at present
    split at present
    next => rwa [landed, update_of_ne same] at present
    next => rwa [others other same, landed, update_of_ne same] at present

theorem Tended.step (lawful : Lawful provider requests left fun _ => True)
    (tended : Tended left state) {action : Action ω ρ}
    (fired : restrict (fire provider) (Clean provider) state action = some after) :
    Tended left after := by
  obtain ⟨inv, tidy⟩ := tended
  obtain ⟨clean, fired⟩ := restrict_eq_some.mp fired
  refine ⟨fire_keeps lawful inv (given_always action) fired, ?_⟩
  cases action with
  | submit transferId op room =>
    rcases doSubmitWrite_cases provider state transferId op room with stopped | ⟨iter, posting,
      next, made, posted, done, opens⟩
    · rw [fire, Writes.step, stopped] at fired
      cases fired
    · rw [fire, Writes.step, done] at fired
      cases fired
      exact tidy.opens lawful made opens
  | progress room =>
    cases done : progressLoop provider state.writeOps.length room state with
    | ok next =>
      rw [fire, Writes.step, progressRdmaWriteOps, done] at fired
      cases fired
      exact (progressLoop_steady inv tidy (Nat.le_refl _) clean done).2.1
    | error fault =>
      rw [fire, Writes.step, progressRdmaWriteOps, done] at fired
      cases fired
  | cqe slot request failure =>
    by_cases member : (slot, request) ∈ state.inFlight
    · obtain ⟨context, held⟩ := inv.flying member
      simp only [fire, Writes.step, handleCqe_eq inv member held, bind, Except.bind] at fired
      cases fired
      refine tidy.handled inv member held fun succeeded => ?_
      cases failure with
      | none => exact clean rfl context held
      | some error => cases succeeded
    · simp only [fire, Writes.step, handleCqe, if_neg member, bind, Except.bind] at fired
      cases fired
      exact tidy

theorem Tended.releases (tended : Tended left state)
    (fired : restrict (fire provider) (Clean provider) state (.progress room) = some after) :
    Released state after := by
  obtain ⟨inv, tidy⟩ := tended
  obtain ⟨clean, fired⟩ := restrict_eq_some.mp fired
  intro slot context held quiet
  have member : slot ∈ state.writeOps := by
    rcases tidy slot context held with member | ⟨-, waits⟩
    · exact member
    · exact absurd quiet.1 (Nat.ne_of_lt waits)
  have failed := quiet.2.resolve_left ((inv.tracked held).queued member).2
  cases done : progressLoop provider state.writeOps.length room state with
  | ok next =>
    rw [fire, Writes.step, progressRdmaWriteOps, done] at fired
    cases fired
    exact (progressLoop_steady inv tidy (Nat.le_refl _) clean done).2.2 slot context held member failed quiet.1
  | error fault =>
    rw [fire, Writes.step, progressRdmaWriteOps, done] at fired
    cases fired

private theorem clean_releases (lawful : Lawful provider requests left fun _ => True)
    {actions : List (Action ω ρ)}
    (reached : runs (restrict (fire provider) (Clean provider)) Writes.new actions = some state)
    (fired : restrict (fire provider) (Clean provider) state (.progress room) = some after) :
    Released state after := by
  have kept : Tended left state := runs_invariant .new (fun _ _ _ tended fired => tended.step lawful fired) reached
  exact kept.releases fired

/-- A context that is quiet after a run and still live after one more call. -/
def leaks (provider : Provider ω ι ρ) (actions : List (Action ω ρ)) (slot : Nat) : Bool :=
  match runs (fire provider) .new actions with
  | none => false
  | some state =>
    match fire provider state (.progress 1), state.objpoolWriteOp.read slot with
    | some next, some context => decide context.Quiet && (next.objpoolWriteOp.read slot).isSome
    | _, _ => false

theorem leaks_not_released {actions : List (Action ω ρ)} (slot : Nat)
    (leaked : leaks provider actions slot = true) :
    ∃ state next, runs (fire provider) .new actions = some state ∧
      fire provider state (.progress 1) = some next ∧ ¬ Released state next := by
  unfold leaks at leaked
  split at leaked
  next => cases leaked
  next state reached =>
    split at leaked
    next next context fired held =>
      rw [Bool.and_eq_true, decide_eq_true_eq] at leaked
      refine ⟨state, next, reached, fired, fun released => ?_⟩
      rw [(released slot context held leaked.1).1] at leaked
      cases leaked.2
    next => cases leaked

end Writes

end Provider

open Provider Writes

theorem finished_released (room : Nat) :
    (∀ actions state, runs (restrict (fire Efa.provider) (Clean Efa.provider)) .new actions =
      some state →
      ∀ next, restrict (fire Efa.provider) (Clean Efa.provider) state (.progress room) = some next →
        Released state next) ∧
    (∀ actions state, runs (restrict (fire Verbs.provider) (Clean Verbs.provider)) .new actions =
      some state →
      ∀ next, restrict (fire Verbs.provider) (Clean Verbs.provider) state (.progress room) =
        some next → Released state next) :=
  ⟨fun _ _ reached _ fired => clean_releases Efa.lawful reached fired,
    fun _ _ reached _ fired => clean_releases Verbs.lawful reached fired⟩

/-- The pages are posted one by one and both succeed. -/
def bothSucceed {ω ρ : Type} (op : ω) (page : Nat → ρ) : List (Action ω ρ) :=
  [.submit 5 op 1, .progress 1, .cqe 0 (page 0) none, .cqe 0 (page 1) none]

/-- Two of three pages are posted, the first fails, and the second succeeds after the
context has left the queue. -/
def succeedsLast {ω ρ : Type} (op : ω) (page : Nat → ρ) : List (Action ω ρ) :=
  [.submit 5 op 1, .progress 1, .cqe 0 (page 0) (some (.completionError "flushed")), .progress 1, .cqe 0 (page 1) none]

/-- A context fails behind one that has not. -/
def failsBehind {ω ρ : Type} (op : ω) (page : Nat → ρ) : List (Action ω ρ) :=
  [.submit 5 op 0, .submit 6 op 1, .cqe 1 (page 0) (some (.completionError "flushed"))]

def threePages : PagedWriteOp :=
  { twoPages with
    srcPageIndices := [0, 1, 2]
    dstPageIndices := [0, 1, 2]
    pageIndicesEnd := 3 }

def efaPage (op : PagedWriteOp) (i : Nat) : Efa.FiMsgRma × Bool := Efa.pagesMsg op 3 (i, i)
def verbsPage (op : PagedWriteOp) (i : Nat) : Qp × Verbs.WorkRequest := (3, Verbs.pagesWr op (i, i))

/-- What a provider leaves behind in the three runs. -/
def LeavesBehind {ι ρ : Type} [DecidableEq ρ] (provider : Provider (RdmaOp Nat) ι ρ)
    (actions : List (Action (RdmaOp Nat) ρ)) : Prop :=
  ∃ state next, runs (fire provider) .new actions = some state ∧
    fire provider state (.progress 1) = some next ∧ ¬ Released state next

theorem finished_leaked :
    (LeavesBehind Efa.provider (bothSucceed (.write (.paged twoPages) 3) (efaPage twoPages)) ∧
      LeavesBehind Efa.provider (succeedsLast (.write (.paged threePages) 3) (efaPage threePages)) ∧
      LeavesBehind Efa.provider (failsBehind (.write (.paged threePages) 3) (efaPage threePages))) ∧
    LeavesBehind Verbs.provider (bothSucceed (.write (.paged twoPages) 3) (verbsPage twoPages)) ∧
      LeavesBehind Verbs.provider (succeedsLast (.write (.paged threePages) 3) (verbsPage threePages)) ∧
      LeavesBehind Verbs.provider (failsBehind (.write (.paged threePages) 3) (verbsPage threePages)) := by
  refine ⟨⟨?_, ?_, ?_⟩, ?_, ?_, ?_⟩
  · exact leaks_not_released 0 (by decide +kernel)
  · exact leaks_not_released 0 (by decide +kernel)
  · exact leaks_not_released 1 (by decide +kernel)
  · exact leaks_not_released 0 (by decide +kernel)
  · exact leaks_not_released 0 (by decide +kernel)
  · exact leaks_not_released 1 (by decide +kernel)

/-- A queued context that fails is given back by the next call. -/
theorem finished_released_twoPages :
    ∃ state, runs (restrict (fire Efa.provider) (Clean Efa.provider)) .new
        [.submit 5 (.write (.paged twoPages) 3) 1,
          .cqe 0 (efaPage twoPages 0) (some (.completionError "flushed"))] = some state ∧
      ∃ next, restrict (fire Efa.provider) (Clean Efa.provider) state (.progress 1) = some next ∧
        Released state next := by
  have continues : ((runs (restrict (fire Efa.provider) (Clean Efa.provider)) .new
      [.submit 5 (.write (.paged twoPages) 3) 1, .cqe 0 (efaPage twoPages 0) (some (.completionError "flushed"))]).bind
      fun state => restrict (fire Efa.provider) (Clean Efa.provider) state (.progress 1)).isSome := by decide +kernel
  obtain ⟨next, continued⟩ := Option.isSome_iff_exists.mp continues
  obtain ⟨state, reached, fired⟩ := Option.bind_eq_some_iff.mp continued
  exact ⟨state, reached, next, fired, (finished_released 1).1 _ state reached next fired⟩

end PplxGarden.Fabric
