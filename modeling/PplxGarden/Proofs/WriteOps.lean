import Mathlib.Data.List.Nodup
import PplxGarden.Library.Runs
import PplxGarden.Proofs.Posting

/-! Contexts of writes are used while they are live. The invariant ties every live
context to the requests in flight and to the queue, and a context is freed only when
neither holds it any more. -/

namespace PplxGarden.Fabric
open Library Function List Option

namespace Provider

def WriteOpContext.advanced {ι ρ : Type} (context : WriteOpContext ι) (posting : Posting ι ρ) : WriteOpContext ι :=
  { context with
    rdmaOpIter := posting.iter
    cntPostedOps := context.cntPostedOps + posting.count }

def WriteOpContext.counted {ι : Type} (context : WriteOpContext ι) (failed : Bool) : WriteOpContext ι :=
  { context with
    cntFinishedOps := context.cntFinishedOps + 1
    bad := context.bad || failed }

namespace Writes

variable {ω ι ρ : Type} {transferId : TransferId} {iter : ι} {rest : List Nat} {other room : Nat}
  {posting : Posting ι ρ} {request : ρ}

section
variable (state : Writes ι ρ)

def waiting (slot : Nat) : Nat := state.inFlight.countP (·.1 = slot)

def put (slot : Nat) (context : WriteOpContext ι) : Writes ι ρ :=
  { state with objpoolWriteOp := (state.objpoolWriteOp.write slot context).getD state.objpoolWriteOp }

def release (slot msgBuf : Nat) : Writes ι ρ :=
  { state with
    objpoolMsg := (state.objpoolMsg.free msgBuf).getD state.objpoolMsg
    objpoolWriteOp := (state.objpoolWriteOp.free slot).getD state.objpoolWriteOp }

/-- Drop a context if nothing of it is in flight and it is not marked as queued. -/
def settle (slot : Nat) (context : WriteOpContext ι) : Writes ι ρ :=
  if context.cntFinishedOps = context.cntPostedOps ∧ context.inQueue = false then
    state.release slot context.msgBuf else state

end

section
variable {state : Writes ι ρ} {slot : Nat} {context next : WriteOpContext ι}

theorem read_put (state : Writes ι ρ) (held : state.objpoolWriteOp.read slot = some context)
    (next : WriteOpContext ι) :
    (state.put slot next).objpoolWriteOp.read =
      update state.objpoolWriteOp.read slot (some next) := by
  obtain ⟨pool, written, read⟩ := Pool.write_live held next
  simp only [put, written, getD_some]
  exact read

theorem context_eq (held : state.objpoolWriteOp.read slot = some context) : state.context slot = .ok context := by
  simp only [Writes.context, held]

theorem setContext_eq (state : Writes ι ρ) (held : state.objpoolWriteOp.read slot = some context)
    (next : WriteOpContext ι) : state.setContext slot next = .ok (state.put slot next) := by
  obtain ⟨pool, written, read⟩ := Pool.write_live held next
  simp only [setContext, put, written, getD_some]

theorem read_release {msgBuf : Nat} (held : state.objpoolWriteOp.read slot = some context)
    (buffer : state.objpoolMsg.read msgBuf = some ()) :
    (state.release slot msgBuf).objpoolWriteOp.read = update state.objpoolWriteOp.read slot none ∧
      (state.release slot msgBuf).objpoolMsg.read = update state.objpoolMsg.read msgBuf none := by
  obtain ⟨pool, freed, read⟩ := Pool.free_live held
  obtain ⟨msgs, cleared, kept⟩ := Pool.free_live buffer
  simp only [release, freed, cleared, getD_some]
  exact ⟨read, kept⟩

private theorem maybeDropWriteOpContext_eq (held : state.objpoolWriteOp.read slot = some context)
    (buffer : state.objpoolMsg.read context.msgBuf = some ()) :
    state.maybeDropWriteOpContext slot = .ok (state.settle slot context) := by
  obtain ⟨pool, freed, -⟩ := Pool.free_live held
  obtain ⟨msgs, cleared, -⟩ := Pool.free_live buffer
  simp only [maybeDropWriteOpContext, context_eq held, settle, release, freed, cleared]
  by_cases waits : context.cntFinishedOps = context.cntPostedOps
  · cases queued : context.inQueue <;> simp [waits, queued, cleared, bind, Except.bind, pure, Except.pure]
  · simp [waits, bind, Except.bind, pure, Except.pure]

end

structure Tracked (left : ω → ι → List (Option ρ) → Prop) (state : Writes ι ρ) (slot : Nat)
    (context : WriteOpContext ι) : Prop where
  iter : ∃ op rest, left op context.rdmaOpIter rest ∧ rest.length + context.cntPostedOps = context.totalOps
  positive : 0 < context.totalOps
  waits : state.waiting slot + context.cntFinishedOps = context.cntPostedOps
  buffer : state.objpoolMsg.read context.msgBuf = some ()
  queued : slot ∈ state.writeOps → context.inQueue = true ∧ context.cntPostedOps ≠ context.totalOps
  unqueued : slot ∉ state.writeOps → context.cntPostedOps = context.totalOps ∨ context.bad = true ∧ context.inQueue = false

structure Inv (left : ω → ι → List (Option ρ) → Prop) (state : Writes ι ρ) : Prop where
  tracked : ∀ {slot context}, state.objpoolWriteOp.read slot = some context → Tracked left state slot context
  flying : ∀ {slot request}, (slot, request) ∈ state.inFlight → ∃ context, state.objpoolWriteOp.read slot = some context
  listed : ∀ slot, slot ∈ state.writeOps → ∃ context, state.objpoolWriteOp.read slot = some context
  distinct : state.writeOps.Nodup
  buffers : ∀ {slot other context another}, state.objpoolWriteOp.read slot = some context →
    state.objpoolWriteOp.read other = some another → context.msgBuf = another.msgBuf → slot = other
  passed : ∀ {request}, request ∈ state.passed → ∃ op iter rest, left op iter rest ∧ some request ∈ rest

variable {left : ω → ι → List (Option ρ) → Prop} {state after : Writes ι ρ} {slot : Nat} {context next : WriteOpContext ι}

theorem inv_new : Inv left (Writes.new : Writes ι ρ) where
  tracked held := by simp [Writes.new] at held
  flying member := by cases member
  listed _ member := by cases member
  distinct := .nil
  buffers held := by simp [Writes.new] at held
  passed member := by cases member

theorem Inv.mono {less : ω → ι → List (Option ρ) → Prop}
    (weaker : ∀ {op iter rest}, left op iter rest → less op iter rest) (inv : Inv left state) :
    Inv less state where
  tracked held := by
    obtain ⟨⟨op, rest, remains, total⟩, positive, waits, buffer, queued, unqueued⟩ := inv.tracked held
    exact ⟨⟨op, rest, weaker remains, total⟩, positive, waits, buffer, queued, unqueued⟩
  flying := inv.flying
  listed := inv.listed
  distinct := inv.distinct
  buffers := inv.buffers
  passed member := by
    obtain ⟨op, iter, rest, remains, found⟩ := inv.passed member
    exact ⟨op, iter, rest, weaker remains, found⟩

theorem Inv.replace (inv : Inv left state) (held : state.objpoolWriteOp.read slot = some context)
    (contexts : after.objpoolWriteOp.read = update state.objpoolWriteOp.read slot (some next))
    (messages : after.objpoolMsg = state.objpoolMsg) (buffer : next.msgBuf = context.msgBuf)
    (waits : ∀ other, other ≠ slot → after.waiting other = state.waiting other)
    (members : ∀ other, other ≠ slot → (other ∈ after.writeOps ↔ other ∈ state.writeOps))
    (flights : ∀ other request, (other, request) ∈ after.inFlight → other = slot ∨
      (other, request) ∈ state.inFlight) (distinct : after.writeOps.Nodup)
    (passes : ∀ request ∈ after.passed, request ∈ state.passed ∨ ∃ op iter rest, left op iter rest ∧
      some request ∈ rest) (tracked : Tracked left after slot next) : Inv left after where
  tracked {other another} found := by
    by_cases same : other = slot
    · subst same
      rw [contexts, update_self, Option.some.injEq] at found
      exact found ▸ tracked
    · rw [contexts, update_of_ne same] at found
      obtain ⟨iter, positive, waiting, kept, queued, unqueued⟩ := inv.tracked found
      exact ⟨iter, positive, by rw [waits other same]; exact waiting, by rw [messages]; exact kept,
        fun member => queued ((members other same).mp member), fun absent => unqueued fun member =>
          absent ((members other same).mpr member)⟩
  flying {other request} member := by
    rw [contexts]
    by_cases same : other = slot
    · exact ⟨next, by rw [same, update_self]⟩
    · rw [update_of_ne same]
      exact inv.flying ((flights other request member).resolve_left same)
  listed other member := by
    rw [contexts]
    by_cases same : other = slot
    · exact ⟨next, by rw [same, update_self]⟩
    · rw [update_of_ne same]
      exact inv.listed other ((members other same).mp member)
  distinct := distinct
  buffers {one two first second} found also shared := by
    have original : ∀ {place current}, after.objpoolWriteOp.read place = some current →
        ∃ earlier, state.objpoolWriteOp.read place = some earlier ∧ earlier.msgBuf = current.msgBuf := by
      intro place current present
      rw [contexts] at present
      by_cases same : place = slot
      · subst same
        rw [update_self, Option.some.injEq] at present
        exact ⟨context, held, by rw [← present, buffer]⟩
      · rw [update_of_ne same] at present
        exact ⟨current, present, rfl⟩
    obtain ⟨earlier, here, same⟩ := original found
    obtain ⟨previous, there, equal⟩ := original also
    exact inv.buffers here there (by rw [same, equal, shared])
  passed {request} member := (passes request member).elim inv.passed id

theorem Inv.settle (inv : Inv left state) (held : state.objpoolWriteOp.read slot = some context) :
    Inv left (state.settle slot context) := by
  unfold Writes.settle
  split
  next idle =>
    have tracked := inv.tracked held
    obtain ⟨contexts, messages⟩ := read_release held tracked.buffer
    have grounded : ∀ request, (slot, request) ∉ state.inFlight := by
      intro request member
      have positive : 0 < state.waiting slot := countP_pos_iff.mpr ⟨_, member, by simp⟩
      have waits := tracked.waits
      omega
    have absent : slot ∉ state.writeOps := by
      intro member
      rw [(tracked.queued member).1] at idle
      exact absurd idle.2 (by decide)
    refine ⟨?_, ?_, ?_, inv.distinct, ?_, inv.passed⟩
    · intro other another found
      rw [contexts] at found
      by_cases same : other = slot
      · rw [same, update_self] at found
        cases found
      · rw [update_of_ne same] at found
        obtain ⟨iter, positive, waits, buffer, queued, unqueued⟩ := inv.tracked found
        refine ⟨iter, positive, waits, ?_, queued, unqueued⟩
        rw [messages, update_of_ne fun shared => same (inv.buffers found held shared)]
        exact buffer
    · intro other request member
      rw [contexts, update_of_ne]
      · exact inv.flying member
      · rintro rfl
        exact grounded request member
    · intro other member
      rw [contexts, update_of_ne]
      · exact inv.listed other member
      · rintro rfl
        exact absent member
    · intro one two first second found also shared
      rw [contexts] at found also
      by_cases here : one = slot
      · rw [here, update_self] at found
        cases found
      · by_cases there : two = slot
        · rw [there, update_self] at also
          cases also
        · rw [update_of_ne here] at found
          rw [update_of_ne there] at also
          exact inv.buffers found also shared
  next => exact inv

section
variable (state : Writes ι ρ) (slot : Nat)

/-- A context at the head of the queue posts; it leaves the queue with its last request. -/
def pushed (rest : List Nat) (context : WriteOpContext ι) (posting : Posting ι ρ) : Writes ι ρ :=
  let after := (state.hand slot posting).put slot (.advanced context posting)
  if (WriteOpContext.advanced context posting).cntPostedOps ≠ context.totalOps then after
    else { after with writeOps := rest }

/-- A context at the head of the queue that has failed leaves the queue. -/
def dequeued (rest : List Nat) (context : WriteOpContext ι) : Writes ι ρ :=
  { state with writeOps := rest }.put slot { context with inQueue := false }

def discarded (rest : List Nat) (context : WriteOpContext ι) : Writes ι ρ :=
  (state.dequeued slot rest context).settle slot { context with inQueue := false }

end

theorem waiting_hand (state : Writes ι ρ) (slot other : Nat) (posting : Posting ι ρ) :
    (state.hand slot posting).waiting other =
      state.waiting other + if other = slot then posting.posted.length else 0 := by
  simp only [waiting, hand, countP_append, countP_map, Nat.add_left_cancel_iff]
  by_cases same : other = slot
  · subst same
    rw [if_pos rfl, countP_eq_length.mpr (by simp)]
  · rw [if_neg same, countP_eq_zero.mpr (by simpa using fun _ _ => Ne.symm same)]

theorem mem_hand {state : Writes ι ρ} {slot : Nat}
    (member : (other, request) ∈ (state.hand slot posting).inFlight) :
    other = slot ∨ (other, request) ∈ state.inFlight := by
  rcases mem_append.mp member with before | new
  · exact .inr before
  · obtain ⟨_, _, same⟩ := List.mem_map.mp new
    exact .inl (congrArg Prod.fst same).symm

private theorem mem_of_handed {posted refused : List ρ} {later : List (Option ρ)} (first : refused.map some <+: later)
    (member : request ∈ posted ++ refused) : some request ∈ posted.map some ++ later := by
  rcases mem_append.mp member with taken | left_
  · exact mem_append_left _ (List.mem_map_of_mem taken)
  · exact mem_append_right _ (first.subset (List.mem_map_of_mem left_))

theorem Tracked.posts {post : ι → Nat → Option (Posting ι ρ)}
    (next : ∀ op, PostsNext post (left op)) (tracked : Tracked left state slot context)
    (posted : post context.rdmaOpIter room = some posting) :
    posting.count = posting.posted.length ∧ (∃ op rest, left op posting.iter rest ∧
      rest.length + (context.cntPostedOps + posting.count) = context.totalOps) ∧
      ∀ request ∈ posting.posted ++ posting.refused, ∃ op iter rest, left op iter rest ∧
        some request ∈ rest := by
  obtain ⟨op, rest, remains, total⟩ := tracked.iter
  obtain ⟨counted, later, rfl, after, refused⟩ := next op remains posted
  refine ⟨counted, ⟨op, later, after, ?_⟩, fun request member => ⟨op, _, _, remains, ?_⟩⟩
  · rw [length_append, length_map] at total
    omega
  · exact mem_of_handed refused member

theorem Inv.pushed {post : ι → Nat → Option (Posting ι ρ)} (lawful : ∀ op, PostsNext post (left op))
    (inv : Inv left state) (head : state.writeOps = slot :: rest)
    (held : state.objpoolWriteOp.read slot = some context)
    (posted : post context.rdmaOpIter room = some posting) :
    Inv left (state.pushed slot rest context posting) := by
  have tracked := inv.tracked held
  have distinct := inv.distinct
  have member : slot ∈ state.writeOps := by simp [head]
  rw [head] at distinct
  obtain ⟨absent, others⟩ := nodup_cons.mp distinct
  obtain ⟨counted, iter, handed⟩ := tracked.posts lawful posted
  have flown := read_put (state.hand slot posting) held (.advanced context posting)
  have waits := tracked.waits
  have here := waiting_hand state slot slot posting
  rw [if_pos rfl] at here
  have away : ∀ other, other ≠ slot → (state.hand slot posting).waiting other = state.waiting other := by
    intro other apart
    rw [waiting_hand, if_neg apart, Nat.add_zero]
  have balance : (state.hand slot posting).waiting slot + context.cntFinishedOps =
      context.cntPostedOps + posting.count := by
    omega
  have passes : ∀ request ∈ (state.hand slot posting).passed, request ∈ state.passed ∨
      ∃ op iter rest, left op iter rest ∧ some request ∈ rest :=
    fun request member => (mem_append.mp member).imp_right (handed request)
  unfold Writes.pushed
  split
  next more =>
    refine inv.replace held flown rfl rfl away (fun _ _ => .rfl) (fun _ _ => mem_hand) inv.distinct
      passes ⟨iter, tracked.positive, balance, tracked.buffer, ?_, ?_⟩
    · intro _
      exact ⟨(tracked.queued member).1, more⟩
    · intro out
      exact absurd member out
  next ended =>
    refine inv.replace held flown rfl rfl away ?_ (fun _ _ => mem_hand) others passes ⟨iter,
      tracked.positive, balance, tracked.buffer, ?_, ?_⟩
    · intro other apart
      simp [head, apart]
    · intro back
      exact absurd back absent
    · intro _
      exact .inl (not_not.mp ended)

theorem read_dequeued (held : state.objpoolWriteOp.read slot = some context) :
    (state.dequeued slot rest context).objpoolWriteOp.read =
      update state.objpoolWriteOp.read slot (some { context with inQueue := false }) :=
  read_put { state with writeOps := rest } held _

theorem Inv.discarded (inv : Inv left state) (head : state.writeOps = slot :: rest)
    (held : state.objpoolWriteOp.read slot = some context) (failed : context.bad = true) :
    Inv left (state.discarded slot rest context) := by
  have tracked := inv.tracked held
  have distinct := inv.distinct
  rw [head] at distinct
  obtain ⟨absent, others⟩ := nodup_cons.mp distinct
  have kept : Inv left (state.dequeued slot rest context) := by
    refine inv.replace held (read_dequeued held) rfl rfl (fun _ _ => rfl) ?_ (fun _ _ => .inr) others (fun _ => .inl)
      ⟨tracked.iter, tracked.positive, tracked.waits, tracked.buffer, fun back =>
        absurd back absent, fun _ => .inr ⟨failed, rfl⟩⟩
    intro other apart
    simp [head, apart, dequeued, put]
  apply kept.settle
  rw [read_dequeued held, update_self]

variable {provider : Provider ω ι ρ}

private theorem discard_eq (inv : Inv left state) (held : state.objpoolWriteOp.read slot = some context) :
    state.discard slot rest context = .ok (state.discarded slot rest context) := by
  simp only [discard, setContext_eq { state with writeOps := rest } held, bind, Except.bind]
  exact maybeDropWriteOpContext_eq (by rw [← dequeued, read_dequeued held, update_self]) (inv.tracked held).buffer

theorem progressLoop_cons (inv : Inv left state) (head : state.writeOps = slot :: rest)
    (held : state.objpoolWriteOp.read slot = some context) (rounds room : Nat) :
    progressLoop provider (rounds + 1) room state =
      if context.bad then progressLoop provider rounds room (state.discarded slot rest context)
      else
        match provider.progress context.rdmaOpIter room with
        | none => .error .panic
        | some posting =>
          if (WriteOpContext.advanced context posting).cntPostedOps ≠ context.totalOps then
            .ok (state.pushed slot rest context posting)
          else progressLoop provider rounds posting.room
            (state.pushed slot rest context posting) := by
  have bounded : ¬ context.cntPostedOps < context.cntFinishedOps := by
    have waits := (inv.tracked held).waits
    omega
  rw [progressLoop]
  split
  next empty =>
    rw [head] at empty
    cases empty
  next found =>
    rw [head] at found
    cases found
    simp only [context_eq held, discard_eq inv held, bind, Except.bind, if_neg bounded]
    by_cases failed : context.bad
    · rw [if_pos failed, if_pos failed]
    · rw [if_neg failed, if_neg failed, progressContext, if_neg failed]
      cases posted : provider.progress context.rdmaOpIter room with
      | none => rfl
      | some posting =>
        have set := setContext_eq (state.hand slot posting) held (.advanced context posting)
        simp only [WriteOpContext.advanced] at set
        simp only [set, pushed, WriteOpContext.advanced]
        by_cases ended : context.cntPostedOps + posting.count = context.totalOps
        · simp [ended]
        · simp [ended, pure, Except.pure]

def Safe (left : ω → ι → List (Option ρ) → Prop) : Except Fault (Writes ι ρ) → Prop
  | .ok after => Inv left after
  | .error fault => fault = .panic

variable {requests : ω → List (Option ρ)} {given : ω → Prop}

theorem progressLoop_safe (lawful : Lawful provider requests left given) (inv : Inv left state) (rounds room : Nat) :
    Safe left (progressLoop provider rounds room state) := by
  induction rounds generalizing state room with
  | zero => exact inv
  | succ rounds ih =>
    cases head : state.writeOps with
    | nil =>
      simp only [progressLoop, head]
      exact inv
    | cons slot rest =>
      obtain ⟨context, held⟩ := inv.listed slot (by simp [head])
      rw [progressLoop_cons inv head held]
      split
      next failed => exact ih (inv.discarded head held failed) room
      next =>
        split
        next => rfl
        next posting posted =>
          have kept := inv.pushed lawful.progress head held posted
          split
          next => exact kept
          next => exact ih kept posting.room

def opened (provider : Provider ω ι ρ) (transferId : TransferId) (iter : ι) (msgBuf : Nat)
    (posting : Posting ι ρ) : WriteOpContext ι :=
  { (newContext provider transferId iter msgBuf).advanced posting with inQueue := decide (posting.count ≠ provider.totalOps iter) }

structure Opens (provider : Provider ω ι ρ) (state : Writes ι ρ) (transferId : TransferId)
    (iter : ι) (posting : Posting ι ρ) (after : Writes ι ρ) : Prop where
  contexts : after.objpoolWriteOp.read = update state.objpoolWriteOp.read state.objpoolWriteOp.top
    (some (opened provider transferId iter state.objpoolMsg.top posting))
  messages : after.objpoolMsg.read = update state.objpoolMsg.read state.objpoolMsg.top (some ())
  queue : after.writeOps = if posting.count ≠ provider.totalOps iter then state.writeOps ++
    [state.objpoolWriteOp.top] else state.writeOps
  flights : after.inFlight = (state.hand state.objpoolWriteOp.top posting).inFlight
  completed : after.completed = state.completed
  passed : after.passed = state.passed ++ (posting.posted ++ posting.refused)

theorem doSubmitWrite_cases (provider : Provider ω ι ρ) (state : Writes ι ρ)
    (transferId : TransferId) (op : ω) (room : Nat) :
    state.doSubmitWrite provider transferId op room = .error .panic ∨
      ∃ iter posting after, provider.construct op = some iter ∧
        provider.eager iter room = some posting ∧
        state.doSubmitWrite provider transferId op room = .ok after ∧
          Opens provider state transferId iter posting after := by
  unfold doSubmitWrite
  cases made : provider.construct op with
  | none => exact .inl rfl
  | some iter =>
    simp only [progressContext, newContext, Bool.false_eq_true, if_false]
    cases posted : provider.eager iter room with
    | none => exact .inl rfl
    | some posting =>
      obtain ⟨pool, written, read⟩ :=
        Pool.write_alloc state.objpoolWriteOp (opened provider transferId iter state.objpoolMsg.top posting)
      obtain ⟨msgs, filled, kept⟩ := Pool.write_alloc state.objpoolMsg ()
      refine .inr ⟨iter, posting, { state.hand state.objpoolWriteOp.top posting with
        objpoolWriteOp := pool
        objpoolMsg := msgs
        writeOps := if posting.count ≠ provider.totalOps iter then state.writeOps ++
          [state.objpoolWriteOp.top] else state.writeOps },
        rfl, posted, ?_, ⟨read, kept, rfl, rfl, rfl, rfl⟩⟩
      simp only [opened, newContext, WriteOpContext.advanced, Nat.zero_add] at written
      simp only [bind, Except.bind, place, Nat.zero_add, Pool.alloc_slot] at written filled ⊢
      simp only [written, filled]
      simp

theorem Inv.fresh_top (inv : Inv left state) :
    state.objpoolWriteOp.top ∉ state.writeOps ∧ state.waiting state.objpoolWriteOp.top = 0 := by
  constructor
  · intro member
    obtain ⟨context, held⟩ := inv.listed _ member
    rw [Pool.read_top] at held
    cases held
  · apply countP_eq_zero.mpr
    rintro ⟨slot, request⟩ member
    obtain ⟨context, held⟩ := inv.flying member
    simp only [decide_eq_true_eq]
    rintro rfl
    rw [Pool.read_top] at held
    cases held

section
variable (opens : Opens provider state transferId iter posting after)
include opens

theorem Opens.mem_iff (apart : other ≠ state.objpoolWriteOp.top) :
    other ∈ after.writeOps ↔ other ∈ state.writeOps := by
  rw [opens.queue]
  split <;> simp [apart]

theorem Opens.waiting_eq (other : Nat) :
    after.waiting other = state.waiting other + if other = state.objpoolWriteOp.top then
      posting.posted.length else 0 := by
  rw [← waiting_hand, waiting, opens.flights]
  rfl

theorem Opens.read_top :
    after.objpoolWriteOp.read state.objpoolWriteOp.top =
      some (opened provider transferId iter state.objpoolMsg.top posting) := by
  rw [opens.contexts, update_self]

theorem Opens.read_other (apart : other ≠ state.objpoolWriteOp.top) :
    after.objpoolWriteOp.read other = state.objpoolWriteOp.read other := by
  rw [opens.contexts, update_of_ne apart]

end

theorem Opens.tracked (lawful : Lawful provider requests left given) (inv : Inv left state) {op : ω}
    (valid : given op) (made : provider.construct op = some iter)
    (posted : provider.eager iter room = some posting)
    (opens : Opens provider state transferId iter posting after) :
    Tracked left after state.objpoolWriteOp.top
      (opened provider transferId iter state.objpoolMsg.top posting) := by
  obtain ⟨absent, grounded⟩ := inv.fresh_top
  obtain ⟨counted, later, split_, rest, -⟩ := lawful.eager op (lawful.starts valid made) posted
  have total := lawful.total made
  have nonempty := length_pos_iff.mpr (lawful.nonempty made)
  have size := congrArg List.length split_
  rw [length_append, length_map] at size
  have waits := opens.waiting_eq state.objpoolWriteOp.top
  rw [if_pos rfl, grounded] at waits
  refine ⟨⟨op, later, rest, ?_⟩, ?_, ?_, ?_, ?_, ?_⟩
  · show later.length + (0 + posting.count) = provider.totalOps iter
    omega
  · show 0 < provider.totalOps iter
    omega
  · show after.waiting _ + 0 = 0 + posting.count
    omega
  · show after.objpoolMsg.read state.objpoolMsg.top = some ()
    rw [opens.messages, update_self]
  · intro member
    rw [opens.queue] at member
    split at member
    next more => exact ⟨decide_eq_true more, by rw [← Nat.zero_add posting.count] at more; exact more⟩
    next => exact absurd member absent
  · intro out
    rw [opens.queue] at out
    split at out
    next => exact absurd (mem_append_right _ (mem_singleton_self _)) out
    next ended => exact .inl (by rw [← Nat.zero_add posting.count] at ended; exact not_not.mp ended)

theorem Inv.fresh_buffer (inv : Inv left state) {context : WriteOpContext ι}
    (held : state.objpoolWriteOp.read other = some context) :
    context.msgBuf ≠ state.objpoolMsg.top := by
  intro same
  have buffer := (inv.tracked held).buffer
  rw [same, Pool.read_top] at buffer
  cases buffer

theorem Inv.opens (lawful : Lawful provider requests left given) (inv : Inv left state) {op : ω}
    (valid : given op) (made : provider.construct op = some iter)
    (posted : provider.eager iter room = some posting)
    (opens : Opens provider state transferId iter posting after) : Inv left after := by
  refine ⟨?_, ?_, ?_, ?_, ?_, ?_⟩
  · intro other context held
    by_cases same : other = state.objpoolWriteOp.top
    · subst same
      rw [opens.read_top, Option.some.injEq] at held
      subst held
      exact opens.tracked lawful inv valid made posted
    · rw [opens.read_other same] at held
      obtain ⟨iter, positive, waits, buffer, queued, unqueued⟩ := inv.tracked held
      refine ⟨iter, positive, ?_, ?_, fun member => queued ((opens.mem_iff same).mp member),
        fun out => unqueued fun member => out ((opens.mem_iff same).mpr member)⟩
      · rw [opens.waiting_eq, if_neg same]
        exact waits
      · rw [opens.messages, update_of_ne (inv.fresh_buffer held)]
        exact buffer
  · intro other request member
    rw [opens.flights] at member
    by_cases same : other = state.objpoolWriteOp.top
    · exact ⟨_, same ▸ opens.read_top⟩
    · rw [opens.read_other same]
      exact inv.flying ((mem_hand member).resolve_left same)
  · intro other member
    by_cases same : other = state.objpoolWriteOp.top
    · exact ⟨_, same ▸ opens.read_top⟩
    · rw [opens.read_other same]
      exact inv.listed other ((opens.mem_iff same).mp member)
  · rw [opens.queue]
    split
    next =>
      apply nodup_append.mpr ⟨inv.distinct, pairwise_singleton _ _, ?_⟩
      intro other member last single same
      rw [same, mem_singleton.mp single] at member
      exact inv.fresh_top.1 member
    next => exact inv.distinct
  · intro one two first second found also shared
    by_cases same : one = state.objpoolWriteOp.top
    · by_cases equal : two = state.objpoolWriteOp.top
      · rw [same, equal]
      · rw [opens.read_other equal] at also
        rw [same, opens.read_top, Option.some.injEq] at found
        exact absurd (by rw [← shared, ← found]; rfl) (inv.fresh_buffer also)
    · rw [opens.read_other same] at found
      by_cases equal : two = state.objpoolWriteOp.top
      · rw [equal, opens.read_top, Option.some.injEq] at also
        exact absurd (by rw [shared, ← also]; rfl) (inv.fresh_buffer found)
      · rw [opens.read_other equal] at also
        exact inv.buffers found also shared
  · intro request member
    obtain ⟨-, later, split_, -, refused⟩ := lawful.eager op (lawful.starts valid made) posted
    rw [opens.passed] at member
    rcases mem_append.mp member with before | new
    · exact inv.passed before
    · exact ⟨op, iter, _, lawful.starts valid made, split_ ▸ mem_of_handed refused new⟩

def Action.Given (given : ω → Prop) : Action ω ρ → Prop
  | .submit _ op _ => given op
  | _ => True

theorem given_always (action : Action ω ρ) : action.Given fun _ => True := by cases action <;> trivial

section
variable [DecidableEq ρ]

/-- A request of a context has completed: the device's part, and with the count. -/
def touched (state : Writes ι ρ) (slot : Nat) (context : WriteOpContext ι) (request : ρ)
    (failed : Bool) : Writes ι ρ :=
  { state with
    inFlight := state.inFlight.erase (slot, request)
    completed := state.completed ++ [(context.transferId, request, failed)] }

def landed (state : Writes ι ρ) (slot : Nat) (context : WriteOpContext ι) (request : ρ) (failed : Bool) : Writes ι ρ :=
  (state.touched slot context request failed).put slot (context.counted failed)

def report (context : WriteOpContext ι) : Option FabricLibError → Option DomainCompletionEntry
  | none => if context.cntFinishedOps + 1 < context.totalOps then none else some (.transfer context.transferId)
  | some error => if context.bad then none else some (.error context.transferId error)

/-- The state after a completion: a success that is not the last drops nothing. -/
def handled (state : Writes ι ρ) (slot : Nat) (context : WriteOpContext ι) (request : ρ)
    (failed : Bool) : Writes ι ρ :=
  let after := state.landed slot context request failed
  if failed = false ∧ context.cntFinishedOps + 1 < context.totalOps then after
    else after.settle slot (context.counted failed)

theorem read_landed (held : state.objpoolWriteOp.read slot = some context) (request : ρ) (failed : Bool) :
    (state.landed slot context request failed).objpoolWriteOp.read =
      update state.objpoolWriteOp.read slot (some (context.counted failed)) :=
  read_put (state.touched slot context request failed) held _

private theorem waiting_erase (member : (slot, request) ∈ state.inFlight) (other : Nat) :
    (state.inFlight.erase (slot, request)).countP (·.1 = other) + (if other = slot then 1 else 0) =
      state.waiting other := by
  rw [waiting, (perm_cons_erase member).countP_eq, countP_cons]
  by_cases same : other = slot
  · simp [same]
  · simp [same, Ne.symm same]

theorem Inv.landed (inv : Inv left state) (member : (slot, request) ∈ state.inFlight)
    (held : state.objpoolWriteOp.read slot = some context) (failed : Bool) :
    Inv left (state.landed slot context request failed) := by
  have tracked := inv.tracked held
  have waits := tracked.waits
  have gone := waiting_erase member slot
  rw [if_pos rfl] at gone
  refine inv.replace held (read_landed held request failed) rfl rfl ?_ (fun _ _ => .rfl) ?_ inv.distinct (fun _ => .inl)
    ⟨tracked.iter, tracked.positive, ?_, tracked.buffer, tracked.queued, ?_⟩
  · intro other apart
    have kept := waiting_erase member other
    rw [if_neg apart] at kept
    exact kept
  · intro other request present
    exact .inr (mem_of_mem_erase present)
  · show (state.inFlight.erase (slot, request)).countP (·.1 = slot) + (context.cntFinishedOps + 1) = context.cntPostedOps
    omega
  · intro out
    refine (tracked.unqueued out).imp_right fun idle => ⟨?_, idle.2⟩
    simp [WriteOpContext.counted, idle.1]

theorem Inv.handled (inv : Inv left state) (member : (slot, request) ∈ state.inFlight)
    (held : state.objpoolWriteOp.read slot = some context) (failed : Bool) :
    Inv left (state.handled slot context request failed) := by
  have kept := inv.landed member held failed
  unfold Writes.handled
  split
  next => exact kept
  next =>
    apply kept.settle
    rw [read_landed held, update_self]

theorem handleCqe_eq (inv : Inv left state) (member : (slot, request) ∈ state.inFlight)
    (held : state.objpoolWriteOp.read slot = some context) (failure : Option FabricLibError) :
    state.handleCqe slot request failure =
      .ok (report context failure, state.handled slot context request failure.isSome) := by
  have set : ∀ failed, (state.touched slot context request failed).setContext slot (context.counted failed) =
      .ok (state.landed slot context request failed) :=
    fun failed => setContext_eq (state.touched slot context request failed) held _
  have dropped : ∀ failed, (state.landed slot context request failed).maybeDropWriteOpContext slot =
      .ok ((state.landed slot context request failed).settle slot (context.counted failed)) :=
    fun failed => maybeDropWriteOpContext_eq (by rw [read_landed held, update_self]) (inv.tracked held).buffer
  simp only [handleCqe, if_pos member, finish, context_eq held, bind, Except.bind, pure, Except.pure]
  cases failure with
  | none =>
    have same : context.counted false =
        { context with cntFinishedOps := context.cntFinishedOps + 1 } := by
      simp [WriteOpContext.counted]
    have ok := set false
    have last := dropped false
    rw [same, touched] at ok
    rw [same] at last
    simp only [handleWrite, Writes.context, held, bind, Except.bind, pure, Except.pure, isSome_none,
      ok, last, report, handled, same]
    by_cases more : context.cntFinishedOps + 1 < context.totalOps
    · simp [more]
    · simp [more]
  | some error =>
    have same : context.counted true = { context with cntFinishedOps := context.cntFinishedOps + 1, bad := true } := by
      simp [WriteOpContext.counted]
    have ok := set true
    have last := dropped true
    rw [same, touched] at ok
    rw [same] at last
    simp only [handleWriteError, Writes.context, held, bind, Except.bind, pure, Except.pure,
      isSome_some, ok, last, report, handled, same]
    simp

theorem step_safe (lawful : Lawful provider requests left given) (inv : Inv left state)
    {action : Action ω ρ} (valid : action.Given given) :
    Safe left (state.step provider action) := by
  cases action with
  | submit transferId op room =>
    rcases doSubmitWrite_cases provider state transferId op room with stopped | ⟨iter, posting,
      after, made, posted, done, opens⟩
    · rw [step, stopped]
      rfl
    · rw [step, done]
      exact inv.opens lawful valid made posted opens
  | progress room => exact progressLoop_safe lawful inv _ room
  | cqe slot request failure =>
    by_cases member : (slot, request) ∈ state.inFlight
    · obtain ⟨context, held⟩ := inv.flying member
      simp only [step, handleCqe_eq inv member held, bind, Except.bind]
      exact inv.handled member held failure.isSome
    · simp only [step, handleCqe, if_neg member, bind, Except.bind]
      exact inv

theorem fire_keeps (lawful : Lawful provider requests left given) (inv : Inv left state)
    {action : Action ω ρ} (valid : action.Given given)
    (fired : fire provider state action = some after) : Inv left after := by
  have safe := step_safe lawful inv valid
  rw [fire] at fired
  cases result : state.step provider action with
  | ok next =>
    rw [result] at fired safe
    cases fired
    exact safe
  | error fault =>
    rw [result] at fired
    cases fired

private theorem reached_inv (lawful : Lawful provider requests left fun _ => True) {actions : List (Action ω ρ)}
    (reached : runs (fire provider) Writes.new actions = some state) : Inv left state :=
  runs_invariant inv_new (fun _ action _ inv fired => fire_keeps lawful inv (given_always action) fired) reached

end

/-- Contexts are used while they are live: the counts are in order, the queue and the
device refer to live contexts, a step frees only what neither refers to, and nothing
but an iterator stops the domain. -/
structure Guarded [DecidableEq ρ] (provider : Provider ω ι ρ) (state : Writes ι ρ) : Prop where
  counts : ∀ slot context, state.objpoolWriteOp.read slot = some context →
    context.cntFinishedOps ≤ context.cntPostedOps ∧ context.cntPostedOps ≤ context.totalOps ∧ state.writeOps.count slot ≤ 1
  queue : ∀ slot ∈ state.writeOps, ∃ context, state.objpoolWriteOp.read slot = some context
  device : ∀ slot request, (slot, request) ∈ state.inFlight → ∃ context, state.objpoolWriteOp.read slot = some context
  frees : ∀ action next, state.step provider action = .ok next →
    ∀ slot context, state.objpoolWriteOp.read slot = some context →
    next.objpoolWriteOp.read slot = none → slot ∉ next.writeOps ∧ ∀ request, (slot, request) ∉ next.inFlight
  faults : ∀ action fault, state.step provider action = .error fault → fault = .panic

theorem Inv.guarded [DecidableEq ρ] (lawful : Lawful provider requests left fun _ => True)
    (inv : Inv left state) : Guarded provider state where
  counts slot context held := by
    obtain ⟨op, rest, remains, total⟩ := (inv.tracked held).iter
    have waits := (inv.tracked held).waits
    exact ⟨by omega, by omega, nodup_iff_count_le_one.mp inv.distinct slot⟩
  queue := inv.listed
  device _ _ member := inv.flying member
  frees action next done slot context _ freed := by
    have safe := step_safe lawful inv (given_always action)
    rw [done] at safe
    constructor
    · intro member
      obtain ⟨other, held⟩ := safe.listed slot member
      rw [freed] at held
      cases held
    · intro request member
      obtain ⟨other, held⟩ := safe.flying member
      rw [freed] at held
      cases held
  faults action fault stopped := by
    have safe := step_safe lawful inv (given_always action)
    rw [stopped] at safe
    exact safe

end Writes

end Provider

open Provider

theorem contexts_guarded :
    (∀ actions state, runs (Writes.fire Efa.provider) .new actions = some state →
      Writes.Guarded Efa.provider state) ∧
    (∀ actions state, runs (Writes.fire Verbs.provider) .new actions = some state →
      Writes.Guarded Verbs.provider state) :=
  ⟨fun _ _ reached => (Writes.reached_inv Efa.lawful reached).guarded Efa.lawful,
    fun _ _ reached => (Writes.reached_inv Verbs.lawful reached).guarded Verbs.lawful⟩

def twoPages : PagedWriteOp where
  srcPageIndices := [0, 1]
  dstPageIndices := [0, 1]
  pageIndicesBeg := 0
  pageIndicesEnd := 2
  length := 16
  srcPtr := 100
  srcDesc := 7
  srcStride := 64
  srcOffset := 0
  dstPtr := 5000
  dstRkey := 9
  dstStride := 64
  dstOffset := 0
  immData := none

/-- Two pages posted one by one, the first of which fails. -/
def failsFirst {ω ρ : Type} (op : ω) (first : ρ) : List (Writes.Action ω ρ) :=
  [.submit 5 op 1, .cqe 0 first (some (.completionError "flushed")), .progress 1]

theorem contexts_guarded_twoPages :
    (∃ state, runs (Writes.fire Efa.provider) .new (failsFirst (.write (.paged twoPages) 3)
      (Efa.pagesMsg twoPages 3 (0, 0))) = some state ∧
      Writes.Guarded Efa.provider state) ∧
    (∃ state, runs (Writes.fire Verbs.provider) .new (failsFirst (.write (.paged twoPages) 3) (3,
      Verbs.pagesWr twoPages (0, 0))) = some state ∧
      Writes.Guarded Verbs.provider state) := by
  constructor
  · obtain ⟨state, reached⟩ := isSome_iff_exists.mp (show (runs (Writes.fire Efa.provider) .new
      (failsFirst (.write (.paged twoPages) 3) (Efa.pagesMsg twoPages 3 (0, 0)))).isSome by decide +kernel)
    exact ⟨state, reached, contexts_guarded.1 _ state reached⟩
  · obtain ⟨state, reached⟩ := isSome_iff_exists.mp (show (runs (Writes.fire Verbs.provider) .new
      (failsFirst (.write (.paged twoPages) 3) (3, Verbs.pagesWr twoPages (0, 0)))).isSome by decide +kernel)
    exact ⟨state, reached, contexts_guarded.2 _ state reached⟩

end PplxGarden.Fabric
