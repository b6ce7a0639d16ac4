import Mathlib.Data.Fintype.BigOperators
import PplxGarden.Library.Grid

/-! Launches in which the first thread of each contributing block adds its share to
the counter and raises the signal if the shares are complete. -/

namespace PplxGarden.Library.Grid
open Library Function Finset

variable {G T : Nat} [NeZero T]
variable {state : State G T} {op : Op} {rest ops : List Op} {thread : Fin G × Fin T} {block : Fin G}

/-- Operations that touch neither the counter nor the signal. -/
def Op.isQuiet : Op → Bool
  | .access | .sync | .gridSync => true
  | _ => false

def Op.isAdd : Op → Bool
  | .add _ => true
  | _ => false

def pending (ops : List Op) : Bool := ops.any Op.isAdd

def armed (ops : List Op) : Bool := ops.any (· == .signalIf)

def Op.follows : Op → Bool
  | .sync | .gridSync | .resetIf | .reset => true
  | _ => false

/-- The first thread of a contributing block runs `pre`, adds its share, tests and
runs `post`; nobody else touches counter and signal, except for resets that come
after a grid barrier which follows all shares. -/
structure Shape (program : Fin G × Fin T → List Op) (blocks : Finset (Fin G)) (amount : Fin G → Nat)
    (pre post : Fin G → List Op) : Prop where
  aligned : Aligned program
  shares : ∀ block ∈ blocks, program (block, 0) = pre block ++ .add (amount block) :: .signalIf :: post block
  quiet : ∀ block ∈ blocks, ∀ op ∈ pre block, op.isQuiet = true
  follows : ∀ block ∈ blocks, ∀ op ∈ post block, op.follows = true
  others : ∀ thread, (thread.2 = 0 → thread.1 ∉ blocks) → ∀ op ∈ program thread, op.isQuiet = true ∨ op = .reset
  late : ∀ thread before after, program thread = before ++ .reset :: after →
    ∀ block ∈ blocks, (skeleton after).count .gridSync < (skeleton (post block)).count .gridSync

/-- How far the first thread of a contributing block has come. -/
inductive Progress (amount : Nat) (pre post : List Op) : List Op → Prop where
  | before (ahead : List Op) (part : ahead <:+ pre) : Progress amount pre post (ahead ++ .add amount :: .signalIf :: post)
  | added : Progress amount pre post (.signalIf :: post)
  | past {rest : List Op} (part : rest <:+ post) : Progress amount pre post rest

theorem progress {amount : Nat} {pre post : List Op} (part : rest <:+ pre ++ .add amount :: .signalIf :: post) :
    Progress amount pre post rest := by
  induction pre with
  | nil =>
    cases List.suffix_cons_iff.mp part with
    | inl whole =>
      subst whole
      exact .before [] List.suffix_rfl
    | inr shorter =>
      cases List.suffix_cons_iff.mp shorter with
      | inl whole =>
        subst whole
        exact .added
      | inr shorter => exact .past shorter
  | cons op pre ih =>
    cases List.suffix_cons_iff.mp part with
    | inl whole =>
      subst whole
      exact .before (op :: pre) List.suffix_rfl
    | inr shorter =>
      cases ih shorter with
      | before ahead piece => exact .before ahead (piece.trans (List.suffix_cons op pre))
      | added => exact .added
      | past piece => exact .past piece

theorem pending_of_quiet {later : List Op} (quiet : ∀ op ∈ ops, op.isQuiet = true) : pending (ops ++ later) = pending later := by
  have none : ops.any Op.isAdd = false := by
    rw [List.any_eq_false]
    intro op member adds
    have calm := quiet op member
    cases op <;> simp_all [Op.isQuiet, Op.isAdd]
  rw [pending, pending, List.any_append, none, Bool.false_or]

theorem follows_idle (follows : ∀ op ∈ ops, op.follows = true) : pending ops = false ∧ armed ops = false := by
  refine ⟨?_, ?_⟩
  · rw [pending, List.any_eq_false]
    intro op member adds
    have calm := follows op member
    cases op <;> simp_all [Op.follows, Op.isAdd]
  · rw [armed, List.any_eq_false]
    intro op member tests
    have calm := follows op member
    cases op <;> simp_all [Op.follows]

section
variable {target : Nat} {program : Fin G × Fin T → List Op} {blocks : Finset (Fin G)} {amount : Fin G → Nat} {pre post : Fin G → List Op}

def sharesAdded (blocks : Finset (Fin G)) (amount : Fin G → Nat) (state : State G T) : Nat :=
  ∑ block ∈ blocks.filter fun block => pending (state.rest (block, 0)) = false, amount block

/-- Either the shares are incomplete and nothing has been signalled, or exactly one
block has seen the target. -/
inductive Phase (target : Nat) (blocks : Finset (Fin G)) (amount : Fin G → Nat) (state : State G T) : Prop where
  | waiting (silent : state.signals = 0)
      (missed : ∀ block ∈ blocks, pending (state.rest (block, 0)) = false → state.register (block, 0) ≠ target)
      (counted : ∀ block ∈ blocks, pending (state.rest (block, 0)) = true → state.counter = sharesAdded blocks amount state)
      (incomplete : (∃ block ∈ blocks, pending (state.rest (block, 0)) = true) ∨ blocks = ∅ ∨ ∑ block ∈ blocks, amount block ≠ target)
  | complete (last : Fin G) (listed : last ∈ blocks) (added : ∀ block ∈ blocks, pending (state.rest (block, 0)) = false)
      (hit : state.register (last, 0) = target)
      (missed : ∀ block ∈ blocks, block ≠ last → state.register (block, 0) ≠ target)
      (signalled : state.signals = if armed (state.rest (last, 0)) then 0 else 1)
      (total : ∑ block ∈ blocks, amount block = target)

theorem Phase.frame {before after : State G T} (phase : Phase target blocks amount before)
    (shares : ∀ block ∈ blocks, pending (after.rest (block, 0)) = pending (before.rest (block, 0)))
    (tests : ∀ block ∈ blocks, before.register (block, 0) = target → armed (after.rest (block, 0)) = armed (before.rest (block, 0)))
    (registers : after.register = before.register) (signals : after.signals = before.signals)
    (counter : after.counter = before.counter ∨ ∀ block ∈ blocks, pending (before.rest (block, 0)) = false) :
    Phase target blocks amount after := by
  have same : sharesAdded blocks amount after = sharesAdded blocks amount before := by
    rw [sharesAdded, sharesAdded]
    refine sum_congr (filter_congr fun block member => ?_) fun _ _ => rfl
    rw [shares block member]
  cases phase with
  | waiting silent missed counted incomplete =>
    refine .waiting (signals.trans silent) ?_ ?_ ?_
    · intro block member idle
      rw [shares block member] at idle
      rw [registers]
      exact missed block member idle
    · intro block member waits
      rw [shares block member] at waits
      cases counter with
      | inl kept => rw [kept, same, counted block member waits]
      | inr added => exact absurd (added block member) (by simp [waits])
    · cases incomplete with
      | inl some =>
        obtain ⟨block, member, waits⟩ := some
        exact .inl ⟨block, member, (shares block member).trans waits⟩
      | inr never => exact .inr never
  | complete last listed added hit missed signalled total =>
    refine .complete last listed ?_ ?_ ?_ ?_ total
    · intro block member
      rw [shares block member]
      exact added block member
    · rw [registers]
      exact hit
    · rw [registers]
      exact missed
    · rw [signals, tests last listed hit]
      exact signalled

inductive Next (blocks : Finset (Fin G)) (amount : Fin G → Nat) (post : Fin G → List Op) (thread : Fin G × Fin T) : Op → List Op → Prop where
  | access (rest : List Op) : Next blocks amount post thread .access rest
  | barrier {op : Op} {rest : List Op} (meets : op.isBarrier = true) : Next blocks amount post thread op rest
  | add (block : Fin G) (listed : block ∈ blocks) (own : thread = (block, 0)) :
      Next blocks amount post thread (.add (amount block)) (.signalIf :: post block)
  | test (block : Fin G) (listed : block ∈ blocks) (own : thread = (block, 0)) : Next blocks amount post thread .signalIf (post block)
  | resetIf (block : Fin G) (listed : block ∈ blocks) (own : thread = (block, 0)) {rest : List Op}
      (part : .resetIf :: rest <:+ post block) : Next blocks amount post thread .resetIf rest
  | reset (rest : List Op) : Next blocks amount post thread .reset rest

theorem Shape.next (shape : Shape program blocks amount pre post)
    (part : op :: rest <:+ program thread) : Next blocks amount post thread op rest := by
  by_cases first : thread.2 = 0 ∧ thread.1 ∈ blocks
  · obtain ⟨block, index⟩ := thread
    obtain ⟨rfl, listed⟩ := first
    rw [shape.shares block listed] at part
    generalize whole : op :: rest = ops at part
    cases progress part with
    | before ahead piece =>
      cases ahead with
      | nil =>
        cases whole
        exact .add block listed rfl
      | cons next ahead =>
        cases whole
        have calm := shape.quiet block listed op (piece.subset (List.mem_cons_self ..))
        cases op with
        | access => exact .access _
        | sync | gridSync => exact .barrier rfl
        | add | signalIf | resetIf | signal | reset => cases calm
    | added =>
      cases whole
      exact .test block listed rfl
    | past piece =>
      subst whole
      have calm := shape.follows block listed op (piece.subset (List.mem_cons_self ..))
      cases op with
      | sync | gridSync => exact .barrier rfl
      | resetIf => exact .resetIf block listed rfl piece
      | reset => exact .reset rest
      | access | add | signalIf | signal => cases calm
  · have calm := shape.others thread (fun zero listed => first ⟨zero, listed⟩) op (part.subset (List.mem_cons_self ..))
    cases calm with
    | inl quiet =>
      cases op with
      | access => exact .access rest
      | sync | gridSync => exact .barrier rfl
      | add | signalIf | resetIf | signal | reset => cases quiet
    | inr reset =>
      subst reset
      exact .reset rest

theorem Shape.reset_late (shape : Shape program blocks amount pre post) (aligned : Aligned state.rest)
    (parts : ∀ thread, state.rest thread <:+ program thread)
    (due : state.rest thread = .reset :: rest) (listed : block ∈ blocks) : pending (state.rest (block, 0)) = false := by
  have whole := parts (block, 0)
  rw [shape.shares block listed] at whole
  generalize current : state.rest (block, 0) = ops at whole
  cases progress whole with
  | before ahead piece =>
    obtain ⟨earlier, split⟩ := parts thread
    rw [due] at split
    have few := shape.late thread earlier rest split.symm block listed
    have same := aligned.grid thread (block, 0)
    rw [current, due] at same
    simp only [skeleton, List.filter_append, List.filter_cons, List.count_append, Op.isBarrier] at same few
    simp at same
    omega
  | added => exact (follows_idle (shape.follows block listed)).1
  | past piece => exact (follows_idle fun op member => shape.follows block listed op (piece.subset member)).1

omit [NeZero T] in
theorem views_update {rest : Fin G × Fin T → List Op} {tail : List Op} (ahead : rest thread = op :: tail)
    (other : Fin G × Fin T) :
    (op.isAdd = false → pending (update rest thread tail other) = pending (rest other)) ∧
      (op ≠ .signalIf → armed (update rest thread tail other) = armed (rest other)) := by
  by_cases own : other = thread
  · subst own
    rw [update_self, ahead]
    refine ⟨fun share => ?_, fun test => ?_⟩
    · simp [pending, share]
    · simp [armed, test]
  · rw [update_of_ne own]
    exact ⟨fun _ => rfl, fun _ => rfl⟩

theorem views_tail {barrier : Op} (ahead : ops.head? = some barrier) (meets : barrier.isBarrier = true) :
    pending ops.tail = pending ops ∧ armed ops.tail = armed ops := by
  cases ops with
  | nil => cases ahead
  | cons op rest =>
    cases ahead
    cases barrier with
    | sync | gridSync => exact ⟨rfl, rfl⟩
    | access | add | signalIf | resetIf | signal | reset => cases meets

theorem mem_tail_of_ne {first : Op} (ahead : ops.head? = some first) (differs : op ≠ first) (member : op ∈ ops) :
    op ∈ ops.tail := by
  cases ops with
  | nil => cases ahead
  | cons _ _ =>
    cases ahead
    exact (List.mem_cons.mp member).resolve_left differs

/-- Adding a share either keeps the shares incomplete or makes this block the last. -/
theorem Phase.add (shape : Shape program blocks amount pre post)
    (covering : ∀ part ⊆ blocks, part.Nonempty → ∑ block ∈ part, amount block = target →
      part = blocks) (phase : Phase target blocks amount state) (listed : block ∈ blocks)
    (ahead : state.rest (block, 0) = .add (amount block) :: .signalIf :: post block) :
    Phase target blocks amount
      { rest := update state.rest (block, 0) (.signalIf :: post block)
        register := update state.register (block, 0) (state.counter + amount block)
        counter := state.counter + amount block
        signals := state.signals } := by
  have waits : pending (state.rest (block, 0)) = true := by rw [ahead]; rfl
  cases phase with
  | complete last _ added => exact absurd (added block listed) (by simp [waits])
  | waiting silent missed counted incomplete =>
    have views : ∀ other, pending (update state.rest (block, 0) (.signalIf :: post block) (other, 0)) =
        if other = block then false else pending (state.rest (other, 0)) := by
      intro other
      by_cases same : other = block
      · subst same
        rw [update_self, if_pos rfl]
        exact (follows_idle (shape.follows other listed)).1
      · rw [update_of_ne (by simpa using same), if_neg same]
    have tests : armed (update state.rest (block, 0) (.signalIf :: post block) (block, 0)) = true := by
      rw [update_self]
      rfl
    have values : ∀ other, other ≠ block →
        update state.register (block, 0) (state.counter + amount block) (other, 0) = state.register (other, 0) :=
      fun other differs => update_of_ne (by simpa using differs) _ _
    have value : update state.register (block, 0) (state.counter + amount block) (block, 0) = state.counter + amount block :=
      update_self ..
    generalize update state.rest (block, 0) (.signalIf :: post block) = rest at views tests ⊢
    generalize update state.register (block, 0) (state.counter + amount block) = register at values value ⊢
    have grown : blocks.filter (fun other => pending (rest (other, 0)) = false) =
        insert block (blocks.filter fun other => pending (state.rest (other, 0)) = false) := by
      ext other
      rw [mem_insert, mem_filter, mem_filter, views]
      by_cases same : other = block
      · simp [same, listed]
      · simp [same]
    have sum : ∑ other ∈ blocks.filter (fun other => pending (rest (other, 0)) = false), amount other = state.counter + amount block := by
      rw [grown, sum_insert (by simp [waits]), counted block listed waits, Nat.add_comm]
      rfl
    have others : ∀ other ∈ blocks, other ≠ block → pending (rest (other, 0)) = false → register (other, 0) ≠ target := by
      intro other member differs idle
      rw [views, if_neg differs] at idle
      rw [values other differs]
      exact missed other member idle
    by_cases hit : state.counter + amount block = target
    · have all := covering _ (filter_subset _ _) ⟨block, by simp [views, listed]⟩ (sum.trans hit)
      have added : ∀ other ∈ blocks, pending (rest (other, 0)) = false := filter_eq_self.mp all
      refine .complete block listed added (value.trans hit) ?_ ?_ ?_
      · exact fun other member differs => others other member differs (added other member)
      · rw [tests, if_pos rfl]
        exact silent
      · rw [all] at sum
        exact sum.trans hit
    · refine .waiting silent ?_ (fun _ _ _ => sum.symm) ?_
      · intro other member idle
        by_cases same : other = block
        · subst same
          exact fun reached => hit (value.symm.trans reached)
        · exact others other member same idle
      · by_cases all : blocks.filter (fun other => pending (rest (other, 0)) = false) = blocks
        · rw [all] at sum
          exact .inr (.inr (sum ▸ hit))
        · rw [filter_eq_self] at all
          push Not at all
          obtain ⟨other, member, waiting⟩ := all
          exact .inl ⟨other, member, by simpa using waiting⟩

theorem Phase.hit (phase : Phase target blocks amount state) (listed : block ∈ blocks)
    (added : pending (state.rest (block, 0)) = false) (reached : state.register (block, 0) = target) :
    (∀ other ∈ blocks, pending (state.rest (other, 0)) = false) ∧
      (∀ other ∈ blocks, other ≠ block → state.register (other, 0) ≠ target) ∧
      (state.signals = if armed (state.rest (block, 0)) then 0 else 1) ∧ ∑ other ∈ blocks, amount other = target := by
  cases phase with
  | waiting _ missed => exact absurd reached (missed block listed added)
  | complete last _ all _ missed signalled total =>
    have same : block = last := by
      by_contra differs
      exact missed block listed differs reached
    subst same
    exact ⟨all, missed, signalled, total⟩

theorem Phase.step (shape : Shape program blocks amount pre post)
    (covering : ∀ part ⊆ blocks, part.Nonempty → ∑ block ∈ part, amount block = target → part = blocks)
    {before after : State G T} (phase : Phase target blocks amount before) (aligned : Aligned before.rest)
    (parts : ∀ thread, before.rest thread <:+ program thread) (step : Step target before after) : Phase target blocks amount after := by
  cases step with
  | @sync meeting ready =>
    have views : ∀ block : Fin G, pending (if block = meeting then (before.rest (block, 0)).tail else before.rest (block, 0)) =
        pending (before.rest (block, 0)) ∧ armed (if block = meeting then (before.rest (block, 0)).tail else before.rest (block, 0)) =
        armed (before.rest (block, 0)) := by
      intro block
      split
      next own =>
        subst own
        exact views_tail (ready 0) rfl
      next => exact ⟨rfl, rfl⟩
    exact phase.frame (fun block _ => (views block).1) (fun block _ _ => (views block).2) rfl rfl (.inl rfl)
  | gridSync ready =>
    have views := fun block => views_tail (ready (block, 0)) rfl
    exact phase.frame (fun block _ => (views block).1) (fun block _ _ => (views block).2) rfl rfl (.inl rfl)
  | @step thread op rest _ ahead performed =>
    have next : Next blocks amount post thread op rest := shape.next (ahead ▸ parts thread)
    have views := views_update ahead
    cases next with
    | access =>
      cases performed
      exact phase.frame (fun block _ => (views (block, 0)).1 rfl) (fun block _ _ => (views (block, 0)).2 (by decide)) rfl rfl (.inl rfl)
    | barrier meets =>
      rw [(perform_isSome_iff target _ thread op).mpr meets] at performed
      cases performed
    | add block listed own =>
      subst own
      cases performed
      exact phase.add shape covering listed ahead
    | test block listed own =>
      subst own
      cases performed
      have idle := follows_idle (shape.follows block listed)
      have added : pending (before.rest (block, 0)) = false := by
        rw [ahead]
        exact idle.1
      by_cases hit : before.register (block, 0) = target
      · obtain ⟨all, missed, signalled, total⟩ := phase.hit listed added hit
        refine .complete block listed (fun other member => ((views (other, 0)).1 rfl).trans (all other member)) hit missed ?_ total
        have fired : armed (before.rest (block, 0)) = true := by
          rw [ahead]
          rfl
        simp [hit, signalled, fired, idle.2]
      · refine phase.frame (fun other _ => (views (other, 0)).1 rfl) ?_ rfl (by simp [hit]) (.inl rfl)
        intro other _ reached
        have differs : other ≠ block := fun same => hit (same ▸ reached)
        exact congrArg armed (update_of_ne (by simpa using differs) _ _)
    | resetIf block listed own part =>
      subst own
      cases performed
      refine phase.frame (fun other _ => (views (other, 0)).1 rfl) (fun other _ _ => (views (other, 0)).2 (by decide)) rfl rfl ?_
      have added : pending (before.rest (block, 0)) = false := by
        rw [ahead]
        exact (follows_idle fun op member => shape.follows block listed op (part.subset member)).1
      by_cases hit : before.register (block, 0) = target
      · exact .inr (phase.hit listed added hit).1
      · exact .inl (if_neg hit)
    | reset =>
      cases performed
      exact phase.frame (fun block _ => (views (block, 0)).1 rfl) (fun block _ _ => (views (block, 0)).2 (by decide)) rfl rfl
        (.inr fun block listed => shape.reset_late aligned parts ahead listed)

theorem Shape.start (shape : Shape program blocks amount pre post) : Phase target blocks amount (State.initial program) := by
  have waits : ∀ block ∈ blocks, pending (program (block, 0)) = true := by
    intro block listed
    rw [shape.shares block listed, pending_of_quiet (shape.quiet block listed)]
    rfl
  refine .waiting rfl ?_ ?_ ?_
  · intro block listed idle
    exact absurd (waits block listed) (by simp [show pending (program (block, 0)) = false from idle])
  · intro block _ _
    rw [sharesAdded, sum_eq_zero]
    · rfl
    · intro other member
      obtain ⟨listed, idle⟩ := mem_filter.mp member
      exact absurd (waits other listed) (by simp [show pending (program (other, 0)) = false from idle])
  · cases blocks.eq_empty_or_nonempty with
    | inl empty => exact .inr (.inl empty)
    | inr some =>
      obtain ⟨block, listed⟩ := some
      exact .inl ⟨block, listed, waits block listed⟩

omit [NeZero T] in
theorem reachable_aligned (aligned : Aligned program) (reachable : Reachable target program state) :
    Aligned state.rest :=
  reachable_invariant (fun state => Aligned state.rest) aligned (fun _ _ kept step => kept.step step) reachable

theorem Shape.phase (shape : Shape program blocks amount pre post)
    (covering : ∀ part ⊆ blocks, part.Nonempty → ∑ block ∈ part, amount block = target →
      part = blocks) (reachable : Reachable target program state) :
    Phase target blocks amount state := by
  refine (reachable_invariant (fun state => Aligned state.rest ∧ (∀ thread, state.rest thread <:+ program thread) ∧
    Phase target blocks amount state) ⟨shape.aligned, fun _ => List.suffix_rfl, shape.start⟩ ?_ reachable).2.2
  intro before after kept step
  obtain ⟨aligned, parts, phase⟩ := kept
  exact ⟨aligned.step step, fun thread => (step_suffix step thread).trans (parts thread), phase.step shape covering aligned parts step⟩

/-- Every access belongs to a contributing block and, unless its first thread makes
it, is followed by a barrier before the block's share. -/
def Guarded (program : Fin G × Fin T → List Op) (blocks : Finset (Fin G)) (post : Fin G → List Op) : Prop :=
  ∀ thread before after, program thread = before ++ .access :: after →
    thread.1 ∈ blocks ∧ (thread.2 ≠ 0 → (skeleton (post thread.1)).length < (skeleton after).length)

section
variable (shape : Shape program blocks amount pre post)
include shape

theorem Shape.accessed (guarded : Guarded program blocks post)
    (reachable : Reachable target program state) (added : ∀ block ∈ blocks, pending (state.rest (block, 0)) = false)
    (thread : Fin G × Fin T) : Op.access ∉ state.rest thread := by
  intro member
  obtain ⟨before, after, split⟩ := List.append_of_mem member
  obtain ⟨earlier, whole⟩ := reachable_suffix reachable thread
  rw [split, ← List.append_assoc] at whole
  obtain ⟨listed, barrier⟩ := guarded thread _ _ whole.symm
  obtain ⟨block, index⟩ := thread
  have part := reachable_suffix reachable (block, 0)
  rw [shape.shares block listed] at part
  have idle := added block listed
  have same := congrArg List.length ((reachable_aligned shape.aligned reachable).block block index 0)
  have few : (skeleton (state.rest (block, 0))).length ≤ (skeleton (post block)).length ∧ Op.access ∉ state.rest (block, 0) := by
    have absent : Op.access ∉ post block := fun found => by
      have calm := shape.follows block listed _ found
      cases calm
    generalize state.rest (block, 0) = ops at part idle
    cases progress part with
    | before ahead piece =>
      rw [pending_of_quiet fun op found => shape.quiet block listed op (piece.subset found)] at idle
      cases idle
    | added => exact ⟨Nat.le_refl _, fun found => absent (by simpa using found)⟩
    | past piece => exact ⟨(List.IsSuffix.filter _ piece).length_le, fun found => absent (piece.subset found)⟩
  by_cases first : index = 0
  · subst first
    exact few.2 member
  · have more := barrier first
    rw [split, skeleton, List.filter_append, List.length_append, List.filter_cons_of_neg (by decide)] at same
    simp only [skeleton] at same few more
    omega

/-- A launch whose shares cover the target, no part of them earlier than all. -/
theorem Shape.signalsOnce (guarded : Guarded program blocks post)
    (covering : ∀ part ⊆ blocks, part.Nonempty → ∑ block ∈ part, amount block = target → part = blocks)
    (some : blocks.Nonempty) (total : ∑ block ∈ blocks, amount block = target) : SignalsOnce target program := by
  refine ⟨?_, ?_, ?_⟩
  · intro state reachable
    cases shape.phase covering reachable with
    | waiting silent => omega
    | complete _ _ _ _ _ signalled =>
      rw [signalled]
      split
      · exact Nat.zero_le _
      · exact Nat.le_refl _
  · intro state reachable raised
    cases shape.phase covering reachable with
    | waiting silent => omega
    | complete _ _ added => exact shape.accessed guarded reachable added
  · intro state reachable stuck
    have spent := (reachable_aligned shape.aligned reachable).stuck stuck
    cases shape.phase covering reachable with
    | waiting _ _ _ incomplete =>
      rcases incomplete with ⟨block, _, waits⟩ | empty | short
      · rw [spent] at waits
        cases waits
      · exact absurd empty some.ne_empty
      · exact absurd total short
    | complete last _ _ _ _ signalled =>
      rw [signalled, spent]
      rfl

/-- Shares that never make up the target never raise the signal. -/
theorem Shape.silent [NeZero G]
    (covering : ∀ part ⊆ blocks, part.Nonempty → ∑ block ∈ part, amount block = target → part = blocks)
    (short : blocks = ∅ ∨ ∑ block ∈ blocks, amount block ≠ target) : ¬ SignalsOnce target program := by
  intro once
  obtain ⟨state, reachable, stuck, _⟩ := shape.aligned.finish target
  have raised := once.raised state reachable stuck
  cases shape.phase covering reachable with
  | waiting silent => omega
  | complete last listed _ _ _ _ total =>
    cases short with
    | inl empty =>
      rw [empty] at listed
      exact absurd listed (notMem_empty last)
    | inr short => exact short total

end

end

/-! Schedules. A launch can first do everything up to the shares, then add them in
any order. -/

section
variable {target : Nat} {early later : Fin G × Fin T → List Op} {amount : Fin G → Nat}

omit [NeZero T] in
theorem neutral_reachable (neutral : ∀ thread, ∀ op ∈ early thread, op.isQuiet = true ∨ op = .signal)
    (reachable : Reachable target early state) :
    (∀ thread, state.rest thread <:+ early thread) ∧ state.counter = 0 ∧
      ∀ thread, Op.signal ∈ early thread → Op.signal ∈ state.rest thread ∨ 0 < state.signals := by
  refine reachable_invariant (fun state => (∀ thread, state.rest thread <:+ early thread) ∧ state.counter = 0 ∧
    ∀ thread, Op.signal ∈ early thread → Op.signal ∈ state.rest thread ∨ 0 < state.signals)
    ⟨fun _ => List.suffix_rfl, rfl, fun _ member => .inl member⟩ ?_ reachable
  intro before after kept step
  obtain ⟨parts, counter, signals⟩ := kept
  refine ⟨fun thread => (step_suffix step thread).trans (parts thread), ?_⟩
  cases step with
  | @sync block ready =>
    refine ⟨counter, fun thread member => (signals thread member).imp_left fun found => ?_⟩
    dsimp only
    split
    next own =>
      subst own
      exact mem_tail_of_ne (ready thread.2) (by decide) found
    next => exact found
  | gridSync ready =>
    exact ⟨counter, fun thread member => (signals thread member).imp_left (mem_tail_of_ne (ready thread) (by decide))⟩
  | @step thread op rest _ ahead performed =>
    have kept : ∀ other, op ≠ .signal → Op.signal ∈ before.rest other → Op.signal ∈ update before.rest thread rest other := by
      intro other differs found
      by_cases own : other = thread
      · subst own
        rw [ahead] at found
        rw [update_self]
        exact (List.mem_cons.mp found).resolve_left (Ne.symm differs)
      · rw [update_of_ne own]
        exact found
    have calm := neutral thread op ((parts thread).subset (ahead ▸ List.mem_cons_self ..))
    cases op with
    | access =>
      cases performed
      exact ⟨counter, fun other member => (signals other member).imp_left (kept other (by decide))⟩
    | signal =>
      cases performed
      exact ⟨counter, fun _ _ => .inr (Nat.succ_pos _)⟩
    | sync | gridSync => cases performed
    | add | signalIf | resetIf | reset => simp [Op.isQuiet] at calm

theorem drain [NeZero G] (target : Nat) (aligned : Aligned early)
    (neutral : ∀ thread, ∀ op ∈ early thread, op.isQuiet = true ∨ op = .signal) (later : Fin G × Fin T → List Op) :
    ∃ state, Reachable target (fun thread => early thread ++ later thread) state ∧ state.rest = later ∧ state.counter = 0 ∧
      ∀ thread, Op.signal ∈ early thread → 0 < state.signals := by
  obtain ⟨state, reachable, _, spent⟩ := aligned.finish target
  obtain ⟨_, counter, raised⟩ := neutral_reachable neutral reachable
  obtain ⟨actions, reached⟩ := reachable
  refine ⟨state.append later, ⟨actions, runs_imitate (·.append later) (fire_append target later) reached⟩, ?_, counter, ?_⟩
  · simp [State.append, spent]
  · intro thread member
    have found := raised thread member
    rw [spent] at found
    exact found.resolve_left List.not_mem_nil

theorem raise {share : Nat} (ahead : state.rest (block, 0) = .add share :: .signalIf :: rest)
    (hit : state.counter + share = target) : ∃ after, runs (fire target) state [.step (block, 0), .step (block, 0)] = some after ∧
      after.counter = target ∧ after.signals = state.signals + 1 ∧ after.rest = update state.rest (block, 0) rest := by
  refine ⟨{ rest := update state.rest (block, 0) rest
            register := update state.register (block, 0) (state.counter + share)
            counter := state.counter + share
            signals := state.signals + 1 }, ?_, hit, rfl, rfl⟩
  simp [runs, fire, ahead, perform, hit]

theorem add_shares (target : Nat) (front : List (Fin G)) (distinct : front.Nodup) (state : State G T)
    (ahead : ∀ block ∈ front, ∃ rest, state.rest (block, 0) = .add (amount block) :: rest) :
    ∃ actions after, runs (fire target) state actions = some after ∧ after.counter = state.counter + (front.map amount).sum ∧
      after.signals = state.signals ∧ ∀ thread, (thread.2 = 0 → thread.1 ∉ front) → after.rest thread = state.rest thread := by
  induction front generalizing state with
  | nil => exact ⟨[], state, rfl, rfl, rfl, fun _ _ => rfl⟩
  | cons block front ih =>
    obtain ⟨fresh, distinct⟩ := List.nodup_cons.mp distinct
    obtain ⟨rest, first⟩ := ahead block (List.mem_cons_self ..)
    obtain ⟨middle, fired, counter, signals, kept⟩ : ∃ middle, fire target state (.step (block, 0)) = some middle ∧
        middle.counter = state.counter + amount block ∧ middle.signals = state.signals ∧
        middle.rest = update state.rest (block, 0) rest := by
      simp [fire, first, perform]
    have others : ∀ thread, thread ≠ (block, 0) → middle.rest thread = state.rest thread := by
      intro thread differs
      rw [kept, update_of_ne differs]
    obtain ⟨actions, after, reached, sum, silent, same⟩ := ih distinct middle (by
      intro other member
      rw [others _ fun equal => fresh ((Prod.mk.inj equal).1 ▸ member)]
      exact ahead other (List.mem_cons_of_mem _ member))
    refine ⟨.step (block, 0) :: actions, after, ?_, ?_, silent.trans signals, ?_⟩
    · rw [runs_cons, fired]
      exact reached
    · rw [sum, counter, List.map_cons, List.sum_cons, Nat.add_assoc]
    · intro thread outside
      rw [same thread fun zero member => outside zero (List.mem_cons_of_mem _ member)]
      refine others thread fun equal => ?_
      subst equal
      exact outside rfl (List.mem_cons_self ..)

/-- The signal can be raised as soon as the shares of some blocks make up the target,
whatever the other threads still have to do. -/
theorem raised_by [NeZero G] (aligned : Aligned early)
    (neutral : ∀ thread, ∀ op ∈ early thread, op.isQuiet = true ∨ op = .signal) {blocks : Finset (Fin G)} (some : blocks.Nonempty)
    (ahead : ∀ block ∈ blocks, ∃ rest, later (block, 0) = .add (amount block) :: .signalIf :: rest)
    (total : ∑ block ∈ blocks, amount block = target) :
    ∃ state, Reachable target (fun thread => early thread ++ later thread) state ∧ state.counter = target ∧ 0 < state.signals ∧
      (∀ thread, Op.signal ∈ early thread → 1 < state.signals) ∧
      ∀ thread, (thread.2 = 0 → thread.1 ∉ blocks) → state.rest thread = later thread := by
  obtain ⟨last, listed⟩ := some
  have front : ∀ block, block ∈ (blocks.erase last).toList ↔ block ≠ last ∧ block ∈ blocks := fun block => by simp
  obtain ⟨start, ⟨draining, drained⟩, work, zero, raised⟩ := drain target aligned neutral later
  rw [← work] at ahead
  obtain ⟨adding, middle, added, counter, silent, kept⟩ :=
    add_shares target (blocks.erase last).toList (nodup_toList _) start fun block member => by
      obtain ⟨rest, share⟩ := ahead block ((front block).mp member).2
      exact ⟨_, share⟩
  obtain ⟨rest, share⟩ := ahead last listed
  rw [← kept (last, 0) fun _ member => ((front last).mp member).1 rfl] at share
  have hit : middle.counter + amount last = target := by
    rw [counter, zero, sum_map_toList, Nat.zero_add, sum_erase_add _ _ listed, total]
  obtain ⟨after, finished, reached, signals, others⟩ := raise share hit
  refine ⟨after, ⟨draining ++ (adding ++ [.step (last, 0), .step (last, 0)]), ?_⟩, reached, by omega, ?_, ?_⟩
  · rw [runs_append drained, runs_append added]
    exact finished
  · intro thread member
    have before := raised thread member
    omega
  · intro thread outside
    have differs : thread ≠ (last, 0) := fun equal => outside (by rw [equal]) (by rw [equal]; exact listed)
    rw [others, update_of_ne differs, kept thread fun zero member => outside zero ((front _).mp member).2, work]

/-- A block without a share that tests after the target has been reached raises the
signal again. -/
theorem raised_again [NeZero G] (aligned : Aligned early)
    (neutral : ∀ thread, ∀ op ∈ early thread, op.isQuiet = true ∨ op = .signal) {blocks : Finset (Fin G)} (some : blocks.Nonempty)
    (ahead : ∀ block ∈ blocks, ∃ rest, later (block, 0) = .add (amount block) :: .signalIf :: rest)
    (total : ∑ block ∈ blocks, amount block = target) {idle : Fin G} (other : idle ∉ blocks)
    (without : ∃ rest, later (idle, 0) = .add 0 :: .signalIf :: rest) :
    ¬ SignalsOnce target (fun thread => early thread ++ later thread) := by
  intro once
  obtain ⟨state, ⟨actions, reached⟩, hit, raised, _, kept⟩ := raised_by aligned neutral some ahead total
  obtain ⟨rest, share⟩ := without
  rw [← kept (idle, 0) fun _ => other] at share
  obtain ⟨after, finished, _, signals, _⟩ := raise share hit
  have bound := once.once after ⟨actions ++ [.step (idle, 0), .step (idle, 0)], (runs_append reached).trans finished⟩
  omega

end

/-! Programs cut into what comes before the share, the share and what follows. -/

section
variable {target : Nat} {early trail : Fin G × Fin T → List Op} {blocks : Finset (Fin G)} {amount : Fin G → Nat} {resets : List Op}

/-- The share of a block, added and tested by its first thread. -/
def shareOf (blocks : Finset (Fin G)) (amount : Fin G → Nat) (resets : List Op) (thread : Fin G × Fin T) : List Op :=
  if thread.2 = 0 ∧ thread.1 ∈ blocks then .add (amount thread.1) :: .signalIf :: resets else []

omit [NeZero T] in
theorem skeleton_append (first second : List Op) : skeleton (first ++ second) = skeleton first ++ skeleton second :=
  List.filter_append ..

omit [NeZero T] in
theorem Aligned.append {first second : Fin G × Fin T → List Op} (one : Aligned first) (two : Aligned second) :
    Aligned fun thread => first thread ++ second thread := by
  refine ⟨?_, ?_⟩
  · intro block i j
    rw [skeleton_append, skeleton_append, one.block block i j, two.block block i j]
  · intro i j
    rw [skeleton_append, skeleton_append, List.count_append, List.count_append, one.grid i j, two.grid i j]

theorem shareOf_skeleton (only : ∀ op ∈ resets, op = .resetIf) (thread : Fin G × Fin T) : skeleton (shareOf blocks amount resets thread) = [] := by
  rw [skeleton, List.filter_eq_nil_iff]
  intro op member
  rw [shareOf] at member
  split at member
  next =>
    rcases List.mem_cons.mp member with rfl | rest
    · exact Bool.false_ne_true
    · rcases List.mem_cons.mp rest with rfl | rest
      · exact Bool.false_ne_true
      · rw [only op rest]
        exact Bool.false_ne_true
  next => cases member

/-- Where an operation stands that does not occur in the first part. -/
theorem split_later {first second before after : List Op} (absent : op ∉ first)
    (split : first ++ second = before ++ op :: after) : ∃ ahead, second = ahead ++ op :: after := by
  rcases List.append_eq_append_iff.mp split with ⟨ahead, _, found⟩ | ⟨piece, whole, found⟩
  · exact ⟨ahead, found⟩
  · cases piece with
    | nil => exact ⟨[], found.symm⟩
    | cons next piece =>
      cases found
      exact absurd (by simp [whole]) absent

theorem split_earlier {first second before after : List Op} (absent : op ∉ second)
    (split : first ++ second = before ++ op :: after) : ∃ piece, first = before ++ op :: piece ∧ after = piece ++ second := by
  rcases List.append_eq_append_iff.mp split with ⟨ahead, _, found⟩ | ⟨piece, whole, found⟩
  · exact absurd (by simp [found]) absent
  · cases piece with
    | nil =>
      rw [List.nil_append] at found
      subst found
      exact absurd (List.mem_cons_self ..) absent
    | cons next piece =>
      cases found
      exact ⟨piece, whole, rfl⟩

theorem shareOf_mem (member : op ∈ shareOf blocks amount resets thread) :
    op = .add (amount thread.1) ∨ op = .signalIf ∨ op ∈ resets := by
  rw [shareOf] at member
  split at member
  next => simpa using member
  next => cases member

theorem shareOf_unadded (only : ∀ op ∈ resets, op = .resetIf) :
    ∑ thread : Fin G × Fin T, unadded (shareOf blocks amount resets thread) = ∑ block ∈ blocks, amount block := by
  have reset : unadded resets = 0 := unadded_eq_zero fun op member => by
    rw [only op member]
    rfl
  have each : ∀ block : Fin G, ∑ thread : Fin T, unadded (shareOf blocks amount resets (block, thread)) =
      if block ∈ blocks then amount block else 0 := by
    intro block
    rw [sum_eq_single 0]
    · by_cases listed : block ∈ blocks
      · rw [shareOf, if_pos ⟨rfl, listed⟩, if_pos listed]
        rw [unadded_cons, unadded_cons, reset]
        rfl
      · rw [shareOf, if_neg fun first => listed first.2, if_neg listed]
        rfl
    · intro thread _ later
      rw [shareOf, if_neg fun first => later first.1]
      rfl
    · intro absent
      exact absurd (mem_univ 0) absent
  rw [Fintype.sum_prod_type, sum_congr rfl fun block _ => each block, sum_ite_mem, univ_inter]

/-- The parts of a launch: `early` leaves counter and signal alone, `trail` only
meets barriers, and resets come after a grid barrier of the trail. -/
structure Parts (early trail : Fin G × Fin T → List Op) (blocks : Finset (Fin G)) (resets : List Op) : Prop where
  early_aligned : Aligned early
  trail_aligned : Aligned trail
  quiet : ∀ thread, ∀ op ∈ early thread, op.isQuiet = true
  closing : ∀ thread, ∀ op ∈ trail thread, op = .sync ∨ op = .gridSync ∨ op = .reset
  only : ∀ op ∈ resets, op = .resetIf
  late : ∀ thread before after, trail thread = before ++ .reset :: after →
    ∀ block ∈ blocks, (skeleton after).count .gridSync < (skeleton (trail (block, 0))).count .gridSync

theorem skeleton_resets (only : ∀ op ∈ resets, op = .resetIf) : skeleton resets = [] := by
  rw [skeleton, List.filter_eq_nil_iff]
  intro op member
  rw [only op member]
  decide

theorem Parts.shape (parts : Parts early trail blocks resets) :
    Shape (fun thread => early thread ++ (shareOf blocks amount resets thread ++ trail thread)) blocks amount
      (fun block => early (block, 0)) (fun block => resets ++ trail (block, 0)) := by
  have flat : ∀ thread : Fin G × Fin T, skeleton (shareOf blocks amount resets thread) = [] := shareOf_skeleton parts.only
  refine ⟨?_, ?_, fun block _ => parts.quiet _, ?_, ?_, ?_⟩
  · refine parts.early_aligned.append (Aligned.append ⟨?_, ?_⟩ parts.trail_aligned)
    · intro block i j
      rw [flat, flat]
    · intro i j
      rw [flat, flat]
  · intro block listed
    simp [shareOf, listed]
  · intro block _ op member
    rcases List.mem_append.mp member with reset | closes
    · rw [parts.only op reset]
      rfl
    · rcases parts.closing _ op closes with rfl | rfl | rfl <;> rfl
  · intro thread other op member
    rw [shareOf, if_neg fun both => other both.1 both.2] at member
    rcases List.mem_append.mp member with early | closes
    · exact .inl (parts.quiet thread op early)
    · rcases parts.closing thread op closes with rfl | rfl | rfl
      · exact .inl rfl
      · exact .inl rfl
      · exact .inr rfl
  · intro thread before after split block listed
    obtain ⟨middle, split⟩ := split_later (fun found => by simpa [Op.isQuiet] using parts.quiet thread _ found) split
    obtain ⟨ahead, split⟩ := split_later (fun found => by
      rcases shareOf_mem found with share | test | reset
      · cases share
      · cases test
      · cases parts.only _ reset) split
    rw [skeleton_append, skeleton_resets parts.only, List.nil_append]
    exact parts.late thread ahead after split block listed

/-- Accesses come before a barrier that precedes the share, or are made by the
thread that adds it. -/
theorem Parts.guarded (parts : Parts early trail blocks resets)
    (before : ∀ thread, Op.access ∈ early thread → thread.1 ∈ blocks ∧ (thread.2 ≠ 0 → (early thread).getLast? = some .sync)) :
    Guarded (fun thread => early thread ++ (shareOf blocks amount resets thread ++ trail thread)) blocks
      (fun block => resets ++ trail (block, 0)) := by
  intro thread ahead after split
  have absent : Op.access ∉ shareOf blocks amount resets thread ++ trail thread := by
    intro member
    rcases List.mem_append.mp member with found | found
    · rcases shareOf_mem found with share | test | reset
      · cases share
      · cases test
      · cases parts.only _ reset
    · rcases parts.closing _ _ found with closes | closes | closes <;> cases closes
  obtain ⟨piece, whole, rfl⟩ := split_earlier absent split
  obtain ⟨listed, ends⟩ := before thread (by simp [whole])
  refine ⟨listed, fun other => ?_⟩
  obtain ⟨init, closed⟩ := List.getLast?_eq_some_iff.mp (ends other)
  rw [closed] at whole
  obtain ⟨_, _, rfl⟩ := split_earlier (by decide) whole
  have same := parts.trail_aligned.block thread.1 thread.2 0
  simp only [skeleton_append, List.length_append, shareOf_skeleton parts.only, skeleton_resets parts.only, ← same]
  simp [skeleton, Op.isBarrier]

end

end PplxGarden.Library.Grid
