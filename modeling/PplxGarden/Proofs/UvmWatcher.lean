import PplxGarden.Fabric.UvmWatcher
import Mathlib.Data.List.Nodup
import Mathlib.Data.List.Perm.Basic

/-! What a watcher sees. A slot is free or in use, and what has been reported for it since it
was acquired ends at the value that the thread remembers. -/

namespace PplxGarden.Fabric.Proofs.UvmWatcher
open Library UvmWatcherContext Function List Option
variable {slot id value base : Nat} {entry : UvmEntry} {context : UvmWatcherContext}
  {next : UvmWorker} {log : List UvmEntry}

def watcher : UvmEntry → Nat
  | .acquired id => id
  | .released id => id
  | .uvmWatch id _ _ => id

/-- The value that was reported last for a watcher, while it is acquired. An entry that does
not fit is refused. -/
def advance (id : Nat) (value : Option Nat) (entry : UvmEntry) : Option (Option Nat) :=
  if watcher entry ≠ id then some value
  else
    match entry, value with
    | .acquired _, none => some (some 0)
    | .released _, some _ => some none
    | .uvmWatch _ old new, some last => if old = last ∧ new ≠ old then some (some new) else none
    | _, _ => none

private theorem advance_other (other : watcher entry ≠ id) (value : Option Nat) :
    advance id value entry = some value :=
  if_pos other

private theorem advance_acquired (id : Nat) : advance id none (.acquired id) = some (some 0) :=
  if_neg (not_not_intro rfl)

private theorem advance_acquired_start {value after : Option Nat}
    (fits : advance id value (.acquired id) = some after) : after = some 0 := by
  cases value with
  | none => exact (Option.some.inj (fits.symm.trans (advance_acquired id)))
  | some => exact absurd fits (by simp [advance, watcher])

private theorem advance_released (id value : Nat) :
    advance id (some value) (.released id) = some none :=
  if_neg (not_not_intro rfl)

private theorem advance_uvmWatch (id : Nat) {old new : Nat} (changed : new ≠ old) :
    advance id (some old) (.uvmWatch id old new) = some (some new) := by
  rw [advance, if_neg (not_not_intro (show watcher (.uvmWatch id old new) = id from rfl))]
  exact if_pos ⟨rfl, changed⟩

def lastValue (context : UvmWatcherContext) (slot : Nat) : Option Nat :=
  if slot ∈ context.usedSlots then context.lastValues[slot]? else none

structure Slots (base : Nat) (context : UvmWatcherContext) : Prop where
  base : context.base = base
  size : context.size = uvmWatcherBytes
  all : (context.freeSlots ++ context.usedSlots).Perm (List.range numSlots)
  values : context.lastValues.length = numSlots
  cleared : ∀ slot ∈ context.freeSlots, context.lastValues[slot]? = some 0

theorem Slots.new (base : Nat) : Slots base (.new base) where
  base := rfl
  size := rfl
  all := by
    simp only [UvmWatcherContext.new, append_nil]
    exact Perm.refl _
  values := by simp only [UvmWatcherContext.new, length_replicate]
  cleared slot free := by
    simp only [UvmWatcherContext.new, mem_range] at free ⊢
    exact getElem?_replicate_of_lt free

section
variable {base : Nat} {context : UvmWatcherContext} (slots : Slots base context)
include slots

theorem Slots.nodup : (context.freeSlots ++ context.usedSlots).Nodup := slots.all.nodup_iff.mpr nodup_range

theorem Slots.apart (free : slot ∈ context.freeSlots) : slot ∉ context.usedSlots :=
  fun used => (nodup_append.mp slots.nodup).2.2 slot free slot used rfl

theorem Slots.inside (used : slot ∈ context.usedSlots) : slot < context.lastValues.length := by
  rw [slots.values]
  exact mem_range.mp (slots.all.mem_iff.mp (mem_append_right _ used))

theorem Slots.acquire {freeSlots : List Nat} (free : context.freeSlots = slot :: freeSlots) :
    slot ∉ context.usedSlots ∧ Slots base { context with freeSlots, usedSlots := context.usedSlots.insert slot } := by
  have nodup := slots.nodup
  rw [free, cons_append, nodup_cons, mem_append, not_or] at nodup
  refine ⟨nodup.1.2, slots.base, slots.size, ?_, slots.values, fun other member =>
    slots.cleared other (free ▸ mem_cons_of_mem _ member)⟩
  rw [insert_of_not_mem nodup.1.2]
  refine perm_middle.trans ?_
  rw [← cons_append, ← free]
  exact slots.all

theorem Slots.reset (used : slot ∈ context.usedSlots) : Slots base (context.reset slot) := by
  refine ⟨slots.base, slots.size, ?_, length_set.trans slots.values, fun other member => ?_⟩
  · exact perm_middle.symm.trans (((perm_cons_erase used).symm.append_left _).trans slots.all)
  · rcases mem_cons.mp member with rfl | free
    · exact getElem?_set_self (slots.inside used)
    · have apart : slot ≠ other := fun same => slots.apart free (same ▸ used)
      exact (getElem?_set_ne apart).trans (slots.cleared other free)

theorem Slots.poll (used : slot ∈ context.usedSlots) :
    Slots base { context with lastValues := context.lastValues.set slot value } := by
  refine ⟨slots.base, slots.size, slots.all, length_set.trans slots.values, fun other free => ?_⟩
  have apart : slot ≠ other := fun same => slots.apart free (same ▸ used)
  exact (getElem?_set_ne apart).trans (slots.cleared other free)

end

theorem release_eq_some {after : UvmWatcherContext} (released : context.release id = some after) :
    (context.idToSlot id ∉ context.usedSlots ∧ after = context) ∨
      (context.idToSlot id ∈ context.usedSlots ∧ after = context.reset (context.idToSlot id)) := by
  simp only [UvmWatcherContext.release] at released
  by_cases inside : context.InBounds id
  · rw [if_neg (not_not_intro inside)] at released
    by_cases used : context.idToSlot id ∈ context.usedSlots
    · rw [if_neg (not_not_intro used)] at released
      split at released
      next =>
        cases released
        exact .inr ⟨used, rfl⟩
      next => cases released
    · rw [if_pos used] at released
      cases released
      exact .inl ⟨used, rfl⟩
  · rw [if_pos inside] at released
    cases released

def Recorded (base : Nat) (log : List UvmEntry) (values : Nat → Option Nat) : Prop :=
  ∀ slot, runs (advance (base + 8 * slot)) none log = some (values slot)

theorem Recorded.append {values : Nat → Option Nat} (recorded : Recorded base log values)
    {value : Option Nat} (about : watcher entry = base + 8 * slot)
    (fits : advance (base + 8 * slot) (values slot) entry = some value) :
    Recorded base (log ++ [entry]) (update values slot value) := by
  intro other
  rw [runs_append (recorded other), runs_cons]
  by_cases same : other = slot
  · subst same
    rw [fits, update_self]
    rfl
  · have apart : watcher entry ≠ base + 8 * other := by omega
    rw [advance_other apart, update_of_ne same]
    rfl

def UvmWorker.values (worker : UvmWorker) (slot : Nat) : Option Nat :=
  worker.context.bind fun context => lastValue context slot

/-- The slots are in order, and so is the log; it ends with the values that the thread
remembers, unless a step has failed. -/
structure Sound (base : Nat) (worker : UvmWorker) : Prop where
  slots : ∀ context, worker.context = some context → Slots base context
  pending : ∀ slot ∈ worker.pending, slot ∈ worker.usedSlots
  recorded : ∃ values, Recorded base worker.log values ∧ (worker.stopped = false → values = UvmWorker.values worker)

theorem Sound.new (base : Nat) : Sound base .new := ⟨nofun, nofun, fun _ => none, fun _ => rfl, fun _ => rfl⟩

theorem Sound.of {pending : List Nat} {stopped : Bool} (slots : Slots base context)
    (used : ∀ slot ∈ pending, slot ∈ context.usedSlots) (recorded : Recorded base log (lastValue context)) :
    Sound base ⟨some context, pending, stopped, log⟩ := by
  refine ⟨?_, used, lastValue context, recorded, fun _ => rfl⟩
  rintro _ ⟨⟩
  exact slots

section
variable {base : Nat} {context : UvmWatcherContext} (slots : Slots base context) {log : List UvmEntry} (recorded : Recorded base log (lastValue context))
include slots recorded

theorem record_acquired {freeSlots : List Nat} (free : context.freeSlots = slot :: freeSlots) :
    Recorded base (log ++ [.acquired (context.slotToId slot)])
      (lastValue { context with freeSlots, usedSlots := context.usedSlots.insert slot }) := by
  obtain ⟨unused, _⟩ := slots.acquire free
  have about : watcher (.acquired (context.slotToId slot)) = base + 8 * slot := by rw [watcher, slotToId, slots.base]
  have fits : advance (base + 8 * slot) (lastValue context slot) (.acquired (context.slotToId slot)) = some (some 0) := by
    rw [lastValue, if_neg unused, slotToId, slots.base, advance_acquired]
  have after : update (lastValue context) slot (some 0) =
      lastValue { context with freeSlots, usedSlots := context.usedSlots.insert slot } := by
    funext other
    by_cases same : other = slot
    · subst same
      rw [update_self, lastValue, if_pos (mem_insert_self ..)]
      exact (slots.cleared other (free ▸ mem_cons_self ..)).symm
    · rw [update_of_ne same, lastValue, lastValue]
      simp [same]
  exact after ▸ recorded.append about fits

theorem record_released (used : slot ∈ context.usedSlots) :
    Recorded base (log ++ [.released (context.slotToId slot)]) (lastValue (context.reset slot)) := by
  have about : watcher (.released (context.slotToId slot)) = base + 8 * slot := by rw [watcher, slotToId, slots.base]
  have fits : advance (base + 8 * slot) (lastValue context slot) (.released (context.slotToId slot)) = some none := by
    rw [lastValue, if_pos used, List.getElem?_eq_getElem (slots.inside used), slotToId, slots.base, advance_released]
  have distinct := (nodup_append.mp slots.nodup).2.1
  have after : update (lastValue context) slot none = lastValue (context.reset slot) := by
    funext other
    by_cases same : other = slot
    · subst same
      have gone : other ∉ (context.reset other).usedSlots := fun member => (distinct.mem_erase_iff.mp member).1 rfl
      rw [update_self, lastValue, if_neg gone]
    · have apart : slot ≠ other := fun eq => same eq.symm
      rw [update_of_ne same, lastValue, lastValue]
      simp [reset, distinct.mem_erase_iff, same, getElem?_set_ne apart]
  exact after ▸ recorded.append about fits

theorem record_uvmWatch {old : Nat} (used : slot ∈ context.usedSlots)
    (last : context.lastValues[slot]? = some old) (changed : value ≠ old) :
    Recorded base (log ++ [.uvmWatch (context.slotToId slot) old value])
      (lastValue { context with lastValues := context.lastValues.set slot value }) := by
  have about : watcher (.uvmWatch (context.slotToId slot) old value) = base + 8 * slot := by
    rw [watcher, slotToId, slots.base]
  have fits : advance (base + 8 * slot) (lastValue context slot)
      (.uvmWatch (context.slotToId slot) old value) = some (some value) := by
    rw [lastValue, if_pos used, last, slotToId, slots.base, advance_uvmWatch _ changed]
  have after : update (lastValue context) slot (some value) =
      lastValue { context with lastValues := context.lastValues.set slot value } := by
    funext other
    by_cases same : other = slot
    · subst same
      rw [update_self, lastValue, if_pos used]
      exact (getElem?_set_self (slots.inside used)).symm
    · have apart : slot ≠ other := fun eq => same eq.symm
      rw [update_of_ne same, lastValue, lastValue]
      simp [getElem?_set_ne apart]
  exact after ▸ recorded.append about fits

end

section
variable {base : Nat} {worker : UvmWorker} (sound : Sound base worker) (running : worker.stopped = false)
include sound

theorem Sound.live (running : worker.stopped = false) : Recorded base worker.log (UvmWorker.values worker) := by
  obtain ⟨values, recorded, same⟩ := sound.recorded
  rwa [same running] at recorded

theorem Sound.write (found : worker.context = some context) (slot value : Nat) :
    Sound base { worker with context := some { context with memory := update context.memory slot value } } := by
  have slots := sound.slots context found
  refine ⟨?_, ?_, ?_⟩
  · rintro _ ⟨⟩
    exact ⟨slots.base, slots.size, slots.all, slots.values, slots.cleared⟩
  · intro other member
    have used := sound.pending other member
    rwa [UvmWorker.usedSlots, found] at used
  · obtain ⟨values, recorded, same⟩ := sound.recorded
    refine ⟨values, recorded, fun running => ?_⟩
    rw [same running]
    funext other
    rw [UvmWorker.values, UvmWorker.values, found]
    rfl

section
variable (running : worker.stopped = false)
include running

theorem Sound.opened : Slots base (worker.context.getD (.new base)) ∧
    Recorded base worker.log (lastValue (worker.context.getD (.new base))) := by
  have recorded := sound.live running
  cases found : worker.context with
  | none =>
    refine ⟨Slots.new base, ?_⟩
    have nothing : UvmWorker.values worker = lastValue (.new base) := by
      funext slot
      rw [UvmWorker.values, found, lastValue]
      exact (if_neg not_mem_nil).symm
    rwa [nothing] at recorded
  | some context =>
    have values : UvmWorker.values worker = lastValue context := by
      funext slot
      rw [UvmWorker.values, found]
      rfl
    rw [values] at recorded
    exact ⟨sound.slots context found, recorded⟩

theorem Sound.acquire (idle : worker.pending = []) (answered : Bool) : Sound base (worker.acquire base answered) := by
  obtain ⟨slots, recorded⟩ := sound.opened running
  rw [UvmWorker.acquire, idle]
  generalize worker.context.getD (.new base) = context at slots recorded
  cases free : context.freeSlots with
  | nil =>
    simp only [UvmWatcherContext.acquire, free]
    exact .of slots nofun (by simpa using recorded)
  | cons slot freeSlots =>
    simp only [UvmWatcherContext.acquire, free]
    exact .of (slots.acquire free).2 nofun (record_acquired slots recorded free)

theorem Sound.release (idle : worker.pending = []) {watcher : Nat} {answered : Bool}
    (ran : worker.release watcher answered = some next) : Sound base next := by
  cases found : worker.context with
  | none =>
    rw [UvmWorker.release, found] at ran
    cases ran
    refine ⟨nofun, by simp [idle], _, sound.live running, fun _ => ?_⟩
    funext slot
    rw [UvmWorker.values, UvmWorker.values, found]
  | some context =>
    obtain ⟨slots, recorded⟩ := sound.opened running
    rw [found, getD_some] at slots recorded
    rw [UvmWorker.release, found] at ran
    obtain ⟨after, released, rfl⟩ := map_eq_some_iff.mp ran
    rw [idle]
    rcases release_eq_some released with ⟨unused, rfl⟩ | ⟨used, rfl⟩
    · rw [if_neg unused, append_nil]
      exact .of slots nofun recorded
    · rw [if_pos used]
      exact .of (slots.reset used) nofun (record_released slots recorded used)

theorem Sound.pollSlot {pending : List Nat} (polled : worker.pending = slot :: pending)
    {sent : Bool} (ran : worker.pollSlot sent slot pending = some next) : Sound base next := by
  obtain ⟨context, found, ran⟩ := bind_eq_some_iff.mp ran
  obtain ⟨⟨after, change⟩, polling, ran⟩ := bind_eq_some_iff.mp ran
  obtain ⟨slots, recorded⟩ := sound.opened running
  rw [found, getD_some] at slots recorded
  have used (other) (member : other ∈ worker.pending) : other ∈ context.usedSlots := by
    have listed := sound.pending other member
    rwa [UvmWorker.usedSlots, found] at listed
  rw [polled, forall_mem_cons] at used
  obtain ⟨old, last, changed⟩ := map_eq_some_iff.mp polling
  dsimp only at changed
  split at changed
  next differs =>
    cases changed
    dsimp only at ran
    split at ran
    next =>
      cases ran
      exact .of (slots.poll used.1) used.2 (record_uvmWatch slots recorded used.1 last differs)
    next =>
      -- The event is lost, but so is the thread.
      cases ran
      refine ⟨?_, used.2, _, recorded, nofun⟩
      rintro _ ⟨⟩
      exact slots.poll used.1
  next =>
    cases changed
    cases ran
    rw [running]
    exact .of slots used.2 recorded

theorem Sound.receive (idle : worker.pending = []) {answered : Bool} {received : UvmReceived}
    (handled : worker.receive base answered received = some next) : Sound base next := by
  cases received with
  | call call =>
    cases call with
    | acquireUvmWatcher =>
      cases handled
      exact sound.acquire running idle answered
    | releaseUvmWatcher watcher => exact sound.release running idle handled
  | empty =>
    cases handled
    exact sound
  | disconnected =>
    cases handled
    exact ⟨sound.slots, sound.pending, _, sound.live running, nofun⟩

end

end

theorem Sound.fire {worker : UvmWorker} {action : UvmWorker.Action} (sound : Sound base worker)
    (fired : worker.fire base action = some next) : Sound base next := by
  cases action with
  | write slot value =>
    obtain ⟨context, found, rfl⟩ := map_eq_some_iff.mp fired
    exact sound.write found slot value
  | step received answered order =>
    by_cases busy : worker.stopped ∨ worker.pending ≠ []
    · rw [UvmWorker.fire, if_pos busy] at fired
      cases fired
    · rw [UvmWorker.fire, if_neg busy] at fired
      obtain ⟨running, idle⟩ := not_or.mp busy
      obtain ⟨middle, handled, continued⟩ := bind_eq_some_iff.mp fired
      have kept := sound.receive (Bool.eq_false_iff.mpr running) (not_not.mp idle) handled
      split at continued
      next =>
        cases continued
        exact kept
      next =>
        split at continued
        next order =>
          cases continued
          exact ⟨kept.slots, fun slot member => order.mem_iff.mp member, kept.recorded⟩
        next => cases continued
  | poll sent =>
    by_cases running : worker.stopped
    · rw [UvmWorker.fire, if_pos running] at fired
      cases fired
    · rw [UvmWorker.fire, if_neg running] at fired
      cases polled : worker.pending with
      | nil =>
        rw [polled] at fired
        cases fired
      | cons slot pending =>
        rw [polled] at fired
        exact sound.pollSlot (Bool.eq_false_iff.mpr running) polled fired

/-- The values that a list of events reports one after the other. -/
def Chained : Nat → List (Nat × Nat) → Prop
  | _, [] => True
  | value, (old, new) :: events => old = value ∧ new ≠ old ∧ Chained new events

def eventOf (id : Nat) : UvmEntry → Option (Nat × Nat)
  | .uvmWatch other old new => if other = id then some (old, new) else none
  | _ => none

def eventsOf (id : Nat) (log : List UvmEntry) : List (Nat × Nat) := log.filterMap (eventOf id)

private theorem eventOf_other (other : watcher entry ≠ id) : eventOf id entry = none := by
  cases entry with
  | uvmWatch => exact if_neg other
  | _ => rfl

/-- An entry that fits while the watcher is acquired, and does not release it, is the next
event. -/
theorem advance_eq_some {after : Option Nat} (fits : advance (watcher entry) (some value) entry = some after)
    (held : entry ≠ .released (watcher entry)) :
    ∃ new, eventOf (watcher entry) entry = some (value, new) ∧ new ≠ value ∧ after = some new := by
  unfold advance at fits
  rw [if_neg (not_not_intro rfl)] at fits
  cases entry with
  | acquired => cases fits
  | released => exact absurd rfl held
  | uvmWatch id old new =>
    change (if old = value ∧ new ≠ old then some (some new) else none) = some after at fits
    by_cases chained : old = value ∧ new ≠ old
    · rw [if_pos chained] at fits
      cases fits
      obtain ⟨rfl, changed⟩ := chained
      exact ⟨new, if_pos rfl, changed, rfl⟩
    · rw [if_neg chained] at fits
      cases fits

theorem accepted_chained {rest : List UvmEntry} {final : Option Nat} (held : .released id ∉ log)
    (accepted : runs (advance id) (some value) (log ++ rest) = some final) : Chained value (eventsOf id log) := by
  induction log generalizing value with
  | nil => trivial
  | cons entry log ih =>
    rw [cons_append, runs_cons] at accepted
    rw [mem_cons, not_or] at held
    obtain ⟨after, fits, later⟩ := bind_eq_some_iff.mp accepted
    by_cases about : watcher entry = id
    · subst about
      obtain ⟨new, event, changed, rfl⟩ := advance_eq_some fits (Ne.symm held.1)
      rw [eventsOf, filterMap_cons_some event]
      exact ⟨rfl, changed, ih held.2 later⟩
    · rw [advance_other about] at fits
      cases fits
      rw [eventsOf, filterMap_cons_none (eventOf_other about)]
      exact ih held.2 later

structure Exclusive (context : UvmWatcherContext) : Prop where
  distinct : context.freeSlots.Nodup
  apart : ∀ slot ∈ context.freeSlots, slot ∉ context.usedSlots
  all : ∀ slot, slot ∈ context.freeSlots ∨ slot ∈ context.usedSlots ↔ slot < numSlots
  acquires : ∀ id next, context.acquire = (some id, next) → ∃ slot, id = context.slotToId slot ∧ slot ∉ context.usedSlots
  releases : ∀ id, context.InBounds id → (context.release id).isSome
  polls : ∀ slot ∈ context.usedSlots, (context.poll slot).isSome

theorem Slots.exclusive (slots : Slots base context) : Exclusive context where
  distinct := (nodup_append.mp slots.nodup).1
  apart _ free := slots.apart free
  all slot := by rw [← mem_append, slots.all.mem_iff, mem_range]
  acquires id next ran := by
    rw [UvmWatcherContext.acquire] at ran
    split at ran
    next slot freeSlots free =>
      cases ran
      exact ⟨slot, rfl, (slots.acquire free).1⟩
    next => cases ran
  releases id inside := by
    simp only [UvmWatcherContext.release]
    rw [if_neg (not_not_intro inside)]
    by_cases used : context.idToSlot id ∈ context.usedSlots
    · rw [if_neg (not_not_intro used), if_pos (slots.inside used)]
      rfl
    · rw [if_pos used]
      rfl
  polls slot used := by
    rw [UvmWatcherContext.poll, List.getElem?_eq_getElem (slots.inside used)]
    rfl

/-- Whatever is acquired, released, written and polled, each slot has one owner, and what its
owner sees are the changes of its value from 0. -/
theorem watchers_chain {base : Nat} {actions : List UvmWorker.Action} {worker : UvmWorker}
    (reached : runs (UvmWorker.fire base) .new actions = some worker) :
    (∀ context, worker.context = some context → Exclusive context) ∧
      ∀ slot before between rest, worker.log = before ++ .acquired (base + 8 * slot) ::
        (between ++ rest) →
        .released (base + 8 * slot) ∉ between → Chained 0 (eventsOf (base + 8 * slot) between) := by
  have sound := runs_invariant (Sound.new base) (fun _ _ _ kept fired => kept.fire fired) reached
  refine ⟨fun context found => (sound.slots context found).exclusive, ?_⟩
  intro slot before between rest split held
  obtain ⟨values, recorded, _⟩ := sound.recorded
  have accepted := recorded slot
  rw [split] at accepted
  obtain ⟨middle, _, later⟩ := runs_split accepted
  rw [runs_cons] at later
  obtain ⟨start, fits, later⟩ := bind_eq_some_iff.mp later
  rw [advance_acquired_start fits] at later
  exact accepted_chained held later

/-- A watcher that sees a word become 7 and then 9. -/
def seenTwice : List UvmWorker.Action :=
  [.step (.call .acquireUvmWatcher) true [0], .write 0 7, .poll true, .step .empty true [0], .write 0 9, .poll true]

set_option maxRecDepth 4000 in
private theorem seenTwice_log :
    (runs (UvmWorker.fire 4096) .new seenTwice).map UvmWorker.log =
      some [.acquired 4096, .uvmWatch 4096 0 7, .uvmWatch 4096 7 9] :=
  rfl

theorem watchers_chain_twice :
    ∃ worker, runs (UvmWorker.fire 4096) .new seenTwice = some worker ∧
      worker.log = [.acquired 4096, .uvmWatch 4096 0 7, .uvmWatch 4096 7 9] ∧
      (∀ context, worker.context = some context → Exclusive context) ∧
      ∀ slot before between rest, worker.log = before ++ .acquired (4096 + 8 * slot) ::
        (between ++ rest) →
        .released (4096 + 8 * slot) ∉ between → Chained 0 (eventsOf (4096 + 8 * slot) between) := by
  obtain ⟨worker, reached, log⟩ := map_eq_some_iff.mp seenTwice_log
  exact ⟨worker, reached, log, watchers_chain reached⟩

end PplxGarden.Fabric.Proofs.UvmWatcher
