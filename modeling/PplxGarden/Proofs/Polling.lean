import PplxGarden.Proofs.Notifications

/-! The loop of `get_completion` for one transfer. It takes the entries of each domain in
order, and the record of the transfer counts its reports among those that were taken. -/

namespace PplxGarden.Fabric
open Function

variable {ctx : WriteOpContext}

def Unfailed (id : TransferId) (entries : List DomainCompletionEntry) : Prop := ∀ error, .error id error ∉ entries

section
variable {id : TransferId} {entries more : List DomainCompletionEntry}

theorem Unfailed.append (first : Unfailed id entries) (second : Unfailed id more) : Unfailed id (entries ++ more) := by
  intro error member
  exact (List.mem_append.mp member).elim (first error) (second error)

theorem Unfailed.starts (clean : Unfailed id more) (starts : entries <+: more) : Unfailed id entries :=
  fun error member => clean error (starts.subset member)

end

/-- The record of a transfer counts what was taken of its reports. -/
structure Recorded {N : Nat} (id : TransferId) (sizes : Fin N → Nat)
    (taken : Fin N → List DomainCompletionEntry) (ctx : WriteOpContext) : Prop where
  clean : ∀ i, Unfailed id (taken i)
  counted : ctx.cntDomainCompletion = ∑ i, (taken i).count (.transfer id)
  enough : ∑ i, sizes i ≤ ctx.numUsedDomains

structure Polled {N : Nat} (id : TransferId) (sizes : Fin N → Nat)
    (streams taken : Fin N → List DomainCompletionEntry) (engine : Engine N) : Prop where
  streams : ∀ i, taken i ++ engine.completions i = streams i
  record : ∀ ctx, engine.group.writeOps id = some ctx → Recorded id sizes taken ctx

def Justified {N : Nat} (id : TransferId) (sizes : Fin N → Nat)
    (streams : Fin N → List DomainCompletionEntry) : Prop :=
  ∃ taken : Fin N → List DomainCompletionEntry, (∀ i, taken i <+: streams i) ∧ (∀ i, Unfailed id (taken i)) ∧
    ∑ i, sizes i ≤ ∑ i, (taken i).count (.transfer id)

structure Polls {N : Nat} (id : TransferId) (sizes : Fin N → Nat)
    (streams : Fin N → List DomainCompletionEntry) (engine : Engine N)
    (result : Option DomainCompletionEntry × Engine N) : Prop where
  polled : ∃ taken, Polled id sizes streams taken result.2
  posted : result.2.group.posted = engine.group.posted
  closed : engine.group.writeOps id = none → result.2.group.writeOps id = none
  succeeds : result.1 = some (.transfer id) ∨ (id, false) ∈ result.2.counted →
    engine.group.writeOps id ≠ none ∧ result.2.group.writeOps id = none ∧ Justified id sizes streams
  fails : ∀ error, result.1 = some (.error id error) → result.2.group.writeOps id = none ∧ ∃ i, .error id error ∈ streams i

section
variable {N : Nat} {id : TransferId} {sizes : Fin N → Nat} {streams taken : Fin N → List DomainCompletionEntry} {engine : Engine N} {i : Fin N}
  {entry : DomainCompletionEntry} {entries : List DomainCompletionEntry}
  {result : Option DomainCompletionEntry × Engine N}

theorem streams_pop (held : ∀ j, taken j ++ engine.completions j = streams j)
    (head : engine.completions i = entry :: entries) :
    ∀ j, update taken i (taken i ++ [entry]) j ++ (engine.pop i entries).completions j =
      streams j := by
  intro j
  rw [← held j, Engine.pop]
  by_cases same : j = i
  · subst same
    simp [head]
  · simp [same]

theorem Recorded.other (recorded : Recorded id sizes taken ctx) (clean : Unfailed id [entry])
    (silent : entry ≠ .transfer id) : Recorded id sizes (update taken i (taken i ++ [entry])) ctx := by
  refine ⟨?_, ?_, recorded.enough⟩
  · rw [forall_update_iff taken fun _ entries => Unfailed id entries]
    exact ⟨(recorded.clean i).append clean, fun j _ => recorded.clean j⟩
  · rw [recorded.counted]
    refine Finset.sum_congr rfl fun j _ => ?_
    by_cases same : j = i
    · subst same
      rw [update_self, List.count_append, List.count_singleton, if_neg (by simpa using silent), Nat.add_zero]
    · rw [update_of_ne same]

theorem Recorded.report (recorded : Recorded id sizes taken ctx) (i : Fin N) :
    Recorded id sizes (update taken i (taken i ++ [.transfer id]))
      { ctx with cntDomainCompletion := ctx.cntDomainCompletion + 1 } := by
  refine ⟨?_, ?_, recorded.enough⟩
  · rw [forall_update_iff taken fun _ entries => Unfailed id entries]
    exact ⟨(recorded.clean i).append fun _ member => by simp at member, fun j _ => recorded.clean j⟩
  · have counts : (fun j => (update taken i (taken i ++ [.transfer id]) j).count (.transfer id)) =
        update (fun j => (taken j).count (.transfer id)) i ((taken i).count (.transfer id) + 1) := by
      funext j
      by_cases same : j = i
      · subst same
        simp
      · simp [same]
    show ctx.cntDomainCompletion + 1 = ∑ j, (update taken i (taken i ++ [.transfer id]) j).count (.transfer id)
    rw [counts, Finset.sum_update_of_mem (Finset.mem_univ i), recorded.counted,
      ← Finset.add_sum_erase _ _ (Finset.mem_univ i),
      ← Finset.erase_eq]
    omega

theorem Polls.later {middle : Engine N} (polls : Polls id sizes streams middle result)
    (posted : middle.group.posted = engine.group.posted)
    (closed : engine.group.writeOps id = none → middle.group.writeOps id = none) :
    Polls id sizes streams engine result where
  polled := polls.polled
  posted := polls.posted.trans posted
  closed before := polls.closed (closed before)
  succeeds reported := by
    obtain ⟨opened, rest⟩ := polls.succeeds reported
    exact ⟨fun before => opened (closed before), rest⟩
  fails := polls.fails

theorem Polls.silent (polled : Polled id sizes streams taken result.2)
    (posted : result.2.group.posted = engine.group.posted)
    (closed : engine.group.writeOps id = none → result.2.group.writeOps id = none)
    (unreported : result.1 ≠ some (.transfer id)) (uncounted : (id, false) ∉ result.2.counted)
    (fails : ∀ error, result.1 = some (.error id error) → result.2.group.writeOps id = none ∧
      ∃ i, .error id error ∈ streams i) : Polls id sizes streams engine result where
  polled := ⟨taken, polled⟩
  posted := posted
  closed := closed
  succeeds reported := (reported.elim unreported uncounted).elim
  fails := fails

theorem setWriteOp_self (engine : Engine N) (transferId : TransferId) (ctx : Option WriteOpContext) :
    (engine.setWriteOp transferId ctx).group.writeOps transferId = ctx := update_self ..

theorem setWriteOp_other (engine : Engine N) {transferId other : TransferId}
    (ctx : Option WriteOpContext) (apart : other ≠ transferId) :
    (engine.setWriteOp transferId ctx).group.writeOps other = engine.group.writeOps other :=
  update_of_ne apart ..

theorem failTransfer_spec (engine : Engine N) (transferId : TransferId) :
    (engine.failTransfer transferId).group.posted = engine.group.posted ∧
      (engine.failTransfer transferId).completions = engine.completions ∧
      (engine.failTransfer transferId).group.writeOps transferId = none ∧
      (∀ other, other ≠ transferId → (engine.failTransfer transferId).group.writeOps other =
        engine.group.writeOps other) ∧
      ∀ other, (other, false) ∈ (engine.failTransfer transferId).counted →
        (other, false) ∈ engine.counted := by
  unfold Engine.failTransfer
  cases found : engine.group.writeOps transferId with
  | none => exact ⟨rfl, rfl, found, fun _ _ => rfl, fun _ member => member⟩
  | some ctx =>
    dsimp only
    split
    next =>
      exact ⟨rfl, rfl, setWriteOp_self .., fun other apart => setWriteOp_other engine none apart,
        fun other member => by
      simpa [Engine.count, Engine.setWriteOp] using member⟩
    next =>
      exact ⟨rfl, rfl, setWriteOp_self .., fun other apart => setWriteOp_other engine none apart,
        fun _ member => member⟩

theorem Polled.other (polled : Polled id sizes streams taken engine) (head : engine.completions i = entry :: entries)
    (clean : Unfailed id [entry]) (silent : entry ≠ .transfer id) :
    Polled id sizes streams (update taken i (taken i ++ [entry])) (engine.pop i entries) :=
  ⟨streams_pop polled.streams head, fun ctx found => (polled.record ctx found).other clean silent⟩

theorem Polled.fail {transferId : TransferId} {error : FabricLibError}
    (polled : Polled id sizes streams taken engine)
    (head : engine.completions i = .error transferId error :: entries) :
    Polled id sizes streams (update taken i (taken i ++ [.error transferId error]))
      ((engine.pop i entries).failTransfer transferId) := by
  obtain ⟨-, completions, closed, others, -⟩ := failTransfer_spec (engine.pop i entries) transferId
  refine ⟨fun j => by rw [completions]; exact streams_pop polled.streams head j, fun ctx found => ?_⟩
  have apart : id ≠ transferId := by
    rintro rfl
    rw [closed] at found
    cases found
  rw [others id apart] at found
  refine (polled.record ctx found).other (fun _ member => ?_) nofun
  exact apart (DomainCompletionEntry.error.inj (List.mem_singleton.mp member)).1

section
variable {transferId : TransferId} (polled : Polled id sizes streams taken engine)
include polled

theorem Polled.foreign (head : engine.completions i = .transfer transferId :: entries)
    (apart : transferId ≠ id) (ctx : Option WriteOpContext) :
    Polled id sizes streams (update taken i (taken i ++ [.transfer transferId]))
      ((engine.pop i entries).setWriteOp transferId ctx) := by
  refine ⟨streams_pop polled.streams head, fun found same => ?_⟩
  rw [setWriteOp_other _ _ (Ne.symm apart)] at same
  refine (polled.record found same).other (fun _ member => by simp at member) ?_
  exact fun equal => apart (DomainCompletionEntry.transfer.inj equal)

theorem Polled.count (head : engine.completions i = .transfer id :: entries)
    (known : engine.group.writeOps id = some ctx) :
    Polled id sizes streams (update taken i (taken i ++ [.transfer id]))
      ((engine.pop i entries).setWriteOp id
        (some { ctx with cntDomainCompletion := ctx.cntDomainCompletion + 1 })) := by
  refine ⟨streams_pop polled.streams head, fun found same => ?_⟩
  rw [setWriteOp_self] at same
  cases same
  exact (polled.record ctx known).report i

theorem Polled.succeed (head : engine.completions i = .transfer id :: entries)
    (known : engine.group.writeOps id = some ctx)
    (last : ctx.numUsedDomains = ctx.cntDomainCompletion + 1)
    (group : result.2.group = ((engine.pop i entries).setWriteOp id none).group)
    (completions : result.2.completions = (engine.pop i entries).completions)
    (unfailed : ∀ error, result.1 ≠ some (.error id error)) :
    Polls id sizes streams engine result := by
  have moved := streams_pop polled.streams head
  have recorded := (polled.record ctx known).report i
  have closed : result.2.group.writeOps id = none := by
    rw [group]
    exact setWriteOp_self ..
  have opened : engine.group.writeOps id ≠ none := by
    rw [known]
    exact nofun
  have justified : Justified id sizes streams :=
    ⟨_, fun j => ⟨_, moved j⟩, recorded.clean, by rw [← recorded.counted]; exact last ▸ recorded.enough⟩
  refine ⟨⟨_, fun j => by rw [completions]; exact moved j, fun found same => ?_⟩, ?_, fun _ =>
    closed, fun _ => ⟨opened, closed, justified⟩,
    fun error failed => absurd failed (unfailed error)⟩
  · rw [closed] at same
    cases same
  · rw [group]
    rfl

end

theorem getCompletionFrom_polls (domains : List (Fin N))
    (polled : Polled id sizes streams taken engine) (uncounted : (id, false) ∉ engine.counted) :
    Polls id sizes streams engine (Engine.getCompletionFrom domains engine) := by
  induction domains generalizing engine taken with
  | nil =>
    exact .silent polled rfl (fun closed => closed) (fun same => by cases same)
      uncounted fun _ same => (by cases same)
  | cons i domains ih =>
    rw [Engine.getCompletionFrom]
    cases head : engine.completions i with
    | nil => exact ih polled uncounted
    | cons entry entries =>
      cases entry with
      | error transferId error =>
        obtain ⟨posted, -, closed, others, counts⟩ := failTransfer_spec (engine.pop i entries) transferId
        refine .silent (polled.fail head) posted (fun before => ?_) (fun same => by cases same)
          (fun member => uncounted (counts id member)) fun found same => ?_
        · by_cases same : id = transferId
          · rw [same, closed]
          · rw [others id same]
            exact before
        · cases same
          exact ⟨closed, i, by rw [← polled.streams i, head]; simp⟩
      | transfer transferId =>
        dsimp only
        cases known : (engine.pop i entries).group.writeOps transferId with
        | none =>
          have next : Polled id sizes streams (update taken i (taken i ++ [.transfer transferId]))
              (engine.pop i entries) := by
            refine ⟨streams_pop polled.streams head, fun ctx found =>
              (polled.record ctx found).other (fun _ member => by simp at member) ?_⟩
            rintro same
            rw [DomainCompletionEntry.transfer.inj same, found] at known
            cases known
          exact (ih next uncounted).later rfl fun closed => closed
        | some ctx =>
          have present : engine.group.writeOps transferId = some ctx := known
          dsimp only
          by_cases own : transferId = id
          · subst own
            split
            next last =>
              split
              next => exact polled.succeed head present last rfl rfl fun _ same => (by cases same)
              next => exact polled.succeed head present last rfl rfl fun _ same => (by cases same)
            next =>
              refine (ih (polled.count head present) uncounted).later rfl fun closed => ?_
              rw [closed] at present
              cases present
          · have kept : ∀ ctx, engine.group.writeOps id = none →
                ((engine.pop i entries).setWriteOp transferId ctx).group.writeOps id = none :=
              fun ctx closed => (setWriteOp_other _ ctx (Ne.symm own)).trans closed
            have next := polled.foreign head own
            split
            next =>
              split
              next =>
                refine .silent ⟨(next none).streams, (next none).record⟩ rfl (kept none)
                  (fun same => by cases same) ?_ fun _ same => (by cases same)
                simpa [Engine.count, Engine.setWriteOp, Engine.pop, Ne.symm own] using uncounted
              next =>
                refine .silent (next none) rfl (kept none) ?_ uncounted fun _ same => (by cases same)
                exact fun same => own (DomainCompletionEntry.transfer.inj (Option.some.inj same))
            next => exact (ih (next _) uncounted).later rfl (kept _)
      | _ =>
        exact .silent (polled.other head (fun _ member => by simp at member)
          fun same => by cases same) rfl (fun closed => closed) (fun same => by cases same)
          uncounted fun _ same => (by cases same)

theorem getCompletionFrom_once (id : TransferId) (domains : List (Fin N)) (engine : Engine N) :
    (Engine.getCompletionFrom domains engine).1.toList.count (.transfer id) +
      (Engine.getCompletionFrom domains engine).2.counted.count (id, false) ≤
      engine.counted.count (id, false) + 1 := by
  induction domains generalizing engine with
  | nil => exact (Nat.zero_add _).trans_le (Nat.le_succ _)
  | cons i domains ih =>
    rw [Engine.getCompletionFrom]
    cases engine.completions i with
    | nil => exact ih engine
    | cons entry entries =>
      cases entry with
      | error transferId error =>
        dsimp only
        unfold Engine.failTransfer
        split
        next => simp [Engine.pop]
        next => split <;> simp [Engine.pop, Engine.setWriteOp, Engine.count]
      | transfer transferId =>
        dsimp only
        split
        next => exact ih _
        next =>
          split
          next =>
            split
            next =>
              show 0 + (engine.counted ++ [(transferId, false)]).count (id, false) ≤ _
              rw [Nat.zero_add, List.count_append]
              exact Nat.add_le_add_left List.count_le_length _
            next =>
              show [DomainCompletionEntry.transfer transferId].count (.transfer id) + engine.counted.count (id, false) ≤ _
              rw [Nat.add_comm]
              exact Nat.add_le_add_left List.count_le_length _
          next => exact ih _
      | _ => simp [Engine.pop]

end

end PplxGarden.Fabric
