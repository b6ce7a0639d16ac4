import PplxGarden.AllToAll.NodeSync

/-! Which kernels really wait for the other ranks of their node. -/

namespace PplxGarden.AllToAll.Proofs
open Library Function Finset

variable {N : Nat}
variable {state after : SyncState N} {rank : Fin N}

inductive SyncStep (state : SyncState N) : SyncState N → Prop where
  | observe {rank peer : Fin N} {seen : Finset (Fin N)} : state.phase rank = .waiting seen →
      u32 (state.words ((state.kernel rank).waitsOn rank peer)) = u32 (state.counter rank) →
      SyncStep state (state.enter rank (.waiting (insert peer seen)))
  | pass {rank : Fin N} : state.phase rank = .waiting univ → SyncStep state (state.enter rank (.running ∅))
  | store {rank peer : Fin N} {stored : Finset (Fin N)} : state.phase rank = .running stored →
      SyncStep state { state.enter rank (.running (insert peer stored)) with
        words := update state.words ((state.kernel rank).stores rank peer) (state.counter rank + 1) }
  | finish {rank : Fin N} : state.phase rank = .running univ →
      SyncStep state { state.enter rank (.waiting ∅) with counter := update state.counter rank (state.counter rank + 1) }

theorem syncStep_of_fire {action : SyncAction N} (fired : state.fire action = some after) :
    SyncStep state after := by
  cases action with
  | observe rank peer =>
    simp only [SyncState.fire] at fired
    split at fired
    next seen waiting =>
      obtain ⟨equal, result⟩ := Option.ite_none_right_eq_some.mp fired
      cases result
      exact .observe waiting equal
    next => cases fired
  | pass rank =>
    obtain ⟨ready, result⟩ := Option.ite_none_right_eq_some.mp fired
    cases result
    exact .pass ready
  | store rank peer =>
    simp only [SyncState.fire] at fired
    split at fired
    next => cases fired
    next stored running =>
      split at fired
      next => cases fired
      next =>
        cases fired
        exact .store running
  | finish rank =>
    obtain ⟨ready, result⟩ := Option.ite_none_right_eq_some.mp fired
    cases result
    exact .finish ready

/-- The upper words are stored by even launches and polled by odd ones, which makes
those launches wait for one another. -/
structure SyncInv (state : SyncState N) : Prop where
  written : ∀ owner writer, state.words ⟨owner, true, writer⟩ = 0 ∨
    (state.words ⟨owner, true, writer⟩ % 2 = 1 ∧ state.Stored writer (state.words ⟨owner, true, writer⟩ - 1) owner)
  latest : ∀ owner writer launch, launch % 2 = 0 → state.Stored writer launch owner →
    launch + 1 ≤ state.words ⟨owner, true, writer⟩
  seen : ∀ rank seen, state.phase rank = .waiting seen → state.counter rank % 2 = 1 →
    ∀ peer ∈ seen, state.Stored peer (state.counter rank - 1) rank
  passed : ∀ rank launch, launch % 2 = 1 → state.Passed rank launch → ∀ peer, state.Stored peer (launch - 1) rank

theorem at_cases (launch : Nat) :
    (launch % 4 = 0 ∧ NodeKernel.at launch = .dispatchSend) ∨
      (launch % 4 = 1 ∧ NodeKernel.at launch = .dispatchRecv) ∨
      (launch % 4 = 2 ∧ NodeKernel.at launch = .combineSend) ∨
        (launch % 4 = 3 ∧ NodeKernel.at launch = .combineRecv) := by
  have bound : launch % 4 < 4 := Nat.mod_lt _ (by decide)
  rw [NodeKernel.at]
  generalize launch % 4 = place at bound ⊢
  match place with
  | 0 | 1 | 2 | 3 => simp

private theorem waitsOn_upper (launch : Nat) (rank peer : Fin N) :
    ((NodeKernel.at launch).waitsOn rank peer).upper = decide (launch % 2 = 1) := by
  have parity : launch % 2 = launch % 4 % 2 := by omega
  rw [parity]
  rcases at_cases launch with ⟨place, kernel⟩ | ⟨place, kernel⟩ | ⟨place, kernel⟩ | ⟨place, kernel⟩
  all_goals
    rw [kernel, place]
    rfl

theorem stores_upper (launch : Nat) (rank peer : Fin N) :
    ((NodeKernel.at launch).stores rank peer).upper = decide (launch % 2 = 0) := by
  have parity : launch % 2 = launch % 4 % 2 := by omega
  rw [parity]
  rcases at_cases launch with ⟨place, kernel⟩ | ⟨place, kernel⟩ | ⟨place, kernel⟩ | ⟨place, kernel⟩
  all_goals
    rw [kernel, place]
    rfl

private theorem waitsOn_odd {launch : Nat} (odd : launch % 2 = 1) (rank peer : Fin N) :
    (NodeKernel.at launch).waitsOn rank peer = { owner := rank, upper := true, index := peer } := by
  rcases at_cases launch with ⟨place, kernel⟩ | ⟨place, kernel⟩ | ⟨place, kernel⟩ | ⟨place, kernel⟩
  · omega
  · rw [kernel]
    rfl
  · omega
  · rw [kernel]
    rfl

private theorem stores_even {launch : Nat} (even : launch % 2 = 0) (rank peer : Fin N) :
    (NodeKernel.at launch).stores rank peer = { owner := peer, upper := true, index := rank } := by
  rcases at_cases launch with ⟨place, kernel⟩ | ⟨place, kernel⟩ | ⟨place, kernel⟩ | ⟨place, kernel⟩
  · rw [kernel]
    rfl
  · omega
  · rw [kernel]
    rfl
  · omega

/-- Neighbouring launches never drift so far apart that 32 bits confuse them. -/
theorem SyncInv.polled (inv : SyncInv state) {peer : Fin N} (odd : state.counter rank % 2 = 1)
    (equal : u32 (state.words ((state.kernel rank).waitsOn rank peer)) = u32 (state.counter rank)) :
    state.Stored peer (state.counter rank - 1) rank := by
  rw [SyncState.kernel, waitsOn_odd odd, u32, u32] at equal
  rcases inv.written rank peer with none | ⟨parity, stored⟩
  · rw [none] at equal
    omega
  · have lower : state.counter rank ≤ state.words ⟨rank, true, peer⟩ + 2 := by
      by_cases first : state.counter rank = 1
      · omega
      · have before : state.Stored peer (state.counter rank - 2 - 1) rank :=
          inv.passed rank (state.counter rank - 2) (by omega) (.inl (by omega)) peer
        have bound := inv.latest rank peer _ (by omega) before
        omega
    have upper : state.words ⟨rank, true, peer⟩ ≤ state.counter rank + 3 := by
      by_cases first : state.words ⟨rank, true, peer⟩ = 1
      · omega
      · have reached : state.words ⟨rank, true, peer⟩ - 1 ≤ state.counter peer := by
          rcases stored with more | same
          · exact more.le
          · exact same.1.le
        have back : state.Stored rank (state.words ⟨rank, true, peer⟩ - 2 - 1) peer :=
          inv.passed peer (state.words ⟨rank, true, peer⟩ - 2) (by omega) (.inl (by omega)) rank
        rcases back with more | same
        · omega
        · omega
    have same : state.words ⟨rank, true, peer⟩ = state.counter rank := by omega
    rw [← same]
    exact stored

theorem stored_idle {seen : Finset (Fin N)} (waiting : state.phase rank = .waiting seen)
    (phase : SyncPhase N) (idle : ∀ stored, phase = .running stored → stored = ∅) (other : Fin N)
    (launch : Nat) (peer : Fin N) :
    (state.enter rank phase).Stored other launch peer ↔ state.Stored other launch peer := by
  by_cases own : other = rank
  · subst own
    have none : ¬ ∃ stored, phase = .running stored ∧ peer ∈ stored := by
      intro found
      obtain ⟨stored, same, member⟩ := found
      rw [idle stored same] at member
      exact absurd member (notMem_empty peer)
    simp [SyncState.Stored, SyncState.enter, waiting, none]
  · simp [SyncState.Stored, SyncState.enter, own]

private theorem stored_store {stored : Finset (Fin N)} (running : state.phase rank = .running stored)
    (target : Fin N) (words : SyncWord N → Nat) (other : Fin N) (launch : Nat) (peer : Fin N) :
    ({ state.enter rank (.running (insert target stored)) with words } : SyncState N).Stored other launch peer ↔
      state.Stored other launch peer ∨ (other = rank ∧ launch = state.counter rank ∧ peer = target) := by
  by_cases own : other = rank
  · subst own
    simp only [SyncState.Stored, SyncState.enter, update_self, running, SyncPhase.running.injEq, exists_eq_left',
      mem_insert, true_and]
    tauto
  · simp [SyncState.Stored, SyncState.enter, own]

private theorem stored_finish (complete : state.phase rank = .running univ) (other : Fin N)
    (launch : Nat) (peer : Fin N) :
    ({ state.enter rank (.waiting ∅) with counter := update state.counter rank (state.counter rank + 1) } : SyncState N).Stored
      other launch peer ↔ state.Stored other launch peer := by
  by_cases own : other = rank
  · subst own
    simp only [SyncState.Stored, SyncState.enter, update_self, complete, SyncPhase.running.injEq, exists_eq_left',
      mem_univ, and_true, reduceCtorEq, false_and, exists_false, and_false, or_false]
    omega
  · simp [SyncState.Stored, SyncState.enter, own]

theorem upper_update (state : SyncState N) (rank target owner writer : Fin N) :
    update state.words ((state.kernel rank).stores rank target) (state.counter rank + 1) ⟨owner,
      true, writer⟩ =
      if state.counter rank % 2 = 0 ∧ owner = target ∧ writer = rank then state.counter rank + 1
        else state.words ⟨owner, true, writer⟩ := by
  rw [update_apply, SyncState.kernel]
  cases Nat.mod_two_eq_zero_or_one (state.counter rank) with
  | inl even => simp [stores_even even, even]
  | inr odd =>
    have other : (⟨owner, true, writer⟩ : SyncWord N) ≠
      (NodeKernel.at (state.counter rank)).stores rank target := fun same => by
      have half := congrArg SyncWord.upper same
      rw [stores_upper, odd] at half
      cases half
    simp [other, odd]

theorem SyncInv.frame {before : SyncState N} (inv : SyncInv before)
    (same : ∀ other launch peer, after.Stored other launch peer ↔ before.Stored other launch peer)
    (words : after.words = before.words)
    (seen : ∀ rank seen, after.phase rank = .waiting seen → after.counter rank % 2 = 1 →
      ∀ peer ∈ seen, before.Stored peer (after.counter rank - 1) rank)
    (passed : ∀ rank launch, launch % 2 = 1 → after.Passed rank launch →
      ∀ peer, before.Stored peer (launch - 1) rank) : SyncInv after := by
  refine ⟨?_, ?_, ?_, ?_⟩
  · intro owner writer
    rw [same, words]
    exact inv.written owner writer
  · intro owner writer launch even stored
    rw [words]
    exact inv.latest owner writer launch even ((same _ _ _).mp stored)
  · intro rank noticed phase odd peer listed
    exact (same _ _ _).mpr (seen rank noticed phase odd peer listed)
  · intro rank launch odd through peer
    exact (same _ _ _).mpr (passed rank launch odd through peer)

theorem SyncInv.store (inv : SyncInv state) {peer : Fin N}
    (grown : ∀ other launch target, after.Stored other launch target ↔
      state.Stored other launch target ∨ (other = rank ∧ launch = state.counter rank ∧
      target = peer))
    (words : ∀ owner writer, after.words ⟨owner, true, writer⟩ =
      if state.counter rank % 2 = 0 ∧ owner = peer ∧ writer = rank then state.counter rank + 1
      else state.words ⟨owner, true, writer⟩) (counter : after.counter = state.counter)
    (waits : ∀ other seen, after.phase other = .waiting seen → state.phase other = .waiting seen)
    (passes : ∀ other launch, after.Passed other launch → state.Passed other launch) :
    SyncInv after := by
  refine ⟨?_, ?_, ?_, ?_⟩
  · intro owner writer
    rw [words]
    split
    next own =>
      obtain ⟨even, rfl, rfl⟩ := own
      exact .inr ⟨by omega, (grown _ _ _).mpr (.inr ⟨rfl, Nat.add_sub_cancel _ _, rfl⟩)⟩
    next => exact (inv.written owner writer).imp_right fun kept => ⟨kept.1, (grown _ _ _).mpr (.inl kept.2)⟩
  · intro owner writer launch even reached
    rw [words]
    rcases (grown _ _ _).mp reached with before | ⟨rfl, rfl, rfl⟩
    · have bound := inv.latest owner writer launch even before
      split
      next own =>
        obtain ⟨_, rfl, rfl⟩ := own
        rcases before with less | same
        · omega
        · omega
      next => exact bound
    · rw [if_pos ⟨even, rfl, rfl⟩]
  · intro other noticed phase odd member listed
    rw [counter] at odd ⊢
    exact (grown _ _ _).mpr (.inl (inv.seen other noticed (waits other noticed phase) odd member listed))
  · intro other launch odd through member
    exact (grown _ _ _).mpr (.inl (inv.passed other launch odd (passes other launch through) member))

theorem SyncInv.step {before : SyncState N} (inv : SyncInv before) (step : SyncStep before after) : SyncInv after := by
  cases step with
  | @observe rank peer seen waiting equal =>
    refine inv.frame (stored_idle waiting _ fun _ impossible => by cases impossible) rfl ?_ ?_
    · intro other noticed phase odd member listed
      by_cases own : other = rank
      · subst own
        have marked : insert peer seen = noticed := by simpa [SyncState.enter] using phase
        rw [← marked, mem_insert] at listed
        rcases listed with rfl | earlier
        · exact inv.polled odd equal
        · exact inv.seen other seen waiting odd member earlier
      · exact inv.seen other noticed (by simpa [SyncState.enter, own] using phase) odd member listed
    · intro other launch odd through member
      refine inv.passed other launch odd ?_ member
      by_cases own : other = rank
      · subst own
        simpa [SyncState.Passed, SyncState.enter, waiting] using through
      · simpa [SyncState.Passed, SyncState.enter, own] using through
  | @pass rank waiting =>
    refine inv.frame (stored_idle waiting _ fun _ same => (SyncPhase.running.inj same).symm) rfl ?_ ?_
    · intro other noticed phase odd member listed
      by_cases own : other = rank
      · subst own
        simp [SyncState.enter] at phase
      · exact inv.seen other noticed (by simpa [SyncState.enter, own] using phase) odd member listed
    · intro other launch odd through member
      by_cases own : other = rank
      · subst own
        rcases through with earlier | ⟨here, _⟩
        · exact inv.passed other launch odd (.inl earlier) member
        · subst here
          exact inv.seen other univ waiting odd member (mem_univ member)
      · exact inv.passed other launch odd (by simpa [SyncState.Passed, SyncState.enter, own] using through) member
  | @store rank peer stored running =>
    refine inv.store (stored_store running peer _) (upper_update before rank peer) rfl ?_ ?_
    · intro other noticed phase
      by_cases own : other = rank
      · subst own
        simp [SyncState.enter] at phase
      · simpa [SyncState.enter, own] using phase
    · intro other launch through
      by_cases own : other = rank
      · subst own
        simpa [SyncState.Passed, SyncState.enter, running] using through
      · simpa [SyncState.Passed, SyncState.enter, own] using through
  | @finish rank complete =>
    refine inv.frame (stored_finish complete) rfl ?_ ?_
    · intro other noticed phase odd member listed
      by_cases own : other = rank
      · subst own
        have empty : ∅ = noticed := by simpa [SyncState.enter] using phase
        rw [← empty] at listed
        exact absurd listed (notMem_empty member)
      · simp only [SyncState.enter, update_of_ne own] at phase odd ⊢
        exact inv.seen other noticed phase odd member listed
    · intro other launch odd through member
      refine inv.passed other launch odd ?_ member
      by_cases own : other = rank
      · subst own
        simp only [SyncState.Passed, SyncState.enter, update_self, reduceCtorEq, exists_false,
          and_false, or_false] at through
        rcases Nat.lt_succ_iff_lt_or_eq.mp through with earlier | here
        · exact .inl earlier
        · exact .inr ⟨here, _, complete⟩
      · simpa [SyncState.Passed, SyncState.enter, own] using through

private theorem syncInv_initial : SyncInv (SyncState.initial N) := by
  refine ⟨fun _ _ => .inl rfl, ?_, ?_, ?_⟩
  · intro owner writer launch _ stored
    simp [SyncState.Stored, SyncState.initial] at stored
  · intro rank seen _ odd
    simp [SyncState.initial] at odd
  · intro rank launch _ passed
    simp [SyncState.Passed, SyncState.initial] at passed

private theorem synchronises_odd {actions : List (SyncAction N)}
    (reached : runs SyncState.fire (SyncState.initial N) actions = some state) {launch : Nat}
    (odd : (launch + 1) % 2 = 1) (passed : state.Passed rank (launch + 1)) (peer : Fin N) :
    state.Stored peer launch rank := by
  have inv : SyncInv state := runs_invariant syncInv_initial (fun _ _ _ inv fired =>
    inv.step (syncStep_of_fire fired)) reached
  exact inv.passed rank (launch + 1) odd passed peer

/-! Runs in which the ranks take turns show that the sending kernels only wait for
themselves. -/

theorem enter_enter (state : SyncState N) (rank : Fin N) (first second : SyncPhase N) :
    (state.enter rank first).enter rank second = state.enter rank second := by
  simp [SyncState.enter]

theorem observe_run
    (ready : ∀ peer, state.words ((state.kernel rank).waitsOn rank peer) = state.counter rank)
    (peers : List (Fin N)) (seen : Finset (Fin N)) :
    ∃ noticed, seen ⊆ noticed ∧ (∀ peer ∈ peers, peer ∈ noticed) ∧
        runs SyncState.fire (state.enter rank (.waiting seen)) (peers.map (.observe rank)) =
          some (state.enter rank (.waiting noticed)) := by
  induction peers generalizing seen with
  | nil => exact ⟨seen, Subset.refl _, by simp, rfl⟩
  | cons peer peers ih =>
    obtain ⟨noticed, inside, listed, reached⟩ := ih (insert peer seen)
    refine ⟨noticed, (subset_insert peer seen).trans inside, ?_, ?_⟩
    · intro other member
      rcases List.mem_cons.mp member with rfl | later
      · exact inside (mem_insert_self _ _)
      · exact listed other later
    · have fired : (state.enter rank (.waiting seen)).fire (.observe rank peer) =
          some (state.enter rank (.waiting (insert peer seen))) := by
        have same : (state.enter rank (.waiting seen)).words
          (((state.enter rank (.waiting seen)).kernel rank).waitsOn rank peer) =
            (state.enter rank (.waiting seen)).counter rank := ready peer
        simp only [SyncState.fire, same, if_true, enter_enter]
        simp [SyncState.enter]
      rw [List.map_cons, runs_cons, fired]
      exact reached

theorem pass_run (waiting : state.phase rank = .waiting ∅)
    (ready : ∀ peer, state.words ((state.kernel rank).waitsOn rank peer) = state.counter rank) :
    ∃ actions, runs SyncState.fire state actions = some (state.enter rank (.running ∅)) := by
  have start : state.enter rank (.waiting ∅) = state := by
    simp [SyncState.enter, ← waiting]
  obtain ⟨noticed, _, listed, reached⟩ := observe_run ready (List.finRange N) ∅
  have all : noticed = univ := eq_univ_of_forall fun peer => listed peer (List.mem_finRange peer)
  rw [start, all] at reached
  refine ⟨(List.finRange N).map (.observe rank) ++ [.pass rank], ?_⟩
  rw [runs_append reached, runs_cons]
  simp [SyncState.fire, SyncState.enter, runs_nil]

theorem store_run (rank : Fin N) (peers : List (Fin N)) (distinct : peers.Nodup)
    (state : SyncState N) (stored : Finset (Fin N)) (running : state.phase rank = .running stored)
    (fresh : ∀ peer ∈ peers, peer ∉ stored) :
    ∃ after, runs SyncState.fire state (peers.map (.store rank)) = some after ∧
      after.counter = state.counter ∧
      after.phase = update state.phase rank (.running (stored ∪ peers.toFinset)) ∧
      (∀ peer ∈ peers, after.words ((state.kernel rank).stores rank peer) = state.counter rank +
        1) ∧
      ∀ word, (∀ peer ∈ peers, word ≠ (state.kernel rank).stores rank peer) →
        after.words word = state.words word := by
  induction peers generalizing state stored with
  | nil =>
    refine ⟨state, rfl, rfl, ?_, by simp, fun _ _ => rfl⟩
    simp [← running]
  | cons peer peers ih =>
    obtain ⟨absent, distinct⟩ := List.nodup_cons.mp distinct
    obtain ⟨next, fired, counter, phase, words⟩ : ∃ next, state.fire (.store rank peer) =
      some next ∧ next.counter = state.counter ∧
        next.phase = update state.phase rank (.running (insert peer stored)) ∧
        next.words = update state.words ((state.kernel rank).stores rank peer) (state.counter rank + 1) := by
      refine ⟨{ state.enter rank (.running (insert peer stored)) with
        words := update state.words ((state.kernel rank).stores rank peer) (state.counter rank + 1) }, ?_, rfl, rfl, rfl⟩
      simp only [SyncState.fire, running]
      rw [if_neg (fresh peer (List.mem_cons_self ..))]
    have same : next.kernel rank = state.kernel rank := by rw [SyncState.kernel, SyncState.kernel, counter]
    obtain ⟨after, reached, kept, final, written, others⟩ := ih distinct next (insert peer stored) (by simp [phase]) (by
      intro other member inside
      rcases mem_insert.mp inside with rfl | before
      · exact absent member
      · exact fresh other (List.mem_cons_of_mem _ member) before)
    rw [same] at written others
    refine ⟨after, ?_, kept.trans counter, ?_, ?_, ?_⟩
    · rw [List.map_cons, runs_cons, fired]
      exact reached
    · rw [final, phase, update_idem, List.toFinset_cons, insert_union, union_insert]
    · intro other member
      by_cases later : other ∈ peers
      · rw [written other later, counter]
      · have first : other = peer := (List.mem_cons.mp member).resolve_right later
        subst first
        by_cases again : ∃ second ∈ peers, (state.kernel rank).stores rank other = (state.kernel rank).stores rank second
        · obtain ⟨second, listed, equal⟩ := again
          rw [equal, written second listed, counter]
        · push Not at again
          rw [others _ again, words, update_self]
    · intro word outside
      rw [others word fun second listed => outside second (List.mem_cons_of_mem _ listed), words,
        update_of_ne (outside peer (List.mem_cons_self ..))]

theorem launch_run (waiting : state.phase rank = .waiting ∅)
    (ready : ∀ peer, state.words ((state.kernel rank).waitsOn rank peer) = state.counter rank) :
    ∃ actions after, runs SyncState.fire state actions = some after ∧
      after.counter = update state.counter rank (state.counter rank + 1) ∧ after.phase = state.phase ∧
      (∀ peer, after.words ((state.kernel rank).stores rank peer) = state.counter rank + 1) ∧
      ∀ word, (∀ peer, word ≠ (state.kernel rank).stores rank peer) → after.words word = state.words word := by
  obtain ⟨entering, entered⟩ := pass_run waiting ready
  obtain ⟨middle, stored, counter, phase, written, others⟩ := store_run rank (List.finRange N) (List.nodup_finRange N)
    (state.enter rank (.running ∅)) ∅ (by simp [SyncState.enter]) (by simp)
  have full : middle.phase rank = .running univ := by
    rw [phase, update_self, empty_union, List.toFinset_finRange]
  refine ⟨entering ++ ((List.finRange N).map (.store rank) ++ [.finish rank]),
    { middle.enter rank (.waiting ∅) with counter := update middle.counter rank (middle.counter rank + 1) }, ?_, ?_, ?_, ?_, ?_⟩
  · rw [runs_append entered, runs_append stored, runs_cons]
    simp [SyncState.fire, full, runs_nil]
  · simp [counter, SyncState.enter]
  · simp [SyncState.enter, phase, ← waiting]
  · exact fun peer => written peer (List.mem_finRange peer)
  · exact fun word outside => others word fun peer _ => outside peer

theorem stores_cover (launch : Nat) (word : SyncWord N) (half : word.upper = decide (launch % 2 = 0)) :
    ∃ rank peer, word = (NodeKernel.at launch).stores rank peer := by
  obtain ⟨owner, upper, index⟩ := word
  have same (rank peer : Fin N) : ((NodeKernel.at launch).stores rank peer).upper = upper :=
    (stores_upper launch rank peer).trans half.symm
  rcases at_cases launch with ⟨_, kernel⟩ | ⟨_, kernel⟩ | ⟨_, kernel⟩ | ⟨_, kernel⟩
  · rw [kernel] at same ⊢
    exact ⟨index, owner, by rw [← same index owner]; rfl⟩
  · rw [kernel] at same ⊢
    exact ⟨index, owner, by rw [← same index owner]; rfl⟩
  · rw [kernel] at same ⊢
    exact ⟨index, owner, by rw [← same index owner]; rfl⟩
  · rw [kernel] at same ⊢
    exact ⟨owner, index, by rw [← same owner index]; rfl⟩

private theorem waitsOn_own {launch : Nat} (odd : launch % 2 = 1) (rank peer : Fin N) :
    (NodeKernel.at (launch + 1)).waitsOn rank peer = (NodeKernel.at launch).stores rank peer := by
  rcases at_cases launch with ⟨place, kernel⟩ | ⟨place, kernel⟩ | ⟨place, kernel⟩ | ⟨place, kernel⟩
  · omega
  · have next : (launch + 1) % 4 = 2 := by omega
    rw [kernel, NodeKernel.at, next]
    rfl
  · omega
  · have next : (launch + 1) % 4 = 0 := by omega
    rw [kernel, NodeKernel.at, next]
    rfl

/-- The ranks in `done` have completed a launch that the others have not begun. -/
structure Partway (state : SyncState N) (launch : Nat) (done : List (Fin N)) : Prop where
  counter : ∀ rank, state.counter rank = if rank ∈ done then launch + 1 else launch
  phase : ∀ rank, state.phase rank = .waiting ∅
  polled : ∀ word, word.upper = decide (launch % 2 = 1) → state.words word = launch
  stored : ∀ rank ∈ done, ∀ peer, state.words ((NodeKernel.at launch).stores rank peer) = launch + 1

theorem Partway.launch {launch : Nat} {done : List (Fin N)} (partway : Partway state launch done)
    (rank : Fin N) (fresh : rank ∉ done) :
    ∃ actions after, runs SyncState.fire state actions = some after ∧
      Partway after launch (rank :: done) := by
  have counter : state.counter rank = launch := by rw [partway.counter, if_neg fresh]
  have kernel : state.kernel rank = .at launch := congrArg NodeKernel.at counter
  have ready (peer : Fin N) : state.words ((state.kernel rank).waitsOn rank peer) = state.counter rank := by
    rw [kernel, counter]
    exact partway.polled _ (waitsOn_upper launch rank peer)
  obtain ⟨actions, after, reached, counters, phases, written, others⟩ := launch_run (partway.phase rank) ready
  rw [kernel, counter] at written
  rw [kernel] at others
  refine ⟨actions, after, reached, ?_, ?_, ?_, ?_⟩
  · intro other
    rw [counters, update_apply, counter, partway.counter]
    by_cases own : other = rank
    · simp [own]
    · simp [own]
  · intro other
    rw [phases, partway.phase]
  · intro word half
    rw [others word ?_, partway.polled word half]
    intro peer same
    have other := stores_upper launch rank peer
    rw [← same, half, decide_eq_decide] at other
    omega
  · intro other member peer
    by_cases again : ∃ second, (NodeKernel.at launch).stores other peer = (NodeKernel.at launch).stores rank second
    · obtain ⟨second, same⟩ := again
      rw [same, written second]
    · push Not at again
      rw [others _ again]
      rcases List.mem_cons.mp member with rfl | earlier
      · exact absurd rfl (again peer)
      · exact partway.stored other earlier peer

theorem Partway.round {launch : Nat} (partway : Partway state launch []) (ranks : List (Fin N))
    (distinct : ranks.Nodup) :
    ∃ actions after, runs SyncState.fire state actions = some after ∧
      Partway after launch ranks := by
  induction ranks with
  | nil => exact ⟨[], state, rfl, partway⟩
  | cons rank ranks ih =>
    obtain ⟨absent, distinct⟩ := List.nodup_cons.mp distinct
    obtain ⟨first, middle, reached, halfway⟩ := ih distinct
    obtain ⟨second, after, further, complete⟩ := halfway.launch rank absent
    exact ⟨first ++ second, after, by rw [runs_append reached, further], complete⟩

theorem lockstep (N launch : Nat) :
    ∃ actions after, runs SyncState.fire (SyncState.initial N) actions = some after ∧
      Partway after launch [] := by
  induction launch with
  | zero =>
    refine ⟨[], _, rfl, fun _ => rfl, fun _ => rfl, fun _ _ => rfl, ?_⟩
    intro rank member
    cases member
  | succ launch ih =>
    obtain ⟨first, before, reached, together⟩ := ih
    obtain ⟨second, after, further, complete⟩ := together.round (List.finRange N) (List.nodup_finRange N)
    refine ⟨first ++ second, after, by rw [runs_append reached, further], ?_, complete.phase, ?_, ?_⟩
    · intro rank
      rw [complete.counter, if_pos (List.mem_finRange rank), if_neg (List.not_mem_nil)]
    · intro word half
      obtain ⟨rank, peer, same⟩ := stores_cover launch word (by rw [half, decide_eq_decide]; omega)
      rw [same, complete.stored rank (List.mem_finRange rank) peer]
    · intro rank member
      cases member

theorem passes_alone {launch : Nat} (odd : launch % 2 = 1) (rank peer : Fin N) (other : peer ≠ rank) :
    ∃ actions state, runs SyncState.fire (SyncState.initial N) actions = some state ∧ state.Passed rank (launch + 1) ∧
      ¬ state.Stored peer launch rank := by
  obtain ⟨first, before, reached, together⟩ := lockstep N launch
  obtain ⟨second, ahead, further, alone⟩ := together.launch rank List.not_mem_nil
  have counter : ahead.counter rank = launch + 1 := by rw [alone.counter, if_pos (List.mem_cons_self ..)]
  have ready (target : Fin N) : ahead.words ((ahead.kernel rank).waitsOn rank target) = ahead.counter rank := by
    rw [SyncState.kernel, counter, waitsOn_own odd]
    exact alone.stored rank (List.mem_cons_self ..) target
  obtain ⟨third, entered⟩ := pass_run (alone.phase rank) ready
  refine ⟨first ++ (second ++ third), _, by rw [runs_append reached, runs_append further, entered], ?_, ?_⟩
  · exact .inr ⟨counter.symm, ∅, update_self ..⟩
  · have behind : ahead.counter peer = launch := by
      rw [alone.counter, if_neg (by simp [other])]
    simp [SyncState.Stored, SyncState.enter, behind, update_of_ne other, alone.phase peer]

/-- With several ranks on a node exactly the receiving kernels wait for the others. -/
theorem synchronises_iff {N : Nat} (several : 2 ≤ N) (kernel : NodeKernel) :
    Synchronises N kernel ↔ kernel = .dispatchRecv ∨ kernel = .combineRecv := by
  constructor
  · intro synchronises
    have refuted (launch : Nat) (odd : launch % 2 = 1) (here : NodeKernel.at (launch + 1) = kernel) : False := by
      obtain ⟨actions, state, reached, passed, missing⟩ :=
        passes_alone odd (⟨0, by omega⟩ : Fin N) ⟨1, by omega⟩ (by simp)
      exact missing (synchronises actions state reached _ launch here passed _ (by simp))
    cases kernel with
    | dispatchSend => exact (refuted 3 rfl rfl).elim
    | dispatchRecv => exact .inl rfl
    | combineSend => exact (refuted 1 rfl rfl).elim
    | combineRecv => exact .inr rfl
  · intro receiving actions state reached rank launch here passed peer _
    refine synchronises_odd reached ?_ passed peer
    subst here
    rcases at_cases (launch + 1) with ⟨_, same⟩ | ⟨place, _⟩ | ⟨_, same⟩ | ⟨place, _⟩
    · simp [same] at receiving
    · omega
    · simp [same] at receiving
    · omega

theorem synchronises_dispatchRecv_pair :
    (2 ≤ 2) ∧ (Synchronises 2 .dispatchRecv ↔ (.dispatchRecv : NodeKernel) = .dispatchRecv ∨
      (.dispatchRecv : NodeKernel) = .combineRecv) :=
  ⟨le_refl 2, synchronises_iff (le_refl 2) .dispatchRecv⟩

/-- One kernel of a rank, in a node of two, from its polls to its end. -/
def wholeLaunch (rank : Fin 2) : List (SyncAction 2) :=
  [.observe rank 1, .observe rank 0, .pass rank, .store rank 1, .store rank 0, .finish rank]

/-- The first rank of a pair enters `combine_send` although the second has not even
begun its `dispatch_recv`. -/
theorem combineSend_passes_alone : ∃ state, runs SyncState.fire (SyncState.initial 2)
      (wholeLaunch 0 ++ wholeLaunch 1 ++ wholeLaunch 0 ++ [.observe 0 1, .observe 0 0, .pass 0]) = some state ∧
    NodeKernel.at 2 = .combineSend ∧ state.Passed 0 2 ∧ ¬ state.Stored 1 1 0 := by
  refine ⟨_, (Option.some_get (by decide +kernel)).symm, rfl, .inr ⟨by decide +kernel, ∅, by decide +kernel⟩, ?_⟩
  intro stored
  cases stored with
  | inl later => exact absurd later (by decide +kernel)
  | inr now =>
    obtain ⟨_, targets, running, _⟩ := now
    have waiting : SyncPhase.waiting ∅ = SyncPhase.running targets :=
      (show SyncPhase.waiting ∅ = _ by decide +kernel).trans running
    cases waiting

end PplxGarden.AllToAll.Proofs
