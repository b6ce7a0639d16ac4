import PplxGarden.Library.Runs
import PplxGarden.Proofs.Posting

/-! Posting with the pointers of the chain. The requests before `bad_wr` are those that the
device has taken, so that the pages of an operation are posted once each and in order. An
iterator that shows one request at a time insists on it being taken. -/

namespace PplxGarden.Fabric.Verbs
open Library Cursor List Option
variable {rmaQp : Qp} {rounds : Nat} {iter : WriteOpIter} {rest : List (Option (Qp × WorkRequest))}
  {answers : Nat → Nat}

/-- The chain that an iterator shows lies in different places. -/
structure Shows (iter : WriteOpIter) (chain : List (Fin wrChainLen × WorkRequest)) : Prop where
  linked : Chain.Linked (readWr iter.wrChainBuffer) (some iter.head) chain
  distinct : (chain.map Prod.fst).Nodup
  short : chain.length ≤ wrChainLen
  whole : iter.peek.wrLen = chain.length
  shown : cursor.peek iter = chain.map fun entry => (iter.peek.qp, entry.2)

theorem slots_nodup {first count : Nat} (short : count ≤ wrChainLen) : ((range' first count).map slot).Nodup := by
  refine Nodup.map_on ?_ nodup_range'
  intro m from_ n until_ same
  rw [mem_range'_1] at from_ until_
  have equal := slot_eq_iff.mp same
  have four : count ≤ 4 := short
  omega

theorem ring_shows {op : PagedWriteOp} {buf : WrChainBuffer} {taken held : Nat}
    (ring : Ring op buf taken held) (some_ : held ≠ 0) :
    ∃ chain, Shows (.paged (ringAt op rmaQp buf taken held)) chain := by
  obtain ⟨chain, linked, places, same⟩ := ring.chain (Nat.pos_of_ne_zero some_) (Nat.le_refl held)
  have size : chain.length = held := by simpa using congrArg List.length places
  rw [Nat.add_sub_cancel] at linked places
  have found : Verbs.linked buf wrChainLen (some (slot taken)) = some (chain.map Prod.snd) :=
    linked_of_chain linked (by rw [size]; exact ring.short)
  have peeked : (ringAt op rmaQp buf taken held).peek = ⟨rmaQp, some (chain.map Prod.snd), held⟩ := by
    rw [← found]
    exact if_neg some_
  refine ⟨chain, linked, ?_, by rw [size]; exact ring.short, ?_, ?_⟩
  · rw [places]
    exact slots_nodup ring.short
  · rw [size, WriteOpIter.peek, peeked]
  · simp only [cursor, WriteOpIter.peek, peeked, Batch.requests, getD_some, List.map_map]
    rfl

private theorem single_shows {iter : SingleWriteOpIter} (more : iter.peek.wrLen ≠ 0) :
    ∃ chain, Shows (.single iter) chain := by
  have open_ : iter.done ≠ true := by
    intro done
    rw [SingleWriteOpIter.peek, if_pos done] at more
    exact more rfl
  refine ⟨[(0, iter.wr)], .cons rfl .nil, nodup_singleton _, Nat.le_of_ble_eq_true rfl, ?_, ?_⟩
  · simp only [WriteOpIter.peek, SingleWriteOpIter.peek, if_neg open_, length_singleton]
  · simp only [cursor, WriteOpIter.peek, SingleWriteOpIter.peek, if_neg open_, Batch.requests, getD_some, map_cons, map_nil]

private theorem scatter_shows {iter : ScatterWriteOpIter} (more : iter.peek.wrLen ≠ 0) :
    ∃ chain, Shows (.scatter iter) chain := by
  have open_ : iter.iDst ≠ iter.dstEnd := by
    intro done
    rw [ScatterWriteOpIter.peek, if_pos done] at more
    exact more rfl
  refine ⟨[(0, iter.wr)], .cons rfl .nil, nodup_singleton _, Nat.le_of_ble_eq_true rfl, ?_, ?_⟩
  · simp only [WriteOpIter.peek, ScatterWriteOpIter.peek, if_neg open_, length_singleton]
  · simp only [cursor, WriteOpIter.peek, ScatterWriteOpIter.peek, if_neg open_, Batch.requests,
      getD_some, map_cons, map_nil]

theorem left_shows {op : RdmaOp Qp} (left : Left op iter rest)
    (more : iter.peek.wrLen ≠ 0) : ∃ chain, Shows iter chain := by
  cases op with
  | write op rmaQp =>
    cases op with
    | single op =>
      obtain ⟨_, _⟩ := left
      exact single_shows more
    | imm op =>
      obtain ⟨_, _⟩ := left
      exact single_shows more
    | paged op =>
      obtain ⟨ring⟩ := left
      exact ring_shows ring fun none_ => more (congrArg Batch.wrLen (if_pos none_))
  | scatter op qpList =>
    obtain ⟨_, _⟩ := left
    exact scatter_shows more

theorem Shows.postSend {context : Provider.WriteOpContext WriteOpIter} {chain : List (Fin wrChainLen × WorkRequest)}
    (shows_ : Shows context.rdmaOpIter chain) (taken : Nat) :
    postSend context taken = (context.rdmaOpIter.advance (min taken chain.length)).map fun next =>
      ({ context with rdmaOpIter := next, cntPostedOps := context.cntPostedOps + min taken chain.length },
        (cursor.peek context.rdmaOpIter).take taken, decide (chain.length ≤ taken)) := by
  have accepted : ((chain.take taken).map Prod.snd).map (context.rdmaOpIter.peek.qp, ·) =
      (cursor.peek context.rdmaOpIter).take taken := by
    rw [shows_.shown, List.map_map, map_take]
    rfl
  simp only [Verbs.postSend, ibvPostSend, shows_.linked.takeItems taken, bind_eq_bind, bind_some, accepted]
  by_cases busy : taken < chain.length
  · have found : chain[taken]?.map Prod.fst = some chain[taken].1 := by rw [List.getElem?_eq_getElem busy, map_some]
    have counted := shows_.linked.distance shows_.distinct (Nat.lt_of_lt_of_le busy shows_.short) found
    rw [found, Nat.min_eq_left (Nat.le_of_lt busy), decide_eq_false (Nat.not_le.mpr busy)]
    simp only [counted, bind_some]
    cases context.rdmaOpIter.advance taken <;> rfl
  · have all := Nat.not_lt.mp busy
    rw [getElem?_eq_none all, Nat.min_eq_right all, decide_eq_true all]
    simp only [map_none, shows_.whole]
    cases context.rdmaOpIter.advance chain.length <;> rfl

structure Advanced (op : RdmaOp Qp) (context next : Provider.WriteOpContext WriteOpIter)
    (rest : List (Option (Qp × WorkRequest))) (accepted : List (Qp × WorkRequest)) : Prop where
  counted : next.cntPostedOps = context.cntPostedOps + accepted.length
  taken : accepted.map some = rest.take accepted.length
  left : Left op next.rdmaOpIter (rest.drop accepted.length)

theorem Advanced.refl {op : RdmaOp Qp} {context : Provider.WriteOpContext WriteOpIter}
    (left : Left op context.rdmaOpIter rest) : Advanced op context context rest [] := ⟨rfl, rfl, left⟩

theorem Advanced.trans {op : RdmaOp Qp} {first middle last : Provider.WriteOpContext WriteOpIter}
    {accepted more : List (Qp × WorkRequest)} (before : Advanced op first middle rest accepted)
    (after : Advanced op middle last (rest.drop accepted.length) more) :
    Advanced op first last rest (accepted ++ more) where
  counted := by rw [after.counted, before.counted, length_append, Nat.add_assoc]
  taken := by rw [map_append, before.taken, after.taken, length_append, take_add]
  left := by
    rw [length_append, ← drop_drop]
    exact after.left

section
variable {op : RdmaOp Qp} {context next : Provider.WriteOpContext WriteOpIter} {rest : List (Option (Qp × WorkRequest))}
  {accepted : List (Qp × WorkRequest)} {whole : Bool} {taken : Nat}

section
variable (left : Left op context.rdmaOpIter rest)
include left

theorem postSend_advanced (more : context.rdmaOpIter.peek.wrLen ≠ 0)
    (posted : postSend context taken = some (next, accepted, whole)) :
    Advanced op context next rest accepted ∧ (0 < taken → 0 < accepted.length) ∧
      (whole = true → 0 < accepted.length) := by
  obtain ⟨chain, shows_⟩ := left_shows left more
  have size : (cursor.peek context.rdmaOpIter).length = chain.length := by rw [shows_.shown, length_map]
  rw [shows_.postSend] at posted
  obtain ⟨iter, advanced, same⟩ := map_eq_some_iff.mp posted
  cases same
  have inside : min taken chain.length ≤ (cursor.peek context.rdmaOpIter).length := by
    rw [size]
    exact Nat.min_le_right ..
  have length : ((cursor.peek context.rdmaOpIter).take taken).length = min taken chain.length := by rw [length_take, size]
  have positive : 0 < chain.length := by
    rw [← shows_.whole]
    exact Nat.pos_of_ne_zero more
  refine ⟨⟨?_, ?_, ?_⟩, fun some_ => ?_, fun all => ?_⟩
  · rw [length]
  · rw [length, (left_reads op).take_shown left inside, ← size, ← take_eq_take_min]
  · rw [length]
    exact (left_reads op).moves left inside advanced
  · rw [length]
    exact Nat.lt_min.mpr ⟨some_, positive⟩
  · have beyond := of_decide_eq_true all
    rw [length, Nat.min_eq_right beyond]
    exact positive

/-- An iterator shows nothing exactly when nothing is left. -/
theorem left_more : context.rdmaOpIter.peek.wrLen = 0 ↔ rest = [] := by
  obtain ⟨chain, found, size⟩ := left_batch left
  have shown : cursor.peek context.rdmaOpIter = chain.map (context.rdmaOpIter.peek.qp, ·) := by
    simp only [cursor, Batch.requests, found, getD_some]
  constructor
  · intro none_
    rw [none_] at size
    refine (left_reads op).ends left ?_
    rw [shown, length_eq_zero_iff.mp size, map_nil]
  · rintro rfl
    have nothing := (left_reads op).shows left
    rw [prefix_nil, map_eq_nil_iff, shown, map_eq_nil_iff] at nothing
    rw [← size, nothing, length_nil]

theorem postLoop_advanced
    (posted : postLoop rounds answers context = some (next, accepted)) : Advanced op context next rest accepted := by
  induction rounds generalizing answers context rest accepted with
  | zero => cases posted
  | succ rounds ih =>
    rw [postLoop] at posted
    split at posted
    next none_ =>
      cases posted
      exact .refl left
    next more =>
      obtain ⟨⟨middle, first, whole⟩, sent, later⟩ := bind_eq_some_iff.mp posted
      have once := (postSend_advanced left more sent).1
      cases whole with
      | true =>
        obtain ⟨⟨last, others⟩, continued, same⟩ := bind_eq_some_iff.mp later
        cases same
        exact once.trans (ih once.left continued)
      | false =>
        cases later
        exact once

private theorem progress_advanced
    (posted : progressRdmaWriteOpContext answers context = some (next, accepted)) :
    Advanced op context next rest accepted := by
  rw [progressRdmaWriteOpContext] at posted
  split at posted
  next =>
    cases posted
    exact .refl left
  next => exact postLoop_advanced left posted

end

theorem paged_postSend {op : PagedWriteOp} (left : Left (.write (.paged op) rmaQp) context.rdmaOpIter rest)
    (buildable : ∀ request ∈ rest, request.isSome) (more : context.rdmaOpIter.peek.wrLen ≠ 0) (taken : Nat) :
    ∃ next accepted whole, postSend context taken = some (next, accepted, whole) := by
  obtain ⟨chain, shows_⟩ := left_shows left more
  have size : (cursor.peek context.rdmaOpIter).length = chain.length := by rw [shows_.shown, length_map]
  obtain ⟨next, advanced⟩ := chained_goes left (show min taken chain.length ≤
    _ by rw [size]; exact Nat.min_le_right ..) buildable
  rw [shows_.postSend, show context.rdmaOpIter.advance _ = _ from advanced]
  exact ⟨_, _, _, rfl⟩

theorem paged_postLoop {op : PagedWriteOp} (left : Left (.write (.paged op) rmaQp) context.rdmaOpIter rest)
    (buildable : ∀ request ∈ rest, request.isSome) (enough : rest.length < rounds) (answers : Nat → Nat) :
    ∃ result, postLoop rounds answers context = some result := by
  induction rounds generalizing answers context rest with
  | zero => cases enough
  | succ rounds ih =>
    rw [postLoop]
    split
    next => exact ⟨_, rfl⟩
    next more =>
      obtain ⟨next, accepted, whole, sent⟩ := paged_postSend left buildable more (answers 0)
      obtain ⟨once, -, moves⟩ := postSend_advanced left more sent
      rw [sent]
      cases whole with
      | false => exact ⟨_, rfl⟩
      | true =>
        have some_ := moves rfl
        have size := length_drop (l := rest) (i := accepted.length)
        have nonempty : rest.length ≠ 0 := fun none_ => more ((left_more left).mpr (length_eq_zero_iff.mp none_))
        obtain ⟨⟨last, others⟩, continued⟩ :=
          ih once.left (fun request member => buildable request (mem_of_mem_drop member)) (by omega)
          fun k => answers (k + 1)
        simp only [bind_eq_bind, bind_some, if_true, continued]
        exact ⟨_, rfl⟩

/-- The operations that show one request at a time. -/
def OneAtATime : RdmaOp Qp → Prop
  | .write (.paged _) _ => False
  | _ => True

private theorem single_moves (one : OneAtATime op) (left : Left op iter rest)
    (something : cursor.peek iter ≠ []) :
    (cursor.peek iter).length = 1 ∧ ∀ count, (cursor.advance iter count).isSome ↔ count = 1 ∧
      rest[1]? ≠ some none := by
  cases op with
  | write op rmaQp =>
    cases op with
    | single op => exact (single_oneByOne (.newSingle op rmaQp)).moves_iff left something
    | imm op => exact (single_oneByOne (.newImm op rmaQp)).moves_iff left something
    | paged op => cases one
  | scatter op qpList => exact (scatter_oneByOne op qpList).moves_iff left something

/-- An iterator that shows one request insists on its being taken, and fails if it cannot
build the next one. -/
theorem single_postSend (one : OneAtATime op) (left : Left op context.rdmaOpIter rest)
    (more : context.rdmaOpIter.peek.wrLen ≠ 0) (taken : Nat) :
    if 1 ≤ taken ∧ rest[1]? ≠ some none then ∃ next accepted, postSend context taken =
      some (next, accepted, true) ∧ accepted.length = 1
    else postSend context taken = none := by
  obtain ⟨chain, shows_⟩ := left_shows left more
  have size : (cursor.peek context.rdmaOpIter).length = chain.length := by rw [shows_.shown, length_map]
  have something : cursor.peek context.rdmaOpIter ≠ [] := by
    intro nothing
    rw [nothing, ← shows_.whole] at size
    exact more size.symm
  obtain ⟨single, moves⟩ := single_moves one left something
  rw [shows_.postSend, ← size, single, show context.rdmaOpIter.advance _ = cursor.advance _ _ from rfl]
  split
  next both =>
    rw [Nat.min_eq_right both.1]
    obtain ⟨next, moved⟩ := isSome_iff_exists.mp ((moves 1).mpr ⟨rfl, both.2⟩)
    rw [moved, map_some, decide_eq_true both.1]
    exact ⟨_, _, rfl, by rw [length_take, single, Nat.min_eq_right both.1]⟩
  next either =>
    rw [map_eq_none_iff, ← not_isSome_iff_eq_none, moves]
    exact fun both => either ⟨by omega, both.2⟩

theorem single_postLoop_iff (one : OneAtATime op) (left : Left op context.rdmaOpIter rest)
    (enough : rest.length < rounds) (answers : Nat → Nat) :
    (postLoop rounds answers context).isSome ↔ ∀ k < rest.length, 1 ≤ answers k ∧
      rest[k + 1]? ≠ some none := by
  induction rounds generalizing answers context rest with
  | zero => cases enough
  | succ rounds ih =>
    rw [postLoop]
    split
    next none_ =>
      rw [(left_more left).mp none_]
      simp
    next more =>
      have sent := single_postSend one left more (answers 0)
      obtain ⟨last, size⟩ := Nat.exists_eq_succ_of_ne_zero fun none_ =>
        more ((left_more left).mpr (length_eq_zero_iff.mp none_))
      rw [size, Nat.forall_lt_succ_left]
      split at sent
      next both =>
        obtain ⟨next, accepted, sent, taken⟩ := sent
        have once := (postSend_advanced left more sent).1.left
        rw [taken] at once
        have later := ih once (by rw [length_drop]; omega) fun k => answers (k + 1)
        rw [length_drop, size] at later
        rw [sent, and_iff_right both]
        simp only [bind_eq_bind, bind_some, if_true]
        refine Iff.trans (Iff.of_eq ?_) (later.trans ?_)
        · cases postLoop rounds (fun k => answers (k + 1)) next <;> rfl
        · refine forall_congr' fun k => imp_congr (by omega) ?_
          rw [getElem?_drop, Nat.add_comm 1]
      next either =>
        rw [sent]
        exact iff_of_false (fun found => by cases found) fun all => either all.1

theorem postLoop_posts (posted : postLoop rounds answers context = some (next, accepted))
    (before : List (Qp × WorkRequest)) :
    ∃ made, runs Posts.post ⟨context, before⟩ ((List.range made).map answers) = some ⟨next, before ++ accepted⟩ := by
  induction rounds generalizing answers context before accepted with
  | zero => cases posted
  | succ rounds ih =>
    rw [postLoop] at posted
    split at posted
    next none_ =>
      cases posted
      exact ⟨0, by rw [append_nil]; rfl⟩
    next more =>
      obtain ⟨⟨middle, first, whole⟩, sent, later⟩ := bind_eq_some_iff.mp posted
      have once : Posts.post ⟨context, before⟩ (answers 0) = some ⟨middle, before ++ first⟩ := by
        rw [Posts.post, if_neg more, sent]
        rfl
      cases whole with
      | true =>
        obtain ⟨⟨last, others⟩, continued, same⟩ := bind_eq_some_iff.mp later
        cases same
        obtain ⟨made, rest⟩ := ih continued (before ++ first)
        refine ⟨made + 1, ?_⟩
        rw [range_succ_eq_map, map_cons, List.map_map, runs_cons, once, bind_some, ← append_assoc]
        exact rest
      | false =>
        cases later
        exact ⟨1, by rw [range_one, map_singleton, runs_cons, once, bind_some, runs_nil]⟩

theorem post_eq_postLoop (left : Left op context.rdmaOpIter rest) {room : Nat}
    (enough : room < rounds) :
    ∃ answers, postLoop rounds answers context =
      (post rounds room context.rdmaOpIter).map fun posting =>
      ({ context with rdmaOpIter := posting.iter, cntPostedOps := context.cntPostedOps + posting.count }, posting.posted) := by
  induction rounds generalizing context rest room with
  | zero => cases enough
  | succ rounds ih =>
    by_cases none_ : context.rdmaOpIter.peek.wrLen = 0
    · exact ⟨fun _ => 0, by rw [postLoop, post, if_pos none_, if_pos none_]; rfl⟩
    · obtain ⟨chain, shows_⟩ := left_shows left none_
      obtain ⟨found, known, size⟩ := left_batch left
      have shown : cursor.peek context.rdmaOpIter = found.map (context.rdmaOpIter.peek.qp, ·) := by
        simp only [cursor, Batch.requests, known, getD_some]
      have same : chain.length = found.length := by rw [← shows_.whole, size]
      have sent := shows_.postSend room
      by_cases fits : found.length ≤ room
      · rw [same, Nat.min_eq_right fits, decide_eq_true fits, shown, take_of_length_le (by rwa [length_map])] at sent
        cases moved : context.rdmaOpIter.advance found.length with
        | none =>
          refine ⟨fun _ => room, ?_⟩
          rw [moved] at sent
          rw [postLoop, post, if_neg none_, if_neg none_]
          simp only [sent, known, bind_eq_bind, bind_some, if_pos fits, ← size, moved]
          rfl
        | some iter =>
          rw [moved, map_some] at sent
          have positive : 0 < found.length := by
            rw [size]
            exact Nat.pos_of_ne_zero none_
          obtain ⟨answers, later⟩ := @ih _ _ (postSend_advanced left none_ sent).1.left (room - found.length) (by omega)
          refine ⟨fun k => if k = 0 then room else answers (k - 1), ?_⟩
          rw [postLoop, post, if_neg none_, if_neg none_]
          simp only [known, bind_eq_bind, bind_some, if_pos fits, ← size, moved, if_true, sent, Nat.succ_ne_zero, if_false,
            Nat.add_sub_cancel, later]
          cases post rounds (room - found.length) iter <;> simp [Nat.add_assoc]
      · rw [same, Nat.min_eq_left (by omega), decide_eq_false fits, shown, ← map_take] at sent
        refine ⟨fun _ => room, ?_⟩
        rw [postLoop, post, if_neg none_, if_neg none_]
        simp only [sent, known, bind_eq_bind, bind_some, if_neg fits]
        cases context.rdmaOpIter.advance room <;> simp

end

section
variable {op : RdmaOp Qp} {context next : Provider.WriteOpContext WriteOpIter} {accepted : List (Qp × WorkRequest)}

/-- The iterators of an operation, with the number of requests that were posted. -/
inductive Reachable (op : RdmaOp Qp) : WriteOpIter → Nat → Prop where
  | new {iter : WriteOpIter} (made : WriteOpIter.new op = some iter) : Reachable op iter 0
  | progress {answers : Nat → Nat} {context next : Provider.WriteOpContext WriteOpIter} {accepted : List (Qp × WorkRequest)}
      (before : Reachable op context.rdmaOpIter context.cntPostedOps)
      (posted : progressRdmaWriteOpContext answers context = some (next, accepted)) : Reachable op
        next.rdmaOpIter next.cntPostedOps

theorem Reachable.left {count : Nat} (reachable : Reachable op iter count) :
    op.Asserted ∧ Left op iter ((requests op).drop count) := by
  induction reachable with
  | new made => exact ⟨asserted_of_new made, left_new made⟩
  | progress before posted ih =>
    have advanced := progress_advanced ih.2 posted
    rw [advanced.counted, ← drop_drop]
    exact ⟨ih.1, advanced.left⟩

theorem pages_buildable {op : PagedWriteOp} (asserted : (WriteOp.paged op).Asserted) :
    ∀ request ∈ requests (.write (.paged op) rmaQp), request.isSome := by
  intro request member
  obtain ⟨i, listed, rfl⟩ := List.mem_map.mp member
  rw [mem_range'_1, numPages] at listed
  rw [isSome_map]
  exact PagedWriteOp.pages_isSome asserted (by omega)

/-- A call returns, it counts what the device has taken, and the iterator hands out the
requests after that. -/
def Handled (op : RdmaOp Qp) (context : Provider.WriteOpContext WriteOpIter) (answers : Nat → Nat) : Prop :=
  ∃ next accepted, progressRdmaWriteOpContext answers context = some (next, accepted) ∧
    next.cntPostedOps = context.cntPostedOps + accepted.length ∧
    accepted.map some = ((requests op).drop context.cntPostedOps).take accepted.length ∧
    ∀ items, Yields cursor next.rdmaOpIter items ↔ (requests op).drop next.cntPostedOps = items.map some

private theorem handled_iff_isSome
    (reachable : Reachable op context.rdmaOpIter context.cntPostedOps) (answers : Nat → Nat) :
    Handled op context answers ↔ (progressRdmaWriteOpContext answers context).isSome := by
  constructor
  · rintro ⟨next, accepted, posted, -⟩
    rw [posted]
    rfl
  · intro returns
    obtain ⟨⟨next, accepted⟩, posted⟩ := isSome_iff_exists.mp returns
    obtain ⟨counted, taken, left⟩ := progress_advanced reachable.left.2 posted
    refine ⟨next, accepted, posted, counted, taken, fun items => ?_⟩
    rw [drop_drop, ← counted] at left
    exact (left_reads op).yields_iff left items

/-- Pages are posted whatever the device answers. The other operations need it to take a
request each time it is asked, and targets that can be built. -/
theorem progress_handled_iff (op : RdmaOp Qp) (context : Provider.WriteOpContext WriteOpIter)
    (reachable : Reachable op context.rdmaOpIter context.cntPostedOps) (answers : Nat → Nat) :
    Handled op context answers ↔ context.bad = true ∨ ¬ OneAtATime op ∨
      ∀ k < ((requests op).drop context.cntPostedOps).length, 1 ≤ answers k ∧
        ((requests op).drop context.cntPostedOps)[k + 1]? ≠ some none := by
  obtain ⟨asserted, left⟩ := reachable.left
  have enough : ((requests op).drop context.cntPostedOps).length < context.rdmaOpIter.totalOps + 1 := by
    rw [left_totalOps left, length_drop]
    omega
  rw [handled_iff_isSome reachable, progressRdmaWriteOpContext]
  by_cases bad : context.bad
  · rw [if_pos bad]
    exact iff_of_true rfl (Or.inl bad)
  · rw [if_neg bad, or_iff_right bad]
    by_cases one : OneAtATime op
    · rw [single_postLoop_iff one left enough, or_iff_right (not_not.mpr one)]
    · refine iff_of_true ?_ (Or.inl one)
      obtain ⟨op, rmaQp, rfl⟩ : ∃ pages rmaQp, op = .write (.paged pages) rmaQp := by
        cases op with
        | write op rmaQp =>
          cases op with
          | single op => exact absurd trivial one
          | imm op => exact absurd trivial one
          | paged op => exact ⟨op, rmaQp, rfl⟩
        | scatter op qpList => exact absurd trivial one
      exact isSome_iff_exists.mpr
        (paged_postLoop left (fun request member => pages_buildable asserted request
          (mem_of_mem_drop member)) enough answers)

def pageRequests (op : PagedWriteOp) (rmaQp : Qp) : List (Option (Qp × WorkRequest)) :=
  (range' op.pageIndicesBeg (op.pageIndicesEnd - op.pageIndicesBeg)).map fun i => (op.pages i).map fun (srcPage, dstPage) =>
    (rmaQp, pageWr op (op.srcPtr + op.srcOffset + op.srcStride * srcPage)
      (op.dstPtr + op.dstOffset + op.dstStride * dstPage))

/-- What was taken are the first pages, and the others are left. -/
structure InOrder (op : PagedWriteOp) (rmaQp : Qp) (posts : Posts) : Prop where
  counted : posts.context.cntPostedOps = posts.accepted.length
  taken : posts.accepted.map some = (pageRequests op rmaQp).take posts.accepted.length
  left : Left (.write (.paged op) rmaQp) posts.context.rdmaOpIter ((pageRequests op rmaQp).drop posts.accepted.length)

theorem InOrder.post {op : PagedWriteOp} {posts : Posts} (asserted : (WriteOp.paged op).Asserted)
    (inOrder : InOrder op rmaQp posts) (taken : Nat) :
    ∃ next, posts.post taken = some next ∧ InOrder op rmaQp next ∧
        min (pageRequests op rmaQp).length (posts.accepted.length + if 0 < taken then 1 else 0) ≤
          next.accepted.length := by
  obtain ⟨counted, listed, left⟩ := inOrder
  rw [Posts.post]
  by_cases none_ : posts.context.rdmaOpIter.peek.wrLen = 0
  · have all := congrArg List.length ((left_more left).mp none_)
    rw [length_drop, length_nil] at all
    rw [if_pos none_]
    exact ⟨posts, rfl, ⟨counted, listed, left⟩, by omega⟩
  · obtain ⟨next, accepted, whole, sent⟩ := paged_postSend left
      (fun request member => pages_buildable asserted request (mem_of_mem_drop member)) none_ taken
    obtain ⟨⟨more, others, later⟩, moves, -⟩ := postSend_advanced left none_ sent
    rw [if_neg none_, sent]
    refine ⟨_, rfl, ⟨?_, ?_, ?_⟩, ?_⟩
    · rw [more, counted, length_append]
    · rw [map_append, listed, others, length_append, take_add]
    · rw [length_append, ← drop_drop]
      exact later
    · rw [length_append]
      split
      next some_ =>
        have positive := moves some_
        omega
      next => omega

theorem InOrder.runs {op : PagedWriteOp} {posts : Posts} (asserted : (WriteOp.paged op).Asserted)
    (inOrder : InOrder op rmaQp posts) (answers : List Nat) :
    ∃ final, runs Posts.post posts answers = some final ∧ InOrder op rmaQp final ∧
        min (pageRequests op rmaQp).length (posts.accepted.length + answers.countP (0 < ·)) ≤
          final.accepted.length := by
  induction answers generalizing posts with
  | nil => exact ⟨posts, rfl, inOrder, Nat.min_le_right ..⟩
  | cons taken answers ih =>
    obtain ⟨next, posted, after, moves⟩ := inOrder.post asserted taken
    obtain ⟨final, ran, last, further⟩ := ih after
    refine ⟨final, by rw [runs_cons, posted]; exact ran, last, ?_⟩
    rw [countP_cons]
    simp only [decide_eq_true_eq]
    omega

/-- Whatever the device takes, it finds a chain of as many different places as the iterator
says, and it is given every page once and in order. -/
theorem pages_posted_once (op : PagedWriteOp) (rmaQp : Qp)
    (asserted : op.pageIndicesBeg < op.pageIndicesEnd ∧
      op.srcPageIndices.length = op.dstPageIndices.length ∧
      op.pageIndicesEnd ≤ op.srcPageIndices.length) (transferId : TransferId) (msgBuf : Nat) :
    ∃ first, PagedWriteOpIter.new op rmaQp = some first ∧ ∀ answers : List Nat,
      ∃ final, runs Posts.post (.start transferId (.paged first) msgBuf) answers = some final ∧
        (final.context.rdmaOpIter.peek.wrLen ≠ 0 → ∃ places,
          Chain.visit (readWr final.context.rdmaOpIter.wrChainBuffer) wrChainLen
            (some final.context.rdmaOpIter.head) = some places ∧
            places.Nodup ∧ places.length = final.context.rdmaOpIter.peek.wrLen) ∧
        final.context.cntPostedOps = final.accepted.length ∧
        final.accepted.map some = (pageRequests op rmaQp).take final.accepted.length ∧
        (final.context.rdmaOpIter.peek.wrLen = 0 →
          final.accepted.map some = pageRequests op rmaQp) ∧
        min (pageRequests op rmaQp).length (answers.countP (0 < ·)) ≤ final.accepted.length := by
  obtain ⟨iter, new⟩ := new_goes (show RdmaOp.Asserted (.write (.paged op) rmaQp) from asserted) (pages_buildable asserted)
  obtain ⟨first, made, rfl⟩ := map_eq_some_iff.mp new
  refine ⟨first, made, fun answers => ?_⟩
  have start : InOrder op rmaQp (.start transferId (.paged first) msgBuf) := ⟨rfl, rfl, left_new new⟩
  obtain ⟨final, ran, ⟨counted, taken, left⟩, moves⟩ := start.runs asserted answers
  refine ⟨final, ran, fun more => ?_, counted, taken, fun none_ => ?_, ?_⟩
  · obtain ⟨chain, shows_⟩ := left_shows left more
    exact ⟨_, shows_.linked.visit shows_.short, shows_.distinct, by rw [length_map, shows_.whole]⟩
  · rw [taken]
    exact take_of_length_le (drop_eq_nil_iff.mp ((left_more left).mp none_))
  · rwa [show (Posts.start transferId (.paged first) msgBuf).accepted.length = 0 from rfl, Nat.zero_add] at moves

def sixPages : PagedWriteOp where
  srcPageIndices := [0, 1, 2, 3, 4, 5]
  dstPageIndices := [5, 4, 3, 2, 1, 0]
  pageIndicesBeg := 0
  pageIndicesEnd := 6
  length := 64
  srcPtr := 1000
  srcDesc := 1
  srcStride := 64
  srcOffset := 0
  dstPtr := 2000
  dstRkey := 2
  dstStride := 64
  dstOffset := 0
  immData := none

/-- Six pages, of which the device takes two, none, three and then the last. -/
theorem pages_posted_once_six : ∃ first final, PagedWriteOpIter.new sixPages 1 = some first ∧
    runs Posts.post (.start 7 (.paged first) 0) [2, 0, 3, 4] = some final ∧
    final.accepted.map some = (pageRequests sixPages 1).take final.accepted.length := by
  obtain ⟨first, made, posts⟩ := pages_posted_once sixPages 1 (by decide) 7 0
  obtain ⟨final, ran, -, -, taken, -⟩ := posts [2, 0, 3, 4]
  exact ⟨first, final, made, ran, taken⟩

/-- Pages are left as they are when the device takes none of them. -/
theorem progress_handled_pages : ∃ iter, WriteOpIter.new (.write (.paged sixPages) 1) = some iter ∧
    Handled (.write (.paged sixPages) 1) (Posts.start 7 iter 0).context fun _ => 0 :=
  ⟨_, rfl, (progress_handled_iff _ _ (.new rfl) _).mpr (Or.inr (Or.inl fun single => single))⟩

def oneWrite : RdmaOp Qp := .write (.single ⟨1000, 1, 0, 64, none, 2000, 2, 0⟩) 1

def twoTargets : RdmaOp Qp :=
  .scatter ⟨0, 1000, 1, none, [⟨⟨2000, [(10, 2)]⟩, 64, 0, 0⟩, ⟨⟨3000, [(11, 3)]⟩, 64, 0, 0⟩], 0, 2, 1, 0⟩ [1, 2]

/-- The device has no room for a single write, or for the second target of a scatter. -/
theorem full_queue_panics :
    (∃ iter, WriteOpIter.new oneWrite = some iter ∧
      progressRdmaWriteOpContext (fun _ => 0) (Posts.start 7 iter 0).context = none) ∧
      ∃ iter, WriteOpIter.new twoTargets = some iter ∧
        progressRdmaWriteOpContext (fun k => if k = 0 then 1 else 0)
          (Posts.start 7 iter 0).context = none :=
  ⟨⟨_, rfl, rfl⟩, _, rfl, rfl⟩

end

end PplxGarden.Fabric.Verbs
