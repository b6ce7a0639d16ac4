import Mathlib.Data.List.Infix
import PplxGarden.Fabric.WriteOps
import PplxGarden.Proofs.Requests

/-! What the posting loops do: whatever the device takes, the requests of an operation
are posted in order and counted as they are posted. -/

namespace PplxGarden.Fabric
open Library Cursor List Option
variable {iter : WriteOpIter} {op : RdmaOp Qp} {rest : List (Option (Qp × WorkRequest))}

namespace Provider

variable {ω ι ρ : Type}

/-- A posting loop posts and counts the next requests of an iterator; what the device
refuses are the ones after these. -/
def PostsNext (post : ι → Nat → Option (Posting ι ρ)) (left : ι → List (Option ρ) → Prop) : Prop :=
  ∀ {iter rest room posting}, left iter rest → post iter room = some posting → posting.count = posting.posted.length ∧
    ∃ later, rest = posting.posted.map some ++ later ∧ left posting.iter later ∧ posting.refused.map some <+: later

/-- What the domain may rely on for the operations it is given: `left op iter rest`
says that an iterator of an operation has the requests `rest` still to hand out. -/
structure Lawful (provider : Provider ω ι ρ) (requests : ω → List (Option ρ)) (left : ω → ι → List (Option ρ) → Prop)
    (given : ω → Prop) : Prop where
  starts : ∀ {op iter}, given op → provider.construct op = some iter → left op iter (requests op)
  total : ∀ {op iter}, provider.construct op = some iter → provider.totalOps iter = (requests op).length
  nonempty : ∀ {op iter}, provider.construct op = some iter → requests op ≠ []
  eager : ∀ op, PostsNext provider.eager (left op)
  progress : ∀ op, PostsNext provider.progress (left op)

theorem Lawful.given {provider : Provider ω ι ρ} {requests : ω → List (Option ρ)}
    {left : ω → ι → List (Option ρ) → Prop} (lawful : Lawful provider requests left fun _ => True)
    {given kept : ω → Prop}
    (keeps : ∀ {op iter}, given op → provider.construct op = some iter → kept op) :
    Lawful provider requests (fun op iter rest => kept op ∧ left op iter rest) given where
  starts holds made := ⟨keeps holds made, lawful.starts trivial made⟩
  total := lawful.total
  nonempty := lawful.nonempty
  eager op {iter rest room posting} both posted := by
    obtain ⟨counted, later, same, after, refused⟩ := lawful.eager op both.2 posted
    exact ⟨counted, later, same, ⟨both.1, after⟩, refused⟩
  progress op {iter rest room posting} both posted := by
    obtain ⟨counted, later, same, after, refused⟩ := lawful.progress op both.2 posted
    exact ⟨counted, later, same, ⟨both.1, after⟩, refused⟩

end Provider

namespace Efa
open Provider

theorem post_next (maxSubmit : Nat) (op : RdmaOp FiAddr) :
    PostsNext (fun iter room => post maxSubmit room iter) (Left op) := by
  intro iter rest room posting left posted
  induction maxSubmit generalizing iter rest room posting with
  | zero =>
    cases posted
    exact ⟨rfl, rest, rfl, left, nil_prefix⟩
  | succ maxSubmit ih =>
    have shown := (left_reads op).shows left
    simp only [post] at posted
    split at posted
    next ended =>
      cases posted
      exact ⟨rfl, rest, rfl, left, nil_prefix⟩
    next msg peeked =>
      cases posted
      have one : cursor.peek iter = [msg] := by simp only [cursor, peeked, Option.toList]
      rw [one] at shown
      exact ⟨rfl, rest, rfl, left, shown⟩
    next msg room peeked =>
      simp only [bind_eq_bind, bind_eq_some_iff] at posted
      obtain ⟨next, advanced, others, continued, built⟩ := posted
      cases built
      have one : cursor.peek iter = [msg] := by simp only [cursor, peeked, Option.toList]
      have moved := (left_reads op).moves left (show 1 ≤
        (cursor.peek iter).length by rw [one]; exact Nat.le_refl 1) advanced
      obtain ⟨counted, later, same, after⟩ := ih moved continued
      rw [one] at shown
      obtain ⟨more, rfl⟩ := shown
      exact ⟨by rw [counted]; rfl, later, congrArg (List.cons (some msg)) same, after⟩

theorem requests_length {op : RdmaOp FiAddr} (made : WriteOpIter.new op = some iter) :
    iter.totalOps = (requests op).length := by
  have asserted := asserted_of_new made
  rw [new_eq op asserted] at made
  cases op with
  | write op addr =>
    cases op with
    | single op =>
      cases made
      rfl
    | imm op =>
      cases made
      rfl
    | paged op =>
      obtain ⟨pages, found, rfl⟩ := map_eq_some_iff.mp made
      simp [requests, pagedAt, WriteOpIter.totalOps, PagedWriteOpIter.totalOps, PagedWriteOpIter.template]
  | scatter op addrs =>
    obtain ⟨part, found, rfl⟩ := map_eq_some_iff.mp made
    simp [requests, scatterAt, WriteOpIter.totalOps, ScatterWriteOpIter.totalOps, ScatterWriteOpIter.template]

theorem requests_nonempty {op : RdmaOp FiAddr} (asserted : op.Asserted) : requests op ≠ [] := by
  apply ne_nil_of_length_pos
  cases op with
  | write op addr =>
    cases op with
    | single op => exact Nat.zero_lt_one
    | imm op => exact Nat.zero_lt_one
    | paged op => simpa [requests] using Nat.sub_pos_of_lt asserted.1
  | scatter op addrs => simpa [requests] using Nat.sub_pos_of_lt asserted.1

theorem lawful : Lawful provider requests Left fun _ => True where
  starts _ := left_new
  total := requests_length
  nonempty made := requests_nonempty (asserted_of_new made)
  eager := post_next 1
  progress := post_next 32

end Efa

def RdmaOp.dests {δ : Type} : RdmaOp δ → List δ
  | .write _ dest => [dest]
  | .scatter _ dests => dests

namespace Verbs
open Provider

def Batch.Whole (batch : Batch) : Prop := ∃ chain, batch.chain = some chain ∧ chain.length = batch.wrLen

private theorem single_batch (iter : SingleWriteOpIter) : iter.peek.Whole := by
  unfold SingleWriteOpIter.peek
  split
  next => exact ⟨[], rfl, rfl⟩
  next => exact ⟨[iter.wr], rfl, rfl⟩

private theorem scatter_batch (iter : ScatterWriteOpIter) : iter.peek.Whole := by
  unfold ScatterWriteOpIter.peek
  split
  next => exact ⟨[], rfl, rfl⟩
  next => exact ⟨[iter.wr], rfl, rfl⟩

private theorem paged_batch {op : PagedWriteOp} {rmaQp : Qp} {buf : WrChainBuffer}
    {taken held : Nat} (ring : Ring op buf taken held) :
    (ringAt op rmaQp buf taken held).peek.Whole := by
  unfold PagedWriteOpIter.peek
  split
  next => exact ⟨[], rfl, rfl⟩
  next some_ =>
    have positive : 0 < held := Nat.pos_of_ne_zero some_
    obtain ⟨requests, chained, same⟩ := ring.linked positive (Nat.le_refl held) ring.short
    rw [Nat.add_sub_cancel] at chained
    have size := congrArg List.length same
    rw [length_map, length_map, length_range'] at size
    exact ⟨requests, chained, size.symm⟩

theorem left_batch (left : Left op iter rest) :
    iter.peek.Whole := by
  cases op with
  | write op rmaQp =>
    cases op with
    | single op =>
      obtain ⟨_, _⟩ := left
      exact single_batch _
    | imm op =>
      obtain ⟨_, _⟩ := left
      exact single_batch _
    | paged op =>
      obtain ⟨ring⟩ := left
      exact paged_batch ring
  | scatter op qpList =>
    obtain ⟨_, _⟩ := left
    exact scatter_batch _

theorem post_next (op : RdmaOp Qp) (rounds : Nat) {room : Nat}
    {posting : Posting WriteOpIter (Qp × WorkRequest)} (left : Left op iter rest)
    (posted : post rounds room iter = some posting) :
    posting.count = posting.posted.length ∧
      ∃ later, rest = posting.posted.map some ++ later ∧ Left op posting.iter later ∧
        posting.refused.map some <+: later := by
  induction rounds generalizing iter rest room posting with
  | zero =>
    cases posted
    exact ⟨rfl, rest, rfl, left, nil_prefix⟩
  | succ rounds ih =>
    rw [post] at posted
    split at posted
    next ended =>
      cases posted
      exact ⟨rfl, rest, rfl, left, nil_prefix⟩
    next more =>
      obtain ⟨chain, found, size⟩ := left_batch left
      have shown : cursor.peek iter = chain.map (iter.peek.qp, ·) := by simp only [cursor, Batch.requests, found, getD_some]
      simp only [found, bind_eq_bind, bind_some] at posted
      split at posted
      next fits =>
        simp only [bind_eq_some_iff] at posted
        obtain ⟨next, advanced, others, continued, built⟩ := posted
        cases built
        have whole : iter.peek.wrLen = (cursor.peek iter).length := by rw [shown, length_map, size]
        rw [whole] at advanced
        have moved := (left_reads op).moves left (Nat.le_refl _) advanced
        obtain ⟨counted, later, same, after⟩ := ih moved continued
        refine ⟨by simp [counted, size], later, ?_, after⟩
        have first := (left_reads op).take_shown left (Nat.le_refl _)
        rw [take_length] at first
        rw [map_append, ← shown, append_assoc, ← same, ← first, take_append_drop]
      next busy =>
        simp only [bind_eq_some_iff] at posted
        obtain ⟨next, advanced, built⟩ := posted
        cases built
        have short : room ≤ (cursor.peek iter).length := by
          rw [shown, length_map]
          omega
        refine ⟨by simp; omega, rest.drop room, ?_, (left_reads op).moves left short advanced, ?_⟩
        · rw [← shown, ← (left_reads op).take_shown left short, take_append_drop]
        · rw [← shown, map_drop]
          exact IsPrefix.drop ((left_reads op).shows left) room

theorem left_totalOps (left : Left op iter rest) :
    iter.totalOps = (requests op).length := by
  cases op with
  | write op rmaQp =>
    cases op with
    | single op =>
      obtain ⟨_, _⟩ := left
      rfl
    | imm op =>
      obtain ⟨_, _⟩ := left
      rfl
    | paged op =>
      obtain ⟨ring⟩ := left
      simp [requests, ringAt, WriteOpIter.totalOps, PagedWriteOpIter.totalOps, PagedWriteOpIter.template, numPages]
  | scatter op qpList =>
    obtain ⟨_, _⟩ := left
    simp [requests, scatterAt, WriteOpIter.totalOps, ScatterWriteOpIter.totalOps, ScatterWriteOpIter.template]

theorem requests_nonempty (asserted : op.Asserted) : requests op ≠ [] := by
  apply ne_nil_of_length_pos
  cases op with
  | write op rmaQp =>
    cases op with
    | single op => exact Nat.zero_lt_one
    | imm op => exact Nat.zero_lt_one
    | paged op => simpa [requests, numPages] using Nat.sub_pos_of_lt asserted.1
  | scatter op qpList => simpa [requests] using Nat.sub_pos_of_lt asserted.1

theorem lawful : Lawful provider requests Left fun _ => True where
  starts _ := left_new
  total made := left_totalOps (left_new made)
  nonempty made := requests_nonempty (asserted_of_new made)
  eager op := post_next op _
  progress op := post_next op _

theorem left_dest (asserted : op.Asserted)
    (left : Left op iter rest) {request : Qp × WorkRequest} (member : some request ∈ rest) : request.1 ∈ op.dests := by
  cases op with
  | write op rmaQp =>
    have same : request.1 = rmaQp := by
      cases op with
      | single op =>
        obtain ⟨_, _⟩ := left
        obtain ⟨_, _, built⟩ := List.mem_map.mp member
        cases built
        rfl
      | imm op =>
        obtain ⟨_, _⟩ := left
        obtain ⟨_, _, built⟩ := List.mem_map.mp member
        cases built
        rfl
      | paged op =>
        obtain ⟨ring⟩ := left
        obtain ⟨_, _, built⟩ := List.mem_map.mp member
        obtain ⟨_, _, rfl⟩ := map_eq_some_iff.mp built
        rfl
    rw [same]
    exact mem_singleton_self _
  | scatter op qpList =>
    obtain @⟨first, _, _, _⟩ := left
    obtain ⟨i, inside, built⟩ := List.mem_map.mp member
    obtain ⟨_, _, rfl⟩ := map_eq_some_iff.mp built
    have bound := mem_range'_1.mp inside
    have fits := asserted.2
    show qpList.getD i 0 ∈ qpList
    have inRange : i < qpList.length := by omega
    rw [getD_eq_getElem?_getD, List.getElem?_eq_getElem inRange]
    exact List.getElem_mem inRange

/-- What an iterator still posts, for operations on certain queue pairs. -/
def LeftOn (good : Qp → Prop) (op : RdmaOp Qp) (iter : WriteOpIter) (rest : List (Option (Qp × WorkRequest))) : Prop :=
  ((∀ qp ∈ op.dests, good qp) ∧ op.Asserted) ∧ Left op iter rest

theorem lawful_on (good : Qp → Prop) : Lawful provider requests (LeftOn good) fun op => ∀ qp ∈ op.dests, good qp :=
  lawful.given fun allowed made => ⟨allowed, asserted_of_new made⟩

theorem LeftOn.dest {good : Qp → Prop}
    (left : LeftOn good op iter rest) {request : Qp × WorkRequest} (member : some request ∈ rest) : good request.1 :=
  left.1.1 _ (left_dest left.1.2 left.2 member)

end Verbs

end PplxGarden.Fabric
