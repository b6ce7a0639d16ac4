import PplxGarden.Fabric.WriteOps
import PplxGarden.Library.Chain

/-! Posting through Verbs, with the pointers of the chain. The device follows `next` from
the head; when it is busy it says which request it did not take, and the code counts the
requests before that one. -/

namespace PplxGarden.Fabric.Verbs
open Library

/-- The buffer of an iterator: only pages are chained, the others use the first place. -/
def WriteOpIter.wrChainBuffer : WriteOpIter → WrChainBuffer
  | .single iter => fun place => if place.val = 0 then some ⟨iter.wr, none⟩ else none
  | .paged iter => iter.wrChainBuffer
  | .scatter iter => fun place => if place.val = 0 then some ⟨iter.wr, none⟩ else none

def WriteOpIter.head : WriteOpIter → Fin wrChainLen
  | .paged iter => iter.iWrHead
  | _ => 0

def readWr (buf : WrChainBuffer) (place : Fin wrChainLen) : Option (WorkRequest × Option (Fin wrChainLen)) :=
  (buf place).map fun wr => (wr.toWorkRequest, wr.next)

/-- The requests that the device takes, when it has room for `taken` of them, and
`bad_wr`: the first that it does not take. -/
def ibvPostSend (buf : WrChainBuffer) (wr : Fin wrChainLen) (taken : Nat) : Option (List WorkRequest × Option (Fin wrChainLen)) :=
  Chain.takeItems (readWr buf) taken (some wr)

/-- One round of the loop in `progress_rdma_write_op_context`: the context, the requests
that were taken and whether these were all. -/
def postSend (context : Provider.WriteOpContext WriteOpIter) (taken : Nat) :
    Option (Provider.WriteOpContext WriteOpIter × List (Qp × WorkRequest) × Bool) := do
  let iter := context.rdmaOpIter
  let (accepted, badWr) ← ibvPostSend iter.wrChainBuffer iter.head taken
  let cnt ← match badWr with
    | none => some iter.peek.wrLen
    -- `while cur != bad_wr`: following `next` any further than the chain is long never ends.
    | some badWr => Chain.distance (readWr iter.wrChainBuffer) badWr wrChainLen (some iter.head)
  let next ← iter.advance cnt
  return ({ context with rdmaOpIter := next, cntPostedOps := context.cntPostedOps + cnt }, accepted.map (iter.peek.qp, ·), badWr.isNone)

/-- The loop; `answers` are the numbers of requests that the device has room for. -/
def postLoop : Nat → (Nat → Nat) → Provider.WriteOpContext WriteOpIter →
    Option (Provider.WriteOpContext WriteOpIter × List (Qp × WorkRequest))
  | 0, _, _ => none
  | rounds + 1, answers, context =>
    if context.rdmaOpIter.peek.wrLen = 0 then some (context, [])
    else do
      let (next, accepted, whole) ← postSend context (answers 0)
      if whole then
        let (last, more) ← postLoop rounds (fun k => answers (k + 1)) next
        return (last, accepted ++ more)
      else return (next, accepted)

/-- Every round but the last posts at least one request. -/
def progressRdmaWriteOpContext (answers : Nat → Nat) (context : Provider.WriteOpContext WriteOpIter) :
    Option (Provider.WriteOpContext WriteOpIter × List (Qp × WorkRequest)) :=
  if context.bad then some (context, []) else postLoop (context.rdmaOpIter.totalOps + 1) answers context

structure Posts where
  context : Provider.WriteOpContext WriteOpIter
  accepted : List (Qp × WorkRequest)

def Posts.post (posts : Posts) (taken : Nat) : Option Posts :=
  if posts.context.rdmaOpIter.peek.wrLen = 0 then some posts
  else (postSend posts.context taken).map fun (context, accepted, _) => ⟨context, posts.accepted ++ accepted⟩

def Posts.start (transferId : TransferId) (iter : WriteOpIter) (msgBuf : Nat) : Posts where
  context := {
    transferId
    rdmaOpIter := iter
    msgBuf
    totalOps := iter.totalOps
    cntPostedOps := 0
    cntFinishedOps := 0
    inQueue := false
    bad := false }
  accepted := []

end PplxGarden.Fabric.Verbs
