import PplxGarden.Proofs.Waiting
import PplxGarden.Proofs.Established

/-! What a failed call leaves behind. A connection that fails after its peer was entered
leaves the operation with the peer, and a group write leaves its peers a context that was
never written. -/

namespace PplxGarden.Fabric.Verbs
open Library VerbsDomain

/-- No call that was refused is submitted as well, and no peer holds a context that was
not written or was given back. Calls are counted by their transfer and operation: of those
that agree in both, as many are submitted and refused together as were made. -/
structure Undamaged {υ : Type} (state : VerbsDomain υ) : Prop where
  refused : ∀ item, (state.history.submitted.map (·.2)).count item +
    state.history.refused.count item ≤ state.history.asked.count item
  contexts : ∀ addr peer, state.peers.lookup addr = some peer →
    ∀ ptr ∈ peer.state.contexts, (state.objpoolPendingGroupWriteOp.read ptr).isSome

/-- Where no two calls agree in transfer and operation, a refused call is not submitted. -/
theorem Undamaged.apart {υ : Type} {state : VerbsDomain υ} (undamaged : Undamaged state)
    (distinct : state.history.asked.Nodup) {item : TransferId × Operation}
    (refused : item ∈ state.history.refused) : item ∉ state.history.submitted.map (·.2) := by
  intro submitted
  have bound := undamaged.refused item
  have once := List.nodup_iff_count_le_one.mp distinct item
  have one := List.count_pos_iff.mpr refused
  have other := List.count_pos_iff.mpr submitted
  omega

theorem VerbsDomain.Orderly.undamaged {υ : Type} {state : VerbsDomain υ}
    (orderly : Orderly [] state) : Undamaged state where
  refused := orderly.ledger.disjoint
  contexts addr peer found ptr member := by
    have waits := orderly.pointers.waits addr peer found ptr member
    unfold VerbsDomain.awaited at waits
    split at waits
    next context held => rw [held]; rfl
    next => cases waits

theorem careful_undamaged {υ : Type} (addressing : Addressing υ) (udAddr : υ)
    (actions : List (Action υ)) (state : VerbsDomain υ)
    (reached : runs (restrict (fire addressing) (Careful addressing)) (.new udAddr) actions =
      some state) : Undamaged state := by
  have orderly : Orderly [] state := by
    refine runs_invariant (Orderly.new udAddr) (fun before action after orderly fired => ?_) reached
    obtain ⟨careful, fired⟩ := restrict_eq_some.mp fired
    exact fire_orderly orderly careful fired
  exact orderly.undamaged

def immTo : OutboundOp := .write (.imm ⟨3, 5000, 9⟩)

def scatterToBoth (first second : DomainAddress) : ScatterGroupWriteOp :=
  { scatterTo first with
    dsts := [⟨⟨5000, [(first, 9)]⟩, 16, 0, 0⟩, ⟨⟨6000, [(second, 9)]⟩, 16, 0, 0⟩]
    dstEnd := 2 }

/-- The message buffer is not there; the peer connects later from its side. -/
def writeRefused : List (Action Nat) :=
  [.submit 1 5 immTo { plainSupply with failure := some .alloc } (fun _ => 8),
    .handshake ⟨5, 80, 123, 81, 456⟩ plainSupply [] (fun _ => 8)]

def scatterRefused : List (Action Nat) :=
  [.submitGroupWrite 1 none (scatterToBoth 5 6) (fun addr => if addr = 6 then
    { plainSupply with failure := some .alloc } else plainSupply) (fun _ => 8)]

theorem refused_left_behind :
    (∃ state, runs (fire plainAddressing) (.new 0) writeRefused = some state ∧
      state.history.asked = [(1, .outbound immTo)] ∧
        state.history.refused = [(1, .outbound immTo)] ∧ state.history.posts = [(1, true)] ∧
      ¬ Undamaged state) ∧
    ∃ state, runs (fire plainAddressing) (.new 0) scatterRefused = some state ∧
      ¬ Undamaged state := by
  have posted : (runs (fire plainAddressing) (.new 0) writeRefused).any fun state =>
    decide (state.history.asked = [(1, .outbound immTo)] ∧
      state.history.refused = [(1, .outbound immTo)] ∧ state.history.posts = [(1, true)] ∧
      state.history.submitted = [(.peer 5, 1, .outbound immTo)]) := by decide +kernel
  have blank : (runs (fire plainAddressing) (.new 0) scatterRefused).any fun state =>
      (state.peers.lookup 5).any (fun peer => decide (peer.state.contexts = [0])) &&
        (state.objpoolPendingGroupWriteOp.read 0).isNone := by
    decide +kernel
  constructor
  · obtain ⟨state, reached, holds⟩ := (Option.any_eq_true ..).mp posted
    obtain ⟨asked, refused, posts, submitted⟩ := of_decide_eq_true holds
    refine ⟨state, reached, asked, refused, posts, fun undamaged => ?_⟩
    have bound := undamaged.refused (1, .outbound immTo)
    rw [asked, refused, submitted] at bound
    simp at bound
  · obtain ⟨state, reached, holds⟩ := (Option.any_eq_true ..).mp blank
    rw [Bool.and_eq_true] at holds
    obtain ⟨peer, found, contexts⟩ := (Option.any_eq_true ..).mp holds.1
    refine ⟨state, reached, fun undamaged => ?_⟩
    have live := undamaged.contexts 5 peer found 0 (by rw [of_decide_eq_true contexts]; exact List.mem_singleton_self _)
    rw [Option.isNone_iff_eq_none.mp holds.2] at live
    cases live

/-- One call is refused before its peer is entered; the scatter waits for two peers and
is submitted when both are there. -/
def scatterCareful : List (Action Nat) :=
  [.submit 1 5 immTo { plainSupply with failure := some (.create (.custom "no queue pair")) } (fun _ => 8),
    .submitGroupWrite 2 none (scatterToBoth 5 6) (fun _ => plainSupply) (fun _ => 8),
    .handshake ⟨5, 80, 123, 81, 456⟩ plainSupply [] (fun _ => 8),
      .handshake ⟨6, 90, 123, 91, 456⟩ plainSupply [] (fun _ => 8)]

theorem careful_undamaged_scatter :
    ∃ state, runs (restrict (fire plainAddressing) (Careful plainAddressing))
      (.new 0) scatterCareful = some state ∧
      state.history.refused = [(1, .outbound immTo)] ∧
        state.history.submitted = [(.context 0, 2, .group (scatterToBoth 5 6))] ∧
        Undamaged state := by
  have submitted : (runs (restrict (fire plainAddressing) (Careful plainAddressing))
    (.new 0) scatterCareful).any fun state =>
      decide (state.history.refused = [(1, .outbound immTo)] ∧
        state.history.submitted = [(.context 0, 2, .group (scatterToBoth 5 6))]) := by
    decide +kernel
  obtain ⟨state, reached, holds⟩ := (Option.any_eq_true ..).mp submitted
  obtain ⟨refused, submitted⟩ := of_decide_eq_true holds
  exact ⟨state, reached, refused, submitted, careful_undamaged plainAddressing 0 _ state reached⟩

end PplxGarden.Fabric.Verbs
