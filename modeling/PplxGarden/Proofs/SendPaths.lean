import PplxGarden.AllToAll.SendPaths
import PplxGarden.Proofs.RoutePhase

/-! The three paths of `dispatch_send` side by side. The path for fixed token dimensions does
not check that a peer has the sender's index in its DP group. -/

namespace PplxGarden.AllToAll.Proofs
open Library List
variable {first : TokenStore}

section
variable (cfg : Config) (rank : Nat) (routes : Nat → Nat → ExpertAndOffset) (numExpertsPerToken grid numSendTokens : Nat)

/-- The receiver has the index of the sender in its DP group. -/
def SameIndex (route : ExpertAndOffset) : Prop := route.expert / cfg.expertsPerRank % cfg.dpSize = rank % cfg.dpSize

/-- A store for one of the routes: those over NVLink are made for the receivers that a
path serves. -/
def StoredFor (serves : ExpertAndOffset → Prop) (store : TokenStore) : Prop :=
  ∃ token e, token < numSendTokens ∧ e < numExpertsPerToken ∧
    ((ViaNvlink cfg rank (routes token e) ∧ serves (routes token e) ∧ store = recvStore cfg rank token (routes token e)) ∨
      (¬ ViaNvlink cfg rank (routes token e) ∧ store = sendStore rank token (routes token e)))

/-- The three paths store the same tokens to the same slots. -/
structure SameStores : Prop where
  fixed_dynamic : ∀ store, store ∈ fixedStores cfg rank routes numExpertsPerToken grid numSendTokens ↔
    store ∈ dynamicStores cfg rank routes numExpertsPerToken grid numSendTokens
  dynamic_generic : ∀ store, store ∈ dynamicStores cfg rank routes numExpertsPerToken grid numSendTokens ↔
    store ∈ genericStores cfg rank routes numExpertsPerToken grid numSendTokens

end

section
variable {cfg : Config} {rank : Nat} {routes : Nat → Nat → ExpertAndOffset} {numExpertsPerToken grid numSendTokens : Nat} {store : TokenStore}

private theorem quickStores_mem (fits : numSendTokens ≤ grid) {path : Nat → List TokenStore} :
    store ∈ quickStores grid numSendTokens path ↔ ∃ token, token < numSendTokens ∧ store ∈ path token := by
  simp only [quickStores, mem_flatMap, mem_range]
  constructor
  · rintro ⟨token, _, member⟩
    split at member
    next sent => exact ⟨token, sent, member⟩
    next => cases member
  · rintro ⟨token, sent, member⟩
    exact ⟨token, sent.trans_le fits, by rw [if_pos sent]; exact member⟩

private theorem nested_mem {near same : Prop} [Decidable near] [Decidable same]
    {second : TokenStore} :
    store ∈ (if near then if same then [first] else [] else [second]) ↔
      (near ∧ same ∧ store = first) ∨ (¬ near ∧ store = second) := by
  by_cases left : near
  · by_cases right : same
    · simp [left, right]
    · simp [left, right]
  · simp [left]

theorem dynamicStores_mem (fits : numSendTokens ≤ grid) :
    store ∈ dynamicStores cfg rank routes numExpertsPerToken grid numSendTokens ↔
      StoredFor cfg rank routes numExpertsPerToken numSendTokens (SameIndex cfg rank) store := by
  rw [dynamicStores, quickStores_mem fits]
  simp only [quickDynamic, mem_flatMap, mem_range, nested_mem, ← exists_and_left]
  rfl

private theorem single_mem {chosen : Prop} [Decidable chosen] :
    store ∈ (if chosen then [first] else []) ↔ chosen ∧ store = first := by
  by_cases taken : chosen
  · simp [taken]
  · simp [taken]

private theorem skipped_mem {passed : Prop} [Decidable passed] :
    store ∈ (if passed then [] else [first]) ↔ ¬ passed ∧ store = first := by
  by_cases taken : passed
  · simp [taken]
  · simp [taken]

private theorem guarded_mem {near same : Prop} [Decidable near] [Decidable same] :
    store ∈ (if near then if same then [first] else [] else []) ↔ near ∧ same ∧ store = first := by
  by_cases left : near
  · rw [if_pos left, single_mem]
    simp [left]
  · simp [left]

private theorem not_viaNvlink (route : ExpertAndOffset) :
    (route.expert / cfg.expertsPerRank / cfg.nodeSize ≠ rank / cfg.nodeSize ∨
      route.expert / cfg.expertsPerRank = rank ∨
      cfg.maxPrivateTokens ≤ route.offset) ↔ ¬ ViaNvlink cfg rank route := by
  simp only [ViaNvlink]
  rw [not_and_or, not_and_or, not_not, Nat.not_lt]

private theorem fixedStores_mem (fits : numSendTokens ≤ grid) :
    store ∈ fixedStores cfg rank routes numExpertsPerToken grid numSendTokens ↔
      StoredFor cfg rank routes numExpertsPerToken numSendTokens (fun _ => True) store := by
  rw [fixedStores, quickStores_mem fits]
  simp only [quickFixed, mem_append, mem_flatMap, mem_range, single_mem, not_viaNvlink, ← exists_or,
    ← exists_and_left, ← and_or_left,
    StoredFor, true_and]
  apply exists_congr
  intro token
  apply exists_congr
  intro e
  rw [or_comm]
  rfl

theorem genericStores_mem (fits : numSendTokens ≤ grid) :
    store ∈ genericStores cfg rank routes numExpertsPerToken grid numSendTokens ↔
      StoredFor cfg rank routes numExpertsPerToken numSendTokens (SameIndex cfg rank) store := by
  have blocks : store ∈ genericStores cfg rank routes numExpertsPerToken grid numSendTokens ↔
      ∃ token, token < numSendTokens ∧ store ∈ sendTokens cfg rank routes numExpertsPerToken [token] := by
    simp only [genericStores, sendTokens, blockTokens, mem_flatMap, mem_append, mem_range, mem_filter, decide_eq_true_eq,
      mem_singleton]
    constructor
    · rintro ⟨block, _, ⟨token, ⟨sent, _⟩, stored⟩ | ⟨token, ⟨sent, _⟩, stored⟩⟩
      · exact ⟨token, sent, Or.inl ⟨token, rfl, stored⟩⟩
      · exact ⟨token, sent, Or.inr ⟨token, rfl, stored⟩⟩
    · rintro ⟨token, sent, ⟨_, rfl, stored⟩ | ⟨_, rfl, stored⟩⟩
      · exact ⟨_, sent.trans_le fits, Or.inl ⟨_, ⟨sent, Nat.mod_eq_of_lt (sent.trans_le fits)⟩, stored⟩⟩
      · exact ⟨_, sent.trans_le fits, Or.inr ⟨_, ⟨sent, Nat.mod_eq_of_lt (sent.trans_le fits)⟩, stored⟩⟩
  rw [blocks]
  simp only [sendTokens, flatMap_cons, flatMap_nil, append_nil, mem_append, mem_flatMap, mem_range, skipped_mem,
    guarded_mem, ← exists_or, ← exists_and_left, ← and_or_left, StoredFor]
  apply exists_congr
  intro token
  apply exists_congr
  intro e
  rw [or_comm]
  rfl

/-- The paths agree exactly if every copy over NVLink is for a rank with the sender's
index in its DP group. -/
theorem sameStores_iff (numTokens : Nat) (sent : numSendTokens ≤ numTokens)
    (fits : numTokens ≤ grid) :
    SameStores cfg rank routes numExpertsPerToken grid numSendTokens ↔
      ∀ token e, token < numSendTokens → e < numExpertsPerToken →
        ViaNvlink cfg rank (routes token e) → SameIndex cfg rank (routes token e) := by
  have fits := sent.trans fits
  constructor
  · intro same token e listed chosen near
    have stored := (fixedStores_mem fits).mpr ⟨token, e, listed, chosen, Or.inl ⟨near, trivial, rfl⟩⟩
    obtain ⟨_, _, _, _, served | ⟨_, own⟩⟩ := (dynamicStores_mem fits).mp ((same.fixed_dynamic _).mp stored)
    · obtain ⟨near', index, stores⟩ := served
      simp only [recvStore, TokenStore.mk.injEq, Buffer.recv.injEq, nodePeer_eq near.1, nodePeer_eq near'.1] at stores
      rw [SameIndex, stores.1]
      exact index
    · cases own
  · intro indices
    refine ⟨fun store => ?_, fun store => by rw [dynamicStores_mem fits, genericStores_mem fits]⟩
    rw [fixedStores_mem fits, dynamicStores_mem fits]
    constructor
    · rintro ⟨token, e, listed, chosen, ⟨near, _, stores⟩ | own⟩
      · exact ⟨token, e, listed, chosen, Or.inl ⟨near, indices token e listed chosen near, stores⟩⟩
      · exact ⟨token, e, listed, chosen, Or.inr own⟩
    · rintro ⟨token, e, listed, chosen, ⟨near, _, stores⟩ | own⟩
      · exact ⟨token, e, listed, chosen, Or.inl ⟨near, trivial, stores⟩⟩
      · exact ⟨token, e, listed, chosen, Or.inr own⟩

end

/-- Every rank counts its routes in their order. -/
def countedInOrder {cfg : Config} (batch : Batch cfg) : Orders batch where
  order rank := List.range (batch.numRoutes (dpGroup cfg rank))
  perm _ := Perm.refl _

theorem sameStores_three :
    SameStores (paddedRanks 4 (Nat.succ_pos 3)) 1
      (routesOf (countedInOrder (firstExpertOnly 3 (by decide))) 1) 1 4 3 := by
  apply (sameStores_iff 3 (by decide) (by decide)).mpr
  intro token e _ _ _
  exact (Nat.mod_one _).trans (Nat.mod_one _).symm

/-- The second rank of a DP group also stores its token to the first one, if the token
dimension is a fixed one. -/
theorem fixed_path_differs : ¬ SameStores siblings 1 (routesOf (countedInOrder sameExpert) 1) 1 2 2 := by
  intro same
  have stored := (same.fixed_dynamic ⟨.recv 0, 0, 0⟩).mp (by decide)
  exact absurd stored (by decide)

end PplxGarden.AllToAll.Proofs
