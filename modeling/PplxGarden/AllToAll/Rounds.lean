import PplxGarden.AllToAll.Kernels
import Mathlib.Data.List.Count

/-! A dispatch, the experts and a combine in one round. The first phase of
`dispatch_send` numbers the copies for each expert with an atomic counter, so every
rank has its own order, also within a DP group whose ranks hold the same tokens. -/

namespace PplxGarden.AllToAll
open Library

/-- The tokens of every DP group and the experts chosen for them. A route is a
token together with one of its choices. -/
structure Batch (cfg : Config) where
  numTokens : Nat → Nat
  expertsPerToken : Nat
  indices : Nat → Nat → Nat → Nat
  indices_lt : ∀ group token k, token < numTokens group → k < expertsPerToken → indices group token k < cfg.numExperts
  routes_lt : ∀ group, numTokens group * expertsPerToken < 2 ^ 32

/-- Shared counters of the first block, and the `token_offset` of every route. -/
structure Counting where
  tokensPerExpert : Nat → Nat
  tokenOffset : Nat → Nat

namespace Batch
variable {cfg : Config} (batch : Batch cfg)

def numRoutes (group : Nat) : Nat := batch.numTokens group * batch.expertsPerToken

def tokenOf (route : Nat) : Nat := route / batch.expertsPerToken

def expertOf (group route : Nat) : Nat := batch.indices group (batch.tokenOf route) (route % batch.expertsPerToken)

def countRoute (group : Nat) (counting : Counting) (route : Nat) : Counting :=
  let expert := batch.expertOf group route
  { tokensPerExpert := Function.update counting.tokensPerExpert expert (u32 (counting.tokensPerExpert expert + 1))
    tokenOffset := Function.update counting.tokenOffset route (counting.tokensPerExpert expert) }

/-- The first phase of `dispatch_send`, the additions taking place in a given order. -/
def countRoutes (group : Nat) (order : List Nat) : Counting :=
  order.foldl (batch.countRoute group) { tokensPerExpert := fun _ => 0, tokenOffset := fun _ => 0 }

def routesTo (group expert : Nat) : Nat := (List.range (batch.numRoutes group)).countP fun route => batch.expertOf group route = expert

end Batch

theorem Batch.routesTo_sum {cfg : Config} (batch : Batch cfg) (group numExperts : Nat) :
    ∑ expert ∈ Finset.range numExperts, batch.routesTo group expert < 2 ^ 32 := by
  refine lt_of_le_of_lt ?_ (batch.routes_lt group)
  have counted : ∀ routes : List Nat, ∑ expert ∈ Finset.range numExperts, routes.countP (fun route => batch.expertOf group route = expert) ≤
      routes.length := by
    intro routes
    induction routes with
    | nil => simp
    | cons route routes ih =>
      have one : ∑ expert ∈ Finset.range numExperts, (if batch.expertOf group route = expert then 1 else 0) ≤ 1 := by
        rw [Finset.sum_ite_eq]
        split <;> simp
      simp only [List.countP_cons, decide_eq_true_eq, Finset.sum_add_distrib, List.length_cons]
      omega
  have all := counted (List.range (batch.numRoutes group))
  rwa [List.length_range] at all

/-- The table every rank derives from the counters of the other ranks. -/
def Batch.table {cfg : Config} (batch : Batch cfg) : RoutingTable cfg where
  numRouted := batch.routesTo
  total_lt group := batch.routesTo_sum group cfg.numExperts

structure Orders {cfg : Config} (batch : Batch cfg) where
  order : Nat → List Nat
  perm : ∀ rank, (order rank).Perm (List.range (batch.numRoutes (dpGroup cfg rank)))

structure Token where
  group : Nat
  token : Nat
deriving Repr, DecidableEq

section
variable {cfg : Config} {batch : Batch cfg} (orders : Orders batch)

def tokenOffset (rank route : Nat) : Nat := (batch.countRoutes (dpGroup cfg rank) (orders.order rank)).tokenOffset route

def tokenAt (rank expert offset : Nat) : Token :=
  let route := (List.range (batch.numRoutes (dpGroup cfg rank))).find? fun route =>
    batch.expertOf (dpGroup cfg rank) route = expert ∧ tokenOffset orders rank route = offset
  { group := dpGroup cfg rank, token := batch.tokenOf (route.getD 0) }

end

/-- Stores of `dispatch_recv`: every received token goes to its row of the expert
inputs. The memory of the rows is indexed by rank. -/
def dispatchRecvStores {cfg : Config} (table : RoutingTable cfg) (memory : Memory Buffer ν) (rank : Nat) : Option (List (RangeWrite Nat ν)) := do
  let info ← processRoutingInfo cfg rank table
  info.tokens.zipIdx.mapM fun (entry, t) => do
    let (buffer, slot) ← dispatchRecvSource cfg rank info t
    return {
      buffer := rank
      offset := entry.paddedIndex * cfg.dispatchTokenDim
      length := cfg.dispatchTokenDim
      data := fun byte => memory buffer (slot * cfg.dispatchTokenDim + byte) }

/-- The local expert that owns a row, given the number of tokens of each expert:
the rows of an expert start at the next multiple of the padding. -/
def rowExpert (padding : Nat) : List Nat → Nat → Option Nat
  | [], _ => none
  | count :: counts, row =>
    let rows := ceilDiv count padding * padding
    if row < rows then if row < count then some 0 else none
    else (rowExpert padding counts (row - rows)).map (· + 1)

/-- What an expert computes, kept as a term: the expert and the bytes of its input. -/
structure ExpertOutput (ν : Type) where
  expert : Nat
  input : Nat → Option ν

def outputFor (cfg : Config) (expert : Nat) (token : Token) : ExpertOutput (Token × Nat) where
  expert
  input byte := if byte < cfg.dispatchTokenDim then some (token, byte) else none

/-- Row of the expert outputs of a rank; rows between experts are not computed. -/
def expertRow {cfg : Config} (table : RoutingTable cfg) (inputs : Memory Nat ν) (rank row : Nat) : Option (ExpertOutput ν) := do
  let info ← processRoutingInfo cfg rank table
  let index ← rowExpert cfg.expertPadding info.tokensPerExpert row
  return {
    expert := cfg.firstExpert rank + index
    input := fun byte => if byte < cfg.dispatchTokenDim then inputs rank (row * cfg.dispatchTokenDim + byte) else none }

structure Round {cfg : Config} {batch : Batch cfg} (orders : Orders batch) where
  dispatch : DispatchRun cfg batch.table (tokenAt orders)
  perRank : List (List (RangeWrite Nat (Token × Nat)))
  received : (List.range cfg.worldSize).mapM (dispatchRecvStores batch.table dispatch.final) = some perRank
  stores : List (RangeWrite Nat (Token × Nat))
  stores_perm : stores.Perm perRank.flatten
  blank : Memory Nat (Token × Nat)
  combine : CombineRun cfg batch.table (expertRow batch.table (applyAll stores blank))

def Round.inputs {cfg : Config} {batch : Batch cfg} {orders : Orders batch} (round : Round orders) : Memory Nat (Token × Nat) :=
  applyAll round.stores round.blank

/-- Every rank's `combine_recv` finds, for every choice of every token, what the
chosen expert computed from that token. -/
def Round.Correct {cfg : Config} {batch : Batch cfg} {orders : Orders batch} (round : Round orders) : Prop :=
  ∀ rank, rank < cfg.worldSize → ∀ route, route < batch.numRoutes (dpGroup cfg rank) →
    let group := dpGroup cfg rank
    let expert := batch.expertOf group route
    Holds round.combine.final cfg.combineTokenDim (.recv rank) (combineRecvPosition batch.table group expert (tokenOffset orders rank route))
      (some (outputFor cfg expert ⟨group, batch.tokenOf route⟩))

/-- In whatever order the ranks count, the round completes and is correct. -/
def OrderFree {cfg : Config} (batch : Batch cfg) : Prop :=
  ∀ orders : Orders batch, Nonempty (Round orders) ∧ ∀ round : Round orders, round.Correct

/-- What the callers size buffers for: counts, slots and rows are numbered in the
integers of the device tables, and rows are not empty. -/
structure Batch.Fits {cfg : Config} (batch : Batch cfg) : Prop where
  totals : batch.table.TotalsFit
  slots : cfg.SlotsFit
  rows : ∀ rank, rank < cfg.worldSize → ∀ info, processRoutingInfo cfg rank batch.table = some info →
    (info.tokensPerExpert.map fun count => ceilDiv count cfg.expertPadding * cfg.expertPadding).sum < 2 ^ 32
  bytes : 0 < cfg.combineTokenDim

end PplxGarden.AllToAll
