import PplxGarden.AllToAll.RoutePhase

/-! The copy loops of `dispatch_send`, one definition for each of its three paths. -/

namespace PplxGarden.AllToAll
open Library

structure TokenStore where
  buffer : Buffer
  slot : Nat
  token : Nat
deriving Repr, DecidableEq

section
variable (cfg : Config) (rank : Nat)

def sendStore (token : Nat) (route : ExpertAndOffset) : TokenStore := ⟨.send rank, route.position, token⟩

def recvStore (token : Nat) (route : ExpertAndOffset) : TokenStore :=
  ⟨.recv (nodePeer cfg rank (route.expert / cfg.expertsPerRank % cfg.nodeSize)), dpGroup cfg rank * cfg.maxPrivateTokens + route.offset, token⟩

variable (routes : Nat → Nat → ExpertAndOffset) (numExpertsPerToken : Nat)

/-- `QUICK` with a dynamic token dimension. -/
def quickDynamic (token : Nat) : List TokenStore :=
  (List.range numExpertsPerToken).flatMap fun e =>
    let route := routes token e
    let dstRank := route.expert / cfg.expertsPerRank
    let dstNode := dstRank / cfg.nodeSize
    if dstNode = rank / cfg.nodeSize ∧ dstRank ≠ rank ∧ route.offset < cfg.maxPrivateTokens then
      if dstRank % cfg.dpSize = rank % cfg.dpSize then [recvStore cfg rank token route] else []
    else [sendStore rank token route]

/-- `QUICK` with a fixed token dimension: the send buffer first, then the peers. -/
def quickFixed (token : Nat) : List TokenStore :=
  ((List.range numExpertsPerToken).flatMap fun e =>
    let route := routes token e
    let dstRank := route.expert / cfg.expertsPerRank
    let dstNode := dstRank / cfg.nodeSize
    if dstNode ≠ rank / cfg.nodeSize ∨ dstRank = rank ∨ cfg.maxPrivateTokens ≤ route.offset then [sendStore rank token route] else []) ++
  (List.range numExpertsPerToken).flatMap fun e =>
    let route := routes token e
    let dstRank := route.expert / cfg.expertsPerRank
    let dstNode := dstRank / cfg.nodeSize
    if dstNode = rank / cfg.nodeSize ∧ dstRank ≠ rank ∧ route.offset < cfg.maxPrivateTokens then [recvStore cfg rank token route] else []

/-- The path without `QUICK`: all tokens of a block to the send buffer, then all to the
peers. -/
def sendTokens (tokens : List Nat) : List TokenStore :=
  (tokens.flatMap fun token => (List.range numExpertsPerToken).flatMap fun e =>
    let route := routes token e
    let dstRank := route.expert / cfg.expertsPerRank
    let dstNode := dstRank / cfg.nodeSize
    if dstNode = rank / cfg.nodeSize ∧ dstRank ≠ rank ∧ route.offset < cfg.maxPrivateTokens then [] else [sendStore rank token route]) ++
  tokens.flatMap fun token => (List.range numExpertsPerToken).flatMap fun e =>
    let route := routes token e
    let dstRank := route.expert / cfg.expertsPerRank
    let dstNode := dstRank / cfg.nodeSize
    if dstNode = rank / cfg.nodeSize ∧ dstRank ≠ rank ∧ route.offset < cfg.maxPrivateTokens then
      if dstRank % cfg.dpSize = rank % cfg.dpSize then [recvStore cfg rank token route] else []
    else []

variable (grid numSendTokens : Nat)

/-- Each block of a `QUICK` launch has at most one token. -/
def quickStores (path : Nat → List TokenStore) : List TokenStore :=
  (List.range grid).flatMap fun block => if block < numSendTokens then path block else []

def dynamicStores : List TokenStore := quickStores grid numSendTokens (quickDynamic cfg rank routes numExpertsPerToken)

def fixedStores : List TokenStore := quickStores grid numSendTokens (quickFixed cfg rank routes numExpertsPerToken)

def genericStores : List TokenStore :=
  (List.range grid).flatMap fun block => sendTokens cfg rank routes numExpertsPerToken (blockTokens grid numSendTokens block)

end

/-- The routes that `ExpertIterator` reads for the tokens of a rank. -/
def routesOf {cfg : Config} {batch : Batch cfg} (orders : Orders batch) (rank token k : Nat) : ExpertAndOffset :=
  expertIterator batch.table (dpGroup cfg rank) (batch.indices (dpGroup cfg rank) token k)
    (tokenOffset orders rank (token * batch.expertsPerToken + k))

end PplxGarden.AllToAll
