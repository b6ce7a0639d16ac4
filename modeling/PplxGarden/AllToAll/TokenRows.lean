import PplxGarden.AllToAll.RoutePhase
import PplxGarden.Library.Memory

/-! The loop over the elements of one token, which all paths of `dispatch_send` share with
`dispatch_recv`: a row of a sender's tensors is copied into a slot, and the slot into a row
of the receiver's tensors. Addresses count bytes. Sixteen bytes are moved at once, and a
load or store at an address that is not a multiple of its size is a fault. -/

namespace PplxGarden.AllToAll
open Library

/-- The tensors passed to `dispatch_send` (`x_ptr`, `x_stride`, ...) or to `dispatch_recv`
(`out_x_ptr`, `out_x_stride`, ...). Rows are `xStride` bytes apart, the strides of the scales
count floats. A call without scales has a null pointer, and is made only in a context
without scales. -/
structure Tensors (cfg : Config) where
  xPtr : Nat
  xStride : Nat
  xScalePtr : Nat
  xScaleStrideElem : Nat
  xScaleStrideToken : Nat
  scales_given : 0 < cfg.hiddenDimScale → xScalePtr ≠ 0

inductive RowBuffer
  | x (rank : Nat)
  | xScale (rank : Nat)
  | slots
  | outX
  | outXScale
deriving Repr, DecidableEq

/-- Where a token is: its vectors one after another, its scales at a distance. -/
structure TokenRow where
  buffer : RowBuffer
  start : Nat
  scaleBuffer : RowBuffer
  scaleStart : Nat
  scaleStride : Nat
deriving Repr, DecidableEq

namespace TokenRow

def vectorAt (row : TokenRow) (i : Nat) : Nat := row.start + i * 16

def scaleAt (row : TokenRow) (i : Nat) : Nat := row.scaleStart + i * row.scaleStride

end TokenRow

/-- `token_dim` in units of `uint4`. -/
def vectorsPerToken (cfg : Config) : Nat := ceilDiv (cfg.hiddenDim * cfg.inElemsize) 16

def tokenDim (cfg : Config) : Nat := vectorsPerToken cfg * 16

section
variable {cfg : Config}

/-- `x_token_src` and `x_scale_src` of `dispatch_send`. -/
def Tensors.sourceRow (tensors : Tensors cfg) (rank token : Nat) : TokenRow where
  buffer := .x rank
  start := tensors.xPtr + token * tensors.xStride
  scaleBuffer := .xScale rank
  scaleStart := tensors.xScalePtr + token * tensors.xScaleStrideToken * 4
  scaleStride := tensors.xScaleStrideElem * 4

/-- `x_token_dst` and `x_scale_dst` of `dispatch_recv`. -/
def Tensors.outputRow (tensors : Tensors cfg) (paddedToken : Nat) : TokenRow where
  buffer := .outX
  start := tensors.xPtr + paddedToken * tensors.xStride
  scaleBuffer := .outXScale
  scaleStart := tensors.xScalePtr + paddedToken * tensors.xScaleStrideToken * 4
  scaleStride := tensors.xScaleStrideElem * 4

end

/-- A slot: the token, and right behind it its scales. The buffers are mapped at multiples of
sixteen bytes, so that addresses may be counted from their start. -/
def slotRow (cfg : Config) (slot : Nat) : TokenRow where
  buffer := .slots
  start := slot * cfg.dispatchTokenDim
  scaleBuffer := .slots
  scaleStart := slot * cfg.dispatchTokenDim + tokenDim cfg
  scaleStride := 4

def vectorLoops (cfg : Config) (fuel : Nat) : Option (List (List Nat)) :=
  sweep (2 ^ 32) (vectorsPerToken cfg) numThreads fuel

/-- A load of `size` bytes and the store of what it loaded. -/
def moveAligned (memory : Memory RowBuffer UInt8) (size : Nat) (src : RowBuffer) (srcAddr : Nat)
    (dst : RowBuffer) (dstAddr : Nat) : Option (RangeWrite RowBuffer UInt8) :=
  if size ∣ srcAddr ∧ size ∣ dstAddr then some (copyWrite memory src srcAddr dst dstAddr size) else none

/-- Iteration `i` of a copy loop: vector `i`, and scale `i` if there are scales and the token
has that one. -/
def copyElement (cfg : Config) (scaled : Bool) (memory : Memory RowBuffer UInt8) (source target : TokenRow)
    (i : Nat) : Option (List (RangeWrite RowBuffer UInt8)) := do
  let vector ← moveAligned memory 16 source.buffer (source.vectorAt i) target.buffer (target.vectorAt i)
  if scaled ∧ i < cfg.hiddenDimScale then
    let scale ← moveAligned memory 4 source.scaleBuffer (source.scaleAt i) target.scaleBuffer (target.scaleAt i)
    return [vector, scale]
  else return [vector]

/-- A copy of a token on its way to a rank: its row at the sender, the slot that holds it and
its row at the receiver. A slot that crosses the network arrives with the bytes it had. -/
structure RowCopy where
  source : Nat
  token : Nat
  slot : Nat
  paddedToken : Nat
deriving Repr, DecidableEq

structure RowCopies where
  list : List RowCopy
  slots_nodup : (list.map RowCopy.slot).Nodup

section
variable (cfg : Config) (senders : Nat → Tensors cfg) (receiver : Tensors cfg) (memory : Memory RowBuffer UInt8)

def sendElement (copy : RowCopy) (i : Nat) : Option (List (RangeWrite RowBuffer UInt8)) :=
  copyElement cfg ((senders copy.source).xScalePtr ≠ 0) memory
    ((senders copy.source).sourceRow copy.source copy.token) (slotRow cfg copy.slot) i

def recvElement (copy : RowCopy) (i : Nat) : Option (List (RangeWrite RowBuffer UInt8)) :=
  copyElement cfg (receiver.xScalePtr ≠ 0) memory (slotRow cfg copy.slot) (receiver.outputRow copy.paddedToken) i

end

/-- The iterations of a kernel in some order: one fault ends the kernel. A kernel does not
store to what it loads from, so that all loads see the memory before it. -/
def copyRows (element : Memory RowBuffer UInt8 → RowCopy → Nat → Option (List (RangeWrite RowBuffer UInt8)))
    (order : List (RowCopy × Nat)) (memory : Memory RowBuffer UInt8) : Option (Memory RowBuffer UInt8) := do
  let writes ← order.mapM fun iteration => element memory iteration.1 iteration.2
  return applyAll writes.flatten memory

def dispatchRows (cfg : Config) (senders : Nat → Tensors cfg) (receiver : Tensors cfg)
    (sent received : List (RowCopy × Nat)) (memory : Memory RowBuffer UInt8) : Option (Memory RowBuffer UInt8) := do
  let stored ← copyRows (sendElement cfg senders) sent memory
  copyRows (recvElement cfg receiver) received stored

def RowCopies.iterations (copies : RowCopies) (visited : List (List Nat)) : List (RowCopy × Nat) :=
  copies.list.product visited.flatten

end PplxGarden.AllToAll
