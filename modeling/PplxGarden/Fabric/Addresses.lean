import PplxGarden.Library.Bytes
import PplxGarden.Library.Numerals
import PplxGarden.Fabric.VerbsDomain

/-! Addresses as texts and as bytes. The bytes of a domain address are printed as pairs of
hexadecimal digits, and read back pair by pair at byte offsets of the text. The address of a
Verbs domain are the bytes of its UD queue pair. -/

namespace PplxGarden.Fabric
open Library

def fmtHex (bytes : List UInt8) : Text := bytes.flatMap fun byte => [Nat.digitChar (byte.toNat / 16), Nat.digitChar (byte.toNat % 16)]

/-- The pairs at the offsets `i`, `i + 2`, and so on. The error of the first pair that cannot be
read ends the loop, and `none` is a panic. -/
def fromHexFrom (s : Text) : Nat → Nat → Option (Except Unit (List UInt8))
  | 0, _ => some (.ok [])
  | rounds + 1, i => do
    let pair ← s.slice i (i + 2)
    match fromStrRadix 16 (2 ^ 8) pair with
    | none => return .error ()
    | some byte => return (← fromHexFrom s rounds (i + 2)).map (UInt8.ofNat byte :: ·)

def fromHex (s : Text) : Option (Except Unit (List UInt8)) := fromHexFrom s ((s.byteLen + 1) / 2) 0

def DomainAddress.fromStr (s : Text) : Option (Except FabricLibError (List UInt8)) :=
  if s.byteLen % 2 ≠ 0 ∨ s = [] then some (.error (.custom "Invalid address length"))
  else (fromHex s).map fun result => result.mapError fun _ => .custom "Invalid address"

namespace Verbs

structure Gid where
  raw : Vector UInt8 16
deriving Repr, DecidableEq

structure VerbsUDAddress where
  gid : Gid
  lid : UInt16
  qpNum : UInt32
  qkey : UInt32
deriving Repr, DecidableEq

namespace VerbsUDAddress

def toBytes (addr : VerbsUDAddress) : List UInt8 :=
  addr.gid.raw.toList ++ (leBytes 2 addr.lid.toNat ++ (leBytes 4 addr.qpNum.toNat ++ leBytes 4 addr.qkey.toNat))

def fromBytes (bytes : List UInt8) : Option VerbsUDAddress :=
  if sized : bytes.length = 26 then some {
    gid := ⟨⟨(slice bytes 0 16).toArray, by simp [length_slice, sized]⟩⟩
    lid := .ofNat (ofLeBytes (slice bytes 16 2))
    qpNum := .ofNat (ofLeBytes (slice bytes 18 4))
    qkey := .ofNat (ofLeBytes (slice bytes 22 4)) }
  else none

theorem length_toBytes (addr : VerbsUDAddress) : addr.toBytes.length = 26 := by
  simp [toBytes]

theorem fromBytes_toBytes (addr : VerbsUDAddress) : fromBytes addr.toBytes = some addr := by
  have gid : slice addr.toBytes 0 16 = addr.gid.raw.toList := slice_append List.length_nil (by simp)
  have lid : slice addr.toBytes 16 2 = leBytes 2 addr.lid.toNat := slice_append (by simp) (by simp)
  have qpNum : slice addr.toBytes 18 4 = leBytes 4 addr.qpNum.toNat := by
    rw [toBytes, ← List.append_assoc]
    exact slice_append (by simp) (by simp)
  have qkey : slice addr.toBytes 22 4 = leBytes 4 addr.qkey.toNat := by
    rw [toBytes, ← List.append_assoc, ← List.append_assoc, ← List.append_nil (leBytes 4 addr.qkey.toNat)]
    exact slice_append (by simp) (by simp)
  rw [fromBytes, dif_pos addr.length_toBytes]
  simp only [gid, lid, qpNum, qkey]
  rw [ofLeBytes_leBytes addr.lid.toNat_lt, ofLeBytes_leBytes addr.qpNum.toNat_lt, ofLeBytes_leBytes addr.qkey.toNat_lt]
  simp [Vector.toList]

theorem toBytes_fromBytes {bytes : List UInt8} {addr : VerbsUDAddress} (parsed : fromBytes bytes = some addr) : addr.toBytes = bytes := by
  unfold fromBytes at parsed
  split at parsed
  next sized =>
    cases parsed
    have lid := leBytes_ofLeBytes (slice bytes 16 2)
    have qpNum := leBytes_ofLeBytes (slice bytes 18 4)
    have qkey := leBytes_ofLeBytes (slice bytes 22 4)
    have lidFits := ofLeBytes_lt (slice bytes 16 2)
    have qpNumFits := ofLeBytes_lt (slice bytes 18 4)
    have qkeyFits := ofLeBytes_lt (slice bytes 22 4)
    rw [length_slice (by omega)] at lid qpNum qkey lidFits qpNumFits qkeyFits
    have last : slice bytes 22 4 = bytes.drop 22 := by
      rw [← List.append_nil (slice bytes 22 4), ← slice_drop bytes 22 4, List.drop_of_length_le (by omega)]
    simp only [toBytes, UInt16.toNat_ofNat', UInt32.toNat_ofNat']
    rw [Nat.mod_eq_of_lt (show _ < 2 ^ 16 from lidFits), Nat.mod_eq_of_lt (show _ < 2 ^ 32 from qpNumFits),
      Nat.mod_eq_of_lt (show _ < 2 ^ 32 from qkeyFits), lid, qpNum, qkey, last, slice_drop bytes 18 4, slice_drop bytes 16 2]
    exact slice_drop bytes 0 16
  next => cases parsed

theorem fromBytes_eq_some_iff (bytes : List UInt8) (addr : VerbsUDAddress) : fromBytes bytes = some addr ↔ addr.toBytes = bytes :=
  ⟨toBytes_fromBytes, fun same => same ▸ fromBytes_toBytes addr⟩

def addressing : Addressing VerbsUDAddress where
  fromBytes addr := fromBytes (numbering addr)
  address udAddr := numbering.symm udAddr.toBytes
  fromBytes_address udAddr := by rw [Equiv.apply_symm_apply, fromBytes_toBytes]
  address_fromBytes parsed := by rw [toBytes_fromBytes parsed, Equiv.symm_apply_apply]

end VerbsUDAddress

end Verbs

end PplxGarden.Fabric
