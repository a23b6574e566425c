import Mathlib

/-!
# Message and group hashes

`HASH` is the sixteen octets of an MD5 digest. The stores read parts of it as
unsigned integers with `memcpy`, so the octets of such a part are weighed here
as on a little-endian host.
-/

namespace Inn

def littleEndian : List UInt8 → Nat
  | [] => 0
  | octet :: rest => octet.toNat + 256 * littleEndian rest

structure HASH where
  hash : List UInt8
  size : hash.length = 16
deriving DecidableEq

namespace HASH

def fill (octet : UInt8) : HASH := ⟨List.replicate 16 octet, List.length_replicate⟩

end HASH

def HashClear : HASH := HASH.fill 0

def HashEmpty (h : HASH) : Bool := h = HashClear

def HASH.word (h : HASH) : Nat := littleEndian (h.hash.take 4)

end Inn
