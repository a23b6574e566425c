import Mathlib

/-!
# Octets and characters

What every part of the news system shares: texts as lists of octets, the characters that its
protocols and files know, the character classes of the C locale, and the sizes of its buffers.
-/

namespace Inn

/-- A text of the source, without the NUL that ends it unless a module says so. -/
abbrev Octets := List UInt8

def octets (text : String) : Octets := text.toList.map fun c => c.toNat.toUInt8

def TAB : UInt8 := 9

def LF : UInt8 := 10

def CR : UInt8 := 13

def ISWHITE (c : UInt8) : Bool := c = 32 || c = 9

def isspace (c : UInt8) : Bool := c = 32 || (9 ≤ c && c ≤ 13)

def toupper (c : UInt8) : UInt8 := if 97 ≤ c && c ≤ 122 then c - 32 else c

def tolower (c : UInt8) : UInt8 := if 65 ≤ c && c ≤ 90 then c + 32 else c

/-- What is left of a value when the source stores it in an `int`. -/
def int (n : Int) : Int := n.bmod (2 ^ 32)

def SMBUF : Nat := 256

def BIG_BUFFER : Nat := 2 * (4 * 1024)

/-- The size of a buffer of the standard input and output, as the GNU library has it. -/
def BUFSIZ : Nat := 8192

end Inn
