import Mathlib.Data.Nat.Notation

/-!
# BIOS memory-map entries

The packed 24-byte entry the boot sector stages and the frame allocator reads.
-/

namespace Nadir

def e820Max : ℕ := 64

def e820Usable : UInt32 := 1

/-- One byte-based range `[base, base + length)`. -/
structure E820Entry where
  base : UInt64
  length : UInt64
  type : UInt32
  acpiAttr : UInt32
  deriving DecidableEq, Repr

end Nadir
