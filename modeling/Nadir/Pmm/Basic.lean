import Nadir.E820
import Nadir.Lib.Loop

/-!
# The physical frame allocator

One bit per 4 KB frame over the first 1 GB: a set bit is a used or reserved frame, a clear bit a
free one. `pmmInit` builds the bitmap from the BIOS map; `pmmAllocFrame` and `pmmFreeFrame` are
the two operations after it. The counters are 64-bit words and wrap as the code's do.
-/

namespace Nadir

open CountedLoop

def pmmFrameSize : UInt64 := 4096
def pmmMaxBytes : UInt64 := 0x40000000
def uint64Max : UInt64 := 0xFFFFFFFFFFFFFFFF

/-- `PMM_MAX_BYTES / PMM_FRAME_SIZE`. -/
abbrev pmmMaxFrames : ℕ := 262144

abbrev Bitmap := Vector UInt8 (pmmMaxFrames / 8)

def setBit (b : Bitmap) (frame : ℕ) : Bitmap :=
  b.setIfInBounds (frame / 8) (b[frame / 8]! ||| 1 <<< UInt8.ofNat (frame % 8))

def clearBit (b : Bitmap) (frame : ℕ) : Bitmap :=
  b.setIfInBounds (frame / 8) (b[frame / 8]! &&& ~~~(1 <<< UInt8.ofNat (frame % 8)))

def testBit (b : Bitmap) (frame : ℕ) : Bool :=
  b[frame / 8]! &&& 1 <<< UInt8.ofNat (frame % 8) != 0

structure Pmm where
  bitmap : Bitmap
  gUsable : UInt64
  gFree : UInt64

/-- The loop body of `reserve_range`. -/
def reserveFrame (frame : ℕ) (s : Pmm) : Pmm :=
  if testBit s.bitmap frame = false then
    { s with bitmap := setBit s.bitmap frame, gFree := s.gFree - 1 }
  else s

/-- The frames `reserve_range` visits, or `none` on its early returns. The end is rounded down. -/
def reserveBounds (base len : UInt64) : Option (ℕ × ℕ) :=
  if len = 0 then none
  else
    let stop := if base + len < base then uint64Max else base + len
    if base ≥ pmmMaxBytes then none
    else
      let stop := if stop > pmmMaxBytes then pmmMaxBytes else stop
      some ((base / pmmFrameSize).toNat, (stop / pmmFrameSize).toNat)

def reserveRange (base len : UInt64) (s : Pmm) : Pmm :=
  match reserveBounds base len with
  | none => s
  | some (lo, hi) => forLoop lo hi reserveFrame s

/-- The innermost loop body of the first pass of `pmm_init`. -/
def usableFrame (frame : ℕ) (s : Pmm) : Pmm :=
  if testBit s.bitmap frame ≠ false then
    { bitmap := clearBit s.bitmap frame, gUsable := s.gUsable + 1, gFree := s.gFree + 1 }
  else s

/-- The whole frames of a usable entry, or `none` where the first pass skips it: the start is
rounded up and the end down. -/
def usableBounds (e : E820Entry) : Option (ℕ × ℕ) :=
  if e.type ≠ e820Usable then none
  else if e.length = 0 then none
  else
    let start := e.base
    let stop := if start + e.length < start then uint64Max else start + e.length
    if start ≥ pmmMaxBytes then none
    else
      let stop := if stop > pmmMaxBytes then pmmMaxBytes else stop
      some (((start + pmmFrameSize - 1) / pmmFrameSize).toNat, (stop / pmmFrameSize).toNat)

def usableEntry (e : E820Entry) (s : Pmm) : Pmm :=
  match usableBounds e with
  | none => s
  | some (lo, hi) => forLoop lo hi usableFrame s

def reservedEntry (e : E820Entry) (s : Pmm) : Pmm :=
  if e.type ≠ e820Usable then reserveRange e.base e.length s else s

/-- The image `[__kernel_start, __kernel_end)` as the linker script lays it out. -/
structure KernelImage where
  stop : UInt64
  start_le_stop : 0x10000 ≤ stop

def KernelImage.start (_ : KernelImage) : UInt64 := 0x10000

/-- The fixed reservations at the end of `pmm_init`, as base and length, in its order. -/
def fixedRanges (k : KernelImage) : List (UInt64 × UInt64) :=
  [(0x00000000, 0x00100000), (k.start, k.stop - k.start), (0x00070000, 0x00004000),
    (0x00005000, 0x00000620), (0x0008C000, 0x00004000), (0x000B8000, 0x00001000)]

/-- A table pointer: `none` is the null pointer. -/
abbrev E820Table := Option (ℕ → E820Entry)

/-- How many entries `pmm_init` reads. -/
def entryCount (count : UInt32) : E820Table → ℕ
  | none => 0
  | some _ => min count.toNat e820Max

def E820Table.entry : E820Table → ℕ → E820Entry
  | none, _ => ⟨0, 0, 0, 0⟩
  | some t, i => t i

/-- The bitmap filled with `0xFF` and both counters at zero. -/
def pmmReserved : Pmm := ⟨Vector.replicate _ 0xFF, 0, 0⟩

/-- The state before entry `n` of the first pass. -/
def usablePass (t : E820Table) (n : ℕ) : Pmm :=
  forLoop 0 n (fun i => usableEntry (t.entry i)) pmmReserved

/-- The state before entry `n` of the second pass. -/
def reservedPass (count : UInt32) (t : E820Table) (n : ℕ) : Pmm :=
  forLoop 0 n (fun i => reservedEntry (t.entry i)) (usablePass t (entryCount count t))

def reserveRanges (rs : List (UInt64 × UInt64)) (s : Pmm) : Pmm :=
  rs.foldl (fun s r => reserveRange r.1 r.2 s) s

def pmmInit (k : KernelImage) (count : UInt32) (t : E820Table) : Pmm :=
  reserveRanges (fixedRanges k) (reservedPass count t (entryCount count t))

/-- The frame address, or 0 when no frame is free. -/
def pmmAllocFrame (s : Pmm) : Pmm × UInt64 :=
  match (List.range' 0 pmmMaxFrames).find? (fun frame => testBit s.bitmap frame = false) with
  | some frame =>
      ({ s with bitmap := setBit s.bitmap frame, gFree := s.gFree - 1 },
        UInt64.ofNat frame * pmmFrameSize)
  | none => (s, 0)

def pmmFreeFrame (addr : UInt64) (s : Pmm) : Pmm :=
  if addr % pmmFrameSize ≠ 0 then s
  else if addr ≥ pmmMaxBytes then s
  else
    let frame := (addr / pmmFrameSize).toNat
    if testBit s.bitmap frame ≠ false then
      { s with bitmap := clearBit s.bitmap frame, gFree := s.gFree + 1 }
    else s

def pmmFreeCount (s : Pmm) : UInt64 := s.gFree
def pmmUsableCount (s : Pmm) : UInt64 := s.gUsable

end Nadir
