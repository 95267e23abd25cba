import Nadir.Pmm.Basic
import Nadir.Lib.Mem

/-!
# The kernel heap

A first-fit heap of whole frames. Free runs carry a next pointer and a frame count in their first
16 bytes, allocated runs a magic word and a frame count, so both kinds of node live in the memory
the heap hands out. Memory is reached through the identity map of the first 1 GB; an access that
leaves it faults.
-/

namespace Nadir

open ByteMem

/-- Why a heap operation does not return. -/
inductive Stop where
  | pageFault (addr : UInt64)
  | outOfFuel
  deriving DecidableEq, Repr

def kmallocMagic : UInt64 := 0x4E414449524D4148

def kmallocInitFrames : ℕ := 64

def headerSize : UInt64 := 16

/-- Memory and the heap's globals. -/
structure Heap where
  mem : Mem
  gFreeList : UInt64
  gFreeFrames : UInt64
  gUsedFrames : UInt64

namespace Heap

def load (h : Heap) (a : UInt64) : Except Stop UInt64 :=
  if a.toNat + 8 ≤ 0x40000000 then .ok (load64 h.mem a.toNat) else .error (.pageFault a)

def store (h : Heap) (a v : UInt64) : Except Stop Heap :=
  if a.toNat + 8 ≤ 0x40000000 then .ok { h with mem := store64 h.mem a.toNat v }
  else .error (.pageFault a)

end Heap

/-- What `link` points at: the list head or the next field of a free run. -/
inductive Link where
  | head
  | next (run : UInt64)

def Heap.loadLink (h : Heap) : Link → Except Stop UInt64
  | .head => .ok h.gFreeList
  | .next run => h.load run

def Heap.storeLink (h : Heap) (v : UInt64) : Link → Except Stop Heap
  | .head => .ok { h with gFreeList := v }
  | .next run => h.store run v

def framesFor (size : UInt64) : UInt64 :=
  let size := if size = 0 then 1 else size
  let bytes := size + headerSize
  (bytes + pmmFrameSize - 1) / pmmFrameSize

/-- The loop of `kmalloc_init`: the allocator, the frames taken and the first address. -/
def kmallocInitLoop : ℕ → UInt64 → UInt64 → Pmm → Pmm × UInt64 × UInt64
  | 0, i, addr, p => (p, i, addr)
  | n + 1, i, addr, p =>
    let r := pmmAllocFrame p
    if r.2 = 0 then (r.1, i, addr)
    else if addr ≠ 0 ∧ r.2 ≠ addr + i * pmmFrameSize then (r.1, i, addr)
    else kmallocInitLoop n (i + 1) (if addr = 0 then r.2 else addr) r.1

def kmallocInit (p : Pmm) (h : Heap) : Except Stop (Pmm × Heap) := do
  let h := { h with gFreeList := 0, gFreeFrames := 0, gUsedFrames := 0 }
  let (p, i, addr) := kmallocInitLoop kmallocInitFrames 0 0 p
  if addr ≠ 0 then
    let h ← h.store addr 0
    let h ← h.store (addr + 8) i
    pure (p, { h with gFreeList := addr, gFreeFrames := i })
  else pure (p, h)

/-- `run->frames > need`: the tail takes the run's place in the list. -/
def kmallocSplit (need : UInt64) (link : Link) (run : UInt64) (h : Heap) : Except Stop Heap := do
  let tail := run + need * pmmFrameSize
  let next ← h.load run
  let h ← h.store tail next
  let frames ← h.load (run + 8)
  let h ← h.store (tail + 8) (frames - need)
  h.storeLink tail link

/-- Takes `run` or its first `need` frames off the list; answers the frames taken. -/
def kmallocUnlink (need : UInt64) (link : Link) (run : UInt64) (h : Heap) :
    Except Stop (Heap × UInt64) := do
  let frames ← h.load (run + 8)
  if frames > need then
    let h ← kmallocSplit need link run h
    pure (h, need)
  else
    let next ← h.load run
    let h ← h.storeLink next link
    pure (h, frames)

/-- The body of the walk once `run` fits. -/
def kmallocTake (need : UInt64) (link : Link) (run : UInt64) (h : Heap) :
    Except Stop (Heap × UInt64) := do
  let (h, runFrames) ← kmallocUnlink need link run h
  let h := { h with gFreeFrames := h.gFreeFrames - runFrames }
  let h ← h.store run kmallocMagic
  let h ← h.store (run + 8) runFrames
  pure ({ h with gUsedFrames := h.gUsedFrames + runFrames }, run + headerSize)

/-- The walk over the free list; the fuel bounds the number of links followed. -/
def kmallocWalk (need : UInt64) : ℕ → Link → Heap → Except Stop (Heap × UInt64)
  | 0, _, _ => .error .outOfFuel
  | fuel + 1, link, h => do
    let run ← h.loadLink link
    if run = 0 then pure (h, 0)
    else
      let frames ← h.load (run + 8)
      if frames ≥ need then kmallocTake need link run h
      else kmallocWalk need fuel (.next run) h

def kmalloc (fuel : ℕ) (size : UInt64) (h : Heap) : Except Stop (Heap × UInt64) :=
  kmallocWalk (framesFor size) fuel .head h

def kfree (ptr : UInt64) (h : Heap) : Except Stop Heap := do
  if ptr = 0 then pure h
  else
    let hdr := ptr - headerSize
    let magic ← h.load hdr
    if magic ≠ kmallocMagic then pure h
    else
      let frames ← h.load (hdr + 8)
      if frames = 0 then pure h
      else
        let h ← h.store hdr 0
        let h ← h.store hdr h.gFreeList
        let frames ← h.load (hdr + 8)
        let h ← h.store (hdr + 8) frames
        let h := { h with gFreeList := hdr }
        let frames ← h.load (hdr + 8)
        pure { h with
          gFreeFrames := h.gFreeFrames + frames, gUsedFrames := h.gUsedFrames - frames }

def kmallocFreeFrames (h : Heap) : UInt64 := h.gFreeFrames
def kmallocUsedFrames (h : Heap) : UInt64 := h.gUsedFrames

end Nadir
