import Mathlib.Data.Nat.Notation

/-!
# The PS/2 keyboard driver

`keyboard_on_irq` decodes one set-1 scancode per interrupt and queues the byte it stands for in a
ring of 128 slots; `keyboard_has_key` and `keyboard_dequeue` poll the ring. The argument of
`keyboardOnIrq` is the byte read from the data port.
-/

namespace Nadir

def kbdBufSize : ℕ := 128

def scRelease : UInt8 := 0x80
def scExtended : UInt8 := 0xE0
def scLshift : UInt8 := 0x2A
def scRshift : UInt8 := 0x36
def scCaps : UInt8 := 0x3A

/-- A table of 128 bytes that is zero outside its designated initializers. -/
def charTable (init : List (ℕ × Char)) : Vector UInt8 128 :=
  init.foldl (fun t e => t.setIfInBounds e.1 e.2.toUInt8) (Vector.replicate 128 0)

def kUnshifted : Vector UInt8 128 := charTable [
  (0x02, '1'), (0x03, '2'), (0x04, '3'), (0x05, '4'),
  (0x06, '5'), (0x07, '6'), (0x08, '7'), (0x09, '8'),
  (0x0A, '9'), (0x0B, '0'), (0x0C, '-'), (0x0D, '='),
  (0x0E, Char.ofNat 8), (0x0F, '\t'),
  (0x10, 'q'), (0x11, 'w'), (0x12, 'e'), (0x13, 'r'),
  (0x14, 't'), (0x15, 'y'), (0x16, 'u'), (0x17, 'i'),
  (0x18, 'o'), (0x19, 'p'), (0x1A, '['), (0x1B, ']'),
  (0x1C, '\n'),
  (0x1E, 'a'), (0x1F, 's'), (0x20, 'd'), (0x21, 'f'),
  (0x22, 'g'), (0x23, 'h'), (0x24, 'j'), (0x25, 'k'),
  (0x26, 'l'), (0x27, ';'), (0x28, Char.ofNat 0x27), (0x29, Char.ofNat 0x60),
  (0x2B, Char.ofNat 0x5C),
  (0x2C, 'z'), (0x2D, 'x'), (0x2E, 'c'), (0x2F, 'v'),
  (0x30, 'b'), (0x31, 'n'), (0x32, 'm'), (0x33, ','),
  (0x34, '.'), (0x35, '/'), (0x39, ' ')]

def kShifted : Vector UInt8 128 := charTable [
  (0x02, '!'), (0x03, '@'), (0x04, '#'), (0x05, '$'),
  (0x06, '%'), (0x07, '^'), (0x08, '&'), (0x09, '*'),
  (0x0A, '('), (0x0B, ')'), (0x0C, '_'), (0x0D, '+'),
  (0x0E, Char.ofNat 8), (0x0F, '\t'),
  (0x10, 'Q'), (0x11, 'W'), (0x12, 'E'), (0x13, 'R'),
  (0x14, 'T'), (0x15, 'Y'), (0x16, 'U'), (0x17, 'I'),
  (0x18, 'O'), (0x19, 'P'), (0x1A, Char.ofNat 0x7B), (0x1B, Char.ofNat 0x7D),
  (0x1C, '\n'),
  (0x1E, 'A'), (0x1F, 'S'), (0x20, 'D'), (0x21, 'F'),
  (0x22, 'G'), (0x23, 'H'), (0x24, 'J'), (0x25, 'K'),
  (0x26, 'L'), (0x27, ':'), (0x28, Char.ofNat 0x22), (0x29, '~'),
  (0x2B, '|'),
  (0x2C, 'Z'), (0x2D, 'X'), (0x2E, 'C'), (0x2F, 'V'),
  (0x30, 'B'), (0x31, 'N'), (0x32, 'M'), (0x33, '<'),
  (0x34, '>'), (0x35, '?'), (0x39, ' ')]

structure Keyboard where
  kBuf : Vector UInt8 128
  kHead : UInt8
  kTail : UInt8
  kShift : UInt8
  kCaps : UInt8
  kE0 : UInt8

/-- The index after `i`, in the arithmetic of the source: a sum of `int`s cut to a byte. -/
def ringNext (i : UInt8) : UInt8 := UInt8.ofNat ((i.toNat + 1) % kbdBufSize)

def enqueue (c : UInt8) (k : Keyboard) : Keyboard :=
  let next := ringNext k.kHead
  if next = k.kTail then k
  else { k with kBuf := k.kBuf.setIfInBounds k.kHead.toNat c, kHead := next }

/-- `keyboard_init` clears the state but not the buffer. -/
def keyboardInit (buf : Vector UInt8 128) : Keyboard := ⟨buf, 0, 0, 0, 0, 0⟩

def keyboardOnIrq (code : UInt8) (k : Keyboard) : Keyboard :=
  if code = scExtended then { k with kE0 := 1 }
  else if k.kE0 ≠ 0 then { k with kE0 := 0 }
  else if code &&& scRelease ≠ 0 then
    let make := code &&& ~~~scRelease
    if make = scLshift ∨ make = scRshift then { k with kShift := 0 } else k
  else if code = scLshift ∨ code = scRshift then { k with kShift := 1 }
  else if code = scCaps then { k with kCaps := if k.kCaps = 0 then 1 else 0 }
  else if code.toNat ≥ 128 then k
  else
    let base := kUnshifted[code.toNat]!
    if base = 0 then k
    else
      let out :=
        if 'a'.toUInt8 ≤ base ∧ base ≤ 'z'.toUInt8 then
          if (k.kShift != 0) != (k.kCaps != 0) then base - 'a'.toUInt8 + 'A'.toUInt8 else base
        else if k.kShift ≠ 0 then
          let shifted := kShifted[code.toNat]!
          if shifted ≠ 0 then shifted else base
        else base
      enqueue out k

def keyboardHasKey (k : Keyboard) : Bool := k.kHead != k.kTail

/-- The steps of `keyboard_dequeue`: compare, read the slot, store the tail. -/
def dequeueEmpty (k : Keyboard) : Bool := k.kHead == k.kTail

def dequeueRead (k : Keyboard) : UInt8 := k.kBuf[k.kTail.toNat]!

def dequeueStore (k : Keyboard) : Keyboard := { k with kTail := ringNext k.kTail }

/-- `keyboard_dequeue` without an interrupt in between. -/
def keyboardDequeue (k : Keyboard) : Keyboard × UInt8 :=
  if dequeueEmpty k then (k, 0) else (dequeueStore k, dequeueRead k)

end Nadir
