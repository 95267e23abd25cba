import Mathlib.Data.Int.Notation
import Mathlib.Data.Nat.Notation

/-!
# The boot log

What the log prints, as the list of the characters it hands to the console. Decimal numbers are
collected lowest digit first in a buffer and printed from its end, hexadecimal ones come from a
table, highest digit first; an access outside the buffer or the table has no result.
-/

namespace Nadir

def pitHz : UInt64 := 100
abbrev klogTimeWidth : ℕ := 12

def chr (c : Char) : Int8 := (UInt8.ofNat c.toNat).toInt8

def ascii (s : List Char) : List Int8 := s.map chr

def digit (d : UInt64) : Int8 := (48 + d).toUInt8.toInt8

/-- A local array of `size` characters. -/
abbrev CharBuf (size : ℕ) := Vector Int8 size

variable {size : ℕ}

def CharBuf.store (i : ℕ) (c : Int8) (buf : CharBuf size) : Option (CharBuf size) :=
  if h : i < size then some (buf.set i c) else none

/-- `while (v != 0 && n < limit)`: the digits of `v`, from `buf[n]` on. -/
def decLoop (limit n : ℕ) (v : UInt64) (buf : CharBuf size) : Option (ℕ × CharBuf size) :=
  if _h : v ≠ 0 ∧ n < limit then
    (buf.store n (digit (v % 10))).bind fun buf => decLoop limit (n + 1) (v / 10) buf
  else some (n, buf)
termination_by limit - n

/-- `while (n > 0)`: the buffer from its end. -/
def printDown (buf : CharBuf size) : ℕ → Option (List Int8)
  | 0 => some []
  | n + 1 => (buf[n]?).bind fun c => (printDown buf n).map (c :: ·)

/-- `while (len < KLOG_TIME_WIDTH)` -/
def padLoop (len : ℕ) : List Int8 :=
  if len < klogTimeWidth then chr ' ' :: padLoop (len + 1) else []
termination_by klogTimeWidth - len

/-- `while (div > 0)`: one digit of the fraction for each power of ten. -/
def fracLoop (frac div : UInt64) : List Int8 :=
  if _h : div > 0 then digit (frac / div % 10) :: fracLoop frac (div / 10) else []
termination_by div.toNat
decreasing_by
  have hpos : 0 < div.toNat := UInt64.lt_iff_toNat_lt.mp _h
  rw [UInt64.toNat_div]
  exact Nat.div_lt_self hpos (by decide)

/-- The characters of `console_puts`. -/
def cString (s : List Int8) : List Int8 := s.takeWhile (fun ch => ch ≠ 0)

/-- `num` is what the array holds before. -/
def klogPrefix (ticks : UInt64) (subsystem : List Int8) (num : CharBuf 22) : Option (List Int8) :=
  let secs := ticks / pitHz
  let frac := ticks % pitHz * 10000
  (if secs = 0 then (num.store 0 (chr '0')).map fun num => (1, num)
    else decLoop 20 0 secs num).bind fun r =>
  (printDown r.2 r.1).map fun number =>
    chr '[' :: padLoop (r.1 + 7) ++ number ++ chr '.' :: fracLoop frac 100000 ++
      ascii [']', ' '] ++ cString subsystem ++ ascii [':', ' ']

/-- `buf` is what the array holds before. -/
def klogDec (v : UInt64) (buf : CharBuf 20) : Option (List Int8) :=
  if v = 0 then some [chr '0']
  else (decLoop 20 0 v buf).bind fun r => printDown r.2 r.1

/-- The array `digits` of `console_puthex64`, its terminating zero included. -/
def hexDigits : List Int8 := ascii "0123456789ABCDEF".toList ++ [0]

/-- `for (; shift >= 0; shift -= 4)`: one digit for each half of a byte. -/
def hexLoop (value : UInt64) (shift : ℤ) : Option (List Int8) :=
  if _h : shift ≥ 0 then
    (hexDigits[(value >>> UInt64.ofInt shift &&& 0xF).toNat]?).bind fun c =>
      (hexLoop value (shift - 4)).map (c :: ·)
  else some []
termination_by (shift + 4).toNat

def consolePuthex64 (value : UInt64) : Option (List Int8) :=
  (hexLoop value 60).map (cString (ascii ['0', 'x']) ++ ·)

@[simp] theorem ascii_nil : ascii [] = [] := rfl

@[simp] theorem ascii_cons (c : Char) (s : List Char) : ascii (c :: s) = chr c :: ascii s := rfl

@[simp] theorem ascii_append (s t : List Char) : ascii (s ++ t) = ascii s ++ ascii t :=
  List.map_append

@[simp] theorem ascii_reverse (s : List Char) : ascii s.reverse = (ascii s).reverse :=
  List.map_reverse

@[simp] theorem ascii_replicate (n : ℕ) (c : Char) :
    ascii (List.replicate n c) = List.replicate n (chr c) := List.map_replicate

end Nadir
