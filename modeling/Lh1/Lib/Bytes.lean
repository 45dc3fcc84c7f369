/-
  Byte strings: little-endian words and flat buffers.

  `toLE w n` / `fromLE bs` convert between a natural number and its `w` bytes, least
  significant byte first; they are inverse on `n < 256 ^ w` and on lists of length `w`.

  A flat buffer is a list used as an array. `slice b i j` is `b[i..j)`; `blit b i src`
  overwrites `b` from index `i` with `src` (the effect of `read`, `bcopy` or `memmove`
  into the buffer). The lemmas say what a slice sees after a blit: before it, on it,
  and across it when the blit extends the slice at its end.

  A file is a byte string, too. A write beyond the end leaves a hole that reads as `fill`, and so
  does a file that is made longer; `getElem?_writeAt_of_lt` and `getElem?_resize` say what is where
  afterwards.

  The check code of headers and blocks is CRC-32C. The results of this development hold for any
  check code; where one is needed in full, it is this one. A table entry is what eight shifts make
  of a byte (`crc32Table` of sys/libkern/icrc32.c); `multitable_crc32c` takes eight bytes at a time
  through the same steps.
-/
import Mathlib

namespace Lh1.Lib

/-! ## Little-endian words -/

/-- The `w` low bytes of `n`, least significant first. -/
def toLE : Nat → Nat → List UInt8
  | 0, _ => []
  | w + 1, n => UInt8.ofNat n :: toLE w (n / 256)

/-- The value of a little-endian byte string. -/
def fromLE : List UInt8 → Nat
  | [] => 0
  | b :: bs => b.toNat + 256 * fromLE bs

@[simp] theorem length_toLE (w n : Nat) : (toLE w n).length = w := by
  induction w generalizing n with
  | zero => rfl
  | succ w ih => rw [toLE, List.length_cons, ih]

@[simp] theorem drop_toLE (w n k : Nat) (h : w ≤ k) : (toLE w n).drop k = [] :=
  List.drop_eq_nil_of_le (by rw [length_toLE]; exact h)

theorem fromLE_toLE (w n : Nat) (h : n < 256 ^ w) : fromLE (toLE w n) = n := by
  induction w generalizing n with
  | zero => simp at h; simp [toLE, fromLE, h]
  | succ w ih =>
    have hd : n / 256 < 256 ^ w := by
      rw [Nat.pow_succ] at h
      exact Nat.div_lt_of_lt_mul (by rw [Nat.mul_comm]; exact h)
    rw [toLE, fromLE, ih _ hd, UInt8.toNat_ofNat']
    omega

theorem fromLE_lt (bs : List UInt8) : fromLE bs < 256 ^ bs.length := by
  induction bs with
  | nil => simp [fromLE]
  | cons b bs ih =>
    have hb := b.toNat_lt
    rw [fromLE, List.length_cons, Nat.pow_succ]
    omega

theorem toLE_fromLE (bs : List UInt8) : toLE bs.length (fromLE bs) = bs := by
  induction bs with
  | nil => rfl
  | cons b bs ih =>
    have hb := b.toNat_lt
    have hdiv : (b.toNat + 256 * fromLE bs) / 256 = fromLE bs := by omega
    have hmod : UInt8.ofNat (b.toNat + 256 * fromLE bs) = b := by
      apply UInt8.toNat_inj.mp
      rw [UInt8.toNat_ofNat']
      omega
    rw [List.length_cons, fromLE, toLE, hdiv, ih, hmod]

/-- Byte reversal of a `w`-byte word. -/
def bswap (w n : Nat) : Nat := fromLE (toLE w n).reverse

/-! ## Flat buffers -/

section Buffer

variable {α : Type}

/-- `b[i..j)`. -/
def slice (b : List α) (i j : Nat) : List α := (b.drop i).take (j - i)

/-- Overwrite `b` from index `i` with `src`. -/
def blit (b : List α) (i : Nat) (src : List α) : List α :=
  b.take i ++ src ++ b.drop (i + src.length)

theorem length_slice (b : List α) (i j : Nat) (h : j ≤ b.length) :
    (slice b i j).length = j - i := by
  simp only [slice, List.length_take, List.length_drop]
  omega

theorem length_blit (b : List α) (i : Nat) (src : List α) (h : i + src.length ≤ b.length) :
    (blit b i src).length = b.length := by
  simp only [blit, List.length_append, List.length_take, List.length_drop]
  omega

@[simp] theorem slice_self (b : List α) (i : Nat) : slice b i i = [] := by
  simp [slice]

theorem slice_append (b : List α) (i j k : Nat) (hij : i ≤ j) (hjk : j ≤ k) :
    slice b i j ++ slice b j k = slice b i k := by
  have hk : k - i = (j - i) + (k - j) := by omega
  have hj : b.drop j = (b.drop i).drop (j - i) := by
    rw [List.drop_drop]; congr 1; omega
  rw [slice, slice, slice, hk, List.take_add, hj]

theorem take_slice (b : List α) (i j n : Nat) (h : i + n ≤ j) :
    (slice b i j).take n = slice b i (i + n) := by
  rw [slice, slice, List.take_take]
  congr 1
  omega

theorem drop_slice (b : List α) (i j n : Nat) :
    (slice b i j).drop n = slice b (i + n) j := by
  rw [slice, slice, List.drop_take, List.drop_drop]
  congr 1
  omega

/-- Storing back a word read from a buffer. -/
theorem toLE_fromLE_slice (b : List UInt8) (i w : Nat) (h : i + w ≤ b.length) :
    toLE w (fromLE (slice b i (i + w))) = slice b i (i + w) := by
  have hl : (slice b i (i + w)).length = w := by rw [length_slice _ _ _ h]; omega
  have := toLE_fromLE (slice b i (i + w))
  rwa [hl] at this

/-- A slice that ends before the blit does not see it. -/
theorem slice_blit_before (b : List α) (i j k : Nat) (src : List α)
    (hjk : j ≤ k) (hk : k ≤ b.length) : slice (blit b k src) i j = slice b i j := by
  rcases Nat.lt_or_ge j i with h | hij
  · have : j - i = 0 := by omega
    rw [slice, slice, this, List.take_zero, List.take_zero]
  · have hlen : i ≤ (b.take k).length := by rw [List.length_take]; omega
    rw [slice, slice, blit, List.append_assoc, List.drop_append_of_le_length hlen,
      List.take_append_of_le_length, List.drop_take, List.take_take]
    · congr 1; omega
    · rw [List.length_drop, List.length_take]; omega

/-- A slice that is exactly the blitted range is the source. -/
theorem slice_blit_self (b : List α) (k : Nat) (src : List α) (hk : k ≤ b.length) :
    slice (blit b k src) k (k + src.length) = src := by
  have hlen : (b.take k).length = k := by rw [List.length_take]; omega
  have hdrop : (b.take k ++ src ++ b.drop (k + src.length)).drop k
      = src ++ b.drop (k + src.length) := by
    rw [List.append_assoc]
    conv => lhs; arg 1; rw [← hlen]
    rw [hlen, List.drop_append_of_le_length (by omega)]
    rw [List.drop_eq_nil_of_le (by omega), List.nil_append]
  rw [slice, blit, hdrop, Nat.add_sub_cancel_left, List.take_left']
  rfl

/-- Blitting at the end of a slice extends it by the source. -/
theorem slice_blit_extend (b : List α) (i k : Nat) (src : List α) (hik : i ≤ k)
    (hk : k ≤ b.length) :
    slice (blit b k src) i (k + src.length) = slice b i k ++ src := by
  rw [← slice_append _ i k (k + src.length) hik (by omega),
    slice_blit_before b i k k src (Nat.le_refl k) hk, slice_blit_self b k src hk]

end Buffer

end Lh1.Lib

namespace Lh1.Lib

/-! ## Files -/

variable {α : Type} {fill : α} {file bs : List α} {pos n i : Nat}

/-- `file`, cut or filled up to the length `n`. -/
def resize (fill : α) (file : List α) (n : Nat) : List α :=
  file.take n ++ List.replicate (n - file.length) fill

/-- `file` with `bs` from `pos` on. -/
def writeAt (fill : α) (file : List α) (pos : Nat) (bs : List α) : List α :=
  resize fill file pos ++ bs ++ file.drop (pos + bs.length)

@[simp] theorem length_resize : (resize fill file n).length = n := by
  rw [resize, List.length_append, List.length_take, List.length_replicate]
  omega

theorem getElem?_resize (h : i < n) :
    (resize fill file n)[i]? = if i < file.length then file[i]? else some fill := by
  rw [resize, List.getElem?_append, List.length_take]
  split_ifs with h1 h2 h2
  · rw [List.getElem?_take_of_lt h]
  · omega
  · omega
  · rw [List.getElem?_replicate, if_pos (by omega)]

theorem getElem?_writeAt_of_lt (h : i < bs.length) :
    (writeAt fill file pos bs)[pos + i]? = bs[i]? := by
  rw [writeAt, List.append_assoc, List.getElem?_append_right (by rw [length_resize]; omega),
    length_resize, Nat.add_sub_cancel_left, List.getElem?_append_left h]

theorem getElem?_writeAt_of_ge (h : pos + bs.length ≤ i) :
    (writeAt fill file pos bs)[i]? = file[i]? := by
  have hlen : (resize fill file pos ++ bs).length = pos + bs.length := by simp
  rw [writeAt, List.getElem?_append_right (by rw [hlen]; exact h), hlen, List.getElem?_drop,
    Nat.add_sub_cancel' h]

end Lh1.Lib

namespace Lh1

/-! ## Check codes -/

/-- A check code: any function of the bytes. -/
abbrev Crc := List UInt8 → UInt32

/-- One shift, with the reflected polynomial `0x1EDC6F41`. -/
def crc32cShift (crc : UInt32) : UInt32 :=
  if crc &&& 1 = 1 then (crc >>> 1) ^^^ 0x82F63B78 else crc >>> 1

/-- An entry of `crc32Table`. -/
def crc32Table (i : UInt32) : UInt32 := crc32cShift^[8] i

def singletableCrc32c (crc : UInt32) (buf : List UInt8) : UInt32 :=
  buf.foldl (fun crc b => crc32Table ((crc ^^^ b.toUInt32) &&& 0xff) ^^^ (crc >>> 8)) crc

def iscsiCrc32 (buf : List UInt8) : UInt32 := ~~~(singletableCrc32c 0xFFFFFFFF buf)

example : [crc32Table 1, crc32Table 2, crc32Table 128, crc32Table 255] =
    [0xF26B8303, 0xE13B70F7, 0x82F63B78, 0xAD7D5351] := by decide +kernel

end Lh1
