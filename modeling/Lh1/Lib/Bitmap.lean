/-
  A bitmap in 64-bit words.

  The map has `size` words; a bit is found by its number. Setting a bit changes no other one, and
  neither does growing the map when the words behind its old end are zero.
-/
import Mathlib

namespace Lh1.Lib

structure Bitmap where
  size : Nat
  word : Nat → BitVec 64

namespace Bitmap

def test (m : Bitmap) (n : Nat) : Bool :=
  decide (n / 64 < m.size) && (m.word (n / 64)).getLsbD (n % 64)

/-- The word `q` with the bit `r` set. -/
def setBit (m : Bitmap) (q r : Nat) : Bitmap :=
  { m with word := Function.update m.word q (m.word q ||| 1#64 <<< r) }

/-- The map with `size` words, of which those from `keep` on are zero. -/
def grow (m : Bitmap) (size keep : Nat) : Bitmap where
  size := size
  word k := if keep ≤ k then 0 else m.word k

variable {m : Bitmap} {n q r : Nat}

theorem and_shiftLeft_eq_zero (x : BitVec 64) (hr : r < 64) :
    x &&& 1#64 <<< r = 0 ↔ x.getLsbD r = false := by
  rw [← BitVec.twoPow_eq, BitVec.and_twoPow]
  split
  · rename_i h
    rw [h]
    refine iff_of_false (fun hc => ?_) Bool.noConfusion
    have := congrArg (BitVec.getLsbD · r) hc
    rw [BitVec.getLsbD_twoPow] at this
    simp [hr] at this
  · rename_i h
    simpa using h

theorem test_setBit (hq : q < m.size) (hr : r < 64) :
    (m.setBit q r).test n = (m.test n || decide (n = 64 * q + r)) := by
  have hmod := Nat.mod_lt n (show 0 < 64 by decide)
  unfold test setBit
  dsimp only
  by_cases hn : n / 64 = q
  · have hiff : r = n % 64 ↔ n = 64 * q + r := by omega
    rw [hn, Function.update_self, BitVec.getLsbD_or, ← BitVec.twoPow_eq, BitVec.getLsbD_twoPow]
    simp [hq, hr, hiff]
  · have hne : n ≠ 64 * q + r := by omega
    rw [Function.update_of_ne hn]
    simp [hne]

/-- A map that is grown at its end keeps its bits and has no new ones. -/
theorem test_grow {size : Nat} (h : m.size ≤ size) : (m.grow size m.size).test n = m.test n := by
  unfold test grow
  dsimp only
  by_cases hn : n / 64 < m.size
  · rw [if_neg (by omega)]
    simp [hn, hn.trans_le h]
  · rw [if_pos (by omega)]
    simp [hn]

end Bitmap

end Lh1.Lib
