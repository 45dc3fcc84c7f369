/-
  The reading end of a pipe.

  read(2) returns at least one byte while there are any, but it may return fewer than asked for:
  `splits` says how many, call by call. Nothing is left at the end of file. `readFull` is the
  usual loop around read(2); whatever the splits, it returns the next bytes of the pipe.
-/
import Mathlib

namespace Lh1.Lib

structure Pipe where
  bytes : List UInt8
  splits : List Nat
  deriving DecidableEq

namespace Pipe

/-- One call of read(2). -/
def read (want : Nat) (p : Pipe) : List UInt8 × Pipe :=
  let n := min want (p.splits.headD p.bytes.length + 1)
  (p.bytes.take n, ⟨p.bytes.drop n, p.splits.tail⟩)

/-- `for (n = 0; n < want; n += i) { i = read(..); if (i == 0) break; }`, for at most `fuel`
    calls. -/
def readLoop : Nat → Nat → Pipe → List UInt8 × Pipe
  | 0, _, p => ([], p)
  | fuel + 1, want, p =>
    if want = 0 then ([], p)
    else
      let r := p.read want
      if r.1 = [] then ([], r.2)
      else
        let rest := readLoop fuel (want - r.1.length) r.2
        (r.1 ++ rest.1, rest.2)

def readFull (want : Nat) (p : Pipe) : List UInt8 × Pipe := readLoop want want p

theorem readLoop_spec {fuel want : Nat} (h : want ≤ fuel) (p : Pipe) :
    (readLoop fuel want p).1 = p.bytes.take want ∧
      (readLoop fuel want p).2.bytes = p.bytes.drop want := by
  induction fuel generalizing want p with
  | zero =>
    obtain rfl : want = 0 := by omega
    simp [readLoop]
  | succ fuel ih =>
    unfold readLoop
    by_cases h0 : want = 0
    · simp [h0]
    rw [if_neg h0]
    dsimp only
    by_cases hempty : (p.read want).1 = []
    · -- nothing comes back only at the end of file
      have hnil : p.bytes = [] := by
        have hpos : min want (p.splits.headD p.bytes.length + 1) ≠ 0 := by omega
        exact (List.take_eq_nil_iff.mp hempty).resolve_left hpos
      simp [read, hnil]
    · obtain ⟨n, hn⟩ : ∃ n, min want (p.splits.headD p.bytes.length + 1) = n := ⟨_, rfl⟩
      have hle : n ≤ want := by omega
      have hlen : (p.bytes.take n).length = min n p.bytes.length := List.length_take
      have hpos : (p.read want).1.length ≠ 0 := by simpa using hempty
      have hfuel : want - (p.read want).1.length ≤ fuel := by omega
      obtain ⟨h1, h2⟩ := ih hfuel (p.read want).2
      rw [if_neg hempty, h1, h2]
      simp only [read, hn, hlen]
      rcases le_total n p.bytes.length with hb | hb
      · rw [min_eq_left hb, List.drop_drop]
        constructor
        · rw [← List.take_add]
          congr 1
          omega
        · congr 1
          omega
      · rw [List.drop_eq_nil_of_le hb, List.take_of_length_le hb, List.take_nil,
          List.append_nil, List.drop_nil, List.take_of_length_le (hb.trans hle),
          List.drop_eq_nil_of_le (hb.trans hle)]
        exact ⟨rfl, rfl⟩

/-- The loop returns the next bytes and leaves the others, however the reads are split. -/
theorem readFull_spec (want : Nat) (p : Pipe) :
    ∃ splits, readFull want p = (p.bytes.take want, ⟨p.bytes.drop want, splits⟩) := by
  obtain ⟨h1, h2⟩ := readLoop_spec (le_refl want) p
  exact ⟨(readFull want p).2.splits, by rw [← h1, ← h2]; rfl⟩

end Pipe

end Lh1.Lib
