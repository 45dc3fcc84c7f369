/-
  Comparison functions that return a negative number, zero or a positive number.

  A key with several fields is compared field by field, the first difference decides. Such a
  function compares the lists of the fields in the lexicographic order, and one that stops after
  some fields compares what is left when the lists are cut.

  `List.argmax` selects the first element with the greatest value; in a strictly increasing list
  "first" is the order of the elements themselves.

  * `Compares.field`: one more field in front.
  * `take_le_take`: cutting keeps the order.
  * `argmax_eq_some_iff`: the first maximum of a list that is sorted.
-/
import Mathlib

namespace Lh1.Lib

variable {α : Type*} [LinearOrder α] {a b : α} {r : Int}

/-- The number `r` says how `a` compares with `b`. -/
structure Compares (r : Int) (a b : α) : Prop where
  neg : r < 0 ↔ a < b
  pos : 0 < r ↔ b < a

theorem Compares.nonneg (h : Compares r a b) : 0 ≤ r ↔ b ≤ a := by
  rw [← not_lt, h.neg, not_lt]

theorem Compares.nonpos (h : Compares r a b) : r ≤ 0 ↔ a ≤ b := by
  rw [← not_lt, h.pos, not_lt]

theorem Compares.zero (h : Compares r a b) : r = 0 ↔ a = b := by
  rw [le_antisymm_iff, h.nonpos, h.nonneg, ← le_antisymm_iff]

theorem compares_nil : Compares 0 ([] : List α) [] := ⟨by simp, by simp⟩

/-- The first field decides, unless it is the same. -/
theorem Compares.field {p q : Prop} [Decidable p] [Decidable q] {c : Int} {xs ys : List α} {x y : α}
    (h : Compares r xs ys) (hc : 0 < c) (hp : p ↔ x < y) (hq : q ↔ y < x) :
    Compares (if p then -c else if q then c else r) (x :: xs) (y :: ys) := by
  rcases lt_trichotomy x y with hlt | rfl | hgt
  · rw [if_pos (hp.mpr hlt)]
    refine ⟨?_, ?_⟩
    · rw [List.cons_lt_cons_iff]
      exact ⟨fun _ => Or.inl hlt, fun _ => by omega⟩
    · rw [List.cons_lt_cons_iff]
      refine ⟨fun h => by omega, fun h => ?_⟩
      rcases h with h | ⟨h, -⟩
      · exact absurd hlt h.not_gt
      · exact absurd hlt h.not_gt
  · rw [if_neg (fun h => lt_irrefl x (hp.mp h)), if_neg (fun h => lt_irrefl x (hq.mp h))]
    refine ⟨?_, ?_⟩
    · rw [List.cons_lt_cons_iff, h.neg]
      simp
    · rw [List.cons_lt_cons_iff, h.pos]
      simp
  · rw [if_neg (fun h => hgt.not_gt (hp.mp h)), if_pos (hq.mpr hgt)]
    refine ⟨?_, ?_⟩
    · rw [List.cons_lt_cons_iff]
      refine ⟨fun h => by omega, fun h => ?_⟩
      rcases h with h | ⟨h, -⟩
      · exact absurd hgt h.not_gt
      · exact absurd hgt h.not_gt
    · rw [List.cons_lt_cons_iff]
      exact ⟨fun _ => Or.inl hgt, fun _ => hc⟩

theorem lt_of_take_lt {xs ys : List α} (n : Nat) (h : xs.take n < ys.take n) : xs < ys := by
  induction n generalizing xs ys with
  | zero => exact absurd h (lt_irrefl _)
  | succ n ih =>
    cases xs with
    | nil =>
      cases ys with
      | nil => exact absurd h (lt_irrefl _)
      | cons y ys => exact List.nil_lt_cons y ys
    | cons x xs =>
      cases ys with
      | nil => exact absurd h (List.not_lt_nil _)
      | cons y ys =>
        rw [List.take_succ_cons, List.take_succ_cons, List.cons_lt_cons_iff] at h
        rw [List.cons_lt_cons_iff]
        exact h.imp_right fun h => ⟨h.1, ih h.2⟩

theorem take_le_take {xs ys : List α} (n : Nat) (h : xs ≤ ys) : xs.take n ≤ ys.take n :=
  not_lt.mp fun hlt => (lt_of_take_lt n hlt).not_ge h

end Lh1.Lib

namespace Lh1.Lib

/-! ## The first maximum -/

variable {α β : Type*} [LinearOrder α] [LinearOrder β] {f : α → β} {l : List α} {a b m : α}

theorem idxOf_le_idxOf_iff (hl : l.Pairwise (· < ·)) (ha : a ∈ l) (hb : b ∈ l) :
    l.idxOf a ≤ l.idxOf b ↔ a ≤ b := by
  have h := hl.sortedLT.strictMono_get.le_iff_le
    (a := ⟨l.idxOf a, List.idxOf_lt_length_of_mem ha⟩)
    (b := ⟨l.idxOf b, List.idxOf_lt_length_of_mem hb⟩)
  rw [List.idxOf_get, List.idxOf_get] at h
  exact h.symm

/-- `m` is the first maximum when everything else is less, or equal and later. -/
theorem argmax_eq_some_iff (hl : l.Pairwise (· < ·)) :
    l.argmax f = some m ↔ m ∈ l ∧ ∀ a ∈ l, f a < f m ∨ f a = f m ∧ m ≤ a := by
  rw [← Option.mem_def, List.mem_argmax_iff]
  constructor
  · rintro ⟨hm, hmax, hfirst⟩
    refine ⟨hm, fun a ha => ?_⟩
    rcases (hmax a ha).lt_or_eq with h | h
    · exact Or.inl h
    · exact Or.inr ⟨h, (idxOf_le_idxOf_iff hl hm ha).mp (hfirst a ha h.ge)⟩
  · rintro ⟨hm, h⟩
    refine ⟨hm, fun a ha => ?_, fun a ha hle => ?_⟩
    · rcases h a ha with h | h
      · exact h.le
      · exact h.1.le
    · rcases h a ha with h | h
      · exact absurd h hle.not_gt
      · exact (idxOf_le_idxOf_iff hl hm ha).mpr h.2

end Lh1.Lib
