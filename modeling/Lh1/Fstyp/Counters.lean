/-
  The volume counters of fstyp (usr.sbin/fstyp/hammer.c and hammer2.c).

  `__fsvtyp_hammer` and `__fsvtyp_hammer2` count in an array of `char`s how often each volume id
  is listed, and then look whether the ids from 0 to the count of the root header are there once
  and no others are. A `char` is signed here and wraps at 128.

  * `tally_eq`: the counter of an id is the number of times it is listed, wrapped.
  * `idsOk_iff`: what the three loops over the counters accept.
  * `idsOk_tally_iff`: when no id is listed 128 times or more, that each id below the count is
    listed once and no other is.
-/
import Mathlib

namespace Lh1.Fstyp

/-- `x[id]++` on a signed `char`. -/
def charInc (c : Int) : Int := Int.bmod (c + 1) 256

/-- The counters after the ids of a list. -/
def tally (ids : List Nat) : Nat → Int :=
  ids.foldl (fun x id => Function.update x id (charInc (x id))) fun _ => 0

/-- `for (i = from; i < max; i++) if (x[i] == 0) break;` -/
def firstAbsent (x : Nat → Int) : Nat → Nat → Nat
  | 0, i => i
  | n + 1, i => if x i = 0 then i else firstAbsent x n (i + 1)

/-- The three loops over the counters. `count` is the volume count of the root header. -/
def idsOk (max : Nat) (x : Nat → Int) (count : Int) : Bool :=
  let i := firstAbsent x max 0
  decide (∀ j < max, ¬ x j > 1) && decide (count = i) && decide (∀ j < max, i ≤ j → x j = 0)

/-- Each id below `count` is listed once, and no other id is. -/
def ExactlyOnce (ids : List Nat) (count : Nat) : Prop :=
  ∀ id, ids.count id = if id < count then 1 else 0

/-- No id is listed so often that its counter wraps. -/
def Rare (ids : List Nat) : Prop := ∀ id, ids.count id < 128

/-! ## Counting -/

theorem foldl_tally (ids : List Nat) (x : Nat → Int) (c : Nat → Nat)
    (hx : ∀ id, x id = Int.bmod (c id) 256) (id : Nat) :
    ids.foldl (fun x id => Function.update x id (charInc (x id))) x id =
      Int.bmod ((c id + ids.count id : Nat) : Int) 256 := by
  induction ids generalizing x c with
  | nil => simpa using hx id
  | cons a ids ih =>
    rw [List.foldl_cons, ih _ (Function.update c a (c a + 1))]
    · by_cases h : id = a
      · subst h
        rw [Function.update_self, List.count_cons_self]
        congr 2
        omega
      · rw [Function.update_of_ne h, List.count_cons_of_ne (Ne.symm h)]
    · intro b
      by_cases h : b = a
      · subst h
        rw [Function.update_self, Function.update_self, charInc, hx]
        push_cast
        exact Int.bmod_add_bmod
      · rw [Function.update_of_ne h, Function.update_of_ne h, hx]

theorem tally_eq (ids : List Nat) (id : Nat) : tally ids id = Int.bmod (ids.count id) 256 := by
  have h := foldl_tally ids (fun _ => 0) (fun _ => 0) (fun _ => rfl) id
  rwa [Nat.zero_add] at h

theorem tally_of_rare {ids : List Nat} (h : Rare ids) (id : Nat) : tally ids id = ids.count id := by
  have := h id
  rw [tally_eq, Int.bmod_eq_of_le] <;> omega

/-! ## The check -/

theorem firstAbsent_spec (x : Nat → Int) (n i : Nat) :
    i ≤ firstAbsent x n i ∧ firstAbsent x n i ≤ i + n ∧
      (∀ j, i ≤ j → j < firstAbsent x n i → x j ≠ 0) := by
  induction n generalizing i with
  | zero => exact ⟨Nat.le_refl _, Nat.le_refl _, fun j h1 h2 => absurd h2 (Nat.not_lt.mpr h1)⟩
  | succ n ih =>
    rw [firstAbsent]
    split
    · exact ⟨Nat.le_refl _, Nat.le_add_right _ _, fun j h1 h2 => absurd h2 (Nat.not_lt.mpr h1)⟩
    · rename_i hne
      obtain ⟨h1, h2, h3⟩ := ih (i + 1)
      refine ⟨by omega, by omega, fun j hj hlt => ?_⟩
      rcases Nat.eq_or_lt_of_le hj with rfl | hgt
      · exact hne
      · exact h3 j hgt hlt

/-- The first index at which the counters from `i` on are 0 is the one the loop stops at. -/
theorem firstAbsent_eq {x : Nat → Int} {n i c : Nat} (hi : i ≤ c) (hc : c ≤ i + n)
    (hne : ∀ j, i ≤ j → j < c → x j ≠ 0) (hz : c < i + n → x c = 0) : firstAbsent x n i = c := by
  induction n generalizing i with
  | zero => exact Nat.le_antisymm hi hc
  | succ n ih =>
    rw [firstAbsent]
    split
    · rename_i hx
      rcases Nat.eq_or_lt_of_le hi with h | h
      · exact h
      · exact absurd hx (hne i (Nat.le_refl _) h)
    · rename_i hx
      have hlt : i < c := by
        rcases Nat.eq_or_lt_of_le hi with rfl | h
        · exact absurd (hz (by omega)) hx
        · exact h
      exact ih hlt (by omega) (fun j hj => hne j (by omega)) (fun h => hz (by omega))

theorem idsOk_iff {max count : Nat} {x : Nat → Int} :
    idsOk max x count = true ↔ (∀ j < max, x j ≤ 1) ∧ count ≤ max ∧ (∀ j < count, x j ≠ 0) ∧
      (∀ j < max, count ≤ j → x j = 0) := by
  simp only [idsOk, Bool.and_eq_true, decide_eq_true_eq, gt_iff_lt, not_lt]
  obtain ⟨-, h2, h3⟩ := firstAbsent_spec x max 0
  constructor
  · rintro ⟨⟨h1, hcount⟩, h4⟩
    rw [← Int.ofNat_inj.mp hcount] at h2 h3 h4
    exact ⟨h1, by omega, fun j => h3 j (Nat.zero_le _), h4⟩
  · rintro ⟨h1, hc, hne, hz⟩
    have heq : firstAbsent x max 0 = count := firstAbsent_eq (Nat.zero_le _) (by omega)
      (fun j _ => hne j) (fun h => hz count (by omega) (Nat.le_refl _))
    rw [heq]
    exact ⟨⟨h1, rfl⟩, hz⟩

/-- Without wrapped counters the check says what it is meant to say. -/
theorem idsOk_tally_iff {max count : Nat} {ids : List Nat} (hids : ∀ id ∈ ids, id < max)
    (h : Rare ids) : idsOk max (tally ids) count = true ↔ count ≤ max ∧ ExactlyOnce ids count := by
  simp only [idsOk_iff, tally_of_rare h]
  constructor
  · rintro ⟨h1, hc, hne, hz⟩
    refine ⟨hc, fun id => ?_⟩
    split
    · rename_i hlt
      have ha := h1 id (by omega)
      have hb := hne id hlt
      omega
    · rename_i hge
      rcases Nat.lt_or_ge id max with hm | hm
      · have := hz id hm (by omega)
        omega
      · rw [List.count_eq_zero]
        exact fun hmem => absurd (hids id hmem) (by omega)
  · rintro ⟨hc, hex⟩
    refine ⟨fun j _ => ?_, hc, fun j hj => ?_, fun j _ hj => ?_⟩
    · rw [hex]; split <;> decide
    · rw [hex, if_pos hj]; decide
    · rw [hex, if_neg (by omega)]; rfl

theorem ExactlyOnce.rare {ids : List Nat} {count : Nat} (h : ExactlyOnce ids count) : Rare ids := by
  intro id
  rw [h id]
  split <;> decide

end Lh1.Fstyp
