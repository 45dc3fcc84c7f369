/-
  A finite store: addresses with at most one value each.

  Beside the usual laws of `get` under `modify`, `insert` and `erase`, `total f` sums a weight
  over the whole store, for counting how often the values refer to something. One law per
  update says how the sum changes.
-/
import Mathlib

namespace Lh1.Lib

structure Store (κ ν : Type*) where
  entries : List (κ × ν)
  nodup : (entries.map Prod.fst).Nodup

namespace Store

variable {κ ν : Type*} [DecidableEq κ]

def empty : Store κ ν := ⟨[], List.nodup_nil⟩

def get (s : Store κ ν) (k : κ) : Option ν :=
  (s.entries.find? (fun e => e.1 = k)).map Prod.snd

/-- Change the value at `k`, if there is one. -/
def modify (s : Store κ ν) (k : κ) (f : ν → ν) : Store κ ν where
  entries := s.entries.map fun e => if e.1 = k then (e.1, f e.2) else e
  nodup := by
    have h : (s.entries.map fun e => if e.1 = k then (e.1, f e.2) else e).map Prod.fst =
        s.entries.map Prod.fst := by
      rw [List.map_map]
      congr 1
      funext e
      simp only [Function.comp_apply]
      split <;> rfl
    rw [h]
    exact s.nodup

/-- Add a value at a new address. An address in use keeps its value. -/
def insert (s : Store κ ν) (k : κ) (v : ν) : Store κ ν :=
  if h : k ∈ s.entries.map Prod.fst then s
  else ⟨(k, v) :: s.entries, List.nodup_cons.mpr ⟨h, s.nodup⟩⟩

def erase (s : Store κ ν) (k : κ) : Store κ ν where
  entries := s.entries.filter fun e => e.1 ≠ k
  nodup := s.nodup.sublist (List.filter_sublist.map _)

/-- What `g` says of the value at `k`, and zero if there is none. -/
def valAt (s : Store κ ν) (g : ν → Nat) (k : κ) : Nat :=
  match s.get k with
  | some v => g v
  | none => 0

/-- The sum of `f` over the store. -/
def total (s : Store κ ν) (f : κ → ν → Nat) : Nat := (s.entries.map fun e => f e.1 e.2).sum

/-! ## `get` -/

variable {s : Store κ ν} {k : κ} {v : ν}

theorem get_eq_some : s.get k = some v ↔ (k, v) ∈ s.entries := by
  unfold get
  obtain ⟨es, hn⟩ := s
  dsimp only at hn ⊢
  induction es with
  | nil => simp
  | cons e es ih =>
    rw [List.map_cons, List.nodup_cons] at hn
    rw [List.find?_cons]
    by_cases he : e.1 = k
    · simp only [he, decide_true, Option.map_some, Option.some.injEq, List.mem_cons]
      constructor
      · rintro rfl
        exact Or.inl (by rw [← he])
      · rintro (h | h)
        · rw [← h]
        · exact absurd (he ▸ List.mem_map_of_mem h) hn.1
    · simp only [he, decide_false, List.mem_cons]
      rw [ih hn.2]
      constructor
      · exact Or.inr
      · rintro (h | h)
        · exact absurd (by rw [← h]) he
        · exact h

theorem get_eq_none : s.get k = none ↔ k ∉ s.entries.map Prod.fst := by
  constructor
  · intro h hmem
    obtain ⟨e, he, rfl⟩ := List.mem_map.mp hmem
    have := get_eq_some.mpr (show (e.1, e.2) ∈ s.entries from he)
    rw [h] at this
    cases this
  · intro h
    cases hk : s.get k with
    | none => rfl
    | some v => exact absurd (List.mem_map_of_mem (get_eq_some.mp hk)) h

theorem get_modify (s : Store κ ν) (k j : κ) (f : ν → ν) :
    (s.modify k f).get j = if j = k then (s.get j).map f else s.get j := by
  have hfind : ∀ es : List (κ × ν), (es.map fun e => if e.1 = k then (e.1, f e.2) else e).find?
      (fun e => e.1 = j) = (es.find? fun e => e.1 = j).map
        (fun e => if e.1 = k then (e.1, f e.2) else e) := by
    intro es
    rw [List.find?_map]
    congr 2
    funext e
    simp only [Function.comp_apply]
    split <;> rfl
  rw [get, get, modify, hfind]
  cases hf : s.entries.find? (fun e => e.1 = j) with
  | none => simp
  | some e =>
    have he : e.1 = j := by simpa using List.find?_some hf
    simp only [Option.map_some, he]
    split <;> rfl

@[simp] theorem get_modify_self (s : Store κ ν) (k : κ) (f : ν → ν) :
    (s.modify k f).get k = (s.get k).map f := by
  rw [get_modify, if_pos rfl]

theorem get_modify_some (f : ν → ν) (h : s.get k = some v) : (s.modify k f).get k = some (f v) := by
  rw [get_modify_self, h]
  rfl

theorem get_modify_of_ne (s : Store κ ν) {j : κ} (f : ν → ν) (h : j ≠ k) :
    (s.modify k f).get j = s.get j := by
  rw [get_modify, if_neg h]

theorem get_insert (s : Store κ ν) (k j : κ) (v : ν) (h : s.get k = none) :
    (s.insert k v).get j = if j = k then some v else s.get j := by
  rw [insert, dif_neg (get_eq_none.mp h)]
  rw [get, List.find?_cons]
  by_cases hj : j = k
  · simp [hj]
  · have : ¬ k = j := fun hc => hj hc.symm
    simp only [this, decide_false, if_neg hj]
    rfl

theorem get_erase (s : Store κ ν) (k j : κ) :
    (s.erase k).get j = if j = k then none else s.get j := by
  by_cases hj : j = k
  · subst hj
    rw [if_pos rfl, get_eq_none, erase]
    simp
  · rw [if_neg hj, get, get, erase, List.find?_filter]
    congr 2
    funext e
    by_cases he : e.1 = j
    · have : e.1 ≠ k := he ▸ hj
      simp [he, hj]
    · simp [he]

theorem modify_modify (s : Store κ ν) (k : κ) (f g : ν → ν) :
    (s.modify k f).modify k g = s.modify k (g ∘ f) := by
  obtain ⟨es, hn⟩ := s
  simp only [modify, mk.injEq, List.map_map]
  refine List.map_congr_left fun e _ => ?_
  by_cases he : e.1 = k
  · simp [he]
  · simp [he]

theorem erase_modify (s : Store κ ν) (k : κ) (f : ν → ν) : (s.modify k f).erase k = s.erase k := by
  obtain ⟨es, hn⟩ := s
  simp only [erase, modify, mk.injEq]
  clear hn
  induction es with
  | nil => rfl
  | cons e es ih =>
    rw [List.map_cons, List.filter_cons, List.filter_cons, ih]
    by_cases he : e.1 = k
    · simp [he]
    · simp [he]

/-! ## `valAt` -/

theorem valAt_some (g : ν → Nat) (h : s.get k = some v) : s.valAt g k = g v := by
  rw [valAt, h]

theorem valAt_none (g : ν → Nat) (h : s.get k = none) : s.valAt g k = 0 := by
  rw [valAt, h]

theorem valAt_modify (f : ν → ν) (g : ν → Nat) (j : κ) (h : s.get k = some v) :
    (s.modify k f).valAt g j = if j = k then g (f v) else s.valAt g j := by
  rw [valAt, get_modify]
  by_cases hj : j = k
  · rw [if_pos hj, if_pos hj, hj, h]
    rfl
  · rw [if_neg hj, if_neg hj]
    rfl

theorem valAt_insert (v : ν) (g : ν → Nat) (j : κ) (h : s.get k = none) :
    (s.insert k v).valAt g j = if j = k then g v else s.valAt g j := by
  rw [valAt, get_insert s k j v h]
  by_cases hj : j = k
  · rw [if_pos hj, if_pos hj]
  · rw [if_neg hj, if_neg hj]
    rfl

theorem valAt_erase (s : Store κ ν) (k : κ) (g : ν → Nat) (j : κ) :
    (s.erase k).valAt g j = if j = k then 0 else s.valAt g j := by
  rw [valAt, get_erase]
  by_cases hj : j = k
  · rw [if_pos hj, if_pos hj]
  · rw [if_neg hj, if_neg hj]
    rfl

/-! ## `total` -/

theorem total_modify (g : ν → ν) (f : κ → ν → Nat) (h : s.get k = some v) :
    (s.modify k g).total f + f k v = s.total f + f k (g v) := by
  rw [get_eq_some] at h
  obtain ⟨es, hn⟩ := s
  simp only [total, modify] at h hn ⊢
  induction es with
  | nil => simp at h
  | cons e es ih =>
    rw [List.map_cons, List.nodup_cons] at hn
    simp only [List.map_cons, List.sum_cons]
    rcases List.mem_cons.mp h with h | h
    · have hrest : (es.map fun e => if e.1 = k then (e.1, g e.2) else e) = es := by
        conv => rhs; rw [← List.map_id es]
        refine List.map_congr_left (fun x hx => ?_)
        have : x.1 ≠ k := by
          intro hc
          have hk : e.1 = x.1 := by rw [← h, hc]
          exact hn.1 (hk ▸ List.mem_map_of_mem hx)
        rw [if_neg this]
        rfl
      rw [hrest, ← h]
      simp only [if_true]
      omega
    · have hne : e.1 ≠ k := by
        intro hc
        exact hn.1 (hc ▸ List.mem_map_of_mem h)
      have := ih hn.2 h
      simp only [if_neg hne]
      omega

theorem total_insert (v : ν) (f : κ → ν → Nat) (h : s.get k = none) :
    (s.insert k v).total f = s.total f + f k v := by
  rw [insert, dif_neg (get_eq_none.mp h), total, total, List.map_cons, List.sum_cons, Nat.add_comm]

theorem total_erase (f : κ → ν → Nat) (h : s.get k = some v) :
    (s.erase k).total f + f k v = s.total f := by
  rw [get_eq_some] at h
  obtain ⟨es, hn⟩ := s
  simp only [total, erase] at h hn ⊢
  induction es with
  | nil => simp at h
  | cons e es ih =>
    rw [List.map_cons, List.nodup_cons] at hn
    rcases List.mem_cons.mp h with h | h
    · have hrest : (es.filter fun x => x.1 ≠ k) = es := by
        rw [List.filter_eq_self]
        intro x hx
        have : x.1 ≠ k := by
          intro hc
          have hk : e.1 = x.1 := by rw [← h, hc]
          exact hn.1 (hk ▸ List.mem_map_of_mem hx)
        simp [this]
      have hk : e.1 = k := by rw [← h]
      simp only [List.filter_cons, hk, ne_eq, not_true_eq_false, decide_false, List.map_cons,
        List.sum_cons]
      simp only [Bool.false_eq_true, if_false]
      simp only [ne_eq] at hrest
      rw [hrest, ← h]
      dsimp only
      omega
    · have hk : e.1 ≠ k := fun hc => hn.1 (hc ▸ List.mem_map_of_mem h)
      simp only [List.filter_cons, hk, ne_eq, not_false_eq_true, decide_true, if_true,
        List.map_cons, List.sum_cons]
      have := ih hn.2 h
      simp only [ne_eq] at this
      omega

theorem le_total (f : κ → ν → Nat) (h : s.get k = some v) : f k v ≤ s.total f := by
  have := total_erase f h
  omega

/-- An update that keeps the weight of the value keeps the sum. -/
theorem total_modify_eq {g : ν → ν} {f : κ → ν → Nat}
    (h : ∀ v, s.get k = some v → f k (g v) = f k v) : (s.modify k g).total f = s.total f := by
  cases hk : s.get k with
  | some v =>
    have := total_modify g f hk
    rw [h v hk] at this
    omega
  | none =>
    have hrest : (s.entries.map fun e => if e.1 = k then (e.1, g e.2) else e) = s.entries := by
      conv => rhs; rw [← List.map_id s.entries]
      refine List.map_congr_left (fun x hx => ?_)
      have : x.1 ≠ k := fun hc => get_eq_none.mp hk (hc ▸ List.mem_map_of_mem hx)
      rw [if_neg this]
      rfl
    change ((s.entries.map _).map _).sum = _
    rw [hrest]
    rfl

end Store

end Lh1.Lib
