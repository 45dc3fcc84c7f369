/-
  Sums over the elements of a list whose key is in a class.

  `weight key val l p` adds up `val` over the elements of `l` whose key satisfies `p`. To leave `p`
  open in an invariant says that the sums agree key by key; then they still do when the elements
  of some keys are taken away. `update key k f l` changes the first element with key `k`.
-/
import Mathlib

namespace Lh1.Lib

variable {ρ : Type} {key val : ρ → Nat} {l : List ρ} {p q : Nat → Bool}

def weight (key val : ρ → Nat) (l : List ρ) (p : Nat → Bool) : Nat :=
  ((l.filter fun r => p (key r)).map val).sum

@[simp] theorem weight_nil : weight key val [] p = 0 := rfl

@[simp] theorem weight_cons (a : ρ) :
    weight key val (a :: l) p = (if p (key a) then val a else 0) + weight key val l p := by
  by_cases h : p (key a) <;> simp [weight, h]

@[simp] theorem weight_append (m : List ρ) :
    weight key val (l ++ m) p = weight key val l p + weight key val m p := by
  simp [weight]

theorem weight_true : weight key val l (fun _ => true) = (l.map val).sum := by
  simp [weight]

theorem weight_filter :
    weight key val (l.filter fun r => q (key r)) p = weight key val l fun k => p k && q k := by
  rw [weight, weight, List.filter_filter]

theorem weight_congr (h : ∀ r ∈ l, p (key r) = q (key r)) :
    weight key val l p = weight key val l q := by
  rw [weight, weight, List.filter_congr h]

/-- Two classes of which one begins where the other ends. -/
theorem weight_add (h : ∀ r ∈ l, ¬ (p (key r) ∧ q (key r))) :
    weight key val l p + weight key val l q = weight key val l fun k => p k || q k := by
  induction l with
  | nil => rfl
  | cons a l ih =>
    have ha := h a List.mem_cons_self
    have hl := ih fun r hr => h r (List.mem_cons_of_mem _ hr)
    simp only [weight_cons, ← hl]
    cases hp : p (key a) <;> cases hq : q (key a) <;> simp_all <;> omega

/-! ## Updates -/

def update (key : ρ → Nat) (k : Nat) (f : ρ → ρ) : List ρ → List ρ
  | [] => []
  | a :: l => if key a = k then f a :: l else a :: update key k f l

variable {k : Nat} {a : ρ} {f : ρ → ρ}

theorem length_update : (update key k f l).length = l.length := by
  induction l with
  | nil => rfl
  | cons b l ih =>
    by_cases hb : key b = k
    · rw [update, if_pos hb, List.length_cons, List.length_cons]
    · rw [update, if_neg hb, List.length_cons, List.length_cons, ih]

/-- The element that is found, with what is before it and what is behind it. -/
theorem exists_split (ha : l.find? (fun r => key r = k) = some a) :
    ∃ l₁ l₂, l = l₁ ++ a :: l₂ ∧ key a = k ∧ ∀ r ∈ l₁, key r ≠ k := by
  obtain ⟨hk, l₁, l₂, rfl, h₁⟩ := List.find?_eq_some_iff_append.mp ha
  exact ⟨l₁, l₂, rfl, of_decide_eq_true hk, fun r hr => by simpa using h₁ r hr⟩

section Split

variable {l₁ l₂ : List ρ} (h₁ : ∀ r ∈ l₁, key r ≠ k) (hk : key a = k)
include h₁ hk

theorem update_split : update key k f (l₁ ++ a :: l₂) = l₁ ++ f a :: l₂ := by
  induction l₁ with
  | nil => exact if_pos hk
  | cons b l₁ ih =>
    rw [List.cons_append, update, if_neg (h₁ b List.mem_cons_self),
      ih fun r hr => h₁ r (List.mem_cons_of_mem b hr), List.cons_append]

theorem find?_split : (l₁ ++ a :: l₂).find? (fun r => key r = k) = some a :=
  List.find?_eq_some_iff_append.mpr
    ⟨decide_eq_true hk, l₁, l₂, rfl, fun r hr => by simpa using h₁ r hr⟩

end Split

section Found

variable (ha : l.find? (fun r => key r = k) = some a)
include ha

theorem find?_update (hf : key (f a) = k) :
    (update key k f l).find? (fun r => key r = k) = some (f a) := by
  obtain ⟨l₁, l₂, rfl, hk, h₁⟩ := exists_split ha
  rw [update_split h₁ hk, find?_split h₁ hf]

/-- An update changes one element at most. -/
theorem mem_update {x : ρ} (hx : x ∈ update key k f l) : x ∈ l ∨ x = f a := by
  obtain ⟨l₁, l₂, rfl, hk, h₁⟩ := exists_split ha
  rw [update_split h₁ hk, List.mem_append, List.mem_cons] at hx
  rw [List.mem_append, List.mem_cons]
  tauto

/-- Only the element that is found matters to an update. -/
theorem update_congr {g : ρ → ρ} (hf : f a = g a) : update key k f l = update key k g l := by
  obtain ⟨l₁, l₂, rfl, hk, h₁⟩ := exists_split ha
  rw [update_split h₁ hk, update_split h₁ hk, hf]

theorem update_update {g : ρ → ρ} (hf : key (f a) = k) :
    update key k g (update key k f l) = update key k (fun r => g (f r)) l := by
  obtain ⟨l₁, l₂, rfl, hk, h₁⟩ := exists_split ha
  rw [update_split h₁ hk, update_split h₁ hf, update_split h₁ hk]

/-- An update seen through `g`. -/
theorem map_update {σ : Type} {key' : σ → Nat} {g : ρ → σ} {f' : σ → σ}
    (hkey : ∀ r, key' (g r) = key r) (hf : g (f a) = f' (g a)) :
    (update key k f l).map g = update key' k f' (l.map g) := by
  obtain ⟨l₁, l₂, rfl, hk, h₁⟩ := exists_split ha
  have h₁' : ∀ r ∈ l₁.map g, key' r ≠ k := List.forall_mem_map.mpr fun r hr => hkey r ▸ h₁ r hr
  rw [update_split h₁ hk, List.map_append, List.map_append, List.map_cons, List.map_cons,
    update_split h₁' ((hkey a).trans hk), hf]

theorem map_key_update (hf : key (f a) = k) : (update key k f l).map key = l.map key := by
  obtain ⟨l₁, l₂, rfl, hk, h₁⟩ := exists_split ha
  rw [update_split h₁ hk, List.map_append, List.map_append, List.map_cons, List.map_cons, hf, hk]

theorem weight_update (hf : key (f a) = k) :
    weight key val (update key k f l) p + (if p k then val a else 0)
      = weight key val l p + (if p k then val (f a) else 0) := by
  obtain ⟨l₁, l₂, rfl, hk, h₁⟩ := exists_split ha
  rw [update_split h₁ hk, weight_append, weight_append, weight_cons, weight_cons, hf, hk]
  omega

/-- The first element with key `k` gets `n` more. -/
theorem weight_update_add {n : Nat} (hf : key (f a) = k) (hn : val (f a) = val a + n) :
    weight key val (update key k f l) p = weight key val l p + if p k then n else 0 := by
  have h := @weight_update _ key val l p _ _ _ ha hf
  cases hp : p k
  · simpa [hp] using h
  · rw [hp, hn] at h
    simp only [if_true] at h ⊢
    omega

end Found

end Lh1.Lib
