/-
  Computations that change a state and can fail.

  `bind_ok_iff` and `bind_error_iff` take a sequence apart, when it is known how it ends.
  `Avoids E x s` says that `x`, started in `s`, does not fail with an error of the kind `E`. It
  is an equivalence for every way in which computations are put together, so that the errors a
  program can run into are found by rewriting. `Within R x` says that whatever `x` does, the
  preorder `R` holds from the state before to the state after.

  `check p e` fails with `e` unless `p` holds. A sequence of checks, or the same check of every
  element of a list, succeeds when all of them do.

  `loop n body a` is `for (i = 0; i < n; ++i)` with `a` as the accumulator. `loop_inv` is the
  invariant rule; `loop_run` is the same when the body succeeds under the invariant, and gives
  that the loop does.
-/
import Mathlib

namespace Lh1.Lib

variable {σ ε α β : Type} {x : StateT σ (Except ε) α} {f : α → StateT σ (Except ε) β}

/-! ## How a computation ends -/

theorem bind_ok_iff {s : σ} {b : β} {s' : σ} :
    (x >>= f) s = .ok (b, s') ↔ ∃ a t, x s = .ok (a, t) ∧ f a t = .ok (b, s') := by
  change (x s >>= fun p => f p.1 p.2) = _ ↔ _
  cases hx : x s with
  | error e => simp [bind, Except.bind]
  | ok p =>
    obtain ⟨a, t⟩ := p
    simp [bind, Except.bind]

theorem bind_error_iff {s : σ} {err : ε} :
    (x >>= f) s = .error err ↔
      x s = .error err ∨ ∃ a t, x s = .ok (a, t) ∧ f a t = .error err := by
  change (x s >>= fun p => f p.1 p.2) = _ ↔ _
  cases hx : x s with
  | error e => simp [bind, Except.bind]
  | ok p =>
    obtain ⟨a, t⟩ := p
    simp [bind, Except.bind]

/-- A sequence goes on where its first part ends. -/
theorem bind_of_ok {s t : σ} {a : α} (h : x s = .ok (a, t)) : (x >>= f) s = f a t := by
  change (x s >>= fun p => f p.1 p.2) = _
  rw [h]
  rfl

theorem pure_ok_iff {s s' : σ} {a b : α} :
    (pure a : StateT σ (Except ε) α) s = .ok (b, s') ↔ b = a ∧ s' = s := by
  constructor
  · intro h
    cases h
    exact ⟨rfl, rfl⟩
  · rintro ⟨rfl, rfl⟩
    rfl

/-- What holds of a result can be decided where the result can be computed. -/
instance decidableForallOk {y : Except ε α} {p : α → Prop} [DecidablePred p] :
    Decidable (∀ a, y = .ok a → p a) :=
  match y with
  | .error _ => .isTrue fun _ h => by cases h
  | .ok a => decidable_of_iff (p a) ⟨fun h _ e => by cases e; exact h, fun h => h a rfl⟩

/-! ## Errors that do not occur -/

def Avoids (E : ε → Prop) (x : StateT σ (Except ε) α) (s : σ) : Prop :=
  ∀ err, x s = .error err → ¬ E err

variable {E : ε → Prop} {s : σ}

/-- Only what is done in the state at hand counts. -/
theorem avoids_congr {y : StateT σ (Except ε) α} {t : σ} (h : x s = y t) :
    Avoids E x s ↔ Avoids E y t := by
  simp only [Avoids, h]

theorem avoids_bind : Avoids E (x >>= f) s ↔
    Avoids E x s ∧ ∀ a t, x s = .ok (a, t) → Avoids E (f a) t := by
  simp only [Avoids, bind_error_iff]
  constructor
  · exact fun h => ⟨fun err hx => h err (Or.inl hx),
      fun a t hx err hf => h err (Or.inr ⟨a, t, hx, hf⟩)⟩
  · rintro ⟨h1, h2⟩ err (hx | ⟨a, t, hx, hf⟩)
    · exact h1 err hx
    · exact h2 a t hx err hf

/-- The first part of a sequence does not fail. -/
theorem avoids_bind_ok {a : α} {t : σ} (h : x s = .ok (a, t)) :
    Avoids E (x >>= f) s ↔ Avoids E (f a) t := by
  rw [avoids_bind]
  simp [Avoids, h]

theorem avoids_of_ok {a : α} {t : σ} (h : x s = .ok (a, t)) : Avoids E x s := by
  simp [Avoids, h]

theorem avoids_pure (a : α) : Avoids E (pure a : StateT σ (Except ε) α) s :=
  avoids_of_ok rfl

/-! ## What a computation leaves as it was -/

def Within (R : σ → σ → Prop) (x : StateT σ (Except ε) α) : Prop :=
  ∀ s a s', x s = .ok (a, s') → R s s'

section Within

variable {R : σ → σ → Prop} [IsPreorder σ R]

theorem within_pure (a : α) : Within R (pure a : StateT σ (Except ε) α) := by
  intro s b s' h
  obtain ⟨-, rfl⟩ := pure_ok_iff.mp h
  exact refl_of R s'

theorem Within.bind (hx : Within R x) (hf : ∀ a, Within R (f a)) : Within R (x >>= f) := by
  intro s b s' h
  obtain ⟨a, t, h1, h2⟩ := bind_ok_iff.mp h
  exact trans_of R (hx s a t h1) (hf a t b s' h2)

end Within

end Lh1.Lib

namespace Lh1.Lib

/-! ## Counting loops -/

variable {σ ε α : Type} {body : Nat → α → StateT σ (Except ε) α} {n : Nat} {a b : α} {s s' : σ}

def loop (n : Nat) (body : Nat → α → StateT σ (Except ε) α) (a : α) : StateT σ (Except ε) α :=
  match n with
  | 0 => pure a
  | n + 1 => do
    let b ← loop n body a
    body n b

theorem loop_inv {P : Nat → α → σ → Prop} (h0 : P 0 a s)
    (hstep : ∀ i < n, ∀ a s b s', P i a s → body i a s = .ok (b, s') → P (i + 1) b s')
    (h : loop n body a s = .ok (b, s')) : P n b s' := by
  induction n generalizing b s' with
  | zero =>
    obtain ⟨rfl, rfl⟩ := pure_ok_iff.mp h
    exact h0
  | succ n ih =>
    obtain ⟨c, t, h1, h2⟩ := bind_ok_iff.mp h
    exact hstep n n.lt_succ_self c t b s'
      (ih (fun i hi => hstep i (Nat.lt_succ_of_lt hi)) h1) h2

theorem loop_run {P : Nat → α → σ → Prop} (h0 : P 0 a s)
    (hstep : ∀ i < n, ∀ a s, P i a s → ∃ b s', body i a s = .ok (b, s') ∧ P (i + 1) b s') :
    ∃ b s', loop n body a s = .ok (b, s') ∧ P n b s' := by
  induction n with
  | zero => exact ⟨a, s, rfl, h0⟩
  | succ n ih =>
    obtain ⟨c, t, h1, hP⟩ := ih fun i hi => hstep i (Nat.lt_succ_of_lt hi)
    obtain ⟨b, s', h2, hP'⟩ := hstep n n.lt_succ_self c t hP
    exact ⟨b, s', bind_ok_iff.mpr ⟨c, t, h1, h2⟩, hP'⟩

theorem within_loop {R : σ → σ → Prop} [IsPreorder σ R] (h : ∀ i a, Within R (body i a)) :
    Within R (loop n body a) := by
  induction n with
  | zero => exact within_pure a
  | succ n ih => exact ih.bind fun b => h n b

end Lh1.Lib

namespace Lh1.Lib

/-! ## Checks, one after the other -/

variable {ε α β : Type}

def check (p : Prop) [Decidable p] (e : ε) : Except ε Unit := if p then .ok () else .error e

@[simp] theorem check_ok_iff {p : Prop} [Decidable p] {e : ε} : check p e = .ok () ↔ p := by
  rw [check]
  split_ifs with h
  · exact iff_of_true rfl h
  · exact iff_of_false (fun h => by cases h) h

theorem except_ok_bind {f : α → Except ε β} {a : α} : ((.ok a : Except ε α) >>= f) = f a := rfl

theorem except_bind_ok_iff {x : Except ε α} {f : α → Except ε β} {b : β} :
    (x >>= f) = .ok b ↔ ∃ a, x = .ok a ∧ f a = .ok b := by
  cases x with
  | error e => exact iff_of_false (fun h => by cases h) (fun ⟨_, h, _⟩ => by cases h)
  | ok a => exact ⟨fun h => ⟨a, rfl, h⟩, fun ⟨_, h, hf⟩ => by cases h; exact hf⟩

@[simp] theorem check_bind_ok_iff {x : Except ε Unit} {f : Unit → Except ε α} {a : α} :
    (x >>= f) = .ok a ↔ x = .ok () ∧ f () = .ok a := by
  rw [except_bind_ok_iff]
  exact ⟨fun ⟨_, h⟩ => h, fun h => ⟨(), h⟩⟩

@[simp] theorem forM_ok_iff {f : α → Except ε Unit} {l : List α} :
    l.forM f = .ok () ↔ ∀ a ∈ l, f a = .ok () := by
  induction l with
  | nil => exact iff_of_true rfl (by simp)
  | cons a l ih =>
    change (f a >>= fun _ => l.forM f) = .ok () ↔ _
    rw [check_bind_ok_iff, ih, List.forall_mem_cons]

theorem exists_ok {ε α : Type} {x : Except ε α} (h : x.isOk = true) : ∃ a, x = .ok a := by
  cases x with
  | error e => cases h
  | ok a => exact ⟨a, rfl⟩

end Lh1.Lib
