/-
  Runs of a state machine whose steps can fail.

  `run step s as` takes the steps `as` from `s` and stops at the first failure. The rules
  below lift what one step does to whole runs that do not fail. `Along` says that every step of
  a run meets a condition on the state it is taken in.
-/
import Mathlib

namespace Lh1.Lib

variable {σ α ε : Type*} {step : σ → α → Except ε σ}

def run (step : σ → α → Except ε σ) : σ → List α → Except ε σ
  | s, [] => .ok s
  | s, a :: as =>
    match step s a with
    | .ok s' => run step s' as
    | .error e => .error e

@[simp] theorem run_nil (s : σ) : run step s [] = .ok s := rfl

theorem run_cons_ok {s s' : σ} {a : α} (h : step s a = .ok s') (as : List α) :
    run step s (a :: as) = run step s' as := by
  rw [run, h]

variable {as : List α} {P : σ → α → Prop}

theorem run_append {s s' : σ} (h : run step s as = .ok s') (bs : List α) :
    run step s (as ++ bs) = run step s' bs := by
  induction as generalizing s with
  | nil => cases h; rfl
  | cons a as ih =>
    rw [run] at h
    rw [List.cons_append, run]
    cases hs : step s a with
    | ok t => rw [hs] at h; exact ih h
    | error e => rw [hs] at h; cases h

/-- A run that does not fail takes its first step and goes on. -/
theorem run_cons_inv {s t : σ} {a : α} (h : run step s (a :: as) = .ok t) :
    ∃ s', step s a = .ok s' ∧ run step s' as = .ok t := by
  rw [run] at h
  cases hs : step s a with
  | ok s' => rw [hs] at h; exact ⟨s', rfl, h⟩
  | error e => rw [hs] at h; cases h

/-- A run that does not fail takes its last step from where the steps before have led. -/
theorem run_concat_inv {s t : σ} {a : α} (h : run step s (as ++ [a]) = .ok t) :
    ∃ u, run step s as = .ok u ∧ step u a = .ok t := by
  induction as generalizing s with
  | nil =>
    obtain ⟨s', hs', hrun⟩ := run_cons_inv h
    cases hrun
    exact ⟨s, rfl, hs'⟩
  | cons b as ih =>
    obtain ⟨s', hs', hrun⟩ := run_cons_inv h
    obtain ⟨u, hu, ht⟩ := ih hrun
    exact ⟨u, by rw [run_cons_ok hs', hu], ht⟩

/-- `P` holds of every step of the run, before it is taken. -/
def Along (step : σ → α → Except ε σ) (P : σ → α → Prop) : σ → List α → Prop
  | _, [] => True
  | s, a :: as => P s a ∧ ∀ s', step s a = .ok s' → Along step P s' as

theorem along_cons {s s' : σ} {a : α} (h : step s a = .ok s') :
    Along step P s (a :: as) ↔ P s a ∧ Along step P s' as := by
  simp [Along, h]

theorem along_cons_error {s : σ} {a : α} {e : ε} (h : step s a = .error e) :
    Along step P s (a :: as) ↔ P s a := by
  simp [Along, h]

instance Along.decidable {P : σ → α → Prop} [∀ s a, Decidable (P s a)] :
    ∀ (s : σ) (as : List α), Decidable (Along step P s as)
  | _, [] => .isTrue trivial
  | s, a :: as =>
    match h : step s a with
    | .ok s' =>
      have : Decidable (Along step P s' as) := Along.decidable s' as
      decidable_of_iff _ (along_cons h).symm
    | .error _ => decidable_of_iff _ (along_cons_error h).symm

theorem Along.of_forall (h : ∀ a ∈ as, ∀ s, P s a) : ∀ s, Along step P s as := by
  induction as with
  | nil => exact fun _ => trivial
  | cons a as ih =>
    intro s
    exact ⟨h a List.mem_cons_self s, fun s' _ => ih (fun b hb => h b (List.mem_cons_of_mem _ hb)) s'⟩

/-- An invariant that steps with property `P` keep holds after every run of such steps. -/
theorem run_inv {Inv : σ → Prop} (hstep : ∀ s a s', Inv s → P s a → step s a = .ok s' → Inv s')
    (as : List α) : ∀ s t, Inv s → Along step P s as → run step s as = .ok t → Inv t := by
  induction as with
  | nil => intro s t hs _ hrun; cases hrun; exact hs
  | cons a as ih =>
    intro s t hs hal hrun
    obtain ⟨s', hs', hrun'⟩ := run_cons_inv hrun
    exact ih s' t (hstep s a s' hs hal.1 hs') (hal.2 s' hs') hrun'

/-- Where the invariant keeps every step with property `P` from failing, no run of such steps
    fails. -/
theorem run_ok {Inv : σ → Prop} (hstep : ∀ s a, Inv s → P s a → ∃ s', step s a = .ok s' ∧ Inv s')
    (as : List α) : ∀ s, Inv s → Along step P s as → ∃ t, run step s as = .ok t ∧ Inv t := by
  induction as with
  | nil => exact fun s hs _ => ⟨s, rfl, hs⟩
  | cons a as ih =>
    intro s hs hal
    obtain ⟨s', hs', hinv⟩ := hstep s a hs hal.1
    rw [run_cons_ok hs']
    exact ih s' hinv (hal.2 s' hs')

/-- What the invariant gives of each step holds along the run. -/
theorem Along.mono {Inv : σ → Prop} {Q : σ → α → Prop}
    (hstep : ∀ s a s', Inv s → P s a → step s a = .ok s' → Inv s')
    (hQ : ∀ s a, Inv s → P s a → Q s a) (as : List α) :
    ∀ s, Inv s → Along step P s as → Along step Q s as := by
  induction as with
  | nil => intro s _ _; trivial
  | cons a as ih =>
    intro s hs hal
    exact ⟨hQ s a hs hal.1, fun s' hs' => ih s' (hstep s a s' hs hal.1 hs') (hal.2 s' hs')⟩

end Lh1.Lib
