/-
  Visiting a list in order, up to the first failure.

  `visitAll visit as s` visits the elements of `as` one after the other. A visit can stop the program
  (an error), fail, or return something. The first failure ends the loop and is its result.

  `visitAll_spec` says what the loop can do, given what a visit that succeeds establishes;
  `visitAll_reaches` is the converse: every element before which nothing fails is visited.
  `visitAll_sum` adds up what the visits add, `visitAll_mono` compares two ways to visit.

  For recursions that are given fuel: `exists_forall_ge` takes the maximum over a list, and
  `acc_of_acyclic` is the induction on a finite graph without cycles. `Safe` is what lets a
  recursion return: every descent ends, and none comes to something bad.
-/
import Mathlib

namespace Lh1.Lib

variable {ν σ δ ε : Type*} {visit : ν → σ → Except ε (Option δ × σ)} {Inv : σ → Prop}
  {R : ν → δ → Prop} {P : ν → Prop} {as : List ν} {s : σ}

/-- Visit the elements in order; the first failure is the result. -/
def visitAll (visit : ν → σ → Except ε (Option δ × σ)) :
    List ν → σ → Except ε (Option (List δ) × σ)
  | [], s => .ok (some [], s)
  | a :: as, s =>
    match visit a s with
    | .error e => .error e
    | .ok (none, s) => .ok (none, s)
    | .ok (some d, s) =>
      match visitAll visit as s with
      | .error e => .error e
      | .ok (none, s) => .ok (none, s)
      | .ok (some ds, s) => .ok (some (d :: ds), s)

theorem visitAll_cons_error {a : ν} {e : ε} (h : visit a s = .error e) :
    visitAll visit (a :: as) s = .error e := by
  rw [visitAll, h]

theorem visitAll_cons_none {a : ν} {s' : σ} (h : visit a s = .ok (none, s')) :
    visitAll visit (a :: as) s = .ok (none, s') := by
  rw [visitAll, h]

theorem visitAll_cons_some {a : ν} {d : δ} {s' : σ} (h : visit a s = .ok (some d, s')) :
    visitAll visit (a :: as) s =
      match visitAll visit as s' with
      | .error e => .error e
      | .ok (none, s) => .ok (none, s)
      | .ok (some ds, s) => .ok (some (d :: ds), s) := by
  rw [visitAll, h]

theorem visitAll_congr {visit' : ν → σ → Except ε (Option δ × σ)}
    (h : ∀ a ∈ as, ∀ s, visit a s = visit' a s) : visitAll visit as s = visitAll visit' as s := by
  induction as generalizing s with
  | nil => rfl
  | cons a as ih =>
    have hrest := fun s => ih (s := s) fun b hb => h b (List.mem_cons_of_mem _ hb)
    simp only [visitAll, h a List.mem_cons_self, hrest]

/-- Where the loop stops before the end: at an element behind which nothing counts, with what the
    visit there returns. -/
inductive Stopped (visit : ν → σ → Except ε (Option δ × σ)) (Inv : σ → Prop) (P : ν → Prop)
    (as : List ν) : Except ε (Option (List δ) × σ) → Prop
  | error {pre post : List ν} {a : ν} {t : σ} {e : ε} (split : as = pre ++ a :: post)
      (passed : ∀ x ∈ pre, P x) (inv : Inv t) (here : visit a t = .error e) :
      Stopped visit Inv P as (.error e)
  | failed {pre post : List ν} {a : ν} {t s' : σ} (split : as = pre ++ a :: post)
      (passed : ∀ x ∈ pre, P x) (inv : Inv t) (here : visit a t = .ok (none, s')) :
      Stopped visit Inv P as (.ok (none, s'))

theorem Stopped.cons {a : ν} {res : Except ε (Option (List δ) × σ)} (ha : P a)
    (h : Stopped visit Inv P as res) : Stopped visit Inv P (a :: as) res := by
  have hmem : ∀ {pre : List ν}, (∀ x ∈ pre, P x) → ∀ x ∈ a :: pre, P x := by
    intro pre hpre x hx
    rcases List.mem_cons.mp hx with rfl | hx
    · exact ha
    · exact hpre x hx
  cases h with
  | error split passed inv here =>
    exact .error (congrArg (a :: ·) split) (hmem passed) inv here
  | failed split passed inv here =>
    exact .failed (congrArg (a :: ·) split) (hmem passed) inv here

/-- What the loop can do: get to the end, or stop. -/
theorem visitAll_spec (hpass : ∀ a ∈ as, ∀ s d s', Inv s → visit a s = .ok (some d, s') →
    R a d ∧ Inv s') (hs : Inv s) :
    (∃ ds s', visitAll visit as s = .ok (some ds, s') ∧ List.Forall₂ R as ds ∧ Inv s') ∨
      Stopped visit Inv (fun a => ∃ d, R a d) as (visitAll visit as s) := by
  induction as generalizing s with
  | nil => exact Or.inl ⟨[], s, rfl, List.Forall₂.nil, hs⟩
  | cons a as ih =>
    cases hv : visit a s with
    | error e =>
      rw [visitAll_cons_error hv]
      exact Or.inr (.error (List.nil_append _).symm nofun hs hv)
    | ok p =>
      obtain ⟨_ | d, s1⟩ := p
      · rw [visitAll_cons_none hv]
        exact Or.inr (.failed (List.nil_append _).symm nofun hs hv)
      · obtain ⟨hd, hs1⟩ := hpass a List.mem_cons_self s d s1 hs hv
        rw [visitAll_cons_some hv]
        rcases ih (fun x hx => hpass x (List.mem_cons_of_mem _ hx)) hs1 with
          ⟨ds, s2, hrun, hds, hs2⟩ | hstop
        · rw [hrun]
          exact Or.inl ⟨d :: ds, s2, rfl, List.Forall₂.cons hd hds, hs2⟩
        · generalize visitAll visit as s1 = res at hstop
          have hcons := hstop.cons ⟨d, hd⟩
          cases hstop with
          | error => exact Or.inr hcons
          | failed => exact Or.inr hcons

theorem visitAll_inv (hpass : ∀ a ∈ as, ∀ s d s', Inv s → visit a s = .ok (some d, s') → Inv s')
    {ds : List δ} {s' : σ} (hs : Inv s) (h : visitAll visit as s = .ok (some ds, s')) : Inv s' := by
  rcases visitAll_spec (R := fun _ _ => True)
    (fun a ha s d s' hs hv => ⟨trivial, hpass a ha s d s' hs hv⟩) hs with ⟨_, _, hrun, _, hs'⟩ | hstop
  · rw [h] at hrun
    cases hrun
    exact hs'
  · rw [h] at hstop
    cases hstop

/-- Where no visit can be an error before which all elements pass, the loop returns. -/
theorem visitAll_returns
    (hpass : ∀ a ∈ as, ∀ s d s', Inv s → visit a s = .ok (some d, s') → P a ∧ Inv s')
    (hret : ∀ pre a post, as = pre ++ a :: post → (∀ x ∈ pre, P x) → ∀ s, Inv s →
      ∃ r, visit a s = .ok r) (hs : Inv s) : ∃ r, visitAll visit as s = .ok r := by
  rcases visitAll_spec (R := fun a _ => P a) hpass hs with ⟨ds, s', hrun, -⟩ | hstop
  · exact ⟨_, hrun⟩
  · generalize visitAll visit as s = res at hstop
    cases hstop with
    | failed => exact ⟨_, rfl⟩
    | error split passed inv here =>
      obtain ⟨r, hr⟩ := hret _ _ _ split (fun x hx => (passed x hx).choose_spec) _ inv
      rw [hr] at here
      cases here

theorem visitAll_ok (h : ∀ a ∈ as, ∀ s, ∃ r, visit a s = .ok r) (s : σ) :
    ∃ r, visitAll visit as s = .ok r := by
  have hpass : ∀ a ∈ as, ∀ s d s', True → visit a s = .ok (some d, s') → True ∧ True :=
    fun _ _ _ _ _ _ _ => ⟨trivial, trivial⟩
  refine visitAll_returns hpass (fun pre a post hsplit _ s _ => ?_) trivial
  exact h a (hsplit ▸ List.mem_append_right _ List.mem_cons_self) s

/-- A loop that is not stopped by an error has visited every element before which all pass. -/
theorem visitAll_reaches {res : Option (List δ) × σ}
    (hpass : ∀ a ∈ as, ∀ s d s', Inv s → visit a s = .ok (some d, s') → Inv s')
    (hfail : ∀ a ∈ as, ∀ s s', Inv s → visit a s = .ok (none, s') → ¬ P a) (hs : Inv s)
    (h : visitAll visit as s = .ok res) {pre post : List ν} {c : ν} (hsplit : as = pre ++ c :: post)
    (hpre : ∀ x ∈ pre, P x) : ∃ t r, Inv t ∧ visit c t = .ok r := by
  induction pre generalizing as s res with
  | nil =>
    subst hsplit
    refine ⟨s, ?_⟩
    cases hv : visit c s with
    | error e => rw [List.nil_append, visitAll_cons_error hv] at h; cases h
    | ok r => exact ⟨r, hs, rfl⟩
  | cons a pre ih =>
    subst hsplit
    rw [List.cons_append] at h
    cases hv : visit a s with
    | error e => rw [visitAll_cons_error hv] at h; cases h
    | ok p =>
      obtain ⟨_ | d, s1⟩ := p
      · exact absurd (hpre a List.mem_cons_self) (hfail a List.mem_cons_self s s1 hs hv)
      · rw [visitAll_cons_some hv] at h
        cases hv2 : visitAll visit (pre ++ c :: post) s1 with
        | error e => rw [hv2] at h; cases h
        | ok res2 =>
          exact ih (fun x hx => hpass x (List.mem_cons_of_mem _ hx))
            (fun x hx => hfail x (List.mem_cons_of_mem _ hx))
            (hpass a List.mem_cons_self s d s1 hs hv) hv2 rfl
            (fun x hx => hpre x (List.mem_cons_of_mem _ hx))

/-- What the visits add to a part of the state. -/
theorem visitAll_sum {M : Type*} [AddCommMonoid M] {g : σ → M} {w : δ → M}
    (hpass : ∀ a ∈ as, ∀ s d s', Inv s → visit a s = .ok (some d, s') →
      Inv s' ∧ g s' = g s + w d) {ds : List δ} {s' : σ} (hs : Inv s)
    (h : visitAll visit as s = .ok (some ds, s')) : g s' = g s + (ds.map w).sum := by
  induction as generalizing s ds with
  | nil =>
    cases h
    rw [List.map_nil, List.sum_nil, add_zero]
  | cons a as ih =>
    cases hv : visit a s with
    | error e => rw [visitAll_cons_error hv] at h; cases h
    | ok p =>
      obtain ⟨_ | d, s1⟩ := p
      · rw [visitAll_cons_none hv] at h; cases h
      · rw [visitAll_cons_some hv] at h
        obtain ⟨hs1, hg⟩ := hpass a List.mem_cons_self s d s1 hs hv
        split at h
        · cases h
        · cases h
        · rename_i ds2 s2 hv2
          cases h
          rw [ih (fun x hx => hpass x (List.mem_cons_of_mem _ hx)) hs1 hv2, hg, List.map_cons,
            List.sum_cons, add_assoc]

theorem visitAll_mono {visit' : ν → σ → Except ε (Option δ × σ)}
    (hle : ∀ a ∈ as, ∀ s r, visit a s = .ok r → visit' a s = .ok r) {res : Option (List δ) × σ}
    (h : visitAll visit as s = .ok res) : visitAll visit' as s = .ok res := by
  induction as generalizing s res with
  | nil => exact h
  | cons a as ih =>
    cases hv : visit a s with
    | error e => rw [visitAll_cons_error hv] at h; cases h
    | ok p =>
      have hv' := hle a List.mem_cons_self s p hv
      obtain ⟨_ | d, s1⟩ := p
      · rw [visitAll_cons_none hv] at h
        rw [visitAll_cons_none hv', ← h]
      · rw [visitAll_cons_some hv] at h
        rw [visitAll_cons_some hv']
        cases hv2 : visitAll visit as s1 with
        | error e => rw [hv2] at h; cases h
        | ok res2 =>
          rw [ih (fun x hx => hle x (List.mem_cons_of_mem _ hx)) hv2, ← h, hv2]

/-! ## Fuel -/

/-- What each element has from some fuel on, all have from some fuel on. -/
theorem exists_forall_ge {α : Type*} {p : α → Nat → Prop} {as : List α}
    (h : ∀ a ∈ as, ∃ n, ∀ k ≥ n, p a k) : ∃ n, ∀ a ∈ as, ∀ k ≥ n, p a k := by
  induction as with
  | nil => exact ⟨0, nofun⟩
  | cons a as ih =>
    obtain ⟨n1, h1⟩ := h a List.mem_cons_self
    obtain ⟨n2, h2⟩ := ih fun x hx => h x (List.mem_cons_of_mem _ hx)
    refine ⟨max n1 n2, fun x hx k hk => ?_⟩
    rcases List.mem_cons.mp hx with rfl | hx
    · exact h1 k ((le_max_left _ _).trans hk)
    · exact h2 x hx k ((le_max_right _ _).trans hk)

/-- Where no cycle can be reached, a finite graph can be descended by induction. -/
theorem acc_of_acyclic {α : Type*} [Finite α] {r : α → α → Prop} {a : α}
    (h : ∀ x, Relation.ReflTransGen r a x → ¬ Relation.TransGen r x x) :
    Acc (fun y x => r x y) a := by
  let S := { x // Relation.ReflTransGen r a x }
  let q : S → S → Prop := fun y x => Relation.TransGen r x.1 y.1
  have htrans : IsTrans S q := ⟨fun _ _ _ hxy hyz => hyz.trans hxy⟩
  have hirrefl : Std.Irrefl q := ⟨fun x => h x.1 x.2⟩
  have hwf : WellFounded q := Finite.wellFounded_of_trans_of_irrefl q
  suffices hall : ∀ x : S, Acc (fun y x => r x y) x.1 from hall ⟨a, .refl⟩
  intro x
  induction x using hwf.induction with
  | h x ih =>
    exact Acc.intro _ fun y hxy => ih ⟨y, x.2.tail hxy⟩ (.single hxy)

/-- Every descent from `x` along `r` ends, and none comes to something bad. -/
structure Safe {α : Type*} (r : α → α → Prop) (bad : α → Prop) (x : α) : Prop where
  ends : Acc (fun y x => r x y) x
  harmless : ∀ y, Relation.ReflTransGen r x y → ¬ bad y

theorem safe_iff {α : Type*} {r : α → α → Prop} {bad : α → Prop} {x : α} :
    Safe r bad x ↔ ¬ bad x ∧ ∀ y, r x y → Safe r bad y := by
  constructor
  · exact fun h => ⟨h.harmless x .refl, fun y hy =>
      ⟨h.ends.inv hy, fun z hz => h.harmless z (.head hy hz)⟩⟩
  · rintro ⟨hx, hy⟩
    refine ⟨Acc.intro x fun y hxy => (hy y hxy).ends, fun z hz => ?_⟩
    rcases Relation.ReflTransGen.cases_head hz with rfl | ⟨y, hxy, hyz⟩
    · exact hx
    · exact (hy y hxy).harmless z hyz

/-- What returns does not come back to itself. -/
theorem Safe.irrefl {α : Type*} {r : α → α → Prop} {bad : α → Prop} {x : α} (h : Safe r bad x) :
    ¬ r x x := by
  have hacc := h.ends
  clear h
  induction hacc with
  | intro x _ ih => exact fun hr => ih x hr hr

end Lh1.Lib
