/-
  Recursive searches through a graph that is given by reading it.

  To enter a node is to read it: that can stop the program (an error), fail, or give the children,
  which are then entered one after the other, up to the first failure. Nothing marks a node that has
  been entered, so a search is given fuel. It passes a node if it fails nowhere below it.

  * `descend_passes`: a search that returns says whether the node is passed.
  * `descend_returns_iff`: a search returns if and only if every descent ends, and none comes to a
    node that stops the program.
-/
import Lh1.Lib.Walk

namespace Lh1.Lib

/-- A graph, and what a search does to its state at a node before it goes on to the children. -/
structure Graph (ν σ ε : Type*) where
  enter : ν → Except ε (Option (List ν))
  touch : ν → σ → σ

namespace Graph

variable {ν σ ε : Type*}

/-- What a search returns when it has gone through the children. -/
def finish : Except ε (Option (List Unit) × σ) → Except ε (Option Unit × σ)
  | .error e => .error e
  | .ok (none, s) => .ok (none, s)
  | .ok (some _, s) => .ok (some (), s)

/-- The search; `none` is a failure, and `out` is the error of a search without fuel. -/
def descend (G : Graph ν σ ε) (out : ε) : Nat → ν → σ → Except ε (Option Unit × σ)
  | 0, _, _ => .error out
  | fuel + 1, a, s =>
    match G.enter a with
    | .error e => .error e
    | .ok none => .ok (none, s)
    | .ok (some children) => finish (visitAll (G.descend out fuel) children (G.touch a s))

/-- Nothing fails at the node or below it. -/
inductive Passes (G : Graph ν σ ε) : ν → Prop
  | node {a : ν} {children : List ν} (enter : G.enter a = .ok (some children))
      (below : ∀ c ∈ children, Passes G c) : Passes G a

/-- A search at `a` comes to `c`. -/
def Visits (G : Graph ν σ ε) (a c : ν) : Prop :=
  ∃ pre post, G.enter a = .ok (some (pre ++ c :: post)) ∧ ∀ x ∈ pre, G.Passes x

/-- To enter `a` stops the program. -/
def Stops (G : Graph ν σ ε) (a : ν) : Prop := ∃ e, G.enter a = .error e

variable {G : Graph ν σ ε} {out : ε} {fuel : Nat} {a : ν} {s : σ} {children : List ν}

theorem Passes.child (h : G.Passes a) (henter : G.enter a = .ok (some children)) {c : ν}
    (hc : c ∈ children) : G.Passes c := by
  obtain ⟨henter', hbelow⟩ := h
  rw [henter] at henter'
  cases henter'
  exact hbelow c hc

theorem descend_failed (henter : G.enter a = .ok none) :
    G.descend out (fuel + 1) a s = .ok (none, s) := by
  rw [descend, henter]

theorem descend_children (henter : G.enter a = .ok (some children)) :
    G.descend out (fuel + 1) a s
      = finish (visitAll (G.descend out fuel) children (G.touch a s)) := by
  rw [descend, henter]

theorem descend_passes {r : Option Unit} {s' : σ} (h : G.descend out fuel a s = .ok (r, s')) :
    r.isSome ↔ G.Passes a := by
  induction fuel generalizing a s r s' with
  | zero => cases h
  | succ fuel ih =>
    cases henter : G.enter a with
    | error e =>
      rw [descend, henter] at h
      cases h
    | ok o =>
      cases o with
      | none =>
        rw [descend_failed henter] at h
        cases h
        refine iff_of_false Bool.false_ne_true fun hp => ?_
        obtain ⟨henter', -⟩ := hp
        rw [henter] at henter'
        cases henter'
      | some children =>
        rw [descend_children henter] at h
        have hpass : ∀ c ∈ children, ∀ s d s', True →
            G.descend out fuel c s = .ok (some d, s') → G.Passes c ∧ True :=
          fun c _ s d s' _ hv => ⟨(ih hv).mp rfl, trivial⟩
        rcases visitAll_spec (R := fun c _ => G.Passes c) hpass trivial with
          ⟨ds, s₁, hrun, hall, -⟩ | hstop
        · rw [hrun] at h
          cases h
          refine iff_of_true rfl (.node henter fun c hc => ?_)
          obtain ⟨i, hi, rfl⟩ := List.mem_iff_getElem.mp hc
          exact hall.get hi (hall.length_eq ▸ hi)
        · generalize visitAll (G.descend out fuel) children (G.touch a s) = res at hstop h
          cases hstop with
          | error => cases h
          | failed split passed inv here =>
            cases h
            refine iff_of_false Bool.false_ne_true fun hp => ?_
            have hc := hp.child henter (split ▸ List.mem_append_right _ List.mem_cons_self)
            exact absurd ((ih here).mpr hc) nofun

/-- Where every descent ends, there is fuel enough. -/
theorem descend_of_safe (h : Safe G.Visits G.Stops a) :
    ∃ n, ∀ fuel ≥ n, ∀ s, ∃ r, G.descend out fuel a s = .ok r := by
  have hacc := h.ends
  induction hacc with
  | intro a _ ih =>
    obtain ⟨hstop, hvisits⟩ := safe_iff.mp h
    cases henter : G.enter a with
    | error e => exact absurd ⟨e, henter⟩ hstop
    | ok o =>
      cases o with
      | none =>
        refine ⟨1, fun fuel hfuel s => ⟨(none, s), ?_⟩⟩
        obtain ⟨k, rfl⟩ : ∃ k, fuel = k + 1 := ⟨fuel - 1, by omega⟩
        exact descend_failed henter
      | some children =>
        have hkids : ∀ c ∈ children, ∃ n, ∀ fuel ≥ n, G.Visits a c →
            ∀ s, ∃ r, G.descend out fuel c s = .ok r := by
          intro c _
          by_cases hv : G.Visits a c
          · obtain ⟨n, hn⟩ := ih c hv (hvisits c hv)
            exact ⟨n, fun fuel hfuel _ => hn fuel hfuel⟩
          · exact ⟨0, fun _ _ hv' => absurd hv' hv⟩
        obtain ⟨n, hn⟩ := exists_forall_ge hkids
        refine ⟨n + 1, fun fuel hfuel s => ?_⟩
        obtain ⟨k, rfl⟩ : ∃ k, fuel = k + 1 := ⟨fuel - 1, by omega⟩
        have hpass : ∀ c ∈ children, ∀ s d s', True →
            G.descend out k c s = .ok (some d, s') → G.Passes c ∧ True :=
          fun c _ s d s' _ hv => ⟨(descend_passes hv).mp rfl, trivial⟩
        obtain ⟨⟨r, s'⟩, hr⟩ := visitAll_returns hpass (fun pre c post hsplit hpre s _ =>
          hn c (hsplit ▸ List.mem_append_right _ List.mem_cons_self) k (by omega)
            ⟨pre, post, hsplit ▸ henter, hpre⟩ s) (s := G.touch a s) trivial
        rw [descend_children henter, hr]
        cases r <;> exact ⟨_, rfl⟩

theorem safe_of_descend {r : Option Unit × σ} (h : G.descend out fuel a s = .ok r) :
    Safe G.Visits G.Stops a := by
  induction fuel generalizing a s r with
  | zero => cases h
  | succ fuel ih =>
    refine safe_iff.mpr ⟨fun hstop => ?_, fun c hvisit => ?_⟩
    · obtain ⟨e, henter⟩ := hstop
      rw [descend, henter] at h
      cases h
    · obtain ⟨pre, post, henter, hpre⟩ := hvisit
      rw [descend_children henter] at h
      cases hv : visitAll (G.descend out fuel) (pre ++ c :: post) (G.touch a s) with
      | error e => rw [hv] at h; cases h
      | ok res =>
        have hfail : ∀ x ∈ pre ++ c :: post, ∀ s s', True →
            G.descend out fuel x s = .ok (none, s') → ¬ G.Passes x :=
          fun x _ s s' _ hv hp => absurd ((descend_passes hv).mpr hp) nofun
        obtain ⟨t, r, -, hr⟩ := visitAll_reaches (fun _ _ _ _ _ _ _ => trivial) hfail trivial
          hv rfl hpre
        exact ih hr

/-- A search returns, from whatever state it begins in, if and only if every descent ends and none
    comes to a node that stops the program. -/
theorem descend_returns_iff (s : σ) :
    (∃ fuel r, G.descend out fuel a s = .ok r) ↔ Safe G.Visits G.Stops a := by
  constructor
  · intro h
    obtain ⟨fuel, r, hr⟩ := h
    exact safe_of_descend hr
  · intro h
    obtain ⟨n, hn⟩ := descend_of_safe h
    obtain ⟨r, hr⟩ := hn n le_rfl s
    exact ⟨n, r, hr⟩

end Graph

end Lh1.Lib
