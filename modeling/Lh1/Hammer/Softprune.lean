/-
  The pruning ranges of `hammer prune` (cmd_softprune.c).

  Snapshots are added to an array in any order; `hammer_softprune_finalize` sorts it, turns it
  into ranges between neighbouring snapshots, cuts off what a minimum retention time protects,
  drops the range above the newest snapshot that is left and adds one down to transaction id 1.
  The array is a list with its capacity beside it, and a write behind the capacity is a fault. The
  capacity is an `int`: when it would grow beyond 794597697 it becomes negative, and the array NULL.
  `mod_tid` holds a snapshot's time until the last step, so it is an `Int` here.

  * `Scan.addAll_ok`, `Scan.addAll_none`: up to how many snapshots adding them stays in the array.
  * `softprune_respects_iff`: for which snapshots, retention time and current time the submitted
    ranges are what pruning owes the snapshots.
-/
import Lh1.Hammer.Layout

namespace Lh1.Hammer.Softprune

/-! ## The array -/

/-- `struct hammer_ioc_prune_elm`. -/
structure PruneElm where
  begTid : Nat
  endTid : Nat
  modTid : Int
  deriving DecidableEq, Repr

/-- The part of `struct softprune` that is used here: `prune.elms`, with `prune.nelms` as its
    length, and `maxelms`. -/
structure Scan where
  elms : List PruneElm
  maxelms : Int
  deriving DecidableEq, Repr

/-- A snapshot as it is found: its transaction id and the two times of its softlink. -/
structure Snapshot where
  tid : Nat
  ct : Int
  mt : Int
  deriving DecidableEq, Repr

/-- The time that is kept of a snapshot. -/
def Snapshot.time (s : Snapshot) : Int := if s.ct < s.mt then s.ct else s.mt

def maxTid : Nat := 2 ^ 64 - 1

/-- The structure `hammer_softprune_addentry` sets up. -/
def Scan.init : Scan := ⟨[], 32⟩

/-- The capacity after the array is grown, if it has to be. -/
def Scan.grown (scan : Scan) : Int :=
  if scan.maxelms - 1 ≤ scan.elms.length then (int32 (scan.maxelms * 3)).tdiv 2 else scan.maxelms

/-- `hammer_softprune_addelm`; `none` is a write behind the array. -/
def Scan.addelm (scan : Scan) (s : Snapshot) : Option Scan :=
  if scan.elms.length < scan.grown then
    some ⟨scan.elms ++ [⟨s.tid, 0, s.time⟩], scan.grown⟩
  else none

def Scan.addAll : Scan → List Snapshot → Option Scan
  | scan, [] => some scan
  | scan, s :: ss => do
    let scan ← scan.addelm s
    scan.addAll ss

/-! ## Finalization -/

/-- `hammer_softprune_qsort_cmp`: descending transaction ids. -/
def cmp (a b : PruneElm) : Prop := b.begTid ≤ a.begTid

instance : DecidableRel cmp := fun a b => inferInstanceAs (Decidable (b.begTid ≤ a.begTid))

instance : Std.Total cmp := ⟨fun a b => le_total b.begTid a.begTid⟩

instance : IsTrans PruneElm cmp := ⟨fun _ _ _ hab hbc => le_trans hbc hab⟩

/-- The loop that removes duplicates and fills in `end_tid`. `prev` is `elm[-1].beg_tid`, the
    element before in the array that is left. -/
def fillEnds : Option Nat → List PruneElm → List PruneElm
  | _, [] => []
  | none, e :: es => { e with endTid := maxTid } :: fillEnds (some e.begTid) es
  | some prev, e :: es =>
    if e.begTid = prev then fillEnds (some prev) es
    else { e with endTid := prev } :: fillEnds (some e.begTid) es

/-- The element that ends the search for the retention cut. -/
def Young (now pruneMin : Int) (e : PruneElm) : Prop :=
  e.modTid ≠ 0 ∧ now - e.modTid < pruneMin

instance (now pruneMin : Int) : DecidablePred (Young now pruneMin) := fun _ =>
  inferInstanceAs (Decidable (_ ∧ _))

/-- The loop that runs down from the last element, over the reversed array; the result is the
    index after the one it stops at. -/
def teethRev (now pruneMin : Int) : List PruneElm → Nat
  | [] => 0
  | e :: es => if Young now pruneMin e then es.length + 1 else teethRev now pruneMin es

def teeth (now pruneMin : Int) (elms : List PruneElm) : Nat :=
  teethRev now pruneMin elms.reverse

/-- The retention cut. -/
def cutYoung (now pruneMin : Int) (elms : List PruneElm) : List PruneElm :=
  if pruneMin = 0 then elms
  else
    let i := teeth now pruneMin elms
    if i = 0 then elms
    else
      match elms.drop i with
      | [] => []
      | e :: es => { e with endTid := maxTid } :: es

/-- The range from transaction id 1 to the lowest snapshot; `none` is the failed assertion. -/
def addLowest (elms : List PruneElm) (maxelms : Int) : Option (List PruneElm) :=
  match elms.getLast? with
  | none => some elms
  | some e =>
    if elms.length < maxelms then some (elms ++ [⟨1, e.begTid, 0⟩]) else none

/-- `hammer_softprune_finalize` at the time `now`. -/
def finalize (scan : Scan) (now pruneMin : Int) : Option Scan :=
  if scan.elms = [] then some scan
  else do
    let elms := fillEnds none (scan.elms.insertionSort cmp)
    let elms := (cutYoung now pruneMin elms).tail
    let elms ← addLowest elms scan.maxelms
    -- a difference of 64-bit numbers
    some { scan with
      elms := elms.map fun e => { e with modTid := ((e.endTid : Int) - e.begTid) % 2 ^ 64 } }

/-- All of it: the snapshots are added and the ranges made. -/
def softprune (snaps : List Snapshot) (now pruneMin : Int) : Option Scan := do
  let scan ← Scan.init.addAll snaps
  finalize scan now pruneMin

/-! ## Adding snapshots -/

/-- The capacities that the array goes through. -/
def capacities : List Int := (List.range 43).map fun k => (fun c => c * 3 / 2)^[k] 32

/-- The most snapshots that there is room for, with one more element for the range down to 1. -/
def maxSnapshots : Nat := 794597696

theorem capacities_le : ∀ c ∈ capacities, c ≤ 794597697 := by decide +kernel

theorem capacities_grow : ∀ c ∈ capacities, c < 794597697 →
    (int32 (c * 3)).tdiv 2 ∈ capacities ∧ c < (int32 (c * 3)).tdiv 2 := by decide +kernel

/-- One element stays free behind the live ones, for the range down to 1. -/
structure Scan.Roomy (scan : Scan) : Prop where
  capacity : scan.maxelms ∈ capacities
  spare : scan.elms.length < scan.maxelms

theorem Scan.Roomy.le {scan : Scan} (h : scan.Roomy) : scan.elms.length ≤ maxSnapshots := by
  have := capacities_le _ h.capacity
  have := h.spare
  unfold maxSnapshots
  omega

theorem Scan.Roomy.grown {scan : Scan} (h : scan.Roomy) (hlt : scan.elms.length < maxSnapshots) :
    scan.grown ∈ capacities ∧ scan.elms.length + 1 < scan.grown := by
  obtain ⟨h1, h2⟩ := h
  unfold maxSnapshots at hlt
  unfold Scan.grown
  split_ifs with hfull
  · obtain ⟨hmem, hgrow⟩ := capacities_grow _ h1 (by omega)
    exact ⟨hmem, by omega⟩
  · exact ⟨h1, by omega⟩

theorem Scan.addelm_ok {scan : Scan} (h : scan.Roomy) (hlt : scan.elms.length < maxSnapshots)
    (s : Snapshot) :
    ∃ scan', scan.addelm s = some scan' ∧ scan'.Roomy ∧
      scan'.elms = scan.elms ++ [⟨s.tid, 0, s.time⟩] := by
  obtain ⟨h1, h2⟩ := h.grown hlt
  refine ⟨_, if_pos (by omega), ⟨h1, ?_⟩, rfl⟩
  simpa using h2

/-- When the array is full, its new capacity is negative. -/
theorem Scan.addelm_none {scan : Scan} (h : scan.Roomy) (hfull : scan.elms.length = maxSnapshots)
    (s : Snapshot) : scan.addelm s = none := by
  have hcap : scan.maxelms = 794597697 := by
    have := capacities_le _ h.capacity
    have := h.spare
    unfold maxSnapshots at hfull
    omega
  refine if_neg ?_
  rw [Scan.grown, hcap, hfull]
  decide

/-- The elements for snapshots, before they are finalized. -/
def raw (snaps : List Snapshot) : List PruneElm := snaps.map fun s => ⟨s.tid, 0, s.time⟩

theorem Scan.addAll_ok {scan : Scan} (h : scan.Roomy) (snaps : List Snapshot)
    (hle : scan.elms.length + snaps.length ≤ maxSnapshots) :
    ∃ scan', scan.addAll snaps = some scan' ∧ scan'.Roomy ∧
      scan'.elms = scan.elms ++ raw snaps := by
  induction snaps generalizing scan with
  | nil => exact ⟨scan, rfl, h, by simp [raw]⟩
  | cons s ss ih =>
    rw [List.length_cons] at hle
    obtain ⟨scan1, hadd, hroomy1, helms1⟩ := Scan.addelm_ok h (by omega) s
    have hlen : scan1.elms.length = scan.elms.length + 1 := by rw [helms1]; simp
    obtain ⟨scan2, hall, hroomy2, helms2⟩ := ih hroomy1 (by omega)
    refine ⟨scan2, by simp [Scan.addAll, hadd, hall], hroomy2, ?_⟩
    rw [helms2, helms1]
    simp [raw]

theorem Scan.addAll_none {scan : Scan} (h : scan.Roomy) (snaps : List Snapshot)
    (hlt : maxSnapshots < scan.elms.length + snaps.length) : scan.addAll snaps = none := by
  induction snaps generalizing scan with
  | nil => exact absurd h.le (not_le.mpr hlt)
  | cons s ss ih =>
    rw [List.length_cons] at hlt
    rcases h.le.lt_or_eq with hroom | hfull
    · obtain ⟨scan1, hadd, hroomy1, helms1⟩ := Scan.addelm_ok h hroom s
      have hlen : scan1.elms.length = scan.elms.length + 1 := by rw [helms1]; simp
      rw [Scan.addAll, hadd]
      exact ih hroomy1 (by omega)
    · rw [Scan.addAll, Scan.addelm_none h hfull]
      rfl

theorem Scan.init_roomy : Scan.init.Roomy := ⟨by decide, by decide⟩

theorem Scan.init_addAll {snaps : List Snapshot} (hle : snaps.length ≤ maxSnapshots) :
    ∃ scan, Scan.init.addAll snaps = some scan ∧ scan.Roomy ∧ scan.elms = raw snaps :=
  Scan.addAll_ok Scan.init_roomy snaps ((Nat.zero_add _).trans_le hle)

theorem Scan.le_of_addAll {snaps : List Snapshot} {scan : Scan}
    (h : Scan.init.addAll snaps = some scan) : snaps.length ≤ maxSnapshots := by
  by_contra hc
  rw [Scan.addAll_none Scan.init_roomy snaps ((not_le.mp hc).trans_eq (Nat.zero_add _).symm)] at h
  cases h

/-! ## Chains of ranges -/

/-- The ranges go down from `top`, each from where the one before it starts. -/
def Chained : Nat → List PruneElm → Prop
  | _, [] => True
  | top, e :: es => e.endTid = top ∧ e.begTid < top ∧ Chained e.begTid es

variable {es : List PruneElm} {snaps : List Snapshot} {top : Nat}

theorem Chained.bounds (h : Chained top es) : ∀ e ∈ es, e.begTid < e.endTid ∧ e.endTid ≤ top := by
  induction es generalizing top with
  | nil => simp
  | cons e es ih =>
    obtain ⟨hend, hlt, hes⟩ := h
    intro x hx
    rcases List.mem_cons.mp hx with rfl | hx
    · omega
    · have := ih hes x hx
      omega

/-- What is above the chain, or a starting point of it, is not strictly inside any range. -/
theorem Chained.outside {t : Nat} (h : Chained top es) (ht : top ≤ t ∨ ∃ e ∈ es, e.begTid = t) :
    ∀ e ∈ es, ¬ (e.begTid < t ∧ t < e.endTid) := by
  induction es generalizing top with
  | nil => simp
  | cons e es ih =>
    obtain ⟨hend, hlt, hes⟩ := h
    intro x hx
    rcases List.mem_cons.mp hx with rfl | hx
    · rcases ht with ht | ⟨y, hy, rfl⟩
      · omega
      · rcases List.mem_cons.mp hy with rfl | hy
        · omega
        · have := hes.bounds y hy
          omega
    · refine ih hes ?_ x hx
      rcases ht with ht | ⟨y, hy, rfl⟩
      · exact .inl (by omega)
      · rcases List.mem_cons.mp hy with rfl | hy
        · exact .inl (le_refl _)
        · exact .inr ⟨y, hy, rfl⟩

theorem Chained.append {e x : PruneElm} (h : Chained top es) (hlast : es.getLast? = some e)
    (hend : x.endTid = e.begTid) (hlt : x.begTid < e.begTid) : Chained top (es ++ [x]) := by
  induction es generalizing top with
  | nil => simp at hlast
  | cons y ys ih =>
    obtain ⟨h1, h2, h3⟩ := h
    refine ⟨h1, h2, ?_⟩
    cases ys with
    | nil =>
      obtain rfl : y = e := by simpa using hlast
      exact ⟨hend, by omega, trivial⟩
    | cons z zs => exact ih h3 (by simpa using hlast)

/-- Whatever is dropped from the front, the rest is a chain below the last dropped range. -/
theorem Chained.drop (h : Chained top es) (i : Nat) :
    ∀ e rest, es.drop i = e :: rest →
      Chained e.begTid rest ∧ e.begTid < top ∧ ∀ y ∈ es.take i, e.begTid < y.begTid := by
  induction es generalizing top i with
  | nil => simp
  | cons x xs ih =>
    obtain ⟨h1, h2, h3⟩ := h
    intro e rest hd
    cases i with
    | zero =>
      obtain ⟨rfl, rfl⟩ := List.cons.inj hd
      exact ⟨h3, h2, by simp⟩
    | succ i =>
      obtain ⟨hr, htop, hall⟩ := ih h3 i e rest hd
      refine ⟨hr, by omega, ?_⟩
      exact List.forall_mem_cons.mpr ⟨htop, hall⟩

/-! ## Sorting and the removal of duplicates -/

theorem fillEnds_chained {prev : Nat} (hs : es.Pairwise cmp) (hle : ∀ e ∈ es, e.begTid ≤ prev) :
    Chained prev (fillEnds (some prev) es) := by
  induction es generalizing prev with
  | nil => trivial
  | cons e es ih =>
    obtain ⟨h1, h2⟩ := List.pairwise_cons.mp hs
    unfold fillEnds
    split_ifs with heq
    · exact ih h2 fun x hx => hle x (List.mem_cons_of_mem _ hx)
    · have := hle e List.mem_cons_self
      exact ⟨rfl, by dsimp only; omega, ih h2 h1⟩

/-- Every element that goes in is left, or one with its transaction id. -/
theorem fillEnds_covers {prev : Option Nat} :
    ∀ e ∈ es, prev = some e.begTid ∨ ∃ x ∈ fillEnds prev es, x.begTid = e.begTid := by
  induction es generalizing prev with
  | nil => simp
  | cons y ys ih =>
    intro e he
    have htail : e ∈ ys → some y.begTid = some e.begTid ∨
        ∃ x ∈ fillEnds (some y.begTid) ys, x.begTid = e.begTid := ih e
    rcases prev with _ | p
    · rcases List.mem_cons.mp he with rfl | he
      · exact .inr ⟨_, List.mem_cons_self, rfl⟩
      · rcases htail he with h | ⟨x, hx, hb⟩
        · exact .inr ⟨_, List.mem_cons_self, Option.some.inj h⟩
        · exact .inr ⟨x, List.mem_cons_of_mem _ hx, hb⟩
    · by_cases hp : y.begTid = p
      · rw [fillEnds, if_pos hp]
        rcases List.mem_cons.mp he with rfl | he
        · exact .inl (by rw [hp])
        · exact hp ▸ htail he
      · rw [fillEnds, if_neg hp]
        rcases List.mem_cons.mp he with rfl | he
        · exact .inr ⟨_, List.mem_cons_self, rfl⟩
        · rcases htail he with h | ⟨x, hx, hb⟩
          · exact .inr ⟨_, List.mem_cons_self, Option.some.inj h⟩
          · exact .inr ⟨x, List.mem_cons_of_mem _ hx, hb⟩

/-- What is left comes from an element that went in. -/
theorem fillEnds_origin {prev : Option Nat} :
    ∀ x ∈ fillEnds prev es, ∃ e ∈ es, x.begTid = e.begTid ∧ x.modTid = e.modTid := by
  induction es generalizing prev with
  | nil => simp [fillEnds]
  | cons y ys ih =>
    have hkeep : ∀ p x, x ∈ fillEnds (some p) ys →
        ∃ e ∈ y :: ys, x.begTid = e.begTid ∧ x.modTid = e.modTid := by
      intro p x hx
      obtain ⟨e, he, h⟩ := ih x hx
      exact ⟨e, List.mem_cons_of_mem _ he, h⟩
    intro x hx
    rcases prev with _ | p
    · rcases List.mem_cons.mp hx with rfl | hx
      · exact ⟨y, List.mem_cons_self, rfl, rfl⟩
      · exact hkeep _ x hx
    · rw [fillEnds] at hx
      split_ifs at hx
      · exact hkeep _ x hx
      · rcases List.mem_cons.mp hx with rfl | hx
        · exact ⟨y, List.mem_cons_self, rfl, rfl⟩
        · exact hkeep _ x hx

theorem fillEnds_length_le (prev : Option Nat) (es : List PruneElm) :
    (fillEnds prev es).length ≤ es.length := by
  induction es generalizing prev with
  | nil => simp [fillEnds]
  | cons e es ih =>
    rcases prev with _ | p
    · exact Nat.succ_le_succ (ih _)
    · rw [fillEnds]
      split_ifs
      · exact (ih _).trans (Nat.le_succ _)
      · exact Nat.succ_le_succ (ih _)

/-! ## The retention cut -/

theorem teeth_append {now pruneMin : Int} {e : PruneElm} :
    teeth now pruneMin (es ++ [e]) =
      if Young now pruneMin e then es.length + 1 else teeth now pruneMin es := by
  simp [teeth, teethRev]

theorem not_young_of_mem_drop {now pruneMin : Int} :
    ∀ e ∈ es.drop (teeth now pruneMin es), ¬ Young now pruneMin e := by
  induction es using List.reverseRecOn with
  | nil => simp
  | append_singleton es x ih =>
    intro e he
    rw [teeth_append] at he
    split_ifs at he with hx
    · simp at he
    · rcases le_total (teeth now pruneMin es) es.length with hle | hle
      · rw [List.drop_append_of_le_length hle] at he
        rcases List.mem_append.mp he with he | he
        · exact ih e he
        · rw [List.mem_singleton.mp he]
          exact hx
      · rw [List.drop_append, List.drop_eq_nil_of_le hle, List.nil_append] at he
        rw [List.mem_singleton.mp (List.mem_of_mem_drop he)]
        exact hx

/-- The range above the newest snapshot goes, and with a retention time every range above a
    young one. -/
theorem cutYoung_tail (now pruneMin : Int) (es : List PruneElm) :
    ∃ i, (cutYoung now pruneMin es).tail = (es.drop i).tail ∧
      (pruneMin ≠ 0 → ∀ e ∈ es.drop i, ¬ Young now pruneMin e) := by
  by_cases h0 : pruneMin = 0
  · exact ⟨0, by rw [cutYoung, if_pos h0, List.drop_zero], fun h => absurd h0 h⟩
  · refine ⟨teeth now pruneMin es, ?_, fun _ => not_young_of_mem_drop⟩
    rw [cutYoung, if_neg h0]
    dsimp only
    split_ifs with hi
    · rw [hi, List.drop_zero]
    · cases es.drop (teeth now pruneMin es) <;> rfl

/-! ## The submitted ranges -/

/-- What pruning owes the snapshots. -/
structure Respects (snaps : List Snapshot) (now pruneMin : Int) (ranges : List PruneElm) :
    Prop where
  descending : ranges.Pairwise fun a b => b.endTid ≤ a.begTid
  adjacent : ranges.IsChain fun a b => b.endTid = a.begTid
  proper : ∀ e ∈ ranges, e.begTid < e.endTid
  lowest : ∀ e, ranges.getLast? = some e → e.begTid = 1
  outside : ∀ s ∈ snaps, ∀ e ∈ ranges, ¬ (e.begTid < s.tid ∧ s.tid < e.endTid)
  newest : ∀ e ∈ ranges, ∃ s ∈ snaps, e.endTid ≤ s.tid
  retention : ∀ s ∈ snaps, s.time ≠ 0 → now - s.time < pruneMin → ∀ e ∈ ranges, e.endTid ≤ s.tid

theorem Chained.map (h : Chained top es) (f : PruneElm → Int) :
    Chained top (es.map fun e => { e with modTid := f e }) := by
  induction es generalizing top with
  | nil => trivial
  | cons e es ih => exact ⟨h.1, h.2.1, ih h.2.2⟩

theorem Chained.pairwise (h : Chained top es) : es.Pairwise fun a b => b.endTid ≤ a.begTid := by
  induction es generalizing top with
  | nil => exact List.Pairwise.nil
  | cons e es ih => exact List.pairwise_cons.mpr ⟨fun x hx => (h.2.2.bounds x hx).2, ih h.2.2⟩

theorem Chained.isChain (h : Chained top es) : es.IsChain fun a b => b.endTid = a.begTid := by
  induction es generalizing top with
  | nil => exact List.IsChain.nil
  | cons e es ih =>
    cases es with
    | nil => exact List.IsChain.singleton e
    | cons x xs => exact List.IsChain.cons_cons h.2.2.1 (ih h.2.2)

/-- A chain is cut below any of its ranges. -/
theorem Chained.cut {e0 : PruneElm} (h : Chained e0.begTid es) (i : Nat) :
    ∀ e rest, (e0 :: es).drop i = e :: rest →
      Chained e.begTid rest ∧ ∀ y ∈ (e0 :: es).take i, e.begTid < y.begTid := by
  intro e rest hd
  cases i with
  | zero =>
    obtain ⟨rfl, rfl⟩ := List.cons.inj hd
    exact ⟨h, by simp⟩
  | succ i =>
    obtain ⟨hr, htop, hall⟩ := h.drop i e rest hd
    refine ⟨hr, ?_⟩
    exact List.forall_mem_cons.mpr ⟨htop, hall⟩

/-- The range down to 1 goes under a chain of snapshots. -/
theorem addLowest_ok {maxelms : Int} (h : Chained top es) (hroom : es.length < maxelms)
    (hge : ∀ e ∈ es, 2 ≤ e.begTid) :
    ∃ es', addLowest es maxelms = some es' ∧ Chained top es' ∧ (∀ e ∈ es, e ∈ es') ∧
      ∀ e, es'.getLast? = some e → e.begTid = 1 := by
  unfold addLowest
  cases hlast : es.getLast? with
  | none =>
    obtain rfl : es = [] := List.getLast?_eq_none_iff.mp hlast
    exact ⟨[], rfl, trivial, by simp, by simp⟩
  | some e =>
    have he : e ∈ es := List.mem_of_getLast? hlast
    have h2 := hge e he
    refine ⟨es ++ [⟨1, e.begTid, 0⟩], by simp [hroom], ?_, ?_, ?_⟩
    · exact h.append hlast rfl (by dsimp only; omega)
    · exact fun x hx => List.mem_append_left _ hx
    · intro x hx
      simp only [List.getLast?_append, List.getLast?_singleton, Option.some_or,
        Option.some.injEq] at hx
      exact hx ▸ rfl

/-- Snapshots as the filesystem has them: transaction ids from 2 on, and one time for each. -/
structure Sound (snaps : List Snapshot) : Prop where
  ge : ∀ s ∈ snaps, 2 ≤ s.tid
  time : ∀ s ∈ snaps, ∀ s' ∈ snaps, s.tid = s'.tid → s.time = s'.time

/-- The sorted array without duplicates: a first element and a chain below it, with exactly the
    snapshots' transaction ids. -/
theorem fillEnds_tids (hne : snaps ≠ []) :
    ∃ e0 es, fillEnds none ((raw snaps).insertionSort cmp) = e0 :: es ∧
      Chained e0.begTid es ∧ (e0 :: es).length ≤ snaps.length ∧
      (∀ e ∈ e0 :: es, ∃ s ∈ snaps, e.begTid = s.tid ∧ e.modTid = s.time) ∧
      ∀ s ∈ snaps, ∃ e ∈ e0 :: es, e.begTid = s.tid := by
  have hperm := List.perm_insertionSort cmp (raw snaps)
  have hsorted := List.pairwise_insertionSort cmp (raw snaps)
  have hmem : ∀ e, e ∈ (raw snaps).insertionSort cmp ↔ ∃ s ∈ snaps, ⟨s.tid, 0, s.time⟩ = e :=
    fun e => hperm.mem_iff.trans List.mem_map
  have hfrom : ∀ x ∈ fillEnds none ((raw snaps).insertionSort cmp),
      ∃ s ∈ snaps, x.begTid = s.tid ∧ x.modTid = s.time := by
    intro x hx
    obtain ⟨e, he, hb, hm⟩ := fillEnds_origin x hx
    obtain ⟨s, hsm, rfl⟩ := (hmem e).mp he
    exact ⟨s, hsm, hb, hm⟩
  have hcover : ∀ s ∈ snaps, ∃ x ∈ fillEnds none ((raw snaps).insertionSort cmp),
      x.begTid = s.tid := by
    intro s hsm
    obtain h | h := @fillEnds_covers _ none _ ((hmem _).mpr ⟨s, hsm, rfl⟩)
    · simp at h
    · exact h
  have hlen : (fillEnds none ((raw snaps).insertionSort cmp)).length ≤ snaps.length := by
    have := hperm.length_eq
    simp only [raw, List.length_map] at this
    exact this ▸ fillEnds_length_le _ _
  cases hl : (raw snaps).insertionSort cmp with
  | nil =>
    rw [hl] at hperm
    exact absurd hperm.symm.eq_nil (by simpa [raw] using hne)
  | cons y ys =>
    rw [hl] at hfrom hcover hlen hsorted
    obtain ⟨hle, hys⟩ := List.pairwise_cons.mp hsorted
    exact ⟨_, _, rfl, fillEnds_chained hys hle, hlen, hfrom, hcover⟩

/-- With one time for each transaction id the times are the snapshots' too. -/
theorem fillEnds_sorted (hs : Sound snaps) (hne : snaps ≠ []) :
    ∃ e0 es, fillEnds none ((raw snaps).insertionSort cmp) = e0 :: es ∧
      Chained e0.begTid es ∧ (e0 :: es).length ≤ snaps.length ∧
      (∀ e ∈ e0 :: es, ∃ s ∈ snaps, e.begTid = s.tid) ∧
      ∀ s ∈ snaps, ∃ e ∈ e0 :: es, e.begTid = s.tid ∧ e.modTid = s.time := by
  obtain ⟨e0, es, hfill, hchain, hlen, horigin, hcover⟩ := fillEnds_tids hne
  refine ⟨e0, es, hfill, hchain, hlen, fun e he => ?_, fun s hsm => ?_⟩
  · obtain ⟨s, hsm, hb, -⟩ := horigin e he
    exact ⟨s, hsm, hb⟩
  · obtain ⟨x, hx, hb⟩ := hcover s hsm
    obtain ⟨s', hsm', hb', hm'⟩ := horigin x hx
    exact ⟨x, hx, hb, hm'.trans (hs.time s' hsm' s hsm (hb'.symm.trans hb))⟩

theorem respects_nil (snaps : List Snapshot) (now pruneMin : Int) :
    Respects snaps now pruneMin [] :=
  ⟨List.Pairwise.nil, List.IsChain.nil, by simp, by simp, by simp, by simp, by simp⟩

/-- A chain below a snapshot of the array respects the snapshots. -/
theorem Chained.respects {now pruneMin : Int} (h : Chained top es)
    (hlow : ∀ e, es.getLast? = some e → e.begTid = 1) (htop : ∃ s ∈ snaps, top = s.tid)
    (hout : ∀ s ∈ snaps, top ≤ s.tid ∨ ∃ e ∈ es, e.begTid = s.tid)
    (hret : ∀ s ∈ snaps, s.time ≠ 0 → now - s.time < pruneMin → top ≤ s.tid) :
    Respects snaps now pruneMin es where
  descending := h.pairwise
  adjacent := h.isChain
  proper e he := (h.bounds e he).1
  lowest := hlow
  outside s hs := h.outside (hout s hs)
  newest e he := by
    obtain ⟨s, hs, rfl⟩ := htop
    exact ⟨s, hs, (h.bounds e he).2⟩
  retention s hs ht hy e he := (h.bounds e he).2.trans (hret s hs ht hy)

/-- Without a retention time, a time in the future makes no difference. So only the newest snapshot
    may have one. -/
def TimesPast (snaps : List Snapshot) (now : Int) : Prop :=
  ∀ s ∈ snaps, s.time ≠ 0 → now < s.time → ∀ s' ∈ snaps, s'.tid ≤ s.tid

theorem softprune_respects (hs : Sound snaps) {now pruneMin : Int}
    (hle : snaps.length ≤ maxSnapshots) (hpast : pruneMin = 0 → TimesPast snaps now) :
    ∃ scan, softprune snaps now pruneMin = some scan ∧
      Respects snaps now pruneMin scan.elms := by
  obtain ⟨scan, hadd, hroomy, helms⟩ := Scan.init_addAll hle
  simp only [softprune, hadd, Option.bind_eq_bind, Option.bind_some]
  by_cases hne : snaps = []
  · subst hne
    refine ⟨scan, if_pos helms, ?_⟩
    rw [helms]
    exact respects_nil [] now pruneMin
  obtain ⟨e0, es, hfill, hchain, hlen, horigin, hcover⟩ := fillEnds_sorted hs hne
  obtain ⟨i, htail, hold⟩ := cutYoung_tail now pruneMin (e0 :: es)
  have hraw : raw snaps ≠ [] := by simpa [raw] using hne
  have hspare : snaps.length < scan.maxelms := by simpa [helms, raw] using hroomy.spare
  simp only [finalize, helms, if_neg hraw, hfill, htail, Option.bind_eq_bind]
  cases hd : (e0 :: es).drop i with
  | nil =>
    exact ⟨⟨[], scan.maxelms⟩, rfl, respects_nil snaps now pruneMin⟩
  | cons e rest =>
    obtain ⟨hrest, htake⟩ := hchain.cut i e rest hd
    have hmem : ∀ x ∈ e :: rest, x ∈ e0 :: es := fun x hx => List.mem_of_mem_drop (hd ▸ hx)
    have hroom : rest.length < scan.maxelms := by
      have := congrArg List.length hd
      simp only [List.length_drop, List.length_cons] at this hlen
      omega
    have hge : ∀ x ∈ rest, 2 ≤ x.begTid := by
      intro x hx
      obtain ⟨s, hsm, hb⟩ := horigin x (hmem x (List.mem_cons_of_mem _ hx))
      exact hb ▸ hs.ge s hsm
    obtain ⟨ranges, hlow, hchain', hsub, h1⟩ := addLowest_ok hrest hroom hge
    refine ⟨_, by rw [List.tail_cons, hlow]; rfl, ?_⟩
    -- Where a snapshot is in the array decides what it needs: before the cut it is above
    -- every range, behind it it is an end of one.
    have hplace : ∀ s ∈ snaps, ∃ x, x.begTid = s.tid ∧ x.modTid = s.time ∧
        (e.begTid < s.tid ∨ x ∈ e :: rest) := by
      intro s hsm
      obtain ⟨x, hx, hb, hm⟩ := hcover s hsm
      refine ⟨x, hb, hm, ?_⟩
      rw [← List.take_append_drop i (e0 :: es), hd] at hx
      rcases List.mem_append.mp hx with hx | hx
      · exact .inl (hb ▸ htake x hx)
      · exact .inr hx
    have htop := horigin e (hmem e List.mem_cons_self)
    refine (hchain'.map _).respects ?_ htop ?_ ?_
    · intro x hx
      rw [List.getLast?_map] at hx
      obtain ⟨y, hy, rfl⟩ := Option.map_eq_some_iff.mp hx
      exact h1 y hy
    · intro s hsm
      obtain ⟨x, hb, -, hlt | hx⟩ := hplace s hsm
      · exact .inl hlt.le
      · rcases List.mem_cons.mp hx with rfl | hx
        · exact .inl hb.le
        · exact .inr ⟨_, List.mem_map_of_mem (hsub x hx), hb⟩
    · intro s hsm ht hy
      by_cases h0 : pruneMin = 0
      · obtain ⟨s', hs', htop⟩ := htop
        rw [htop]
        exact hpast h0 s hsm ht (by omega) s' hs'
      · obtain ⟨x, hb, hm, hlt | hx⟩ := hplace s hsm
        · exact hlt.le
        · exact absurd ⟨hm ▸ ht, hm ▸ hy⟩ (hold h0 x (hd ▸ hx))

/-- Without a retention time there is a range up to the newest snapshot. -/
theorem softprune_newest (hs : Sound snaps) {now : Int} {scan : Scan}
    (h : softprune snaps now 0 = some scan) {s s' : Snapshot} (hsm : s ∈ snaps) (hsm' : s' ∈ snaps)
    (hlt : s.tid < s'.tid) : ∃ e ∈ scan.elms, s.tid < e.endTid := by
  have hne : snaps ≠ [] := List.ne_nil_of_mem hsm
  obtain ⟨e0, es, hfill, hchain, -, horigin, hcover⟩ := fillEnds_sorted hs hne
  obtain ⟨scan0, hadd, h⟩ := Option.bind_eq_some_iff.mp h
  have helms : scan0.elms = raw snaps := by
    obtain ⟨scan1, hadd1, -, helms1⟩ := Scan.init_addAll (Scan.le_of_addAll hadd)
    rw [hadd1] at hadd
    cases hadd
    exact helms1
  have hraw : raw snaps ≠ [] := by simpa [raw] using hne
  simp only [finalize, helms, if_neg hraw, hfill, cutYoung, if_true, List.tail_cons,
    Option.bind_eq_bind, Option.bind_eq_some_iff] at h
  obtain ⟨ranges, hlow, h⟩ := h
  cases h
  -- the lower one is not the first, and the first range ends at the highest
  obtain ⟨x, hx, hb, -⟩ := hcover s hsm
  obtain ⟨x', hx', hb', -⟩ := hcover s' hsm'
  have hbound : ∀ y ∈ e0 :: es, y.begTid ≤ e0.begTid := by
    intro y hy
    rcases List.mem_cons.mp hy with rfl | hy
    · exact le_rfl
    · have := hchain.bounds y hy
      omega
  have htop := hbound x' hx'
  cases es with
  | nil =>
    rw [List.mem_singleton.mp hx] at hb
    omega
  | cons e rest =>
    have hmem : e ∈ ranges := by
      unfold addLowest at hlow
      split at hlow
      · cases hlow
        exact List.mem_cons_self
      · split_ifs at hlow
        cases hlow
        exact List.mem_append_left _ List.mem_cons_self
    refine ⟨_, List.mem_map_of_mem hmem, ?_⟩
    have hend : e.endTid = e0.begTid := hchain.1
    dsimp only
    omega

/-- Pruning submits ranges that respect the snapshots, and stays inside its array, if and only if
    there are not too many of them and, without a retention time, only the newest one is from the
    future. -/
theorem softprune_respects_iff (snaps : List Snapshot) (hs : Sound snaps) (now pruneMin : Int) :
    (∃ scan, softprune snaps now pruneMin = some scan ∧ Respects snaps now pruneMin scan.elms) ↔
      snaps.length ≤ maxSnapshots ∧ (pruneMin = 0 → TimesPast snaps now) := by
  constructor
  · rintro ⟨scan, hscan, hresp⟩
    refine ⟨?_, fun h0 s hsm ht hy s' hsm' => ?_⟩
    · obtain ⟨scan0, hadd, -⟩ := Option.bind_eq_some_iff.mp hscan
      exact Scan.le_of_addAll hadd
    · rw [h0] at hscan
      by_contra hc
      obtain ⟨e, he, hlt⟩ := softprune_newest hs hscan hsm hsm' (not_le.mp hc)
      have := hresp.retention s hsm ht (by omega) e he
      omega
  · rintro ⟨hle, hpast⟩
    exact softprune_respects hs hle hpast

theorem softprune_respects_five : Sound [⟨5, 80, 90⟩, ⟨9, 95, 96⟩, ⟨5, 80, 80⟩, ⟨2, 0, 0⟩] ∧
    ∃ scan, softprune [⟨5, 80, 90⟩, ⟨9, 95, 96⟩, ⟨5, 80, 80⟩, ⟨2, 0, 0⟩] 100 10 = some scan ∧
      Respects [⟨5, 80, 90⟩, ⟨9, 95, 96⟩, ⟨5, 80, 80⟩, ⟨2, 0, 0⟩] 100 10 scan.elms :=
  have h : Sound [⟨5, 80, 90⟩, ⟨9, 95, 96⟩, ⟨5, 80, 80⟩, ⟨2, 0, 0⟩] :=
    ⟨by decide, by decide⟩
  ⟨h, (softprune_respects_iff _ h 100 10).mpr ⟨by decide, fun h => absurd h (by decide)⟩⟩

/-- The capacity of the array overflows. And a retention time of 0 is none at all: a snapshot from
    the future is younger than that, and the range above it is pruned nevertheless. -/
theorem softprune_no_retention :
    softprune (List.replicate 794597697 ⟨2, 0, 0⟩) 0 0 = none ∧
    softprune [⟨5, 10, 10⟩, ⟨3, 100, 100⟩] 50 0 = some ⟨[⟨3, 5, 2⟩, ⟨1, 3, 2⟩], 32⟩ ∧
      (100 : Int) ≠ 0 ∧ (50 : Int) - 100 < 0 ∧ 3 < 5 := by
  refine ⟨?_, by decide⟩
  rw [softprune, Scan.addAll_none Scan.init_roomy]
  · rfl
  · rw [List.length_replicate]
    decide

end Lh1.Hammer.Softprune
