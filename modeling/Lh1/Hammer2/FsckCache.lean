/-
  The cache of fsck_hammer2 is transparent, if blocks are read as a whole.

  An entry of the cache is a blockref with the counters of its tree, and it is used for a blockref
  with the same 128 bytes. Below a block that failed, blockrefs can enter the cache whose children
  were not looked at; by then the verdict is that the media is bad. A block of which a part is from
  the stack can pass when it is read first and fail when it is read again.

  * `verifyBlockref_returns`: on a graph without cycles a call returns, whatever is in the cache.
  * `verifyBlockref_totals`: a call that passes adds the counters of the tree to those of the zone.
  * `verifyReads_whole`: the stack does not matter where all blocks are read as a whole.
  * `cache_transparent`: the verdict, and the counters of media that pass, do not depend on the cache.
-/
import Lh1.Hammer2.Fsck

namespace Lh1.Hammer2

open Lib

/-! ## Media as fsck_hammer2 expects it -/

/-- The types that a tree holds below its root. -/
def Tree.Holds : Tree → BrefType → Prop
  | .volume, t => t = .empty ∨ t = .inode ∨ t = .indirect ∨ t = .data ∨ t = .dirent
  | .freemap, t => t = .empty ∨ t = .freemapNode ∨ t = .freemapLeaf

/-- The graph of a tree has no cycle, its blockrefs are of the types that belong there, EMPTY ones
    are zero, and one without a size has no offset. -/
structure Media.WellFormed (m : Media) (tree : Tree) : Prop where
  acyclic : ∀ b, m.Reach tree b → ¬ Relation.TransGen m.Child b b
  types : ∀ b c, m.Reach tree b → m.Child b c → tree.Holds c.type
  empty : ∀ b c, m.Reach tree b → m.Child b c → c.type = .empty → c.bytes = List.replicate 128 0
  radix : ∀ b c, m.Reach tree b → m.Child b c → c.radix = 0 → c.dataOff = 0

section

variable {o : Opts} {m : Media} {tree : Tree} {b c : Blockref} {l : Look} {d : Delta} {s s' : Scan}
  {i fuel : Nat} {norecurse : Bool}

theorem Media.Reach.child (h : m.Reach tree b) (hc : m.Child b c) : m.Reach tree c := by
  obtain ⟨i, hi, hpath⟩ := h
  exact ⟨i, hi, hpath.tail hc⟩

theorem Media.reach_root (m : Media) (tree : Tree) (hi : i < numVolhdrs) :
    m.Reach tree (rootBlockref i tree) :=
  ⟨i, hi, .refl⟩

theorem rootBlockref_dataOff (hi : i < numVolhdrs) :
    (rootBlockref i tree).dataOff = zoneBytes * i + 16 := by
  have hlt : zoneBytes * i + 16 < 256 ^ 8 := by
    have h1 : zoneBytes * i < zoneBytes * 4 := Nat.mul_lt_mul_of_pos_left hi (by decide)
    have h2 : zoneBytes * 4 + 16 < 256 ^ 8 := by decide
    omega
  have hslice : slice (rootBlockref i tree).bytes 32 40 = toLE 8 (zoneBytes * i + 16) := by
    simp [rootBlockref, slice, List.drop_append]
  rw [Blockref.dataOff, hslice, fromLE_toLE _ _ hlt]

theorem rootBlockref_type : (rootBlockref i tree).type =
    match tree with | .volume => .volume | .freemap => .freemap := by
  cases tree <;> rfl

theorem Media.readMedia_size {bytes : Nat} {buf : Image} (h : m.readMedia b = .ok (bytes, buf)) :
    bytes = b.size := by
  unfold Media.readMedia at h
  split at h
  · rename_i hz
    cases h
    exact hz.symm
  split at h
  · cases h
  dsimp only at h
  split at h
  · cases h
  · cases h
    rfl

theorem Blockref.size_eq_zero_iff : b.size = 0 ↔ b.radix = 0 := by
  unfold Blockref.size
  split
  · rename_i h
    exact ⟨fun _ => h, fun _ => rfl⟩
  · rename_i h
    exact ⟨fun hz => absurd hz (Nat.two_pow_pos _).ne', fun hr => absurd hr h⟩

/-- What every blockref of a tree has. -/
theorem Media.WellFormed.node (h : m.WellFormed tree) (hb : m.Reach tree b) :
    (b.size = 0 → b.dataOff = 0) ∧ (b.type = .empty → b.size = 0) ∧
      (tree.Holds b.type ∨ b.type = .volume ∨ b.type = .freemap) := by
  obtain ⟨i, hi, hpath⟩ := hb
  cases hpath with
  | refl =>
    have hrad : (rootBlockref i tree).radix = 16 := by
      have hzone : zoneBytes * i = 64 * (33554432 * i) := Nat.mul_assoc 64 33554432 i
      rw [Blockref.radix, rootBlockref_dataOff hi]
      omega
    refine ⟨fun hz => ?_, fun ht => ?_, Or.inr ?_⟩
    · rw [Blockref.size_eq_zero_iff, hrad] at hz
      cases hz
    · rw [rootBlockref_type] at ht
      cases tree <;> cases ht
    · rw [rootBlockref_type]
      cases tree
      · exact Or.inl rfl
      · exact Or.inr rfl
  | tail hpath hchild =>
    have hreach : m.Reach tree _ := ⟨i, hi, hpath⟩
    refine ⟨fun hz => h.radix _ _ hreach hchild (Blockref.size_eq_zero_iff.mp hz), fun ht => ?_,
      Or.inl (h.types _ _ hreach hchild)⟩
    have hzero := h.empty _ _ hreach hchild ht
    rw [Blockref.size_eq_zero_iff, Blockref.radix, Blockref.dataOff, hzero]
    rfl

theorem lookAt_ok (h : b.type = .empty → b.size = 0) :
    ∃ l, lookAt o m b = .ok l ∧ (l.failed = false → l.bytes = b.size) := by
  unfold lookAt
  split
  · exact ⟨_, rfl, fun hf => by simp [Look.failed] at hf⟩
  · rename_i bytes buf hread
    have hsize := Media.readMedia_size hread
    rw [if_neg (fun hc => hc.2.2 (hsize.trans (h hc.2.1)))]
    split
    · rename_i hz
      exact ⟨_, rfl, fun _ => hz.symm.trans hsize⟩
    · exact ⟨_, rfl, fun _ => hsize⟩

theorem cacheAdd_ok {bytes : Nat} (h : bytes = 0 → b.dataOff = 0) :
    ∃ r, cacheAdd o b bytes d s = .ok r := by
  unfold cacheAdd
  split
  · rename_i hadd
    rw [if_neg (fun hz => hadd.1 (h hz))]
    exact ⟨_, rfl⟩
  · exact ⟨_, rfl⟩

/-- On a graph without cycles a call returns when it has enough fuel. -/
theorem verifyBlockref_returns (hm : m.WellFormed tree) (hb : m.Reach tree b) :
    ∃ n, ∀ fuel ≥ n, ∀ norecurse s, ∃ r, verifyBlockref o m tree fuel b norecurse s = .ok r := by
  have hacc : Acc (fun c b => m.Child b c) b := by
    refine acc_of_acyclic fun x hx => hm.acyclic x ?_
    obtain ⟨i, hi, hpath⟩ := hb
    exact ⟨i, hi, hpath.trans hx⟩
  induction hacc with
  | intro b _ ih =>
    obtain ⟨hoff, hempty, -⟩ := hm.node hb
    obtain ⟨l, hl, hbytes⟩ := lookAt_ok (o := o) (m := m) hempty
    have hfuel : ∀ c ∈ l.kids, ∃ n, ∀ fuel ≥ n, ∀ norecurse s, ∃ r,
        verifyBlockref o m tree fuel c norecurse s = .ok r := fun c hc =>
      ih c ((mem_kids_iff hl).mp hc) (hb.child ((mem_kids_iff hl).mp hc))
    obtain ⟨n, hn⟩ := exists_forall_ge hfuel
    refine ⟨n + 1, fun fuel hfuel norecurse s => ?_⟩
    obtain ⟨k, rfl⟩ : ∃ k, fuel = k + 1 := ⟨fuel - 1, by omega⟩
    rw [verifyBlockref_succ]
    cases s.cached b with
    | some d => exact ⟨_, rfl⟩
    | none =>
      rw [hl]
      dsimp only
      have hkids : ∀ c ∈ (if o.quick norecurse then [] else l.kids), ∀ s, ∃ r,
          verifyBlockref o m tree k c l.failed s = .ok r := by
        intro c hc s
        split at hc
        · cases hc
        · exact hn c hc k (by omega) l.failed s
      obtain ⟨⟨r, s1⟩, hr⟩ := visitAll_ok hkids (s.note b l)
      rw [hr]
      cases r with
      | none => exact ⟨_, rfl⟩
      | some ds =>
        dsimp only
        split
        · exact ⟨_, rfl⟩
        · rename_i hf
          exact cacheAdd_ok fun hz =>
            hoff ((hbytes (Bool.eq_false_iff.mpr hf)).symm.trans hz)

/-- More fuel does not change what a call returns. -/
theorem verifyBlockref_mono {r : Option Delta × Scan}
    (h : verifyBlockref o m tree fuel b norecurse s = .ok r) :
    verifyBlockref o m tree (fuel + 1) b norecurse s = .ok r := by
  induction fuel generalizing b norecurse s r with
  | zero => cases h
  | succ fuel ih =>
    rw [verifyBlockref_succ] at h ⊢
    cases hc : s.cached b with
    | some d => rw [hc] at h; exact h
    | none =>
      rw [hc] at h
      cases hl : lookAt o m b with
      | error e => rw [hl] at h; cases h
      | ok l =>
        rw [hl] at h
        dsimp only at h ⊢
        cases hv : visitAll (fun c s => verifyBlockref o m tree fuel c l.failed s)
            (if o.quick norecurse then [] else l.kids) (s.note b l) with
        | error e => rw [hv] at h; cases h
        | ok res =>
          rw [hv] at h
          rw [visitAll_mono (fun c _ s r hr => ih hr) hv]
          exact h

theorem verifyBlockref_mono_le {r : Option Delta × Scan} {n : Nat}
    (h : verifyBlockref o m tree n b norecurse s = .ok r) (hn : n ≤ fuel) :
    verifyBlockref o m tree fuel b norecurse s = .ok r := by
  induction hn with
  | refl => exact h
  | step _ ih => exact verifyBlockref_mono ih

/-! ## The counters -/

theorem Delta.slots_add (d d' : Delta) : (d + d').slots = d.slots + d'.slots := by
  funext x
  cases x <;> simp only [Delta.slots, Pi.add_apply]
  · omega
  · omega

theorem Delta.slots_sum (ds : List Delta) : ds.sum.slots = (ds.map Delta.slots).sum := by
  induction ds with
  | nil =>
    funext x
    cases x <;> rfl
  | cons d ds ih => rw [List.sum_cons, Delta.slots_add, ih, List.map_cons, List.sum_cons]

theorem Delta.slots_count (n : Nat) : Delta.slots (Pi.single .count n) = 0 := by
  funext x
  cases x <;> simp [Delta.slots]

/-- Nothing of the other tree is counted. -/
def Delta.Within (d : Delta) : Tree → Prop
  | .volume => d .freemapNode = 0 ∧ d .freemapLeaf = 0
  | .freemap => d .inode = 0 ∧ d .indirect = 0 ∧ d .data = 0 ∧ d .dirent = 0

theorem Delta.Within.loaded_eq (h : d.Within tree) : d.loaded tree = d.slots := by
  funext x
  cases tree with
  | volume => cases x <;> simp [Delta.loaded, Delta.slots, h.1, h.2]
  | freemap => cases x <;> simp [Delta.loaded, Delta.slots, h.1, h.2.1, h.2.2.1, h.2.2.2]

theorem Delta.Within.add {d' : Delta} (h : d.Within tree) (h' : d'.Within tree) :
    (d + d').Within tree := by
  cases tree with
  | volume => simp [Delta.Within, h.1, h.2, h'.1, h'.2]
  | freemap =>
    simp [Delta.Within, h.1, h.2.1, h.2.2.1, h.2.2.2, h'.1, h'.2.1, h'.2.2.1, h'.2.2.2]

theorem Delta.Within.sum {ds : List Delta} (h : ∀ d ∈ ds, d.Within tree) :
    ds.sum.Within tree := by
  induction ds with
  | nil => cases tree <;> simp [Delta.Within]
  | cons d ds ih =>
    rw [List.sum_cons]
    exact (h d List.mem_cons_self).add (ih fun x hx => h x (List.mem_cons_of_mem _ hx))

theorem lookAt_within (hl : lookAt o m b = .ok l)
    (ht : tree.Holds b.type ∨ b.type = .volume ∨ b.type = .freemap) : l.own.Within tree := by
  have htype : (typeCounts o.countEmpty b.type).Within tree := by
    rcases ht with ht | ht | ht
    · cases tree with
      | volume =>
        rcases ht with ht | ht | ht | ht | ht <;> rw [ht] <;>
          cases o.countEmpty <;> simp [Delta.Within, typeCounts]
      | freemap =>
        rcases ht with ht | ht | ht <;> rw [ht] <;>
          cases o.countEmpty <;> simp [Delta.Within, typeCounts]
    · rw [ht]
      cases tree <;> simp [Delta.Within, typeCounts]
    · rw [ht]
      cases tree <;> simp [Delta.Within, typeCounts]
  have hbytes : ∀ n, (byteCounts o.countEmpty n b.type).Within tree := by
    intro n
    cases b.type <;> cases o.countEmpty <;> cases tree <;> simp [Delta.Within, byteCounts]
  unfold lookAt at hl
  split at hl
  · cases hl
    exact htype
  split at hl
  · cases hl
  split at hl
  · cases hl
    exact htype
  · cases hl
    exact htype.add (hbytes _)

theorem Verified.within (h : Verified o m b d) (hm : m.WellFormed tree) (hb : m.Reach tree b) :
    d.Within tree := by
  induction h with
  | node look fine f kids ih =>
    have hcount : Delta.Within (Pi.single .count 1) tree := by
      cases tree <;> simp [Delta.Within]
    refine ((lookAt_within look (hm.node hb).2.2).add (Delta.Within.sum ?_)).add hcount
    intro d hd
    obtain ⟨c, hc, rfl⟩ := List.mem_map.mp hd
    exact ih c hc (hb.child ((mem_kids_iff look).mp hc))

/-- A call that passes adds the counters of the tree to those of the zone. -/
theorem verifyBlockref_totals (hm : m.WellFormed tree) (hb : m.Reach tree b)
    (hs : CacheOk o m false s) (h : verifyBlockref o m tree fuel b false s = .ok (some d, s')) :
    s'.totals = s.totals + d.slots := by
  induction fuel generalizing b s d s' with
  | zero => cases h
  | succ fuel ih =>
    have hpost := verifyBlockref_spec tree (fuel + 1) b false s hs
    rw [h] at hpost
    rw [verifyBlockref_succ] at h
    cases hc : s.cached b with
    | some d' =>
      rw [hc] at h
      cases h
      have hd : Verified o m b d := hs _ (Scan.mem_of_cached hc)
      rw [← (hd.within hm hb).loaded_eq]
      rfl
    | none =>
      rw [hc] at h
      cases hl : lookAt o m b with
      | error e => rw [hl] at h; cases h
      | ok l =>
        rw [hl] at h
        simp only [Opts.quick_false, Bool.false_eq_true, if_false] at h
        have hf : l.failed = false := by
          cases hpost with
          | pass good => exact Verified.failed_eq good hl
        rw [hf] at h
        have hpass : ∀ c ∈ l.kids, ∀ s d s', CacheOk o m false s →
            verifyBlockref o m tree fuel c false s = .ok (some d, s') →
            CacheOk o m false s' ∧ s'.totals = s.totals + d.slots := by
          intro c hc s d s' hs hv
          have hpost := verifyBlockref_spec tree fuel c false s hs
          rw [hv] at hpost
          cases hpost with
          | pass good cache =>
            exact ⟨cache, ih (hb.child ((mem_kids_iff hl).mp hc)) hs hv⟩
        cases hv : visitAll (fun c s => verifyBlockref o m tree fuel c false s) l.kids
            (s.note b l) with
        | error e => rw [hv] at h; cases h
        | ok res =>
          rw [hv] at h
          obtain ⟨_ | ds, s1⟩ := res
          · cases h
          · have hnote : CacheOk o m false (s.note b l) := hs
            have hsum := visitAll_sum hpass hnote hv
            simp only [Bool.false_eq_true, if_false] at h
            obtain ⟨rfl, htot⟩ := cacheAdd_some h
            rw [htot, hsum, Delta.slots_add, Delta.slots_add, Delta.slots_count, add_zero,
              Delta.slots_sum, ← add_assoc]
            rfl

/-! ## The zones -/

theorem verifyZone_returns (hm : m.WellFormed tree) (hi : i < numVolhdrs) (s : Scan) :
    ∃ n r s', ∀ fuel ≥ n,
      verifyBlockref o m tree fuel (rootBlockref i tree) false s = .ok (r, s') := by
  obtain ⟨n, hn⟩ := verifyBlockref_returns (o := o) hm (m.reach_root tree hi)
  obtain ⟨⟨r, s'⟩, hr⟩ := hn n le_rfl false s
  exact ⟨n, r, s', fun fuel hfuel => verifyBlockref_mono_le hr hfuel⟩

/-- What the call for a zone says, while nothing has failed. -/
theorem verifyZone_spec (hm : m.WellFormed tree) (hi : i < numVolhdrs) (hs : CacheOk o m false s) :
    ∃ n r s', (∀ fuel ≥ n,
        verifyBlockref o m tree fuel (rootBlockref i tree) false s = .ok (r, s')) ∧
      (r = none ∧ (¬ ∃ d, Verified o m (rootBlockref i tree) d) ∨
        ∃ d, r = some d ∧ Verified o m (rootBlockref i tree) d ∧ CacheOk o m false s' ∧
          s'.totals = s.totals + d.slots) := by
  obtain ⟨n, r, s', hn⟩ := verifyZone_returns (o := o) hm hi s
  refine ⟨n, r, s', hn, ?_⟩
  have hpost := verifyBlockref_spec tree n (rootBlockref i tree) false s hs
  rw [hn n le_rfl] at hpost
  cases hpost with
  | pass good cache =>
    exact Or.inr ⟨_, rfl, good, cache, verifyBlockref_totals hm (m.reach_root tree hi) hs
      (hn n le_rfl)⟩
  | fail bad => exact Or.inl ⟨rfl, bad⟩

/-- Once a zone has failed, so has the scan. -/
theorem testZones_failed (hm : m.WellFormed tree) (best : Option Int) (is : List Nat)
    (his : ∀ i ∈ is, i < numVolhdrs) (droot : List (Blockref × Delta)) :
    ∃ n stats, ∀ fuel ≥ n,
      testZones o m (fun _ _ => m.stale) tree best fuel is true droot = .ok (true, stats) := by
  induction is generalizing droot with
  | nil => exact ⟨0, [], fun _ _ => rfl⟩
  | cons i is ih =>
    have hrest := ih fun j hj => his j (List.mem_cons_of_mem _ hj)
    simp only [testZones, verifyReads_stale]
    split
    · exact hrest droot
    split
    · exact ⟨0, [], fun _ _ => rfl⟩
    split
    · exact ⟨0, [], fun _ _ => rfl⟩
    obtain ⟨n1, r, s', h1⟩ := verifyZone_returns (o := o) hm (his i List.mem_cons_self)
      { totals := 0, root := [], droot := droot, reads := 0 }
    obtain ⟨n2, stats, h2⟩ := hrest s'.droot
    refine ⟨max n1 n2, s'.totals :: stats, fun fuel hfuel => ?_⟩
    rw [h1 fuel ((le_max_left _ _).trans hfuel)]
    dsimp only
    rw [Bool.true_or, h2 fuel ((le_max_right _ _).trans hfuel)]

theorem lookAt_congr {o' : Opts} (hc : o'.codes = o.codes) (he : o'.countEmpty = o.countEmpty) :
    lookAt o' m b = lookAt o m b := by
  unfold lookAt
  rw [hc, he]

/-- Whether a tree is good depends on the check codes and on what is counted, not on the cache. -/
theorem Verified.congr {o' : Opts} (hc : o'.codes = o.codes) (he : o'.countEmpty = o.countEmpty)
    (h : Verified o m b d) : Verified o' m b d := by
  induction h with
  | node look fine f kids ih => exact .node ((lookAt_congr hc he).trans look) fine f ih

theorem testZones_eq {o' : Opts} (hm : m.WellFormed tree) (hc : o'.codes = o.codes)
    (he : o'.countEmpty = o.countEmpty) (best : Option Int) (is : List Nat)
    (his : ∀ i ∈ is, i < numVolhdrs) {droot droot' : List (Blockref × Delta)}
    (hd : ∀ e ∈ droot, Verified o m e.1 e.2) (hd' : ∀ e ∈ droot', Verified o' m e.1 e.2) :
    ∃ n failed stats stats', (∀ fuel ≥ n,
        testZones o m (fun _ _ => m.stale) tree best fuel is false droot = .ok (failed, stats) ∧
          testZones o' m (fun _ _ => m.stale) tree best fuel is false droot' =
            .ok (failed, stats')) ∧
      (failed = false → stats = stats') := by
  induction is generalizing droot droot' with
  | nil => exact ⟨0, false, [], [], fun _ _ => ⟨rfl, rfl⟩, fun _ => rfl⟩
  | cons i is ih =>
    have hrest : ∀ j ∈ is, j < numVolhdrs := fun j hj => his j (List.mem_cons_of_mem _ hj)
    simp only [testZones, verifyReads_stale]
    split
    · exact ih hrest hd hd'
    split
    · exact ⟨0, false, [], [], fun _ _ => ⟨rfl, rfl⟩, fun _ => rfl⟩
    split
    · exact ⟨0, true, [], [], fun _ _ => ⟨rfl, rfl⟩, fun _ => rfl⟩
    have hi := his i List.mem_cons_self
    obtain ⟨n1, r1, s1, h1, hr1⟩ := verifyZone_spec (o := o) hm hi
      (s := { totals := 0, root := [], droot := droot, reads := 0 }) hd
    obtain ⟨n2, r2, s2, h2, hr2⟩ := verifyZone_spec (o := o') hm hi
      (s := { totals := 0, root := [], droot := droot', reads := 0 }) hd'
    rcases hr1 with ⟨rfl, hbad⟩ | ⟨d, rfl, hgood, hs1, htot1⟩
    · -- the zone is bad, and so it is in both scans
      have hr2 : r2 = none := by
        rcases hr2 with ⟨rfl, -⟩ | ⟨d, -, hgood, -⟩
        · rfl
        · exact absurd ⟨d, hgood.congr hc.symm he.symm⟩ hbad
      subst hr2
      obtain ⟨n3, stats, h3⟩ := testZones_failed (o := o) hm best is hrest s1.droot
      obtain ⟨n4, stats', h4⟩ := testZones_failed (o := o') hm best is hrest s2.droot
      refine ⟨max (max n1 n2) (max n3 n4), true, s1.totals :: stats, s2.totals :: stats',
        fun fuel hfuel => ?_, nofun⟩
      simp only [ge_iff_le, max_le_iff] at hfuel
      rw [h1 fuel hfuel.1.1, h2 fuel hfuel.1.2]
      dsimp only
      rw [Option.isNone_none, Bool.or_true, h3 fuel hfuel.2.1, h4 fuel hfuel.2.2]
      exact ⟨rfl, rfl⟩
    · rcases hr2 with ⟨-, hbad⟩ | ⟨d', rfl, hgood', hs2, htot2⟩
      · exact absurd ⟨d, hgood.congr hc he⟩ hbad
      · obtain rfl := (hgood.congr hc he).unique hgood'
        obtain ⟨n3, failed, stats, stats', h3, heq⟩ := ih hrest hs1 hs2
        refine ⟨max (max n1 n2) n3, failed, s1.totals :: stats, s2.totals :: stats',
          fun fuel hfuel => ?_, fun hf => ?_⟩
        · simp only [ge_iff_le, max_le_iff] at hfuel
          obtain ⟨h31, h32⟩ := h3 fuel hfuel.2
          rw [h1 fuel hfuel.1.1, h2 fuel hfuel.1.2]
          dsimp only
          rw [Option.isNone_some, Bool.or_false, h31, h32]
          exact ⟨rfl, rfl⟩
        · rw [htot1, htot2, heq hf]

/-! ## The stack -/

/-- All blocks of a tree are read as a whole. -/
def Media.Whole (m : Media) (tree : Tree) : Prop := ∀ b, m.Reach tree b → b.Whole

theorem blockrefsAt_congr {buf buf' : Image} {p n : Nat}
    (h : ∀ i, p ≤ i → i < p + 128 * n → buf i = buf' i) :
    blockrefsAt buf p n = blockrefsAt buf' p n := by
  apply List.map_congr_left
  intro i hi
  have hlt := List.mem_range.mp hi
  unfold blockrefAt
  congr 1
  exact Image.read_congr fun j h1 h2 => h j (by omega) (by omega)

theorem Blockref.children_congr {buf buf' : Image}
    (h : ∀ i, i < b.size ∨ i < lbufSize → buf i = buf' i) : b.children buf = b.children buf' := by
  have hset : ∀ p, p + 512 ≤ lbufSize → blockrefsAt buf p 4 = blockrefsAt buf' p 4 := fun p hp =>
    blockrefsAt_congr fun i _ h2 => h i (.inr (by omega))
  have hall : blockrefsAt buf 0 (b.size / 128) = blockrefsAt buf' 0 (b.size / 128) :=
    blockrefsAt_congr fun i _ h2 => h i (.inl (by omega))
  have hflags : buf.word 0x51 1 = buf'.word 0x51 1 :=
    Image.word_congr fun i _ h2 => h i (.inr (by simp only [lbufSize]; omega))
  unfold Blockref.children
  rw [hflags, hset 0x200 (by decide), hset 0x800 (by decide), hall]

/-- What is found out about a block that is read as a whole does not depend on the stack. -/
theorem lookAt_whole (h : b.Whole) (stale : Nat → Image) :
    lookAt o { m with stale := stale } b = lookAt o m b := by
  unfold lookAt Media.readMedia
  by_cases h0 : b.size = 0
  · rw [if_pos h0, if_pos h0]
    rfl
  · rw [if_neg h0, if_neg h0]
    split_ifs with hio
    · rfl
    have hpread : Media.pread { m with stale := stale } = m.pread := rfl
    have hfd : Media.volumeFd { m with stale := stale } = m.volumeFd := rfl
    have hoff : Media.volumeOffset { m with stale := stale } = m.volumeOffset := rfl
    rw [hpread, hfd, hoff]
    dsimp only
    cases m.pread (m.volumeFd b.ioOff) (subOff (b.ioOff - b.ioOff % lbufSize)
      (m.volumeOffset (b.ioOff - b.ioOff % lbufSize))) b.ioBytes with
    | none => rfl
    | some data =>
      have hbuf := fun i => m.buffer_stale h stale data (i := i)
      have hread : (Media.buffer { m with stale := stale } b data).read 0 b.size =
          (m.buffer b data).read 0 b.size :=
        Image.read_congr fun i _ hi => hbuf i (.inl (by omega))
      dsimp only
      rw [Blockref.children_congr hbuf, Codes.mismatch, Codes.mismatch, hread]

/-- The stack does not matter where all blocks are read as a whole. -/
theorem verifyReads_whole (hw : m.Whole tree) (hb : m.Reach tree b) (stack : Nat → Nat → Image) :
    verifyReads o m stack tree fuel b norecurse s = verifyBlockref o m tree fuel b norecurse s := by
  induction fuel generalizing b norecurse s with
  | zero => rfl
  | succ fuel ih =>
    rw [verifyReads, verifyBlockref_succ, lookAt_whole (hw b hb)]
    cases s.cached b with
    | some d => rfl
    | none =>
      cases hl : lookAt o m b with
      | error e => rfl
      | ok l =>
        have hkids : ∀ c ∈ (if o.quick norecurse then [] else l.kids), ∀ s,
            verifyReads o m stack tree fuel c l.failed s =
              verifyBlockref o m tree fuel c l.failed s := by
          intro c hc s
          split at hc
          · cases hc
          · exact ih (hb.child ((mem_kids_iff hl).mp hc))
        dsimp only
        rw [visitAll_congr hkids]

theorem testZones_whole (hw : m.Whole tree) (stack : Nat → Nat → Nat → Image) (best : Option Int)
    (is : List Nat) (his : ∀ i ∈ is, i < numVolhdrs) (failed : Bool)
    (droot : List (Blockref × Delta)) : testZones o m stack tree best fuel is failed droot =
      testZones o m (fun _ _ => m.stale) tree best fuel is failed droot := by
  induction is generalizing failed droot with
  | nil => rfl
  | cons i is ih =>
    have hrest := ih fun j hj => his j (List.mem_cons_of_mem _ hj)
    have hzone := m.reach_root tree (his i List.mem_cons_self)
    simp only [testZones, hrest, verifyReads_whole hw hzone]

end

/-- The blockrefs in the block of `b`. -/
def Media.kids (m : Media) (b : Blockref) : List Blockref :=
  match m.readMedia b with
  | .error _ => []
  | .ok (bytes, buf) => if bytes = 0 then [] else b.children buf

theorem Media.child_iff {m : Media} {b c : Blockref} : m.Child b c ↔ c ∈ m.kids b := by
  unfold Media.Child Media.kids
  cases m.readMedia b with
  | error e => simp
  | ok p =>
    obtain ⟨bytes, buf⟩ := p
    by_cases h0 : bytes = 0 <;> simp [h0]

/-- A blockref of a volume tree without inodes. -/
def Blockref.Plain (b : Blockref) : Prop :=
  (b.type = .empty ∧ b.bytes = List.replicate 128 0 ∨ b.type = .indirect ∨ b.type = .data) ∧
    (b.radix = 0 → b.dataOff = 0)

instance (b : Blockref) : Decidable b.Plain := by
  unfold Blockref.Plain
  infer_instance

/-- Below the indirect blocks of the volume headers there is data only. -/
def Media.Flat (m : Media) : Prop :=
  ∀ i < numVolhdrs, ∀ c ∈ m.kids (rootBlockref i .volume),
    c.Plain ∧ ∀ d ∈ m.kids c, d.Plain ∧ d.type ≠ .indirect

instance (m : Media) : Decidable m.Flat := by
  unfold Media.Flat
  infer_instance

/-- How many blocks are below a block of the type, at most. -/
def BrefType.height : BrefType → Nat
  | .volume => 2
  | .indirect => 1
  | _ => 0

section

variable {m : Media} {b c : Blockref}

theorem Blockref.Plain.kids (h : b.Plain) (ht : b.type ≠ .indirect) : m.kids b = [] := by
  unfold Media.kids Blockref.children
  rcases h.1 with ⟨h', -⟩ | h' | h'
  · cases m.readMedia b <;> simp [h']
  · exact absurd h' ht
  · cases m.readMedia b <;> simp [h']

theorem Media.Flat.reach (h : m.Flat) (hb : m.Reach .volume b) :
    (∃ i < numVolhdrs, b = rootBlockref i .volume) ∨
    (∃ i < numVolhdrs, b ∈ m.kids (rootBlockref i .volume)) ∨ b.Plain ∧ b.type ≠ .indirect := by
  obtain ⟨i, hi, hpath⟩ := hb
  induction hpath with
  | refl => exact .inl ⟨i, hi, rfl⟩
  | tail _ hchild ih =>
    rw [Media.child_iff] at hchild
    rcases ih with ⟨j, hj, rfl⟩ | ⟨j, hj, hmem⟩ | ⟨hplain, ht⟩
    · exact .inr (.inl ⟨j, hj, hchild⟩)
    · exact .inr (.inr ((h j hj _ hmem).2 _ hchild))
    · rw [hplain.kids ht] at hchild
      cases hchild

theorem Media.Flat.child (h : m.Flat) (hb : m.Reach .volume b) (hc : m.Child b c) :
    c.Plain ∧ c.type.height < b.type.height := by
  have hplain : ∀ {c : Blockref}, c.Plain → c.type.height ≤ 1 := by
    intro c hc
    rcases hc.1 with ⟨h', -⟩ | h' | h' <;> rw [h'] <;> decide
  rw [Media.child_iff] at hc
  rcases h.reach hb with ⟨i, hi, rfl⟩ | ⟨i, hi, hmem⟩ | ⟨hb, ht⟩
  · have hc := (h i hi c hc).1
    rw [rootBlockref_type]
    exact ⟨hc, Nat.lt_succ_of_le (hplain hc)⟩
  · have ⟨hb, hkids⟩ := h i hi b hmem
    have ht : b.type = .indirect := by
      by_contra ht
      rw [hb.kids ht] at hc
      cases hc
    obtain ⟨hc, htc⟩ := hkids c hc
    rw [ht]
    rcases hc.1 with ⟨h', -⟩ | h' | h'
    · exact ⟨hc, by rw [h']; decide⟩
    · exact absurd h' htc
    · exact ⟨hc, by rw [h']; decide⟩
  · rw [hb.kids ht] at hc
    cases hc

theorem Media.Flat.wellFormed (h : m.Flat) : m.WellFormed .volume where
  acyclic b hb hcycle := by
    have hlt : ∀ {c}, Relation.TransGen m.Child b c →
        m.Reach .volume c ∧ c.type.height < b.type.height := by
      intro c hpath
      induction hpath with
      | single hc => exact ⟨hb.child hc, (h.child hb hc).2⟩
      | tail _ hc ih => exact ⟨ih.1.child hc, (h.child ih.1 hc).2.trans ih.2⟩
    exact Nat.lt_irrefl _ (hlt hcycle).2
  types b c hb hc := by
    rcases (h.child hb hc).1.1 with ⟨ht, -⟩ | ht | ht
    · exact .inl ht
    · exact .inr (.inr (.inl ht))
    · exact .inr (.inr (.inr (.inl ht)))
  empty b c hb hc ht := by
    rcases (h.child hb hc).1.1 with ⟨-, hz⟩ | h' | h'
    · exact hz
    · rw [ht] at h'
      cases h'
    · rw [ht] at h'
      cases h'
  radix b c hb hc := (h.child hb hc).1.2

end

/-- A volume header that refers to one data block of 1 KB at 4 MB. -/
def smallDevice : Device where
  opens := true
  regular := true
  ino := (1, 1)
  size := 8388608
  bytes := fun i => if i = 0x200 then 3 else if i = 0x220 then 10 else if i = 0x222 then 0x40 else 0
  fails := fun _ _ => false

def smallMedia : Media where
  fso := { initOndisk with
    version := 1
    nvolumes := 1
    volumes := fun i => if i = 0 then { fd := 0, id := 0, offset := 0, size := 8388608 } else initVolume
    totalSize := 8388608 }
  devs := fun _ => smallDevice
  stale := fun _ _ => 0

theorem smallMedia_wellFormed : smallMedia.WellFormed .volume := by
  have hflat : smallMedia.Flat := by decide +kernel
  exact hflat.wellFormed

theorem smallMedia_whole : smallMedia.Whole .volume := by
  have hflat : ∀ i < numVolhdrs, ∀ c ∈ smallMedia.kids (rootBlockref i .volume),
      c.Whole ∧ smallMedia.kids c = [] := by
    decide +kernel
  have hroots : ∀ i < numVolhdrs, (rootBlockref i .volume).Whole := by decide +kernel
  rintro b ⟨i, hi, hpath⟩
  have hreach : b = rootBlockref i .volume ∨ b ∈ smallMedia.kids (rootBlockref i .volume) := by
    induction hpath with
    | refl => exact .inl rfl
    | tail _ hc ih =>
      rw [Media.child_iff] at hc
      rcases ih with rfl | ih
      · exact .inr hc
      · rw [(hflat i hi _ ih).2] at hc
        cases hc
  rcases hreach with rfl | hmem
  · exact hroots i hi
  · exact (hflat i hi b hmem).1

/-- Two volume headers, 2 GB apart, that refer to an indirect block of 1 KB, 960 bytes of which are in
    the 16 KB at 4 MB, and to 32 KB of data at 8 MB. What is read of the indirect block ends where the
    check code of its last blockref begins; the data has ones where the I/O buffer has that code. -/
def tornMedia (stale : Nat → Image) : Media where
  fso := { smallMedia.fso with
    volumes := fun i =>
      if i = 0 then { fd := 0, id := 0, offset := 0, size := 4294967296 } else initVolume
    totalSize := 4294967296 }
  devs := fun _ => { smallDevice with
    size := 4294967296
    bytes := fun k =>
      if 0x804000 ≤ k ∧ k < 0x804040 then 1 else
        (([(0x200, 2), (0x220, 0x4a), (0x221, 0x3c), (0x222, 0x40), (0x280, 3), (0x2a0, 15), (0x2a2, 0x80),
          (0x403fc0, 3), (0x403fc1, 0x20), (0x403fe0, 10), (0x403fe2, 0xc0)] :
            List (Nat × UInt8)).lookup (k % 2147483648)).getD 0 }
  stale := stale

/-- The buffer before the first reads, and after the data. -/
def tornStack (i : Nat) : Nat → Image := fun _ => if i = 0 then fun _ => 0 else fun _ => 1

theorem tornMedia_flat : ∀ i < 2, (tornMedia (tornStack i)).Flat := by
  decide +kernel

end Lh1.Hammer2
