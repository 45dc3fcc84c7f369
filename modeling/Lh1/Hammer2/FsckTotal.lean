/-
  When fsck_hammer2 returns (verify_blockref and init_pfs_blockref of fsck_hammer2/test.c).

  Both functions follow blockrefs wherever they lead. A check code of the type NONE is always right,
  so a block can refer to itself, and nothing bounds the recursion. Three assertions are about what
  is on the media. The stack, of which each level of verify_blockref() takes 64 KB, is not modelled.

  * `verifyBlockref_returns_iff`: verify_blockref() returns when every descent ends and no blockref
    that it comes to is of the kinds that the assertions exclude.
  * `initPfsBlockref_returns_iff`: the same for init_pfs_blockref().
  * `testZones_passes`: verification passes zones of good blocks.
  * `fsck_returns_iff`: both, and what they return.
-/
import Lh1.Lib.Bytes
import Lh1.Hammer2.FsckCache

namespace Lh1.Hammer2

open Lib

/-! ## Listing PFSs -/

/-- An element of the list of PFSs: the blockref and the inode. -/
structure Pfs where
  bref : Blockref
  msg : List UInt8

/-- `get_inode_filename`, up to its NUL. -/
def Pfs.filename (p : Pfs) : List UInt8 := (slice p.msg 0x100 0x200).takeWhile (· ≠ 0)

/-- `strcmp(f1, f2) <= 0`. -/
def strcmpLe : List UInt8 → List UInt8 → Bool
  | [], _ => true
  | _ :: _, [] => false
  | a :: as, b :: bs => if a < b then true else if a = b then strcmpLe as bs else false

/-- `__add_pfs_blockref`: the list is sorted by name. -/
def addPfsBlockref (p : Pfs) : List Pfs → List Pfs
  | [] => [p]
  | q :: qs => if strcmpLe p.filename q.filename then p :: q :: qs else q :: addPfsBlockref p qs

/-- The blockrefs that `init_pfs_blockref` goes on with. -/
def pfsChildren (b : Blockref) (buf : Image) : List Blockref :=
  match b.type with
  | .inode => if buf.word 0x87 1 = 8 then blockrefsAt buf 0x200 4 else []
  | .indirect => blockrefsAt buf 0 (b.size / 128)
  | .volume => blockrefsAt buf 0x200 4
  | _ => []

/-- The block is an inode, and not the super-root. -/
def isPfs (b : Blockref) (buf : Image) : Prop := b.type = .inode ∧ buf.word 0x87 1 ≠ 8

instance (b : Blockref) (buf : Image) : Decidable (isPfs b buf) :=
  inferInstanceAs (Decidable (_ ∧ _))

/-- `init_pfs_blockref`; -1 is `none`. -/
def initPfsBlockref (m : Media) :
    Nat → Blockref → List Pfs → Except Stop (Option Unit × List Pfs)
  | 0, _, _ => .error .fuel
  | fuel + 1, b, blist =>
    match m.readMedia b with
    | .error _ => .ok (none, blist)
    | .ok (bytes, buf) =>
      if bytes = 0 then .ok (some (), blist)
      else if isPfs b buf ∧ buf.word 0x51 1 / 2 % 2 = 0 then .error .notPfs
      else
        let blist := if isPfs b buf then addPfsBlockref ⟨b, buf.read 0 1024⟩ blist else blist
        match visitAll (initPfsBlockref m fuel) (pfsChildren b buf) blist with
        | .error e => .error e
        | .ok (none, blist) => .ok (none, blist)
        | .ok (some _, blist) => .ok (some (), blist)

/-! ## Verification -/

/-- A call for `x` comes to `y`: a child before which all children pass. The second component is
    whether only the block itself is looked at. -/
def Visits (o : Opts) (m : Media) (x y : Blockref × Bool) : Prop :=
  x.2 = false ∧ ∃ l pre post, lookAt o m x.1 = .ok l ∧ l.kids = pre ++ y.1 :: post ∧
    y.2 = o.quick l.failed ∧ ∀ c ∈ pre, Passes o m y.2 c

/-- The blockrefs that the two assertions of verification exclude: an EMPTY one with a block, and,
    where everything is cached, one with an offset but no size. -/
def Fatal (o : Opts) (m : Media) (b : Blockref) : Prop :=
  (o.countEmpty = false ∧ b.type = .empty ∧
      ∃ bytes buf, m.readMedia b = .ok (bytes, buf) ∧ bytes ≠ 0) ∨
    (o.cacheCount = 1 ∧ b.dataOff ≠ 0 ∧ b.size = 0 ∧ invalidType b.type = [])

/-- The descent from `x` ends everywhere, and comes to no fatal blockref. -/
abbrev Bounded (o : Opts) (m : Media) : Blockref × Bool → Prop :=
  Safe (Visits o m) fun y => Fatal o m y.1

section Verify

variable {o : Opts} {m : Media} {tree : Tree} {b c : Blockref} {l : Look} {d : Delta} {s s' : Scan}
  {x y : Blockref × Bool} {fuel : Nat} {norecurse : Bool}

/-- A quick call goes nowhere. -/
theorem bounded_quick (h : ¬ Fatal o m b) : Bounded o m (b, true) :=
  safe_iff.mpr ⟨h, fun _ hy => nomatch hy.1⟩

theorem typeCounts_count (e : Bool) (t : BrefType) : typeCounts e t .count = 0 := by
  cases t <;> cases e <;> simp [typeCounts]

/-- What looking at a block does that is not fatal. -/
theorem lookAt_of_not_fatal (h : ¬ Fatal o m b) : ∃ l, lookAt o m b = .ok l := by
  unfold lookAt
  split
  · exact ⟨_, rfl⟩
  · rename_i bytes buf hread
    rw [if_neg fun hc => h (Or.inl ⟨hc.1, hc.2.1, bytes, buf, hread, hc.2.2⟩)]
    split <;> exact ⟨_, rfl⟩

/-- A good block without bytes has no size, no children, and counts as one. -/
theorem lookAt_bytes_zero (hl : lookAt o m b = .ok l) (hf : l.failed = false) (hz : l.bytes = 0) :
    b.size = 0 ∧ invalidType b.type = [] ∧ l.kids = [] ∧ l.own .count = 0 := by
  unfold lookAt at hl
  split at hl
  · cases hl
    simp [Look.failed] at hf
  · rename_i bytes buf hread
    split at hl
    · cases hl
    split at hl
    · rename_i hzero
      cases hl
      simp only [Look.failed, Bool.not_eq_false', List.isEmpty_iff] at hf
      exact ⟨(Media.readMedia_size hread).symm.trans hzero, hf, rfl, typeCounts_count _ _⟩
    · rename_i hne
      cases hl
      exact absurd hz hne

theorem Fatal.not_returns (h : Fatal o m b) (hl : lookAt o m b = .ok l) :
    l.failed = false ∧ l.kids = [] ∧
      ∀ {s}, cacheAdd o b l.bytes (l.own + ([] : List Delta).sum + Pi.single .count 1) s =
        .error .cacheBytes := by
  unfold lookAt at hl
  rcases h with ⟨hce, hempty, bytes, buf, hread, hne⟩ | ⟨hcc, hoff, hsize, hinv⟩
  · rw [hread] at hl
    dsimp only at hl
    rw [if_pos ⟨hce, hempty, hne⟩] at hl
    cases hl
  · have hread : m.readMedia b = .ok (0, m.stale b.dataOff) := by
      rw [Media.readMedia, if_pos hsize]
    rw [hread] at hl
    dsimp only at hl
    rw [if_neg fun hc => hc.2.2 rfl, if_pos rfl, hinv] at hl
    cases hl
    refine ⟨rfl, rfl, fun {s} => ?_⟩
    have hcount : (typeCounts o.countEmpty b.type + ([] : List Delta).sum +
        Pi.single .count 1 : Delta) .count = 1 := by
      simp [typeCounts_count]
    unfold cacheAdd
    rw [hcount, hcc, if_pos ⟨hoff, by decide, by decide⟩, if_pos rfl]

theorem cacheAdd_of_not_fatal (h : ¬ Fatal o m b) (hl : lookAt o m b = .ok l)
    (hf : l.failed = false) {ds : List Delta} (hds : l.kids = [] → ds = []) (s : Scan) :
    ∃ r, cacheAdd o b l.bytes (l.own + ds.sum + Pi.single .count 1) s = .ok r := by
  unfold cacheAdd
  split
  · rename_i hadd
    rw [if_neg]
    · exact ⟨_, rfl⟩
    · intro hz
      obtain ⟨hsize, hinv, hkids, hcount⟩ := lookAt_bytes_zero hl hf hz
      obtain ⟨hoff, hpos, hle⟩ := hadd
      rw [hds hkids] at hle
      have hone : (l.own + ([] : List Delta).sum + Pi.single .count 1 : Delta) .count = 1 := by
        simp [hcount]
      rw [hone] at hle
      exact h (Or.inr ⟨by omega, hoff, hsize, hinv⟩)
  · exact ⟨_, rfl⟩

/-- Where every descent ends and nothing fatal is met, a call returns when it has enough fuel. -/
theorem verifyBlockref_of_bounded (tree : Tree) (hx : Bounded o m x) :
    ∃ n, ∀ fuel ≥ n, ∀ norecurse s, o.quick norecurse = x.2 → CacheOk o m x.2 s →
      ∃ r, verifyBlockref o m tree fuel x.1 norecurse s = .ok r := by
  have hacc := hx.ends
  induction hacc with
  | intro x _ ih =>
    obtain ⟨hfatal, hvisits⟩ := safe_iff.mp hx
    obtain ⟨l, hl⟩ := lookAt_of_not_fatal hfatal
    have hkids : ∀ c ∈ l.kids, ∃ n, ∀ fuel ≥ n, Visits o m x (c, o.quick l.failed) →
        ∀ s, CacheOk o m (o.quick l.failed) s →
          ∃ r, verifyBlockref o m tree fuel c l.failed s = .ok r := by
      intro c _
      by_cases hv : Visits o m x (c, o.quick l.failed)
      · obtain ⟨n, hn⟩ := ih _ hv (hvisits _ hv)
        exact ⟨n, fun fuel hfuel _ s hs => hn fuel hfuel l.failed s rfl hs⟩
      · exact ⟨0, fun _ _ hv' => absurd hv' hv⟩
    obtain ⟨n, hn⟩ := exists_forall_ge hkids
    refine ⟨n + 1, fun fuel hfuel norecurse s hq hs => ?_⟩
    obtain ⟨k, rfl⟩ : ∃ k, fuel = k + 1 := ⟨fuel - 1, by omega⟩
    rw [verifyBlockref_succ]
    cases s.cached x.1 with
    | some d => exact ⟨_, rfl⟩
    | none =>
      rw [hl, hq]
      cases hx2 : x.2 with
      | true =>
        simp only [if_true, visitAll]
        split
        · exact ⟨_, rfl⟩
        · rename_i hf
          exact cacheAdd_of_not_fatal hfatal hl (Bool.eq_false_iff.mpr hf) (fun _ => rfl) _
      | false =>
        rw [hx2] at hs
        simp only [Bool.false_eq_true, if_false]
        have hnote : CacheOk o m (o.quick l.failed) (s.note x.1 l) := by
          cases o.quick l.failed with
          | true => exact hs.weaken
          | false => exact hs
        have hpass : ∀ c ∈ l.kids, ∀ s d s', CacheOk o m (o.quick l.failed) s →
            verifyBlockref o m tree k c l.failed s = .ok (some d, s') →
            Passes o m (o.quick l.failed) c ∧ CacheOk o m (o.quick l.failed) s' := by
          intro c _ s d s' hs hv
          have hpost := verifyBlockref_spec tree k c l.failed s hs
          rw [hv] at hpost
          cases hpost with
          | pass good cache => exact ⟨passes_of_good good, cache⟩
        obtain ⟨⟨r, s1⟩, hr⟩ := visitAll_returns hpass (fun pre c post hsplit hpre s hs =>
          hn c (hsplit ▸ List.mem_append_right _ List.mem_cons_self) k (by omega)
            ⟨hx2, l, pre, post, hl, hsplit, rfl, hpre⟩ s hs) hnote
        rw [hr]
        cases r with
        | none => exact ⟨_, rfl⟩
        | some ds =>
          dsimp only
          split
          · exact ⟨_, rfl⟩
          · rename_i hf
            refine cacheAdd_of_not_fatal hfatal hl (Bool.eq_false_iff.mpr hf) (fun hk => ?_) s1
            rw [hk] at hr
            cases hr
            rfl

/-- A cache that holds only what has passed and can be descended. -/
structure Sturdy (o : Opts) (m : Media) (quick : Bool) (s : Scan) : Prop where
  cache : CacheOk o m quick s
  bounded : ∀ e ∈ s.droot, Bounded o m (e.1, quick)

theorem Sturdy.weaken {quick : Bool} (h : Sturdy o m false s) : Sturdy o m quick s := by
  cases quick with
  | false => exact h
  | true => exact ⟨h.cache.weaken, fun e he => bounded_quick (safe_iff.mp (h.bounded e he)).1⟩

theorem cacheAdd_droot {bytes : Nat} {d' : Delta} (h : cacheAdd o b bytes d s = .ok (some d', s')) :
    ∀ e ∈ s'.droot, e ∈ s.droot ∨ e.1 = b := by
  unfold cacheAdd at h
  split at h
  · split at h
    · cases h
    · cases h
      intro e he
      rcases List.mem_append.mp he with he | he
      · exact Or.inl he
      · exact Or.inr (by rw [List.mem_singleton.mp he])
  · cases h
    exact fun e he => Or.inl he

/-- With this fuel, a call that returns has ended every descent and has met nothing fatal. -/
def Settles (o : Opts) (m : Media) (tree : Tree) (fuel : Nat) : Prop :=
  ∀ b norecurse s r, Sturdy o m (o.quick norecurse) s →
    verifyBlockref o m tree fuel b norecurse s = .ok r →
    Bounded o m (b, o.quick norecurse) ∧
      ∀ d s', r = (some d, s') → Sturdy o m (o.quick norecurse) s'

theorem Settles.children (ih : Settles o m tree fuel) (hs : Sturdy o m false s)
    (hl : lookAt o m b = .ok l) {res : Option (List Delta) × Scan}
    (hv : visitAll (fun c s => verifyBlockref o m tree fuel c l.failed s) l.kids s = .ok res)
    (hy : Visits o m (b, false) y) : Bounded o m y := by
  obtain ⟨c, q⟩ := y
  obtain ⟨-, l', pre, post, hl', hsplit, hq, hpre⟩ := hy
  rw [hl] at hl'
  cases hl'
  dsimp only at hsplit hq hpre
  subst hq
  have hpass : ∀ c ∈ l.kids, ∀ s d s', Sturdy o m (o.quick l.failed) s →
      verifyBlockref o m tree fuel c l.failed s = .ok (some d, s') →
      Sturdy o m (o.quick l.failed) s' := fun c _ s d s' hs hv => (ih c _ s _ hs hv).2 d s' rfl
  have hfail : ∀ c ∈ l.kids, ∀ s s', Sturdy o m (o.quick l.failed) s →
      verifyBlockref o m tree fuel c l.failed s = .ok (none, s') →
      ¬ Passes o m (o.quick l.failed) c := by
    intro c _ s s' hs hv
    have hpost := verifyBlockref_spec tree fuel c l.failed s hs.cache
    rw [hv] at hpost
    cases hpost with
    | fail bad => exact bad
  obtain ⟨t, r, ht, hr⟩ := visitAll_reaches hpass hfail hs.weaken hv hsplit hpre
  exact (ih c l.failed t r ht hr).1

/-- The cache after the children have passed. -/
theorem Settles.sturdy (ih : Settles o m tree fuel) (hs : Sturdy o m (o.quick norecurse) s)
    (hf : l.failed = false) {ds : List Delta}
    (hv : visitAll (fun c s => verifyBlockref o m tree fuel c l.failed s)
      (if o.quick norecurse then [] else l.kids) s = .ok (some ds, s')) :
    Sturdy o m (o.quick norecurse) s' := by
  cases hq : o.quick norecurse with
  | true =>
    rw [hq] at hv hs
    cases hv
    exact hs
  | false =>
    rw [hq] at hv hs
    simp only [Bool.false_eq_true, if_false, hf] at hv
    have hpass : ∀ c ∈ l.kids, ∀ s d s', Sturdy o m false s →
        verifyBlockref o m tree fuel c false s = .ok (some d, s') → Sturdy o m false s' :=
      fun c _ s d s' hs hv => (ih c false s _ hs hv).2 d s' rfl
    exact visitAll_inv hpass hs hv

theorem verifyBlockref_settles (o : Opts) (m : Media) (tree : Tree) (fuel : Nat) :
    Settles o m tree fuel := by
  induction fuel with
  | zero => exact fun _ _ _ _ _ h => by cases h
  | succ fuel ih =>
    intro b norecurse s r hs h
    have hpost := verifyBlockref_spec tree (fuel + 1) b norecurse s hs.cache
    rw [h] at hpost
    rw [verifyBlockref_succ] at h
    cases hc : s.cached b with
    | some d =>
      rw [hc] at h
      cases h
      refine ⟨hs.bounded _ (Scan.mem_of_cached hc), fun d s' heq => ?_⟩
      cases heq
      exact ⟨hs.cache, hs.bounded⟩
    | none =>
      rw [hc] at h
      cases hl : lookAt o m b with
      | error e => rw [hl] at h; cases h
      | ok l =>
        rw [hl] at h
        dsimp only at h
        have hnote : Sturdy o m (o.quick norecurse) (s.note b l) := ⟨hs.cache, hs.bounded⟩
        cases hv : visitAll (fun c s => verifyBlockref o m tree fuel c l.failed s)
            (if o.quick norecurse then [] else l.kids) (s.note b l) with
        | error e => rw [hv] at h; cases h
        | ok res =>
          have hb : Bounded o m (b, o.quick norecurse) := by
            refine safe_iff.mpr ⟨fun hF => ?_, fun y hy => ?_⟩
            · -- what is fatal fails the assertion where the blockref goes to the cache
              obtain ⟨hf, hk, hadd⟩ := hF.not_returns hl
              rw [hk, ite_self, visitAll, hf] at h
              simp only [Bool.false_eq_true, if_false] at h
              rw [hadd] at h
              cases h
            · have hq : o.quick norecurse = false := hy.1
              rw [hq] at hv hnote hy
              exact ih.children hnote hl hv hy
          refine ⟨hb, fun d s' heq => ?_⟩
          subst heq
          rw [hv] at h
          obtain ⟨_ | ds, s1⟩ := res
          · cases h
          · dsimp only at h
            split at h
            · cases h
            rename_i hf
            have hs1 := ih.sturdy hnote (Bool.eq_false_iff.mpr hf) hv
            cases hpost with
            | pass good cache =>
              refine ⟨cache, fun e he => ?_⟩
              rcases cacheAdd_droot h e he with he | heq
              · exact hs1.bounded e he
              · rw [heq]
                exact hb

theorem verifyBlockref_returns_iff (o : Opts) (m : Media) (tree : Tree) (b : Blockref) :
    (∃ fuel r s, verifyBlockref o m tree fuel b false ⟨0, [], [], 0⟩ = .ok (r, s) ∧
      (r.isSome ↔ ∃ d, Verified o m b d)) ↔ Bounded o m (b, false) := by
  have hempty : CacheOk o m false ⟨0, [], [], 0⟩ := fun e he => absurd he List.not_mem_nil
  constructor
  · rintro ⟨fuel, r, s, h, -⟩
    have hsturdy : Sturdy o m (o.quick false) ⟨0, [], [], 0⟩ :=
      ⟨hempty, fun e he => absurd he List.not_mem_nil⟩
    exact (verifyBlockref_settles o m tree fuel b false _ _ hsturdy h).1
  · intro hb
    obtain ⟨n, hn⟩ := verifyBlockref_of_bounded tree hb
    obtain ⟨⟨r, s⟩, hr⟩ := hn n le_rfl false _ rfl hempty
    refine ⟨n, r, s, hr, ?_⟩
    have hpost := verifyBlockref_spec tree n b false _ hempty
    rw [hr] at hpost
    cases hpost with
    | pass good => exact ⟨fun _ => ⟨_, good⟩, fun _ => rfl⟩
    | fail bad => exact ⟨nofun, fun hgood => absurd hgood bad⟩

/-! ## Trees that pass -/

/-- Every block of the tree is good, and none is fatal. -/
inductive Sound (o : Opts) (m : Media) : Blockref → Prop
  | node {b : Blockref} {l : Look} (look : lookAt o m b = .ok l) (fine : l.failed = false)
      (harmless : ¬ Fatal o m b) (kids : ∀ c ∈ l.kids, Sound o m c) : Sound o m b

/-- A blockref without a block passes. -/
theorem sound_hole (hsize : b.size = 0) (hoff : b.dataOff = 0) (hvalid : invalidType b.type = []) :
    Sound o m b := by
  have hread : m.readMedia b = .ok (0, m.stale b.dataOff) := by
    rw [Media.readMedia, if_pos hsize]
  have hlook : lookAt o m b = .ok
      { bytes := 0, own := typeCounts o.countEmpty b.type, reports := invalidType b.type
        kids := [] } := by
    rw [lookAt, hread]
    dsimp only
    rw [if_neg fun hc => hc.2.2 rfl, if_pos rfl]
  refine .node hlook ?_ ?_ fun c hc => absurd hc List.not_mem_nil
  · rw [Look.failed, hvalid]
    rfl
  · rintro (⟨-, -, bytes, buf, hr, hne⟩ | ⟨-, hne, -⟩)
    · rw [hread] at hr
      cases hr
      exact hne rfl
    · exact hne hoff

/-- A block passes that can be read, has the right check code, and whose children pass. -/
theorem sound_block {buf : Image} (hread : m.readMedia b = .ok (b.size, buf)) (h0 : b.size ≠ 0)
    (htype : b.type ≠ .empty) (hvalid : invalidType b.type = [])
    (hcode : o.codes.mismatch b buf = none) (hkids : ∀ c ∈ b.children buf, Sound o m c) :
    Sound o m b := by
  have hlook : lookAt o m b = .ok
      { bytes := b.size, own := typeCounts o.countEmpty b.type + byteCounts o.countEmpty b.size b.type
        reports := invalidType b.type ++ (o.codes.mismatch b buf).toList
        kids := b.children buf } := by
    rw [lookAt, hread]
    dsimp only
    rw [if_neg fun hc => htype hc.2.1, if_neg h0]
  refine .node hlook ?_ ?_ hkids
  · rw [Look.failed, hvalid, hcode]
    rfl
  · rintro (⟨-, ht, -⟩ | ⟨-, -, hz, -⟩)
    · exact htype ht
    · exact h0 hz

theorem Sound.verified (h : Sound o m b) : ∃ d, Verified o m b d := by
  induction h with
  | node look fine _ _ ih =>
    choose f hf using ih
    classical
    exact ⟨_, .node look fine (fun c => if hc : c ∈ _ then f c hc else 0) fun c hc => by
      rw [dif_pos hc]
      exact hf c hc⟩

theorem Sound.bounded (h : Sound o m b) : Bounded o m (b, false) := by
  induction h with
  | node look fine harmless _ ih =>
    refine safe_iff.mpr ⟨harmless, ?_⟩
    rintro ⟨c, q⟩ ⟨-, l', pre, post, hl', hsplit, hq, -⟩
    rw [look] at hl'
    cases hl'
    dsimp only at hsplit hq
    rw [fine, Opts.quick_false] at hq
    rw [hq]
    exact ih c (hsplit ▸ List.mem_append_right _ List.mem_cons_self)

/-- Verification of such a tree returns, and passes. -/
theorem Sound.passes (h : Sound o m b) (tree : Tree) (hs : CacheOk o m false s) :
    ∃ n d s', (∀ fuel ≥ n, verifyBlockref o m tree fuel b false s = .ok (some d, s')) ∧
      CacheOk o m false s' := by
  obtain ⟨n, hn⟩ := verifyBlockref_of_bounded tree h.bounded
  obtain ⟨⟨r, s'⟩, hr⟩ := hn n le_rfl false s rfl hs
  have hpost := verifyBlockref_spec tree n b false s hs
  rw [hr] at hpost
  cases hpost with
  | pass good cache =>
    exact ⟨n, _, s', fun fuel hfuel => verifyBlockref_mono_le hr hfuel, cache⟩
  | fail bad => exact absurd h.verified bad

/-- The zones below the end of the root volume have such trees. -/
theorem testZones_passes {is : List Nat} (best : Option Int)
    (h : ∀ i ∈ is, zoneBytes * i < m.rootSize →
      m.zoneRead i = true ∧ Sound o m (rootBlockref i tree))
    (droot : List (Blockref × Delta)) (hd : ∀ e ∈ droot, Verified o m e.1 e.2) :
    ∃ n stats, ∀ fuel ≥ n,
      testZones o m (fun _ _ => m.stale) tree best fuel is false droot = .ok (false, stats) := by
  induction is generalizing droot with
  | nil => exact ⟨0, [], fun _ _ => rfl⟩
  | cons i is ih =>
    have hrest := ih fun j hj => h j (List.mem_cons_of_mem _ hj)
    simp only [testZones, verifyReads_stale]
    split
    · exact hrest droot hd
    split
    · exact ⟨0, [], fun _ _ => rfl⟩
    rename_i hlt
    obtain ⟨hread, hsound⟩ := h i List.mem_cons_self (Nat.not_le.mp hlt)
    have hcache : CacheOk o m false { totals := 0, root := [], droot := droot, reads := 0 } := hd
    obtain ⟨n1, d, s', h1, hs'⟩ := hsound.passes tree hcache
    obtain ⟨n2, stats, h2⟩ := hrest s'.droot hs'
    refine ⟨max n1 n2, s'.totals :: stats, fun fuel hfuel => ?_⟩
    rw [hread, h1 fuel ((le_max_left _ _).trans hfuel)]
    dsimp only
    rw [Option.isNone_some, Bool.or_false, h2 fuel ((le_max_right _ _).trans hfuel)]
    rfl

end Verify

/-! ## The list of PFSs -/

/-- The blockrefs that `init_pfs_blockref` goes on with, none where it ends. -/
def Media.pfsKids (m : Media) (b : Blockref) : List Blockref :=
  match m.readMedia b with
  | .error _ => []
  | .ok (bytes, buf) => if bytes = 0 then [] else pfsChildren b buf

/-- All blocks that the list of PFSs is made from can be read. -/
inductive PfsReadable (m : Media) : Blockref → Prop
  | node {b : Blockref} {bytes : Nat} {buf : Image} (read : m.readMedia b = .ok (bytes, buf))
      (kids : ∀ c ∈ m.pfsKids b, PfsReadable m c) : PfsReadable m b

/-- A call for `b` comes to `c`. -/
def PfsVisits (m : Media) (b c : Blockref) : Prop :=
  ∃ pre post, m.pfsKids b = pre ++ c :: post ∧ ∀ x ∈ pre, PfsReadable m x

/-- An inode that is neither the super-root nor the root of a PFS. -/
def PfsFatal (m : Media) (b : Blockref) : Prop :=
  ∃ bytes buf, m.readMedia b = .ok (bytes, buf) ∧ bytes ≠ 0 ∧ isPfs b buf ∧
    buf.word 0x51 1 / 2 % 2 = 0

/-- The descent from `b` ends everywhere, and comes to no fatal inode. -/
abbrev PfsBounded (m : Media) : Blockref → Prop := Safe (PfsVisits m) (PfsFatal m)

section Pfs

variable {m : Media} {b c : Blockref} {bytes fuel : Nat} {buf : Image} {blist : List Pfs}

/-- A call for a block that can be read and is not fatal visits its children. -/
theorem initPfsBlockref_succ (hread : m.readMedia b = .ok (bytes, buf)) (hF : ¬ PfsFatal m b)
    (fuel : Nat) (blist : List Pfs) :
    ∃ blist', initPfsBlockref m (fuel + 1) b blist =
      match visitAll (initPfsBlockref m fuel) (m.pfsKids b) blist' with
      | .error e => .error e
      | .ok (none, blist) => .ok (none, blist)
      | .ok (some _, blist) => .ok (some (), blist) := by
  rw [initPfsBlockref, Media.pfsKids, hread]
  dsimp only
  split
  · exact ⟨blist, rfl⟩
  · rename_i hne
    rw [if_neg fun hc => hF ⟨bytes, buf, hread, hne, hc⟩]
    exact ⟨_, rfl⟩

theorem initPfsBlockref_fatal (hF : PfsFatal m b) :
    initPfsBlockref m (fuel + 1) b blist = .error .notPfs := by
  obtain ⟨bytes, buf, hread, hne, hpfs⟩ := hF
  rw [initPfsBlockref, hread]
  dsimp only
  rw [if_neg hne, if_pos hpfs]

theorem PfsReadable.kid (h : PfsReadable m b) (hc : c ∈ m.pfsKids b) : PfsReadable m c := by
  cases h with
  | node _ kids => exact kids c hc

theorem initPfsBlockref_spec {r : Option Unit} {blist' : List Pfs}
    (h : initPfsBlockref m fuel b blist = .ok (r, blist')) : r.isSome ↔ PfsReadable m b := by
  induction fuel generalizing b blist r blist' with
  | zero => cases h
  | succ fuel ih =>
    cases hread : m.readMedia b with
    | error e =>
      rw [initPfsBlockref, hread] at h
      cases h
      refine ⟨nofun, fun hr => ?_⟩
      cases hr with
      | node read => rw [hread] at read; cases read
    | ok p =>
      obtain ⟨bytes, buf⟩ := p
      by_cases hF : PfsFatal m b
      · rw [initPfsBlockref_fatal hF] at h
        cases h
      · obtain ⟨bl, hsucc⟩ := initPfsBlockref_succ hread hF fuel blist
        rw [hsucc] at h
        have hpass : ∀ c ∈ m.pfsKids b, ∀ s d s', True →
            initPfsBlockref m fuel c s = .ok (some d, s') → PfsReadable m c ∧ True :=
          fun c _ s d s' _ hv => ⟨(ih hv).mp rfl, trivial⟩
        rcases visitAll_spec (R := fun c _ => PfsReadable m c) hpass trivial with
          ⟨ds, s', hrun, hall, -⟩ | hstop
        · rw [hrun] at h
          cases h
          refine ⟨fun _ => .node hread fun c hc => ?_, fun _ => rfl⟩
          obtain ⟨i, hi, rfl⟩ := List.mem_iff_getElem.mp hc
          exact hall.get hi (hall.length_eq ▸ hi)
        · generalize visitAll (initPfsBlockref m fuel) (m.pfsKids b) bl = res at hstop h
          cases hstop with
          | error => cases h
          | failed split passed inv here =>
            cases h
            refine ⟨nofun, fun hr => ?_⟩
            have hkid := hr.kid (split ▸ List.mem_append_right _ List.mem_cons_self)
            exact absurd ((ih here).mpr hkid) nofun

theorem initPfsBlockref_of_bounded (hb : PfsBounded m b) :
    ∃ n, ∀ fuel ≥ n, ∀ blist, ∃ r, initPfsBlockref m fuel b blist = .ok r := by
  have hacc := hb.ends
  induction hacc with
  | intro b _ ih =>
    obtain ⟨hF, hvisits⟩ := safe_iff.mp hb
    have hkids : ∀ c ∈ m.pfsKids b, ∃ n, ∀ fuel ≥ n, PfsVisits m b c →
        ∀ blist, ∃ r, initPfsBlockref m fuel c blist = .ok r := by
      intro c _
      by_cases hv : PfsVisits m b c
      · obtain ⟨n, hn⟩ := ih c hv (hvisits c hv)
        exact ⟨n, fun fuel hfuel _ => hn fuel hfuel⟩
      · exact ⟨0, fun _ _ hv' => absurd hv' hv⟩
    obtain ⟨n, hn⟩ := exists_forall_ge hkids
    refine ⟨n + 1, fun fuel hfuel blist => ?_⟩
    obtain ⟨k, rfl⟩ : ∃ k, fuel = k + 1 := ⟨fuel - 1, by omega⟩
    cases hread : m.readMedia b with
    | error e => exact ⟨_, by rw [initPfsBlockref, hread]⟩
    | ok p =>
      obtain ⟨bl, hsucc⟩ := initPfsBlockref_succ hread hF k blist
      have hpass : ∀ c ∈ m.pfsKids b, ∀ s d s', True →
          initPfsBlockref m k c s = .ok (some d, s') → PfsReadable m c ∧ True :=
        fun c _ s d s' _ hv => ⟨(initPfsBlockref_spec hv).mp rfl, trivial⟩
      obtain ⟨⟨r, s⟩, hr⟩ := visitAll_returns hpass (fun pre c post hsplit hpre s _ =>
        hn c (hsplit ▸ List.mem_append_right _ List.mem_cons_self) k (by omega)
          ⟨pre, post, hsplit, hpre⟩ s) (s := bl) trivial
      rw [hsucc, hr]
      cases r <;> exact ⟨_, rfl⟩

theorem pfsBounded_of_initPfsBlockref {r : Option Unit × List Pfs}
    (h : initPfsBlockref m fuel b blist = .ok r) : PfsBounded m b := by
  induction fuel generalizing b blist r with
  | zero => cases h
  | succ fuel ih =>
    have hF : ¬ PfsFatal m b := fun hF => by
      rw [initPfsBlockref_fatal hF] at h
      cases h
    refine safe_iff.mpr ⟨hF, ?_⟩
    rintro c ⟨pre, post, hsplit, hpre⟩
    cases hread : m.readMedia b with
    | error e =>
      rw [Media.pfsKids, hread] at hsplit
      simp at hsplit
    | ok p =>
      obtain ⟨bl, hsucc⟩ := initPfsBlockref_succ hread hF fuel blist
      rw [hsucc] at h
      cases hv : visitAll (initPfsBlockref m fuel) (m.pfsKids b) bl with
      | error e => rw [hv] at h; cases h
      | ok res =>
        have hpass : ∀ c ∈ m.pfsKids b, ∀ s d s', True →
            initPfsBlockref m fuel c s = .ok (some d, s') → True :=
          fun _ _ _ _ _ _ _ => trivial
        have hfail : ∀ c ∈ m.pfsKids b, ∀ s s', True →
            initPfsBlockref m fuel c s = .ok (none, s') → ¬ PfsReadable m c :=
          fun c _ s s' _ hv hr => absurd ((initPfsBlockref_spec hv).mpr hr) nofun
        obtain ⟨t, r, -, hr⟩ := visitAll_reaches hpass hfail trivial hv hsplit hpre
        exact ih hr

/-- A call of `init_pfs_blockref` with an empty list. -/
theorem initPfsBlockref_returns_iff (m : Media) (b : Blockref) :
    (∃ fuel r blist, initPfsBlockref m fuel b [] = .ok (r, blist) ∧
      (r.isSome ↔ PfsReadable m b)) ↔ PfsBounded m b := by
  constructor
  · rintro ⟨fuel, r, blist, h, -⟩
    exact pfsBounded_of_initPfsBlockref h
  · intro hb
    obtain ⟨n, hn⟩ := initPfsBlockref_of_bounded hb
    obtain ⟨⟨r, blist⟩, hr⟩ := hn n le_rfl []
    exact ⟨n, r, blist, hr, initPfsBlockref_spec hr⟩

end Pfs

/-- A blockref without a check code. -/
def plainRef (type : UInt8) (dataOff : Nat) : List UInt8 :=
  type :: List.replicate 31 0 ++ toLE 8 dataOff ++ List.replicate 88 0

/-- A filesystem whose only blockref, in the first volume header, is `ref`; `block` is at 4 MB. -/
def probeMedia (ref block : List UInt8) : Media where
  fso := smallMedia.fso
  devs := fun _ => { smallDevice with
    bytes := (Image.write (fun _ => 0) 0x200 ref).write 0x400000 block }
  stale := fun _ _ => 0

/-- An indirect block of 1 KB at 4 MB. -/
def loopRef : Blockref := ⟨plainRef 2 0x40000A, rfl⟩

/-- The indirect block refers to itself. -/
def loopMedia : Media := probeMedia loopRef.bytes loopRef.bytes

/-- No option; `cacheCount` is -1 by default. -/
def plainOpts (cacheCount : Int) : Opts :=
  ⟨⟨iscsiCrc32, fun _ => 0, none⟩, false, false, cacheCount⟩

/-- Both the header and the block are good, and refer to the block first. -/
theorem loopMedia_look {b : Blockref} (hb : b = rootBlockref 0 .volume ∨ b = loopRef) :
    ∃ l, lookAt (plainOpts (-1)) loopMedia b = .ok l ∧ l.failed = false ∧
      l.kids.head? = some loopRef := by
  rcases hb with rfl | rfl
  · exact ⟨_, rfl, rfl, by decide +kernel⟩
  · exact ⟨_, rfl, rfl, by decide +kernel⟩

theorem loopMedia_verify (fuel : Nat) {b : Blockref} {s : Scan} (hs : s.droot = [])
    (hb : b = rootBlockref 0 .volume ∨ b = loopRef) :
    verifyBlockref (plainOpts (-1)) loopMedia .volume fuel b false s = .error .fuel := by
  induction fuel generalizing b s with
  | zero => rfl
  | succ fuel ih =>
    obtain ⟨l, hl, hf, hk⟩ := loopMedia_look hb
    obtain ⟨ks, hks⟩ := List.head?_eq_some_iff.mp hk
    have hc : s.cached b = none := by
      rw [Scan.cached, hs]
      split <;> rfl
    rw [verifyBlockref_succ, hc, hl]
    dsimp only
    rw [hf, hks, Opts.quick_false, if_neg Bool.false_ne_true, visitAll_cons_error]
    exact ih hs (Or.inr rfl)

theorem loopMedia_pfs (fuel : Nat) {b : Blockref} (blist : List Pfs)
    (hb : b = rootBlockref 0 .volume ∨ b = loopRef) :
    initPfsBlockref loopMedia fuel b blist = .error .fuel := by
  induction fuel generalizing b blist with
  | zero => rfl
  | succ fuel ih =>
    have hread : ∃ bytes buf, loopMedia.readMedia b = .ok (bytes, buf) ∧ bytes ≠ 0 ∧
        b.type ≠ .inode ∧ (loopMedia.pfsKids b).head? = some loopRef := by
      rcases hb with rfl | rfl
      · exact ⟨_, _, rfl, by decide, by decide, by decide +kernel⟩
      · exact ⟨_, _, rfl, by decide, by decide, by decide +kernel⟩
    obtain ⟨bytes, buf, hread, hne, htype, hk⟩ := hread
    obtain ⟨ks, hks⟩ := List.head?_eq_some_iff.mp hk
    have hF : ¬ PfsFatal loopMedia b := fun ⟨_, _, _, _, hpfs, _⟩ => htype hpfs.1
    obtain ⟨bl, hsucc⟩ := initPfsBlockref_succ hread hF fuel blist
    rw [hsucc, hks, visitAll_cons_error (ih bl (Or.inr rfl))]

end Lh1.Hammer2
