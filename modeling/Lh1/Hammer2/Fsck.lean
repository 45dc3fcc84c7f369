/-
  The verification of fsck_hammer2 (fsck_hammer2/test.c).

  verify_blockref() walks a tree of blockrefs and keeps two sets of counters: those of the zone, and
  those of the subtree, which go to the cache of verified blockrefs (`droot`) when there are enough
  of them. The counters are numbers here. The recursion is given fuel, and running out of it is an
  outcome of its own. Messages that are printed only for debugging are left out. What is on the stack
  where a block is not read as a whole is another thing with each read (`verifyReads`);
  `verifyBlockref` is for a stack that depends on the block only.

  * `verifyBlockref_spec`: a call that returns says whether the tree is good, as long as the cache
    holds what good trees have.
-/
import Lh1.Lib.Walk
import Lh1.Hammer2.Media

namespace Lh1.Hammer2

open Lib

/-! ## Options, counters and messages -/

/-- The functions that compute check codes. Without OpenSSL there is none for SHA192. -/
structure Codes where
  icrc32 : Crc
  xxh64 : List UInt8 → UInt64
  sha192 : Option (List UInt8 → List UInt8)

/-- The options that verification depends on. -/
structure Opts where
  codes : Codes
  countEmpty : Bool
  force : Bool
  cacheCount : Int

/-- What the program can stop with. -/
inductive Stop where
  | fuel         -- not an outcome of the program
  | emptyBytes   -- assert(bytes == 0) for an EMPTY blockref
  | cacheBytes   -- assert(bytes) where a blockref goes to the cache
  | notPfs       -- assert(0) for an inode that is neither SUPROOT nor a PFS
  deriving DecidableEq, Repr

/-- The fields of `delta_stats_t`. -/
inductive Counter where
  | blockref
  | empty
  | bytes
  | inode
  | indirect
  | data
  | dirent
  | freemapNode
  | freemapLeaf
  | count
  deriving DecidableEq, Repr

/-- `delta_stats_t`. -/
abbrev Delta := Counter → Nat

/-- The fields of `blockref_stats_t`; the counters of the two trees share a union. -/
inductive Slot where
  | blockref
  | empty
  | bytes
  | word0
  | word1
  | word2
  | word3
  deriving DecidableEq, Repr

/-- The type of a `blockref_stats_t`. -/
inductive Tree where
  | volume
  | freemap
  deriving DecidableEq, Repr

/-- The counters of a delta where `blockref_stats_t` has them. -/
def Delta.slots (d : Delta) : Slot → Nat
  | .blockref => d .blockref
  | .empty => d .empty
  | .bytes => d .bytes
  | .word0 => d .inode + d .freemapNode
  | .word1 => d .indirect + d .freemapLeaf
  | .word2 => d .data
  | .word3 => d .dirent

/-- What `load_delta_stats` adds. -/
def Delta.loaded (d : Delta) : Tree → Slot → Nat
  | _, .blockref => d .blockref
  | _, .empty => d .empty
  | _, .bytes => d .bytes
  | .volume, .word0 => d .inode
  | .volume, .word1 => d .indirect
  | .volume, .word2 => d .data
  | .volume, .word3 => d .dirent
  | .freemap, .word0 => d .freemapNode
  | .freemap, .word1 => d .freemapLeaf
  | .freemap, .word2 => 0
  | .freemap, .word3 => 0

/-- The texts that are kept with a blockref. -/
inductive Report where
  | invalidType
  | readError (e : ReadError)
  | badIscsi32
  | badXxhash64
  | badSha192
  | badFreemap
  deriving DecidableEq, Repr

/-- The state of a scan: the counters and messages of the zone, the cache, and how many blocks of
    the zone have been looked at. -/
structure Scan where
  totals : Slot → Nat
  root : List (Blockref × Report)
  droot : List (Blockref × Delta)
  reads : Nat

/-! ## Looking at one block -/

/-- The counters that go up for a blockref of this type. -/
def typeCounts (countEmpty : Bool) : BrefType → Delta
  | .empty => if countEmpty then Pi.single .blockref 1 + Pi.single .empty 1 else 0
  | .inode => Pi.single .blockref 1 + Pi.single .inode 1
  | .indirect => Pi.single .blockref 1 + Pi.single .indirect 1
  | .data => Pi.single .blockref 1 + Pi.single .data 1
  | .dirent => Pi.single .blockref 1 + Pi.single .dirent 1
  | .freemapNode => Pi.single .blockref 1 + Pi.single .freemapNode 1
  | .freemapLeaf => Pi.single .blockref 1 + Pi.single .freemapLeaf 1
  | .freemap => 0
  | .volume => 0
  | .other _ => Pi.single .blockref 1

/-- The bytes that are counted for a block. -/
def byteCounts (countEmpty : Bool) (bytes : Nat) : BrefType → Delta
  | .freemap => 0
  | .volume => 0
  | .empty => if countEmpty then Pi.single .bytes bytes else 0
  | _ => Pi.single .bytes bytes

/-- The check code of the block at the front of the buffer. -/
def Codes.mismatch (codes : Codes) (b : Blockref) (buf : Image) : Option Report :=
  match b.method with
  | .none => none
  | .iscsi32 =>
    if b.check32 ≠ (codes.icrc32 (buf.read 0 b.size)).toNat then some .badIscsi32 else none
  | .xxhash64 =>
    if b.check64 ≠ (codes.xxh64 (buf.read 0 b.size)).toNat then some .badXxhash64 else none
  | .sha192 =>
    match codes.sha192 with
    | none => none
    | some sha => if sha (buf.read 0 b.size) ≠ b.check192 then some .badSha192 else none
  | .freemap =>
    if b.check32 ≠ (codes.icrc32 (buf.read 0 b.size)).toNat then some .badFreemap else none

def Blockref.children (b : Blockref) (buf : Image) : List Blockref :=
  match b.type with
  | .inode => if buf.word 0x51 1 % 2 = 0 then blockrefsAt buf 0x200 4 else []
  | .indirect => blockrefsAt buf 0 (b.size / 128)
  | .freemapNode => blockrefsAt buf 0 (b.size / 128)
  | .volume => blockrefsAt buf 0x200 4
  | .freemap => blockrefsAt buf 0x800 4
  | _ => []

/-- What `verify_blockref` finds out about the block itself. -/
structure Look where
  bytes : Nat
  own : Delta
  reports : List Report
  kids : List Blockref

/-- Something is wrong with the block. -/
def Look.failed (l : Look) : Bool := !l.reports.isEmpty

def invalidType : BrefType → List Report
  | .other _ => [.invalidType]
  | _ => []

/-- The part of `verify_blockref` before its recursion. A block that cannot be read ends the call;
    this is the same as failing without children. -/
def lookAt (o : Opts) (m : Media) (b : Blockref) : Except Stop Look :=
  match m.readMedia b with
  | .error e =>
    .ok { bytes := 0
          own := typeCounts o.countEmpty b.type
          reports := invalidType b.type ++ [.readError e]
          kids := [] }
  | .ok (bytes, buf) =>
    if o.countEmpty = false ∧ b.type = .empty ∧ bytes ≠ 0 then .error .emptyBytes
    else if bytes = 0 then
      .ok { bytes := 0
            own := typeCounts o.countEmpty b.type
            reports := invalidType b.type
            kids := [] }
    else
      .ok { bytes := bytes
            own := typeCounts o.countEmpty b.type + byteCounts o.countEmpty bytes b.type
            reports := invalidType b.type ++ (o.codes.mismatch b buf).toList
            kids := b.children buf }

/-! ## The recursion -/

def Scan.cached (s : Scan) (b : Blockref) : Option Delta :=
  if b.dataOff = 0 then none else (s.droot.find? fun e => e.1 = b).map Prod.snd

/-- `load_delta_stats`. -/
def Scan.load (s : Scan) (tree : Tree) (d : Delta) : Scan :=
  { s with totals := s.totals + d.loaded tree }

/-- The counters and messages of the block itself. -/
def Scan.note (s : Scan) (b : Blockref) (l : Look) : Scan :=
  { s with totals := s.totals + l.own.slots, root := s.root ++ l.reports.map (b, ·),
           reads := s.reads + 1 }

/-- The end of `verify_blockref`, where nothing has failed. -/
def cacheAdd (o : Opts) (b : Blockref) (bytes : Nat) (d : Delta) (s : Scan) :
    Except Stop (Option Delta × Scan) :=
  if b.dataOff ≠ 0 ∧ 0 < o.cacheCount ∧ o.cacheCount ≤ d .count then
    if bytes = 0 then .error .cacheBytes
    else .ok (some d, { s with droot := s.droot ++ [(b, d)] })
  else .ok (some d, s)

/-- Only the block itself is looked at; the option to force overrides `norecurse`. -/
def Opts.quick (o : Opts) (norecurse : Bool) : Bool := norecurse && !o.force

/-- `verify_blockref`, with the delta that a return of 0 leaves; -1 is `none`. All callers start
    with a zero delta. `stack` is what is on the stack at each read of the zone. -/
def verifyReads (o : Opts) (m : Media) (stack : Nat → Nat → Image) (tree : Tree) :
    Nat → Blockref → Bool → Scan → Except Stop (Option Delta × Scan)
  | 0, _, _, _ => .error .fuel
  | fuel + 1, b, norecurse, s =>
    match s.cached b with
    | some d => .ok (some d, s.load tree d)
    | none =>
      match lookAt o { m with stale := stack s.reads } b with
      | .error e => .error e
      | .ok l =>
        -- below a block that failed only its direct children are looked at
        match visitAll (fun c s => verifyReads o m stack tree fuel c l.failed s)
            (if o.quick norecurse then [] else l.kids) (s.note b l) with
        | .error e => .error e
        | .ok (none, s) => .ok (none, s)
        | .ok (some ds, s) =>
          if l.failed then .ok (none, s)
          else cacheAdd o b l.bytes (l.own + ds.sum + Pi.single .count 1) s

def verifyBlockref (o : Opts) (m : Media) (tree : Tree) :
    Nat → Blockref → Bool → Scan → Except Stop (Option Delta × Scan) :=
  verifyReads o m (fun _ => m.stale) tree

theorem verifyReads_stale (o : Opts) (m : Media) (tree : Tree) :
    verifyReads o m (fun _ => m.stale) tree = verifyBlockref o m tree := rfl

theorem verifyBlockref_succ (o : Opts) (m : Media) (tree : Tree) (fuel : Nat) (b : Blockref)
    (norecurse : Bool) (s : Scan) : verifyBlockref o m tree (fuel + 1) b norecurse s =
      match s.cached b with
      | some d => .ok (some d, s.load tree d)
      | none =>
        match lookAt o m b with
        | .error e => .error e
        | .ok l =>
          match visitAll (fun c s => verifyBlockref o m tree fuel c l.failed s)
              (if o.quick norecurse then [] else l.kids) (s.note b l) with
          | .error e => .error e
          | .ok (none, s) => .ok (none, s)
          | .ok (some ds, s) =>
            if l.failed then .ok (none, s)
            else cacheAdd o b l.bytes (l.own + ds.sum + Pi.single .count 1) s := rfl

/-! ## The zones -/

/-- `init_root_blockref`. -/
def rootBlockref (i : Nat) (tree : Tree) : Blockref where
  bytes := (match tree with | .volume => 255 | .freemap => 254) :: List.replicate 31 0 ++
    toLE 8 (zoneBytes * i + 16) ++ List.replicate 88 0
  length := by simp

/-- `hammer2_get_root_volume_size`. -/
def Media.rootSize (m : Media) : Nat := (m.fso.volumeAt 0).elim noOffset Volume.size

/-- A header of the root volume can be read. -/
def Media.zoneRead (m : Media) (i : Nat) : Bool :=
  (m.pread (m.volumeFd 0) (subOff (zoneBytes * i) (m.volumeOffset 0)) pbufSize).isSome

/-- `verify_volume_header` returns 0; the byte order is only reported. -/
def verifyVolumeHeader (icrc : Crc) (vd : VolumeData) : Prop :=
  vd.GoodMagic ∧ vd.CrcsOk icrc

instance (icrc : Crc) (vd : VolumeData) : Decidable (verifyVolumeHeader icrc vd) :=
  inferInstanceAs (Decidable (_ ∧ _))

/-- The loop of `test_volume_header`: whether it failed. -/
def testHeaders (icrc : Crc) (m : Media) (best : Option Int) :
    List Nat → Bool → Bool
  | [], failed => failed
  | i :: is, failed =>
    if best.any (· ≠ (i : Int)) then testHeaders icrc m best is failed
    else if m.rootSize ≤ zoneBytes * i then failed
    else
      match m.pread (m.volumeFd 0) (subOff (zoneBytes * i) (m.volumeOffset 0)) pbufSize with
      | none => true
      | some vd => testHeaders icrc m best is (failed || !decide (verifyVolumeHeader icrc vd))

/-- `test_volume_header`. -/
def testVolumeHeader (icrc : Crc) (m : Media) (best : Option Int) : Bool :=
  testHeaders icrc m best (List.range numVolhdrs) false

/-- The loop of `test_blockref`: whether it failed, and the counters of each zone it came to. -/
def testZones (o : Opts) (m : Media) (stack : Nat → Nat → Nat → Image) (tree : Tree)
    (best : Option Int) (fuel : Nat) :
    List Nat → Bool → List (Blockref × Delta) → Except Stop (Bool × List (Slot → Nat))
  | [], failed, _ => .ok (failed, [])
  | i :: is, failed, droot =>
    if best.any (· ≠ (i : Int)) then testZones o m stack tree best fuel is failed droot
    else if m.rootSize ≤ zoneBytes * i then .ok (failed, [])
    else if m.zoneRead i = false then .ok (true, [])
    else
      match verifyReads o m (stack i) tree fuel (rootBlockref i tree) false
          { totals := 0, root := [], droot := droot, reads := 0 } with
      | .error e => .error e
      | .ok (r, s) =>
        match testZones o m stack tree best fuel is (failed || r.isNone) s.droot with
        | .error e => .error e
        | .ok (failed, stats) => .ok (failed, s.totals :: stats)

/-- `test_blockref`; with the option to scan the best zone only, `best` is that zone or -1. -/
def testReads (o : Opts) (m : Media) (stack : Nat → Nat → Nat → Image) (tree : Tree)
    (best : Option Int) (fuel : Nat) : Except Stop (Bool × List (Slot → Nat)) :=
  testZones o m stack tree best fuel (List.range numVolhdrs) false []

def testBlockref (o : Opts) (m : Media) (tree : Tree) (best : Option Int) (fuel : Nat) :
    Except Stop (Bool × List (Slot → Nat)) :=
  testReads o m (fun _ _ => m.stale) tree best fuel

/-! ## The graph of blockrefs -/

/-- `c` is in the block of `b`. -/
def Media.Child (m : Media) (b c : Blockref) : Prop :=
  ∃ bytes buf, m.readMedia b = .ok (bytes, buf) ∧ bytes ≠ 0 ∧ c ∈ b.children buf

/-- `b` is in the tree of one of the zones. -/
def Media.Reach (m : Media) (tree : Tree) (b : Blockref) : Prop :=
  ∃ i < numVolhdrs, Relation.ReflTransGen m.Child (rootBlockref i tree) b

def Blockref.toVector (b : Blockref) : List.Vector UInt8 128 := ⟨b.bytes, b.length⟩

instance : Finite Blockref :=
  Finite.of_injective Blockref.toVector fun b c h => by
    cases b
    cases c
    cases h
    rfl

theorem mem_kids_iff {o : Opts} {m : Media} {b c : Blockref} {l : Look} (h : lookAt o m b = .ok l) :
    c ∈ l.kids ↔ m.Child b c := by
  unfold lookAt at h
  unfold Media.Child
  split at h
  · rename_i e he
    cases h
    simp [he]
  · rename_i bytes buf hread
    rw [hread]
    split at h
    · cases h
    split at h
    · rename_i hz
      cases h
      simp [hz]
    · rename_i hz
      cases h
      simp [hz]

/-! ## Good trees -/

section Spec

variable {o : Opts} {m : Media} {tree : Tree} {b c : Blockref} {l : Look} {d : Delta} {s s' : Scan}
  {quick : Bool} {fuel : Nat}

def Fine (o : Opts) (m : Media) (b : Blockref) : Prop :=
  ∃ l, lookAt o m b = .ok l ∧ l.failed = false

/-- The block and all blocks below it are good, with these counters. -/
inductive Verified (o : Opts) (m : Media) : Blockref → Delta → Prop
  | node {b : Blockref} {l : Look} (look : lookAt o m b = .ok l) (fine : l.failed = false)
      (f : Blockref → Delta) (kids : ∀ c ∈ l.kids, Verified o m c (f c)) :
      Verified o m b (l.own + (l.kids.map f).sum + Pi.single .count 1)

theorem Verified.isFine (h : Verified o m b d) : Fine o m b := by
  cases h with
  | node look fine => exact ⟨_, look, fine⟩

theorem Verified.kid (h : Verified o m b d) (hl : lookAt o m b = .ok l) (hc : c ∈ l.kids) :
    ∃ d, Verified o m c d := by
  cases h with
  | node look fine f kids =>
    rw [hl] at look
    cases look
    exact ⟨f c, kids c hc⟩

theorem Verified.unique {d' : Delta} (h : Verified o m b d) (h' : Verified o m b d') : d = d' := by
  induction h generalizing d' with
  | node look fine f kids ih =>
    cases h' with
    | node look' fine' f' kids' =>
      rw [look] at look'
      cases look'
      have hmap := List.map_congr_left fun c hc => ih c hc (kids' c hc)
      rw [hmap]

/-- What a return of 0 says; in a quick call only the block itself is looked at. -/
def Passes (o : Opts) (m : Media) (quick : Bool) (b : Blockref) : Prop :=
  if quick then Fine o m b else ∃ d, Verified o m b d

theorem passes_of_good (h : if quick then Fine o m b else Verified o m b d) :
    Passes o m quick b := by
  cases quick with
  | true => exact h
  | false => exact ⟨d, h⟩

/-- The entries of the cache have passed. -/
def CacheOk (o : Opts) (m : Media) (quick : Bool) (s : Scan) : Prop :=
  ∀ e ∈ s.droot, if quick then Fine o m e.1 else Verified o m e.1 e.2

theorem CacheOk.weaken (h : CacheOk o m quick s) : CacheOk o m true s := by
  intro e he
  have := h e he
  cases quick with
  | true => exact this
  | false => exact Verified.isFine this

inductive VerifyPost (o : Opts) (m : Media) (quick : Bool) (b : Blockref) :
    Except Stop (Option Delta × Scan) → Prop
  | error {e : Stop} : VerifyPost o m quick b (.error e)
  | pass {d : Delta} {s : Scan} (good : if quick then Fine o m b else Verified o m b d)
      (cache : CacheOk o m quick s) : VerifyPost o m quick b (.ok (some d, s))
  | fail {s : Scan} (bad : ¬ Passes o m quick b) (cache : CacheOk o m true s) :
      VerifyPost o m quick b (.ok (none, s))

theorem Scan.mem_of_cached (h : s.cached b = some d) : (b, d) ∈ s.droot := by
  rw [Scan.cached] at h
  split at h
  · cases h
  · obtain ⟨e, he, rfl⟩ := Option.map_eq_some_iff.mp h
    have heq := List.find?_some he
    have hmem := List.mem_of_find?_eq_some he
    rw [← of_decide_eq_true heq]
    exact hmem

theorem cacheAdd_some {bytes : Nat} {d' : Delta} (h : cacheAdd o b bytes d s = .ok (some d', s')) :
    d' = d ∧ s'.totals = s.totals := by
  unfold cacheAdd at h
  split at h
  · split at h
    · cases h
    · cases h
      exact ⟨rfl, rfl⟩
  · cases h
    exact ⟨rfl, rfl⟩

theorem cacheAdd_post {bytes : Nat} (good : if quick then Fine o m b else Verified o m b d)
    (cache : CacheOk o m quick s) : VerifyPost o m quick b (cacheAdd o b bytes d s) := by
  unfold cacheAdd
  split
  · split
    · exact .error
    · refine .pass good fun e he => ?_
      rcases List.mem_append.mp he with he | he
      · exact cache e he
      · rw [List.mem_singleton.mp he]
        exact good
  · exact .pass good cache

/-- The results of the children, as a function of the child. -/
theorem exists_map_of_verified {ks : List Blockref} {ds : List Delta}
    (h : List.Forall₂ (Verified o m) ks ds) :
    ∃ f : Blockref → Delta, ds = ks.map f ∧ ∀ c ∈ ks, Verified o m c (f c) := by
  classical
  have hgood : ∀ c ∈ ks, ∃ d, Verified o m c d := fun c hc => by
    obtain ⟨i, hi, rfl⟩ := List.mem_iff_getElem.mp hc
    exact ⟨_, h.get hi (h.length_eq ▸ hi)⟩
  refine ⟨fun c => if hc : ∃ d, Verified o m c d then hc.choose else 0, ?_, fun c hc => ?_⟩
  · induction h with
    | nil => rfl
    | @cons c d ks ds hcd _ ih =>
      have hc : ∃ d, Verified o m c d := ⟨d, hcd⟩
      rw [List.map_cons, ← ih fun x hx => hgood x (List.mem_cons_of_mem _ hx), dif_pos hc,
        hcd.unique hc.choose_spec]
  · dsimp only
    rw [dif_pos (hgood c hc)]
    exact (hgood c hc).choose_spec

theorem Verified.failed_eq (h : Verified o m b d) (hl : lookAt o m b = .ok l) :
    l.failed = false := by
  cases h with
  | node look fine =>
    rw [hl] at look
    cases look
    exact fine

@[simp] theorem Opts.quick_false : o.quick false = false := rfl

/-- What a call of `verify_blockref` that returns says about the tree. -/
theorem verifyBlockref_spec (tree : Tree) (fuel : Nat) (b : Blockref) (norecurse : Bool)
    (s : Scan) (hs : CacheOk o m (o.quick norecurse) s) :
    VerifyPost o m (o.quick norecurse) b (verifyBlockref o m tree fuel b norecurse s) := by
  induction fuel generalizing b norecurse s with
  | zero => exact .error
  | succ fuel ih =>
    rw [verifyBlockref_succ]
    cases hc : s.cached b with
    | some d => exact .pass (hs _ (Scan.mem_of_cached hc)) hs
    | none =>
    cases hl : lookAt o m b with
    | error e => exact .error
    | ok l =>
    dsimp only
    cases hq : o.quick norecurse with
    | true =>
      -- nothing below the block is looked at
      rw [hq] at hs
      simp only [if_true, visitAll]
      split
      · rename_i hf
        refine .fail (fun hp => ?_) hs
        obtain ⟨l', hl', hf'⟩ := (if_pos rfl).mp hp
        rw [hl] at hl'
        cases hl'
        rw [hf] at hf'
        cases hf'
      · rename_i hf
        exact cacheAdd_post ⟨l, hl, Bool.eq_false_iff.mpr hf⟩ hs
    | false =>
      rw [hq] at hs
      simp only [Bool.false_eq_true, if_false]
      have hnote : CacheOk o m (o.quick l.failed) (s.note b l) := by
        cases o.quick l.failed with
        | true => exact hs.weaken
        | false => exact hs
      have hpass : ∀ c ∈ l.kids, ∀ s d s', CacheOk o m (o.quick l.failed) s →
          verifyBlockref o m tree fuel c l.failed s = .ok (some d, s') →
          (if o.quick l.failed then Fine o m c else Verified o m c d) ∧
            CacheOk o m (o.quick l.failed) s' := by
        intro c _ s d s' hs hv
        have hpost := ih c l.failed s hs
        rw [hv] at hpost
        cases hpost with
        | pass good cache => exact ⟨good, cache⟩
      rcases visitAll_spec hpass hnote with ⟨ds, s1, hrun, hds, hs1⟩ | hstop
      · rw [hrun]
        dsimp only
        split
        · rename_i hf
          refine .fail (fun hp => ?_) hs1.weaken
          obtain ⟨d, hd⟩ := (if_neg Bool.false_ne_true).mp hp
          rw [hd.failed_eq hl] at hf
          cases hf
        · rename_i hf
          rw [Bool.eq_false_iff.mpr hf, Opts.quick_false] at hds hs1
          obtain ⟨f, rfl, hkids⟩ := exists_map_of_verified hds
          exact cacheAdd_post (Verified.node hl (Bool.eq_false_iff.mpr hf) f hkids) hs1
      · generalize visitAll (fun c s => verifyBlockref o m tree fuel c l.failed s) l.kids
          (s.note b l) = res at hstop
        cases hstop with
        | error => exact .error
        | @failed pre post c t s1 split passed inv here =>
          have hpost := ih c l.failed t inv
          rw [here] at hpost
          cases hpost with
          | fail bad cache =>
            refine .fail (fun hp => bad ?_) cache
            obtain ⟨d, hd⟩ := (if_neg Bool.false_ne_true).mp hp
            rw [hd.failed_eq hl]
            exact hd.kid hl (split ▸ List.mem_append_right _ List.mem_cons_self)

end Spec

end Lh1.Hammer2
