/-
  Zone statistics of hammer(8) (sbin/hammer/misc.c).

  `hammer show` counts for each zone how many big-blocks it uses, how many items and how many
  bytes. A big-block is counted when it is met first, which a bitmap for each volume tells. A
  bitmap has a part for each 4 TB section of its volume and grows up to the section that is met.
  What `malloc` and `realloc` leave in new memory is up to them. The counters are 64-bit.

  * `Tracks.add`: one call keeps the bitmaps to the big-blocks met so far and counts what is new.
  * `zone_stats_exact_iff`: after any calls the bitmaps have exactly the big-blocks that were met,
    growing one changes no bit, and the counters are exact as long as 64 bits are enough.
-/
import Lh1.Hammer.Layout
import Lh1.Lib.Bitmap
import Lh1.Lib.Fallible
import Lh1.Lib.Run

namespace Lh1.Hammer.Stat

open Lib

/-! ## The source -/

/-- `struct zone_stat`. -/
structure ZoneStat where
  blocks : Int
  items : Int
  used : Int
  deriving DecidableEq

/-- `l1_max`, `l1_bits` and the statistics by zone. -/
structure State where
  l1Max : Nat → Int
  l1Bits : Nat → Option Bitmap
  stats : Nat → ZoneStat

inductive Fault where
  | assertion
  | wild
  deriving DecidableEq

/-- What is in new memory. -/
abbrev Junk := State → Nat → BitVec 64

/-- `HAMMER_LAYER1_UINT64`: the words of a section. -/
def layer1Words : Nat := 8192

/-- `HAMMER_MAX_VOLUMES`. -/
def maxVolumes : Nat := 256

/-- `hammer_init_zone_stat_bits`. -/
def State.init : State := ⟨fun _ => -1, fun _ => none, fun _ => ⟨0, 0, 0⟩⟩

/-- An `int64_t` that is added to. -/
def int64 (x : Int) : Int := x.bmod (2 ^ 64)

/-- `hammer_set_layer_bits` with `bits` at word `p`: whether the bit was clear. -/
def setLayerBits (m : Bitmap) (p i : Nat) : Except Fault (Bool × Bitmap) :=
  if p + i / 64 < m.size then
    if m.word (p + i / 64) &&& 1#64 <<< (i % 64) = 0 then
      .ok (true, m.setBit (p + i / 64) (i % 64))
    else .ok (false, m)
  else .error .wild

/-- The words that `malloc` or `realloc` returns. -/
def realloc (junk : Nat → BitVec 64) (p : Option Bitmap) (k : Nat) : BitVec 64 :=
  match p with
  | none => junk k
  | some m => if k < m.size then m.word k else junk k

/-- `hammer_extend_layer1_bits`. -/
def extendLayer1Bits (junk : Nat → BitVec 64) (p : Option Bitmap) (newsiz oldsiz : Int) :
    Except Fault Bitmap := do
  Lib.check (oldsiz < newsiz) .assertion
  Lib.check (0 < newsiz ∧ 0 ≤ oldsiz) .assertion
  .ok (Bitmap.grow ⟨layer1Words * oldsiz.toNat, realloc junk p⟩ (layer1Words * newsiz.toNat)
    (layer1Words * oldsiz.toNat))

/-- The bitmap of the volume gets a part for section `i`. -/
def State.extend (junk : Junk) (s : State) (vol i : Nat) : Except Fault State :=
  if s.l1Max vol < i then do
    Lib.check (i < radix1 / maxVolumes) .assertion
    let p ← extendLayer1Bits (junk s) (s.l1Bits vol) (i + 1) (s.l1Max vol + 1)
    .ok { s with
      l1Max := Function.update s.l1Max vol i
      l1Bits := Function.update s.l1Bits vol (some p) }
  else .ok s

/-- `_hammer_add_zone_stat`. -/
def ZoneStat.add (sp : ZoneStat) (bytes : Int) (newBlock newItem : Bool) : ZoneStat where
  blocks := if newBlock then int64 (sp.blocks + 1) else sp.blocks
  items := if newItem then int64 (sp.items + 1) else sp.items
  used := int64 (sp.used + bytes)

/-- The arguments of `hammer_add_zone_stat`. -/
structure Call where
  offset : UInt64
  bytes : Int32
  deriving DecidableEq

/-- The bit of the big-block in the bitmap of its volume. -/
def State.mark (s : State) (vol i j : Nat) : Except Fault (Bool × State) :=
  match s.l1Bits vol with
  | none => .error .wild
  | some m => do
    let r ← setLayerBits m (i * layer1Words) j
    .ok (r.1, { s with l1Bits := Function.update s.l1Bits vol (some r.2) })

def addZoneStat (junk : Junk) (s : State) (c : Call) : Except Fault State := do
  let offset := c.offset.toNat / bigblockSize * bigblockSize
  let zone := zoneDecode offset
  let vol := volDecode offset
  let offset := shortOff offset
  let i := layer1Index offset
  let j := layer2Index offset
  let s ← s.extend junk vol i
  let r ← s.mark vol i j
  .ok { r.2 with
    stats := Function.update r.2.stats zone ((r.2.stats zone).add c.bytes.toInt r.1 true) }

/-! ## What the statistics are of -/

def Call.zone (c : Call) : Nat := zoneDecode c.offset.toNat

/-- The physical big-block: its volume and its number there. -/
def Call.block (c : Call) : Nat × Nat :=
  (volDecode c.offset.toNat, shortOff c.offset.toNat / bigblockSize)

def itemsIn (z : Nat) (cs : List Call) : Nat := cs.countP fun c => c.zone = z

def usedIn (z : Nat) (cs : List Call) : Int :=
  ((cs.filter fun c => c.zone = z).map fun c => c.bytes.toInt).sum

/-- The big-blocks that a call of the zone was the first to touch. -/
def blocksIn (z : Nat) (cs : List Call) : Nat :=
  ((cs.map Call.block).toFinset.filter fun b =>
    (cs.find? fun c => c.block = b).map Call.zone = some z).card

section Counting

variable {z : Nat} {cs : List Call} {c : Call}

theorem itemsIn_snoc : itemsIn z (cs ++ [c]) = itemsIn z cs + if c.zone = z then 1 else 0 := by
  rw [itemsIn, List.countP_append, List.countP_singleton]
  simp [itemsIn]

theorem usedIn_snoc :
    usedIn z (cs ++ [c]) = usedIn z cs + if c.zone = z then c.bytes.toInt else 0 := by
  rw [usedIn, usedIn, List.filter_append, List.map_append, List.sum_append]
  by_cases h : c.zone = z <;> simp [h]

theorem find_block_isSome {b : Nat × Nat} :
    (∃ d, cs.find? (fun c => decide (c.block = b)) = some d) ↔ b ∈ cs.map Call.block := by
  rw [← Option.isSome_iff_exists, List.find?_isSome, List.mem_map]
  simp

/-- A big-block that was touched before belongs to the zone it belonged to. -/
theorem blocksIn_snoc : blocksIn z (cs ++ [c]) =
    blocksIn z cs + if c.block ∉ cs.map Call.block ∧ c.zone = z then 1 else 0 := by
  have hfind : ∀ b, (cs ++ [c]).find? (fun c => decide (c.block = b)) =
      (cs.find? fun c => decide (c.block = b)).or (if c.block = b then some c else none) := by
    intro b
    rw [List.find?_append]
    simp only [List.find?_cons, List.find?_nil]
    by_cases h : c.block = b <;> simp [h]
  have hold : ∀ b ∈ cs.map Call.block,
      (cs ++ [c]).find? (fun c => decide (c.block = b)) =
        cs.find? fun c => decide (c.block = b) := by
    intro b hb
    obtain ⟨d, hd⟩ := find_block_isSome.mpr hb
    rw [hfind, hd]
    rfl
  have hset : ((cs ++ [c]).map Call.block).toFinset = insert c.block (cs.map Call.block).toFinset := by
    rw [List.map_append, List.toFinset_append, Finset.union_comm]
    rfl
  have hsame : (cs.map Call.block).toFinset.filter (fun b =>
        ((cs ++ [c]).find? fun c => c.block = b).map Call.zone = some z) =
      (cs.map Call.block).toFinset.filter fun b =>
        (cs.find? fun c => c.block = b).map Call.zone = some z := by
    refine Finset.filter_congr fun b hb => ?_
    rw [hold b (List.mem_toFinset.mp hb)]
  rw [blocksIn, hset, Finset.filter_insert, hsame]
  by_cases hmem : c.block ∈ cs.map Call.block
  · have hno : ¬ (c.block ∉ cs.map Call.block ∧ c.zone = z) := fun h => h.1 hmem
    rw [if_neg hno, Nat.add_zero, blocksIn, hold _ hmem]
    split
    · rw [Finset.insert_eq_self.mpr]
      exact Finset.mem_filter.mpr ⟨List.mem_toFinset.mpr hmem, ‹_›⟩
    · rfl
  · have hnone : cs.find? (fun d => decide (d.block = c.block)) = none := by
      rw [Option.eq_none_iff_forall_ne_some]
      exact fun d hd => hmem (find_block_isSome.mp ⟨d, hd⟩)
    rw [hfind, hnone, if_pos rfl, blocksIn]
    by_cases hz : c.zone = z
    · have hyes : c.block ∉ cs.map Call.block ∧ c.zone = z := ⟨hmem, hz⟩
      rw [if_pos (by simp [hz]), if_pos hyes, Finset.card_insert_of_notMem]
      exact fun h => hmem (List.mem_toFinset.mp (Finset.mem_filter.mp h).1)
    · have hno : ¬ (c.block ∉ cs.map Call.block ∧ c.zone = z) := fun h => hz h.2
      rw [if_neg (by simp [hz]), if_neg hno, Nat.add_zero]

end Counting

/-! ## The offset of a big-block -/

section Offset

variable (off : Nat)

theorem zoneDecode_mask : zoneDecode (off / bigblockSize * bigblockSize) = zoneDecode off := by
  simp only [zoneDecode, bigblockSize]
  omega

theorem volDecode_mask : volDecode (off / bigblockSize * bigblockSize) = volDecode off := by
  simp only [volDecode, bigblockSize]
  omega

/-- The section of the big-block, and its number there. -/
theorem layer1Index_mask : layer1Index (shortOff (off / bigblockSize * bigblockSize)) =
    shortOff off / bigblockSize / radix2 := by
  simp only [layer1Index, layer2Span, radix2, shortOff, bigblockSize]
  omega

theorem layer2Index_mask : layer2Index (shortOff (off / bigblockSize * bigblockSize)) =
    shortOff off / bigblockSize % radix2 := by
  simp only [layer2Index, layer2Span, radix2, shortOff, bigblockSize]
  omega

end Offset

/-! ## The bitmaps -/

/-- The bit of big-block `n` of a volume. -/
def State.seen (s : State) (vol n : Nat) : Bool :=
  match s.l1Bits vol with
  | none => false
  | some m => m.test n

/-- The bitmaps go to the end of the sections that `l1_max` tells. -/
structure Sized (s : State) : Prop where
  low : ∀ vol, -1 ≤ s.l1Max vol
  none : ∀ vol, s.l1Bits vol = none → s.l1Max vol = -1
  size : ∀ vol m, s.l1Bits vol = some m → m.size = layer1Words * (s.l1Max vol + 1).toNat

section Bitmaps

variable {s s' : State} {junk : Junk} {vol i j n : Nat} {m : Bitmap}

/-- The words behind the old end are zero, and those before it are what they were. -/
theorem Sized.extendLayer1Bits (junk : Junk) (h : Sized s) (hi : s.l1Max vol < i) :
    ∃ m, extendLayer1Bits (junk s) (s.l1Bits vol) (i + 1) (s.l1Max vol + 1) = .ok m ∧
      m.size = layer1Words * (i + 1) ∧ ∀ n, m.test n = s.seen vol n := by
  have hlow := h.low vol
  have hcheck : s.l1Max vol + 1 < (i : Int) + 1 ∧ (0 < (i : Int) + 1 ∧ 0 ≤ s.l1Max vol + 1) := by
    omega
  have hle : layer1Words * (s.l1Max vol + 1).toNat ≤ layer1Words * ((i : Int) + 1).toNat :=
    Nat.mul_le_mul_left _ (by omega)
  refine ⟨_, by rw [Stat.extendLayer1Bits, check_ok_iff.mpr hcheck.1, check_ok_iff.mpr hcheck.2]; rfl,
    rfl, fun n => ?_⟩
  rw [Bitmap.test_grow hle, State.seen, Bitmap.test]
  dsimp only
  cases hp : s.l1Bits vol with
  | none =>
    rw [h.none vol hp]
    simp
  | some m =>
    rw [← h.size vol m hp]
    dsimp only
    rw [Bitmap.test]
    by_cases hn : n / 64 < m.size
    · rw [realloc]
      simp [hn]
    · simp [hn]

theorem Sized.extend (junk : Junk) (vol : Nat) (h : Sized s) (hi : i < radix1 / maxVolumes) :
    ∃ s', s.extend junk vol i = .ok s' ∧ Sized s' ∧ s'.stats = s.stats ∧
      (∀ v n, s'.seen v n = s.seen v n) ∧ i ≤ s'.l1Max vol ∧
      ∃ m, s'.l1Bits vol = some m := by
  rw [State.extend]
  by_cases hlt : s.l1Max vol < i
  · obtain ⟨m, hm, hsize, htest⟩ := h.extendLayer1Bits junk hlt
    rw [if_pos hlt, hm, check_ok_iff.mpr hi]
    refine ⟨_, rfl, ⟨fun v => ?_, fun v hv => ?_, fun v m' hv => ?_⟩, rfl, fun v n => ?_, ?_, m, ?_⟩
    · dsimp only
      rw [Function.update_apply]
      split
      · omega
      · exact h.low v
    · dsimp only at hv ⊢
      rw [Function.update_apply] at hv ⊢
      split at hv
      · cases hv
      · rw [if_neg ‹_›]
        exact h.none v hv
    · dsimp only at hv ⊢
      rw [Function.update_apply] at hv ⊢
      split at hv
      · cases hv
        rw [if_pos ‹_›, hsize]
        congr 1
      · rw [if_neg ‹_›]
        exact h.size v m' hv
    · by_cases hv : v = vol
      · subst hv
        rw [State.seen]
        dsimp only
        rw [Function.update_self]
        exact htest n
      · rw [State.seen, State.seen]
        dsimp only
        rw [Function.update_of_ne hv]
    · dsimp only
      rw [Function.update_self]
    · dsimp only
      rw [Function.update_self]
  · rw [if_neg hlt]
    refine ⟨s, rfl, h, rfl, fun _ _ => rfl, not_lt.mp hlt, ?_⟩
    cases hp : s.l1Bits vol with
    | none =>
      have := h.none vol hp
      omega
    | some m => exact ⟨m, rfl⟩

theorem setLayerBits_eq (hj : i * layer1Words + j / 64 < m.size) :
    setLayerBits m (i * layer1Words) j =
      .ok (!m.test (i * radix2 + j),
        if m.test (i * radix2 + j) then m else m.setBit (i * layer1Words + j / 64) (j % 64)) := by
  have hdiv : (i * radix2 + j) / 64 = i * layer1Words + j / 64 := by
    simp only [radix2, bigblockSize, layer1Words]
    omega
  have hmod : (i * radix2 + j) % 64 = j % 64 := by
    simp only [radix2, bigblockSize]
    omega
  have hlt := Nat.mod_lt j (show 0 < 64 by decide)
  rw [setLayerBits, if_pos hj, Bitmap.test, hdiv, hmod]
  simp only [hj, decide_true, Bool.true_and, Bitmap.and_shiftLeft_eq_zero _ hlt]
  cases (m.word (i * layer1Words + j / 64)).getLsbD (j % 64) <;> simp

/-- The bit is set, and it is said whether it was clear. -/
theorem Sized.mark (h : Sized s) (hm : s.l1Bits vol = some m) (hi : i ≤ s.l1Max vol)
    (hj : j < radix2) : ∃ s', s.mark vol i j = .ok (!s.seen vol (i * radix2 + j), s') ∧ Sized s' ∧
      s'.stats = s.stats ∧
      ∀ v n, s'.seen v n = (s.seen v n || decide (v = vol ∧ n = i * radix2 + j)) := by
  have hsize := h.size vol m hm
  have hlast : i + 1 ≤ (s.l1Max vol + 1).toNat := by omega
  have hj64 : j / 64 < layer1Words := by
    simp only [radix2, bigblockSize, layer1Words] at hj ⊢
    omega
  have hin : i * layer1Words + j / 64 < m.size := by
    have := Nat.mul_le_mul_left layer1Words hlast
    rw [hsize]
    rw [Nat.mul_add, Nat.mul_comm] at this
    omega
  rw [State.mark, hm]
  dsimp only
  rw [setLayerBits_eq hin, State.seen, hm]
  refine ⟨_, rfl, ⟨h.low, fun v hv => ?_, fun v m' hv => ?_⟩, rfl, fun v n => ?_⟩
  · dsimp only at hv
    rw [Function.update_apply] at hv
    split at hv
    · cases hv
    · exact h.none v hv
  · dsimp only at hv
    rw [Function.update_apply] at hv
    split at hv
    · subst_vars
      cases hv
      rw [← hsize]
      split <;> rfl
    · exact h.size v m' hv
  · by_cases hv : v = vol
    · subst hv
      rw [State.seen, State.seen, hm]
      dsimp only
      rw [Function.update_self]
      dsimp only
      have hnum : 64 * (i * layer1Words + j / 64) + j % 64 = i * radix2 + j := by
        simp only [radix2, bigblockSize, layer1Words]
        omega
      split
      · rename_i htest
        by_cases hn : n = i * radix2 + j
        · rw [hn, htest]
          simp
        · simp [hn]
      · rw [Bitmap.test_setBit hin (Nat.mod_lt j (by decide)), hnum]
        simp
    · rw [State.seen, State.seen]
      dsimp only
      rw [Function.update_of_ne hv]
      simp [hv]

end Bitmaps

/-! ## Calls -/

/-- The bitmaps have the big-blocks that the calls touched, and the counters what they add up to,
    as far as 64 bits go. -/
structure Tracks (cs : List Call) (s : State) : Prop extends Sized s where
  seen : ∀ vol n, s.seen vol n = decide ((vol, n) ∈ cs.map Call.block)
  stats : ∀ z, s.stats z = ⟨int64 (blocksIn z cs), int64 (itemsIn z cs), int64 (usedIn z cs)⟩

theorem tracks_init : Tracks [] .init :=
  ⟨⟨fun _ => le_refl _, fun _ _ => rfl, fun _ _ h => by cases h⟩, fun _ _ => rfl,
    fun _ => by simp [State.init, int64, blocksIn, itemsIn, usedIn]⟩

theorem int64_add (x y : Int) : int64 (int64 x + y) = int64 (x + y) := Int.bmod_add_bmod

theorem add_stats {cs : List Call} {c : Call} {z : Nat} :
    (if z = c.zone then
      (⟨int64 (blocksIn z cs), int64 (itemsIn z cs), int64 (usedIn z cs)⟩ : ZoneStat).add
        c.bytes.toInt (decide (c.block ∉ cs.map Call.block)) true
    else ⟨int64 (blocksIn z cs), int64 (itemsIn z cs), int64 (usedIn z cs)⟩) =
      ⟨int64 (blocksIn z (cs ++ [c])), int64 (itemsIn z (cs ++ [c])),
        int64 (usedIn z (cs ++ [c]))⟩ := by
  rw [blocksIn_snoc, itemsIn_snoc, usedIn_snoc]
  by_cases hz : z = c.zone
  · subst hz
    simp only [if_true, ZoneStat.add, int64_add, and_true]
    by_cases hb : c.block ∈ cs.map Call.block <;> simp [hb]
  · simp [hz, Ne.symm hz]

theorem Tracks.add {cs : List Call} {s : State} (h : Tracks cs s) (junk : Junk) (c : Call) :
    ∃ s', addZoneStat junk s c = .ok s' ∧ Tracks (cs ++ [c]) s' := by
  have hoff := c.offset.toNat_lt
  have hi : shortOff c.offset.toNat / bigblockSize / radix2 < radix1 / maxVolumes := by
    simp only [shortOff, bigblockSize, radix1, radix2, maxVolumes]
    omega
  have hj : shortOff c.offset.toNat / bigblockSize % radix2 < radix2 := Nat.mod_lt _ (by decide)
  have hnum : shortOff c.offset.toNat / bigblockSize / radix2 * radix2 +
      shortOff c.offset.toNat / bigblockSize % radix2 = shortOff c.offset.toNat / bigblockSize :=
    Nat.div_add_mod' _ _
  obtain ⟨s1, h1, hs1, hst1, hseen1, hmax, m, hm⟩ :=
    h.extend junk (volDecode c.offset.toNat) hi
  obtain ⟨s2, h2, hs2, hst2, hseen2⟩ := hs1.mark hm hmax hj
  rw [hnum] at h2 hseen2
  have hnew : (!s1.seen (volDecode c.offset.toNat) (shortOff c.offset.toNat / bigblockSize)) =
      decide (c.block ∉ cs.map Call.block) := by
    rw [hseen1, h.seen]
    exact (decide_not).symm
  refine ⟨{ s2 with stats := Function.update s2.stats c.zone ((s2.stats c.zone).add c.bytes.toInt
    (decide (c.block ∉ cs.map Call.block)) true) }, ?_,
    ⟨⟨hs2.low, hs2.none, hs2.size⟩, fun vol n => ?_, fun z => ?_⟩⟩
  · simp only [addZoneStat, zoneDecode_mask, volDecode_mask, layer1Index_mask, layer2Index_mask]
    rw [h1]
    change (s1.mark _ _ _ >>= fun r => _) = _
    rw [h2, hnew]
    rfl
  · change s2.seen vol n = _
    rw [hseen2, hseen1, h.seen, List.map_append, ← Bool.decide_or]
    refine decide_eq_decide.mpr ?_
    simp [Call.block, Prod.ext_iff]
  · dsimp only
    rw [Function.update_apply, ← add_stats, hst2, hst1]
    split
    · subst_vars
      rw [h.stats]
    · exact h.stats z

theorem Tracks.run {pre : List Call} {s : State} (h : Tracks pre s) (junk : Junk)
    (cs : List Call) : ∃ s', run (addZoneStat junk) s cs = .ok s' ∧ Tracks (pre ++ cs) s' := by
  induction cs generalizing pre s with
  | nil => exact ⟨s, rfl, by rw [List.append_nil]; exact h⟩
  | cons c cs ih =>
    obtain ⟨s1, h1, hs1⟩ := h.add junk c
    obtain ⟨s2, h2, hs2⟩ := ih hs1
    refine ⟨s2, by rw [run_cons_ok h1]; exact h2, ?_⟩
    rw [List.append_assoc] at hs2
    exact hs2

/-! ## Exactness -/

/-- What the counters of a zone should be. -/
def exactStat (z : Nat) (cs : List Call) : ZoneStat := ⟨blocksIn z cs, itemsIn z cs, usedIn z cs⟩

/-- 64 bits are enough for what the calls of the zone add up to. -/
def Fits (z : Nat) (cs : List Call) : Prop :=
  itemsIn z cs < 2 ^ 63 ∧ -(2 ^ 63) ≤ usedIn z cs ∧ usedIn z cs < 2 ^ 63

theorem int64_eq_iff {x : Int} : int64 x = x ↔ -(2 ^ 63) ≤ x ∧ x < 2 ^ 63 := by
  constructor
  · intro h
    have hlow := Int.le_bmod (x := x) (m := 2 ^ 64) (by decide)
    have hhigh := Int.bmod_lt (x := x) (m := 2 ^ 64) (by decide)
    rw [int64] at h
    rw [h] at hlow hhigh
    norm_num at hlow hhigh ⊢
    omega
  · rintro ⟨h1, h2⟩
    refine Int.bmod_eq_of_le ?_ ?_
    · norm_num at h1 ⊢
      exact h1
    · norm_num at h2 ⊢
      exact h2

theorem blocksIn_le (z : Nat) (cs : List Call) : blocksIn z cs ≤ itemsIn z cs := by
  induction cs using List.reverseRecOn with
  | nil => exact le_refl 0
  | append_singleton cs c ih =>
    rw [blocksIn_snoc, itemsIn_snoc]
    have : (if c.block ∉ cs.map Call.block ∧ c.zone = z then 1 else 0) ≤
        if c.zone = z then 1 else 0 := by
      split_ifs <;> simp_all
    omega

theorem exact_iff (z : Nat) (cs : List Call) :
    (⟨int64 (blocksIn z cs), int64 (itemsIn z cs), int64 (usedIn z cs)⟩ : ZoneStat) =
      exactStat z cs ↔ Fits z cs := by
  have hle := blocksIn_le z cs
  rw [exactStat, ZoneStat.mk.injEq, int64_eq_iff, int64_eq_iff, int64_eq_iff, Fits]
  constructor
  · rintro ⟨-, ⟨-, h1⟩, h2⟩
    exact ⟨by omega, h2⟩
  · rintro ⟨h1, h2⟩
    exact ⟨by omega, by omega, h2⟩

/-- After any calls, whatever is in new memory, the bitmaps hold the big-blocks that were touched
    and no others, the next growth of a bitmap leaves every bit as it is, and the counters of a
    zone are exact if and only if 64 bits are enough for them. -/
theorem zone_stats_exact_iff (junk : Junk) (cs : List Call) :
    ∃ s, run (addZoneStat junk) .init cs = .ok s ∧
      (∀ vol n, s.seen vol n = true ↔ ∃ c ∈ cs, c.block = (vol, n)) ∧
      (∀ (vol i : Nat), s.l1Max vol < i → ∃ m,
        extendLayer1Bits (junk s) (s.l1Bits vol) (i + 1) (s.l1Max vol + 1) = .ok m ∧
          ∀ n, m.test n = s.seen vol n) ∧
      ∀ z, s.stats z = exactStat z cs ↔ Fits z cs := by
  obtain ⟨s, hrun, h⟩ := tracks_init.run junk cs
  refine ⟨s, hrun, fun vol n => ?_, fun vol i hi => ?_, fun z => ?_⟩
  · rw [h.seen]
    simp
  · obtain ⟨m, hm, -, htest⟩ := h.extendLayer1Bits junk hi
    exact ⟨m, hm, htest⟩
  · rw [h.stats]
    exact exact_iff z cs

/-- Two items in one big-block of zone 8, and one elsewhere in zone 10. -/
theorem zone_stats_exact_few :
    ∃ s, run (addZoneStat fun _ _ => 0) .init
        [⟨0x8000000000000000, 4096⟩, ⟨0x8000000000001000, 4096⟩, ⟨0xA000000000800000, 100⟩] = .ok s ∧
      s.stats 8 = ⟨1, 2, 8192⟩ ∧ s.stats 10 = ⟨1, 1, 100⟩ := by
  obtain ⟨s, hrun, -, -, hstats⟩ := zone_stats_exact_iff (fun _ _ => 0)
    [⟨0x8000000000000000, 4096⟩, ⟨0x8000000000001000, 4096⟩, ⟨0xA000000000800000, 100⟩]
  refine ⟨s, hrun, ?_, ?_⟩
  · rw [(hstats 8).mpr (by unfold Fits; decide +kernel)]
    decide +kernel
  · rw [(hstats 10).mpr (by unfold Fits; decide +kernel)]
    decide +kernel

/-- After `2 ^ 63` calls for one zone its number of items is no longer right. -/
theorem zone_stats_wrap : ∃ (cs : List Call) (s : State),
    run (addZoneStat fun _ _ => 0) .init cs = .ok s ∧ s.stats 0 ≠ exactStat 0 cs := by
  obtain ⟨s, hrun, h⟩ := tracks_init.run (fun _ _ => 0) (List.replicate (2 ^ 63) ⟨0, 0⟩)
  refine ⟨_, s, hrun, fun hc => ?_⟩
  rw [h.stats] at hc
  have hfits := (exact_iff _ _).mp hc
  have hitems : itemsIn 0 ([] ++ List.replicate (2 ^ 63) ⟨0, 0⟩) = 2 ^ 63 := by
    rw [List.nil_append, itemsIn, List.countP_replicate]
    rfl
  exact absurd hfits.1 (by rw [hitems]; exact lt_irrefl _)

end Lh1.Hammer.Stat
