/-
  `hammer strip` (cmd_strip.c).

  The command goes through the freemap section by section and entry by entry. A big-block of the
  B-Tree or of the meta zone is overwritten, and its layer 2 entry becomes an unavailable one. An
  unavailable entry also ends the section: that is how newfs_hammer marks the end of a volume. A
  strip that was interrupted has left such entries in front of big-blocks it had not come to, and
  a second one stops at the first of them.

  - `scan_progress` says which entries a scan turns over.
  - `strip_finishes` says when the command comes to its end.
  - `strip_complete_iff` says when nothing is left of the two zones at that end.
  - `strip_restarts` says what interrupted runs spare.

  Questions and messages are left out. So are errors of the device: the program ends at one. The
  buffers are taken to be written in the end, which is what `flush_all_volumes` does. What a strip
  that is cut off leaves is the state in memory; the disk has the same if the cache has written
  its modified buffers by then.
-/
import Lh1.Hammer.Freemap

namespace Lh1.Hammer.Strip

open Lib

/-! ## The state -/

/-- What the command sees and changes of a volume header: the two ends of its buffers, and
    whether the signature is `STRIPPED`. -/
structure Header where
  bufBeg : Int
  bufEnd : Int
  stripped : Bool
  deriving DecidableEq

/-- A volume set. `loaded v` is `get_volume(v) != NULL`; `allocOffset` and `freemap` are the
    `alloc_offset` of the blockmaps and the `phys_offset` of the freemap in the root volume's
    header. Layer 1 and layer 2 entries are found by their zone 2 address, and so is whether a
    buffer has been overwritten. -/
structure Disk where
  loaded : Nat → Bool
  headers : Nat → Header
  allocOffset : Nat → Nat
  freemap : Nat
  layer1 : Nat → Layer1
  layer2 : Nat → Layer2
  zeroed : Nat → Bool

abbrev StripM := StateT Disk (Except Fault)

def assert (p : Prop) [Decidable p] : StripM Unit := fun s =>
  if p then .ok ((), s) else .error .assert

@[simps]
def Disk.putLayer2 (s : Disk) (off : Nat) (l : Layer2) : Disk :=
  { s with layer2 := Function.update s.layer2 off l }

/-- `bzero()` of the buffer that `off` is in, and of all entries in it. -/
@[simps]
def Disk.wipeBuffer (s : Disk) (off : Nat) : Disk :=
  { s with
    layer1 := fun a => if a / bufSize = off / bufSize then ⟨0, 0⟩ else s.layer1 a
    layer2 := fun a => if a / bufSize = off / bufSize then ⟨0, 0, 0⟩ else s.layer2 a
    zeroed := fun a => decide (a / bufSize = off / bufSize) || s.zeroed a }

/-- `bzero()` of a volume header, and the new signature. The header of the root volume has the
    blockmaps too. -/
@[simps]
def Disk.stripHeader (s : Disk) (v : Nat) : Disk :=
  { s with
    headers := Function.update s.headers v ⟨0, 0, true⟩
    allocOffset := if v = 0 then fun _ => 0 else s.allocOffset
    freemap := if v = 0 then 0 else s.freemap }

/-! ## The program -/

/-- `blockmap_lookup` of an offset of a record zone. The layer 1 and layer 2 addresses it reads
    are those the scan has tested before. -/
def Disk.blockmapLookup (s : Disk) (off : Nat) : Option Nat :=
  let zone := zoneDecode off
  let result := xlateToZone2 off
  let l1 := s.layer1 (s.freemap + layer1Index result * 32)
  if zoneDecode (s.allocOffset zone) ≠ zone then none
  else if l1.phys = unavail then none
  else if (s.layer2 (l1.layer2Offset result)).zone ≠ zone then none
  else some result

/-- `get_buffer_data(off, &buffer, 1)` and the assertion behind it. -/
def newBuffer (off : Nat) : StripM Unit := do
  let s ← get
  match s.blockmapLookup off with
  | none => assert False
  | some z2 =>
    assert (s.loaded (volDecode z2) = true)
    modify (·.wipeBuffer z2)

/-- `hammer_xlate_to_zoneX`. -/
def xlateToZoneX (zone off : Nat) : Nat := zoneEncode zone (longOff off)

/-- `hammer_strip_bigblock`. -/
def stripBigblock (zone off : Nat) : StripM Unit := do
  assert (isIndexRecord zone)
  assert (off % bigblockSize = 0)
  assert (off % bufSize = 0)
  loop (iterations 0 bigblockSize bufSize)
    (fun i _ => newBuffer (xlateToZoneX zone off + i * bufSize)) ()

/-- `hammer_test_offset`. -/
def Disk.testOffset (s : Disk) (off : Nat) : Prop :=
  s.loaded (volDecode off) = true ∧ zoneDecode off = 2

instance (s : Disk) (off : Nat) : Decidable (s.testOffset off) :=
  inferInstanceAs (Decidable (_ ∧ _))

/-- The zones whose big-blocks are stripped: B-Tree and meta-data. -/
def Owned (zone : Nat) : Prop :=
  zone = RecordZone.btree.index ∨ zone = RecordZone.metadata.index

instance (zone : Nat) : Decidable (Owned zone) := inferInstanceAs (Decidable (_ ∨ _))

/-- `phys_offset` at the start of section `i`. -/
def physOffset (i : Nat) : Nat := zoneEncode zoneFreemapIndex (i * layer2Span)

def Disk.layer1Offset (s : Disk) (i : Nat) : Nat := s.freemap + layer1Index (physOffset i) * 32

/-- What an entry becomes when its big-block is stripped. -/
def gone : Layer2 := ⟨zoneUnavailIndex, bigblockSize, 0⟩

/-- The body of the inner loop. The accumulator says that the loop has been left. -/
def stripEntry (i k : Nat) (left : Bool) : StripM Bool := do
  if left then pure true
  else
    let s ← get
    let off := (s.layer1 (s.layer1Offset i)).layer2Offset (k * bigblockSize)
    if ¬ s.testOffset off then pure true
    else
      let zone := (s.layer2 off).zone
      if Owned zone then do
        stripBigblock zone (physOffset i + k * bigblockSize)
        modify (·.putLayer2 off gone)
        pure false
      else pure (decide (zone = zoneUnavailIndex))

/-- The body of the outer loop. -/
def stripSection (i : Nat) (left : Bool) : StripM Bool := do
  if left then pure true
  else
    let s ← get
    if ¬ s.testOffset (s.layer1Offset i) then pure true
    else if (s.layer1 (s.layer1Offset i)).phys = unavail then pure false
    else do
      let _ ← loop radix2 (stripEntry i) false
      pure false

/-- The part of `hammer_cmd_strip` up to `strip_header`. -/
def scan : StripM Unit := do
  let s ← get
  if s.loaded 0 = true ∧ s.testOffset s.freemap then do
    let _ ← loop radix1 stripSection false
    pure ()
  else pure ()

def stripHeader (v : Nat) : StripM Unit := do
  let s ← get
  if s.loaded v = true then modify (·.stripHeader v) else pure ()

/-- The part from `strip_header` on. -/
def stripHeaders : StripM Unit := loop 256 (fun v _ => stripHeader v) ()

/-- `hammer_cmd_strip`. -/
def strip : StripM Unit := do
  scan
  stripHeaders

/-! ## Reading the state -/

section Views

variable (s : Disk) (i k : Nat)

/-- The layer 1 entry of section `i` names a layer 2 array. -/
def Disk.InUse : Prop := i < radix1 ∧ (s.layer1 (s.layer1Offset i)).phys ≠ unavail

/-- Where entry `k` of section `i` is, and what it says. -/
def Disk.entryOff : Nat := (s.layer1 (s.layer1Offset i)).layer2Offset (k * bigblockSize)

def Disk.entry : Layer2 := s.layer2 (s.entryOff i k)

/-- The big-block that entry `k` of section `i` is about. -/
def blockAddr : Nat := zoneEncode 2 (i * layer2Span + k * bigblockSize)

/-- The big-block of the entry is below the end of its volume. -/
def Disk.Below : Prop :=
  let h := s.headers (volDecode (blockAddr i k))
  h.bufBeg + shortOff (blockAddr i k) < h.bufEnd

/-- The scan comes to entry `k` of section `i`. -/
def Disk.Reached : Prop := ∀ j < k, (s.entry i j).zone ≠ zoneUnavailIndex

/-- The scan strips the big-block of the entry. -/
def Disk.Strips : Prop := Owned (s.entry i k).zone ∧ s.Reached i k

instance : Decidable (s.Reached i k) := inferInstanceAs (Decidable (∀ j < k, _))

instance : Decidable (s.Strips i k) := inferInstanceAs (Decidable (_ ∧ _))

end Views

/-- The layer 1 and layer 2 offsets are valid: the root volume is there, every entry is at an
    address of a loaded volume, no two layer 2 entries are at one address, and no entry is in a
    big-block of the B-Tree or of the meta zone. -/
structure Valid (s : Disk) : Prop where
  root : s.loaded 0 = true
  map : s.testOffset s.freemap
  layer1 : ∀ i < radix1, s.testOffset (s.layer1Offset i)
  layer2 : ∀ i, s.InUse i → ∀ k < radix2, s.testOffset (s.entryOff i k)
  apart : ∀ i, s.InUse i → ∀ k < radix2, ∀ j, s.InUse j → ∀ l < radix2,
    s.entryOff i k = s.entryOff j l → i = j ∧ k = l
  outside1 : ∀ i, s.InUse i → ∀ k < radix2, Owned (s.entry i k).zone → ∀ j < radix1,
    s.layer1Offset j / bigblockSize ≠ blockAddr i k / bigblockSize
  outside2 : ∀ i, s.InUse i → ∀ k < radix2, Owned (s.entry i k).zone → ∀ j, s.InUse j →
    ∀ l < radix2, s.entryOff j l / bigblockSize ≠ blockAddr i k / bigblockSize

/-- Every big-block to strip is on a loaded volume, and the blockmaps of the two zones are in
    order. -/
def Writable (s : Disk) : Prop :=
  ∀ i, s.InUse i → ∀ k < radix2, Owned (s.entry i k).zone →
    s.loaded (volDecode (blockAddr i k)) = true ∧
      zoneDecode (s.allocOffset (s.entry i k).zone) = (s.entry i k).zone

/-- Nothing is left of the two zones below the ends of the volumes, and what they had in `s` has
    been overwritten in `t`. -/
def Complete (s t : Disk) : Prop :=
  ∀ i, s.InUse i → ∀ k < radix2, s.Below i k →
    ¬ Owned (t.layer2 (s.entryOff i k)).zone ∧
      (Owned (s.entry i k).zone → ∀ b < bigblockSize / bufSize,
        t.zeroed (blockAddr i k + b * bufSize) = true)

/-! ## Addresses -/

theorem layer1Index_physOffset {i : Nat} (hi : i < radix1) : layer1Index (physOffset i) = i := by
  unfold radix1 bigblockSize at hi
  unfold layer1Index physOffset zoneEncode zoneFreemapIndex layer2Span radix2 bigblockSize
  omega

theorem block_aligned (i k : Nat) : (physOffset i + k * bigblockSize) % bigblockSize = 0 := by
  unfold physOffset zoneEncode zoneFreemapIndex layer2Span radix2 bigblockSize
  omega

section Addresses

variable {i k b zone a : Nat}

section

variable (hb : b < bigblockSize / bufSize)
include hb

theorem zoneDecode_block :
    zoneDecode (xlateToZoneX zone (physOffset i + k * bigblockSize) + b * bufSize) = zone := by
  unfold zoneDecode xlateToZoneX physOffset zoneEncode longOff zoneFreemapIndex layer2Span radix2
    bigblockSize bufSize at *
  omega

theorem layer2Index_block :
    layer2Index (blockAddr i k + b * bufSize) = layer2Index (k * bigblockSize) := by
  unfold layer2Index blockAddr zoneEncode layer2Span radix2 bigblockSize bufSize at *
  omega

theorem volDecode_block : volDecode (blockAddr i k + b * bufSize) = volDecode (blockAddr i k) := by
  unfold volDecode blockAddr zoneEncode layer2Span radix2 bigblockSize bufSize at *
  omega

theorem buffer_inside (h : a / bufSize = (blockAddr i k + b * bufSize) / bufSize) :
    a / bigblockSize = blockAddr i k / bigblockSize := by
  unfold blockAddr zoneEncode layer2Span radix2 bigblockSize bufSize at *
  omega

end

variable (hi : i < radix1) (hk : k < radix2) (hb : b < bigblockSize / bufSize)

include hi hk hb

/-- The zone 2 address of a buffer of the big-block, as `hammer_strip_bigblock` gets to it. -/
theorem xlate_block :
    xlateToZone2 (xlateToZoneX zone (physOffset i + k * bigblockSize) + b * bufSize) =
      blockAddr i k + b * bufSize := by
  unfold xlateToZone2 xlateToZoneX blockAddr physOffset zoneEncode longOff zoneFreemapIndex
    layer2Span radix1 radix2 bigblockSize bufSize at *
  omega

theorem layer1Index_block : layer1Index (blockAddr i k + b * bufSize) = i := by
  unfold layer1Index blockAddr zoneEncode layer2Span radix1 radix2 bigblockSize bufSize at *
  omega

end Addresses

/-! ## One big-block -/

section Returns

variable {s t : Disk} {u : Unit}

theorem assert_ok {p : Prop} [Decidable p] : assert p s = .ok (u, t) ↔ p ∧ t = s := by
  unfold assert
  split_ifs with h
  · simp [h, eq_comm]
  · simp [h]

theorem get_ok {a : Disk} : (get : StripM Disk) s = .ok (a, t) ↔ a = s ∧ t = s := by
  change Except.ok (s, s) = .ok (a, t) ↔ _
  simp [eq_comm]

theorem modify_ok {f : Disk → Disk} {u : PUnit} :
    (modify f : StripM PUnit) s = .ok (u, t) ↔ t = f s := by
  change Except.ok (PUnit.unit, f s) = .ok (u, t) ↔ _
  simp [eq_comm]

theorem blockmapLookup_eq_some {off r : Nat} : s.blockmapLookup off = some r ↔
    (zoneDecode (s.allocOffset (zoneDecode off)) = zoneDecode off ∧
      (s.layer1 (s.freemap + layer1Index (xlateToZone2 off) * 32)).phys ≠ unavail ∧
      (s.layer2 ((s.layer1 (s.freemap + layer1Index (xlateToZone2 off) * 32)).layer2Offset
        (xlateToZone2 off))).zone = zoneDecode off) ∧ xlateToZone2 off = r := by
  simp only [Disk.blockmapLookup]
  split_ifs <;> simp_all

theorem newBuffer_ok {off : Nat} : newBuffer off s = .ok (u, t) ↔
    (∃ r, s.blockmapLookup off = some r) ∧ s.loaded (volDecode (xlateToZone2 off)) = true ∧
      t = s.wipeBuffer (xlateToZone2 off) := by
  simp only [newBuffer, bind_ok_iff, get_ok]
  constructor
  · rintro ⟨r, r', ⟨rfl, rfl⟩, h⟩
    cases hz : r'.blockmapLookup off with
    | none =>
      simp only [hz] at h
      exact absurd (assert_ok.mp h).1 id
    | some z2 =>
      simp only [hz] at h
      obtain ⟨_, _, h1, h2⟩ := bind_ok_iff.mp h
      obtain ⟨hl, rfl⟩ := assert_ok.mp h1
      obtain ⟨-, rfl⟩ := blockmapLookup_eq_some.mp hz
      exact ⟨⟨_, rfl⟩, hl, modify_ok.mp h2⟩
  · rintro ⟨⟨r, hr⟩, hl, rfl⟩
    refine ⟨s, s, ⟨rfl, rfl⟩, ?_⟩
    obtain ⟨-, rfl⟩ := blockmapLookup_eq_some.mp hr
    rw [hr]
    exact bind_ok_iff.mpr ⟨(), s, assert_ok.mpr ⟨hl, rfl⟩, modify_ok.mpr rfl⟩

end Returns

/-- What the scan does not change before it comes to the headers. -/
structure Same (s t : Disk) : Prop where
  loaded : t.loaded = s.loaded
  headers : t.headers = s.headers
  allocOffset : t.allocOffset = s.allocOffset
  freemap : t.freemap = s.freemap

theorem Same.trans {r s t : Disk} (h1 : Same r s) (h2 : Same s t) : Same r t :=
  ⟨h2.loaded.trans h1.loaded, h2.headers.trans h1.headers,
    h2.allocOffset.trans h1.allocOffset, h2.freemap.trans h1.freemap⟩

/-- The first `n` buffers of the big-block of entry `k` of section `i` are overwritten, and
    nothing outside of it is changed. -/
structure Wiped (i k n : Nat) (s t : Disk) : Prop where
  same : Same s t
  layer1 : ∀ a, a / bigblockSize ≠ blockAddr i k / bigblockSize → t.layer1 a = s.layer1 a
  layer2 : ∀ a, a / bigblockSize ≠ blockAddr i k / bigblockSize → t.layer2 a = s.layer2 a
  kept : ∀ a, s.zeroed a = true → t.zeroed a = true
  done : ∀ b < n, t.zeroed (blockAddr i k + b * bufSize) = true

section Wipe

variable {i k n zone : Nat} {s t : Disk} {u : Unit}

theorem Wiped.refl : Wiped i k 0 s s where
  same := ⟨rfl, rfl, rfl, rfl⟩
  layer1 _ _ := rfl
  layer2 _ _ := rfl
  kept _ h := h
  done _ hb := absurd hb (Nat.not_lt_zero _)

theorem Wiped.step (hn : n < bigblockSize / bufSize) (h : Wiped i k n s t) :
    Wiped i k (n + 1) s (t.wipeBuffer (blockAddr i k + n * bufSize)) where
  same := h.same.trans ⟨rfl, rfl, rfl, rfl⟩
  layer1 a ha := by
    rw [Disk.wipeBuffer_layer1, if_neg fun e => ha (buffer_inside hn e)]
    exact h.layer1 a ha
  layer2 a ha := by
    rw [Disk.wipeBuffer_layer2, if_neg fun e => ha (buffer_inside hn e)]
    exact h.layer2 a ha
  kept a ha := by simp [h.kept a ha]
  done b hb := by
    rcases Nat.lt_succ_iff_lt_or_eq.mp hb with hb | rfl
    · simp [h.done b hb]
    · simp

theorem iterations_block : iterations 0 bigblockSize bufSize = bigblockSize / bufSize := by
  decide

theorem stripBigblock_wiped (hi : i < radix1) (hk : k < radix2)
    (h : stripBigblock zone (physOffset i + k * bigblockSize) s = .ok (u, t)) :
    Wiped i k (bigblockSize / bufSize) s t := by
  simp only [stripBigblock, bind_ok_iff, assert_ok] at h
  obtain ⟨_, _, ⟨-, rfl⟩, _, _, ⟨-, rfl⟩, _, _, ⟨-, rfl⟩, h⟩ := h
  rw [iterations_block] at h
  refine loop_inv (P := fun n _ t => Wiped i k n _ t) Wiped.refl ?_ h
  intro n hn _ r _ r' hr hstep
  obtain ⟨-, -, rfl⟩ := newBuffer_ok.mp hstep
  rw [xlate_block hi hk hn]
  exact hr.step hn

/-- The lookups of `hammer_strip_bigblock` read entries outside of the big-block, so they succeed
    to the end when they do at the start. -/
theorem stripBigblock_run (hi : i < radix1) (hk : k < radix2) (hz : isIndexRecord zone)
    (hl : s.loaded (volDecode (blockAddr i k)) = true)
    (ha : zoneDecode (s.allocOffset zone) = zone)
    (hu : (s.layer1 (s.layer1Offset i)).phys ≠ unavail) (he : (s.entry i k).zone = zone)
    (h1 : s.layer1Offset i / bigblockSize ≠ blockAddr i k / bigblockSize)
    (h2 : s.entryOff i k / bigblockSize ≠ blockAddr i k / bigblockSize) :
    ∃ t, stripBigblock zone (physOffset i + k * bigblockSize) s = .ok ((), t) := by
  have halign := block_aligned i k
  have hbuf : (physOffset i + k * bigblockSize) % bufSize = 0 := by
    unfold bigblockSize bufSize at *
    omega
  obtain ⟨_, t, hloop, -⟩ : ∃ u t, loop (bigblockSize / bufSize) (fun b _ => newBuffer
      (xlateToZoneX zone (physOffset i + k * bigblockSize) + b * bufSize)) () s = .ok (u, t) ∧
      Wiped i k (bigblockSize / bufSize) s t := by
    refine loop_run (P := fun n _ t => Wiped i k n s t) Wiped.refl ?_
    intro n hn _ t ht
    refine ⟨(), _, newBuffer_ok.mpr ⟨⟨_, blockmapLookup_eq_some.mpr ⟨?_, rfl⟩⟩, ?_, rfl⟩, ?_⟩
    · have hl1 : t.layer1 (t.freemap + i * 32) = s.layer1 (s.layer1Offset i) := by
        rw [ht.same.freemap, ← ht.layer1 _ h1, Disk.layer1Offset, layer1Index_physOffset hi]
      have hoff : (s.layer1 (s.layer1Offset i)).layer2Offset (blockAddr i k + n * bufSize) =
          s.entryOff i k := by
        rw [Disk.entryOff, Layer1.layer2Offset, Layer1.layer2Offset, layer2Index_block hn]
      rw [zoneDecode_block hn, xlate_block hi hk hn, layer1Index_block hi hk hn, hl1, hoff,
        ht.same.allocOffset, ht.layer2 _ h2]
      exact ⟨ha, hu, he⟩
    · rw [xlate_block hi hk hn, volDecode_block hn, ht.same.loaded]
      exact hl
    · rw [xlate_block hi hk hn]
      exact ht.step hn
  refine ⟨t, ?_⟩
  simp only [stripBigblock, bind_ok_iff, assert_ok]
  exact ⟨(), s, ⟨hz, rfl⟩, (), s, ⟨halign, rfl⟩, (), s, ⟨hbuf, rfl⟩, by rwa [iterations_block]⟩

end Wipe

/-! ## The scan -/

/-- Entry `k` of section `i` comes before entry `n` of section `m`. -/
def Before (m n i k : Nat) : Prop := i < m ∨ i = m ∧ k < n

instance (m n i k : Nat) : Decidable (Before m n i k) := inferInstanceAs (Decidable (_ ∨ _))

/-- A scan that started in `s` has come to entry `n` of section `m`, in the state `t`. -/
structure Progress (s : Disk) (m n : Nat) (t : Disk) : Prop where
  same : Same s t
  layer1 : ∀ j < radix1, t.layer1 (s.layer1Offset j) = s.layer1 (s.layer1Offset j)
  entry : ∀ i, s.InUse i → ∀ k < radix2, t.layer2 (s.entryOff i k) =
    if Before m n i k ∧ s.Strips i k then gone else s.entry i k
  zeroed : ∀ i, s.InUse i → ∀ k < radix2, Before m n i k → s.Strips i k →
    ∀ b < bigblockSize / bufSize, t.zeroed (blockAddr i k + b * bufSize) = true

section Scan

variable {s t t1 : Disk} {m n i k : Nat} {left left' : Bool}

theorem Progress.refl : Progress s 0 0 s where
  same := ⟨rfl, rfl, rfl, rfl⟩
  layer1 _ _ := rfl
  entry i _ k _ := by
    rw [if_neg fun h => ?_]
    · rfl
    · unfold Before at h
      omega
  zeroed i _ k _ h := by
    unfold Before at h
    omega

/-- What the scan has come past is all that counts. -/
theorem Progress.congr {m' n' : Nat} (h : Progress s m n t)
    (hb : ∀ i, s.InUse i → ∀ k < radix2, s.Strips i k → (Before m' n' i k ↔ Before m n i k)) :
    Progress s m' n' t where
  same := h.same
  layer1 := h.layer1
  entry i hi k hk := by
    rw [h.entry i hi k hk]
    exact if_congr (and_congr_left fun hs => (hb i hi k hk hs).symm) rfl rfl
  zeroed i hi k hk hbe hs := h.zeroed i hi k hk ((hb i hi k hk hs).mp hbe) hs

theorem Progress.skip (h : Progress s m n t) (hn : ¬ s.Strips m n) : Progress s m (n + 1) t := by
  refine h.congr fun i _ k _ hs => ?_
  have : ¬ (i = m ∧ k = n) := fun ⟨hi, hk⟩ => hn (hi ▸ hk ▸ hs)
  unfold Before
  omega

theorem Progress.strip (hv : Valid s) (hm : s.InUse m) (hn : n < radix2) (hs : s.Strips m n)
    (h : Progress s m n t) (hw : Wiped m n (bigblockSize / bufSize) t t1) :
    Progress s m (n + 1) (t1.putLayer2 (s.entryOff m n) gone) where
  same := (h.same.trans hw.same).trans ⟨rfl, rfl, rfl, rfl⟩
  layer1 j hj := by
    rw [Disk.putLayer2_layer1, hw.layer1 _ (hv.outside1 m hm n hn hs.1 j hj)]
    exact h.layer1 j hj
  entry i hi k hk := by
    rw [Disk.putLayer2_layer2]
    by_cases heq : i = m ∧ k = n
    · obtain ⟨rfl, rfl⟩ := heq
      rw [Function.update_self, if_pos ⟨Or.inr ⟨rfl, k.lt_succ_self⟩, hs⟩]
    · rw [Function.update_of_ne fun e => heq (hv.apart i hi k hk m hm n hn e),
        hw.layer2 _ (hv.outside2 m hm n hn hs.1 i hi k hk), h.entry i hi k hk]
      refine if_congr (and_congr_left fun _ => ?_) rfl rfl
      unfold Before
      omega
  zeroed i hi k hk hb hs' b hlt := by
    rw [Disk.putLayer2_zeroed]
    by_cases heq : i = m ∧ k = n
    · obtain ⟨rfl, rfl⟩ := heq
      exact hw.done b hlt
    · refine hw.kept _ (h.zeroed i hi k hk ?_ hs' b hlt)
      unfold Before at hb ⊢
      omega

section

variable (h : Progress s m n t)
include h

theorem Progress.layer1Offset : t.layer1Offset i = s.layer1Offset i := by
  unfold Disk.layer1Offset
  rw [h.same.freemap]

theorem Progress.entryOff (hi : i < radix1) : t.entryOff i k = s.entryOff i k := by
  unfold Disk.entryOff
  rw [h.layer1Offset, h.layer1 i hi]

theorem Progress.testOffset {off : Nat} : t.testOffset off ↔ s.testOffset off := by
  unfold Disk.testOffset
  rw [h.same.loaded]

/-- The entry the scan has come to is still as it was. -/
theorem Progress.current (hm : s.InUse m) (hn : n < radix2) :
    t.entryOff m n = s.entryOff m n ∧ t.entry m n = s.entry m n := by
  refine ⟨h.entryOff hm.1, ?_⟩
  unfold Disk.entry
  rw [h.entryOff hm.1, h.entry m hm n hn, if_neg fun hb => ?_]
  · rfl
  · unfold Before at hb
    omega

end

theorem reached_succ : s.Reached m (n + 1) ↔
    s.Reached m n ∧ (s.entry m n).zone ≠ zoneUnavailIndex := by
  constructor
  · exact fun h => ⟨fun j hj => h j (Nat.lt_succ_of_lt hj), h n n.lt_succ_self⟩
  · intro ⟨h1, h2⟩ j hj
    rcases Nat.lt_succ_iff_lt_or_eq.mp hj with hj | rfl
    · exact h1 j hj
    · exact h2

theorem not_owned_unavail : ¬ Owned zoneUnavailIndex := by decide

/-- The inner loop before entry `n`: it has been left if an unavailable entry came before. -/
def Inner (s : Disk) (m n : Nat) (left : Bool) (t : Disk) : Prop :=
  Progress s m n t ∧ (left = true ↔ ¬ s.Reached m n)

/-- The body of the inner loop, at an entry it has come to. -/
theorem stripEntry_eq (hv : Valid s) (hm : s.InUse m) (hn : n < radix2) (h : Progress s m n t) :
    stripEntry m n false t =
      if Owned (s.entry m n).zone then (do
        stripBigblock (s.entry m n).zone (physOffset m + n * bigblockSize)
        modify (·.putLayer2 (s.entryOff m n) gone)
        pure false : StripM Bool) t
      else .ok (decide ((s.entry m n).zone = zoneUnavailIndex), t) := by
  obtain ⟨hoff, hent⟩ := h.current hm hn
  have htest : t.testOffset (t.entryOff m n) := by
    rw [hoff, h.testOffset]
    exact hv.layer2 m hm n hn
  rw [← hoff, ← hent]
  change (if ¬ t.testOffset (t.entryOff m n) then (pure true : StripM Bool)
    else if Owned (t.entry m n).zone then _ else pure _) t = _
  rw [if_neg (not_not_intro htest)]
  split_ifs <;> rfl

theorem stripEntry_inner (hv : Valid s) (hm : s.InUse m) (hn : n < radix2)
    (h : Inner s m n left t) (hok : stripEntry m n left t = .ok (left', t1)) :
    Inner s m (n + 1) left' t1 := by
  obtain ⟨hp, hleft⟩ := h
  unfold Inner
  rw [reached_succ]
  cases left with
  | true =>
    obtain ⟨rfl, rfl⟩ := pure_ok_iff.mp hok
    have hr := hleft.mp rfl
    exact ⟨hp.skip fun hs => hr hs.2, iff_of_true rfl fun h => hr h.1⟩
  | false =>
    have hr : s.Reached m n := by simpa using hleft
    rw [stripEntry_eq hv hm hn hp] at hok
    split_ifs at hok with ho
    · obtain ⟨_, t2, h1, h2⟩ := bind_ok_iff.mp hok
      obtain ⟨_, _, h3, h4⟩ := bind_ok_iff.mp h2
      obtain ⟨rfl, rfl⟩ := pure_ok_iff.mp h4
      obtain rfl := modify_ok.mp h3
      refine ⟨hp.strip hv hm hn ⟨ho, hr⟩ (stripBigblock_wiped hm.1 hn h1), ?_⟩
      refine iff_of_false Bool.false_ne_true (not_not_intro ⟨hr, fun e => ?_⟩)
      exact not_owned_unavail (e ▸ ho)
    · cases hok
      exact ⟨hp.skip fun hs => ho hs.1, by simp [hr]⟩

theorem stripEntry_run (hv : Valid s) (hw : Writable s) (hm : s.InUse m) (hn : n < radix2)
    (h : Inner s m n left t) :
    ∃ left' t1, stripEntry m n left t = .ok (left', t1) ∧ Inner s m (n + 1) left' t1 := by
  suffices hok : ∃ left' t1, stripEntry m n left t = .ok (left', t1) by
    obtain ⟨left', t1, hok⟩ := hok
    exact ⟨left', t1, hok, stripEntry_inner hv hm hn h hok⟩
  obtain ⟨hp, -⟩ := h
  cases left with
  | true => exact ⟨true, t, rfl⟩
  | false =>
    rw [stripEntry_eq hv hm hn hp]
    split_ifs with ho
    · obtain ⟨hl, ha⟩ := hw m hm n hn ho
      obtain ⟨hoff, hent⟩ := hp.current hm hn
      have hz : isIndexRecord (s.entry m n).zone := by
        rcases ho with ho | ho <;> rw [ho] <;> decide
      obtain ⟨t2, h2⟩ : ∃ t2, stripBigblock (s.entry m n).zone
          (physOffset m + n * bigblockSize) t = .ok ((), t2) := by
        refine stripBigblock_run hm.1 hn hz ?_ ?_ ?_ (congrArg Layer2.zone hent) ?_ ?_
        · rw [hp.same.loaded]
          exact hl
        · rw [hp.same.allocOffset]
          exact ha
        · rw [hp.layer1Offset, hp.layer1 m hm.1]
          exact hm.2
        · rw [hp.layer1Offset]
          exact hv.outside1 m hm n hn ho m hm.1
        · rw [hoff]
          exact hv.outside2 m hm n hn ho m hm n hn
      rw [bind_of_ok h2]
      exact ⟨false, _, rfl⟩
    · exact ⟨_, t, rfl⟩

theorem Progress.inner (h : Progress s m 0 t) : Inner s m 0 false t :=
  ⟨h, iff_of_false Bool.false_ne_true (not_not_intro fun _ hj => absurd hj (Nat.not_lt_zero _))⟩

/-- The section that ends at the last entry is the one before the next. -/
theorem Progress.next (h : Progress s m radix2 t) : Progress s (m + 1) 0 t := by
  refine h.congr fun i _ k hk _ => ?_
  unfold Before
  omega

theorem Progress.nextUnused (h : Progress s m 0 t) (hm : ¬ s.InUse m) :
    Progress s (m + 1) 0 t := by
  refine h.congr fun i hi k _ _ => ?_
  have : i ≠ m := fun e => hm (e ▸ hi)
  unfold Before
  omega

/-- The body of the outer loop. -/
theorem stripSection_eq (hv : Valid s) (hm : m < radix1) (h : Progress s m 0 t) :
    stripSection m false t =
      if (s.layer1 (s.layer1Offset m)).phys = unavail then .ok (false, t)
      else (do
        let _ ← loop radix2 (stripEntry m) false
        pure false : StripM Bool) t := by
  have htest : t.testOffset (t.layer1Offset m) := by
    rw [h.layer1Offset, h.testOffset]
    exact hv.layer1 m hm
  rw [← h.layer1 m hm, ← h.layer1Offset]
  change (if ¬ t.testOffset (t.layer1Offset m) then (pure true : StripM Bool)
    else if (t.layer1 (t.layer1Offset m)).phys = unavail then pure false else _) t = _
  rw [if_neg (not_not_intro htest)]
  split_ifs <;> rfl

/-- The outer loop before section `m`: it is never left in the middle. -/
def Outer (s : Disk) (m : Nat) (left : Bool) (t : Disk) : Prop :=
  Progress s m 0 t ∧ left = false

theorem stripSection_outer (hv : Valid s) (hm : m < radix1) (h : Outer s m left t)
    (hok : stripSection m left t = .ok (left', t1)) : Outer s (m + 1) left' t1 := by
  obtain ⟨hp, rfl⟩ := h
  rw [stripSection_eq hv hm hp] at hok
  split_ifs at hok with hu
  · cases hok
    exact ⟨hp.nextUnused fun h => h.2 hu, rfl⟩
  · obtain ⟨_, t2, h1, h2⟩ := bind_ok_iff.mp hok
    obtain ⟨rfl, rfl⟩ := pure_ok_iff.mp h2
    have hin : s.InUse m := ⟨hm, hu⟩
    exact ⟨(loop_inv (P := Inner s m) hp.inner
      (fun n hn _ _ _ _ h => stripEntry_inner hv hin hn h) h1).1.next, rfl⟩

theorem stripSection_run (hv : Valid s) (hw : Writable s) (hm : m < radix1)
    (h : Outer s m left t) :
    ∃ left' t1, stripSection m left t = .ok (left', t1) ∧ Outer s (m + 1) left' t1 := by
  suffices hok : ∃ left' t1, stripSection m left t = .ok (left', t1) by
    obtain ⟨left', t1, hok⟩ := hok
    exact ⟨left', t1, hok, stripSection_outer hv hm h hok⟩
  obtain ⟨hp, rfl⟩ := h
  rw [stripSection_eq hv hm hp]
  split_ifs with hu
  · exact ⟨false, t, rfl⟩
  · obtain ⟨_, t2, h1, -⟩ := loop_run (P := Inner s m) hp.inner fun n hn _ _ h =>
      stripEntry_run hv hw ⟨hm, hu⟩ hn h
    rw [bind_of_ok h1]
    exact ⟨false, t2, rfl⟩

theorem scan_eq (hv : Valid s) : scan s = (do
    let _ ← loop radix1 stripSection false
    pure () : StripM Unit) s := by
  change (if s.loaded 0 = true ∧ s.testOffset s.freemap then _ else pure () : StripM Unit) s = _
  rw [if_pos ⟨hv.root, hv.map⟩]

/-- The entries that a scan turns over, and the big-blocks it overwrites. -/
theorem scan_progress {u : Unit} (hv : Valid s) (h : scan s = .ok (u, t)) :
    Progress s radix1 0 t := by
  rw [scan_eq hv] at h
  obtain ⟨_, _, h1, h2⟩ := bind_ok_iff.mp h
  obtain ⟨-, rfl⟩ := pure_ok_iff.mp h2
  exact (loop_inv (P := Outer s) ⟨Progress.refl, rfl⟩
    (fun m hm _ _ _ _ h => stripSection_outer hv hm h) h1).1

theorem stripHeader_run (v : Nat) : ∃ t1, stripHeader v t = .ok ((), t1) ∧
    t1.layer2 = t.layer2 ∧ t1.zeroed = t.zeroed := by
  change ∃ t1, (if t.loaded v = true then modify (·.stripHeader v) else pure () : StripM Unit) t
    = .ok ((), t1) ∧ _
  split_ifs
  · exact ⟨t.stripHeader v, rfl, rfl, rfl⟩
  · exact ⟨t, rfl, rfl, rfl⟩

/-- The headers are all that `strip_header` changes. -/
theorem stripHeaders_run : ∃ t1, stripHeaders t = .ok ((), t1) ∧
    t1.layer2 = t.layer2 ∧ t1.zeroed = t.zeroed := by
  obtain ⟨_, t1, h, ht⟩ : ∃ u t1, stripHeaders t = .ok (u, t1) ∧
      t1.layer2 = t.layer2 ∧ t1.zeroed = t.zeroed := by
    refine loop_run (P := fun _ _ (t1 : Disk) => t1.layer2 = t.layer2 ∧ t1.zeroed = t.zeroed)
      ⟨rfl, rfl⟩ fun v _ _ r hr => ?_
    obtain ⟨r1, hok, hl, hz⟩ := stripHeader_run v (t := r)
    exact ⟨(), r1, hok, hl.trans hr.1, hz.trans hr.2⟩
  exact ⟨t1, h, ht⟩

theorem strip_finishes (hv : Valid s) (hw : Writable s) : ∃ t, strip s = .ok ((), t) := by
  obtain ⟨_, t1, h1, -⟩ := loop_run (P := Outer s) ⟨Progress.refl, rfl⟩ fun m hm _ _ h =>
    stripSection_run hv hw hm h
  obtain ⟨t, ht, -⟩ := stripHeaders_run (t := t1)
  have hscan : scan s = .ok ((), t1) := by
    rw [scan_eq hv, bind_of_ok h1]
    rfl
  exact ⟨t, by rw [strip, bind_of_ok hscan, ht]⟩

/-- The freemap at the end of the command. -/
theorem strip_progress {u : Unit} (hv : Valid s) (h : strip s = .ok (u, t)) :
    ∃ t1, Progress s radix1 0 t1 ∧ t.layer2 = t1.layer2 ∧ t.zeroed = t1.zeroed := by
  obtain ⟨_, t1, h1, h2⟩ := bind_ok_iff.mp h
  obtain ⟨t', h3, hl, hz⟩ := stripHeaders_run (t := t1)
  rw [h3] at h2
  cases h2
  exact ⟨t1, scan_progress hv h1, hl, hz⟩

theorem before_all (hi : s.InUse i) : Before radix1 0 i k := Or.inl hi.1

/-- What is behind an unavailable entry of its section is left as it was. -/
theorem strip_leaves {u : Unit} (hv : Valid s) (h : strip s = .ok (u, t))
    (hi : s.InUse i) (hk : k < radix2) (hr : ¬ s.Reached i k) :
    t.layer2 (s.entryOff i k) = s.entry i k := by
  obtain ⟨t1, hp, hl, -⟩ := strip_progress hv h
  rw [hl, hp.entry i hi k hk, if_neg fun h => hr h.2.2]

/-- What is not behind one is stripped. -/
theorem strip_takes {u : Unit} (hv : Valid s) (h : strip s = .ok (u, t))
    (hi : s.InUse i) (hk : k < radix2) (hr : Owned (s.entry i k).zone → s.Reached i k) :
    ¬ Owned (t.layer2 (s.entryOff i k)).zone ∧ (Owned (s.entry i k).zone →
      ∀ b < bigblockSize / bufSize, t.zeroed (blockAddr i k + b * bufSize) = true) := by
  obtain ⟨t1, hp, hl, hz⟩ := strip_progress hv h
  rw [hl, hz, hp.entry i hi k hk]
  refine ⟨?_, fun ho => hp.zeroed i hi k hk (before_all hi) ⟨ho, hr ho⟩⟩
  split_ifs with hs
  · exact not_owned_unavail
  · exact fun ho => hs ⟨before_all hi, ho, hr ho⟩

end Scan

/-! ## Completeness -/

/-- When the command comes to its end, nothing is left of the B-Tree and of the meta zone, just
    if no entry in front of one of their big-blocks in its section was unavailable. -/
theorem strip_complete_iff {s t : Disk} (hv : Valid s) (h : strip s = .ok ((), t)) :
    Complete s t ↔ ∀ i, s.InUse i → ∀ k < radix2, s.Below i k → Owned (s.entry i k).zone →
      ∀ j < k, (s.entry i j).zone ≠ zoneUnavailIndex := by
  constructor
  · intro hc i hi k hk hb ho
    by_contra hr
    have hgone := (hc i hi k hk hb).1
    rw [strip_leaves hv h hi hk hr] at hgone
    exact hgone ho
  · intro hr i hi k hk hb
    exact strip_takes hv h hi hk (hr i hi k hk hb)

/-! ## A strip that was interrupted -/

section Interrupted

variable {s t : Disk} {m n i k : Nat}

section

variable (h : Progress s m n t)
include h

theorem Progress.inUse : t.InUse i ↔ s.InUse i := by
  unfold Disk.InUse
  rw [h.layer1Offset]
  exact and_congr_right fun hi => by rw [h.layer1 i hi]

/-- A scan gives no big-block to the two zones. -/
theorem Progress.owned (hi : s.InUse i) (hk : k < radix2) (ho : Owned (t.entry i k).zone) :
    t.entry i k = s.entry i k := by
  unfold Disk.entry at ho ⊢
  rw [h.entryOff hi.1, h.entry i hi k hk] at ho ⊢
  split_ifs at ho ⊢
  · exact absurd ho not_owned_unavail
  · rfl

/-- Wherever a scan is cut off, the freemap it leaves is a valid one. -/
theorem Progress.valid (hv : Valid s) : Valid t where
  root := by
    rw [h.same.loaded]
    exact hv.root
  map := by
    rw [h.same.freemap, h.testOffset]
    exact hv.map
  layer1 i hi := by
    rw [h.layer1Offset, h.testOffset]
    exact hv.layer1 i hi
  layer2 i hi k hk := by
    rw [h.inUse] at hi
    rw [h.entryOff hi.1, h.testOffset]
    exact hv.layer2 i hi k hk
  apart i hi k hk j hj l hl he := by
    rw [h.inUse] at hi hj
    rw [h.entryOff hi.1, h.entryOff hj.1] at he
    exact hv.apart i hi k hk j hj l hl he
  outside1 i hi k hk ho j hj := by
    rw [h.inUse] at hi
    rw [h.owned hi hk ho] at ho
    rw [h.layer1Offset]
    exact hv.outside1 i hi k hk ho j hj
  outside2 i hi k hk ho j hj l hl := by
    rw [h.inUse] at hi hj
    rw [h.owned hi hk ho] at ho
    rw [h.entryOff hj.1]
    exact hv.outside2 i hi k hk ho j hj l hl

theorem Progress.writable (hw : Writable s) : Writable t := by
  intro i hi k hk ho
  rw [h.inUse] at hi
  have he := h.owned hi hk ho
  rw [he] at ho ⊢
  rw [h.same.loaded, h.same.allocOffset]
  exact hw i hi k hk ho

end

/-- A strip of `s` is cut off between two entries, and `t` is what it leaves. -/
def CutOff (s t : Disk) : Prop := ∃ m n left left' r, s.InUse m ∧ n ≤ radix2 ∧
  loop m stripSection false s = .ok (left, r) ∧ loop n (stripEntry m) false r = .ok (left', t)

theorem CutOff.progress (h : CutOff s t) (hv : Valid s) : ∃ m n, Progress s m n t := by
  obtain ⟨m, n, left, left', r, hm, hn, h1, h2⟩ := h
  have hr : Progress s m 0 r := (loop_inv (P := Outer s) ⟨Progress.refl, rfl⟩
    (fun _ hi _ _ _ _ => stripSection_outer hv (hi.trans hm.1)) h1).1
  exact ⟨m, n, (loop_inv (P := Inner s m) hr.inner
    (fun _ hk _ _ _ _ => stripEntry_inner hv hm (hk.trans_le hn)) h2).1⟩

/-- The entries of the other zones are where they were. -/
def Spared (s t : Disk) : Prop := ∀ i, s.InUse i → t.InUse i ∧ ∀ k < radix2,
  t.entryOff i k = s.entryOff i k ∧ (¬ Owned (s.entry i k).zone → t.entry i k = s.entry i k)

theorem Progress.spares (h : Progress s m n t) (hi : s.InUse i) (hk : k < radix2)
    (ho : ¬ Owned (s.entry i k).zone) : t.layer2 (s.entryOff i k) = s.entry i k := by
  rw [h.entry i hi k hk, if_neg fun hs => ho hs.2.1]

theorem Spared.cutOff {r : Disk} (h : Spared s t) (hp : Progress t m n r) : Spared s r := by
  intro i hi
  obtain ⟨hr, hk⟩ := h i hi
  refine ⟨hp.inUse.mpr hr, fun k hlt => ⟨(hp.entryOff hr.1).trans (hk k hlt).1, fun ho => ?_⟩⟩
  have he := (hk k hlt).2 ho
  rw [← he] at ho
  rw [← he, Disk.entry, hp.entryOff hr.1, hp.spares hr hlt ho]

end Interrupted

/-- One volume of 1025 big-blocks: the two of the freemap, and two of the B-Tree, whose layer 2
    entries are in different buffers. -/
def twoNodes : Disk where
  loaded v := decide (v = 0)
  headers _ := ⟨0, 1025 * bigblockSize, false⟩
  allocOffset z := zoneEncode z 0
  freemap := zoneEncode 2 0
  layer1 a := if a = zoneEncode 2 0 then ⟨zoneEncode 2 bigblockSize, 0⟩ else ⟨unavail, 0⟩
  layer2 a :=
    let k := (a - zoneEncode 2 bigblockSize) / 16
    if k < 2 then ⟨zoneFreemapIndex, bigblockSize, 0⟩
    else if k = 2 ∨ k = 1024 then ⟨RecordZone.btree.index, bigblockSize, 0⟩
    else if k < 1025 then ⟨0, 0, bigblockSize⟩
    else gone
  zeroed _ := false

section TwoNodes

variable {i k : Nat}

theorem twoNodes_layer1Offset (hi : i < radix1) :
    twoNodes.layer1Offset i = zoneEncode 2 (i * 32) := by
  unfold Disk.layer1Offset
  rw [layer1Index_physOffset hi]
  rfl

theorem twoNodes_inUse (hi : twoNodes.InUse i) : i = 0 := by
  obtain ⟨hlt, hu⟩ := hi
  rw [twoNodes_layer1Offset hlt] at hu
  by_contra hne
  refine hu (congrArg Layer1.phys (if_neg fun e => hne ?_))
  unfold zoneEncode at e
  omega

theorem twoNodes_zero : twoNodes.InUse 0 := by
  unfold Disk.InUse
  decide

theorem twoNodes_entryOff (hk : k < radix2) :
    twoNodes.entryOff 0 k = zoneEncode 2 (bigblockSize + k * 16) := by
  have hl : (twoNodes.layer1 (twoNodes.layer1Offset 0)).phys = zoneEncode 2 bigblockSize := by
    decide
  unfold Disk.entryOff Layer1.layer2Offset
  rw [hl]
  unfold layer2Index zoneEncode layer2Span radix2 bigblockSize at *
  omega

theorem twoNodes_entry (hk : k < radix2) : twoNodes.entry 0 k =
    if k < 2 then ⟨zoneFreemapIndex, bigblockSize, 0⟩
    else if k = 2 ∨ k = 1024 then ⟨RecordZone.btree.index, bigblockSize, 0⟩
    else if k < 1025 then ⟨0, 0, bigblockSize⟩ else gone := by
  have hidx : (zoneEncode 2 (bigblockSize + k * 16) - zoneEncode 2 bigblockSize) / 16 = k := by
    unfold zoneEncode
    omega
  unfold Disk.entry
  rw [twoNodes_entryOff hk]
  simp only [twoNodes, hidx]

theorem twoNodes_owned (hk : k < radix2) : Owned (twoNodes.entry 0 k).zone ↔ k = 2 ∨ k = 1024 := by
  rw [twoNodes_entry hk]
  split_ifs with h1 h2
  · exact iff_of_false (by decide) (by omega)
  · exact iff_of_true (by decide) h2
  · exact iff_of_false (by decide) h2
  · exact iff_of_false (by decide) h2

/-- The freemap is in the first two big-blocks. -/
theorem twoNodes_block {b : Nat} (hk : k = 2 ∨ k = 1024) (hb : b < 2 * bigblockSize) :
    zoneEncode 2 b / bigblockSize ≠ blockAddr 0 k / bigblockSize := by
  unfold blockAddr zoneEncode bigblockSize at *
  omega

theorem twoNodes_valid : Valid twoNodes where
  root := rfl
  map := by decide
  layer1 i hi := by
    rw [twoNodes_layer1Offset hi]
    simp only [Disk.testOffset, twoNodes, decide_eq_true_eq]
    unfold radix1 bigblockSize at hi
    unfold volDecode zoneDecode zoneEncode
    omega
  layer2 i hi k hk := by
    obtain rfl := twoNodes_inUse hi
    rw [twoNodes_entryOff hk]
    simp only [Disk.testOffset, twoNodes, decide_eq_true_eq]
    unfold radix2 bigblockSize at hk
    unfold volDecode zoneDecode zoneEncode bigblockSize
    omega
  apart i hi k hk j hj l hl he := by
    obtain rfl := twoNodes_inUse hi
    obtain rfl := twoNodes_inUse hj
    rw [twoNodes_entryOff hk, twoNodes_entryOff hl] at he
    unfold zoneEncode at he
    omega
  outside1 i hi k hk ho j hj := by
    obtain rfl := twoNodes_inUse hi
    rw [twoNodes_layer1Offset hj]
    refine twoNodes_block ((twoNodes_owned hk).mp ho) ?_
    unfold radix1 bigblockSize at *
    omega
  outside2 i hi k hk ho j hj l hl := by
    obtain rfl := twoNodes_inUse hi
    obtain rfl := twoNodes_inUse hj
    rw [twoNodes_entryOff hl]
    refine twoNodes_block ((twoNodes_owned hk).mp ho) ?_
    unfold radix2 bigblockSize at *
    omega

theorem twoNodes_writable : Writable twoNodes := by
  intro i hi k hk ho
  obtain rfl := twoNodes_inUse hi
  rcases (twoNodes_owned hk).mp ho with rfl | rfl
  · rw [twoNodes_entry hk]
    decide
  · rw [twoNodes_entry hk]
    decide

theorem twoNodes_reached (hk : k ≤ 1025) : twoNodes.Reached 0 k := by
  intro j hj
  have hlt : j < radix2 := by
    unfold radix2 bigblockSize
    omega
  rw [twoNodes_entry hlt]
  split_ifs
  · decide
  · decide
  · decide
  · omega

end TwoNodes

theorem strip_complete_twoNodes : ∃ t, strip twoNodes = .ok ((), t) ∧ Complete twoNodes t := by
  obtain ⟨t, ht⟩ := strip_finishes twoNodes_valid twoNodes_writable
  refine ⟨t, ht, (strip_complete_iff twoNodes_valid ht).mpr fun i hi k hk _ ho => ?_⟩
  obtain rfl := twoNodes_inUse hi
  refine twoNodes_reached ?_
  rcases (twoNodes_owned hk).mp ho with rfl | rfl <;> decide

/-- The strip of `twoNodes` is cut off after the first buffer of layer 2. A second one leaves the
    node whose entry is in the other buffer where it is. -/
theorem strip_rerun_incomplete : ∃ s t, loop 1024 (stripEntry 0) false twoNodes = .ok (false, s) ∧
    Valid s ∧ strip s = .ok ((), t) ∧ ¬ Complete s t := by
  have hk : ∀ k < 1025, k < radix2 := by
    intro k hk
    unfold radix2 bigblockSize
    omega
  obtain ⟨left, s, hs, hp, hleft⟩ := loop_run (P := Inner twoNodes 0) (n := 1024)
    Progress.refl.inner fun n hn _ _ h =>
      stripEntry_run twoNodes_valid twoNodes_writable twoNodes_zero (hk n (by omega)) h
  obtain rfl : left = false := by
    rw [← Bool.not_eq_true, hleft]
    exact not_not_intro (twoNodes_reached (by decide))
  obtain ⟨t, ht⟩ := strip_finishes (hp.valid twoNodes_valid) (hp.writable twoNodes_writable)
  refine ⟨s, t, hs, hp.valid twoNodes_valid, ht, fun hc => ?_⟩
  have huse : s.InUse 0 := hp.inUse.mpr twoNodes_zero
  have hnode : s.entry 0 1024 = twoNodes.entry 0 1024 :=
    (hp.current twoNodes_zero (hk 1024 (by decide))).2
  have hgone : (s.entry 0 2).zone = zoneUnavailIndex := by
    unfold Disk.entry
    rw [hp.entryOff (by decide), hp.entry 0 twoNodes_zero 2 (hk 2 (by decide)),
      if_pos ⟨by decide, (twoNodes_owned (hk 2 (by decide))).mpr (Or.inl rfl),
        twoNodes_reached (by decide)⟩]
    rfl
  have hbelow : s.Below 0 1024 := by
    unfold Disk.Below
    rw [hp.same.headers]
    decide
  refine (hc 0 huse 1024 (hk 1024 (by decide)) hbelow).1 ?_
  rw [strip_leaves (hp.valid twoNodes_valid) ht huse (hk 1024 (by decide))
    fun hr => hr 2 (by decide) hgone, hnode, twoNodes_owned (hk 1024 (by decide))]
  exact Or.inr rfl

/-- However often a strip was cut off before, one more comes to its end, and the entries of the
    other zones are what they were at first. -/
theorem strip_restarts {s t : Disk} (hv : Valid s) (hw : Writable s)
    (h : Relation.ReflTransGen CutOff s t) : ∃ u, strip t = .ok ((), u) ∧ ∀ i, s.InUse i →
      ∀ k < radix2, ¬ Owned (s.entry i k).zone → u.layer2 (s.entryOff i k) = s.entry i k := by
  obtain ⟨hv, hw, hspared⟩ : Valid t ∧ Writable t ∧ Spared s t := by
    induction h with
    | refl => exact ⟨hv, hw, fun i hi => ⟨hi, fun k _ => ⟨rfl, fun _ => rfl⟩⟩⟩
    | tail _ hc ih =>
      obtain ⟨m, n, hp⟩ := hc.progress ih.1
      exact ⟨hp.valid ih.1, hp.writable ih.2.1, ih.2.2.cutOff hp⟩
  obtain ⟨u, hu⟩ := strip_finishes hv hw
  obtain ⟨t1, hp, hl, -⟩ := strip_progress hv hu
  refine ⟨u, hu, fun i hi k hk ho => ?_⟩
  obtain ⟨hr, he⟩ := hspared i hi
  have he' := (he k hk).2 ho
  rw [← he'] at ho
  rw [hl, ← (he k hk).1, hp.spares hr hk ho, he']

theorem strip_restarts_twoNodes : ∃ t u, CutOff twoNodes t ∧ strip t = .ok ((), u) ∧
    u.layer2 (twoNodes.entryOff 0 0) = twoNodes.entry 0 0 := by
  obtain ⟨left, t, hs, -⟩ := loop_run (P := Inner twoNodes 0) (n := 1024)
    Progress.refl.inner fun n hn _ _ h => stripEntry_run twoNodes_valid twoNodes_writable
      twoNodes_zero (hn.trans (by decide)) h
  have hc : CutOff twoNodes t := ⟨0, 1024, _, _, _, twoNodes_zero, by decide, rfl, hs⟩
  obtain ⟨u, hu, he⟩ := strip_restarts twoNodes_valid twoNodes_writable (.single hc)
  exact ⟨t, u, hc, hu, he 0 twoNodes_zero 0 (by decide) (by decide)⟩

end Lh1.Hammer.Strip
