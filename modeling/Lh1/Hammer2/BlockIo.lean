/-
  Reading and writing blocks of a HAMMER2 filesystem (read_media and write_media of
  fsck_hammer2/test.c and reconstruct.c).

  The I/O buffer begins at a multiple of 16 KB, and `io_bytes` is doubled until it covers the size of
  the block, as if the block began where the buffer does. What a block is to be read as is `stored`:
  each offset is looked up by itself.

  * `Ondisk.Blocks`: what is known of a set of volumes that was accepted.
  * `serves_of_pread`: when a block is read, it is from the volume of its offset.
  * `block_io_iff`: the block is read as it is stored, and as it was written, if and only if it is
    within the I/O buffer and within one volume.
-/
import Lh1.Hammer2.Media

namespace Lh1.Hammer2

open Lib

/-! ## Writing -/

/-- How `write_media` fails; `overrun` is a copy past the end of `buf`. -/
inductive WriteError
  | assertion
  | badIoBytes
  | readFailed
  | overrun
  | writeFailed

/-- `write_media`. Whether `write` and `fsync` succeed is given. -/
def Media.writeMedia (m : Media) (b : Blockref) (media : Image) (mediaBytes : Nat) (writes : Bool) :
    Except WriteError Media :=
  if b.size = 0 ∨ b.size ≠ mediaBytes then .error .assertion
  else if pbufSize < b.ioBytes then .error .badIoBytes
  else
    let ioBase := b.ioOff - b.ioOff % lbufSize
    let fd := m.volumeFd b.ioOff
    let pos := subOff ioBase (m.volumeOffset ioBase)
    match m.pread fd pos b.ioBytes with
    | none => .error .readFailed
    | some data =>
      if pbufSize < b.ioOff % lbufSize + mediaBytes then .error .overrun
      else if writes = false then .error .writeFailed
      else
        let buf := (data.write (b.ioOff % lbufSize) (media.read 0 mediaBytes)).read 0 b.ioBytes
        .ok { m with devs := Function.update m.devs fd.toNat { m.devs fd.toNat with
                bytes := (m.devs fd.toNat).bytes.write pos buf } }

/-! ## What they are for -/

/-- The byte at an offset of the filesystem. -/
def Media.stored (m : Media) (x : Nat) : Option UInt8 :=
  (m.fso.volumeAt x).map fun vol => (m.devs vol.fd.toNat).bytes (x - vol.offset)

/-- If `read_media` succeeds, the block is what is stored. -/
def Media.ReadsBlock (m : Media) (b : Blockref) : Prop :=
  ∀ bytes buf, m.readMedia b = .ok (bytes, buf) →
    bytes = b.size ∧ ∀ i < b.size, m.stored (b.ioOff + i) = some (buf i)

/-- If `write_media` succeeds, `read_media` returns what was written. -/
def Media.WritesBack (m : Media) (b : Blockref) (media : Image) (writes : Bool) : Prop :=
  m.writeMedia b media b.size writes ≠ .error .overrun ∧
    ∀ m', m.writeMedia b media b.size writes = .ok m' →
      ∃ buf, m'.readMedia b = .ok (b.size, buf) ∧ ∀ i < b.size, buf i = media i

/-- The volumes, on devices with the given contents. -/
def mediaOf (fso : Ondisk) (devs : Nat → Device) (content : Nat → Image) (stale : Nat → Image) :
    Media :=
  ⟨fso, fun d => { devs d with bytes := content d }, stale⟩

/-! ## The volumes -/

/-- Volumes begin and end at multiples of 8 MB, each on a device of its own. -/
structure Ondisk.Blocks (fso : Ondisk) : Prop where
  aligned : ∀ i < fso.nvolumes,
    volumeAlign ∣ (fso.volumes i).offset ∧ volumeAlign ∣ (fso.volumes i).size
  apart : ∀ i < fso.nvolumes, ∀ j < i, (fso.volumes i).fd.toNat ≠ (fso.volumes j).fd.toNat

section

variable {icrc : Crc} {devs : Nat → Device} {blkdevs : List Devpath} {s : State}
  {fso : Ondisk} {m : Media} {b : Blockref} {vol : Volume} {x : Nat}

/-- Volumes that are there are on different devices. -/
theorem verifyCommon_apart (h : fso.verifyVolumesCommon devs = .ok ()) {i j : Nat}
    (hi : i < maxVolumes) (hpi : fso.Present i) (hpj : fso.Present j) (hj : j < i) :
    (fso.volumes i).fd.toNat ≠ (fso.volumes j).fd.toNat := by
  unfold Ondisk.verifyVolumesCommon at h
  simp only [check_bind_ok_iff, forM_ok_iff, List.mem_range] at h
  have hslot := h.2 i hi
  rw [Ondisk.verifyCommon, if_neg (not_not.mpr hpi)] at hslot
  simp only [check_bind_ok_iff, check_ok_iff] at hslot
  intro heq
  apply hslot.2.1 j hj
  rw [Ondisk.stat, Ondisk.stat, if_pos hpi, if_pos hpj, heq]

theorem initVolumes_blocks (h : initVolumes icrc devs blkdevs = .ok s) : s.fso.Blocks := by
  obtain ⟨t, hwf, hfin⟩ := initVolumes_ok h
  obtain ⟨-, root, -, hv⟩ := State.finish_ok hfin
  obtain ⟨hcommon, ⟨-, heq, h2, -⟩ | ⟨-, h1, heq⟩⟩ := Ondisk.verifyVolumes_ok hv
  · obtain ⟨hcount, hslots, hpres⟩ := hwf.present_iff h2
    have hle : t.fso.nvolumes ≤ maxVolumes := hcount ▸ Nat.count_le _
    have hin : ∀ i < t.fso.nvolumes, t.fso.Present i := fun i hi =>
      (hpres i (hi.trans_le hle)).mpr hi
    rw [heq]
    exact {
      aligned := fun i hi => (Ondisk.verify2_ok (hslots i (hin i hi)) (hin i hi)).2
      apart := fun i hi j hj =>
        verifyCommon_apart hcommon (hi.trans_le hle) (hin i hi) (hin j (hj.trans hi)) hj }
  · unfold Ondisk.verifyVolumes1 at h1
    simp only [check_bind_ok_iff, check_ok_iff] at h1
    obtain ⟨hone, -, -, hoff, hsize, -⟩ := h1
    rw [heq, hone]
    refine ⟨fun i hi => ?_, fun i hi j hj => ?_⟩
    · have hzero : volumeAlign ∣ (t.fso.volumes 0).offset := by
        rw [hoff]
        exact dvd_zero _
      rw [Nat.lt_one_iff.mp hi]
      exact ⟨hzero, Nat.dvd_of_mod_eq_zero hsize⟩
    · have : i < 1 := hi
      omega

theorem volumeAt_mem (h : fso.volumeAt x = some vol) :
    (∃ i < fso.nvolumes, fso.volumes i = vol) ∧ vol.offset ≤ x - x % 64 := by
  obtain ⟨hmem, hcov⟩ := List.mem_of_find?_eq_some h, List.find?_some h
  obtain ⟨i, hi, rfl⟩ := List.mem_map.mp hmem
  simp only [decide_eq_true_eq] at hcov
  exact ⟨⟨i, List.mem_range.mp hi, rfl⟩, hcov.1⟩

/-- The offsets of an I/O buffer of 16 KB are in one volume. -/
theorem Ondisk.Blocks.volumeAt_base (h : fso.Blocks) (x : Nat) :
    fso.volumeAt (x - x % lbufSize) = fso.volumeAt x := by
  refine List.find?_congr fun vol hvol => decide_eq_decide.mpr ?_
  obtain ⟨i, hi, rfl⟩ := List.mem_map.mp hvol
  obtain ⟨⟨a, ha⟩, ⟨c, hc⟩⟩ := h.aligned i (List.mem_range.mp hi)
  unfold addOff
  rw [ha, hc]
  simp only [volumeAlign, lbufSize]
  omega

theorem Ondisk.Blocks.eq_of_fd (h : fso.Blocks) {y : Nat} {vol' : Volume}
    (hx : fso.volumeAt x = some vol) (hy : fso.volumeAt y = some vol')
    (hfd : vol'.fd.toNat = vol.fd.toNat) : vol' = vol := by
  obtain ⟨⟨i, hi, rfl⟩, -⟩ := volumeAt_mem hx
  obtain ⟨⟨j, hj, rfl⟩, -⟩ := volumeAt_mem hy
  rcases Nat.lt_trichotomy i j with hlt | heq | hlt
  · exact absurd hfd (h.apart j hj i hlt)
  · rw [heq]
  · exact absurd hfd.symm (h.apart i hi j hlt)

/-! ## Reading and writing a block -/

theorem serves_of_pread (hblocks : m.fso.Blocks) (hfits : b.ioBytes ≤ pbufSize) {data : Image}
    (h : m.pread (m.volumeFd b.ioOff) (subOff (b.ioOff - b.ioOff % lbufSize)
      (m.volumeOffset (b.ioOff - b.ioOff % lbufSize))) b.ioBytes = some data) :
    ∃ vol, m.Serves b vol := by
  have hbase := hblocks.volumeAt_base b.ioOff
  have hlt := b.ioOff_lt
  unfold Media.volumeFd Media.volumeOffset at h
  rw [hbase] at h
  cases hvol : m.fso.volumeAt b.ioOff with
  | none =>
    rw [hvol, Option.elim_none, Media.pread, if_pos (Or.inl (by decide))] at h
    cases h
  | some vol =>
    have hoff := (volumeAt_mem (hbase.trans hvol)).2
    have hle : vol.offset ≤ b.ioOff - b.ioOff % lbufSize := hoff.trans (Nat.sub_le _ _)
    rw [hvol, Option.elim_some, Option.elim_some, subOff_of_le hle (by omega), Media.pread] at h
    split at h
    · cases h
    · next hgood =>
      simp only [not_or, not_not, not_le, not_lt] at hgood
      exact ⟨vol, hfits, hvol, hbase.trans hvol, hgood.1, hle, hgood.2.1, hgood.2.2⟩

theorem serves_of_readMedia (hblocks : m.fso.Blocks) (h0 : b.size ≠ 0) {p : Nat × Image}
    (h : m.readMedia b = .ok p) : ∃ vol, m.Serves b vol := by
  unfold Media.readMedia at h
  rw [if_neg h0] at h
  split at h
  · cases h
  · next hfits =>
    dsimp only at h
    split at h
    · cases h
    · next hread => exact serves_of_pread hblocks (Nat.le_of_not_lt hfits) hread

theorem Media.Serves.readsBlock (h : m.Serves b vol) (h0 : b.size ≠ 0)
    (hwindow : b.ioOff % lbufSize + b.size ≤ b.ioBytes)
    (hinside : ∀ i < b.size, m.fso.volumeAt (b.ioOff + i) = some vol) : m.ReadsBlock b := by
  intro bytes buf hread
  rw [h.readMedia h0, Except.ok.injEq, Prod.mk.injEq] at hread
  refine ⟨hread.1.symm, fun i hi => ?_⟩
  have hmod : b.ioOff % lbufSize ≤ b.ioOff := Nat.mod_le _ _
  have hoff := h.offset
  rw [← hread.2, Media.buffer_apply _ _ hi, if_pos (by omega), Media.stored, hinside i hi,
    Option.map_some, Image.view]
  congr 2
  omega

/-- What the device has after a write. -/
def Media.wrote (m : Media) (b : Blockref) (vol : Volume) (media : Image) : Media :=
  let pos := b.ioOff - b.ioOff % lbufSize - vol.offset
  let dev := m.devs vol.fd.toNat
  let buf := ((dev.bytes.view pos).write (b.ioOff % lbufSize) (media.read 0 b.size)).read 0 b.ioBytes
  { m with devs := Function.update m.devs vol.fd.toNat { dev with bytes := dev.bytes.write pos buf } }

theorem Media.Serves.writeMedia (h : m.Serves b vol) (h0 : b.size ≠ 0)
    (hwindow : b.ioOff % lbufSize + b.size ≤ b.ioBytes) (media : Image) (writes : Bool) :
    m.writeMedia b media b.size writes =
      if writes = false then .error .writeFailed else .ok (m.wrote b vol media) := by
  have hlt := b.ioOff_lt
  have hfd : m.volumeFd b.ioOff = vol.fd := by
    rw [Media.volumeFd, h.found, Option.elim_some]
  have hpos : subOff (b.ioOff - b.ioOff % lbufSize)
      (m.volumeOffset (b.ioOff - b.ioOff % lbufSize)) =
        b.ioOff - b.ioOff % lbufSize - vol.offset := by
    rw [Media.volumeOffset, h.base, Option.elim_some, subOff_of_le h.offset (by omega)]
  have hfits := h.fits
  unfold Media.writeMedia
  rw [if_neg (by simpa using h0), if_neg (Nat.not_lt.mpr h.fits)]
  dsimp only
  rw [h.pread, hfd, hpos]
  dsimp only
  rw [if_neg (by omega)]
  rfl

theorem Media.wrote_bytes (m : Media) (b : Blockref) (vol : Volume) (media : Image) :
    ((m.wrote b vol media).devs vol.fd.toNat).bytes =
      (m.devs vol.fd.toNat).bytes.write (b.ioOff - b.ioOff % lbufSize - vol.offset)
        ((((m.devs vol.fd.toNat).bytes.view (b.ioOff - b.ioOff % lbufSize - vol.offset)).write
          (b.ioOff % lbufSize) (media.read 0 b.size)).read 0 b.ioBytes) := by
  unfold Media.wrote
  dsimp only
  rw [Function.update_self]

theorem Media.Serves.wrote (h : m.Serves b vol) (media : Image) :
    (m.wrote b vol media).Serves b vol := by
  refine ⟨h.fits, h.found, h.base, h.fd, h.offset, h.lt, ?_⟩
  unfold Media.wrote
  dsimp only
  rw [Function.update_self]
  exact h.readable

theorem Media.Serves.writesBack (h : m.Serves b vol) (h0 : b.size ≠ 0)
    (hwindow : b.ioOff % lbufSize + b.size ≤ b.ioBytes) (media : Image) (writes : Bool) :
    m.WritesBack b media writes := by
  unfold Media.WritesBack
  rw [h.writeMedia h0 hwindow]
  cases writes with
  | false => simp
  | true =>
    simp only [Bool.true_eq_false, if_false, ne_eq, reduceCtorEq, not_false_eq_true, true_and,
      Except.ok.injEq, forall_eq']
    refine ⟨_, (h.wrote media).readMedia h0, fun i hi => ?_⟩
    have hlen : b.ioOff % lbufSize + i < b.ioBytes := by omega
    rw [Media.buffer_apply _ _ hi, if_pos hlen, Media.wrote_bytes, Image.view,
      Image.write_apply_of_mem (by rwa [Image.length_read])]
    simp only [Image.read, List.getElem_map, List.getElem_range, Nat.zero_add]
    rw [Image.write_apply_of_mem (by simpa using hi)]
    simp

/-- A block that no volume has is not written. -/
theorem writeMedia_not_served (hblocks : m.fso.Blocks) (h0 : b.size ≠ 0)
    (h : ¬ ∃ vol, m.Serves b vol) (media : Image) (writes : Bool) :
    m.writeMedia b media b.size writes = .error .badIoBytes ∨
      m.writeMedia b media b.size writes = .error .readFailed := by
  unfold Media.writeMedia
  rw [if_neg (by simpa using h0)]
  split
  · exact Or.inl rfl
  · next hfits =>
    dsimp only
    split
    · exact Or.inr rfl
    · next hread => exact absurd (serves_of_pread hblocks (Nat.le_of_not_lt hfits) hread) h

end

/-- Whatever the devices and the stack have, a block is read as it is stored and as it was written,
    if and only if it is within the I/O buffer and within one volume. -/
theorem block_io_iff (icrc : Crc) (devs : Nat → Device) (blkdevs : List Devpath)
    (s : State) (h : initVolumes icrc devs blkdevs = .ok s) (b : Blockref) (hradix : b.radix ≠ 0) :
    (∀ content stale, (mediaOf s.fso devs content stale).ReadsBlock b ∧
        ∀ media writes, (mediaOf s.fso devs content stale).WritesBack b media writes) ↔
      ∀ vol, Media.Serves ⟨s.fso, devs, fun _ _ => 0⟩ b vol →
        b.Whole ∧ ∀ i < b.size, s.fso.volumeAt (b.ioOff + i) = some vol := by
  have hblocks := initVolumes_blocks h
  have h0 : b.size ≠ 0 := by
    unfold Blockref.size
    rw [if_neg hradix]
    exact (Nat.two_pow_pos _).ne'
  constructor
  · intro hall vol hserves
    have hserved : ∀ content stale, (mediaOf s.fso devs content stale).Serves b vol :=
      fun content stale =>
        ⟨hserves.fits, hserves.found, hserves.base, hserves.fd, hserves.offset, hserves.lt,
          hserves.readable⟩
    have hread : ∀ content stale, ∀ i < b.size,
        (mediaOf s.fso devs content stale).stored (b.ioOff + i) = some _ :=
      fun content stale i hi =>
        ((hall content stale).1 _ _ ((hserved content stale).readMedia h0)).2 i hi
    have hwindow : b.ioOff % lbufSize + b.size ≤ b.ioBytes := by
      -- the first byte that was not read, on devices with zeros and a stack with ones
      by_contra hlong
      have hge : lbufSize ≤ b.ioBytes := le_growIo ..
      have hmod : b.ioOff % lbufSize < lbufSize := Nat.mod_lt _ (by decide)
      have hi : b.ioBytes - b.ioOff % lbufSize < b.size := by omega
      have hbyte := hread (fun _ _ => 0) (fun _ _ => 1) _ hi
      rw [Media.buffer_apply _ _ hi, if_neg (by omega), Media.stored,
        Option.map_eq_some_iff] at hbyte
      obtain ⟨_, -, hbyte⟩ := hbyte
      have hne : (0 : UInt8) ≠ 1 := by decide
      exact hne hbyte
    refine ⟨b.whole_iff.mpr hwindow, fun i hi => ?_⟩
    -- zeros on the device of the volume and ones on all others
    have hbyte := hread (fun d _ => if d = vol.fd.toNat then 0 else 1) (fun _ _ => 0) i hi
    rw [Media.buffer_apply _ _ hi, if_pos (by omega), Media.stored, Option.map_eq_some_iff] at hbyte
    obtain ⟨vol', hvol', hbyte⟩ := hbyte
    have hfd : vol'.fd.toNat = vol.fd.toNat := by
      by_contra hne
      simp only [mediaOf, Image.view, if_pos, if_neg hne] at hbyte
      exact absurd hbyte (by decide)
    rw [← hblocks.eq_of_fd hserves.found hvol' hfd]
    exact hvol'
  · intro hcond content stale
    have hserves : ∀ vol, (mediaOf s.fso devs content stale).Serves b vol → _ := fun vol hs =>
      hcond vol ⟨hs.fits, hs.found, hs.base, hs.fd, hs.offset, hs.lt, hs.readable⟩
    constructor
    · intro bytes buf hread
      obtain ⟨vol, hs⟩ := serves_of_readMedia hblocks h0 hread
      exact hs.readsBlock h0 (b.whole_iff.mp (hserves vol hs).1) (hserves vol hs).2 bytes buf hread
    · intro media writes
      by_cases hs : ∃ vol, (mediaOf s.fso devs content stale).Serves b vol
      · obtain ⟨vol, hs⟩ := hs
        exact hs.writesBack h0 (b.whole_iff.mp (hserves vol hs).1) media writes
      · unfold Media.WritesBack
        rcases writeMedia_not_served hblocks h0 hs media writes with he | he <;> simp [he]

/-- A blockref with nothing but `data_off`. -/
def blockAt (dataOff : Nat) : Blockref :=
  ⟨List.replicate 32 0 ++ (toLE 8 dataOff ++ List.replicate 88 0), by
    rw [List.length_append, List.length_append, length_toLE]; rfl⟩

theorem block_io_small : ∃ s, initVolumes (fun _ => 0) twoDevices [.one 0, .one 1] = .ok s ∧
    ∀ content stale, (mediaOf s.fso twoDevices content stale).ReadsBlock (blockAt 0x400001) ∧
      ∀ media writes,
        (mediaOf s.fso twoDevices content stale).WritesBack (blockAt 0x400001) media writes := by
  obtain ⟨s, hs⟩ : ∃ s, initVolumes (fun _ => 0) twoDevices [.one 0, .one 1] = .ok s :=
    exists_ok (by decide +kernel)
  refine ⟨s, hs, (block_io_iff _ _ _ s hs (blockAt 0x400001) (by decide)).mpr fun vol hserves => ?_⟩
  have hsize : (blockAt 0x400001).size = 2 := by decide
  have hoff : (blockAt 0x400001).ioOff = 0x400000 := by decide
  refine ⟨by decide, fun i hi => ?_⟩
  have hfound := hserves.found
  rw [hsize] at hi
  rw [hoff] at hfound ⊢
  rw [← hfound]
  unfold Ondisk.volumeAt
  rw [show 0x400000 + i - (0x400000 + i) % 64 = 0x400000 - 0x400000 % 64 by omega]

/-- A block of 16 KB at offset 64: its last 64 bytes are what was on the stack. -/
theorem block_io_stale : ∃ s buf, initVolumes (fun _ => 0) twoDevices [.one 0, .one 1] = .ok s ∧
    (mediaOf s.fso twoDevices (fun _ _ => 0) (fun _ _ => 1)).readMedia (blockAt (64 + 14)) =
      .ok (16384, buf) ∧ buf 16383 = 1 ∧
    (mediaOf s.fso twoDevices (fun _ _ => 0) (fun _ _ => 1)).stored (64 + 16383) = some 0 := by
  obtain ⟨s, hs⟩ : ∃ s, initVolumes (fun _ => 0) twoDevices [.one 0, .one 1] = .ok s :=
    exists_ok (by decide +kernel)
  have hfacts : ∀ s, initVolumes (fun _ => 0) twoDevices [.one 0, .one 1] = .ok s →
      ((mediaOf s.fso twoDevices (fun _ _ => 0) (fun _ _ => 1)).readMedia
        (blockAt (64 + 14))).toOption.any (fun p => p.1 = 16384 ∧ p.2 16383 = 1) = true ∧
      (mediaOf s.fso twoDevices (fun _ _ => 0) (fun _ _ => 1)).stored (64 + 16383) = some 0 := by
    decide +kernel
  obtain ⟨hread, hstored⟩ := hfacts s hs
  cases h : (mediaOf s.fso twoDevices (fun _ _ => 0) (fun _ _ => 1)).readMedia
      (blockAt (64 + 14)) with
  | error e => rw [h] at hread; cases hread
  | ok p =>
    rw [h, Except.toOption, Option.any_some, decide_eq_true_eq] at hread
    exact ⟨s, p.2, hs, h.trans (by rw [← hread.1]), hread.2, hstored⟩

end Lh1.Hammer2
