/-
  HAMMER2 devices and their volume headers (hammer2_disk.h, and hammer2_read_volume_header of
  hammer2/ondisk.c).

  A device is a regular file, the only kind that check_volume() takes for one on this host. Up to
  four volume headers are on it, at the start of each 2 GB zone. The CRC is a parameter of the model:
  nothing depends on which function it is.

  * `readVolumeHeader_eq`: the header selected is the first one of highest `mirror_tid` among the
    valid ones.
-/
import Lh1.Lib.Image
import Lh1.Lib.Order

namespace Lh1.Hammer2

open Lib

/-! ## Layout -/

/-- `HAMMER2_ZONE_BYTES64`: the distance of two volume headers. -/
def zoneBytes : Nat := 2147483648

/-- `HAMMER2_PBUFSIZE`: the size of a volume header. -/
def pbufSize : Nat := 65536

/-- `HAMMER2_NUM_VOLHDRS`. -/
def numVolhdrs : Nat := 4

/-- `HAMMER2_MAX_VOLUMES`. -/
def maxVolumes : Nat := 64

/-- `HAMMER2_VOLUME_ID_HBO`. -/
def volumeIdHbo : Nat := 0x48414d3205172011

/-- `HAMMER2_VOLUME_ID_ABO`: the same in the other byte order. -/
def volumeIdAbo : Nat := 0x11201705324d4148

/-- `struct hammer2_volume_data`, the first 64 KB of the image. -/
abbrev VolumeData := Image

namespace VolumeData

def magic (vd : VolumeData) : Nat := vd.word 0x0000 8
def voluSize (vd : VolumeData) : Nat := vd.word 0x0028 8
def version (vd : VolumeData) : Nat := vd.word 0x0030 4
def voluId (vd : VolumeData) : Nat := vd.word 0x003B 1
def nvolumes (vd : VolumeData) : Nat := vd.word 0x003C 1
def fsid (vd : VolumeData) : List UInt8 := vd.read 0x0040 16
def fstype (vd : VolumeData) : List UInt8 := vd.read 0x0050 16
def mirrorTid (vd : VolumeData) : Nat := vd.word 0x0078 8
def totalSize (vd : VolumeData) : Nat := vd.word 0x00C0 8

/-- `icrc_sects[HAMMER2_VOL_ICRC_SECT1]`. -/
def icrcSect1 (vd : VolumeData) : Nat := vd.word 0x01F8 4

/-- `icrc_sects[HAMMER2_VOL_ICRC_SECT0]`. -/
def icrcSect0 (vd : VolumeData) : Nat := vd.word 0x01FC 4

def voluLoff (vd : VolumeData) (i : Nat) : Nat := vd.word (0x0E00 + 8 * i) 8
def icrcVolheader (vd : VolumeData) : Nat := vd.word 0xFFFC 4

/-- One of the two magic numbers is there. -/
def GoodMagic (vd : VolumeData) : Prop := vd.magic = volumeIdHbo ∨ vd.magic = volumeIdAbo

instance (vd : VolumeData) : Decidable vd.GoodMagic :=
  inferInstanceAs (Decidable (_ ∨ _))

/-- The three header CRCs are right. -/
def CrcsOk (icrc : Crc) (vd : VolumeData) : Prop :=
  vd.icrcSect0 = (icrc (vd.read 0 508)).toNat ∧
    vd.icrcSect1 = (icrc (vd.read 512 512)).toNat ∧
    vd.icrcVolheader = (icrc (vd.read 0 65532)).toNat

instance (icrc : Crc) (vd : VolumeData) : Decidable (vd.CrcsOk icrc) :=
  inferInstanceAs (Decidable (_ ∧ _))

/-- A header that the reader takes: host byte order and good CRCs. -/
def Valid (icrc : Crc) (vd : VolumeData) : Prop :=
  vd.magic = volumeIdHbo ∧ vd.CrcsOk icrc

instance (icrc : Crc) (vd : VolumeData) : Decidable (vd.Valid icrc) :=
  inferInstanceAs (Decidable (_ ∧ _))

/-- Only the 64 KB of the header count. -/
theorem crcsOk_congr {icrc : Crc} {vd vd' : VolumeData}
    (h : ∀ i < pbufSize, vd i = vd' i) : vd.CrcsOk icrc ↔ vd'.CrcsOk icrc := by
  have hword : ∀ p w, p + w ≤ pbufSize → vd.word p w = vd'.word p w := fun p w hp =>
    Image.word_congr fun i _ hi => h i (hi.trans_le hp)
  have hread : ∀ p len, p + len ≤ pbufSize → vd.read p len = vd'.read p len := fun p len hp =>
    Image.read_congr fun i _ hi => h i (hi.trans_le hp)
  rw [CrcsOk, CrcsOk, icrcSect0, icrcSect1, icrcVolheader, icrcSect0, icrcSect1, icrcVolheader,
    hword _ _ (by decide), hword _ _ (by decide), hword _ _ (by decide), hread _ _ (by decide),
    hread _ _ (by decide), hread _ _ (by decide)]

/-- `icrc_sects[HAMMER2_VOL_ICRC_SECT1]` set. -/
def setSect1 (icrc : Crc) (vd : VolumeData) : VolumeData :=
  vd.write 0x01F8 (toLE 4 (icrc (vd.read 512 512)).toNat)

/-- `icrc_sects[HAMMER2_VOL_ICRC_SECT0]` set. -/
def setSect0 (icrc : Crc) (vd : VolumeData) : VolumeData :=
  vd.write 0x01FC (toLE 4 (icrc (vd.read 0 508)).toNat)

/-- `icrc_volheader` set. -/
def setVolheader (icrc : Crc) (vd : VolumeData) : VolumeData :=
  vd.write 0xFFFC (toLE 4 (icrc (vd.read 0 65532)).toNat)

/-- The three CRCs set, in the order in which one covers the other. -/
def setCrcs (icrc : Crc) (vd : VolumeData) : VolumeData :=
  ((vd.setSect1 icrc).setSect0 icrc).setVolheader icrc

theorem setCrcs_crcsOk (icrc : Crc) (vd : VolumeData) :
    (vd.setCrcs icrc).CrcsOk icrc := by
  have hlt : ∀ bs, (icrc bs).toNat < 256 ^ 4 := fun bs => (icrc bs).toNat_lt
  rw [setCrcs]
  refine ⟨?_, ?_, ?_⟩
  · rw [icrcSect0, setVolheader, Image.word_write_of_disjoint (by simp),
      Image.read_write_of_disjoint (by simp)]
    generalize vd.setSect1 icrc = vd1
    rw [setSect0, Image.word_write_self (hlt _), Image.read_write_of_disjoint (by simp)]
  · rw [icrcSect1, setVolheader, Image.word_write_of_disjoint (by simp),
      Image.read_write_of_disjoint (by simp), setSect0, Image.word_write_of_disjoint (by simp),
      Image.read_write_of_disjoint (by simp), setSect1, Image.word_write_self (hlt _),
      Image.read_write_of_disjoint (by simp)]
  · generalize (vd.setSect1 icrc).setSect0 icrc = vd0
    rw [icrcVolheader, setVolheader, Image.word_write_self (hlt _),
      Image.read_write_of_disjoint (by simp)]

/-- Nothing but the CRCs is changed. -/
theorem setCrcs_apply (icrc : Crc) (vd : VolumeData) {i : Nat}
    (h : i < 0x01F8 ∨ 0x0200 ≤ i ∧ i < 0xFFFC ∨ 0x10000 ≤ i) : vd.setCrcs icrc i = vd i := by
  rw [setCrcs, setVolheader, Image.write_apply_of_disjoint (by simp; omega), setSect0,
    Image.write_apply_of_disjoint (by simp; omega), setSect1,
    Image.write_apply_of_disjoint (by simp; omega)]

theorem setCrcs_word (icrc : Crc) (vd : VolumeData) {p w : Nat}
    (h : p + w ≤ 0x01F8 ∨ 0x0200 ≤ p ∧ p + w ≤ 0xFFFC) :
    (vd.setCrcs icrc).word p w = vd.word p w :=
  Image.word_congr fun _ _ _ => setCrcs_apply icrc vd (by omega)

theorem Valid.goodMagic {icrc : Crc} {vd : VolumeData} (h : vd.Valid icrc) :
    vd.GoodMagic :=
  Or.inl h.1

end VolumeData

/-! ## Devices -/

/-- A file that stands for a device, as the host has it. -/
structure Device where
  opens : Bool
  regular : Bool
  /-- `st_ino` and `st_dev`. -/
  ino : Nat × Nat
  size : Nat
  bytes : Image
  /-- Reads of so many bytes from here on that do not return them all, though they are there. -/
  fails : Nat → Nat → Bool

namespace Device

variable {dev : Device} {off len i : Nat}

/-- `lseek` and `read` return all the bytes that are asked for. -/
def Readable (dev : Device) (off len : Nat) : Prop :=
  off + len ≤ dev.size ∧ dev.fails off len = false

instance : Decidable (dev.Readable off len) :=
  inferInstanceAs (Decidable (_ ∧ _))

def header (dev : Device) (i : Nat) : VolumeData := dev.bytes.view (zoneBytes * i)

/-- The volume header of a zone can be read. -/
def HasHeader (dev : Device) (i : Nat) : Prop := dev.Readable (zoneBytes * i) pbufSize

instance : Decidable (dev.HasHeader i) :=
  inferInstanceAs (Decidable (dev.Readable _ _))

theorem HasHeader.lt_size (h : dev.HasHeader i) : zoneBytes * i < dev.size := by
  have h1 : zoneBytes * i + pbufSize ≤ dev.size := h.1
  have h2 : 0 < pbufSize := by decide
  omega

end Device

/-! ## Selecting a header -/

/-- The best header so far, after the header `vd` of zone `i`. -/
def keepBest (best : Option (Nat × VolumeData)) (i : Nat) (vd : VolumeData) :
    Option (Nat × VolumeData) :=
  match best with
  | none => some (i, vd)
  | some b => if b.2.mirrorTid < vd.mirrorTid then some (i, vd) else some b

/-- The loop of `hammer2_read_volume_header` over the zones that are left. -/
def readZones (icrc : Crc) (dev : Device) :
    List Nat → Option (Nat × VolumeData) → Option (Nat × VolumeData)
  | [], best => best
  | i :: is, best =>
    if dev.size ≤ zoneBytes * i then best
    else if ¬ dev.HasHeader i then readZones icrc dev is best
    else if ¬ (dev.header i).GoodMagic then readZones icrc dev is best
    else if (dev.header i).magic = volumeIdAbo then readZones icrc dev is best
    else if ¬ (dev.header i).CrcsOk icrc then readZones icrc dev is best
    else readZones icrc dev is (keepBest best i (dev.header i))

/-- `hammer2_read_volume_header`: the zone, and what is copied to `voldata`. -/
def readVolumeHeader (icrc : Crc) (dev : Device) : Option (Nat × VolumeData) :=
  readZones icrc dev (List.range numVolhdrs) none

def Device.validZones (icrc : Crc) (dev : Device) : List Nat :=
  (List.range numVolhdrs).filter fun i => dev.HasHeader i ∧ (dev.header i).Valid icrc

/-- Zone `i` is taken rather than zone `j`. -/
def Device.Prefers (dev : Device) (i j : Nat) : Prop :=
  (dev.header j).mirrorTid < (dev.header i).mirrorTid ∨
    (dev.header j).mirrorTid = (dev.header i).mirrorTid ∧ i ≤ j

section Select

variable {icrc : Crc} {dev : Device} {is : List Nat} {i j : Nat}
  {best : Option (Nat × VolumeData)}

/-- Keeping the best of some zones is taking the first maximum. -/
theorem foldl_keepBest (is : List Nat) :
    is.foldl (fun best i => keepBest best i (dev.header i)) none
      = (is.argmax fun i => (dev.header i).mirrorTid).map fun i => (i, dev.header i) := by
  induction is using List.reverseRecOn with
  | nil => rfl
  | append_singleton is i ih =>
    rw [List.foldl_append, ih, List.argmax_concat]
    cases is.argmax fun i => (dev.header i).mirrorTid with
    | none => rfl
    | some j =>
      simp only [List.foldl_cons, List.foldl_nil, Option.map_some, keepBest]
      split <;> rfl

/-- What is beyond the end of the device cannot be read, so that nothing is lost by the `break`. -/
theorem readZones_eq (hsort : is.Pairwise (· < ·)) : readZones icrc dev is best
    = (is.filter fun i => dev.HasHeader i ∧ (dev.header i).Valid icrc).foldl
        (fun best i => keepBest best i (dev.header i)) best := by
  induction is generalizing best with
  | nil => rfl
  | cons i is ih =>
    rw [List.pairwise_cons] at hsort
    rw [readZones]
    by_cases hsize : dev.size ≤ zoneBytes * i
    · have hnone : ∀ j ∈ i :: is, ¬ dev.HasHeader j := by
        intro j hj hh
        have hij : i ≤ j := by
          rcases List.mem_cons.mp hj with rfl | hj
          · exact Nat.le_refl j
          · exact (hsort.1 j hj).le
        have := Nat.mul_le_mul_left zoneBytes hij
        have := hh.lt_size
        omega
      rw [if_pos hsize, List.filter_eq_nil_iff.mpr, List.foldl_nil]
      intro j hj
      simp [hnone j hj]
    · rw [if_neg hsize]
      by_cases hh : dev.HasHeader i
      · rw [if_neg (not_not.mpr hh)]
        by_cases hv : (dev.header i).Valid icrc
        · have habo : (dev.header i).magic ≠ volumeIdAbo := by
            rw [hv.1]
            decide
          rw [if_neg (not_not.mpr hv.goodMagic), if_neg habo, if_neg (not_not.mpr hv.2),
            List.filter_cons_of_pos (by simp [hh, hv]), List.foldl_cons, ih hsort.2]
        · rw [List.filter_cons_of_neg (by simp [hv]), ih hsort.2, ih hsort.2]
          split_ifs with h1 h2 h3
          · rfl
          · exact absurd ⟨h1.resolve_right h2, h3⟩ hv
          · rfl
          · rfl
      · rw [if_pos hh, List.filter_cons_of_neg (by simp [hh]), ih hsort.2]

theorem readVolumeHeader_eq : readVolumeHeader icrc dev
    = ((dev.validZones icrc).argmax fun i => (dev.header i).mirrorTid).map
        fun i => (i, dev.header i) := by
  rw [readVolumeHeader, readZones_eq List.pairwise_lt_range, ← Device.validZones, foldl_keepBest]

theorem Device.mem_validZones :
    i ∈ dev.validZones icrc ↔ i < numVolhdrs ∧ dev.HasHeader i ∧ (dev.header i).Valid icrc := by
  simp [Device.validZones]

theorem Device.validZones_sorted (icrc : Crc) (dev : Device) :
    (dev.validZones icrc).Pairwise (· < ·) :=
  List.pairwise_lt_range.filter _

theorem Device.Prefers.antisymm (hij : dev.Prefers i j) (hji : dev.Prefers j i) : i = j := by
  unfold Device.Prefers at hij hji
  omega

theorem readVolumeHeader_eq_some_iff {vd : VolumeData} : readVolumeHeader icrc dev = some (i, vd) ↔
    i ∈ dev.validZones icrc ∧ (∀ j ∈ dev.validZones icrc, dev.Prefers i j) ∧
      vd = dev.header i := by
  have h := argmax_eq_some_iff (f := fun i => (dev.header i).mirrorTid) (m := i)
    (dev.validZones_sorted icrc)
  rw [readVolumeHeader_eq, Option.map_eq_some_iff]
  constructor
  · rintro ⟨k, hk, heq⟩
    cases heq
    exact ⟨(h.mp hk).1, (h.mp hk).2, rfl⟩
  · rintro ⟨hmem, hbest, rfl⟩
    exact ⟨i, h.mpr ⟨hmem, hbest⟩, rfl⟩

theorem readVolumeHeader_eq_none_iff :
    readVolumeHeader icrc dev = none ↔ dev.validZones icrc = [] := by
  rw [readVolumeHeader_eq, Option.map_eq_none_iff, List.argmax_eq_none]

end Select

end Lh1.Hammer2
