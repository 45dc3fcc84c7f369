/-
  The best zone: find_best_zone of fsck_hammer2/test.c against the reader of the volume header.

  Both loops take the first header of highest `mirror_tid`. fsck_hammer2 looks at the zones below the
  volume size, gives up at the first one that it cannot read, and takes any header with a magic
  number; the reader looks at the zones of the device and takes what is valid.

  * `findBestZone_eq`: what fsck_hammer2 selects, as a first maximum.
  * `bestZone_eq_iff`: when the two select the same.
-/
import Lh1.Lib.Bytes
import Lh1.Hammer2.Device

namespace Lh1.Hammer2

open Lib

/-! ## The loop of fsck_hammer2 -/

/-- The loop of `find_best_zone` over the zones that are left, on the device of the root volume. -/
def scanZones (dev : Device) (volSize : Nat) : List Nat → Option (Nat × VolumeData) → Option Nat
  | [], best => best.map Prod.fst
  | i :: is, best =>
    if volSize ≤ zoneBytes * i then best.map Prod.fst
    else if ¬ dev.HasHeader i then none
    else if ¬ (dev.header i).GoodMagic then scanZones dev volSize is best
    else scanZones dev volSize is (keepBest best i (dev.header i))

/-- `find_best_zone`; -1 is `none`. -/
def findBestZone (dev : Device) (volSize : Nat) : Option Nat :=
  scanZones dev volSize (List.range numVolhdrs) none

/-! ## Both loops as a first maximum -/

/-- A zone that fsck_hammer2 looks at. -/
def Probed (volSize i : Nat) : Prop := i < numVolhdrs ∧ zoneBytes * i < volSize

instance (volSize i : Nat) : Decidable (Probed volSize i) :=
  inferInstanceAs (Decidable (_ ∧ _))

namespace Device

/-- The zones that fsck_hammer2 chooses from. -/
def magicZones (dev : Device) (volSize : Nat) : List Nat :=
  (List.range numVolhdrs).filter fun i => Probed volSize i ∧ (dev.header i).GoodMagic

end Device

section Spec

variable {icrc : Crc} {dev : Device} {volSize r : Nat} {is : List Nat}
  {best : Option (Nat × VolumeData)}

theorem scanZones_eq (hsort : is.Pairwise (· < ·)) (hlt : ∀ i ∈ is, i < numVolhdrs)
    (hread : ∀ i ∈ is, Probed volSize i → dev.HasHeader i) :
    scanZones dev volSize is best
      = ((is.filter fun i => Probed volSize i ∧ (dev.header i).GoodMagic).foldl
          (fun best i => keepBest best i (dev.header i)) best).map Prod.fst := by
  induction is generalizing best with
  | nil => rfl
  | cons i is ih =>
    rw [List.pairwise_cons] at hsort
    have hrest := fun best => @ih best hsort.2 (fun j hj => hlt j (List.mem_cons_of_mem i hj))
      (fun j hj => hread j (List.mem_cons_of_mem i hj))
    rw [scanZones]
    by_cases hsize : volSize ≤ zoneBytes * i
    · have hnone : ∀ j ∈ i :: is, ¬ Probed volSize j := by
        intro j hj hp
        have hij : i ≤ j := by
          rcases List.mem_cons.mp hj with rfl | hj
          · exact Nat.le_refl j
          · exact (hsort.1 j hj).le
        have := Nat.mul_le_mul_left zoneBytes hij
        have := hp.2
        omega
      rw [if_pos hsize, List.filter_eq_nil_iff.mpr, List.foldl_nil]
      intro j hj
      simp [hnone j hj]
    · have hp : Probed volSize i := ⟨hlt i List.mem_cons_self, Nat.lt_of_not_le hsize⟩
      rw [if_neg hsize, if_neg (not_not.mpr (hread i List.mem_cons_self hp))]
      by_cases hm : (dev.header i).GoodMagic
      · rw [if_neg (not_not.mpr hm), List.filter_cons_of_pos (by simp [hp, hm]),
          List.foldl_cons, hrest]
      · rw [if_pos hm, List.filter_cons_of_neg (by simp [hm]), hrest]

/-- A zone that cannot be read ends the search. -/
theorem scanZones_none (hsort : is.Pairwise (· < ·)) {i : Nat} (hi : i ∈ is)
    (hp : Probed volSize i) (hread : ¬ dev.HasHeader i) : scanZones dev volSize is best = none := by
  induction is generalizing best with
  | nil => cases hi
  | cons j is ih =>
    rw [List.pairwise_cons] at hsort
    have hji : j ≤ i := by
      rcases List.mem_cons.mp hi with rfl | hi
      · exact Nat.le_refl i
      · exact (hsort.1 i hi).le
    have hle := Nat.mul_le_mul_left zoneBytes hji
    rw [scanZones, if_neg (Nat.not_le.mpr (hle.trans_lt hp.2))]
    by_cases hj : dev.HasHeader j
    · have hi' : i ∈ is := (List.mem_cons.mp hi).resolve_left (by rintro rfl; exact hread hj)
      rw [if_neg (not_not.mpr hj), ih hsort.2 hi', ih hsort.2 hi', ite_self]
    · rw [if_pos hj]

theorem findBestZone_eq : findBestZone dev volSize
    = if ∀ i < numVolhdrs, Probed volSize i → dev.HasHeader i then
        (dev.magicZones volSize).argmax fun i => (dev.header i).mirrorTid
      else none := by
  split_ifs with h
  · rw [findBestZone, scanZones_eq List.pairwise_lt_range (fun i => List.mem_range.mp)
      (fun i hi => h i (List.mem_range.mp hi)), ← Device.magicZones, foldl_keepBest,
      Option.map_map]
    exact Option.map_id'
  · push Not at h
    obtain ⟨i, hi, hp, hread⟩ := h
    exact scanZones_none List.pairwise_lt_range (List.mem_range.mpr hi) hp hread

theorem findBestZone_eq_some_iff : findBestZone dev volSize = some r ↔
    (∀ i, Probed volSize i → dev.HasHeader i) ∧
      (Probed volSize r ∧ (dev.header r).GoodMagic) ∧
      ∀ j, Probed volSize j → (dev.header j).GoodMagic → dev.Prefers r j := by
  have hmem : ∀ i, i ∈ dev.magicZones volSize ↔
      Probed volSize i ∧ (dev.header i).GoodMagic := fun i => by
    rw [Device.magicZones, List.mem_filter, List.mem_range, decide_eq_true_eq]
    exact ⟨fun h => h.2, fun h => ⟨h.1.1, h⟩⟩
  have hread : (∀ i < numVolhdrs, Probed volSize i → dev.HasHeader i) ↔
      ∀ i, Probed volSize i → dev.HasHeader i :=
    ⟨fun h i hp => h i hp.1 hp, fun h i _ => h i⟩
  rw [findBestZone_eq, ← hread]
  split_ifs with h
  · have hsort : (dev.magicZones volSize).Pairwise (· < ·) := List.pairwise_lt_range.filter _
    rw [argmax_eq_some_iff hsort, hmem]
    constructor
    · rintro ⟨hr, hmax⟩
      exact ⟨h, hr, fun j hp hm => hmax j ((hmem j).mpr ⟨hp, hm⟩)⟩
    · rintro ⟨-, hr, hmax⟩
      exact ⟨hr, fun j hj => hmax j ((hmem j).mp hj).1 ((hmem j).mp hj).2⟩
  · exact iff_of_false (fun h => by cases h) (fun h' => h h'.1)

theorem findBestZone_eq_none_iff : findBestZone dev volSize = none ↔
    (∃ i, Probed volSize i ∧ ¬ dev.HasHeader i) ∨
      ∀ i, Probed volSize i → ¬ (dev.header i).GoodMagic := by
  rw [findBestZone_eq]
  split_ifs with h
  · have hnone : ¬ ∃ i, Probed volSize i ∧ ¬ dev.HasHeader i :=
      fun ⟨i, hp, hread⟩ => hread (h i hp.1 hp)
    rw [List.argmax_eq_none, Device.magicZones, List.filter_eq_nil_iff, or_iff_right hnone]
    simp only [List.mem_range, decide_eq_true_eq, not_and]
    exact ⟨fun h i hp => h i hp.1 hp, fun h i _ => h i⟩
  · push Not at h
    obtain ⟨i, -, hi⟩ := h
    exact iff_of_true rfl (Or.inl ⟨i, hi⟩)

end Spec

/-! ## When the two agree -/

/-- There is a valid header, and fsck_hammer2 can read all it looks at, which includes the best valid
    header, and does not prefer one that is not valid; or there is no valid header, and fsck_hammer2
    fails at a zone or finds no magic number. -/
def BestZoneAgrees (icrc : Crc) (dev : Device) (volSize : Nat) : Prop :=
  (∃ r, r ∈ dev.validZones icrc ∧ (∀ j ∈ dev.validZones icrc, dev.Prefers r j) ∧
      (∀ i, Probed volSize i → dev.HasHeader i) ∧ Probed volSize r ∧
      ∀ j, Probed volSize j → (dev.header j).GoodMagic → ¬ (dev.header j).Valid icrc →
        dev.Prefers r j) ∨
    dev.validZones icrc = [] ∧
      ((∃ i, Probed volSize i ∧ ¬ dev.HasHeader i) ∨
        ∀ i, Probed volSize i → ¬ (dev.header i).GoodMagic)

theorem bestZone_eq_iff (icrc : Crc) (dev : Device) (volSize : Nat) :
    findBestZone dev volSize = (readVolumeHeader icrc dev).map Prod.fst ↔
      BestZoneAgrees icrc dev volSize := by
  rw [BestZoneAgrees]
  cases hr : readVolumeHeader icrc dev with
  | none =>
    rw [readVolumeHeader_eq_none_iff] at hr
    rw [Option.map_none, findBestZone_eq_none_iff, hr]
    simp
  | some p =>
    obtain ⟨r, vd⟩ := p
    obtain ⟨hmem, hbest, -⟩ := readVolumeHeader_eq_some_iff.mp hr
    obtain ⟨-, -, hvalid⟩ := Device.mem_validZones.mp hmem
    rw [Option.map_some, findBestZone_eq_some_iff]
    constructor
    · rintro ⟨hread, ⟨hp, -⟩, hmax⟩
      exact Or.inl ⟨r, hmem, hbest, hread, hp, fun j hj hm _ => hmax j hj hm⟩
    · rintro (⟨q, hq, hqbest, hread, hp, hmax⟩ | ⟨hnil, -⟩)
      · -- the best valid zone is the one that the reader selects
        obtain rfl : q = r := Device.Prefers.antisymm (hqbest r hmem) (hbest q hq)
        refine ⟨hread, ⟨hp, hvalid.goodMagic⟩, fun j hj hm => ?_⟩
        by_cases hv : (dev.header j).Valid icrc
        · exact hqbest j (Device.mem_validZones.mpr ⟨hj.1, hread j hj, hv⟩)
        · exact hmax j hj hm hv
      · rw [hnil] at hmem
        cases hmem

/-! ## A torn header -/

/-- A header of a volume of 4 GB without its CRCs. -/
def bareHeader (tid : Nat) : VolumeData :=
  let blank : Image := fun _ => 0
  blank.write 0x00 (toLE 8 volumeIdHbo) |>.write 0x28 (toLE 8 (2 * zoneBytes))
    |>.write 0x30 [1] |>.write 0x78 (toLE 8 tid)

/-- `icrc_volheader` off by one. -/
def tearHeader (icrc : Crc) (vd : VolumeData) : VolumeData :=
  vd.write 0xFFFC (toLE 4 (((icrc (vd.read 0 65532)).toNat + 1) % 2 ^ 32))

/-- The first header is valid. The second one is newer, and its last CRC is wrong, as it is when the
    write of the header is cut short. -/
def tornDevice (icrc : Crc) : Device where
  opens := true
  regular := true
  ino := (1, 0)
  size := 2 * zoneBytes
  bytes := fun i =>
    if i < zoneBytes then (bareHeader 16).setCrcs icrc i
    else tearHeader icrc ((bareHeader 17).setCrcs icrc) (i - zoneBytes)
  fails := fun _ _ => false

section Torn

variable (icrc : Crc)

theorem tearHeader_not_crcsOk (vd : VolumeData) : ¬ (tearHeader icrc vd).CrcsOk icrc := by
  rintro ⟨-, -, h⟩
  have hlt := (icrc (vd.read 0 65532)).toNat_lt
  have hmod : ((icrc (vd.read 0 65532)).toNat + 1) % 2 ^ 32 < 256 ^ 4 := Nat.mod_lt _ (by decide)
  rw [VolumeData.icrcVolheader, tearHeader, Image.word_write_self hmod,
    Image.read_write_of_disjoint (by simp)] at h
  omega

theorem tornDevice_header_zero {i : Nat} (hi : i < pbufSize) :
    (tornDevice icrc).header 0 i = (bareHeader 16).setCrcs icrc i := by
  have h : 0 + i < zoneBytes := by
    rw [Nat.zero_add]
    exact hi.trans (by decide)
  rw [Device.header, Nat.mul_zero, Image.view, tornDevice]
  dsimp only
  rw [if_pos h, Nat.zero_add]

theorem tornDevice_header_one :
    (tornDevice icrc).header 1 = tearHeader icrc ((bareHeader 17).setCrcs icrc) := by
  funext i
  rw [Device.header, Nat.mul_one, Image.view, tornDevice]
  dsimp only
  rw [if_neg (by omega), Nat.add_sub_cancel_left]

/-- Both headers can be read, and no others. -/
theorem tornDevice_hasHeader {i : Nat} : (tornDevice icrc).HasHeader i ↔ i < 2 := by
  have h : zoneBytes * i + pbufSize ≤ 2 * zoneBytes ↔ i < 2 := by
    rw [zoneBytes, pbufSize]
    omega
  rw [Device.HasHeader, Device.Readable, ← h]
  exact and_iff_left rfl

theorem tornDevice_probed {i : Nat} : Probed (2 * zoneBytes) i ↔ i < 2 := by
  rw [Probed, zoneBytes, numVolhdrs]
  omega

theorem tornDevice_valid_zero : ((tornDevice icrc).header 0).Valid icrc := by
  constructor
  · rw [VolumeData.magic, Image.word_congr fun i _ hi => tornDevice_header_zero icrc
        (hi.trans_le (by decide)), VolumeData.setCrcs_word icrc _ (by decide)]
    decide +kernel
  · rw [VolumeData.crcsOk_congr fun i => tornDevice_header_zero icrc]
    exact VolumeData.setCrcs_crcsOk icrc _

theorem tornDevice_tid_zero : ((tornDevice icrc).header 0).mirrorTid = 16 := by
  rw [VolumeData.mirrorTid, Image.word_congr fun i _ hi => tornDevice_header_zero icrc
    (hi.trans_le (by decide)), VolumeData.setCrcs_word icrc _ (by decide)]
  decide +kernel

theorem tornDevice_word_one {p w : Nat} (h : p + w ≤ 0x01F8) :
    ((tornDevice icrc).header 1).word p w = (bareHeader 17).word p w := by
  rw [tornDevice_header_one, tearHeader, Image.word_write_of_disjoint (Or.inl (by omega)),
    VolumeData.setCrcs_word icrc _ (Or.inl h)]

theorem tornDevice_zones : ∃ (dev : Device) (vd : VolumeData),
    readVolumeHeader icrc dev = some (0, vd) ∧ vd.voluSize = dev.size ∧
      findBestZone dev vd.voluSize = some 1 := by
  have hmagic : ((tornDevice icrc).header 1).GoodMagic := by
    left
    rw [VolumeData.magic, tornDevice_word_one icrc (by decide)]
    decide +kernel
  have htid : ((tornDevice icrc).header 1).mirrorTid = 17 := by
    rw [VolumeData.mirrorTid, tornDevice_word_one icrc (by decide)]
    decide +kernel
  have hsize : ((tornDevice icrc).header 0).voluSize = 2 * zoneBytes := by
    rw [VolumeData.voluSize, Image.word_congr fun i _ hi => tornDevice_header_zero icrc
      (hi.trans_le (by decide)), VolumeData.setCrcs_word icrc _ (by decide)]
    decide +kernel
  refine ⟨tornDevice icrc, (tornDevice icrc).header 0, ?_, hsize, ?_⟩
  · refine readVolumeHeader_eq_some_iff.mpr ⟨Device.mem_validZones.mpr
      ⟨by decide, (tornDevice_hasHeader icrc).mpr (by decide), tornDevice_valid_zero icrc⟩,
      fun j hj => ?_, rfl⟩
    obtain ⟨-, hread, hvalid⟩ := Device.mem_validZones.mp hj
    have hj2 := (tornDevice_hasHeader icrc).mp hread
    interval_cases j
    · exact Or.inr ⟨rfl, le_rfl⟩
    · rw [tornDevice_header_one] at hvalid
      exact absurd hvalid.2 (tearHeader_not_crcsOk icrc _)
  · rw [hsize, findBestZone_eq_some_iff]
    refine ⟨fun i hi => (tornDevice_hasHeader icrc).mpr (tornDevice_probed.mp hi),
      ⟨tornDevice_probed.mpr (by decide), hmagic⟩, fun j hj _ => ?_⟩
    have hj2 := tornDevice_probed.mp hj
    interval_cases j
    · exact Or.inl (by rw [htid, tornDevice_tid_zero]; decide)
    · exact Or.inr ⟨rfl, le_rfl⟩

end Torn

/-- With the torn header in zone 1, the reader takes zone 0 and fsck takes zone 1. -/
theorem bestZone_torn : ∃ (dev : Device) (vd : VolumeData),
    readVolumeHeader iscsiCrc32 dev = some (0, vd) ∧ vd.voluSize = dev.size ∧
      findBestZone dev vd.voluSize = some 1 :=
  tornDevice_zones iscsiCrc32

end Lh1.Hammer2
