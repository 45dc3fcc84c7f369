/-
  The areas that newfs_hammer2 reserves (newfs_hammer2/mkfs_hammer2.c).

  hammer2_mkfs() compares the sizes of the areas with the size of all volumes before it writes, and
  format_hammer2_misc() asserts that they end within the first 1 GB, after it has written. A last
  volume of less than 8 MB is rounded to nothing, which only the write to its last block notices.

  * `Formatted.laid`: in a filesystem that was made the regions of the root volume do not meet.
  * `tooLarge_iff`: which areas pass the comparison and fail the assertion.
  * `newfs_areas_iff`: when newfs_hammer2 gives up before it writes, or not at all, by the sizes of
    the areas that were asked for and of the devices.
-/
import Lh1.Hammer2.NewfsAccept

namespace Lh1.Hammer2

open Lib
open Lib.Image (Apart)

/-- The headers, the boot and the aux area and the inodes. -/
def Areas.regions (a : Areas) (size : Nat) : List (Nat × Nat) :=
  (writtenZones size).map (fun i => (zoneBytes * i, pbufSize)) ++
    [(zoneSeg, a.boot), (zoneSeg + a.boot, a.aux), (a.allocBase, pbufSize)]

/-- The regions do not meet, and are within the volume. -/
def Areas.Laid (a : Areas) (size : Nat) : Prop :=
  (a.regions size).Pairwise Apart ∧ ∀ r ∈ a.regions size, r.1 + r.2 ≤ size

section

variable {env : NewfsEnv} {o : MkfsOptions} {devs devs' : Nat → Device} {paths : List Nat}
  {fso : Ondisk} {a : Areas}

theorem areas_laid {size : Nat} (hsize : volumeAlign ∣ size) (hfit : a.allocBase + pbufSize ≤ size)
    (hlt : a.allocBase + pbufSize ≤ zoneBytes) : a.Laid size := by
  have hsorted : (writtenZones size).Pairwise (· < ·) :=
    List.pairwise_lt_range.sublist (List.takeWhile_sublist _)
  have hpbuf : pbufSize ≤ zoneBytes := by decide
  have halloc : a.allocBase = zoneSeg + a.boot + a.aux := rfl
  rw [halloc] at hfit hlt
  constructor
  · refine List.pairwise_append.mpr ⟨List.pairwise_map.mpr (hsorted.imp fun {i j} hij => ?_), ?_, ?_⟩
    · have hle := Nat.mul_le_mul_left zoneBytes (Nat.succ_le_of_lt hij)
      rw [Nat.mul_succ] at hle
      exact Or.inl ((Nat.add_le_add_left hpbuf _).trans hle)
    · simp [Apart, halloc]
    · intro r hr q hq
      obtain ⟨i, -, rfl⟩ := List.mem_map.mp hr
      have hq : zoneSeg ≤ q.1 ∧ q.1 + q.2 ≤ zoneBytes := by
        simp only [List.mem_cons, List.not_mem_nil, or_false, halloc] at hq
        rcases hq with rfl | rfl | rfl <;> dsimp only <;> omega
      unfold Apart
      rcases Nat.eq_zero_or_pos i with h0 | hpos
      · rw [h0]
        exact Or.inl ((show zoneBytes * 0 + pbufSize ≤ zoneSeg by decide).trans hq.1)
      · exact Or.inr (hq.2.trans (Nat.le_mul_of_pos_right _ hpos))
  · intro r hr
    rcases List.mem_append.mp hr with hr | hr
    · obtain ⟨i, hi, rfl⟩ := List.mem_map.mp hr
      exact zone_fits hsize (mem_writtenZones.mp hi).2
    · simp only [List.mem_cons, List.not_mem_nil, or_false, halloc] at hr
      rcases hr with rfl | rfl | rfl <;> dsimp only <;> omega

theorem Formatted.laid (F : Formatted env o devs paths fso devs') :
    (areas o fso.totalSize).Laid (fso.volumes 0).size := by
  refine areas_laid ?_ F.alloc ?_
  · rw [(F.volume 0 _ (List.getElem?_eq_getElem F.pos)).size]
    exact alignVolume_dvd _ _ _
  · have hlt := F.alloc_lt
    unfold level1Size at hlt
    unfold pbufSize zoneBytes
    omega

/-- The loop that formats the volumes ends when its checks hold. -/
theorem formatAll_exists {vols : List Volume} (h : ∀ vol ∈ vols, pbufSize ≤ vol.size ∧
    a.allocBase % pbufSize = 0 ∧ a.allocBase < level1Size) (devs : Nat → Device) :
    ∃ devs', vols.foldlM (formatHammer2 env o fso a) devs = .ok devs' := by
  induction vols generalizing devs with
  | nil => exact ⟨devs, rfl⟩
  | cons vol vols ih =>
    obtain ⟨hsize, halloc⟩ := h vol List.mem_cons_self
    rw [List.foldlM_cons]
    unfold formatHammer2 check
    rw [if_pos hsize, if_pos fun _ => halloc]
    exact ih (fun v hv => h v (List.mem_cons_of_mem _ hv)) _

/-- It does not complain about free space. -/
theorem formatAll_ne_freeSpace (vols : List Volume) (devs : Nat → Device) :
    vols.foldlM (formatHammer2 env o fso a) devs ≠ .error .freeSpace := by
  induction vols generalizing devs with
  | nil => exact fun h => by cases h
  | cons vol vols ih =>
    rw [List.foldlM_cons]
    unfold formatHammer2 check
    split
    · split
      · exact ih _
      · exact fun h => by cases h
    · exact fun h => by cases h

end

/-! ## Areas that are too large -/

/-- The size of an area that was asked for: at least 8 MB, in units of 8 MB. -/
def roundArea (size : Nat) : Nat := (max size volumeAlign + (volumeAlign - 1)) / volumeAlign * volumeAlign

/-- The boot area, on volumes of 640 MB and more: as asked for, or 64 MB, or 32 MB on less than
    1280 MB. -/
def bootBytes (o : MkfsOptions) (total : Nat) : Nat :=
  if o.bootAreaSize ≠ 0 then roundArea o.bootAreaSize
  else if 1342177280 ≤ total then 67108864 else 33554432

/-- An aux area was asked for that is more than 1016 MB together with the boot area. -/
def TooLarge (o : MkfsOptions) (total : Nat) : Prop :=
  o.auxAreaSize ≠ 0 ∧ 1065353216 < bootBytes o total + roundArea o.auxAreaSize

/-- The size of the volumes on these devices. -/
def volumeBytes (devs : Nat → Device) (paths : List Nat) : Nat :=
  ∑ i ∈ Finset.range paths.length, alignVolume paths.length i (devs (paths.getD i 0)).size

/-- There are several devices, of which the last one is too small for a volume. -/
def LastEmpty (devs : Nat → Device) (paths : List Nat) : Prop :=
  2 ≤ paths.length ∧ (devs (paths.getD (paths.length - 1) 0)).size < volumeAlign

section

variable {o : MkfsOptions} {total size : Nat}

theorem areaSize_given {nominal : Nat} (h : size ≠ 0) :
    areaSize size nominal total = roundArea size := by
  unfold areaSize roundArea
  rw [if_neg h]

theorem boot_of_large (h : 671088640 ≤ total) : (areas o total).boot = bootBytes o total := by
  unfold bootBytes
  split_ifs with hgiven htotal
  · exact areaSize_given hgiven
  · have h64 : halve (total / 20) 64 bootNom = 67108864 := by
      unfold halve bootNom
      rw [if_neg (by omega)]
    change areaSize o.bootAreaSize bootNom total = _
    rw [not_not.mp hgiven, areaSize, if_pos rfl, h64]
    rfl
  · have h32 : halve (total / 20) 64 bootNom = 33554432 := by
      unfold halve bootNom
      rw [if_pos (by omega), halve, if_neg (by omega)]
    change areaSize o.bootAreaSize bootNom total = _
    rw [not_not.mp hgiven, areaSize, if_pos rfl, h32]
    rfl

/-- What the two areas are at most. -/
theorem areas_bounds (o : MkfsOptions) (total : Nat) :
    (areas o total).boot ≤ 268435456 ∧ bootBytes o total ≤ 268435456 ∧
      (o.auxAreaSize = 0 → (areas o total).aux ≤ 268435456) ∧
      (o.auxAreaSize ≠ 0 → (areas o total).aux = roundArea o.auxAreaSize) ∧
      volumeAlign ∣ (areas o total).boot ∧ volumeAlign ∣ (areas o total).aux := by
  have hround : roundArea o.bootAreaSize ≤ 268435456 := by
    have := o.boot_le
    unfold roundArea volumeAlign bootMax at *
    omega
  have hdef : ∀ nominal, nominal ≤ 268435456 → areaSize 0 nominal total ≤ 268435456 := by
    intro nominal hn
    have := halve_le (total / 20) 64 nominal
    rw [areaSize, if_pos rfl]
    unfold volumeAlign
    omega
  refine ⟨?_, ?_, fun h => ?_, areaSize_given, ?_, ?_⟩
  · by_cases h : o.bootAreaSize = 0
    · change areaSize o.bootAreaSize bootNom total ≤ _
      rw [h]
      exact hdef _ (by decide)
    · exact (areaSize_given h).trans_le hround
  · unfold bootBytes
    split_ifs <;> omega
  · change areaSize o.auxAreaSize auxNom total ≤ _
    rw [h]
    exact hdef _ (by decide)
  · exact (areaSize_bounds total (o.boot_le.trans (by decide)) (by decide)).1
  · exact (areaSize_bounds total o.aux_le (by decide)).1

/-- Areas that pass the comparison with the size of the volumes and fail the assertion. -/
theorem tooLarge_iff (ht : total < 2 ^ 63) :
    (areas o total).free < 9223372036854775808 ∧ ¬ (areas o total).allocBase < level1Size ↔
      TooLarge o total ∧
        reservedBytes total + bootBytes o total + roundArea o.auxAreaSize ≤ total := by
  obtain ⟨hboot, hboot', haux0, haux, ⟨x, hx⟩, ⟨y, hy⟩⟩ := areas_bounds o total
  have hlarge := @boot_of_large o total
  rw [areas_free_iff ht, Areas.allocBase, TooLarge]
  unfold zoneSeg level1Size volumeAlign at *
  by_cases h : o.auxAreaSize = 0
  · have := haux0 h
    exact iff_of_false (by omega) fun hc => hc.1.1 h
  · rw [← haux h]
    by_cases htotal : 671088640 ≤ total
    · have := hlarge htotal
      constructor
      · rintro ⟨hroom, halloc⟩
        exact ⟨⟨h, by omega⟩, by omega⟩
      · rintro ⟨⟨-, halloc⟩, hroom⟩
        exact ⟨by omega, by omega⟩
    · exact iff_of_false (by omega) fun hc => by omega

/-- With a last device that is too small, there is free space unless the areas are too large for
    the 1 GB that is left. -/
theorem free_of_gigabytes (ht : total < 2 ^ 63) (hdvd : level1Size ∣ total) (hpos : 0 < total) :
    (areas o total).free < 9223372036854775808 ↔ ¬ (TooLarge o total ∧ total < 2147483648) := by
  obtain ⟨hboot, hboot', haux0, haux, ⟨x, hx⟩, ⟨y, hy⟩⟩ := areas_bounds o total
  have hle := (areaSize_bounds total o.aux_le (show auxNom ≤ auxMax by decide)).2
  change (areas o total).aux ≤ auxMax at hle
  obtain ⟨k, rfl⟩ := hdvd
  have hlarge := @boot_of_large o (level1Size * k)
  have hres : reservedBytes (level1Size * k) = k * 4194304 := by
    unfold reservedBytes level1Size zoneSeg
    omega
  rw [areas_free_iff ht, hres, TooLarge]
  unfold level1Size volumeAlign auxMax at *
  have hboot := hlarge (by omega)
  by_cases h : o.auxAreaSize = 0
  · have := haux0 h
    exact iff_of_true (by omega) fun hc => hc.1.1 h
  · rw [← haux h]
    constructor
    · intro hroom hc
      omega
    · intro hc
      by_cases hk : k = 1
      · have : ¬ 1065353216 < bootBytes o (1073741824 * k) + (areas o (1073741824 * k)).aux :=
          fun hlt => hc ⟨⟨h, hlt⟩, by omega⟩
        omega
      · omega

end

/-! ## The devices -/

namespace Constructed

variable {o : MkfsOptions} {devs : Nat → Device} {paths : List Nat} {fso : Ondisk}
  (C : Constructed o devs paths fso)

include C

theorem size {i : Nat} (hi : i < paths.length) :
    (fso.volumes i).size = alignVolume paths.length i (devs (paths.getD i 0)).size := by
  rw [(C.volume i _ (List.getElem?_eq_getElem hi)).size, List.getD_eq_getElem _ _ hi]

theorem totalSize (hle : paths.length ≤ maxVolumes) (hlt : volumeBytes devs paths < 2 ^ 63) :
    fso.totalSize = volumeBytes devs paths := by
  have hsizes : fso.sizes = volumeBytes devs paths := by
    rw [Ondisk.sizes, volumeBytes, ← Finset.sum_subset (Finset.range_subset_range.mpr hle)]
    · refine Finset.sum_congr rfl fun i hi => ?_
      have hi := Finset.mem_range.mp hi
      have hid := (C.volume i _ (List.getElem?_eq_getElem hi)).id
      rw [Volume.sizeIfPresent, if_neg (by omega), C.size hi]
    · intro i _ hi
      rw [Finset.mem_range, not_lt] at hi
      rw [C.rest i hi]
      rfl
  rw [C.wf.total, hsizes]
  omega

/-- The volumes in front of the last one have whole gigabytes. -/
theorem gigabytes {i : Nat} (hi : i + 1 < paths.length) :
    level1Size ≤ (fso.volumes i).size ∧ level1Size ∣ (fso.volumes i).size := by
  obtain ⟨-, hslots, -⟩ := C.wf.present_iff (C.verify2 (by omega))
  have hp : fso.Present i := by
    have hid := (C.volume i _ (List.getElem?_eq_getElem (by omega))).id
    rw [Ondisk.Present, hid]
    omega
  have hslot := hslots i hp
  rw [Ondisk.verify2, if_neg (not_not.mpr hp)] at hslot
  simp only [check_bind_ok_iff] at hslot
  have hsize := hslot.2.2
  rw [Ondisk.verifySize, if_pos (by rw [C.nvolumes]; omega)] at hsize
  simp only [check_bind_ok_iff, check_ok_iff] at hsize
  exact ⟨hsize.1, Nat.dvd_of_mod_eq_zero hsize.2⟩

/-- Without a last volume there are whole gigabytes. -/
theorem volumeBytes_of_lastEmpty (hempty : LastEmpty devs paths) :
    level1Size ∣ volumeBytes devs paths ∧ 0 < volumeBytes devs paths := by
  obtain ⟨hlen, hlast⟩ := hempty
  have hterm : ∀ i ∈ Finset.range paths.length,
      level1Size ∣ alignVolume paths.length i (devs (paths.getD i 0)).size := by
    intro i hi
    have hi := Finset.mem_range.mp hi
    rcases Nat.lt_or_ge (i + 1) paths.length with h | h
    · rw [← C.size hi]
      exact (C.gigabytes h).2
    · obtain rfl : i = paths.length - 1 := by omega
      rw [alignVolume, if_pos (by omega), Nat.mod_eq_of_lt hlast, Nat.sub_self]
      exact Nat.dvd_zero _
  refine ⟨Finset.dvd_sum hterm, ?_⟩
  have hfirst := (C.gigabytes (i := 0) (by omega)).1
  rw [C.size (by omega)] at hfirst
  have hle := Finset.single_le_sum (f := fun i =>
    alignVolume paths.length i (devs (paths.getD i 0)).size) (fun _ _ => Nat.zero_le _)
    (Finset.mem_range.mpr (show 0 < paths.length by omega))
  exact (show 0 < level1Size by decide).trans_le (hfirst.trans hle)

/-- Where there is free space, only the last of several volumes can be empty. -/
theorem fits_iff (hne : paths ≠ []) (hle : paths.length ≤ maxVolumes)
    (hlt : volumeBytes devs paths < 2 ^ 63)
    (hfree : (areas o fso.totalSize).free < 9223372036854775808) :
    (∀ i < fso.nvolumes, pbufSize ≤ (fso.volumes i).size) ↔ ¬ LastEmpty devs paths := by
  have hpos : 0 < paths.length := List.length_pos_iff.mpr hne
  have hlast := C.size (i := paths.length - 1) (by omega)
  rw [alignVolume, if_pos (by omega)] at hlast
  rw [C.nvolumes, LastEmpty]
  unfold volumeAlign pbufSize at *
  constructor
  · intro h hempty
    have := h (paths.length - 1) (by omega)
    omega
  · intro h i hi
    rcases Nat.lt_or_ge (i + 1) paths.length with hi' | hi'
    · exact (show 65536 ≤ level1Size by decide).trans (C.gigabytes hi').1
    · obtain rfl : i = paths.length - 1 := by omega
      by_cases hone : paths.length = 1
      · -- the areas are in the only volume
        have htotal := C.totalSize hle hlt
        rw [htotal, areas_free_iff hlt] at hfree
        have hbytes : volumeBytes devs paths = (fso.volumes (paths.length - 1)).size := by
          rw [volumeBytes, hone, Finset.sum_range_one, ← hone]
          exact (C.size (i := 0) (by omega)).symm.trans (by rw [hone])
        have hboot : volumeAlign ≤ (areas o (volumeBytes devs paths)).boot := by
          change volumeAlign ≤ areaSize _ _ _
          unfold areaSize volumeAlign
          dsimp only
          split <;> omega
        unfold volumeAlign at hboot
        omega
      · have := mt (fun hlt => (⟨by omega, hlt⟩ : _ ∧ _)) h
        omega

end Constructed

/-! ## The run -/

/-- What newfs_hammer2 is to do: give up before it writes, or complete with regions that do not
    meet. -/
def Orderly (env : NewfsEnv) (o : MkfsOptions) (devs : Nat → Device) (paths : List Nat) : Prop :=
  newfs env o devs paths = .error .freeSpace ∨ ∃ fso devs', newfs env o devs paths = .ok (fso, devs') ∧
    (areas o fso.totalSize).Laid (fso.volumes 0).size

section

variable {env : NewfsEnv} {o : MkfsOptions} {devs : Nat → Device} {paths : List Nat} {fso : Ondisk}

theorem newfs_of_constructed (hne : paths ≠ []) (hle : paths.length ≤ maxVolumes)
    (hcons : constructVolumes env devs paths.length 0 paths
      { initOndisk with version := o.hammer2Version, nvolumes := paths.length } = .ok fso)
    (hver : fso.verifyVolumes devs none = .ok fso) :
    newfs env o devs paths = (do
      check ((areas o fso.totalSize).free < 9223372036854775808) .freeSpace
      let devs ← ((List.range fso.nvolumes).map fso.volumes).foldlM
        (formatHammer2 env o fso (areas o fso.totalSize)) devs
      .ok (fso, devs)) := by
  have hmap : (Except.ok fso : Except Fault Ondisk).mapError NewfsError.verify = .ok fso := rfl
  have hne' : check (paths ≠ []) NewfsError.noDevice = .ok () := if_pos hne
  have hle' : check (paths.length ≤ maxVolumes) NewfsError.tooManyVolumes = .ok () := if_pos hle
  unfold newfs
  rw [hne', hle', except_ok_bind, except_ok_bind, hcons, except_ok_bind, hver, hmap,
    except_ok_bind]

/-- What the run depends on, once the volumes are accepted. -/
theorem orderly_iff (hw : ∀ path, (devs path).Works)
    (hrun : newfs env o devs paths = (do
      check ((areas o fso.totalSize).free < 9223372036854775808) .freeSpace
      let devs ← ((List.range fso.nvolumes).map fso.volumes).foldlM
        (formatHammer2 env o fso (areas o fso.totalSize)) devs
      .ok (fso, devs))) :
    Orderly env o devs paths ↔
      ((areas o fso.totalSize).free < 9223372036854775808 →
        (areas o fso.totalSize).allocBase < level1Size ∧
          ∀ i < fso.nvolumes, pbufSize ≤ (fso.volumes i).size) := by
  unfold Orderly
  constructor
  · intro h hfree
    rcases h with h | ⟨fso', devs', h, -⟩
    · rw [hrun, check, if_pos hfree, except_ok_bind] at h
      cases hfmt : ((List.range fso.nvolumes).map fso.volumes).foldlM
          (formatHammer2 env o fso (areas o fso.totalSize)) devs with
      | error e =>
        rw [hfmt] at h
        cases h
        exact absurd hfmt (formatAll_ne_freeSpace _ _)
      | ok d => rw [hfmt] at h; cases h
    · have hsame : fso' = fso := by
        rw [hrun, check_bind_ok_iff, except_bind_ok_iff] at h
        obtain ⟨-, d, -, h⟩ := h
        cases h
        rfl
      have F := newfs_ok hw h
      rw [hsame] at F
      refine ⟨F.alloc_lt, fun i hi => ?_⟩
      rw [F.nvolumes] at hi
      exact F.fits i _ (List.getElem?_eq_getElem hi)
  · intro h
    by_cases hfree : (areas o fso.totalSize).free < 9223372036854775808
    · obtain ⟨hlt, hsizes⟩ := h hfree
      have hmod := areas_allocBase o fso.totalSize
      obtain ⟨devs', hfmt⟩ : ∃ devs', ((List.range fso.nvolumes).map fso.volumes).foldlM
          (formatHammer2 env o fso (areas o fso.totalSize)) devs = .ok devs' := by
        refine formatAll_exists (fun vol hvol => ?_) devs
        obtain ⟨i, hi, rfl⟩ := List.mem_map.mp hvol
        refine ⟨hsizes i (List.mem_range.mp hi), ?_, hlt⟩
        unfold volumeAlign zoneSeg at hmod
        unfold pbufSize
        omega
      have hok : newfs env o devs paths = .ok (fso, devs') := by
        rw [hrun, check, if_pos hfree, except_ok_bind, hfmt]
        rfl
      exact Or.inr ⟨fso, devs', hok, (newfs_ok hw hok).laid⟩
    · left
      rw [hrun, check, if_neg hfree]
      rfl

end

/-- For devices whose volumes `hammer2_verify_volumes` accepts: a last device of less than 8 MB is
    noticed in time only where the areas do not fit the 1 GB in front of it, and areas of more than
    1016 MB only where they do not fit the volumes. -/
theorem newfs_areas_iff (env : NewfsEnv) (o : MkfsOptions) (devs : Nat → Device) (paths : List Nat)
    (f fso : Ondisk) (hw : ∀ path, (devs path).Works) (hne : paths ≠ [])
    (hle : paths.length ≤ maxVolumes)
    (hcons : constructVolumes env devs paths.length 0 paths
      { initOndisk with version := o.hammer2Version, nvolumes := paths.length } = .ok f)
    (hver : f.verifyVolumes devs none = .ok fso) (hlt : volumeBytes devs paths < 2 ^ 63) :
    Orderly env o devs paths ↔
      (LastEmpty devs paths →
        TooLarge o (volumeBytes devs paths) ∧ volumeBytes devs paths < 2147483648) ∧
      (TooLarge o (volumeBytes devs paths) → volumeBytes devs paths <
        reservedBytes (volumeBytes devs paths) + bootBytes o (volumeBytes devs paths) +
          roundArea o.auxAreaSize) := by
  obtain ⟨rfl, C⟩ := constructed_ok hle hcons hver
  have htotal := C.totalSize hle hlt
  have hlarge := @tooLarge_iff o _ hlt
  rw [orderly_iff hw (newfs_of_constructed hne hle hcons hver)]
  constructor
  · intro h
    refine ⟨fun hempty => ?_, fun hl => ?_⟩
    · obtain ⟨hdvd, hpos⟩ := C.volumeBytes_of_lastEmpty hempty
      by_contra hc
      have hfree := (free_of_gigabytes hlt hdvd hpos).mpr hc
      rw [← htotal] at hfree
      exact (C.fits_iff hne hle hlt hfree).mp (h hfree).2 hempty
    · by_contra hc
      obtain ⟨hfree, halloc⟩ := hlarge.mpr ⟨hl, not_lt.mp hc⟩
      rw [← htotal] at hfree halloc
      exact halloc (h hfree).1
  · rintro ⟨hempty, hl⟩ hfree
    refine ⟨?_, (C.fits_iff hne hle hlt hfree).mpr fun he => ?_⟩
    · rw [htotal] at hfree ⊢
      by_contra hc
      obtain ⟨htoo, hroom⟩ := hlarge.mp ⟨hfree, hc⟩
      exact absurd (hl htoo) (not_lt.mpr hroom)
    · obtain ⟨hdvd, hpos⟩ := C.volumeBytes_of_lastEmpty he
      rw [htotal] at hfree
      exact (free_of_gigabytes hlt hdvd hpos).mp hfree (hempty he)

def faultOf {α : Type} : Except NewfsError α → Option NewfsError
  | .error e => some e
  | .ok _ => none

def smallFile : Nat → Device := fun _ => fileDevice 67108864 blank

/-- A file of 64 MB has room for areas of 8 MB. -/
theorem newfs_areas_small : Orderly plainEnv plainMkfs smallFile [0] := by
  have hcheck : ∀ f, constructVolumes plainEnv smallFile [0].length 0 [0]
      { initOndisk with version := plainMkfs.hammer2Version, nvolumes := [0].length } = .ok f →
      (f.verifyVolumes smallFile none).isOk = true := by
    decide +kernel
  obtain ⟨f, hcons⟩ := exists_ok (x := constructVolumes plainEnv smallFile [0].length 0 [0]
      { initOndisk with version := plainMkfs.hammer2Version, nvolumes := [0].length })
    (by decide +kernel)
  obtain ⟨fso, hver⟩ := exists_ok (hcheck f hcons)
  exact (newfs_areas_iff plainEnv plainMkfs smallFile [0] f fso
    (fun _ => fileDevice_works (by decide)) (by decide) (by decide) hcons hver (by decide)).mpr
      ⟨fun h => absurd h.1 (by decide), fun h => absurd rfl h.1⟩

/-- The largest aux area that is accepted. -/
def largeAux : MkfsOptions := { plainMkfs with auxAreaSize := auxMax, aux_le := le_rfl }

/-- On 4 GB the assertion fails, after the reserved area was written. -/
theorem newfs_areas_large :
    newfs plainEnv largeAux (fun _ => fileDevice 4294967296 blank) [0] = .error .assertion := by
  have hfault : faultOf (newfs plainEnv largeAux (fun _ => fileDevice 4294967296 blank) [0]) =
      some .assertion := by
    decide +kernel
  cases h : newfs plainEnv largeAux (fun _ => fileDevice 4294967296 blank) [0] with
  | error e =>
    rw [h] at hfault
    rw [Option.some.inj hfault]
  | ok p => rw [h] at hfault; cases hfault

end Lh1.Hammer2
