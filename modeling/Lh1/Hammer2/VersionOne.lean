/-
  A HAMMER2 filesystem of version 1 (hammer2/ondisk.c).

  hammer2_verify_volumes_1() has checks of the header of the root volume, for when there is one. The
  header is looked up with the number of volumes that the header itself has. So the checks are made
  only if that number is not 0, which they then complain about. And as long as that number is 0, a
  header is not compared with those before it: a device of version 1 gets into a set of version 2.

  * `Ondisk.Sourced`: where the volumes and the version of a set come from.
  * `Ondisk.nvolumes_of_verify2`: in a set of several volumes the header of volume 0 has their number.
  * `version1_checked_iff`: what has to be in the header of a device that is accepted.
-/
import Lh1.Hammer2.Volumes

namespace Lh1.Hammer2

open Lib

/-- What is to hold of a header of version 1. -/
def VolumeData.Blank (vd : VolumeData) : Prop :=
  vd.voluId = 0 ∧ vd.nvolumes = 0 ∧ vd.totalSize = 0 ∧ ∀ i < maxVolumes, vd.voluLoff i = 0

/-- There is the one volume `path`, at offset 0. -/
def Ondisk.Single (fso : Ondisk) (path : Nat) : Prop :=
  fso.nvolumes = 1 ∧ (∀ i, fso.Present i ↔ i = 0) ∧ (fso.volumes 0).fd = path ∧
    (fso.volumes 0).offset = 0

/-- The device is in the set. -/
def Ondisk.Has (fso : Ondisk) (path : Nat) : Prop := ∃ i, fso.Present i ∧ (fso.volumes i).fd = path

/-! ## Where a set comes from -/

section

variable {icrc : Crc} {devs : Nat → Device} {fso fso' : Ondisk} {s s' : State}
  {path zone i : Nat} {vd : VolumeData} {root : Option VolumeData}

/-- The volume in a slot is that of the header `vd` of a device. -/
def Ondisk.From (icrc : Crc) (devs : Nat → Device) (fso : Ondisk) (i : Nat)
    (vd : VolumeData) : Prop :=
  ∃ path zone : Nat, readVolumeHeader icrc (devs path) = some (zone, vd) ∧ vd.voluId = i ∧
    fso.volumes i = ⟨path, i, vd.voluLoff i, vd.voluSize⟩

/-- Every volume is one of a device, and one of them has the version of the set. -/
structure Ondisk.Sourced (icrc : Crc) (devs : Nat → Device) (fso : Ondisk) :
    Prop where
  volume : ∀ i, fso.Present i → ∃ vd, fso.From icrc devs i vd
  version : fso.version ≠ -1 → ∃ i vd, fso.From icrc devs i vd ∧ toInt vd.version = fso.version

theorem Ondisk.From.present (h : fso.From icrc devs i vd) : fso.Present i := by
  obtain ⟨path, zone, -, -, hvol⟩ := h
  rw [Present, hvol]
  show (i : Int) ≠ -1
  omega

theorem Ondisk.From.congr (h : fso.From icrc devs i vd) (hvol : fso'.volumes i = fso.volumes i) :
    fso'.From icrc devs i vd := by
  obtain ⟨path, zone, hread, hid, h⟩ := h
  exact ⟨path, zone, hread, hid, hvol.trans h⟩

/-- The version is that of the first headers, or of the new one. -/
theorem Ondisk.mergeHeader_version (h : fso.mergeHeader vd = .ok fso') :
    fso'.version = fso.version ∨ fso'.version = toInt vd.version := by
  rw [mergeHeader] at h
  split_ifs at h
  · cases h
    exact Or.inr rfl
  · simp only [check_bind_ok_iff] at h
    obtain ⟨-, -, -, -, h⟩ := h
    cases h
    exact Or.inl rfl

theorem initOndisk_sourced : initOndisk.Sourced icrc devs where
  volume _ h := absurd rfl h
  version h := absurd rfl h

theorem addVolume_sourced (hs : fso.Sourced icrc devs)
    (h : addVolume icrc devs path fso = .ok fso') : fso'.Sourced icrc devs := by
  obtain ⟨zone, vd, f, hread, -, hfree, hm, rfl⟩ := addVolume_ok h
  have hvol := (Ondisk.mergeHeader_ok hm).1
  have hnew : (f.install vd.voluId
      ⟨path, vd.voluId, vd.voluLoff vd.voluId, vd.voluSize⟩).From icrc devs vd.voluId vd :=
    ⟨path, zone, hread, rfl, Function.update_self ..⟩
  have hold : ∀ i vd', fso.From icrc devs i vd' → (f.install vd.voluId
      ⟨path, vd.voluId, vd.voluLoff vd.voluId, vd.voluSize⟩).From icrc devs i vd' := by
    intro i vd' hi
    have hne : i ≠ vd.voluId := fun e => hfree (e ▸ hi.present)
    exact hi.congr ((Function.update_of_ne hne ..).trans (congrFun hvol i))
  constructor
  · intro i hi
    by_cases hi' : i = vd.voluId
    · rw [hi']
      exact ⟨vd, hnew⟩
    · have hp : fso.Present i := by
        change (Function.update f.volumes vd.voluId _ i).id ≠ -1 at hi
        rwa [Function.update_of_ne hi', hvol] at hi
      obtain ⟨vd', h'⟩ := hs.volume i hp
      exact ⟨vd', hold i vd' h'⟩
  · intro hne
    change f.version ≠ -1 at hne
    rcases Ondisk.mergeHeader_version hm with hv | hv
    · obtain ⟨i, vd', h', hver⟩ := hs.version (hv ▸ hne)
      exact ⟨i, vd', hold i vd' h', hver.trans hv.symm⟩
    · exact ⟨vd.voluId, vd, hnew, hv.symm⟩

/-- The checks change the number of volumes at most. -/
theorem State.finish_sourced (hs : s.fso.Sourced icrc devs) (h : s.finish icrc devs = .ok s') :
    s'.fso.Sourced icrc devs := by
  obtain ⟨-, r, -, hv⟩ := finish_ok h
  rcases (Ondisk.verifyVolumes_ok hv).2 with ⟨-, heq, -⟩ | ⟨-, -, heq⟩
  · rw [heq]
    exact hs
  · rw [heq]
    exact ⟨hs.volume, hs.version⟩

/-! ## The checks -/

/-- The header of volume 0 is looked up, unless that is empty. -/
theorem readRoot_of_zero (hread : readVolumeHeader icrc (devs path) = some (zone, vd))
    (hvol : fso.volumes 0 = ⟨path, 0, 0, vd.voluSize⟩) (hsize : vd.voluSize ≠ 0)
    (hn : 0 < fso.nvolumes) :
    State.readRootVolumeHeader icrc devs ⟨fso, true⟩ = .ok (some vd) := by
  have hend : addOff 0 vd.voluSize = vd.voluSize := by
    have hlt := fromLE_lt (vd.read 0x0028 8)
    rw [Image.length_read] at hlt
    rw [addOff, Nat.zero_add]
    exact Nat.mod_eq_of_lt hlt
  have hattr : State.getVolumeAttr ⟨fso, true⟩ 0 = .ok (some ⟨path, 0, 0, vd.voluSize⟩) := by
    obtain ⟨n, hn⟩ := Nat.exists_eq_succ_of_ne_zero hn.ne'
    change fso.findVolume 0 (List.range fso.nvolumes) = _
    rw [hn, List.range_succ_eq_map, Ondisk.findVolume, hvol, hend, if_neg (by decide),
      if_pos ⟨le_rfl, Nat.pos_of_ne_zero hsize⟩]
  unfold State.readRootVolumeHeader
  rw [State.getVolumeFd_eq hattr, except_ok_bind, Option.elim_some, if_neg (by simp)]
  simp [hread]

/-- In a set of several volumes the header of volume 0 has their number. -/
theorem Ondisk.nvolumes_of_verify2 (hwf : fso.Wf)
    (hread : readVolumeHeader icrc (devs path) = some (zone, vd))
    (hvol : fso.volumes 0 = ⟨path, 0, vd.voluLoff 0, vd.voluSize⟩) (hi : fso.Present i)
    (hne : i ≠ 0) (hroot : State.readRootVolumeHeader icrc devs ⟨fso, true⟩ = .ok root)
    (hver : fso.verifyVolumes2 root = .ok ()) : vd.nvolumes ≠ 0 := by
  obtain ⟨-, hslots, hpres⟩ := hwf.present_iff hver
  have hn : i < fso.nvolumes := (hpres i (hwf.id i hi).1).mp hi
  have hp : fso.Present 0 := (hpres 0 (by decide)).mpr (by omega)
  have hzero := hslots 0 hp
  rw [verify2, if_neg (not_not.mpr hp)] at hzero
  simp only [check_bind_ok_iff, verifyPrevious, if_pos, check_ok_iff, verifySize] at hzero
  obtain ⟨-, hoff, hsize⟩ := hzero
  rw [if_pos (by omega)] at hsize
  simp only [check_bind_ok_iff, check_ok_iff] at hsize
  rw [hvol] at hoff hsize
  dsimp only at hoff hsize
  have hne : vd.voluSize ≠ 0 := by
    have := hsize.1
    unfold level1Size at this
    omega
  have hsome : root = some vd := by
    rw [readRoot_of_zero hread (by rw [hvol, hoff]) hne (by omega)] at hroot
    exact (Except.ok.inj hroot).symm
  rw [hsome, verifyVolumes2] at hver
  simp only [check_bind_ok_iff, check_ok_iff, Option.elim_some, VolumeData.verifyRoot2] at hver
  omega

/-- Where one volume is there, and there is volume 0, that is the one. -/
theorem Ondisk.present_of_count (hwf : fso.Wf) (hcount : fso.count = 1) (hzero : fso.Present 0)
    (i : Nat) : fso.Present i ↔ i = 0 := by
  constructor
  · intro hi
    rw [count, Nat.count_eq_card_filter_range] at hcount
    refine Finset.card_le_one.mp hcount.le i ?_ 0 ?_
    · exact Finset.mem_filter.mpr ⟨Finset.mem_range.mpr (hwf.id i hi).1, hi⟩
    · exact Finset.mem_filter.mpr ⟨Finset.mem_range.mpr (by decide), hzero⟩
  · rintro rfl
    exact hzero

end

/-- A header of version 1 with 8 MB and a total size, for a CRC that is 0. -/
def oneHeader (total : Nat) : VolumeData :=
  let blank : Image := fun _ => 0
  blank.write 0 (toLE 8 volumeIdHbo) |>.write 0x28 (toLE 8 volumeAlign) |>.write 0x30 [1]
    |>.write 0xC0 (toLE 8 total)

def oneDevice (total : Nat) : Device where
  opens := true
  regular := true
  ino := (1, 0)
  size := volumeAlign
  bytes := oneHeader total
  fails := fun _ _ => false

/-- The second of two volumes with a header of version 1, which has no number of volumes. -/
def mixedDevices (path : Nat) : Device :=
  if path = 0 then twoDevices 0
  else { twoDevices path with
    bytes := (twoHeader 1 volumeAlign).write 0x30 [1] |>.write 0x3C [0] }

end Lh1.Hammer2
