/-
  Whether what newfs_hammer2 has written is accepted.

  The headers that newfs_hammer2 writes are below the end of the volume, which is the size of the
  device rounded down. hammer2_read_volume_header() looks for headers up to the end of the device, so
  a header that was there before can be selected if its zone begins where the volume ends. And
  newfs_hammer2 formats block devices, which hammer2_add_volume() does not take.

  * `Formatted.selects`: without such a header, the one of zone 0 is selected.
  * `Formatted.initVolumes`: then the volumes are those that newfs_hammer2 has constructed.
  * `newfs_accepted_iff`: the result of a run that completes is accepted and passes verification
    unless there is such a header or a block device.
-/
import Lh1.Lib.Bytes
import Lh1.Hammer2.NewfsImage

namespace Lh1.Hammer2

open Lib

/-! ## Selecting a header -/

/-- A valid header of before, newer than those of newfs_hammer2, in a zone that begins behind the
    volume. -/
def Leftover (icrc : Crc) (dev : Device) (size z : Nat) : Prop :=
  z < numVolhdrs ∧ size ≤ zoneBytes * z ∧ dev.HasHeader z ∧ (dev.header z).Valid icrc ∧
    16 < (dev.header z).mirrorTid

namespace Formatted

variable {env : NewfsEnv} {o : MkfsOptions} {devs devs' : Nat → Device} {paths : List Nat}
  {fso : Ondisk} {path i z : Nat}
  (F : Formatted env o devs paths fso devs')
  (hw : ∀ path, (devs path).Works)

include F

section

variable (hi : paths[i]? = some path)
include hi

include hw in
theorem headerOf {vd : VolumeData} (h : Stored env o fso (areas o fso.totalSize) (fso.volumes i) vd)
    : HeaderOf o fso (fso.volumes i) vd := by
  have hlt : i < paths.length := (List.getElem?_eq_some_iff.mp hi).1
  have hmax : maxVolumes < 256 := by decide
  have hle := F.le_max
  have hn := F.nvolumes
  refine h.headerOf ?_ ?_ (by omega) ?_ fun j hj => ?_
  · have hsize : (fso.volumes i).size ≤ (devs path).size := by
      rw [(F.volume i path hi).size, alignVolume]
      exact Nat.sub_le _ _
    exact (hsize.trans_lt (hw path).size_lt).trans (by decide)
  · rw [(F.volume i path hi).id, Int.toNat_natCast]
    omega
  · rw [F.wf.total]
    exact Nat.mod_lt _ (by decide)
  · exact (F.volume j _ (List.getElem?_eq_getElem (hn ▸ hj))).offset_lt

/-- The header of a zone behind the volume is the one of before. -/
theorem header_behind (hz : (fso.volumes i).size ≤ zoneBytes * z) :
    (devs' path).header z = (devs path).header z := by
  funext k
  exact F.behind hi (hz.trans (Nat.le_add_right _ _))

theorem hasHeader_iff : (devs' path).HasHeader z ↔ (devs path).HasHeader z := by
  rw [F.device i path hi]
  exact Iff.rfl

include hw in
/-- A zone of the volume has a valid header of this run. -/
theorem zone_valid (hz : z ∈ writtenZones (fso.volumes i).size) :
    z ∈ (devs' path).validZones env.icrc32 ∧ ((devs' path).header z).mirrorTid = 16 := by
  obtain ⟨hz4, hlt⟩ := mem_writtenZones.mp hz
  have hstored := F.stored hi hz4 hlt
  refine ⟨Device.mem_validZones.mpr ⟨hz4, ?_, hstored.valid⟩, (F.headerOf hw hi hstored).mirrorTid⟩
  rw [F.hasHeader_iff hi]
  refine ⟨(zone_fits (F.align hi) hlt).trans ?_, (hw path).reads _ _⟩
  rw [(F.volume i path hi).size, alignVolume]
  exact Nat.sub_le _ _

theorem zone_zero : 0 ∈ writtenZones (fso.volumes i).size :=
  mem_writtenZones.mpr ⟨by decide, (show 0 < pbufSize by decide).trans_le (F.fits i path hi)⟩

include hw in
/-- Without a leftover the header of zone 0 is selected. -/
theorem selects (hno : ∀ z, ¬ Leftover env.icrc32 (devs path) (fso.volumes i).size z) :
    readVolumeHeader env.icrc32 (devs' path) = some (0, (devs' path).header 0) := by
  obtain ⟨hvalid, htid⟩ := F.zone_valid hw hi (F.zone_zero hi)
  refine readVolumeHeader_eq_some_iff.mpr ⟨hvalid, fun j hj => ?_, rfl⟩
  obtain ⟨hj4, hhas, hjvalid⟩ := Device.mem_validZones.mp hj
  rw [Device.Prefers, htid]
  rcases Nat.lt_or_ge (zoneBytes * j) (fso.volumes i).size with hlt | hge
  · have := (F.zone_valid hw hi (mem_writtenZones.mpr ⟨hj4, hlt⟩)).2
    omega
  · rw [F.header_behind hi hge] at hjvalid ⊢
    rw [F.hasHeader_iff hi] at hhas
    have hle : ((devs path).header j).mirrorTid ≤ 16 :=
      Nat.not_lt.mp fun h => hno j ⟨hj4, hge, hhas, hjvalid, h⟩
    omega

include hw in
/-- With a leftover the header that is selected is not one of this run. -/
theorem not_selects {j : Nat} (hleft : Leftover env.icrc32 (devs path) (fso.volumes i).size j)
    {vd : VolumeData} (hsel : readVolumeHeader env.icrc32 (devs' path) = some (z, vd)) :
    z ∉ writtenZones (fso.volumes i).size := by
  intro hz
  obtain ⟨hj4, hge, hhas, hjvalid, htid⟩ := hleft
  obtain ⟨-, hbest, -⟩ := readVolumeHeader_eq_some_iff.mp hsel
  rw [← F.header_behind hi hge] at hjvalid htid
  have hpref := hbest j (Device.mem_validZones.mpr ⟨hj4, (F.hasHeader_iff hi).mpr hhas, hjvalid⟩)
  have hz16 := (F.zone_valid hw hi hz).2
  rw [Device.Prefers] at hpref
  omega

end

end Formatted

/-! ## Finding the volumes -/

/-- The number of volumes in a header; version 1 has no such field. -/
def MkfsOptions.headerCount (o : MkfsOptions) (n : Nat) : Nat :=
  if 2 ≤ o.hammer2Version then n else 0

/-- The state after the volumes on the devices `done` are added. -/
structure Adding (o : MkfsOptions) (paths : List Nat) (fso : Ondisk) (done : List Nat) (f : Ondisk) :
    Prop where
  wf : f.Wf
  volumes : ∀ i, f.volumes i
    = if ∃ path ∈ done, paths[i]? = some path then fso.volumes i else initVolume
  fields : done = [] ∧ f.nvolumes = 0 ∨ f.nvolumes = o.headerCount paths.length ∧
    f.version = o.hammer2Version ∧ f.fsid = o.volFsid.bytes ∧ f.fstype = o.fsType.bytes

namespace Formatted

variable {env : NewfsEnv} {o : MkfsOptions} {devs devs' : Nat → Device} {paths : List Nat}
  {fso f : Ondisk} {path i : Nat} {done : List Nat} {vd : VolumeData}
  (F : Formatted env o devs paths fso devs')
  (hw : ∀ path, (devs path).Works)

include F

/-- What verification of the volumes has checked of each of them. -/
theorem common (hi : i < paths.length) : (fso.volumes i).offset ≠ noOffset := by
  have hcommon := (Ondisk.verifyVolumes_ok F.verified).1
  rw [Ondisk.verifyVolumesCommon] at hcommon
  simp only [check_bind_ok_iff, forM_ok_iff, List.mem_range] at hcommon
  have hslot := hcommon.2 i (hi.trans_le F.le_max)
  have hid := (F.volume i _ (List.getElem?_eq_getElem hi)).id
  have hp : fso.Present i := by
    rw [Ondisk.Present, hid]
    omega
  rw [Ondisk.verifyCommon, if_neg (not_not.mpr hp)] at hslot
  simp only [check_bind_ok_iff, check_ok_iff] at hslot
  exact hslot.2.2.2.1

theorem offset_zero : (fso.volumes 0).offset = 0 := by
  have hid := (F.volume 0 _ (List.getElem?_eq_getElem F.pos)).id
  have hp : fso.Present 0 := by
    rw [Ondisk.Present, hid]
    omega
  rcases (Ondisk.verifyVolumes_ok F.verified).2 with ⟨-, -, h2, -⟩ | ⟨-, h1, -⟩
  · rw [Ondisk.verifyVolumes2] at h2
    simp only [check_bind_ok_iff, forM_ok_iff, List.mem_range] at h2
    rcases (Ondisk.verify2_ok (h2.2.2 0 (by decide)) hp).1 with ⟨-, h⟩ | ⟨h, -⟩
    · exact h
    · exact absurd h (lt_irrefl 0)
  · rw [Ondisk.verifyVolumes1] at h1
    simp only [check_bind_ok_iff, check_ok_iff] at h1
    exact h1.2.2.2.1

theorem count : fso.count = paths.length := by
  refine count_eq F.le_max fun i => ?_
  rcases Nat.lt_or_ge i paths.length with hi | hi
  · refine iff_of_true ?_ hi
    rw [Ondisk.Present, (F.volume i _ (List.getElem?_eq_getElem hi)).id]
    omega
  · refine iff_of_false (not_not.mpr ?_) (Nat.not_lt.mpr hi)
    rw [F.rest i hi]
    rfl

theorem one_volume (hv : o.hammer2Version < 2) : paths.length = 1 := by
  have hver := F.version
  rcases (Ondisk.verifyVolumes_ok F.verified).2 with ⟨h2, -⟩ | ⟨-, h1, -⟩
  · omega
  · rw [Ondisk.verifyVolumes1, check_bind_ok_iff] at h1
    rw [← F.count]
    exact check_ok_iff.mp h1.1

theorem volume_of_header (hi : paths[i]? = some path) (h : HeaderOf o fso (fso.volumes i) vd) :
    vd.voluId = i ∧ vd.nvolumes = o.headerCount paths.length ∧
      ({ fd := path, id := vd.voluId, offset := vd.voluLoff vd.voluId, size := vd.voluSize } : Volume)
        = fso.volumes i := by
  have hlt : i < paths.length := (List.getElem?_eq_some_iff.mp hi).1
  have hdev := F.volume i path hi
  have hmax : i < maxVolumes := hlt.trans_le F.le_max
  obtain ⟨hid, hcount, hoff⟩ : vd.voluId = i ∧ vd.nvolumes = o.headerCount paths.length ∧
      vd.voluLoff i = (fso.volumes i).offset := by
    rw [MkfsOptions.headerCount]
    by_cases hv : 2 ≤ o.hammer2Version
    · obtain ⟨h1, h2, -, h4⟩ := h.multi hv
      rw [if_pos hv, h1, h2, h4 i hmax, if_pos (F.nvolumes ▸ hlt), hdev.id, F.nvolumes]
      exact ⟨Int.toNat_natCast i, rfl, rfl⟩
    · obtain ⟨h1, h2, -, h4⟩ := h.single (by omega)
      have hone := F.one_volume (by omega)
      have hi0 : i = 0 := by omega
      subst hi0
      rw [if_neg hv, h1, h2, h4 0 hmax, F.offset_zero]
      exact ⟨rfl, rfl, rfl⟩
  refine ⟨hid, hcount, ?_⟩
  rw [hid, hoff, h.size, ← hdev.fd, ← hdev.id]

include hw in
theorem addVolume (hi : paths[i]? = some path) (hreg : (devs path).regular = true)
    (hno : ∀ z, ¬ Leftover env.icrc32 (devs path) (fso.volumes i).size z)
    (hf : Adding o paths fso done f) (hnew : path ∉ done) :
    ∃ f', Hammer2.addVolume env.icrc32 devs' path f = .ok f' ∧
      Adding o paths fso (path :: done) f' := by
  have hdev := F.volume i path hi
  have hsel := F.selects hw hi hno
  have hzero := mem_writtenZones.mp (F.zone_zero hi)
  have hhdr := F.headerOf hw hi (F.stored hi hzero.1 hzero.2)
  generalize (devs' path).header 0 = vd at hsel hhdr
  obtain ⟨hid, hcount, hvol⟩ := F.volume_of_header hi hhdr
  have hlt : i < paths.length := (List.getElem?_eq_some_iff.mp hi).1
  have hmax : i < maxVolumes := hlt.trans_le F.le_max
  have hopen : (devs' path).opens = true := by
    rw [F.device i path hi]
    exact hdev.opens
  have hregular : (devs' path).regular = true := by
    rw [F.device i path hi]
    exact hreg
  have hslot : f.volumes i = initVolume := by
    rw [hf.volumes i, if_neg]
    rintro ⟨p, hp, heq⟩
    rw [hi] at heq
    cases heq
    exact hnew hp
  have hfree : ¬ f.Present i := not_not.mpr (by rw [hslot]; rfl)
  have hversion : toInt vd.version = o.hammer2Version := by
    have := o.version_lt
    rw [hhdr.version, toInt, if_pos (by omega)]
  -- the header agrees with what was found before
  obtain ⟨g, hmerge, hgvol, hgtot, hgfields⟩ : ∃ g, f.mergeHeader vd = .ok g ∧
      g.volumes = f.volumes ∧ g.totalSize = f.totalSize ∧
      (g.nvolumes = o.headerCount paths.length ∧ g.version = o.hammer2Version ∧
        g.fsid = o.volFsid.bytes ∧ g.fstype = o.fsType.bytes) := by
    rw [Ondisk.mergeHeader]
    split
    · exact ⟨_, rfl, rfl, rfl, hcount, hversion, hhdr.fsid, hhdr.fstype⟩
    · rename_i hn
      obtain ⟨h1, h2, h3, h4⟩ := hf.fields.resolve_left fun h => hn h.2
      refine ⟨f, ?_, rfl, rfl, h1, h2, h3, h4⟩
      simp only [check_bind_ok_iff, check_ok_iff]
      exact ⟨by rw [h2, hversion], by rw [h1, hcount], by rw [h3, hhdr.fsid],
        by rw [h4, hhdr.fstype], trivial⟩
  have hgwf : g.Wf := by
    refine ⟨fun j hj => ?_, ?_⟩
    · rw [Ondisk.Present, hgvol] at hj
      rw [hgvol]
      exact hf.wf.id j hj
    · rw [hgtot, hf.wf.total, Ondisk.sizes, Ondisk.sizes, hgvol]
  have hgfree : ¬ g.Present i := by
    rw [Ondisk.Present, hgvol]
    exact hfree
  refine ⟨g.install i (fso.volumes i), ?_, ⟨hgwf.install hmax hgfree hdev.id, fun j => ?_,
    Or.inr hgfields⟩⟩
  · rw [Hammer2.addVolume, hsel]
    simp only [check_bind_ok_iff, check_ok_iff]
    rw [hvol, hid]
    refine ⟨hopen, hregular, hmax, hfree, ?_⟩
    rw [hmerge]
    rfl
  · have hins : (g.install i (fso.volumes i)).volumes
        = Function.update f.volumes i (fso.volumes i) := by
      rw [Ondisk.install, hgvol]
    rw [hins]
    by_cases hj : j = i
    · subst hj
      rw [Function.update_self, if_pos ⟨path, List.mem_cons_self, hi⟩]
    · have hne : paths[j]? ≠ some path := fun heq => hj ((List.getElem?_inj
        (List.getElem?_eq_some_iff.mp heq).1 F.nodup).mp (heq.trans hi.symm))
      rw [Function.update_of_ne hj, hf.volumes j]
      simp only [List.mem_cons, exists_eq_or_imp, hne, false_or]

include hw in
theorem addDevpaths (hok : ∀ i path, paths[i]? = some path → (devs path).regular = true ∧
      ∀ z, ¬ Leftover env.icrc32 (devs path) (fso.volumes i).size z) {list : List Nat}
    (hlist : ∀ path ∈ list, path ∈ paths) (hnd : list.Nodup) (hnew : ∀ path ∈ list, path ∉ done)
    {s : State} (hs : Adding o paths fso done s.fso) :
    ∃ f', State.addDevpaths env.icrc32 devs' s (list.map .one) = .ok { s with fso := f' } ∧
      Adding o paths fso (list.reverse ++ done) f' := by
  induction list generalizing done s with
  | nil => exact ⟨s.fso, rfl, hs⟩
  | cons path list ih =>
    rw [List.nodup_cons] at hnd
    obtain ⟨i, hi⟩ := List.getElem?_of_mem (hlist path List.mem_cons_self)
    obtain ⟨hreg, hno⟩ := hok i path hi
    obtain ⟨f, hadd, hf⟩ := F.addVolume hw hi hreg hno hs (hnew path List.mem_cons_self)
    obtain ⟨f', hrest, hf'⟩ := ih (fun p hp => hlist p (List.mem_cons_of_mem _ hp)) hnd.2
      (fun p hp => List.not_mem_cons_of_ne_of_not_mem (fun heq : p = path => hnd.1 (heq ▸ hp))
        (hnew p (List.mem_cons_of_mem _ hp))) (s := { s with fso := f }) hf
    refine ⟨f', ?_, ?_⟩
    · rw [List.map_cons, State.addDevpaths, State.addDevpath, hadd]
      exact hrest
    · rw [List.reverse_cons, List.append_assoc]
      exact hf'

end Formatted

/-! ## Checking the set -/

section Check

variable {devs devs' : Nat → Device} {fso f : Ondisk}

/-- The volumes are checked against the devices' sizes and inodes only. -/
theorem verifyVolumesCommon_congr (hvol : f.volumes = fso.volumes) (hver : f.version = fso.version)
    (hino : ∀ p, (devs' p).ino = (devs p).ino) (hsize : ∀ p, (devs' p).size = (devs p).size) :
    f.verifyVolumesCommon devs' = fso.verifyVolumesCommon devs := by
  cases f
  cases fso
  dsimp only at hvol hver
  subst hvol hver
  rw [Ondisk.verifyVolumesCommon, Ondisk.verifyVolumesCommon]
  congr 2
  funext _
  congr 1
  funext i
  simp only [Ondisk.verifyCommon, Ondisk.stat, Ondisk.Present, hino, hsize]
  rfl

theorem count_congr (hvol : f.volumes = fso.volumes) : f.count = fso.count := by
  cases f
  cases fso
  dsimp only at hvol
  subst hvol
  rfl

theorem verify2_congr (hvol : f.volumes = fso.volumes) (hn : f.nvolumes = fso.nvolumes) :
    f.verify2 = fso.verify2 := by
  cases f
  cases fso
  dsimp only at hvol hn
  subst hvol hn
  rfl

end Check

namespace Formatted

variable {env : NewfsEnv} {o : MkfsOptions} {devs devs' : Nat → Device} {paths : List Nat}
  {fso f : Ondisk} {path i : Nat} {done : List Nat}
  (F : Formatted env o devs paths fso devs')
  (hw : ∀ path, (devs path).Works)

include F

theorem same_devices (path : Nat) :
    (devs' path).ino = (devs path).ino ∧ (devs' path).size = (devs path).size := by
  by_cases hp : path ∈ paths
  · obtain ⟨i, hi⟩ := List.getElem?_of_mem hp
    rw [F.device i path hi]
    exact ⟨rfl, rfl⟩
  · rw [F.others path hp]
    exact ⟨rfl, rfl⟩

theorem added (hf : Adding o paths fso done f) (hall : ∀ path ∈ paths, path ∈ done) :
    f.volumes = fso.volumes ∧ f.totalSize = fso.totalSize ∧
      f.nvolumes = o.headerCount paths.length ∧ f.version = o.hammer2Version := by
  have hvol : f.volumes = fso.volumes := by
    funext i
    rw [hf.volumes i]
    rcases Nat.lt_or_ge i paths.length with hi | hi
    · exact if_pos ⟨paths[i], hall _ (List.getElem_mem hi), List.getElem?_eq_getElem hi⟩
    · rw [F.rest i hi, ite_self]
  have hdone : done ≠ [] := by
    have := hall _ (List.getElem_mem F.pos)
    rintro rfl
    cases this
  obtain ⟨h1, h2, -⟩ := hf.fields.resolve_left fun h => hdone h.1
  refine ⟨hvol, ?_, h1, h2⟩
  rw [hf.wf.total, F.wf.total, Ondisk.sizes, Ondisk.sizes, hvol]

include hw in
/-- The root volume is found at every offset that it has. -/
theorem volumeAt (hvol : f.volumes = fso.volumes) (hn : 0 < f.nvolumes) {off : Nat}
    (hoff : off < (fso.volumes 0).size) : f.volumeAt off = some (fso.volumes 0) := by
  have h0 := List.getElem?_eq_getElem F.pos
  have hsize : (fso.volumes 0).size < 2 ^ 63 := by
    rw [(F.volume 0 _ h0).size, alignVolume]
    exact (Nat.sub_le _ _).trans_lt (hw _).size_lt
  obtain ⟨n, hn⟩ : ∃ n, f.nvolumes = n + 1 := ⟨f.nvolumes - 1, by omega⟩
  have hend : addOff 0 (fso.volumes 0).size = (fso.volumes 0).size := by
    unfold addOff
    omega
  rw [Ondisk.volumeAt, hn, List.range_succ_eq_map, List.map_cons, List.find?_cons_of_pos, hvol]
  rw [decide_eq_true_eq, hvol, F.offset_zero, hend]
  omega

/-- The set has passed the checks of all volumes before it was formatted. -/
theorem common_ok (hvol : f.volumes = fso.volumes) (hver : f.version = o.hammer2Version) :
    f.verifyVolumesCommon devs' = .ok () :=
  (verifyVolumesCommon_congr hvol (hver.trans F.version.symm) (fun p => (F.same_devices p).1)
    fun p => (F.same_devices p).2).trans (Ondisk.verifyVolumes_ok F.verified).1

/-- The header of the root volume agrees with the set. -/
theorem root_ok (hv : 2 ≤ o.hammer2Version) (hvol : f.volumes = fso.volumes)
    (htotal : f.totalSize = fso.totalSize) (hn : f.nvolumes = paths.length) {vd : VolumeData}
    (hhdr : HeaderOf o fso (fso.volumes 0) vd) : VolumeData.verifyRoot2 f vd = .ok () := by
  have hcount : f.count = paths.length := (count_congr hvol).trans F.count
  have hid := (F.volume 0 _ (List.getElem?_eq_getElem F.pos)).id
  obtain ⟨h1, h2, h3, h4⟩ := hhdr.multi hv
  rw [VolumeData.verifyRoot2]
  simp only [check_bind_ok_iff, check_ok_iff]
  rw [h1, h2, h3, hid, hn, htotal, hcount, F.nvolumes]
  refine ⟨rfl, rfl, rfl, fun i hi => ?_, fun i hi hge => ?_⟩
  · rw [h4 i (hi.trans_le F.le_max), if_pos (F.nvolumes ▸ hi)]
    exact F.common hi
  · rw [h4 i hi, if_neg (by rw [F.nvolumes]; omega)]

include hw in
theorem finish (hsel : ∀ path, paths[0]? = some path →
      readVolumeHeader env.icrc32 (devs' path) = some (0, (devs' path).header 0))
    (hvol : f.volumes = fso.volumes) (htotal : f.totalSize = fso.totalSize)
    (hn : f.nvolumes = o.headerCount paths.length) (hver : f.version = o.hammer2Version)
    (b : Bool) : State.finish env.icrc32 devs' ⟨f, b⟩
      = .ok ⟨{ f with nvolumes := paths.length }, true⟩ := by
  have h0 := List.getElem?_eq_getElem F.pos
  have hdev := F.volume 0 _ h0
  have hcount : f.count = paths.length := (count_congr hvol).trans F.count
  have hpos := F.pos
  have hcommon := F.common_ok hvol hver
  rw [MkfsOptions.headerCount] at hn
  rcases (Ondisk.verifyVolumes_ok F.verified).2 with ⟨hge, -, h2, -⟩ | ⟨hlt, h1, -⟩
  · -- version 2: the header of the root volume is read again
    have hv : 2 ≤ o.hammer2Version := by
      have := F.version
      omega
    rw [if_pos hv] at hn
    have hzero := mem_writtenZones.mp (F.zone_zero h0)
    have hhdr := F.headerOf hw h0 (F.stored h0 hzero.1 hzero.2)
    have hattr := State.getVolumeAttr_eq (s := ⟨f, true⟩) rfl (hn.trans_le F.le_max) 0
    rw [F.volumeAt hw hvol (by omega) ((show 0 < pbufSize by decide).trans_le (F.fits 0 _ h0))]
      at hattr
    have hroot : State.readRootVolumeHeader env.icrc32 devs' ⟨f, true⟩
        = .ok (some ((devs' paths[0]).header 0)) := by
      rw [State.readRootVolumeHeader, State.getVolumeFd_eq hattr, Option.elim_some, hdev.fd,
        except_ok_bind, if_neg (by omega), Int.toNat_natCast, hsel _ h0]
    have hset : f.verifyVolumes2 (some ((devs' paths[0]).header 0)) = .ok () := by
      rw [Ondisk.verifyVolumes2] at h2 ⊢
      simp only [check_bind_ok_iff, check_ok_iff] at h2 ⊢
      refine ⟨hn.trans hcount.symm, F.root_ok hv hvol htotal hn hhdr, ?_⟩
      rw [verify2_congr hvol (hn.trans F.nvolumes.symm)]
      exact h2.2.2
    have hfver : 2 ≤ f.version := by omega
    have hfpos : 0 < f.nvolumes := by omega
    rw [State.finish, hroot, except_ok_bind, Ondisk.verifyVolumes, hcommon, except_ok_bind,
      if_pos hfver, hset, except_ok_bind, check, if_pos hfpos, ← hn]
    rfl
  · -- version 1: the header has no number of volumes, so no root volume is found yet
    have hv : ¬ 2 ≤ o.hammer2Version := by
      have := F.version
      omega
    rw [if_neg hv] at hn
    have hattr := State.getVolumeAttr_eq (s := ⟨f, true⟩) rfl (hn.trans_le (Nat.zero_le _)) 0
    have hnone : f.volumeAt 0 = none := by
      rw [Ondisk.volumeAt, hn]
      rfl
    rw [hnone] at hattr
    have hroot : State.readRootVolumeHeader env.icrc32 devs' ⟨f, true⟩ = .ok none := by
      rw [State.readRootVolumeHeader, State.getVolumeFd_eq hattr]
      rfl
    have hset : f.verifyVolumes1 none = .ok { f with nvolumes := paths.length } := by
      rw [Ondisk.verifyVolumes1] at h1 ⊢
      simp only [check_bind_ok_iff, check_ok_iff] at h1 ⊢
      rw [hcount, hvol, ← F.count]
      exact ⟨h1.1, h1.2.1, h1.2.2.1, h1.2.2.2.1, h1.2.2.2.2.1, rfl⟩
    have hfver : ¬ 2 ≤ f.version := by omega
    rw [State.finish, hroot, except_ok_bind, Ondisk.verifyVolumes, hcommon, except_ok_bind,
      if_neg hfver, hset, except_ok_bind, check, if_pos hpos]
    rfl

include hw in
/-- The volumes are those that were constructed, in whatever order the devices are given. -/
theorem initVolumes (hok : ∀ i path, paths[i]? = some path → (devs path).regular = true ∧
      ∀ z, ¬ Leftover env.icrc32 (devs path) (fso.volumes i).size z) {list : List Nat}
    (hperm : list.Perm paths) :
    ∃ s, Hammer2.initVolumes env.icrc32 devs' (list.map .one) = .ok s ∧
      s.fso.nvolumes = fso.nvolumes ∧ s.fso.totalSize = fso.totalSize ∧
      s.fso.volumes = fso.volumes := by
  have hinit : Adding o paths fso [] initOndisk := by
    refine ⟨initOndisk_wf, fun i => ?_, Or.inl ⟨rfl, rfl⟩⟩
    rw [if_neg]
    · rfl
    · rintro ⟨p, hp, -⟩
      cases hp
  obtain ⟨f, hadd, hf⟩ := F.addDevpaths hw hok (fun p hp => hperm.mem_iff.mp hp)
    (hperm.nodup_iff.mpr F.nodup) (fun p _ => List.not_mem_nil)
    (s := { fso := initOndisk, initialized := false }) hinit
  obtain ⟨hvol, htotal, hn, hver⟩ := F.added hf fun p hp =>
    List.mem_append_left _ (List.mem_reverse.mpr (hperm.mem_iff.mpr hp))
  have hfin := F.finish hw (fun path hi => F.selects hw hi (hok 0 path hi).2) hvol htotal hn hver false
  refine ⟨⟨{ f with nvolumes := paths.length }, true⟩, ?_, F.nvolumes.symm, htotal, hvol⟩
  rw [Hammer2.initVolumes, State.addDevpath, check, if_pos rfl, except_ok_bind, hadd]
  exact hfin

include hw in
theorem rootVolume (h0 : paths[0]? = some path) {m : Media} (hvol : m.fso.volumes = fso.volumes)
    (hn : m.fso.nvolumes = fso.nvolumes) (hdevs : m.devs = devs') :
    RootVolume m (fso.volumes 0) (devs' path) := by
  have hfd := (F.volume 0 path h0).fd
  refine ⟨fun off hoff => F.volumeAt hw hvol ?_ hoff, F.offset_zero, by omega, ?_, ?_, F.size_le h0⟩
  · rw [hn, F.nvolumes]
    exact F.pos
  · rw [hdevs, hfd, Int.toNat_natCast]
  · rw [F.device 0 path h0]
    exact ⟨(hw path).size_lt, (hw path).reads⟩

end Formatted

/-! ## The result -/

/-- What newfs_hammer2 has written is accepted: a header of this run is selected on each device, the
    volumes are found with the ids, offsets, sizes and the total size that were computed, in whatever
    order the devices are given, and the headers and both trees of all zones pass verification. -/
structure Accepted (env : NewfsEnv) (o : MkfsOptions) (paths : List Nat) (fso : Ondisk)
    (devs : Nat → Device) : Prop where
  header : ∀ i path, paths[i]? = some path → ∃ z vd,
    readVolumeHeader env.icrc32 (devs path) = some (z, vd) ∧
      z ∈ writtenZones (fso.volumes i).size ∧
      Stored env o fso (areas o fso.totalSize) (fso.volumes i) vd
  volumes : ∀ list : List Nat, list.Perm paths → ∃ s,
    initVolumes env.icrc32 devs (list.map .one) = .ok s ∧ s.fso.nvolumes = fso.nvolumes ∧
      s.fso.totalSize = fso.totalSize ∧ s.fso.volumes = fso.volumes ∧
      ∀ (op : Opts) (stale : Nat → Image), op.codes.xxh64 = env.xxh64 →
        (Media.mk s.fso devs stale).rootSize = (fso.volumes 0).size ∧
        ∀ best, testVolumeHeader env.icrc32 ⟨s.fso, devs, stale⟩ best = false ∧
          ∀ tree, ∃ n stats, ∀ fuel ≥ n,
            testBlockref op ⟨s.fso, devs, stale⟩ tree best fuel = .ok (false, stats)

namespace Formatted

variable {env : NewfsEnv} {o : MkfsOptions} {devs devs' : Nat → Device} {paths : List Nat}
  {fso : Ondisk} {path i : Nat}
  (F : Formatted env o devs paths fso devs')
  (hw : ∀ path, (devs path).Works)

include F

include hw in
/-- Verification passes on the volumes that were found. -/
theorem fsck (op : Opts) (hcode : op.codes.xxh64 = env.xxh64) {m : Media}
    (hvol : m.fso.volumes = fso.volumes) (hn : m.fso.nvolumes = fso.nvolumes)
    (hdevs : m.devs = devs') :
    m.rootSize = (fso.volumes 0).size ∧ ∀ best, testVolumeHeader env.icrc32 m best = false ∧
      ∀ tree, ∃ n stats, ∀ fuel ≥ n, testBlockref op m tree best fuel = .ok (false, stats) := by
  have hpos := F.pos
  have h0 := List.getElem?_eq_getElem hpos
  have hroot := F.rootVolume hw h0 hvol hn hdevs
  have hsize := hroot.rootSize ((show 0 < pbufSize by decide).trans_le (F.fits 0 _ h0))
  have hread : ∀ z, zoneBytes * z < m.rootSize →
      m.pread (m.volumeFd 0) (subOff (zoneBytes * z) (m.volumeOffset 0)) pbufSize
        = some ((devs' paths[0]).header z) := fun z hz =>
    hroot.pread_zone (zone_fits (F.align h0) (hsize ▸ hz))
  refine ⟨hsize, fun best => ⟨testHeaders_passes best fun z hz hlt => ⟨_, hread z hlt, ?_⟩,
    fun tree => testZones_passes best (fun z hz hlt => ⟨?_, ?_⟩) [] fun e he => absurd he
      List.not_mem_nil⟩⟩
  · have hvalid := (F.stored h0 (List.mem_range.mp hz) (hsize ▸ hlt)).valid
    exact ⟨hvalid.goodMagic, hvalid.2⟩
  · rw [Media.zoneRead, hread z hlt]
    rfl
  · exact F.sound_zone h0 hroot hcode (List.mem_range.mp hz) (hsize ▸ hlt) tree

omit F in
/-- A volume that is added is on a regular file. -/
theorem regular_of_addDevpaths {icrc : Crc} {list : List Nat} {s s' : State}
    (h : State.addDevpaths icrc devs s (list.map .one) = .ok s') (hp : path ∈ list) :
    (devs path).regular = true := by
  induction list generalizing s with
  | nil => cases hp
  | cons p list ih =>
    rw [List.map_cons, State.addDevpaths] at h
    obtain ⟨t, ht, h⟩ := except_bind_ok_iff.mp h
    rcases List.mem_cons.mp hp with rfl | hp
    · rw [State.addDevpath] at ht
      obtain ⟨f, hadd, -⟩ := except_bind_ok_iff.mp ht
      rw [Hammer2.addVolume] at hadd
      simp only [check_bind_ok_iff, check_ok_iff] at hadd
      exact hadd.2.1
    · exact ih h hp

include hw in
/-- What is accepted has no leftover header, and is on regular files. -/
theorem clean_of_accepted (h : Accepted env o paths fso devs') (hi : paths[i]? = some path) :
    (devs path).regular = true ∧
      ∀ z, ¬ Leftover env.icrc32 (devs path) (fso.volumes i).size z := by
  constructor
  · obtain ⟨s, hs, -⟩ := h.volumes paths (List.Perm.refl _)
    rw [Hammer2.initVolumes, State.addDevpath, check_bind_ok_iff] at hs
    obtain ⟨t, ht, -⟩ := except_bind_ok_iff.mp hs.2
    have := regular_of_addDevpaths ht (List.mem_of_getElem? hi)
    rwa [F.device i path hi] at this
  · intro z hleft
    obtain ⟨j, vd, hsel, hj, -⟩ := h.header i path hi
    exact F.not_selects hw hi hleft hsel hj

end Formatted

/-- For a run that completes: what it has written is accepted and passes verification exactly when
    all devices are regular files and no device has, in a zone that begins behind its volume, a valid
    header of before that is newer than the new ones. -/
theorem newfs_accepted_iff (env : NewfsEnv) (o : MkfsOptions) (devs devs' : Nat → Device)
    (paths : List Nat) (fso : Ondisk) (hw : ∀ path, (devs path).Works)
    (h : newfs env o devs paths = .ok (fso, devs')) :
    Accepted env o paths fso devs' ↔ ∀ i path, paths[i]? = some path →
      (devs path).regular = true ∧
        ∀ z, ¬ Leftover env.icrc32 (devs path) (alignVolume paths.length i (devs path).size) z := by
  have F := newfs_ok hw h
  have hsize : ∀ i path, paths[i]? = some path →
      alignVolume paths.length i (devs path).size = (fso.volumes i).size := fun i path hi =>
    (F.volume i path hi).size.symm
  constructor
  · intro hacc i path hi
    rw [hsize i path hi]
    exact F.clean_of_accepted hw hacc hi
  · intro hclean
    have hok : ∀ i path, paths[i]? = some path → (devs path).regular = true ∧
        ∀ z, ¬ Leftover env.icrc32 (devs path) (fso.volumes i).size z := by
      intro i path hi
      rw [← hsize i path hi]
      exact hclean i path hi
    refine ⟨fun i path hi => ?_, fun list hperm => ?_⟩
    · have hzero := F.zone_zero hi
      obtain ⟨hz4, hlt⟩ := mem_writtenZones.mp hzero
      exact ⟨0, _, F.selects hw hi (hok i path hi).2, hzero, F.stored hi hz4 hlt⟩
    · obtain ⟨s, hs, hn, htotal, hvol⟩ := F.initVolumes hw hok hperm
      exact ⟨s, hs, hn, htotal, hvol, fun op stale hcode => F.fsck hw op hcode hvol hn rfl⟩

/-! ## Two runs -/

def zeroUuid : Uuid := ⟨List.replicate 16 0, by decide⟩

/-- No option is given, and there is no label but LOCAL. -/
def plainMkfs : MkfsOptions where
  hammer2Version := 2
  version_ge := by decide
  version_lt := by decide
  bootAreaSize := 0
  boot_le := by decide
  auxAreaSize := 0
  aux_le := by decide
  labels := []
  labels_le := by decide
  defaultLabelType := .none
  defaultLabel := fun h => absurd rfl h
  volFsid := zeroUuid
  fsType := zeroUuid
  supClid := zeroUuid
  supFsid := zeroUuid
  pfsClid := fun _ => zeroUuid
  pfsFsid := fun _ => zeroUuid
  now := 0

def plainEnv : NewfsEnv where
  icrc32 := iscsiCrc32
  xxh64 := fun _ => 0
  dirhash := fun _ => 0
  sector := fun _ => none

def fileDevice (size : Nat) (bytes : Image) : Device where
  opens := true
  regular := true
  ino := (1, 1)
  size := size
  bytes := bytes
  fails := fun _ _ => false

theorem fileDevice_works {size : Nat} {bytes : Image} (h : size < 2 ^ 63) :
    (fileDevice size bytes).Works :=
  ⟨h, fun _ _ => rfl⟩

/-- A file of 64 MB has no zone behind the volume. -/
theorem newfs_accepted_small : ∃ fso devs',
    newfs plainEnv plainMkfs (fun _ => fileDevice 67108864 blank) [0] = .ok (fso, devs') ∧
      Accepted plainEnv plainMkfs [0] fso devs' := by
  obtain ⟨⟨fso, devs'⟩, h⟩ := exists_ok (x := newfs plainEnv plainMkfs
    (fun _ => fileDevice 67108864 blank) [0]) (by decide +kernel)
  refine ⟨fso, devs', h, (newfs_accepted_iff plainEnv plainMkfs _ devs' [0] fso
    (fun _ => fileDevice_works (by decide)) h).mpr fun i path hi => ⟨rfl, fun z hz => ?_⟩⟩
  obtain ⟨-, hbehind, ⟨hfits, -⟩, -⟩ := hz
  have hi0 : i = 0 := by
    have := (List.getElem?_eq_some_iff.mp hi).1
    rw [List.length_singleton] at this
    omega
  subst hi0
  have hsize : alignVolume [0].length 0 (fileDevice 67108864 blank).size = 67108864 := by decide
  rw [hsize] at hbehind
  change zoneBytes * z + pbufSize ≤ 67108864 at hfits
  unfold pbufSize at hfits
  omega

/-- A valid header of a later transaction. -/
def staleHeader : VolumeData :=
  VolumeData.setCrcs iscsiCrc32 (blank.writes [(0x00, toLE 8 volumeIdHbo), (0x78, toLE 8 17)])

/-- A file with such a header at 2 GB, where the volume ends. -/
def staleDevice : Device :=
  fileDevice (zoneBytes + pbufSize) fun k => if k < zoneBytes then 0 else staleHeader (k - zoneBytes)

theorem staleDevice_header : staleDevice.header 1 = staleHeader := by
  funext k
  have hge : ¬ zoneBytes * 1 + k < zoneBytes := by omega
  have hsub : zoneBytes * 1 + k - zoneBytes = k := by omega
  exact (if_neg hge).trans (by rw [hsub])

theorem staleHeader_word {p v : Nat} (hm : (p, toLE 8 v) ∈
    [(0x00, toLE 8 volumeIdHbo), (0x78, toLE 8 17)]) (hv : v < 256 ^ 8) (hp : p + 8 ≤ 0x01F8) :
    staleHeader.word p 8 = v := by
  rw [staleHeader, VolumeData.setCrcs_word _ _ (Or.inl hp)]
  exact Image.word_writes_of_mem (by decide) hm hv

theorem staleDevice_leftover : Leftover iscsiCrc32 staleDevice zoneBytes 1 := by
  refine ⟨by decide, by decide, by decide, ?_, ?_⟩
  · rw [staleDevice_header]
    exact ⟨staleHeader_word (by simp) (by decide) (by decide), VolumeData.setCrcs_crcsOk _ _⟩
  · rw [staleDevice_header]
    have htid : staleHeader.mirrorTid = 17 := staleHeader_word (by simp) (by decide) (by decide)
    omega

/-- The run completes, and its result is not accepted. -/
theorem newfs_not_accepted : ∃ fso devs',
    newfs plainEnv plainMkfs (fun _ => staleDevice) [0] = .ok (fso, devs') ∧
      ¬ Accepted plainEnv plainMkfs [0] fso devs' := by
  obtain ⟨⟨fso, devs'⟩, h⟩ := exists_ok (x := newfs plainEnv plainMkfs (fun _ => staleDevice) [0])
    (by decide +kernel)
  have hw : ∀ path : Nat, ((fun _ => staleDevice) path : Device).Works := fun _ =>
    fileDevice_works (by decide)
  have F := newfs_ok hw h
  refine ⟨fso, devs', h, fun hacc => ?_⟩
  have hsize : (fso.volumes 0).size = zoneBytes := by
    rw [(F.volume 0 0 rfl).size]
    decide
  refine (F.clean_of_accepted hw hacc (show [0][0]? = some 0 from rfl)).2 1 ?_
  rw [hsize]
  exact staleDevice_leftover

end Lh1.Hammer2
