/-
  The volumes of a HAMMER2 filesystem: finding them and looking them up (hammer2/ondisk.c).

  hammer2_init_volumes() opens the devices it is given, takes each one's volume from the header that
  is selected there, and checks the set. The set that is accepted is what hammer2_get_volume_attr()
  then looks offsets up in. A device is named by its number, which is also the descriptor when it is
  open; what an element of the list of devices expands to in fstab is part of the input. Descriptors
  do not run out, and stat() of an open device does not fail.

  * `Ondisk.Wf`: what adding volumes keeps, whatever is added.
  * `Ondisk.Wf.tiled`: a set that has passed the checks is a tiling of `[0, total_size)`.
  * `volumes_partition`: offsets are found in the volume they lie in, and nowhere else.
-/
import Lh1.Lib.Fallible
import Lh1.Hammer2.Device

namespace Lh1.Hammer2

open Lib

/-! ## The state -/

/-- `HAMMER2_VOLUME_ALIGN64`. -/
def volumeAlign : Nat := 8388608

/-- `HAMMER2_FREEMAP_LEVEL1_SIZE`. -/
def level1Size : Nat := 1073741824

/-- `(hammer2_off_t)-1`. -/
def noOffset : Nat := 18446744073709551615

/-- Addition of `hammer2_off_t`. -/
def addOff (a b : Nat) : Nat := (a + b) % 18446744073709551616

/-- The cast of a `uint32_t` to `int`. -/
def toInt (n : Nat) : Int := if n < 2147483648 then n else n - 4294967296

/-- `struct hammer2_volume`. -/
structure Volume where
  fd : Int
  id : Int
  offset : Nat
  size : Nat
  deriving DecidableEq, Repr

/-- `hammer2_init_volume`. -/
def initVolume : Volume where
  fd := -1
  id := -1
  offset := noOffset
  size := noOffset

/-- `struct hammer2_ondisk`. -/
structure Ondisk where
  version : Int
  nvolumes : Nat
  volumes : Nat → Volume
  totalSize : Nat
  fsid : List UInt8
  fstype : List UInt8

/-- `hammer2_init_ondisk`. -/
def initOndisk : Ondisk where
  version := -1
  nvolumes := 0
  volumes := fun _ => initVolume
  totalSize := 0
  fsid := List.replicate 16 0
  fstype := List.replicate 16 0

/-- `fso` and `hammer2_volumes_initialized`. -/
structure State where
  fso : Ondisk
  initialized : Bool

/-- The ways to end: the messages of errx(), assert(), and accesses outside of an array. -/
inductive Fault where
  | open (path : Nat)
  | fileType (path : Nat)
  | badVolumeId (path i : Nat)
  | volumeInitialized (i : Nat)
  | versionMismatch
  | countMismatch
  | fsidMismatch
  | fstypeMismatch
  | noHeaders (path : Nat)
  | badVersion
  | specifiedTwice (i : Nat)
  | badFd (i : Nat)
  | badOffset (i : Nat)
  | badSize (i : Nat)
  | exceedsDevice (i : Nat)
  | oneVolume
  | rootId
  | rootCount
  | rootTotalSize
  | rootOffset
  | nonzeroId
  | nonzeroOffset
  | offsetAlign (i : Nat)
  | inconsistentId (i : Nat)
  | inconsistentOffset (i : Nat)
  | sizeMin (i : Nat)
  | sizeAlign (i : Nat)
  | alreadyInitialized
  | rootHeader
  | assertion
  | outOfBounds
  deriving DecidableEq, Repr

/-! ## Adding a volume -/

def Ondisk.Present (fso : Ondisk) (i : Nat) : Prop := (fso.volumes i).id ≠ -1

instance (fso : Ondisk) (i : Nat) : Decidable (fso.Present i) :=
  inferInstanceAs (Decidable (_ ≠ _))

/-- All headers must have the same version, number of volumes and uuids. -/
def Ondisk.mergeHeader (fso : Ondisk) (vd : VolumeData) : Except Fault Ondisk :=
  if fso.nvolumes = 0 then
    .ok { fso with version := toInt vd.version, nvolumes := vd.nvolumes, fsid := vd.fsid
                   fstype := vd.fstype }
  else do
    check (fso.version = toInt vd.version) .versionMismatch
    check (fso.nvolumes = vd.nvolumes) .countMismatch
    check (fso.fsid = vd.fsid) .fsidMismatch
    check (fso.fstype = vd.fstype) .fstypeMismatch
    .ok fso

/-- `hammer2_install_volume`, and the new total size. -/
def Ondisk.install (fso : Ondisk) (i : Nat) (vol : Volume) : Ondisk :=
  { fso with volumes := Function.update fso.volumes i vol
             totalSize := addOff fso.totalSize vol.size }

/-- `hammer2_add_volume`. -/
def addVolume (icrc : Crc) (devs : Nat → Device) (path : Nat) (fso : Ondisk) :
    Except Fault Ondisk := do
  check ((devs path).opens = true) (.open path)
  check ((devs path).regular = true) (.fileType path)
  match readVolumeHeader icrc (devs path) with
  | none => .error (.noHeaders path)
  | some (_, vd) => do
    check (vd.voluId < maxVolumes) (.badVolumeId path vd.voluId)
    check (¬ fso.Present vd.voluId) (.volumeInitialized vd.voluId)
    let fso ← fso.mergeHeader vd
    .ok (fso.install vd.voluId
      { fd := path, id := vd.voluId, offset := vd.voluLoff vd.voluId, size := vd.voluSize })

/-! ## Looking up -/

/-- The loop of `hammer2_get_volume_attr` over the volumes that are left. -/
def Ondisk.findVolume (fso : Ondisk) (offset : Nat) : List Nat → Except Fault (Option Volume)
  | [] => .ok none
  | i :: is =>
    if maxVolumes ≤ i then .error .outOfBounds
    else if (fso.volumes i).offset ≤ offset ∧
        offset < addOff (fso.volumes i).offset (fso.volumes i).size then
      .ok (some (fso.volumes i))
    else fso.findVolume offset is

/-- `hammer2_get_volume_attr`: the volume that the callback gets. -/
def State.getVolumeAttr (s : State) (offset : Nat) : Except Fault (Option Volume) := do
  check (s.initialized = true) .assertion
  s.fso.findVolume (offset - offset % 64) (List.range s.fso.nvolumes)

/-- `hammer2_get_volume_fd`. -/
def State.getVolumeFd (s : State) (offset : Nat) : Except Fault Int := do
  let vol ← s.getVolumeAttr offset
  .ok (vol.elim (-1) Volume.fd)

/-- `hammer2_read_root_volume_header`. -/
def State.readRootVolumeHeader (icrc : Crc) (devs : Nat → Device) (s : State) :
    Except Fault (Option VolumeData) := do
  let fd ← s.getVolumeFd 0
  if fd = -1 then .ok none
  else
    match readVolumeHeader icrc (devs fd.toNat) with
    | none => .error .rootHeader
    | some (_, vd) => .ok (some vd)

/-! ## Checking the set -/

/-- The number of volumes that are there. -/
def Ondisk.count (fso : Ondisk) : Nat := Nat.count fso.Present maxVolumes

/-- `st[i]`, as calloc() and fstat() leave it. -/
def Ondisk.stat (devs : Nat → Device) (fso : Ondisk) (i : Nat) : Nat × Nat :=
  if fso.Present i then (devs (fso.volumes i).fd.toNat).ino else (0, 0)

/-- The loop body of `hammer2_verify_volumes_common`; `st` has as many elements as there are
    volumes, but is indexed by volume id. -/
def Ondisk.verifyCommon (devs : Nat → Device) (fso : Ondisk) (i : Nat) : Except Fault Unit :=
  if ¬ fso.Present i then .ok ()
  else do
    check (i < fso.count) .outOfBounds
    check (∀ j < i, fso.stat devs i ≠ fso.stat devs j) (.specifiedTwice i)
    check ((fso.volumes i).fd ≠ -1) (.badFd i)
    check ((fso.volumes i).offset ≠ noOffset) (.badOffset i)
    check ((fso.volumes i).size ≠ noOffset) (.badSize i)
    check ((fso.volumes i).size ≤ (devs (fso.volumes i).fd.toNat).size) (.exceedsDevice i)

/-- `hammer2_verify_volumes_common`. -/
def Ondisk.verifyVolumesCommon (devs : Nat → Device) (fso : Ondisk) : Except Fault Unit := do
  check (fso.version ≠ -1) .badVersion
  (List.range maxVolumes).forM (fso.verifyCommon devs)

/-- The check of the volume header in `hammer2_verify_volumes_1`. -/
def VolumeData.verifyRoot1 (vd : VolumeData) : Except Fault Unit := do
  check (vd.voluId = 0) .rootId
  check (vd.nvolumes = 0) .rootCount
  check (vd.totalSize = 0) .rootTotalSize
  check (∀ i < maxVolumes, vd.voluLoff i = 0) .rootOffset

/-- `hammer2_verify_volumes_1`. -/
def Ondisk.verifyVolumes1 (fso : Ondisk) (rootvoldata : Option VolumeData) :
    Except Fault Ondisk := do
  check (fso.count = 1) .oneVolume
  rootvoldata.elim (.ok ()) VolumeData.verifyRoot1
  check ((fso.volumes 0).id = 0) .nonzeroId
  check ((fso.volumes 0).offset = 0) .nonzeroOffset
  check ((fso.volumes 0).size % volumeAlign = 0) (.sizeAlign 0)
  .ok { fso with nvolumes := fso.count }

/-- The check of the volume header in `hammer2_verify_volumes_2`. -/
def VolumeData.verifyRoot2 (fso : Ondisk) (vd : VolumeData) : Except Fault Unit := do
  check (vd.voluId = 0) .rootId
  check (vd.nvolumes = fso.nvolumes) .rootCount
  check (vd.totalSize = fso.totalSize) .rootTotalSize
  check (∀ i < fso.count, vd.voluLoff i ≠ noOffset) .rootOffset
  check (∀ i < maxVolumes, fso.count ≤ i → vd.voluLoff i = noOffset) .rootOffset

/-- A volume against the one before it. -/
def Ondisk.verifyPrevious (fso : Ondisk) (i : Nat) : Except Fault Unit :=
  if i = 0 then check ((fso.volumes i).offset = 0) .nonzeroOffset
  else do
    check ((fso.volumes i).id = (fso.volumes (i - 1)).id + 1) (.inconsistentId i)
    check ((fso.volumes i).offset
      = addOff (fso.volumes (i - 1)).offset (fso.volumes (i - 1)).size) (.inconsistentOffset i)

/-- The size of the last volume, and of the others. -/
def Ondisk.verifySize (fso : Ondisk) (i : Nat) : Except Fault Unit :=
  if i + 1 ≠ fso.nvolumes then do
    check (level1Size ≤ (fso.volumes i).size) (.sizeMin i)
    check ((fso.volumes i).size % level1Size = 0) (.sizeAlign i)
  else check ((fso.volumes i).size % volumeAlign = 0) (.sizeAlign i)

/-- The loop body of `hammer2_verify_volumes_2`. -/
def Ondisk.verify2 (fso : Ondisk) (i : Nat) : Except Fault Unit :=
  if ¬ fso.Present i then .ok ()
  else do
    check ((fso.volumes i).offset % level1Size = 0) (.offsetAlign i)
    fso.verifyPrevious i
    fso.verifySize i

/-- `hammer2_verify_volumes_2`. -/
def Ondisk.verifyVolumes2 (fso : Ondisk) (rootvoldata : Option VolumeData) :
    Except Fault Unit := do
  check (fso.nvolumes = fso.count) .countMismatch
  rootvoldata.elim (.ok ()) (VolumeData.verifyRoot2 fso)
  (List.range maxVolumes).forM fso.verify2

/-- `hammer2_verify_volumes`. -/
def Ondisk.verifyVolumes (devs : Nat → Device) (fso : Ondisk) (rootvoldata : Option VolumeData) :
    Except Fault Ondisk := do
  fso.verifyVolumesCommon devs
  if 2 ≤ fso.version then do
    fso.verifyVolumes2 rootvoldata
    check (0 < fso.nvolumes) .assertion
    .ok fso
  else do
    let fso ← fso.verifyVolumes1 rootvoldata
    check (0 < fso.nvolumes) .assertion
    .ok fso

/-! ## Initialization -/

/-- An element of the list of devices: a device, or what it is in fstab, which is a list again. -/
inductive Devpath where
  | one (path : Nat)
  | more (list : List Devpath)

/-- What `hammer2_init_volumes` does after the devices are added. -/
def State.finish (icrc : Crc) (devs : Nat → Device) (s : State) :
    Except Fault State := do
  let rootvoldata ← State.readRootVolumeHeader icrc devs { s with initialized := true }
  let fso ← s.fso.verifyVolumes devs rootvoldata
  .ok { fso := fso, initialized := true }

mutual

/-- The loop body of `hammer2_init_volumes`, which calls itself for what is a list. -/
def State.addDevpath (icrc : Crc) (devs : Nat → Device) (s : State) :
    Devpath → Except Fault State
  | .one path => do
    let fso ← addVolume icrc devs path s.fso
    .ok { s with fso := fso }
  | .more list => do
    check (s.initialized = false) .alreadyInitialized
    let s ← State.addDevpaths icrc devs { s with fso := initOndisk } list
    s.finish icrc devs

def State.addDevpaths (icrc : Crc) (devs : Nat → Device) (s : State) :
    List Devpath → Except Fault State
  | [] => .ok s
  | path :: paths => do
    let s ← State.addDevpath icrc devs s path
    State.addDevpaths icrc devs s paths

end

/-- `hammer2_init_volumes`, for the first time. -/
def initVolumes (icrc : Crc) (devs : Nat → Device) (blkdevs : List Devpath) :
    Except Fault State :=
  State.addDevpath icrc devs { fso := initOndisk, initialized := false } (.more blkdevs)

/-! ## What adding volumes keeps -/

section Wf

variable {icrc : Crc} {devs : Nat → Device} {fso fso' : Ondisk} {s s' : State}
  {path i : Nat} {vd : VolumeData} {vol : Volume} {rootvoldata : Option VolumeData}

/-- The size of a volume, if it is there. -/
def Volume.sizeIfPresent (vol : Volume) : Nat := if vol.id = -1 then 0 else vol.size

/-- The sizes of the volumes that are there. -/
def Ondisk.sizes (fso : Ondisk) : Nat :=
  ∑ i ∈ Finset.range maxVolumes, (fso.volumes i).sizeIfPresent

/-- Every volume is in the slot of its id, and the total size is the sum. -/
structure Ondisk.Wf (fso : Ondisk) : Prop where
  id : ∀ i, fso.Present i → i < maxVolumes ∧ (fso.volumes i).id = i
  total : fso.totalSize = fso.sizes % 18446744073709551616

theorem initOndisk_wf : initOndisk.Wf where
  id i h := absurd rfl h
  total := by
    have h : initOndisk.sizes = 0 := Finset.sum_eq_zero fun i _ => if_pos rfl
    rw [h]
    rfl

theorem Ondisk.mergeHeader_ok (h : fso.mergeHeader vd = .ok fso') :
    fso'.volumes = fso.volumes ∧ fso'.totalSize = fso.totalSize := by
  rw [mergeHeader] at h
  split_ifs at h
  · cases h
    exact ⟨rfl, rfl⟩
  · simp only [check_bind_ok_iff] at h
    obtain ⟨-, -, -, -, h⟩ := h
    cases h
    exact ⟨rfl, rfl⟩

theorem Ondisk.install_sizes (hi : i < maxVolumes) (hfree : ¬ fso.Present i) (hid : vol.id ≠ -1) :
    (fso.install i vol).sizes = fso.sizes + vol.size := by
  have hterm : ∀ j, ((fso.install i vol).volumes j).sizeIfPresent
      = (fso.volumes j).sizeIfPresent + if i = j then vol.size else 0 := by
    intro j
    by_cases hj : i = j
    · subst hj
      have hvol : (fso.install i vol).volumes i = vol := Function.update_self ..
      rw [hvol, Volume.sizeIfPresent, Volume.sizeIfPresent, if_neg hid,
        if_pos (not_not.mp hfree), if_pos rfl, Nat.zero_add]
    · have hvol : (fso.install i vol).volumes j = fso.volumes j :=
        Function.update_of_ne (Ne.symm hj) ..
      rw [hvol, if_neg hj, Nat.add_zero]
  rw [sizes, Finset.sum_congr rfl fun j _ => hterm j, Finset.sum_add_distrib, Finset.sum_ite_eq,
    if_pos (Finset.mem_range.mpr hi), sizes]

theorem Ondisk.Wf.install (hwf : fso.Wf) (hi : i < maxVolumes) (hfree : ¬ fso.Present i)
    (hid : vol.id = i) : (fso.install i vol).Wf where
  id j hj := by
    by_cases hij : j = i
    · subst hij
      have hvol : (fso.install j vol).volumes j = vol := Function.update_self ..
      rw [hvol]
      exact ⟨hi, hid⟩
    · have hvol : (fso.install i vol).volumes j = fso.volumes j := Function.update_of_ne hij ..
      rw [Present, hvol] at hj
      rw [hvol]
      exact hwf.id j hj
  total := by
    rw [install_sizes hi hfree (by omega)]
    change addOff fso.totalSize vol.size = _
    rw [hwf.total, addOff, Nat.mod_add_mod]

/-- What is added is the volume of the header that is selected. -/
theorem addVolume_ok (h : addVolume icrc devs path fso = .ok fso') :
    ∃ zone vd f, readVolumeHeader icrc (devs path) = some (zone, vd) ∧ vd.voluId < maxVolumes ∧
      ¬ fso.Present vd.voluId ∧ fso.mergeHeader vd = .ok f ∧
      fso' = f.install vd.voluId ⟨path, vd.voluId, vd.voluLoff vd.voluId, vd.voluSize⟩ := by
  rw [addVolume] at h
  simp only [check_bind_ok_iff] at h
  obtain ⟨-, -, h⟩ := h
  split at h
  · cases h
  · next zone vd hread =>
      simp only [check_bind_ok_iff, check_ok_iff] at h
      obtain ⟨hi, hfree, h⟩ := h
      obtain ⟨f, hm, h⟩ := except_bind_ok_iff.mp h
      cases h
      exact ⟨zone, vd, f, hread, hi, hfree, hm, rfl⟩

theorem addVolume_wf (hwf : fso.Wf) (h : addVolume icrc devs path fso = .ok fso') : fso'.Wf := by
  obtain ⟨zone, vd, f, -, hi, hfree, hm, rfl⟩ := addVolume_ok h
  obtain ⟨hvol, htot⟩ := Ondisk.mergeHeader_ok hm
  have hp : ∀ j, f.Present j ↔ fso.Present j := fun j => by
    rw [Ondisk.Present, Ondisk.Present, hvol]
  have hf : f.Wf := {
    id := fun j hj => by rw [hvol]; exact hwf.id j ((hp j).mp hj)
    total := by rw [htot, hwf.total, Ondisk.sizes, Ondisk.sizes, hvol] }
  exact hf.install hi (fun hj => hfree ((hp _).mp hj)) rfl

theorem Ondisk.verifyVolumes_ok (h : fso.verifyVolumes devs rootvoldata = .ok fso') :
    fso.verifyVolumesCommon devs = .ok () ∧
      ((2 ≤ fso.version ∧ fso' = fso ∧ fso.verifyVolumes2 rootvoldata = .ok () ∧
          0 < fso.nvolumes) ∨
        (fso.version < 2 ∧ fso.verifyVolumes1 rootvoldata = .ok fso' ∧
          fso' = { fso with nvolumes := fso.count })) := by
  rw [verifyVolumes] at h
  simp only [check_bind_ok_iff] at h
  obtain ⟨hcommon, h⟩ := h
  refine ⟨hcommon, ?_⟩
  split_ifs at h with hver
  · simp only [check_bind_ok_iff, check_ok_iff] at h
    obtain ⟨h2, hpos, h⟩ := h
    cases h
    exact Or.inl ⟨hver, rfl, h2, hpos⟩
  · obtain ⟨f, h1, h⟩ := except_bind_ok_iff.mp h
    simp only [check_bind_ok_iff] at h
    cases h.2
    have hf := h1
    rw [verifyVolumes1] at hf
    simp only [check_bind_ok_iff] at hf
    obtain ⟨-, -, -, -, -, hf⟩ := hf
    cases hf
    exact Or.inr ⟨by omega, h1, rfl⟩

/-- What is accepted has been verified, together with the header of the root volume. -/
theorem State.finish_ok (h : s.finish icrc devs = .ok s') :
    s'.initialized = true ∧ ∃ rootvoldata,
      State.readRootVolumeHeader icrc devs { s with initialized := true } = .ok rootvoldata ∧
      s.fso.verifyVolumes devs rootvoldata = .ok s'.fso := by
  obtain ⟨r, hr, h⟩ := except_bind_ok_iff.mp h
  obtain ⟨f, hv, h⟩ := except_bind_ok_iff.mp h
  cases h
  exact ⟨rfl, r, hr, hv⟩

theorem State.finish_wf (hwf : s.fso.Wf) (h : s.finish icrc devs = .ok s') : s'.fso.Wf := by
  obtain ⟨-, r, -, hv⟩ := finish_ok h
  rcases (Ondisk.verifyVolumes_ok hv).2 with ⟨-, heq, -⟩ | ⟨-, -, heq⟩
  · rw [heq]
    exact hwf
  · rw [heq]
    exact ⟨hwf.id, hwf.total⟩

section Inv

variable {P : Ondisk → Prop} (hinit : P initOndisk)
  (hadd : ∀ {path fso fso'}, P fso → addVolume icrc devs path fso = .ok fso' → P fso')
  (hfinish : ∀ {s s' : State}, P s.fso → s.finish icrc devs = .ok s' → P s'.fso)

include hinit hadd hfinish

mutual

/-- What an empty set has, and adding a volume and the checks keep, all sets have. -/
theorem State.addDevpath_inv : ∀ (p : Devpath) {s s' : State}, P s.fso →
    State.addDevpath icrc devs s p = .ok s' → P s'.fso
  | .one path, s, s', hs, h => by
    rw [addDevpath] at h
    obtain ⟨f, ha, h⟩ := except_bind_ok_iff.mp h
    cases h
    exact hadd hs ha
  | .more list, s, s', hs, h => by
    rw [addDevpath, check_bind_ok_iff] at h
    obtain ⟨t, ha, h⟩ := except_bind_ok_iff.mp h.2
    exact hfinish (addDevpaths_inv list hinit ha) h

theorem State.addDevpaths_inv : ∀ (ps : List Devpath) {s s' : State}, P s.fso →
    State.addDevpaths icrc devs s ps = .ok s' → P s'.fso
  | [], s, s', hs, h => by
    rw [addDevpaths] at h
    cases h
    exact hs
  | p :: ps, s, s', hs, h => by
    rw [addDevpaths] at h
    obtain ⟨t, ha, h⟩ := except_bind_ok_iff.mp h
    exact addDevpaths_inv ps (addDevpath_inv p hs ha) h

end

theorem initVolumes_inv {blkdevs : List Devpath} (h : initVolumes icrc devs blkdevs = .ok s) :
    ∃ t : State, P t.fso ∧ t.finish icrc devs = .ok s := by
  rw [initVolumes, State.addDevpath, check_bind_ok_iff] at h
  obtain ⟨t, ha, h⟩ := except_bind_ok_iff.mp h.2
  exact ⟨t, State.addDevpaths_inv hinit hadd hfinish blkdevs hinit ha, h⟩

end Inv

/-- A set that is accepted is well formed and has passed the checks. -/
theorem initVolumes_ok {blkdevs : List Devpath} (h : initVolumes icrc devs blkdevs = .ok s) :
    ∃ t : State, t.fso.Wf ∧ t.finish icrc devs = .ok s :=
  initVolumes_inv initOndisk_wf addVolume_wf State.finish_wf h

end Wf

/-! ## The set as a tiling -/

/-- The offset at which a volume of a gapless set begins. -/
def Ondisk.start (fso : Ondisk) (i : Nat) : Nat := ∑ j ∈ Finset.range i, (fso.volumes j).size

/-- The volumes, in the order of their ids, follow each other without a gap. -/
structure Ondisk.Tiled (fso : Ondisk) : Prop where
  le_max : fso.nvolumes ≤ maxVolumes
  present : ∀ i < maxVolumes, fso.Present i ↔ i < fso.nvolumes
  id : ∀ i < fso.nvolumes, (fso.volumes i).id = i
  offset : ∀ i < fso.nvolumes, (fso.volumes i).offset = fso.start i
  align : ∀ i < fso.nvolumes, 64 ∣ (fso.volumes i).size
  total : fso.totalSize = fso.start fso.nvolumes

/-- The offsets that a volume is responsible for. -/
def Volume.Covers (vol : Volume) (offset : Nat) : Prop :=
  vol.offset ≤ offset ∧ offset < vol.offset + vol.size

instance (vol : Volume) (offset : Nat) : Decidable (vol.Covers offset) :=
  inferInstanceAs (Decidable (_ ∧ _))

/-- A set from which with every number the one before it is, is an initial segment. -/
theorem lt_count_iff {p : Nat → Prop} [DecidablePred p] (h : ∀ i, p (i + 1) → p i) {m i : Nat}
    (hi : i < m) : i < Nat.count p m ↔ p i := by
  have hdown : ∀ j, p j → ∀ i ≤ j, p i := by
    intro j
    induction j with
    | zero => intro hj i hi; rwa [Nat.le_zero.mp hi]
    | succ j ih =>
      intro hj i hi
      rcases Nat.lt_or_eq_of_le hi with hlt | rfl
      · exact ih (h j hj) i (Nat.lt_succ_iff.mp hlt)
      · exact hj
  constructor
  · intro hlt
    by_contra hnot
    -- the numbers counted are all below i
    have hcount : Nat.count p m = Nat.count p i := by
      obtain ⟨k, rfl⟩ := Nat.exists_eq_add_of_le hi.le
      have hnone : Nat.count (fun j => p (i + j)) k = 0 :=
        Nat.count_iff_forall_not.mpr fun j _ hj => hnot (hdown _ hj i (Nat.le_add_right i j))
      rw [Nat.count_add, hnone, Nat.add_zero]
    have := Nat.count_le p (n := i)
    omega
  · intro hp
    have hall : Nat.count p i = i := Nat.count_iff_forall.mpr fun j hj => hdown i hp j hj.le
    have := Nat.count_strict_mono hp hi
    omega

section Tiled

variable {fso : Ondisk} {rootvoldata : Option VolumeData} {i j offset : Nat}

theorem Ondisk.start_mono (fso : Ondisk) : Monotone fso.start := fun _ _ h =>
  Finset.sum_le_sum_of_subset (Finset.range_subset_range.mpr h)

theorem Ondisk.start_succ : fso.start (i + 1) = fso.start i + (fso.volumes i).size :=
  Finset.sum_range_succ _ i

theorem Ondisk.verify2_ok (h : fso.verify2 i = .ok ()) (hp : fso.Present i) :
    (i = 0 ∧ (fso.volumes i).offset = 0 ∨
        0 < i ∧ (fso.volumes i).id = (fso.volumes (i - 1)).id + 1 ∧
          (fso.volumes i).offset
            = addOff (fso.volumes (i - 1)).offset (fso.volumes (i - 1)).size) ∧
      volumeAlign ∣ (fso.volumes i).offset ∧ volumeAlign ∣ (fso.volumes i).size := by
  rw [verify2, if_neg (not_not.mpr hp)] at h
  simp only [check_bind_ok_iff, check_ok_iff] at h
  obtain ⟨hoff, hprev, hsize⟩ := h
  have hlevel : volumeAlign ∣ level1Size := by decide
  refine ⟨?_, hlevel.trans (Nat.dvd_of_mod_eq_zero hoff), ?_⟩
  · rw [verifyPrevious] at hprev
    split_ifs at hprev with h0
    · exact Or.inl ⟨h0, check_ok_iff.mp hprev⟩
    · simp only [check_bind_ok_iff, check_ok_iff] at hprev
      exact Or.inr ⟨by omega, hprev⟩
  · rw [verifySize] at hsize
    split_ifs at hsize
    · simp only [check_bind_ok_iff, check_ok_iff] at hsize
      exact hlevel.trans (Nat.dvd_of_mod_eq_zero hsize.2)
    · exact Nat.dvd_of_mod_eq_zero (check_ok_iff.mp hsize)

/-- The volumes that are there are in the first slots, and each has passed its checks. -/
theorem Ondisk.Wf.present_iff (hwf : fso.Wf) (hver : fso.verifyVolumes2 rootvoldata = .ok ()) :
    fso.nvolumes = fso.count ∧ (∀ i, fso.Present i → fso.verify2 i = .ok ()) ∧
      ∀ i < maxVolumes, fso.Present i ↔ i < fso.nvolumes := by
  rw [verifyVolumes2] at hver
  simp only [check_bind_ok_iff, check_ok_iff, forM_ok_iff, List.mem_range] at hver
  obtain ⟨hcount, -, hslots⟩ := hver
  have hslot : ∀ i, fso.Present i → fso.verify2 i = .ok () := fun i hp => hslots i (hwf.id i hp).1
  have hdown : ∀ i, fso.Present (i + 1) → fso.Present i := by
    intro i hp
    rcases (verify2_ok (hslot _ hp) hp).1 with ⟨h0, -⟩ | ⟨-, hid, -⟩
    · omega
    · rw [(hwf.id _ hp).2, Nat.add_sub_cancel] at hid
      intro habs
      omega
  refine ⟨hcount, hslot, fun i hi => ?_⟩
  rw [hcount, count, lt_count_iff hdown hi]

theorem Ondisk.Wf.tiled (hwf : fso.Wf) (hver : fso.verifyVolumes2 rootvoldata = .ok ())
    (hsum : fso.sizes < 2 ^ 63) : fso.Tiled := by
  obtain ⟨hcount, hslots, hpres⟩ := hwf.present_iff hver
  have hslot : ∀ i, fso.Present i → _ := fun i hp => verify2_ok (hslots i hp) hp
  have hle : fso.nvolumes ≤ maxVolumes := hcount ▸ Nat.count_le _
  have hin : ∀ i < fso.nvolumes, fso.Present i := fun i hi =>
    (hpres i (hi.trans_le hle)).mpr hi
  have hsizes : fso.sizes = fso.start fso.nvolumes := by
    rw [sizes, start, ← Finset.sum_subset (Finset.range_subset_range.mpr hle)]
    · exact Finset.sum_congr rfl fun i hi => if_neg (hin i (Finset.mem_range.mp hi))
    · intro i hi hni
      rw [Finset.mem_range] at hi hni
      exact if_pos (not_not.mp fun hp => hni ((hpres i hi).mp hp))
  refine ⟨hle, hpres, fun i hi => (hwf.id i (hin i hi)).2, ?_,
    fun i hi => (show 64 ∣ volumeAlign by decide).trans (hslot i (hin i hi)).2.2, ?_⟩
  · intro i
    induction i with
    | zero =>
      intro hi
      rcases (hslot 0 (hin 0 hi)).1 with ⟨-, h⟩ | ⟨h, -⟩
      · rw [h, start, Finset.sum_range_zero]
      · exact absurd h (lt_irrefl 0)
    | succ i ih =>
      intro hi
      rcases (hslot _ (hin _ hi)).1 with ⟨h, -⟩ | ⟨-, -, h⟩
      · omega
      · rw [Nat.add_sub_cancel, ih (Nat.lt_of_succ_lt hi), addOff, ← start_succ] at h
        have := fso.start_mono hi.le
        rw [h, Nat.mod_eq_of_lt (by omega)]
  · rw [hwf.total, ← hsizes, Nat.mod_eq_of_lt (by omega)]

theorem Ondisk.Tiled.covers_iff (ht : fso.Tiled) (hi : i < fso.nvolumes) :
    (fso.volumes i).Covers offset ↔ offset ∈ Set.Ico (fso.start i) (fso.start (i + 1)) := by
  rw [Volume.Covers, ht.offset i hi, ← start_succ, Set.mem_Ico]

/-- Every offset of the filesystem is covered. -/
theorem Ondisk.Tiled.exists_covers (ht : fso.Tiled) :
    (∃ i < fso.nvolumes, (fso.volumes i).Covers offset) ↔ offset < fso.totalSize := by
  rw [ht.total]
  constructor
  · rintro ⟨i, hi, hc⟩
    exact ((ht.covers_iff hi).mp hc).2.trans_le (fso.start_mono hi)
  · intro h
    have hmem := Ico_subset_biUnion_Ico fso.nvolumes fso.start
      (Set.mem_Ico.mpr ⟨Nat.zero_le offset, h⟩)
    simp only [Set.mem_iUnion, Finset.mem_range] at hmem
    obtain ⟨i, hi, hc⟩ := hmem
    exact ⟨i, hi, (ht.covers_iff hi).mpr hc⟩

/-- No offset is covered twice. -/
theorem Ondisk.Tiled.covers_unique (ht : fso.Tiled) (hi : i < fso.nvolumes)
    (hj : j < fso.nvolumes) (hci : (fso.volumes i).Covers offset)
    (hcj : (fso.volumes j).Covers offset) : i = j := by
  by_contra hne
  exact Set.disjoint_left.mp (fso.start_mono.pairwise_disjoint_on_Ico_succ hne)
    ((ht.covers_iff hi).mp hci) ((ht.covers_iff hj).mp hcj)

theorem Ondisk.Tiled.start_dvd (ht : fso.Tiled) (hi : i ≤ fso.nvolumes) : 64 ∣ fso.start i :=
  Finset.dvd_sum fun j hj => ht.align j ((Finset.mem_range.mp hj).trans_le hi)

/-- The low bits of an offset, which can be a radix, do not matter. -/
theorem Ondisk.Tiled.covers_mask (ht : fso.Tiled) (hi : i < fso.nvolumes) :
    (fso.volumes i).Covers (offset - offset % 64) ↔ (fso.volumes i).Covers offset := by
  rw [ht.covers_iff hi, ht.covers_iff hi, Set.mem_Ico, Set.mem_Ico]
  obtain ⟨a, ha⟩ := ht.start_dvd hi.le
  obtain ⟨b, hb⟩ := ht.start_dvd (show i + 1 ≤ fso.nvolumes from hi)
  omega

/-- The loop finds the first volume that covers the offset. -/
theorem Ondisk.Tiled.findVolume_eq (ht : fso.Tiled) (hsum : fso.totalSize < 2 ^ 63) (is : List Nat)
    (his : ∀ i ∈ is, i < fso.nvolumes) :
    fso.findVolume offset is
      = .ok ((is.find? fun i => (fso.volumes i).Covers offset).map fso.volumes) := by
  induction is with
  | nil => rfl
  | cons i is ih =>
    have hi : i < fso.nvolumes := his i List.mem_cons_self
    have hend : addOff (fso.volumes i).offset (fso.volumes i).size
        = (fso.volumes i).offset + (fso.volumes i).size := by
      have hle := fso.start_mono (show i + 1 ≤ fso.nvolumes from hi)
      rw [ht.total] at hsum
      rw [ht.offset i hi, addOff, ← start_succ, Nat.mod_eq_of_lt (by omega)]
    rw [findVolume, hend, if_neg (Nat.not_le.mpr (hi.trans_le ht.le_max))]
    by_cases hc : (fso.volumes i).Covers offset
    · rw [if_pos (show _ ∧ _ from hc), List.find?_cons_of_pos (by simpa using hc), Option.map_some]
    · rw [if_neg (show ¬ (_ ∧ _) from hc), List.find?_cons_of_neg (by simp [hc]),
        ih fun j hj => his j (List.mem_cons_of_mem i hj)]

theorem Ondisk.Tiled.lookup (ht : fso.Tiled) (hsum : fso.totalSize < 2 ^ 63)
    (hi : i < fso.nvolumes) (hc : (fso.volumes i).Covers offset) :
    fso.findVolume (offset - offset % 64) (List.range fso.nvolumes)
      = .ok (some (fso.volumes i)) := by
  rw [ht.findVolume_eq hsum _ fun j => List.mem_range.mp]
  cases hf : (List.range fso.nvolumes).find?
      fun j => (fso.volumes j).Covers (offset - offset % 64) with
  | none =>
    have := List.find?_eq_none.mp hf i (List.mem_range.mpr hi)
    exact absurd (decide_eq_true ((ht.covers_mask hi).mpr hc)) this
  | some j =>
    have hj := List.mem_range.mp (List.mem_of_find?_eq_some hf)
    have hcj := List.find?_some hf
    simp only [decide_eq_true_eq] at hcj
    have hcj := (ht.covers_mask hj).mp hcj
    rw [ht.covers_unique hi hj hc hcj, Option.map_some]

theorem Ondisk.Tiled.lookup_none (ht : fso.Tiled) (hsum : fso.totalSize < 2 ^ 63)
    (h : fso.totalSize ≤ offset) :
    fso.findVolume (offset - offset % 64) (List.range fso.nvolumes) = .ok none := by
  rw [ht.findVolume_eq hsum _ fun j => List.mem_range.mp, List.find?_eq_none.mpr, Option.map_none]
  intro j hj hc
  have hj := List.mem_range.mp hj
  have hlt := ht.exists_covers.mp ⟨j, hj, (ht.covers_mask hj).mp (of_decide_eq_true hc)⟩
  omega

end Tiled

/-! ## The result -/

theorem State.getVolumeFd_eq {s : State} {offset : Nat} {vol : Option Volume}
    (h : s.getVolumeAttr offset = .ok vol) :
    s.getVolumeFd offset = .ok (vol.elim (-1) Volume.fd) := by
  rw [getVolumeFd, h]
  rfl

/-- The volumes that are accepted with version 2 or above have the ids from 0 on, cover
    `[0, total_size)` without overlap, and every offset is looked up in the volume it lies in. -/
theorem volumes_partition (icrc : Crc) (devs : Nat → Device)
    (blkdevs : List Devpath) (s : State) (h : initVolumes icrc devs blkdevs = .ok s)
    (hver : 2 ≤ s.fso.version) (hsum : s.fso.sizes < 2 ^ 63) :
    (∀ i < maxVolumes, s.fso.Present i ↔ i < s.fso.nvolumes) ∧
      (∀ i < s.fso.nvolumes, (s.fso.volumes i).id = i ∧ (s.fso.volumes i).fd ≠ -1) ∧
      (∀ offset, offset < s.fso.totalSize ↔
        ∃ i < s.fso.nvolumes, (s.fso.volumes i).Covers offset) ∧
      (∀ offset, ∀ i < s.fso.nvolumes, ∀ j < s.fso.nvolumes, (s.fso.volumes i).Covers offset →
        (s.fso.volumes j).Covers offset → i = j) ∧
      (∀ offset, ∀ i < s.fso.nvolumes, (s.fso.volumes i).Covers offset →
        s.getVolumeAttr offset = .ok (some (s.fso.volumes i)) ∧
          s.getVolumeFd offset = .ok (s.fso.volumes i).fd) ∧
      (∀ offset, s.fso.totalSize ≤ offset →
        s.getVolumeAttr offset = .ok none ∧ s.getVolumeFd offset = .ok (-1)) := by
  obtain ⟨t, hwf, hfin⟩ := initVolumes_ok h
  obtain ⟨hinit, rootvoldata, -, hv⟩ := State.finish_ok hfin
  obtain ⟨hcommon, hcases⟩ := Ondisk.verifyVolumes_ok hv
  rcases hcases with ⟨-, heq, h2, -⟩ | ⟨hlt, -, heq⟩
  swap
  · rw [heq] at hver
    exact absurd hver (not_le.mpr hlt)
  rw [← heq] at hwf h2 hcommon
  have ht := hwf.tiled h2 hsum
  have htotal : s.fso.totalSize < 2 ^ 63 := by
    rw [hwf.total]
    omega
  have hattr : ∀ offset, s.getVolumeAttr offset
      = s.fso.findVolume (offset - offset % 64) (List.range s.fso.nvolumes) := fun offset => by
    rw [State.getVolumeAttr, hinit]
    rfl
  refine ⟨ht.present, fun i hi => ⟨ht.id i hi, ?_⟩, fun _ => ht.exists_covers.symm,
    fun _ i hi j hj => ht.covers_unique hi hj, fun offset i hi hc => ?_, fun offset hle => ?_⟩
  · rw [Ondisk.verifyVolumesCommon] at hcommon
    simp only [check_bind_ok_iff, forM_ok_iff, List.mem_range] at hcommon
    have hi' := hi.trans_le ht.le_max
    have hslot := hcommon.2 i hi'
    rw [Ondisk.verifyCommon, if_neg (not_not.mpr ((ht.present i hi').mpr hi))] at hslot
    simp only [check_bind_ok_iff, check_ok_iff] at hslot
    exact hslot.2.2.1
  · have ha := (hattr offset).trans (ht.lookup htotal hi hc)
    exact ⟨ha, State.getVolumeFd_eq ha⟩
  · have ha := (hattr offset).trans (ht.lookup_none htotal hle)
    exact ⟨ha, State.getVolumeFd_eq ha⟩

/-- A header of a filesystem of two volumes, of 1 GB and 8 MB, for a CRC that is 0. -/
def twoHeader (id size : Nat) : VolumeData :=
  let blank : Image := fun i => if 0xE10 ≤ i ∧ i < 0x1000 then 255 else 0
  blank.write 0 (toLE 8 volumeIdHbo) |>.write 0x28 (toLE 8 size) |>.write 0x30 [2]
    |>.write 0x3B (toLE 1 id) |>.write 0x3C [2] |>.write 0xC0 (toLE 8 (level1Size + volumeAlign))
    |>.write 0xE08 (toLE 8 level1Size)

def twoDevices (path : Nat) : Device where
  opens := true
  regular := true
  ino := (path + 1, 0)
  size := if path = 0 then level1Size else volumeAlign
  bytes := twoHeader path (if path = 0 then level1Size else volumeAlign)
  fails := fun _ _ => false

theorem volumes_partition_two : ∃ s, initVolumes (fun _ => 0) twoDevices [.one 0, .one 1] = .ok s ∧
    s.getVolumeFd (level1Size + 100) = .ok 1 := by
  have hfacts : ∀ s, initVolumes (fun _ => 0) twoDevices [.one 0, .one 1] = .ok s →
      (2 ≤ s.fso.version ∧ s.fso.sizes < 2 ^ 63) ∧ 1 < s.fso.nvolumes ∧
        (s.fso.volumes 1).Covers (level1Size + 100) ∧ (s.fso.volumes 1).fd = 1 := by
    decide +kernel
  have hok : (initVolumes (fun _ => 0) twoDevices [.one 0, .one 1]).isOk = true := by
    decide +kernel
  cases h : initVolumes (fun _ => 0) twoDevices [.one 0, .one 1] with
  | error e => rw [h] at hok; cases hok
  | ok s =>
    obtain ⟨⟨hver, hsum⟩, hn, hc, hfd⟩ := hfacts s h
    have hlookup := (volumes_partition _ _ _ s h hver hsum).2.2.2.2.1 _ 1 hn hc
    exact ⟨s, rfl, hlookup.2.trans (by rw [hfd])⟩

end Lh1.Hammer2
