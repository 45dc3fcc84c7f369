/-
  Volume lists in fstyp: `__fsvtyp_hammer` (usr.sbin/fstyp/hammer.c) and `__fsvtyp_hammer2`
  (usr.sbin/fstyp/hammer2.c), called without `partial`.

  Both go through a colon-separated list of devices, check the header of each one and count its
  volume id. The first header checked is kept in static variables, and the others have to agree
  with it. A device that fails the check ends the loop. HAMMER then rejects the list; HAMMER2
  goes on with the volumes it has seen up to there.

  `read_label`, which the HAMMER2 function ends with, is a parameter; the label that is printed
  is left out.

  * `fsvtyp_complete_iff`: of the lists that are accepted, those are complete in which no volume id
    is listed 128 times or more and, for HAMMER2, every device passes the check and no header has
    a volume count of 0.
-/
import Lh1.Fstyp.Counters
import Lh1.Hammer2.Device

namespace Lh1.Fstyp

open Lh1.Lib Lh1.Hammer2

abbrev Path := List Char

def readBuf (dev : Device) (off len : Nat) : Option Image :=
  if dev.Readable off len then some (dev.bytes.view off) else none

/-- The state of the loop over the devices. `volid` is none for -1. -/
structure Scan where
  x : Nat → Int
  rootvolpath : Option Path
  volid : Option Nat

def Scan.init : Scan := ⟨fun _ => 0, none, none⟩

/-- A device with the volume id `id` was checked. -/
def Scan.count (s : Scan) (path : Path) (id : Nat) : Scan where
  x := Function.update s.x id (charInc (s.x id))
  rootvolpath := if id = 0 then some path else s.rootvolpath
  volid := some id

/-! ## HAMMER -/

/-- `HAMMER_MAX_VOLUMES`. -/
def hammerMaxVolumes : Nat := 256

/-- `sizeof(struct hammer_volume_ondisk)`. -/
def volumeOndiskSize : Nat := 1928

/-- `HAMMER_FSBUF_VOLUME` and `HAMMER_FSBUF_VOLUME_REV`. -/
def fsbufVolume : Nat := 0xC8414D4DC5523031

def fsbufVolumeRev : Nat := 0x313052C54D4D41C8

/-- `struct hammer_volume_ondisk`. -/
abbrev VolumeOndisk := Image

namespace VolumeOndisk

def volSignature (od : VolumeOndisk) : Nat := od.word 0 8
def volFsid (od : VolumeOndisk) : List UInt8 := od.read 48 16
def volFstype (od : VolumeOndisk) : List UInt8 := od.read 64 16
@[irreducible] def volNo (od : VolumeOndisk) : Int := Int.bmod (od.word 144 4) (2 ^ 32)
@[irreducible] def volCount (od : VolumeOndisk) : Int := Int.bmod (od.word 148 4) (2 ^ 32)
def volRootvol (od : VolumeOndisk) : Nat := od.word 164 4

/-- `vol_label` as a C string, which goes on behind its 64 bytes if it is not terminated. -/
def volLabel (od : VolumeOndisk) : List UInt8 :=
  (od.read 80 (volumeOndiskSize - 80)).takeWhile (· ≠ 0)

/-- The header of a HAMMER volume. -/
structure Valid (od : VolumeOndisk) : Prop where
  signature : od.volSignature = fsbufVolume ∨ od.volSignature = fsbufVolumeRev
  rootvol : od.volRootvol = 0
  no : 0 ≤ od.volNo ∧ od.volNo ≤ hammerMaxVolumes - 1
  count : 1 ≤ od.volCount ∧ od.volCount ≤ hammerMaxVolumes

instance (od : VolumeOndisk) : Decidable od.Valid :=
  decidable_of_iff
    ((od.volSignature = fsbufVolume ∨ od.volSignature = fsbufVolumeRev) ∧ od.volRootvol = 0 ∧
      (0 ≤ od.volNo ∧ od.volNo ≤ hammerMaxVolumes - 1) ∧
      (1 ≤ od.volCount ∧ od.volCount ≤ hammerMaxVolumes))
    ⟨fun ⟨h1, h2, h3, h4⟩ => ⟨h1, h2, h3, h4⟩, fun h => ⟨h.signature, h.rootvol, h.no, h.count⟩⟩

end VolumeOndisk

/-- The static variables of `test_ondisk`. -/
structure OndiskStatics where
  count : Int
  fsid : List UInt8
  fstype : List UInt8
  label : List UInt8

/-- `test_ondisk`: true where the source returns 0. -/
def testOndisk (st : OndiskStatics) (od : VolumeOndisk) : Bool × OndiskStatics :=
  if ¬ od.Valid then (false, st)
  else if st.count = 0 then
    (true, ⟨od.volCount, od.volFsid, od.volFstype, od.volLabel.take 63⟩)
  else (decide (od.volCount = st.count ∧ od.volFsid = st.fsid ∧ od.volFstype = st.fstype ∧
    od.volLabel = st.label), st)

/-- `fopen` and `read_ondisk`. -/
def ondiskOf (files : Path → Device) (path : Path) : Option VolumeOndisk :=
  if (files path).opens then readBuf (files path) 0 volumeOndiskSize else none

/-- `test_volume`: the volume number, or none for -1. -/
def testVolume (files : Path → Device) (st : OndiskStatics) (path : Path) :
    Option Nat × OndiskStatics :=
  match ondiskOf files path with
  | none => (none, st)
  | some od =>
    match testOndisk st od with
    | (true, st) => (some od.volNo.toNat, st)
    | (false, st) => (none, st)

/-- The loop over the devices; none where it jumps to `fail`. -/
def scanHammer (files : Path → Device) :
    OndiskStatics → Scan → List Path → Option Scan × OndiskStatics
  | st, s, [] => (some s, st)
  | st, s, path :: paths =>
    match testVolume files st path with
    | (none, st) => (some { s with volid := none }, st)
    | (some volno, st) =>
      if hammerMaxVolumes ≤ volno then (none, st)
      else scanHammer files st (s.count path volno) paths

/-- `fsvtyp_hammer`: whether it returns 0. -/
def fsvtypHammer (files : Path → Device) (st : OndiskStatics) (blkdevs : List Char) :
    Bool × OndiskStatics :=
  match scanHammer files st .init (blkdevs.splitOn ':') with
  | (none, st) => (false, st)
  | (some s, st) =>
    match s.rootvolpath with
    | none => (false, st)
    | some path =>
      match ondiskOf files path with
      | none => (false, st)
      | some od => (s.volid.isSome && idsOk hammerMaxVolumes s.x od.volCount, st)

/-! ## HAMMER2 -/

def readVoldata (dev : Device) (i : Nat) : Option VolumeData :=
  if numVolhdrs ≤ i then none
  else if dev.size ≤ zoneBytes * i then none
  else readBuf dev (zoneBytes * i) pbufSize

/-- The static variables of `test_voldata`. -/
structure VoldataStatics where
  count : Nat
  fsid : List UInt8
  fstype : List UInt8

/-- What `test_voldata` asks of each header by itself. -/
structure GoodHeader (vd : VolumeData) : Prop where
  magic : vd.GoodMagic
  id : vd.voluId < maxVolumes
  count : vd.nvolumes ≤ maxVolumes

instance (vd : VolumeData) : Decidable (GoodHeader vd) :=
  decidable_of_iff (vd.GoodMagic ∧ vd.voluId < maxVolumes ∧ vd.nvolumes ≤ maxVolumes)
    ⟨fun ⟨h1, h2, h3⟩ => ⟨h1, h2, h3⟩, fun h => ⟨h.magic, h.id, h.count⟩⟩

/-- The part of `test_voldata` for one header. -/
def testHeader (st : VoldataStatics) (vd : VolumeData) : Bool × VoldataStatics :=
  if ¬ GoodHeader vd then (false, st)
  else if st.count = 0 then (true, ⟨vd.nvolumes, vd.fsid, vd.fstype⟩)
  else (decide (vd.nvolumes = st.count ∧ vd.fsid = st.fsid ∧ vd.fstype = st.fstype), st)

/-- The loop of `test_voldata` over the zones. -/
def testZones (dev : Device) : VoldataStatics → List Nat → Bool × VoldataStatics
  | st, [] => (true, st)
  | st, i :: is =>
    if dev.size ≤ zoneBytes * i then (true, st)
    else
      match readVoldata dev i with
      | none => (false, st)
      | some vd =>
        match testHeader st vd with
        | (true, st) => testZones dev st is
        | (false, st) => (false, st)

def testVoldata (dev : Device) (st : VoldataStatics) : Bool × VoldataStatics :=
  testZones dev st (List.range numVolhdrs)

/-- The loop over the devices; none where it jumps to `fail`. A device that does not pass ends
    the loop with the last `volid` still set. -/
def scanHammer2 (files : Path → Device) :
    VoldataStatics → Scan → List Path → Option Scan × VoldataStatics
  | st, s, [] => (some s, st)
  | st, s, path :: paths =>
    if (files path).opens then
      match testVoldata (files path) st with
      | (false, st) => (some s, st)
      | (true, st) =>
        match readVoldata (files path) 0 with
        | none => (none, st)
        | some vd =>
          if maxVolumes ≤ vd.voluId then (none, st)
          else scanHammer2 files st (s.count path vd.voluId) paths
    else (none, st)

/-- `fopen` and `read_voldata`. -/
def voldataOf (files : Path → Device) (path : Path) (i : Nat) : Option VolumeData :=
  if (files path).opens then readVoldata (files path) i else none

/-- The devices of `blkdevs` in front of the label. -/
def hammer2Devices (blkdevs : List Char) : List Path := (blkdevs.takeWhile (· ≠ '@')).splitOn ':'

/-- The path that `read_label` gets: the root volume, with the label if there is one. -/
def labelPath (root blkdevs : List Char) : List Char :=
  if '@' ∈ blkdevs then root ++ blkdevs.dropWhile (· ≠ '@') else root

/-- `fsvtyp_hammer2`: whether it returns 0. -/
def fsvtypHammer2 (readLabel : Device → Path → Bool) (files : Path → Device)
    (st : VoldataStatics) (blkdevs : List Char) : Bool × VoldataStatics :=
  match scanHammer2 files st .init (hammer2Devices blkdevs) with
  | (none, st) => (false, st)
  | (some s, st) =>
    match s.rootvolpath with
    | none => (false, st)
    | some path =>
      match voldataOf files path 0 with
      | none => (false, st)
      | some vd => (s.volid.isSome && idsOk maxVolumes s.x vd.nvolumes &&
          readLabel (files path) (labelPath path blkdevs), st)

/-! ## Complete lists -/

/-- The volume numbers of the listed devices. -/
def hammerIds (files : Path → Device) (paths : List Path) : List Nat :=
  paths.filterMap fun path => (ondiskOf files path).map fun od => od.volNo.toNat

/-- What identifies a HAMMER filesystem. -/
def VolumeOndisk.filesystem (od : VolumeOndisk) : Int × List UInt8 × List UInt8 :=
  (od.volCount, od.volFsid, od.volFstype)

/-- The list has the volumes of one HAMMER filesystem: all of them, each one once. -/
structure CompleteHammer (files : Path → Device) (paths : List Path) : Prop where
  valid : ∀ path ∈ paths, ∃ od, ondiskOf files path = some od ∧ od.Valid
  same : ∃ fs, ∀ path ∈ paths, ∀ od, ondiskOf files path = some od → od.filesystem = fs
  once : ∃ count : Nat, ExactlyOnce (hammerIds files paths) count ∧ ∀ path ∈ paths, ∀ od,
    ondiskOf files path = some od → od.volNo = 0 → od.volCount = count

section

variable {files : Path → Device} {st st' : OndiskStatics} {s s' : Scan} {paths : List Path}

theorem testOndisk_true {od : VolumeOndisk} (h : testOndisk st od = (true, st')) :
    od.Valid ∧ od.filesystem = (st'.count, st'.fsid, st'.fstype) ∧
      (st.count ≠ 0 → st' = st) ∧ st'.count ≠ 0 := by
  unfold testOndisk at h
  split at h
  · cases h
  · rename_i hvalid
    have hv := not_not.mp hvalid
    split at h
    · cases h
      refine ⟨hv, rfl, fun hne => absurd ‹_› hne, fun h0 => ?_⟩
      have h1 := hv.count.1
      rw [show od.volCount = 0 from h0] at h1
      exact absurd h1 (by decide)
    · rename_i hne
      simp only [Prod.mk.injEq, decide_eq_true_eq] at h
      obtain ⟨⟨h1, h2, h3, -⟩, rfl⟩ := h
      exact ⟨hv, by rw [VolumeOndisk.filesystem, h1, h2, h3], fun _ => rfl, hne⟩

theorem testVolume_some {path : Path} {volno : Nat}
    (h : testVolume files st path = (some volno, st')) :
    ∃ od, ondiskOf files path = some od ∧ testOndisk st od = (true, st') ∧
      volno = od.volNo.toNat := by
  unfold testVolume at h
  split at h
  · cases h
  · rename_i od hod
    split at h
    · rename_i st1 htest
      cases h
      exact ⟨od, hod, htest, rfl⟩
    · cases h

/-- What the loop has seen when it was not left for a device that does not pass. -/
theorem scanHammer_spec (h : scanHammer files st s paths = (some s', st'))
    (hv : s'.volid ≠ none) :
    (∀ path ∈ paths, ∃ od, ondiskOf files path = some od ∧ od.Valid ∧
        od.filesystem = (st'.count, st'.fsid, st'.fstype)) ∧
      (st.count ≠ 0 → st' = st) ∧
      s'.x = (hammerIds files paths).foldl (fun x id => Function.update x id (charInc (x id))) s.x ∧
      ∀ root, s'.rootvolpath = some root → s.rootvolpath = some root ∨
        root ∈ paths ∧ ∃ od, ondiskOf files root = some od ∧ od.volNo = 0 := by
  induction paths generalizing st s with
  | nil =>
    cases h
    exact ⟨fun path hp => absurd hp List.not_mem_nil, fun _ => rfl, rfl, fun _ hr => Or.inl hr⟩
  | cons path paths ih =>
    rw [scanHammer] at h
    split at h
    · cases h
      exact absurd rfl hv
    · rename_i volno st1 htest
      split at h
      · cases h
      · obtain ⟨od, hod, hpass, rfl⟩ := testVolume_some htest
        obtain ⟨hvalid, hfs, hkeep, hne⟩ := testOndisk_true hpass
        obtain ⟨h1, h2, h3, h4⟩ := ih h
        have hst : st' = st1 := h2 hne
        refine ⟨?_, fun hc => hst.trans (hkeep hc), ?_, ?_⟩
        · exact List.forall_mem_cons.mpr ⟨⟨od, hod, hvalid, hst ▸ hfs⟩, h1⟩
        · rw [h3, hammerIds, hammerIds, List.filterMap_cons, hod]
          rfl
        · intro root hroot
          rcases h4 root hroot with hr | ⟨hmem, hr⟩
          · rw [Scan.count] at hr
            dsimp only at hr
            split at hr
            · rename_i hz
              cases hr
              have h0 := hvalid.no.1
              exact Or.inr ⟨List.mem_cons_self, od, hod, by omega⟩
            · exact Or.inl hr
          · exact Or.inr ⟨List.mem_cons_of_mem _ hmem, hr⟩

theorem hammerIds_lt (hvalid : ∀ path ∈ paths, ∃ od, ondiskOf files path = some od ∧ od.Valid) :
    ∀ id ∈ hammerIds files paths, id < hammerMaxVolumes := by
  intro id hid
  obtain ⟨path, hp, hmap⟩ := List.mem_filterMap.mp hid
  obtain ⟨od, hod, hv⟩ := hvalid path hp
  rw [hod] at hmap
  cases hmap
  have h1 := hv.no.1
  have h2 := hv.no.2
  unfold hammerMaxVolumes at *
  dsimp only
  omega

end

/-- An accepted list of HAMMER volumes is complete unless a counter has wrapped. -/
theorem fsvtypHammer_complete {files : Path → Device} {st : OndiskStatics} {blkdevs : List Char}
    (h : (fsvtypHammer files st blkdevs).1 = true) :
    CompleteHammer files (blkdevs.splitOn ':') ↔ Rare (hammerIds files (blkdevs.splitOn ':')) := by
  constructor
  · rintro ⟨-, -, count, honce, -⟩
    exact honce.rare
  · intro hrare
    unfold fsvtypHammer at h
    split at h
    · cases h
    · rename_i s st' hscan
      split at h
      · cases h
      · rename_i root hroot
        split at h
        · cases h
        · rename_i od hod
          simp only [Bool.and_eq_true, Option.isSome_iff_ne_none] at h
          obtain ⟨hvol, hids⟩ := h
          obtain ⟨h1, -, h3, h4⟩ := scanHammer_spec hscan hvol
          have hvalid : ∀ path ∈ blkdevs.splitOn ':', ∃ od, ondiskOf files path = some od ∧
              od.Valid := fun path hp => by
            obtain ⟨od, ho, hv, -⟩ := h1 path hp
            exact ⟨od, ho, hv⟩
          have hfs : ∀ path ∈ blkdevs.splitOn ':', ∀ od, ondiskOf files path = some od →
              od.filesystem = (st'.count, st'.fsid, st'.fstype) := fun path hp od ho => by
            obtain ⟨od', ho', -, hf⟩ := h1 path hp
            rw [ho] at ho'
            cases ho'
            exact hf
          rcases h4 root hroot with hr | ⟨hmem, od', hod', hno⟩
          · cases hr
          · rw [hod] at hod'
            cases hod'
            have hcount : od.volCount = (od.volCount.toNat : Int) := by
              obtain ⟨od'', ho'', hv⟩ := hvalid root hmem
              rw [hod] at ho''
              cases ho''
              have := hv.count.1
              omega
            rw [h3, hcount] at hids
            have hex := (idsOk_tally_iff (hammerIds_lt hvalid) hrare).mp hids
            refine ⟨hvalid, ⟨_, hfs⟩, od.volCount.toNat, hex.2, fun path hp od1 ho1 _ => ?_⟩
            have he := (hfs path hp od1 ho1).trans (hfs root hmem od hod).symm
            rw [← hcount]
            exact congrArg Prod.fst he

/-- The volume ids of the listed devices. -/
def hammer2Ids (files : Path → Device) (paths : List Path) : List Nat :=
  paths.filterMap fun path => (voldataOf files path 0).map VolumeData.voluId

/-- What identifies a HAMMER2 filesystem. -/
def filesystemOf (vd : VolumeData) : VoldataStatics := ⟨vd.nvolumes, vd.fsid, vd.fstype⟩

/-- Every zone of the device has the header of a HAMMER2 volume. -/
structure ValidVolume (files : Path → Device) (path : Path) : Prop where
  opens : (files path).opens = true
  first : ∃ vd, readVoldata (files path) 0 = some vd
  zones : ∀ i < numVolhdrs, zoneBytes * i < (files path).size →
    ∃ vd, readVoldata (files path) i = some vd ∧ GoodHeader vd

/-- The list has the volumes of one HAMMER2 filesystem: all of them, each one once. -/
structure CompleteHammer2 (files : Path → Device) (paths : List Path) : Prop where
  valid : ∀ path ∈ paths, ValidVolume files path
  same : ∃ fs, ∀ path ∈ paths, ∀ i vd, readVoldata (files path) i = some vd → filesystemOf vd = fs
  once : ∃ count : Nat, ExactlyOnce (hammer2Ids files paths) count ∧ ∀ path ∈ paths, ∀ vd,
    readVoldata (files path) 0 = some vd → vd.voluId = 0 → vd.nvolumes = count

/-- The devices open and pass `test_voldata` one after the other. -/
def PassesAll (files : Path → Device) : VoldataStatics → List Path → Prop
  | _, [] => True
  | st, path :: paths => (files path).opens = true ∧ (testVoldata (files path) st).1 = true ∧
      PassesAll files (testVoldata (files path) st).2 paths

/-- No header of a listed device has a volume count of 0. -/
def Counted (files : Path → Device) (paths : List Path) : Prop :=
  ∀ path ∈ paths, ∀ i vd, readVoldata (files path) i = some vd → vd.nvolumes ≠ 0

section

variable {dev : Device} {files : Path → Device} {st st' : VoldataStatics} {s s' : Scan}
  {paths : List Path} {vd : VolumeData} {is : List Nat}

theorem readVoldata_lt {i : Nat} (h : readVoldata dev i = some vd) :
    i < numVolhdrs ∧ zoneBytes * i < dev.size := by
  unfold readVoldata at h
  split at h
  · cases h
  · split at h
    · cases h
    · exact ⟨Nat.lt_of_not_le ‹_›, Nat.lt_of_not_le ‹_›⟩

theorem testHeader_true (h : testHeader st vd = (true, st')) :
    GoodHeader vd ∧ filesystemOf vd = st' ∧ (st.count ≠ 0 → st' = st) := by
  unfold testHeader at h
  split at h
  · cases h
  · rename_i hgood
    split at h
    · obtain rfl := (Prod.mk.inj h).2
      exact ⟨not_not.mp hgood, rfl, fun hne => absurd ‹_› hne⟩
    · simp only [Prod.mk.injEq, decide_eq_true_eq] at h
      obtain ⟨⟨h1, h2, h3⟩, rfl⟩ := h
      exact ⟨not_not.mp hgood, by rw [filesystemOf, h1, h2, h3], fun _ => rfl⟩

/-- A good header of the filesystem at hand passes. -/
theorem testHeader_same (hgood : GoodHeader vd) (hne : vd.nvolumes ≠ 0) :
    testHeader (filesystemOf vd) vd = (true, filesystemOf vd) := by
  unfold testHeader
  rw [if_neg (not_not.mpr hgood), if_neg (by exact hne)]
  simp [filesystemOf]

theorem testZones_true (h : testZones dev st is = (true, st')) (hsorted : is.Pairwise (· < ·)) :
    (∀ i ∈ is, zoneBytes * i < dev.size → ∃ vd, readVoldata dev i = some vd ∧ GoodHeader vd) ∧
      (st.count ≠ 0 → st' = st) ∧
      ((∀ i vd, readVoldata dev i = some vd → vd.nvolumes ≠ 0) →
        ∀ i ∈ is, ∀ vd, readVoldata dev i = some vd → filesystemOf vd = st') := by
  induction is generalizing st with
  | nil =>
    cases h
    exact ⟨fun i hi => absurd hi List.not_mem_nil, fun _ => rfl,
      fun _ i hi => absurd hi List.not_mem_nil⟩
  | cons i is ih =>
    obtain ⟨hlt, hsorted'⟩ := List.pairwise_cons.mp hsorted
    rw [testZones] at h
    split at h
    · -- the zones from here on are behind the end of the device
      rename_i hend
      cases h
      have hgone : ∀ j ∈ i :: is, ¬ zoneBytes * j < dev.size := by
        intro j hj
        rcases List.mem_cons.mp hj with rfl | hj
        · exact Nat.not_lt.mpr hend
        · have := Nat.mul_le_mul_left zoneBytes (Nat.le_of_lt (hlt j hj))
          omega
      exact ⟨fun j hj hs => absurd hs (hgone j hj), fun _ => rfl,
        fun _ j hj vd hvd => absurd (readVoldata_lt hvd).2 (hgone j hj)⟩
    · split at h
      · cases h
      · rename_i vd hvd
        split at h
        · rename_i st1 htest
          obtain ⟨hgood, hfs, hkeep⟩ := testHeader_true htest
          obtain ⟨h1, h2, h3⟩ := ih h hsorted'
          refine ⟨fun j hj hs => ?_, fun hne => ?_, fun hnz j hj vd' hvd' => ?_⟩
          · rcases List.mem_cons.mp hj with rfl | hj
            · exact ⟨vd, hvd, hgood⟩
            · exact h1 j hj hs
          · have := hkeep hne
            subst this
            exact h2 hne
          · rcases List.mem_cons.mp hj with rfl | hj
            · rw [hvd] at hvd'
              cases hvd'
              have hst : st1.count ≠ 0 := by
                rw [← hfs]
                exact hnz j vd hvd
              rw [h2 hst, hfs]
            · exact h3 hnz j hj vd' hvd'
        · cases h

/-- A device of the filesystem at hand passes. -/
theorem testZones_same (hne : st.count ≠ 0)
    (hzones : ∀ i ∈ is, zoneBytes * i < dev.size → ∃ vd, readVoldata dev i = some vd ∧
      GoodHeader vd ∧ filesystemOf vd = st) : testZones dev st is = (true, st) := by
  induction is with
  | nil => rfl
  | cons i is ih =>
    rw [testZones]
    split
    · rfl
    · rename_i hlt
      obtain ⟨vd, hvd, hgood, rfl⟩ := hzones i List.mem_cons_self (Nat.lt_of_not_le hlt)
      rw [hvd]
      dsimp only
      rw [testHeader_same hgood hne]
      exact ih fun j hj => hzones j (List.mem_cons_of_mem _ hj)

theorem sorted_zones : (List.range numVolhdrs).Pairwise (· < ·) := List.pairwise_lt_range

/-- The root that the loop has found is a listed volume with id 0. -/
theorem scanHammer2_root (h : scanHammer2 files st s paths = (some s', st')) {root : Path}
    (hroot : s'.rootvolpath = some root) : s.rootvolpath = some root ∨
      root ∈ paths ∧ ∃ vd, readVoldata (files root) 0 = some vd ∧ vd.voluId = 0 := by
  induction paths generalizing st s with
  | nil =>
    cases h
    exact Or.inl hroot
  | cons path paths ih =>
    rw [scanHammer2] at h
    split at h
    · split at h
      · cases h
        exact Or.inl hroot
      · split at h
        · cases h
        · rename_i vd hvd
          split at h
          · cases h
          · rcases ih h with hr | ⟨hmem, hr⟩
            · rw [Scan.count] at hr
              dsimp only at hr
              split at hr
              · cases hr
                exact Or.inr ⟨List.mem_cons_self, vd, hvd, ‹_›⟩
              · exact Or.inl hr
            · exact Or.inr ⟨List.mem_cons_of_mem _ hmem, hr⟩
    · cases h

/-- What the loop has seen when every device passes. -/
theorem scanHammer2_spec (h : scanHammer2 files st s paths = (some s', st'))
    (hpass : PassesAll files st paths) (hnz : Counted files paths) :
    (∀ path ∈ paths, ValidVolume files path ∧
        ∀ i vd, readVoldata (files path) i = some vd → filesystemOf vd = st') ∧
      (st.count ≠ 0 → st' = st) ∧
      s'.x = (hammer2Ids files paths).foldl (fun x id => Function.update x id (charInc (x id))) s.x
      := by
  induction paths generalizing st s with
  | nil =>
    cases h
    exact ⟨fun path hp => absurd hp List.not_mem_nil, fun _ => rfl, rfl⟩
  | cons path paths ih =>
    obtain ⟨hopen, htest, hpass'⟩ := hpass
    have hnz' : Counted files paths := fun p hp => hnz p (List.mem_cons_of_mem _ hp)
    rw [scanHammer2, if_pos hopen] at h
    split at h
    · rename_i st1 hfail
      rw [hfail] at htest
      cases htest
    · rename_i st1 hok
      rw [hok] at hpass'
      split at h
      · cases h
      · rename_i vd hvd
        split at h
        · cases h
        · obtain ⟨h1, h2, h3⟩ := ih h hpass' hnz'
          obtain ⟨hz1, hz2, hz3⟩ := testZones_true hok sorted_zones
          have hfs := hz3 fun i vd => hnz path List.mem_cons_self i vd
          have hne : st1.count ≠ 0 := by
            rw [← hfs 0 (List.mem_range.mpr (by decide)) vd hvd]
            exact hnz path List.mem_cons_self 0 vd hvd
          have hst := h2 hne
          refine ⟨fun p hp => ?_, fun hc => hst.trans (hz2 hc), ?_⟩
          · rcases List.mem_cons.mp hp with rfl | hp
            · refine ⟨⟨hopen, ⟨vd, hvd⟩, fun i hi => hz1 i (List.mem_range.mpr hi)⟩, ?_⟩
              intro i vd' hvd'
              rw [hst]
              exact hfs i (List.mem_range.mpr (readVoldata_lt hvd').1) vd' hvd'
            · exact h1 p hp
          · rw [h3, hammer2Ids, hammer2Ids, List.filterMap_cons, voldataOf, if_pos hopen, hvd]
            rfl

theorem hammer2Ids_lt (hvalid : ∀ path ∈ paths, ValidVolume files path) :
    ∀ id ∈ hammer2Ids files paths, id < maxVolumes := by
  intro id hid
  obtain ⟨path, hp, hmap⟩ := List.mem_filterMap.mp hid
  have hv := hvalid path hp
  rw [voldataOf, if_pos hv.opens, Option.map_eq_some_iff] at hmap
  obtain ⟨vd, hvd, rfl⟩ := hmap
  obtain ⟨vd', hvd', hgood⟩ := hv.zones 0 (by decide) (readVoldata_lt hvd).2
  rw [hvd] at hvd'
  cases hvd'
  exact hgood.id

/-- Volumes of one filesystem pass behind a volume of it. -/
theorem passesAll_same (hne : st.count ≠ 0) (hvalid : ∀ path ∈ paths, ValidVolume files path)
    (hsame : ∀ path ∈ paths, ∀ i vd, readVoldata (files path) i = some vd → filesystemOf vd = st) :
    PassesAll files st paths := by
  induction paths with
  | nil => trivial
  | cons path paths ih =>
    have hv := hvalid path List.mem_cons_self
    have htest : testVoldata (files path) st = (true, st) := by
      refine testZones_same hne fun i hi hlt => ?_
      obtain ⟨vd, hvd, hgood⟩ := hv.zones i (List.mem_range.mp hi) hlt
      exact ⟨vd, hvd, hgood, hsame path List.mem_cons_self i vd hvd⟩
    refine ⟨hv.opens, by rw [htest], ?_⟩
    rw [htest]
    exact ih (fun p hp => hvalid p (List.mem_cons_of_mem _ hp))
      (fun p hp => hsame p (List.mem_cons_of_mem _ hp))

/-- If the first device passes, so do the volumes of its filesystem. -/
theorem passesAll_of_complete (h : scanHammer2 files st .init paths = (some s', st'))
    (hv : s'.volid ≠ none) (hvalid : ∀ path ∈ paths, ValidVolume files path)
    {fs : VoldataStatics} (hfs : fs.count ≠ 0)
    (hsame : ∀ path ∈ paths, ∀ i vd, readVoldata (files path) i = some vd → filesystemOf vd = fs) :
    PassesAll files st paths := by
  cases paths with
  | nil => trivial
  | cons path paths =>
    have hval := hvalid path List.mem_cons_self
    rw [scanHammer2, if_pos hval.opens] at h
    split at h
    · cases h
      exact absurd rfl hv
    · rename_i st1 hok
      obtain ⟨vd, hvd⟩ := hval.first
      have hst : filesystemOf vd = st1 := (testZones_true hok sorted_zones).2.2
        (fun i vd hvd => by
          rw [show vd.nvolumes = (filesystemOf vd).count from rfl,
            hsame path List.mem_cons_self i vd hvd]
          exact hfs) 0 (List.mem_range.mpr (by decide)) vd hvd
      rw [hsame path List.mem_cons_self 0 vd hvd] at hst
      subst hst
      refine ⟨hval.opens, by rw [hok], ?_⟩
      rw [hok]
      exact passesAll_same hfs (fun p hp => hvalid p (List.mem_cons_of_mem _ hp))
        (fun p hp => hsame p (List.mem_cons_of_mem _ hp))

end

/-- An accepted list of HAMMER2 volumes is complete if all devices have been looked at, no header
    could leave the static variables unset, and no counter has wrapped. -/
theorem fsvtypHammer2_complete {readLabel : Device → Path → Bool} {files : Path → Device}
    {st : VoldataStatics} {blkdevs : List Char}
    (h : (fsvtypHammer2 readLabel files st blkdevs).1 = true) :
    CompleteHammer2 files (hammer2Devices blkdevs) ↔
      PassesAll files st (hammer2Devices blkdevs) ∧ Counted files (hammer2Devices blkdevs) ∧
        Rare (hammer2Ids files (hammer2Devices blkdevs)) := by
  unfold fsvtypHammer2 at h
  split at h
  · cases h
  rename_i s st' hscan
  split at h
  · cases h
  rename_i root hroot
  split at h
  · cases h
  rename_i vd hvd
  simp only [Bool.and_eq_true, Option.isSome_iff_ne_none] at h
  obtain ⟨⟨hvol, hids⟩, -⟩ := h
  obtain ⟨hmem, vd', hvd', hid⟩ : root ∈ hammer2Devices blkdevs ∧
      ∃ vd, readVoldata (files root) 0 = some vd ∧ vd.voluId = 0 := by
    rcases scanHammer2_root hscan hroot with hr | hr
    · cases hr
    · exact hr
  have hvd0 : readVoldata (files root) 0 = some vd := by
    unfold voldataOf at hvd
    split at hvd
    · exact hvd
    · cases hvd
  rw [hvd0] at hvd'
  cases hvd'
  constructor
  · rintro ⟨hvalid, ⟨fs, hsame⟩, count, honce, hcount⟩
    have hpos : 0 < count := by
      have h0 := honce 0
      have hin : 0 ∈ hammer2Ids files (hammer2Devices blkdevs) :=
        List.mem_filterMap.mpr ⟨root, hmem, by rw [hvd, Option.map_some, hid]⟩
      have := List.count_pos_iff.mpr hin
      split at h0
      · assumption
      · omega
    have hfs : fs.count ≠ 0 := by
      rw [← hsame root hmem 0 vd hvd0, filesystemOf, hcount root hmem vd hvd0 hid]
      exact Nat.ne_of_gt hpos
    refine ⟨passesAll_of_complete hscan hvol hvalid hfs hsame, fun path hp i vd hvd => ?_,
      honce.rare⟩
    rw [show vd.nvolumes = (filesystemOf vd).count from rfl, hsame path hp i vd hvd]
    exact hfs
  · rintro ⟨hpass, hnz, hrare⟩
    obtain ⟨h1, -, h3⟩ := scanHammer2_spec hscan hpass hnz
    rw [h3] at hids
    have hvalid := fun path hp => (h1 path hp).1
    obtain ⟨-, hex⟩ := (idsOk_tally_iff (hammer2Ids_lt hvalid) hrare).mp hids
    refine ⟨hvalid, ⟨st', fun path hp => (h1 path hp).2⟩, vd.nvolumes, hex, ?_⟩
    intro path hp vd' hvd' _
    have he := ((h1 path hp).2 0 vd' hvd').trans ((h1 root hmem).2 0 vd hvd0).symm
    exact congrArg VoldataStatics.count he

/-- Of the lists that are accepted, these are complete. -/
theorem fsvtyp_complete_iff (readLabel : Device → Path → Bool) (files : Path → Device)
    (st : OndiskStatics) (st2 : VoldataStatics) (blkdevs : List Char) :
    ((fsvtypHammer files st blkdevs).1 = true →
      (CompleteHammer files (blkdevs.splitOn ':') ↔
        Rare (hammerIds files (blkdevs.splitOn ':')))) ∧
    ((fsvtypHammer2 readLabel files st2 blkdevs).1 = true →
      (CompleteHammer2 files (hammer2Devices blkdevs) ↔
        PassesAll files st2 (hammer2Devices blkdevs) ∧ Counted files (hammer2Devices blkdevs) ∧
          Rare (hammer2Ids files (hammer2Devices blkdevs)))) :=
  ⟨fsvtypHammer_complete, fsvtypHammer2_complete⟩

/-- A regular file of 64 KB. -/
def smallFile (bytes : Image) : Device where
  opens := true
  regular := true
  ino := (0, 0)
  size := 65536
  bytes := bytes
  fails := fun _ _ => false

/-- The header of volume `id` of a HAMMER2 filesystem. -/
def hammer2Header (id count : UInt8) : Image :=
  Image.write (Image.write (fun _ => 0) 0 (toLE 8 volumeIdHbo)) 0x3B [id, count]

/-- The header of volume `no` of a HAMMER filesystem. -/
def hammerHeader (no count : UInt8) : Image :=
  Image.write (Image.write (Image.write (fun _ => 0) 0 (toLE 8 fsbufVolume)) 144 [no]) 148 [count]

/-- The file `a`, and what every other file is. -/
def twoFiles (a b : Image) (path : Path) : Device := smallFile (if path = ['a'] then a else b)

/-- A list of both volumes is accepted and complete. -/
theorem fsvtyp_complete_pair :
    let files := twoFiles (hammerHeader 0 2) (hammerHeader 1 2)
    let files2 := twoFiles (hammer2Header 0 2) (hammer2Header 1 2)
    let list := ['a', ':', 'b']
    ((fsvtypHammer files ⟨0, [], [], []⟩ list).1 = true ∧
      CompleteHammer files (list.splitOn ':')) ∧
    ((fsvtypHammer2 (fun _ _ => true) files2 ⟨0, [], []⟩ list).1 = true ∧
      CompleteHammer2 files2 (hammer2Devices list)) := by
  intro files files2 list
  have hrare : ∀ ids : List Nat, ids.length < 128 → Rare ids := fun ids h id =>
    Nat.lt_of_le_of_lt List.count_le_length h
  have hone : (fsvtypHammer files ⟨0, [], [], []⟩ list).1 = true := by decide +kernel
  have htwo : (fsvtypHammer2 (fun _ _ => true) files2 ⟨0, [], []⟩ list).1 = true := by
    decide +kernel
  refine ⟨⟨hone, ?_⟩, htwo, ?_⟩
  · exact ((fsvtyp_complete_iff (fun _ _ => true) _ _ ⟨0, [], []⟩ _).1 hone).mpr
      (hrare _ (by decide +kernel))
  · refine ((fsvtyp_complete_iff (fun _ _ => true) _ ⟨0, [], [], []⟩ _ _).2 htwo).mpr
      ⟨⟨rfl, by decide +kernel, rfl, by decide +kernel, trivial⟩, fun path hp i vd hvd => ?_,
        hrare _ (by decide +kernel)⟩
    obtain rfl : i = 0 := by
      have hlt : zoneBytes * i < 65536 := (readVoldata_lt hvd).2
      unfold zoneBytes at hlt
      omega
    have hn : ∀ path ∈ hammer2Devices list, (readVoldata (files2 path) 0).all
        (fun vd => vd.nvolumes == 2) = true := by decide +kernel
    have hvd2 := hn path hp
    rw [hvd, Option.all_some, beq_iff_eq] at hvd2
    rw [hvd2]
    decide

/-- `a:a:...` -/
def repeated : Nat → List Char
  | 0 => ['a']
  | n + 1 => 'a' :: ':' :: repeated n

/-- The second device is 64 KB of zeros; or the same volume is listed 128 times. -/
theorem fsvtyp_accepts_incomplete :
    let files := twoFiles (hammerHeader 0 1) fun _ => 0
    let files2 := twoFiles (hammer2Header 0 1) fun _ => 0
    ((fsvtypHammer2 (fun _ _ => true) files2 ⟨0, [], []⟩ ['a', ':', 'b']).1 = true ∧
      ¬ CompleteHammer2 files2 (hammer2Devices ['a', ':', 'b'])) ∧
    ((fsvtypHammer files ⟨0, [], [], []⟩ (repeated 127)).1 = true ∧
      ¬ CompleteHammer files ((repeated 127).splitOn ':')) := by
  intro files files2
  refine ⟨⟨by decide +kernel, fun h => ?_⟩, by decide +kernel, fun h => ?_⟩
  · obtain ⟨vd, hvd, hgood⟩ := (h.valid ['b'] (by decide)).zones 0 (by decide) (by decide)
    have hbad : (readVoldata (files2 ['b']) 0).all (fun vd => !decide (GoodHeader vd)) = true := by
      decide +kernel
    rw [hvd] at hbad
    simp [hgood] at hbad
  · obtain ⟨count, honce, -⟩ := h.once
    have hmany : (hammerIds files ((repeated 127).splitOn ':')).count 0 = 128 := by decide +kernel
    exact Nat.lt_irrefl _ (hmany ▸ honce.rare 0)

end Lh1.Fstyp
