/-
  newfs_hammer2 (newfs_hammer2/mkfs_hammer2.c).

  The volumes are constructed from the sizes of the devices, checked, and formatted one after the
  other: the root volume gets the reserved area, the boot and aux areas and one block with the inodes
  of the super-root and of up to four PFSs, and every volume gets its header in each zone that begins
  before its end. The uuids, the time and the hash of a label are inputs. Writes to a device do not
  fail within it; what is printed is left out.

  * `newfs_ok`: what a run that completes has checked, and what it has written.
-/
import Lh1.Hammer2.Fsck

namespace Lh1.Hammer2

open Lib

/-! ## Options -/

/-- `HAMMER2_ZONE_SEG`: what is reserved at the beginning of each 1 GB. -/
def zoneSeg : Nat := 4194304

/-- `HAMMER2_BOOT_NOM_BYTES` and `HAMMER2_BOOT_MAX_BYTES`. -/
def bootNom : Nat := 67108864
def bootMax : Nat := 268435456

/-- `HAMMER2_AUX_NOM_BYTES` and `HAMMER2_AUX_MAX_BYTES`. -/
def auxNom : Nat := 268435456
def auxMax : Nat := 1073741824

structure Uuid where
  bytes : List UInt8
  length : bytes.length = 16

/-- A label; `HAMMER2_INODE_MAXNAME` is 256. -/
structure Label where
  name : List UInt8
  short : name.length < 256

/-- `DefaultLabelType`. -/
inductive LabelType where
  | none
  | boot
  | root
  | data
  deriving DecidableEq, Repr

/-- `hammer2_mkfs_options_t`, as main() leaves it: an area of size 0 was not given, `labels` are
    those given after LOCAL, and a default label is there only when none was given. -/
structure MkfsOptions where
  hammer2Version : Nat
  version_ge : 1 ≤ hammer2Version
  version_lt : hammer2Version < 3
  bootAreaSize : Nat
  boot_le : bootAreaSize ≤ bootMax
  auxAreaSize : Nat
  aux_le : auxAreaSize ≤ auxMax
  labels : List Label
  labels_le : labels.length ≤ 3
  defaultLabelType : LabelType
  defaultLabel : defaultLabelType ≠ .none → labels = []
  volFsid : Uuid
  fsType : Uuid
  supClid : Uuid
  supFsid : Uuid
  pfsClid : Nat → Uuid
  pfsFsid : Nat → Uuid
  now : Nat

/-- What the program gets from the host: the functions that compute check codes and the hash of a
    name, and the sector size of a block device. -/
structure NewfsEnv where
  icrc32 : Crc
  xxh64 : List UInt8 → UInt64
  dirhash : List UInt8 → UInt64
  sector : Nat → Option Nat

def Label.LOCAL : Label := ⟨[76, 79, 67, 65, 76], by decide⟩
def Label.BOOT : Label := ⟨[66, 79, 79, 84], by decide⟩
def Label.ROOT : Label := ⟨[82, 79, 79, 84], by decide⟩
def Label.DATA : Label := ⟨[68, 65, 84, 65], by decide⟩

/-- `tolower`. -/
def toLower (c : UInt8) : UInt8 := if 65 ≤ c ∧ c ≤ 90 then c + 32 else c

/-- `strcasecmp` with "BOOT". -/
def Label.isBoot (l : Label) : Bool := l.name.map toLower = [98, 111, 111, 116]

/-- The labels after `adjust_options`. -/
def MkfsOptions.allLabels (o : MkfsOptions) : List Label :=
  Label.LOCAL :: o.labels ++
    match o.defaultLabelType with
    | .none => []
    | .boot => [Label.BOOT]
    | .root => [Label.ROOT]
    | .data => [Label.DATA]

/-- The loop that halves a default size, which is less than `2 ^ 64`. -/
def halve (limit : Nat) : Nat → Nat → Nat
  | 0, size => size
  | n + 1, size => if limit < size then halve limit n (size / 2) else size

/-- The size of an area in `adjust_options`; the least one is the alignment. -/
def areaSize (given nominal total : Nat) : Nat :=
  let size := if given = 0 then max (halve (total / 20) 64 nominal) volumeAlign
    else max given volumeAlign
  (size + (volumeAlign - 1)) / volumeAlign * volumeAlign

/-- What the program computes from the options and the volumes. -/
structure Areas where
  boot : Nat
  aux : Nat
  free : Nat

/-- `adjust_options`, and `free_size` in `hammer2_mkfs`. -/
def areas (o : MkfsOptions) (total : Nat) : Areas :=
  let boot := areaSize o.bootAreaSize bootNom total
  let aux := areaSize o.auxAreaSize auxNom total
  let reserved := addOff total (level1Size - 1) / level1Size * zoneSeg
  { boot := boot
    aux := aux
    free := subOff (subOff (subOff total reserved) boot) aux }

/-- `alloc_base`, where the inodes go. -/
def Areas.allocBase (a : Areas) : Nat := zoneSeg + a.boot + a.aux

/-! ## Inodes -/

def blank : Image := fun _ => 0

/-- The fields of the blockref of an inode, with those that `alloc_direct` sets. -/
def blockrefFields (base comp flags : Nat) (key check : UInt64) : List (Nat × List UInt8) :=
  [(0x00, [1]), (0x01, toLE 1 (3 * 16 + comp)), (0x02, [255]), (0x04, [10]), (0x05, toLE 1 flags),
    (0x08, toLE 8 key.toNat), (0x10, toLE 8 16), (0x20, toLE 8 (base ||| 10)),
    (0x40, toLE 8 check.toNat)]

def inodeBlockref (base comp flags : Nat) (key check : UInt64) : Blockref :=
  blockrefAt (blank.writes (blockrefFields base comp flags key check)) 0

/-- The inode of the root directory of a PFS. -/
def pfsFields (env : NewfsEnv) (o : MkfsOptions) (i : Nat) (label : Label) :
    List (Nat × List UInt8) :=
  [(0x00, toLE 2 1), (0x10, toLE 8 o.now), (0x18, toLE 8 o.now), (0x28, toLE 8 o.now), (0x50, [1]),
    (0x54, toLE 4 0o755), (0x58, toLE 8 1), (0x68, toLE 8 1), (0x80, toLE 2 label.name.length),
    (0x100, label.name), (0x78, toLE 8 (env.dirhash label.name).toNat),
    (0x83, [if label.isBoot then 1 else 2]), (0x85, [3]), (0x90, (o.pfsClid i).bytes),
    (0xA0, (o.pfsFsid i).bytes), (0x87, [6]), (0x51, toLE 1 2), (0x88, toLE 8 16)]

def pfsInode (env : NewfsEnv) (o : MkfsOptions) (i : Nat) (label : Label) : Image :=
  blank.writes (pfsFields env o i label)

def pfsBlockref (env : NewfsEnv) (o : MkfsOptions) (base i : Nat) (label : Label) : Blockref :=
  inodeBlockref (base + 1024 * (i + 1)) 0 1 (env.dirhash label.name)
    (env.xxh64 ((pfsInode env o i label).read 0 1024))

def Blockref.key (b : Blockref) : Nat := fromLE (slice b.bytes 8 16)

/-- `qsort` with `blkrefary_cmp`; the order of equal keys is left open there. -/
def sortBlockrefs (bs : List Blockref) : List Blockref :=
  bs.insertionSort fun b c => b.key ≤ c.key

def emptyBlockref : Blockref := ⟨List.replicate 128 0, by rw [List.length_replicate]⟩

def blockset (bs : List Blockref) : List Blockref :=
  bs ++ List.replicate (4 - bs.length) emptyBlockref

/-- The blockrefs of the PFSs, in the order of the labels. -/
def pfsBlockrefs (env : NewfsEnv) (o : MkfsOptions) (base : Nat) : List Blockref :=
  o.allLabels.mapIdx (pfsBlockref env o base)

/-- The inode of the super-root. -/
def srootFields (env : NewfsEnv) (o : MkfsOptions) (base : Nat) : List (Nat × List UInt8) :=
  [(0x00, toLE 2 1), (0x10, toLE 8 o.now), (0x18, toLE 8 o.now), (0x28, toLE 8 o.now), (0x50, [1]),
    (0x54, toLE 4 0o700), (0x68, toLE 8 2), (0x83, [1]), (0x85, [3]), (0x90, o.supClid.bytes),
    (0xA0, o.supFsid.bytes), (0x87, [8]), (0x100, [83, 85, 80, 82, 79, 79, 84]), (0x80, toLE 2 7),
    (0x200, (blockset (sortBlockrefs (pfsBlockrefs env o base))).flatMap Blockref.bytes)]

def srootInode (env : NewfsEnv) (o : MkfsOptions) (base : Nat) : Image :=
  blank.writes (srootFields env o base)

def srootBlockref (env : NewfsEnv) (o : MkfsOptions) (base : Nat) : Blockref :=
  inodeBlockref base 1 0 0 (env.xxh64 ((srootInode env o base).read 0 1024))

/-- The 64 KB block that `format_hammer2_inode` writes. -/
def inodeBlock (env : NewfsEnv) (o : MkfsOptions) (base : Nat) : Image :=
  blank.writes ((o.allLabels.mapIdx fun i label =>
      (1024 * (i + 1), (pfsInode env o i label).read 0 1024)) ++
    [(0, (srootInode env o base).read 0 1024)])

/-! ## The volume header -/

/-- A blockset without any blockref, in the header of a volume that is not the root volume. -/
def invalidBlockref : Blockref := ⟨7 :: List.replicate 127 0, by simp⟩

/-- What `format_hammer2` writes to the header of a volume. -/
def headerFields (env : NewfsEnv) (o : MkfsOptions) (fso : Ondisk) (a : Areas) (vol : Volume) :
    List (Nat × List UInt8) :=
  let root := vol.id = 0
  [(0x00, toLE 8 volumeIdHbo)] ++
    (if root then [(0x08, toLE 8 zoneSeg), (0x10, toLE 8 (zoneSeg + a.boot)),
      (0x18, toLE 8 (zoneSeg + a.boot)), (0x20, toLE 8 (zoneSeg + a.boot + a.aux))] else []) ++
    [(0x28, toLE 8 vol.size), (0x30, toLE 4 o.hammer2Version)] ++
    (if 2 ≤ o.hammer2Version then
      [(0x3B, toLE 1 vol.id.toNat), (0x3C, toLE 1 fso.nvolumes), (0xC0, toLE 8 fso.totalSize)] ++
        (List.range maxVolumes).map fun i =>
          (0xE00 + 8 * i, toLE 8 (if i < fso.nvolumes then (fso.volumes i).offset else noOffset))
      else []) ++
    [(0x40, o.volFsid.bytes), (0x50, o.fsType.bytes), (0x3A, [3]), (0x60, toLE 8 a.free)] ++
    (if root then [(0x68, toLE 8 a.free),
      (0x70, toLE 8 (a.allocBase + 1024 * (1 + o.allLabels.length)))] else []) ++
    [(0x200, (if root then blockset [srootBlockref env o a.allocBase]
        else List.replicate 4 invalidBlockref).flatMap Blockref.bytes),
      (0x78, toLE 8 16), (0x90, toLE 8 16)]

def newfsHeader (env : NewfsEnv) (o : MkfsOptions) (fso : Ondisk) (a : Areas) (vol : Volume) :
    VolumeData :=
  VolumeData.setCrcs env.icrc32 (blank.writes (headerFields env o fso a vol))

/-! ## Formatting -/

/-- `pwrite`: a file gets longer when it is written to behind its end. -/
def Device.pwrite (dev : Device) (w : Nat × List UInt8) : Device :=
  { dev with size := max dev.size (w.1 + w.2.length), bytes := dev.bytes.write w.1 w.2 }

def Device.pwrites (dev : Device) (ws : List (Nat × List UInt8)) : Device :=
  ws.foldl Device.pwrite dev

def zeroBuf : List UInt8 := List.replicate pbufSize 0

/-- Zeros from `base` on, in `n` buffers. -/
def zeroWrites (base n : Nat) : List (Nat × List UInt8) :=
  (List.range n).map fun i => (base + pbufSize * i, zeroBuf)

/-- `format_hammer2_misc` and `format_hammer2_inode`. -/
def rootWrites (env : NewfsEnv) (o : MkfsOptions) (a : Areas) : List (Nat × List UInt8) :=
  zeroWrites 0 (zoneSeg / pbufSize) ++ zeroWrites zoneSeg ((a.boot + a.aux) / pbufSize) ++
    [(a.allocBase, (inodeBlock env o a.allocBase).read 0 pbufSize)]

def writtenZones (size : Nat) : List Nat :=
  (List.range numVolhdrs).takeWhile fun i => zoneBytes * i < size

def headerWrites (vd : VolumeData) (size : Nat) : List (Nat × List UInt8) :=
  (writtenZones size).map fun i => (zoneBytes * i, vd.read 0 pbufSize)

/-- What `format_hammer2` writes to a volume. -/
def volumeWrites (env : NewfsEnv) (o : MkfsOptions) (fso : Ondisk) (a : Areas) (vol : Volume) :
    List (Nat × List UInt8) :=
  [(vol.size - pbufSize, zeroBuf)] ++ (if vol.id = 0 then rootWrites env o a else []) ++
    headerWrites (newfsHeader env o fso a vol) vol.size

inductive NewfsError where
  | noDevice
  | tooManyVolumes
  | open (path : Nat)
  | fileType (path : Nat)
  | sectorSize (path : Nat)
  | verify (f : Fault)
  | freeSpace
  | write
  | assertion
  deriving DecidableEq, Repr

/-- `format_hammer2`. -/
def formatHammer2 (env : NewfsEnv) (o : MkfsOptions) (fso : Ondisk) (a : Areas)
    (devs : Nat → Device) (vol : Volume) : Except NewfsError (Nat → Device) := do
  check (pbufSize ≤ vol.size) .write
  check (vol.id = 0 → a.allocBase % pbufSize = 0 ∧ a.allocBase < level1Size) .assertion
  .ok (Function.update devs vol.fd.toNat
    ((devs vol.fd.toNat).pwrites (volumeWrites env o fso a vol)))

/-! ## The volumes -/

/-- `check_volume` of subs.c. -/
def checkVolume (env : NewfsEnv) (devs : Nat → Device) (path : Nat) : Except NewfsError Nat :=
  match env.sector path with
  | none => do
    check ((devs path).regular = true) (.fileType path)
    .ok (devs path).size
  | some s => do
    check (¬ (pbufSize < s ∨ pbufSize % s ≠ 0)) (.sectorSize path)
    .ok (devs path).size

/-- The size of volume `i` of `n` on a device of this size. -/
def alignVolume (n i size : Nat) : Nat :=
  size - size % (if i + 1 = n then volumeAlign else level1Size)

/-- The loop of `hammer2_mkfs` that constructs the volumes, from volume `i` of `n` on. -/
def constructVolumes (env : NewfsEnv) (devs : Nat → Device) (n : Nat) :
    Nat → List Nat → Ondisk → Except NewfsError Ondisk
  | _, [], fso => .ok fso
  | i, path :: paths, fso => do
    check ((devs path).opens = true) (.open path)
    let size ← checkVolume env devs path
    constructVolumes env devs n (i + 1) paths (fso.install i
      { fd := path, id := i, offset := fso.totalSize, size := alignVolume n i size })

/-- `hammer2_mkfs`, and the checks of main() on the number of devices. -/
def newfs (env : NewfsEnv) (o : MkfsOptions) (devs : Nat → Device) (paths : List Nat) :
    Except NewfsError (Ondisk × (Nat → Device)) := do
  check (paths ≠ []) .noDevice
  check (paths.length ≤ maxVolumes) .tooManyVolumes
  let fso ← constructVolumes env devs paths.length 0 paths
    { initOndisk with version := o.hammer2Version, nvolumes := paths.length }
  let fso ← (fso.verifyVolumes devs none).mapError .verify
  let a := areas o fso.totalSize
  check (a.free < 9223372036854775808) .freeSpace
  let devs ← ((List.range fso.nvolumes).map fso.volumes).foldlM (formatHammer2 env o fso a) devs
  .ok (fso, devs)

/-! ## The areas -/

section Areas

variable {o : MkfsOptions} {a : Areas} {total given nominal : Nat}

theorem halve_le (limit n size : Nat) : halve limit n size ≤ size := by
  induction n generalizing size with
  | zero => exact le_rfl
  | succ n ih =>
    rw [halve]
    split
    · exact (ih _).trans (Nat.div_le_self _ _)
    · exact le_rfl

theorem areaSize_bounds (total : Nat) (hg : given ≤ auxMax) (hn : nominal ≤ auxMax) :
    volumeAlign ∣ areaSize given nominal total ∧ areaSize given nominal total ≤ auxMax := by
  have hmax : volumeAlign ≤ auxMax := by decide
  have hhalve := (halve_le (total / 20) 64 nominal).trans hn
  unfold areaSize
  dsimp only
  refine ⟨Nat.dvd_mul_left _ _, ?_⟩
  generalize hs : (if given = 0 then max (halve (total / 20) 64 nominal) volumeAlign
    else max given volumeAlign) = size
  have hle : size ≤ auxMax := by
    rw [← hs]
    split
    · exact max_le hhalve hmax
    · exact max_le hg hmax
  unfold auxMax volumeAlign at *
  omega

/-- The inodes go between two boundaries of volumes. -/
theorem areas_allocBase (o : MkfsOptions) (total : Nat) :
    (areas o total).allocBase % volumeAlign = zoneSeg := by
  obtain ⟨⟨x, hx⟩, -⟩ := areaSize_bounds total (o.boot_le.trans (by decide))
    (show bootNom ≤ auxMax by decide)
  obtain ⟨⟨y, hy⟩, -⟩ := areaSize_bounds total o.aux_le (show auxNom ≤ auxMax by decide)
  rw [Areas.allocBase, areas]
  dsimp only
  rw [hx, hy, Nat.add_assoc, ← Nat.mul_add, Nat.add_mul_mod_self_left]
  rfl

/-- What is reserved at the beginning of each 1 GB. -/
def reservedBytes (total : Nat) : Nat := (total + (level1Size - 1)) / level1Size * zoneSeg

/-- There is free space if the areas and what is reserved are no more than there is. -/
theorem areas_free_iff (ht : total < 2 ^ 63) :
    (areas o total).free < 9223372036854775808 ↔
      reservedBytes total + (areas o total).boot + (areas o total).aux ≤ total := by
  have hb := (areaSize_bounds total (o.boot_le.trans (by decide))
    (show bootNom ≤ auxMax by decide)).2
  have ha := (areaSize_bounds total o.aux_le (show auxNom ≤ auxMax by decide)).2
  have hround : addOff total (level1Size - 1) / level1Size * zoneSeg = reservedBytes total := by
    unfold reservedBytes addOff level1Size
    rw [Nat.mod_eq_of_lt (by omega)]
  have hres : reservedBytes total ≤ total + zoneSeg := by
    unfold reservedBytes level1Size zoneSeg
    omega
  rw [areas, hround]
  dsimp only
  generalize areaSize o.bootAreaSize bootNom total = boot at *
  generalize areaSize o.auxAreaSize auxNom total = aux at *
  generalize reservedBytes total = reserved at *
  unfold auxMax zoneSeg at *
  unfold subOff
  omega

/-- Where there is free space, the inodes are within a filesystem of one volume. -/
theorem areas_fit (ht : total < 2 ^ 63) (hfree : (areas o total).free < 9223372036854775808)
    (hpos : 0 < total) : (areas o total).allocBase ≤ total := by
  have hroom := (areas_free_iff ht).mp hfree
  have hres : zoneSeg ≤ reservedBytes total := by
    unfold reservedBytes level1Size zoneSeg
    omega
  rw [Areas.allocBase]
  omega

end Areas

/-! ## What is written -/

section Writes

variable {env : NewfsEnv} {o : MkfsOptions} {fso : Ondisk} {a : Areas} {vol : Volume}
  {w : Nat × List UInt8} {i size : Nat}

@[simp] theorem length_zeroBuf : zeroBuf.length = pbufSize := List.length_replicate

theorem Device.pwrites_eq {dev : Device} {ws : List (Nat × List UInt8)}
    (h : ∀ w ∈ ws, w.1 + w.2.length ≤ dev.size) :
    dev.pwrites ws = { dev with bytes := dev.bytes.writes ws } := by
  induction ws generalizing dev with
  | nil => rfl
  | cons w ws ih =>
    have hsize : (dev.pwrite w).size = dev.size := max_eq_left (h w List.mem_cons_self)
    have hws : ∀ v ∈ ws, v.1 + v.2.length ≤ (dev.pwrite w).size := fun v hv => by
      rw [hsize]
      exact h v (List.mem_cons_of_mem _ hv)
    have hrest := ih hws
    rw [Device.pwrites, List.foldl_cons, ← Device.pwrites, hrest, hsize]
    rfl

theorem mem_writtenZones : i ∈ writtenZones size ↔ i < numVolhdrs ∧ zoneBytes * i < size := by
  rw [writtenZones]
  constructor
  · intro h
    have hmem := (List.takeWhile_sublist _).subset h
    have hlt := List.mem_takeWhile_imp h
    exact ⟨List.mem_range.mp hmem, of_decide_eq_true hlt⟩
  · rintro ⟨hi, hlt⟩
    obtain ⟨k, hk⟩ : ∃ k, numVolhdrs = i + 1 + k := ⟨numVolhdrs - (i + 1), by omega⟩
    have hbelow : ∀ j ∈ List.range (i + 1), decide (zoneBytes * j < size) = true := by
      intro j hj
      have hji : j ≤ i := Nat.lt_succ_iff.mp (List.mem_range.mp hj)
      exact decide_eq_true ((Nat.mul_le_mul_left _ hji).trans_lt hlt)
    rw [hk, List.range_add, List.takeWhile_append_of_pos hbelow]
    exact List.mem_append_left _ List.self_mem_range_succ

/-- A zone that begins before the end of an aligned volume has room for its header. -/
theorem zone_fits (halign : volumeAlign ∣ size) (h : zoneBytes * i < size) :
    zoneBytes * i + pbufSize ≤ size := by
  obtain ⟨x, rfl⟩ := halign
  unfold zoneBytes volumeAlign pbufSize at *
  omega

theorem mem_zeroWrites {base n : Nat} (h : w ∈ zeroWrites base n) :
    base ≤ w.1 ∧ w.1 + w.2.length ≤ base + pbufSize * n := by
  obtain ⟨j, hj, rfl⟩ := List.mem_map.mp h
  have hle := Nat.mul_le_mul_left pbufSize (Nat.succ_le_of_lt (List.mem_range.mp hj))
  rw [length_zeroBuf]
  rw [Nat.mul_succ] at hle
  exact ⟨Nat.le_add_right _ _, by omega⟩

theorem mem_headerWrites {vd : VolumeData} (h : w ∈ headerWrites vd size) :
    ∃ i ∈ writtenZones size, w = (zoneBytes * i, vd.read 0 pbufSize) := by
  obtain ⟨i, hi, rfl⟩ := List.mem_map.mp h
  exact ⟨i, hi, rfl⟩

theorem rootWrites_within (h : w ∈ rootWrites env o a) : w.1 + w.2.length ≤ a.allocBase + pbufSize := by
  have hseg : zoneSeg ≤ a.allocBase := by
    rw [Areas.allocBase]
    omega
  rw [rootWrites] at h
  rcases List.mem_append.mp h with h | h
  · rcases List.mem_append.mp h with h | h
    · have := (mem_zeroWrites h).2
      have hdiv : pbufSize * (zoneSeg / pbufSize) = zoneSeg := by decide
      omega
    · have := (mem_zeroWrites h).2
      have hdiv := Nat.mul_div_le (a.boot + a.aux) pbufSize
      rw [Areas.allocBase]
      omega
  · rw [List.mem_singleton.mp h, Image.length_read]

theorem volumeWrites_within (hsize : pbufSize ≤ vol.size) (halign : volumeAlign ∣ vol.size)
    (halloc : vol.id = 0 → a.allocBase + pbufSize ≤ vol.size) (h : w ∈ volumeWrites env o fso a vol) :
    w.1 + w.2.length ≤ vol.size := by
  rw [volumeWrites] at h
  rcases List.mem_append.mp h with h | h
  · rcases List.mem_append.mp h with h | h
    · rw [List.mem_singleton.mp h, length_zeroBuf, Nat.sub_add_cancel hsize]
    · split at h
      · rename_i hid
        exact (rootWrites_within h).trans (halloc hid)
      · cases h
  · obtain ⟨i, hi, rfl⟩ := mem_headerWrites h
    rw [Image.length_read]
    exact zone_fits halign (mem_writtenZones.mp hi).2

end Writes

/-! ## What a run has done -/

section Run

variable {env : NewfsEnv} {o : MkfsOptions} {devs devs' : Nat → Device} {paths : List Nat}
  {fso fso' : Ondisk} {a : Areas} {vol : Volume} {n i path : Nat}

theorem checkVolume_ok {size : Nat} (h : checkVolume env devs path = .ok size) :
    size = (devs path).size := by
  unfold checkVolume at h
  split at h
  · simp only [check_bind_ok_iff] at h
    cases h.2
    rfl
  · simp only [check_bind_ok_iff] at h
    cases h.2
    rfl

/-- Volume `i` of `n`, on this device. -/
structure OnDevice (devs : Nat → Device) (n i path : Nat) (vol : Volume) : Prop where
  opens : (devs path).opens = true
  fd : vol.fd = path
  id : vol.id = i
  size : vol.size = alignVolume n i (devs path).size
  offset_lt : vol.offset < 18446744073709551616

/-- The loop that constructs the volumes from volume `i` on. -/
theorem constructVolumes_ok (h : constructVolumes env devs n i paths fso = .ok fso')
    (hwf : fso.Wf) (hfree : ∀ j, i ≤ j → fso.volumes j = initVolume)
    (hle : i + paths.length ≤ maxVolumes) :
    fso'.Wf ∧ fso'.version = fso.version ∧ fso'.nvolumes = fso.nvolumes ∧
      (∀ j < i, fso'.volumes j = fso.volumes j) ∧
      (∀ j, i + paths.length ≤ j → fso'.volumes j = initVolume) ∧
      ∀ j path, paths[j]? = some path → OnDevice devs n (i + j) path (fso'.volumes (i + j)) := by
  induction paths generalizing i fso with
  | nil =>
    cases h
    exact ⟨hwf, rfl, rfl, fun _ _ => rfl, hfree, fun j path hj => by cases hj⟩
  | cons path paths ih =>
    rw [constructVolumes, check_bind_ok_iff] at h
    obtain ⟨hopen, h⟩ := h
    obtain ⟨size, hsize, h⟩ := except_bind_ok_iff.mp h
    rw [List.length_cons] at hle
    generalize hv : ({ fd := path, id := i, offset := fso.totalSize, size := alignVolume n i size } :
      Volume) = vol at h
    have hpres : ¬ fso.Present i := not_not.mpr (by rw [hfree i le_rfl]; rfl)
    have hvol : (fso.install i vol).volumes = Function.update fso.volumes i vol := rfl
    obtain ⟨hwf', hver, hn, hlow, hhigh, hdev⟩ := ih h
      (hwf.install (by omega) hpres (by rw [← hv]))
      (fun j hj => by rw [hvol, Function.update_of_ne (by omega), hfree j (by omega)]) (by omega)
    refine ⟨hwf', hver, hn, fun j hj => ?_, fun j hj => hhigh j ?_, fun j path' hj => ?_⟩
    · rw [hlow j (by omega), hvol, Function.update_of_ne (by omega)]
    · rw [List.length_cons] at hj
      omega
    · cases j with
      | zero =>
        cases hj
        rw [Nat.add_zero, hlow i (Nat.lt_succ_self i), hvol, Function.update_self, ← hv]
        refine ⟨check_ok_iff.mp hopen, rfl, rfl, by rw [checkVolume_ok hsize], ?_⟩
        rw [hwf.total]
        exact Nat.mod_lt _ (by decide)
      | succ j =>
        have := hdev j path' hj
        rwa [Nat.add_right_comm] at this

theorem formatHammer2_ok (h : formatHammer2 env o fso a devs vol = .ok devs') :
    pbufSize ≤ vol.size ∧
      (vol.id = 0 → a.allocBase % pbufSize = 0 ∧ a.allocBase < level1Size) ∧
      devs' = Function.update devs vol.fd.toNat
        ((devs vol.fd.toNat).pwrites (volumeWrites env o fso a vol)) := by
  unfold formatHammer2 at h
  simp only [check_bind_ok_iff, check_ok_iff] at h
  obtain ⟨hsize, halloc, h⟩ := h
  cases h
  exact ⟨hsize, halloc, rfl⟩

/-- The loop that formats the volumes, which are on different devices. -/
theorem formatAll_ok {vols : List Volume}
    (h : vols.foldlM (formatHammer2 env o fso a) devs = .ok devs')
    (hnd : (vols.map fun vol => vol.fd.toNat).Nodup) :
    (∀ vol ∈ vols, pbufSize ≤ vol.size ∧
        (vol.id = 0 → a.allocBase % pbufSize = 0 ∧ a.allocBase < level1Size) ∧
        devs' vol.fd.toNat = (devs vol.fd.toNat).pwrites (volumeWrites env o fso a vol)) ∧
      ∀ path ∉ vols.map fun vol => vol.fd.toNat, devs' path = devs path := by
  induction vols generalizing devs with
  | nil =>
    cases h
    exact ⟨fun vol hvol => absurd hvol List.not_mem_nil, fun _ _ => rfl⟩
  | cons vol vols ih =>
    rw [List.foldlM_cons] at h
    obtain ⟨devs1, h1, h⟩ := except_bind_ok_iff.mp h
    obtain ⟨hsize, halloc, rfl⟩ := formatHammer2_ok h1
    rw [List.map_cons, List.nodup_cons] at hnd
    obtain ⟨hall, hrest⟩ := ih h hnd.2
    refine ⟨fun v hv => ?_, fun path hp => ?_⟩
    · rcases List.mem_cons.mp hv with rfl | hv
      · rw [hrest _ hnd.1, Function.update_self]
        exact ⟨hsize, halloc, rfl⟩
      · have hne : v.fd.toNat ≠ vol.fd.toNat := fun heq =>
          hnd.1 (heq ▸ List.mem_map_of_mem (f := fun vol : Volume => vol.fd.toNat) hv)
        have := hall v hv
        rwa [Function.update_of_ne hne] at this
    · rw [List.map_cons, List.mem_cons, not_or] at hp
      rw [hrest path hp.2, Function.update_of_ne hp.1]

/-- A device of a size that a file can have, and whose reads return what is there. -/
structure Device.Works (dev : Device) : Prop where
  size_lt : dev.size < 2 ^ 63
  reads : ∀ off len, dev.fails off len = false

/-- The volumes that were constructed, and what the devices are after formatting. -/
structure Formatted (env : NewfsEnv) (o : MkfsOptions) (devs : Nat → Device) (paths : List Nat)
    (fso : Ondisk) (devs' : Nat → Device) : Prop where
  pos : 0 < paths.length
  le_max : paths.length ≤ maxVolumes
  nvolumes : fso.nvolumes = paths.length
  version : fso.version = o.hammer2Version
  wf : fso.Wf
  volume : ∀ i path, paths[i]? = some path → OnDevice devs paths.length i path (fso.volumes i)
  rest : ∀ i, paths.length ≤ i → fso.volumes i = initVolume
  verified : fso.verifyVolumes devs none = .ok fso
  nodup : paths.Nodup
  fits : ∀ i path, paths[i]? = some path → pbufSize ≤ (fso.volumes i).size
  alloc : (areas o fso.totalSize).allocBase + pbufSize ≤ (fso.volumes 0).size
  alloc_lt : (areas o fso.totalSize).allocBase < level1Size
  device : ∀ i path, paths[i]? = some path → devs' path = { devs path with
    bytes := (devs path).bytes.writes
      (volumeWrites env o fso (areas o fso.totalSize) (fso.volumes i)) }
  others : ∀ path ∉ paths, devs' path = devs path

theorem alignVolume_dvd (n i size : Nat) : volumeAlign ∣ alignVolume n i size := by
  unfold alignVolume
  split
  · exact Nat.dvd_sub_mod _
  · exact (show volumeAlign ∣ level1Size by decide).trans (Nat.dvd_sub_mod _)

/-- The volumes that are there are those that were constructed. -/
theorem count_eq (hle : n ≤ maxVolumes) (hp : ∀ i, fso.Present i ↔ i < n) : fso.count = n := by
  have hiff : ∀ i < maxVolumes, i < fso.count ↔ i < n := fun i hi => by
    rw [Ondisk.count, lt_count_iff (fun i hi => (hp i).mpr (Nat.lt_of_succ_lt ((hp _).mp hi))) hi, hp]
  have hcount : fso.count ≤ maxVolumes := Nat.count_le _
  rcases Nat.lt_trichotomy fso.count n with h | h | h
  · exact absurd ((hiff _ (h.trans_le hle)).mpr h) (lt_irrefl _)
  · exact h
  · exact absurd ((hiff _ (h.trans_le hcount)).mp h) (lt_irrefl _)

/-- Two volumes are on different devices. -/
theorem nodup_of_verified (hcommon : fso.verifyVolumesCommon devs = .ok ())
    (hle : paths.length ≤ maxVolumes)
    (hvol : ∀ i path, paths[i]? = some path → OnDevice devs n i path (fso.volumes i)) :
    paths.Nodup := by
  rw [Ondisk.verifyVolumesCommon] at hcommon
  simp only [check_bind_ok_iff, forM_ok_iff, List.mem_range] at hcommon
  have hstat : ∀ i path, paths[i]? = some path →
      fso.Present i ∧ fso.stat devs i = (devs path).ino := by
    intro i path hi
    have hdev := hvol i path hi
    have hp : fso.Present i := by
      rw [Ondisk.Present, hdev.id]
      omega
    rw [Ondisk.stat, if_pos hp, hdev.fd]
    exact ⟨hp, rfl⟩
  rw [List.Nodup, List.pairwise_iff_getElem]
  intro i j hi hj hij heq
  obtain ⟨-, hsi⟩ := hstat i _ (List.getElem?_eq_getElem hi)
  obtain ⟨hpj, hsj⟩ := hstat j _ (List.getElem?_eq_getElem hj)
  have hslot := hcommon.2 j (hj.trans_le hle)
  rw [Ondisk.verifyCommon, if_neg (not_not.mpr hpj)] at hslot
  simp only [check_bind_ok_iff, check_ok_iff] at hslot
  exact hslot.2.1 i hij (by rw [hsi, hsj, heq])

theorem totalSize_of_one (hwf : fso.Wf) (hid : (fso.volumes 0).id = 0)
    (hrest : ∀ i, 1 ≤ i → fso.volumes i = initVolume) (hlt : (fso.volumes 0).size < 2 ^ 63) :
    fso.totalSize = (fso.volumes 0).size := by
  have hsum : fso.sizes = (fso.volumes 0).size := by
    rw [Ondisk.sizes, Finset.sum_eq_single 0]
    · exact if_neg (by omega)
    · intro i _ hi
      rw [hrest i (Nat.one_le_iff_ne_zero.mpr hi)]
      rfl
    · exact fun h => absurd (Finset.mem_range.mpr (by decide)) h
  rw [hwf.total, hsum]
  omega

/-- The inodes are within the root volume. -/
theorem alloc_fits (hn : fso.nvolumes = paths.length) (hpos : 0 < paths.length) (hwf : fso.Wf)
    (hvol : ∀ i path, paths[i]? = some path → OnDevice devs paths.length i path (fso.volumes i))
    (hrest : ∀ i, paths.length ≤ i → fso.volumes i = initVolume)
    (hlt : (fso.volumes 0).size < 2 ^ 63) (hsize : pbufSize ≤ (fso.volumes 0).size)
    (hver : paths.length ≠ 1 → fso.verifyVolumes2 none = .ok ())
    (hfree : (areas o fso.totalSize).free < 9223372036854775808)
    (halloc : (areas o fso.totalSize).allocBase % pbufSize = 0 ∧
      (areas o fso.totalSize).allocBase < level1Size) :
    (areas o fso.totalSize).allocBase + pbufSize ≤ (fso.volumes 0).size := by
  have hdev := hvol 0 _ (List.getElem?_eq_getElem hpos)
  have hid : (fso.volumes 0).id = 0 := hdev.id
  have hdvd : volumeAlign ∣ (fso.volumes 0).size := hdev.size ▸ alignVolume_dvd _ _ _
  by_cases hone : paths.length = 1
  · have htotal := totalSize_of_one hwf hid (fun i hi => hrest i (hone ▸ hi)) hlt
    have hpos' : 0 < fso.totalSize := htotal ▸ (show 0 < pbufSize by decide).trans_le hsize
    have hle := areas_fit (o := o) (htotal ▸ hlt) hfree hpos'
    have hmod := areas_allocBase o fso.totalSize
    rw [htotal] at hle hmod ⊢
    obtain ⟨x, hx⟩ := hdvd
    unfold volumeAlign zoneSeg pbufSize at *
    omega
  · -- the root volume is not the last one, so it has 1 GB
    have h2 := hver hone
    rw [Ondisk.verifyVolumes2] at h2
    simp only [check_bind_ok_iff, forM_ok_iff, List.mem_range] at h2
    have hslot := h2.2.2 0 (by decide)
    rw [Ondisk.verify2, if_neg (not_not.mpr (show fso.Present 0 by rw [Ondisk.Present, hid]; omega))]
      at hslot
    simp only [check_bind_ok_iff] at hslot
    have hsz := hslot.2.2
    rw [Ondisk.verifySize, if_pos (by omega)] at hsz
    simp only [check_bind_ok_iff, check_ok_iff] at hsz
    obtain ⟨hmod, hlt1⟩ := halloc
    unfold level1Size pbufSize at *
    omega

/-- The volumes that were constructed and accepted. -/
structure Constructed (o : MkfsOptions) (devs : Nat → Device) (paths : List Nat) (fso : Ondisk) :
    Prop where
  nvolumes : fso.nvolumes = paths.length
  version : fso.version = o.hammer2Version
  wf : fso.Wf
  volume : ∀ i path, paths[i]? = some path → OnDevice devs paths.length i path (fso.volumes i)
  rest : ∀ i, paths.length ≤ i → fso.volumes i = initVolume
  verify2 : paths.length ≠ 1 → fso.verifyVolumes2 none = .ok ()

/-- Verification changes nothing. -/
theorem constructed_ok {f : Ondisk} (hle : paths.length ≤ maxVolumes)
    (hcons : constructVolumes env devs paths.length 0 paths
      { initOndisk with version := o.hammer2Version, nvolumes := paths.length } = .ok f)
    (hver : f.verifyVolumes devs none = .ok fso) : fso = f ∧ Constructed o devs paths f := by
  obtain ⟨hwf, hversion, hn, -, hrest, hvol⟩ := constructVolumes_ok hcons
    ⟨initOndisk_wf.id, initOndisk_wf.total⟩ (fun _ _ => rfl) (by omega)
  replace hn : f.nvolumes = paths.length := hn
  simp only [Nat.zero_add] at hrest hvol
  have hpres : ∀ i, f.Present i ↔ i < paths.length := by
    intro i
    rcases Nat.lt_or_ge i paths.length with hi | hi
    · have hid := (hvol i _ (List.getElem?_eq_getElem hi)).id
      refine iff_of_true ?_ hi
      rw [Ondisk.Present, hid]
      omega
    · refine iff_of_false (not_not.mpr ?_) (Nat.not_lt.mpr hi)
      rw [hrest i hi]
      rfl
  have hcount : f.count = paths.length := count_eq hle hpres
  rcases (Ondisk.verifyVolumes_ok hver).2 with ⟨-, heq, h2, -⟩ | ⟨-, h1, heq⟩
  · exact ⟨heq, hn, hversion, hwf, hvol, hrest, fun _ => h2⟩
  · have hone : f.count = 1 := by
      rw [Ondisk.verifyVolumes1, check_bind_ok_iff] at h1
      exact check_ok_iff.mp h1.1
    refine ⟨?_, hn, hversion, hwf, hvol, hrest, fun hne => absurd (hcount ▸ hone) hne⟩
    rw [heq, hcount, ← hn]

/-- What a run that completes has checked and written. -/
theorem newfs_ok (hw : ∀ path, (devs path).Works)
    (h : newfs env o devs paths = .ok (fso, devs')) : Formatted env o devs paths fso devs' := by
  unfold newfs at h
  simp only [check_bind_ok_iff, check_ok_iff] at h
  obtain ⟨hne, hle, h⟩ := h
  have hpos : 0 < paths.length := List.length_pos_iff.mpr hne
  obtain ⟨f, hcons, h⟩ := except_bind_ok_iff.mp h
  obtain ⟨f', hver, h⟩ := except_bind_ok_iff.mp h
  simp only [check_bind_ok_iff, check_ok_iff] at h
  obtain ⟨hfree, h⟩ := h
  obtain ⟨d, hfmt, h⟩ := except_bind_ok_iff.mp h
  cases h
  replace hver : f.verifyVolumes devs none = .ok fso := by
    cases hv : f.verifyVolumes devs none with
    | error e => rw [hv] at hver; cases hver
    | ok g => rw [hv] at hver; cases hver; rfl
  obtain ⟨rfl, hC⟩ := constructed_ok hle hcons hver
  obtain ⟨hn, hversion, hwf, hvol, hrest, hver2⟩ := hC
  have hnodup := nodup_of_verified (Ondisk.verifyVolumes_ok hver).1 hle hvol
  have hfds : ((List.range fso.nvolumes).map fso.volumes).map (fun vol => vol.fd.toNat) = paths := by
    rw [hn]
    refine List.ext_getElem (by simp) fun i h1 h2 => ?_
    have hfd := (hvol i _ (List.getElem?_eq_getElem h2)).fd
    simp only [List.getElem_map, List.getElem_range, hfd]
    rfl
  obtain ⟨hall, hothers⟩ := formatAll_ok hfmt (hfds ▸ hnodup)
  rw [hfds] at hothers
  have hformat : ∀ i path, paths[i]? = some path → _ := fun i path hi =>
    hall (fso.volumes i) (List.mem_map_of_mem (List.mem_range.mpr
      (hn ▸ (List.getElem?_eq_some_iff.mp hi).1)))
  have hdev0 := hvol 0 _ (List.getElem?_eq_getElem hpos)
  have hfit0 := hformat 0 _ (List.getElem?_eq_getElem hpos)
  have hsize : ∀ i path, paths[i]? = some path → (fso.volumes i).size ≤ (devs path).size := by
    intro i path hi
    rw [(hvol i path hi).size, alignVolume]
    exact Nat.sub_le _ _
  have halloc := alloc_fits hn hpos hwf hvol hrest
    ((hsize 0 _ (List.getElem?_eq_getElem hpos)).trans_lt (hw _).size_lt) hfit0.1 hver2 hfree
    (hfit0.2.1 hdev0.id)
  refine ⟨hpos, hle, hn, hversion, hwf, hvol, hrest, hver, hnodup, fun i path hi => (hformat i path hi).1,
    halloc, (hfit0.2.1 hdev0.id).2, fun i path hi => ?_, hothers⟩
  have hdev := hvol i path hi
  have hfmt := (hformat i path hi).2.2
  rw [hdev.fd, Int.toNat_natCast] at hfmt
  rw [hfmt, Device.pwrites_eq]
  intro w hw'
  refine (volumeWrites_within (hformat i path hi).1 (hdev.size ▸ alignVolume_dvd _ _ _) (fun hid => ?_)
    hw').trans (hsize i path hi)
  have hi0 : i = 0 := by
    have := hdev.id
    omega
  rw [hi0]
  exact halloc

end Run

end Lh1.Hammer2
