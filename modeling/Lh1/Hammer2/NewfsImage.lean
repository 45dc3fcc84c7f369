/-
  What newfs_hammer2 leaves on the devices.

  Headers and inodes are lists of fields that do not overlap, and a device is a list of writes, so a
  field is read back as it was written wherever nothing was written later. The header is read back
  from each zone it was written to, the inodes from the root volume.

  * `Stored.headerOf`, `Stored.valid`: what a header says, and that it passes.
  * `Formatted.stored`, `Formatted.inodes`, `Formatted.behind`: what is on a device.
  * `Formatted.sound_zone`: the trees of a zone pass verification.
-/
import Lh1.Hammer2.Newfs
import Lh1.Hammer2.FsckTotal

namespace Lh1.Hammer2

open Lib

/-! ## The header -/

section Header

variable {env : NewfsEnv} {o : MkfsOptions} {fso : Ondisk} {a : Areas} {vol : Volume}

theorem length_flatMap_bytes (bs : List Blockref) :
    (bs.flatMap Blockref.bytes).length = 128 * bs.length := by
  induction bs with
  | nil => rfl
  | cons b bs ih => rw [List.flatMap_cons, List.length_append, ih, b.length, List.length_cons]; omega

theorem length_blockset {bs : List Blockref} (h : bs.length ≤ 4) : (blockset bs).length = 4 := by
  rw [blockset, List.length_append, List.length_replicate]
  omega

/-- The extents of the fields of a header: those of the root volume, and those of version 2. -/
def headerLayout (root multi : Bool) : List (Nat × Nat) :=
  [(0x00, 8)] ++ (if root then [(0x08, 8), (0x10, 8), (0x18, 8), (0x20, 8)] else []) ++
    [(0x28, 8), (0x30, 4)] ++
    (if multi then [(0x3B, 1), (0x3C, 1), (0xC0, 8)] ++
      (List.range maxVolumes).map fun i => (0xE00 + 8 * i, 8) else []) ++
    [(0x40, 16), (0x50, 16), (0x3A, 1), (0x60, 8)] ++
    (if root then [(0x68, 8), (0x70, 8)] else []) ++ [(0x200, 512), (0x78, 8), (0x90, 8)]

theorem headerFields_extent : (headerFields env o fso a vol).map Image.extent
    = headerLayout (vol.id = 0) (2 ≤ o.hammer2Version) := by
  have hroot : (blockset [srootBlockref env o a.allocBase]).length = 4 := rfl
  have hother : (List.replicate 4 invalidBlockref).length = 4 := rfl
  by_cases hid : vol.id = 0 <;> by_cases hv : 2 ≤ o.hammer2Version <;>
    simp only [headerFields, headerLayout, hid, hv, if_true, if_false, decide_true, decide_false,
      Bool.false_eq_true, List.map_append, List.map_cons, List.map_nil, Image.extent, length_toLE,
      Uuid.length, length_flatMap_bytes, hroot, hother, List.map_map, Function.comp_def,
      List.length_singleton]

theorem headerLayout_apart (root multi : Bool) :
    (headerLayout root multi).Pairwise Image.Apart := by
  cases root <;> cases multi <;> decide +kernel

/-- A header, up to the end of its buffer. -/
def Stored (env : NewfsEnv) (o : MkfsOptions) (fso : Ondisk) (a : Areas) (vol : Volume)
    (vd : VolumeData) : Prop :=
  ∀ k < pbufSize, vd k = newfsHeader env o fso a vol k

variable {vd : VolumeData} {p w v : Nat}

/-- Away from the CRCs a header is what was written to its fields. -/
theorem Stored.read (h : Stored env o fso a vol vd)
    (hp : p + w ≤ 0x01F8 ∨ 0x0200 ≤ p ∧ p + w ≤ 0xFFFC) :
    vd.read p w = (blank.writes (headerFields env o fso a vol)).read p w :=
  Image.read_congr fun i h1 h2 => by
    rw [h i (by unfold pbufSize; omega), newfsHeader]
    exact VolumeData.setCrcs_apply _ _ (by omega)

theorem Stored.field (h : Stored env o fso a vol vd) (hm : (p, toLE w v) ∈ headerFields env o fso a vol)
    (hv : v < 256 ^ w) (hp : p + w ≤ 0x01F8 ∨ 0x0200 ≤ p ∧ p + w ≤ 0xFFFC) : vd.word p w = v := by
  rw [Image.word, h.read hp]
  exact Image.word_writes_of_mem (headerFields_extent ▸ headerLayout_apart _ _) hm hv

theorem read_blank : blank.read p w = List.replicate w 0 := by
  rw [Image.read]
  exact List.eq_replicate_iff.mpr ⟨by simp, by simp [blank]⟩

theorem fromLE_replicate_zero (w : Nat) : fromLE (List.replicate w 0) = 0 := by
  induction w with
  | zero => rfl
  | succ w ih => rw [List.replicate_succ, fromLE, ih]; rfl

/-- What is not written is zero. -/
theorem Stored.gap (h : Stored env o fso a vol vd)
    (hgap : ∀ e ∈ headerLayout (vol.id = 0) (2 ≤ o.hammer2Version), Image.Apart (p, w) e)
    (hp : p + w ≤ 0x01F8 ∨ 0x0200 ≤ p ∧ p + w ≤ 0xFFFC) : vd.read p w = List.replicate w 0 := by
  rw [h.read hp, Image.read_writes_of_disjoint, read_blank]
  intro e he
  exact hgap _ (headerFields_extent ▸ List.mem_map_of_mem he)

/-- What is read back from a header. -/
structure HeaderOf (o : MkfsOptions) (fso : Ondisk) (vol : Volume) (vd : VolumeData) : Prop where
  magic : vd.magic = volumeIdHbo
  mirrorTid : vd.mirrorTid = 16
  size : vd.voluSize = vol.size
  version : vd.version = o.hammer2Version
  fsid : vd.fsid = o.volFsid.bytes
  fstype : vd.fstype = o.fsType.bytes
  multi : 2 ≤ o.hammer2Version → vd.voluId = vol.id.toNat ∧ vd.nvolumes = fso.nvolumes ∧
    vd.totalSize = fso.totalSize ∧ ∀ i < maxVolumes,
      vd.voluLoff i = if i < fso.nvolumes then (fso.volumes i).offset else noOffset
  single : o.hammer2Version < 2 → vd.voluId = 0 ∧ vd.nvolumes = 0 ∧ vd.totalSize = 0 ∧
    ∀ i < maxVolumes, vd.voluLoff i = 0

/-- No field of a version 1 header is where version 2 has its own. -/
theorem headerLayout_gaps (root : Bool) : ∀ e ∈ headerLayout root false,
    Image.Apart (0x3B, 1) e ∧ Image.Apart (0x3C, 1) e ∧ Image.Apart (0xC0, 8) e ∧
      ∀ i < maxVolumes, Image.Apart (0xE00 + 8 * i, 8) e := by
  cases root <;> decide +kernel

theorem Stored.headerOf (h : Stored env o fso a vol vd) (hsize : vol.size < 256 ^ 8)
    (hid : vol.id.toNat < 256) (hn : fso.nvolumes < 256) (htotal : fso.totalSize < 256 ^ 8)
    (hoff : ∀ i < fso.nvolumes, (fso.volumes i).offset < 256 ^ 8) : HeaderOf o fso vol vd where
  magic := h.field (by simp [headerFields]) (by decide) (by decide)
  mirrorTid := h.field (by simp [headerFields]) (by decide) (by decide)
  size := h.field (by simp [headerFields]) hsize (by decide)
  version := h.field (by simp [headerFields]) (o.version_lt.trans (by decide)) (by decide)
  fsid := by
    rw [VolumeData.fsid, h.read (by decide)]
    have hm : (0x40, o.volFsid.bytes) ∈ headerFields env o fso a vol := by simp [headerFields]
    have := Image.read_writes_of_mem (m := blank) (headerFields_extent ▸ headerLayout_apart _ _) hm
    rwa [Uuid.length] at this
  fstype := by
    rw [VolumeData.fstype, h.read (by decide)]
    have hm : (0x50, o.fsType.bytes) ∈ headerFields env o fso a vol := by simp [headerFields]
    have := Image.read_writes_of_mem (m := blank) (headerFields_extent ▸ headerLayout_apart _ _) hm
    rwa [Uuid.length] at this
  multi hv := by
    refine ⟨h.field (by simp [headerFields, hv]) hid (by decide),
      h.field (by simp [headerFields, hv]) hn (by decide),
      h.field (by simp [headerFields, hv]) htotal (by decide), fun i hi => ?_⟩
    have hi64 : i < 64 := hi
    refine h.field ?_ ?_ (by omega)
    · simp only [headerFields, if_pos hv]
      simp only [List.mem_append, List.mem_map, List.mem_range]
      exact Or.inl (Or.inl (Or.inl (Or.inr (Or.inr ⟨i, hi, rfl⟩))))
    · split
      · rename_i hlt
        exact hoff i hlt
      · decide
  single hv := by
    have hfalse : decide (2 ≤ o.hammer2Version) = false := decide_eq_false (by omega)
    have hgap := headerLayout_gaps (vol.id = 0)
    rw [← hfalse] at hgap
    have hzero : ∀ {p w}, (∀ e ∈ headerLayout (vol.id = 0) (2 ≤ o.hammer2Version),
        Image.Apart (p, w) e) → (p + w ≤ 0x01F8 ∨ 0x0200 ≤ p ∧ p + w ≤ 0xFFFC) →
        vd.word p w = 0 := fun hg hp => by
      rw [Image.word, h.gap hg hp, fromLE_replicate_zero]
    refine ⟨hzero (fun e he => (hgap e he).1) (by decide), hzero (fun e he => (hgap e he).2.1) (by decide),
      hzero (fun e he => (hgap e he).2.2.1) (by decide), fun i hi => ?_⟩
    have hi64 : i < 64 := hi
    exact hzero (fun e he => (hgap e he).2.2.2 i hi) (by omega)

theorem Stored.valid (h : Stored env o fso a vol vd) : vd.Valid env.icrc32 :=
  ⟨h.field (by simp [headerFields]) (by decide) (by decide),
    (VolumeData.crcsOk_congr h).mpr (VolumeData.setCrcs_crcsOk _ _)⟩

theorem Stored.sroot (h : Stored env o fso a vol vd) (hid : vol.id = 0) :
    blockrefsAt vd 0x200 4 = blockset [srootBlockref env o a.allocBase] := by
  have hm : (0x200, (blockset [srootBlockref env o a.allocBase]).flatMap Blockref.bytes) ∈
      headerFields env o fso a vol := by
    simp [headerFields, hid]
  have hread := Image.read_writes_of_mem (m := blank) (headerFields_extent ▸ headerLayout_apart _ _) hm
  have hlen : (blockset [srootBlockref env o a.allocBase]).length = 4 := rfl
  rw [length_flatMap_bytes, hlen] at hread
  exact blockrefsAt_of_read (blockset [_]) (hlen ▸ (h.read (by decide)).trans hread)

theorem blockrefsAt_empty {m : Image} (h : m.read p (128 * w) = List.replicate (128 * w) 0) :
    blockrefsAt m p w = List.replicate w emptyBlockref := by
  have hbytes : (List.replicate w emptyBlockref).flatMap Blockref.bytes
      = List.replicate (128 * w) 0 := by
    rw [List.flatMap_replicate, emptyBlockref, List.flatten_replicate_replicate, Nat.mul_comm]
  have hlen : (List.replicate w emptyBlockref).length = w := List.length_replicate
  have := blockrefsAt_of_read (List.replicate w emptyBlockref) (m := m) (o := p)
    (by rw [hlen, h, hbytes])
  rwa [hlen] at this

theorem headerLayout_freemap (root multi : Bool) :
    ∀ e ∈ headerLayout root multi, Image.Apart (0x800, 512) e := by
  cases root <;> cases multi <;> decide +kernel

theorem Stored.freemap (h : Stored env o fso a vol vd) :
    blockrefsAt vd 0x800 4 = List.replicate 4 emptyBlockref := by
  exact blockrefsAt_empty (h.gap (headerLayout_freemap _ _) (by decide))

end Header

/-! ## Inodes -/

section Inode

variable {base comp flags p w : Nat} {key check : UInt64}

theorem inodeBlockref_slice (hp : p + w ≤ 128) :
    slice (inodeBlockref base comp flags key check).bytes p (p + w)
      = (blank.writes (blockrefFields base comp flags key check)).read p w := by
  have h := Image.slice_read (m := blank.writes (blockrefFields base comp flags key check)) (o := 0) hp
  rwa [Nat.zero_add] at h

theorem blockrefFields_apart :
    ((blockrefFields base comp flags key check).map Image.extent).Pairwise Image.Apart := by
  simp only [blockrefFields, List.map_cons, List.map_nil, Image.extent, length_toLE,
    List.length_singleton]
  decide

theorem or_radix (h : 1024 ∣ base) : base ||| 10 = base + 10 := by
  obtain ⟨x, rfl⟩ := h
  exact (Nat.two_pow_add_eq_or_of_lt (i := 10) (by decide) x).symm

/-- What verification sees of the blockref of an inode. -/
theorem inodeBlockref_fields (flags : Nat) (key check : UInt64) (hbase : 1024 ∣ base)
    (hlt : base < 2 ^ 63) (hcomp : comp < 16) :
    (inodeBlockref base comp flags key check).type = .inode ∧
      (inodeBlockref base comp flags key check).method = .xxhash64 ∧
      (inodeBlockref base comp flags key check).check64 = check.toNat ∧
      (inodeBlockref base comp flags key check).size = 1024 ∧
      (inodeBlockref base comp flags key check).ioOff = base := by
  have hfield : ∀ {p w v}, p + w ≤ 128 → v < 256 ^ w →
      (p, toLE w v) ∈ blockrefFields base comp flags key check →
      fromLE (slice (inodeBlockref base comp flags key check).bytes p (p + w)) = v := by
    intro p w v hp hv hm
    rw [inodeBlockref_slice hp]
    exact Image.word_writes_of_mem blockrefFields_apart hm hv
  have hor := or_radix hbase
  have hoff : (inodeBlockref base comp flags key check).dataOff = base + 10 := by
    rw [Blockref.dataOff, ← hor]
    refine hfield (p := 32) (w := 8) (by decide) ?_ (by simp [blockrefFields])
    rw [hor]
    omega
  have hrad : (inodeBlockref base comp flags key check).radix = 10 := by
    obtain ⟨x, rfl⟩ := hbase
    rw [Blockref.radix, hoff]
    omega
  refine ⟨?_, ?_, ?_, ?_, ?_⟩
  · rw [Blockref.type, hfield (p := 0) (w := 1) (v := 1) (by decide) (by decide)
      (by simp [blockrefFields, toLE])]
    rfl
  · rw [Blockref.method, hfield (p := 1) (w := 1) (v := 3 * 16 + comp) (by decide) (by omega)
      (by simp [blockrefFields]), CheckMethod.ofByte]
    have hdiv : (3 * 16 + comp) / 16 % 16 = 3 := by omega
    rw [hdiv]
    rfl
  · exact hfield (p := 64) (w := 8) (by decide) check.toNat_lt (by simp [blockrefFields])
  · rw [Blockref.size, hrad]
    rfl
  · obtain ⟨x, rfl⟩ := hbase
    rw [Blockref.ioOff, hoff]
    omega

variable {env : NewfsEnv} {o : MkfsOptions} {label : Label} {i k : Nat}

theorem length_allLabels (o : MkfsOptions) : o.allLabels.length ≤ 4 := by
  have hle := o.labels_le
  have hdef := o.defaultLabel
  rw [MkfsOptions.allLabels]
  split
  · simp only [List.append_nil, List.length_cons]
    omega
  all_goals
    rename_i h
    rw [hdef (by rw [h]; decide)]
    decide

theorem length_sorted_pfsBlockrefs (env : NewfsEnv) (o : MkfsOptions) (base : Nat) :
    (sortBlockrefs (pfsBlockrefs env o base)).length ≤ 4 := by
  rw [sortBlockrefs, List.length_insertionSort, pfsBlockrefs, List.length_mapIdx]
  exact length_allLabels o

theorem pfsFields_apart :
    ((pfsFields env o i label).map Image.extent).Pairwise Image.Apart := by
  simp only [pfsFields, List.map_cons, List.map_nil, Image.extent, length_toLE, Uuid.length,
    List.length_singleton, List.pairwise_cons, List.forall_mem_cons, Image.Apart]
  simp

/-- The inode of a PFS has no children. -/
theorem pfsInode_spec : (pfsInode env o i label).word 0x51 1 % 2 = 0 ∧
    blockrefsAt (pfsInode env o i label) 0x200 4 = List.replicate 4 emptyBlockref := by
  have hshort := label.short
  constructor
  · have hflags : (pfsInode env o i label).word 0x51 1 = 2 :=
      Image.word_writes_of_mem pfsFields_apart (by simp [pfsFields]) (by decide)
    rw [hflags]
  · refine blockrefsAt_empty ?_
    rw [pfsInode, Image.read_writes_of_disjoint, read_blank]
    simp only [pfsFields, List.forall_mem_cons, Image.Apart, Image.extent, length_toLE, Uuid.length,
      List.length_singleton]
    simp
    omega

theorem srootFields_apart :
    ((srootFields env o base).map Image.extent).Pairwise Image.Apart := by
  have hlen := length_blockset (length_sorted_pfsBlockrefs env o base)
  simp only [srootFields, List.map_cons, List.map_nil, Image.extent, length_toLE, Uuid.length,
    List.length_singleton, length_flatMap_bytes, hlen]
  decide

/-- The children of the super-root are the PFSs. -/
theorem srootInode_spec : (srootInode env o base).word 0x51 1 % 2 = 0 ∧
    blockrefsAt (srootInode env o base) 0x200 4
      = blockset (sortBlockrefs (pfsBlockrefs env o base)) := by
  have hlen := length_blockset (length_sorted_pfsBlockrefs env o base)
  constructor
  · have hflags : (srootInode env o base).word 0x51 1 = 0 := by
      rw [srootInode, Image.word_writes_of_disjoint, Image.word, read_blank, fromLE_replicate_zero]
      simp only [srootFields, List.forall_mem_cons, Image.Apart, Image.extent, length_toLE,
        Uuid.length, List.length_singleton, length_flatMap_bytes, hlen]
      simp
    rw [hflags]
  · have hm : (0x200, (blockset (sortBlockrefs (pfsBlockrefs env o base))).flatMap Blockref.bytes) ∈
        srootFields env o base := by
      simp [srootFields]
    have hread := Image.read_writes_of_mem (m := blank) srootFields_apart hm
    rw [length_flatMap_bytes] at hread
    have := blockrefsAt_of_read (blockset (sortBlockrefs (pfsBlockrefs env o base))) hread
    rwa [hlen] at this

theorem inodeBlock_sroot (hk : k < 1024) : inodeBlock env o base k = srootInode env o base k := by
  have hread : (inodeBlock env o base).read 0 1024 = (srootInode env o base).read 0 1024 := by
    have := Image.read_writes_concat (m := blank) (o := 0) (o.allLabels.mapIdx fun i label =>
      (1024 * (i + 1), (pfsInode env o i label).read 0 1024)) ((srootInode env o base).read 0 1024)
    rwa [Image.length_read] at this
  have hbyte := Image.eq_of_read_eq hread hk
  rwa [Nat.zero_add] at hbyte

theorem inodeBlock_pfs (hi : o.allLabels[i]? = some label) (hk : k < 1024) :
    inodeBlock env o base (1024 * (i + 1) + k) = pfsInode env o i label k := by
  have hread : (inodeBlock env o base).read (1024 * (i + 1)) 1024
      = (pfsInode env o i label).read 0 1024 := by
    rw [inodeBlock, Image.writes_append, Image.read_writes_of_disjoint]
    · have hm : (1024 * (i + 1), (pfsInode env o i label).read 0 1024) ∈
          o.allLabels.mapIdx fun i label =>
            (1024 * (i + 1), (pfsInode env o i label).read 0 1024) := by
        refine List.mem_of_getElem? (i := i) ?_
        rw [List.getElem?_mapIdx, hi, Option.map_some]
      have hread := Image.read_writes_of_mem (m := blank) ?_ hm
      · rwa [Image.length_read] at hread
      · rw [List.pairwise_iff_getElem]
        intro i j hi hj hij
        simp only [List.getElem_map, List.getElem_mapIdx, Image.extent, Image.length_read,
          Image.Apart]
        omega
    · intro w hw
      rw [List.mem_singleton.mp hw, Image.extent, Image.length_read, Image.Apart]
      dsimp only
      omega
  have hbyte := Image.eq_of_read_eq hread hk
  rwa [Nat.zero_add] at hbyte

end Inode

/-! ## What is on the devices -/

namespace Formatted

variable {env : NewfsEnv} {o : MkfsOptions} {devs devs' : Nat → Device} {paths : List Nat}
  {fso : Ondisk} {i path z k : Nat}

section

variable (F : Formatted env o devs paths fso devs') (hi : paths[i]? = some path)
include F hi

theorem align : volumeAlign ∣ (fso.volumes i).size := by
  rw [(F.volume i path hi).size]
  exact alignVolume_dvd _ _ _

theorem size_le : (fso.volumes i).size ≤ (devs' path).size := by
  rw [F.device i path hi, (F.volume i path hi).size, alignVolume]
  exact Nat.sub_le _ _

theorem within {w : Nat × List UInt8}
    (hw : w ∈ volumeWrites env o fso (areas o fso.totalSize) (fso.volumes i)) :
    w.1 + w.2.length ≤ (fso.volumes i).size := by
  refine volumeWrites_within (F.fits i path hi) (F.align hi) (fun hid => ?_) hw
  have hi0 : i = 0 := by
    have := (F.volume i path hi).id
    omega
  rw [hi0]
  exact F.alloc

theorem bytes_eq :
    (devs' path).bytes = (devs path).bytes.writes
      (volumeWrites env o fso (areas o fso.totalSize) (fso.volumes i)) := by
  rw [F.device i path hi]

/-- Behind the volume the device is as it was. -/
theorem behind (hk : (fso.volumes i).size ≤ k) : (devs' path).bytes k = (devs path).bytes k := by
  rw [F.bytes_eq hi]
  exact Image.writes_apply_of_disjoint fun w hw => Or.inr ((F.within hi hw).trans hk)

end

theorem headerWrites_apart (vd : VolumeData) (size : Nat) :
    ((headerWrites vd size).map Image.extent).Pairwise Image.Apart := by
  have hsorted : (writtenZones size).Pairwise (· < ·) :=
    List.pairwise_lt_range.sublist (List.takeWhile_sublist _)
  rw [headerWrites, List.map_map]
  refine List.pairwise_map.mpr (hsorted.imp fun {i j} hij => Or.inl ?_)
  have hle := Nat.mul_le_mul_left zoneBytes (Nat.succ_le_of_lt hij)
  rw [Nat.mul_succ] at hle
  simp only [Image.extent, Function.comp_apply, Image.length_read]
  exact (Nat.add_le_add_left (show pbufSize ≤ zoneBytes by decide) _).trans hle

/-- The header is in every zone of the volume. -/
theorem stored (F : Formatted env o devs paths fso devs') (hi : paths[i]? = some path)
    (hz : z < numVolhdrs) (hlt : zoneBytes * z < (fso.volumes i).size) :
    Stored env o fso (areas o fso.totalSize) (fso.volumes i) ((devs' path).header z) := by
  intro k hk
  generalize hvd : newfsHeader env o fso (areas o fso.totalSize) (fso.volumes i) = vd
  have hmem : (zoneBytes * z, vd.read 0 pbufSize) ∈ headerWrites vd (fso.volumes i).size :=
    List.mem_map.mpr ⟨z, mem_writtenZones.mpr ⟨hz, hlt⟩, rfl⟩
  have hread : (devs' path).bytes.read (zoneBytes * z) pbufSize = vd.read 0 pbufSize := by
    have := Image.read_writes_of_mem (m := (devs path).bytes.writes
      ([((fso.volumes i).size - pbufSize, zeroBuf)] ++
        if (fso.volumes i).id = 0 then rootWrites env o (areas o fso.totalSize) else []))
      (headerWrites_apart vd (fso.volumes i).size) hmem
    rw [Image.length_read] at this
    rw [F.bytes_eq hi, volumeWrites, hvd, Image.writes_append, this]
  have hbyte := Image.eq_of_read_eq hread hk
  rwa [Nat.zero_add] at hbyte

/-- The block of inodes is where the root volume has it. -/
theorem inodes (F : Formatted env o devs paths fso devs') (hi : paths[0]? = some path)
    (hk : k < pbufSize) : (devs' path).bytes ((areas o fso.totalSize).allocBase + k)
      = inodeBlock env o (areas o fso.totalSize).allocBase k := by
  have hid : (fso.volumes 0).id = 0 := (F.volume 0 path hi).id
  have hlow := areas_allocBase o fso.totalSize
  have hhigh := F.alloc_lt
  have hbytes := F.bytes_eq hi
  generalize hvd : newfsHeader env o fso (areas o fso.totalSize) (fso.volumes 0) = vd
  generalize areas o fso.totalSize = a at *
  have hhdr : ∀ w ∈ headerWrites vd (fso.volumes 0).size,
      Image.Apart (a.allocBase, pbufSize) (Image.extent w) := by
    intro w hw
    obtain ⟨j, -, rfl⟩ := mem_headerWrites hw
    rw [Image.Apart, Image.extent, Image.length_read]
    rcases Nat.eq_zero_or_pos j with rfl | hj
    · right
      unfold volumeAlign zoneSeg pbufSize at *
      omega
    · left
      have hle := Nat.mul_le_mul_left zoneBytes hj
      unfold level1Size at hhigh
      unfold pbufSize
      unfold zoneBytes at *
      omega
  have hread : (devs' path).bytes.read a.allocBase pbufSize
      = (inodeBlock env o a.allocBase).read 0 pbufSize := by
    rw [hbytes, volumeWrites, hvd, Image.writes_append, Image.read_writes_of_disjoint hhdr,
      if_pos hid, rootWrites, ← List.append_assoc]
    have hlen : ((inodeBlock env o a.allocBase).read 0 pbufSize).length = pbufSize :=
      Image.length_read
    generalize (inodeBlock env o a.allocBase).read 0 pbufSize = bs at *
    rw [← hlen]
    exact Image.read_writes_concat _ _
  have hbyte := Image.eq_of_read_eq hread hk
  rwa [Nat.zero_add] at hbyte

end Formatted

/-! ## Verification of the root volume -/

section Verify

/-- The root volume, on a device that works. -/
structure RootVolume (m : Media) (vol : Volume) (dev : Device) : Prop where
  lookup : ∀ off < vol.size, m.fso.volumeAt off = some vol
  offset : vol.offset = 0
  fd : 0 ≤ vol.fd
  device : m.devs vol.fd.toNat = dev
  works : dev.Works
  size_le : vol.size ≤ dev.size

variable {m : Media} {vol : Volume} {dev : Device} {op : Opts} {b : Blockref} {tree : Tree} {z : Nat}

theorem RootVolume.readMedia (h : RootVolume m vol dev) (h0 : b.size ≠ 0) (hmax : b.size ≤ pbufSize)
    (halign : b.size ∣ b.ioOff) (hend : b.ioOff + max lbufSize b.size ≤ vol.size) :
    ∃ buf, m.readMedia b = .ok (b.size, buf) ∧ ∀ i < b.size, buf i = dev.bytes (b.ioOff + i) := by
  have hmod := Nat.mod_le b.ioOff lbufSize
  have hpos : 0 < max lbufSize b.size := (show 0 < lbufSize by decide).trans_le (le_max_left _ _)
  have hlt := h.works.size_lt
  have hle := h.size_le
  obtain ⟨buf, hread, hbuf⟩ := Media.readMedia_aligned h0 hmax halign (h.lookup _ (by omega))
    (h.lookup _ (by omega)) h.fd (by rw [h.offset]; omega) (by omega)
    (by
      rw [h.device, h.offset]
      exact ⟨by omega, h.works.reads _ _⟩)
  refine ⟨buf, hread, fun i hi => ?_⟩
  rw [hbuf i hi, h.device, h.offset, Nat.sub_zero]

theorem RootVolume.rootSize (h : RootVolume m vol dev) (hpos : 0 < vol.size) :
    m.rootSize = vol.size := by
  rw [Media.rootSize, h.lookup 0 hpos, Option.elim_some]

/-- A header of the root volume is read. -/
theorem RootVolume.pread_zone (h : RootVolume m vol dev)
    (hend : zoneBytes * z + pbufSize ≤ vol.size) :
    m.pread (m.volumeFd 0) (subOff (zoneBytes * z) (m.volumeOffset 0)) pbufSize
      = some (dev.header z) := by
  have hpos : 0 < pbufSize := by decide
  have hlt := h.works.size_lt
  have hle := h.size_le
  have hfd := h.fd
  have h0 := h.lookup 0 (by omega)
  rw [Media.volumeFd, Media.volumeOffset, h0, Option.elim_some, Option.elim_some, h.offset,
    subOff_of_le (Nat.zero_le _) (by omega), Nat.sub_zero, Media.pread, if_neg, h.device]
  · rfl
  · rintro (hneg | hbig | hread)
    · omega
    · omega
    · rw [h.device] at hread
      exact hread ⟨by omega, h.works.reads _ _⟩

theorem testHeaders_passes {icrc : Crc} {is : List Nat} (best : Option Int)
    (h : ∀ i ∈ is, zoneBytes * i < m.rootSize → ∃ vd,
      m.pread (m.volumeFd 0) (subOff (zoneBytes * i) (m.volumeOffset 0)) pbufSize = some vd ∧
        verifyVolumeHeader icrc vd) :
    testHeaders icrc m best is false = false := by
  induction is with
  | nil => rfl
  | cons i is ih =>
    have hrest := ih fun j hj => h j (List.mem_cons_of_mem _ hj)
    rw [testHeaders]
    split
    · exact hrest
    split
    · rfl
    · rename_i hlt
      obtain ⟨vd, hread, hgood⟩ := h i List.mem_cons_self (Nat.not_le.mp hlt)
      rw [hread]
      dsimp only
      rw [decide_eq_true hgood]
      exact hrest

theorem sound_empty : Sound op m emptyBlockref :=
  sound_hole (by decide) (by decide) (by decide)

/-- An inode passes that is stored at `base`. -/
theorem RootVolume.sound_inode (h : RootVolume m vol dev) {base comp flags : Nat} {key : UInt64}
    {inode : Image} (hbase : 1024 ∣ base) (hcomp : comp < 16) (hend : base + lbufSize ≤ vol.size)
    (hdata : ∀ k < 1024, dev.bytes (base + k) = inode k) (hflags : inode.word 0x51 1 % 2 = 0)
    (hkids : ∀ c ∈ blockrefsAt inode 0x200 4, Sound op m c) :
    Sound op m (inodeBlockref base comp flags key (op.codes.xxh64 (inode.read 0 1024))) := by
  have hlt := h.works.size_lt
  have hle := h.size_le
  obtain ⟨htype, hmethod, hcheck, hsize, hoff⟩ := inodeBlockref_fields flags key
    (op.codes.xxh64 (inode.read 0 1024)) hbase (by unfold lbufSize at hend; omega) hcomp
  generalize inodeBlockref base comp flags key (op.codes.xxh64 (inode.read 0 1024)) = b at *
  have h0 : b.size ≠ 0 := by rw [hsize]; decide
  obtain ⟨buf, hread, hbuf⟩ := h.readMedia (b := b) h0 (by rw [hsize]; decide)
    (by rw [hsize, hoff]; exact hbase) (by rw [hsize, hoff]; exact hend)
  have hsame : ∀ k < 1024, buf k = inode k := fun k hk => by
    rw [hbuf k (hsize ▸ hk), hoff, hdata k hk]
  refine sound_block hread h0 (by rw [htype]; decide) (by rw [htype]; rfl) ?_ ?_
  · have hcontent : buf.read 0 1024 = inode.read 0 1024 :=
      Image.read_congr fun i _ hi => hsame i (by omega)
    rw [Codes.mismatch, hmethod, hsize, hcontent, hcheck]
    exact if_neg (not_not.mpr rfl)
  · have hflag : buf.word 0x51 1 = inode.word 0x51 1 :=
      Image.word_congr fun i _ hi => hsame i (by omega)
    have hset : blockrefsAt buf 0x200 4 = blockrefsAt inode 0x200 4 := by
      rw [blockrefsAt, blockrefsAt]
      apply List.map_congr_left
      intro i hi
      have hi4 := List.mem_range.mp hi
      have hbytes : buf.read (0x200 + 128 * i) 128 = inode.read (0x200 + 128 * i) 128 :=
        Image.read_congr fun k _ hk => hsame k (by omega)
      rw [blockrefAt, blockrefAt]
      simp only [hbytes]
    rw [Blockref.children, htype]
    dsimp only
    rw [hflag, if_pos hflags, hset]
    exact hkids

end Verify

namespace Formatted

section Fsck

variable {env : NewfsEnv} {o : MkfsOptions} {devs devs' : Nat → Device} {paths : List Nat}
  {fso : Ondisk} {m : Media} {op : Opts} {path i z : Nat} {label : Label}

theorem alloc_dvd (o : MkfsOptions) (total : Nat) : 1024 ∣ (areas o total).allocBase := by
  have h := areas_allocBase o total
  unfold volumeAlign zoneSeg at h
  omega

section

variable (F : Formatted env o devs paths fso devs')
  (h0 : paths[0]? = some path)
  (hroot : RootVolume m (fso.volumes 0) (devs' path))
  (hcode : op.codes.xxh64 = env.xxh64)
include F h0 hroot hcode

theorem sound_pfs (hi : o.allLabels[i]? = some label) :
    Sound op m (pfsBlockref env o (areas o fso.totalSize).allocBase i label) := by
  have hfit := F.alloc
  have hdvd := alloc_dvd o fso.totalSize
  have hi4 : i < 4 := (List.getElem?_eq_some_iff.mp hi).1.trans_le (length_allLabels o)
  rw [pfsBlockref, ← hcode]
  refine hroot.sound_inode ((Nat.dvd_add_right hdvd).mpr (Nat.dvd_mul_right _ _)) (by decide) ?_
    (fun k hk => ?_) pfsInode_spec.1 fun c hc => ?_
  · have hle : 1024 * (i + 1) + lbufSize ≤ pbufSize := by
      unfold lbufSize pbufSize
      omega
    rw [Nat.add_assoc]
    exact (Nat.add_le_add_left hle _).trans hfit
  · have hblock := F.inodes h0 (k := 1024 * (i + 1) + k) (by unfold pbufSize; omega)
    rw [← Nat.add_assoc] at hblock
    rw [hblock, inodeBlock_pfs hi hk]
  · rw [pfsInode_spec.2] at hc
    rw [List.eq_of_mem_replicate hc]
    exact sound_empty

theorem sound_sroot : Sound op m (srootBlockref env o (areas o fso.totalSize).allocBase) := by
  have hfit := F.alloc
  rw [srootBlockref, ← hcode]
  refine hroot.sound_inode (alloc_dvd o fso.totalSize) (by decide) ?_ (fun k hk => ?_)
    srootInode_spec.1 fun c hc => ?_
  · exact (Nat.add_le_add_left (by decide) _).trans hfit
  · rw [F.inodes h0 (hk.trans (by decide)), inodeBlock_sroot hk]
  · rw [srootInode_spec.2, blockset] at hc
    rcases List.mem_append.mp hc with hc | hc
    · rw [sortBlockrefs, List.mem_insertionSort, pfsBlockrefs, List.mem_mapIdx] at hc
      obtain ⟨i, hi, rfl⟩ := hc
      exact F.sound_pfs h0 hroot hcode (List.getElem?_eq_getElem hi)
    · rw [List.eq_of_mem_replicate hc]
      exact sound_empty

theorem sound_zone (hz : z < numVolhdrs) (hlt : zoneBytes * z < (fso.volumes 0).size) (tree : Tree)
    : Sound op m (rootBlockref z tree) := by
  have hid : (fso.volumes 0).id = 0 := (F.volume 0 path h0).id
  have hoff : (rootBlockref z tree).dataOff = zoneBytes * z + 16 := rootBlockref_dataOff hz
  have hzone : zoneBytes * z = 64 * (33554432 * z) := Nat.mul_assoc 64 33554432 z
  have hrad : (rootBlockref z tree).radix = 16 := by
    rw [Blockref.radix, hoff]
    omega
  have hsize : (rootBlockref z tree).size = pbufSize := by
    rw [Blockref.size, hrad]
    rfl
  have hio : (rootBlockref z tree).ioOff = zoneBytes * z := by
    rw [Blockref.ioOff, hoff]
    omega
  have hmethod : (rootBlockref z tree).method = .none := by
    have hbyte : slice (rootBlockref z tree).bytes 1 2 = [0] := by
      cases tree <;> rfl
    rw [Blockref.method, hbyte]
    rfl
  obtain ⟨buf, hread, hbuf⟩ := hroot.readMedia (b := rootBlockref z tree) (by rw [hsize]; decide)
    (by rw [hsize]) (by rw [hsize, hio]; exact Dvd.intro (32768 * z) (Nat.mul_assoc 65536 32768 z).symm)
    (by rw [hsize, hio]; exact zone_fits (F.align h0) hlt)
  have hstored : Stored env o fso (areas o fso.totalSize) (fso.volumes 0) buf := by
    intro k hk
    rw [hbuf k (hsize ▸ hk), hio]
    exact F.stored h0 hz hlt k hk
  refine sound_block hread (by rw [hsize]; decide) ?_ ?_ ?_ ?_
  · rw [rootBlockref_type]
    cases tree <;> decide
  · rw [rootBlockref_type]
    cases tree <;> rfl
  · rw [Codes.mismatch, hmethod]
  · intro c hc
    rw [Blockref.children, rootBlockref_type] at hc
    cases tree with
    | volume =>
      dsimp only at hc
      rw [hstored.sroot hid, blockset] at hc
      rcases List.mem_append.mp hc with hc | hc
      · rw [List.mem_singleton.mp hc]
        exact F.sound_sroot h0 hroot hcode
      · rw [List.eq_of_mem_replicate hc]
        exact sound_empty
    | freemap =>
      dsimp only at hc
      rw [hstored.freemap] at hc
      rw [List.eq_of_mem_replicate hc]
      exact sound_empty

end

end Fsck

end Formatted

end Lh1.Hammer2
