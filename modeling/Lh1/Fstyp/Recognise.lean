/-
  fstyp on what newfs_hammer2 writes (usr.sbin/fstyp/hammer2.c and newfs_hammer2/mkfs_hammer2.c).

  newfs_hammer2 writes a header to every zone that begins before the end of a volume, whose size is
  that of the device rounded down. fstyp looks for a header in every zone that begins before the end
  of the device. On devices that were filled with zeros there is none in a zone between the two.

  * `readLabel_written`: the label of what was written is found.
  * `newfs_recognised_iff`: what a run has written is recognised if and only if no zone begins
    between the end of a volume and the end of its device.
-/
import Lh1.Fstyp.Label
import Lh1.Hammer2.NewfsAccept

namespace Lh1.Fstyp

open Lh1.Lib Lh1.Hammer2

/-! ## Recognition -/

/-- The static variables of `test_voldata` when the program begins. -/
def initStatics : VoldataStatics := ⟨0, List.replicate 16 0, List.replicate 16 0⟩

/-- The names of the devices: no name has what separates names or introduces a label. -/
structure Listing (paths : List Nat) (devs : Nat → Device) (name : Nat → Path)
    (files : Path → Device) : Prop where
  files : ∀ p ∈ paths, files (name p) = devs p
  plain : ∀ p ∈ paths, name p ≠ [] ∧ ':' ∉ name p ∧ '@' ∉ name p

/-- The argument of `fsvtyp_hammer2`. -/
def blkdevsOf (paths : List Nat) (name : Nat → Path) : List Char :=
  [':'].intercalate (paths.map name)

/-- `fsvtyp_hammer2` returns 0 for the list of the devices, or `fstyp_hammer2` for the only one. -/
def Recognised (paths : List Nat) (devs : Nat → Device) (name : Nat → Path)
    (files : Path → Device) : Prop :=
  (∃ fuel st, runFsvtypHammer2 fuel files initStatics (blkdevsOf paths name) = .ok (true, st)) ∨
    ∃ p, paths = [p] ∧
      ∃ fuel st, fstypHammer2 fuel (devs p) initStatics (name p) = .ok (true, st)

/-- No zone begins between the end of a volume and the end of its device. -/
def NoZoneBehind (devs : Nat → Device) (paths : List Nat) : Prop :=
  ∀ i path, paths[i]? = some path → ∀ z < numVolhdrs, zoneBytes * z < (devs path).size →
    zoneBytes * z < alignVolume paths.length i (devs path).size

/-! ## The headers -/

section Headers

variable {env : NewfsEnv} {o : MkfsOptions} {devs devs' : Nat → Device} {paths : List Nat}
  {fso : Ondisk} {i path z : Nat} {st : VoldataStatics}

/-- What identifies the filesystem that was written. -/
def MkfsOptions.filesystem (o : MkfsOptions) (n : Nat) : VoldataStatics :=
  ⟨o.headerCount n, o.volFsid.bytes, o.fsType.bytes⟩

section

variable (F : Formatted env o devs paths fso devs')
include F

theorem readVoldata_written (hw : ∀ path, (devs path).Works) (hi : paths[i]? = some path)
    (hz : z < numVolhdrs) (hlt : zoneBytes * z < (fso.volumes i).size) :
    readVoldata (devs' path) z = some ((devs' path).header z) := by
  have hzone := (F.zone_valid hw hi (mem_writtenZones.mpr ⟨hz, hlt⟩)).1
  rw [readVoldata_eq hz, if_pos (Device.mem_validZones.mp hzone).2.1]

theorem header_good (hw : ∀ path, (devs path).Works) (hi : paths[i]? = some path)
    (hz : z < numVolhdrs) (hlt : zoneBytes * z < (fso.volumes i).size) :
    GoodHeader ((devs' path).header z) ∧ ((devs' path).header z).voluId = i ∧
      filesystemOf ((devs' path).header z) = MkfsOptions.filesystem o paths.length := by
  have hheader := F.headerOf hw hi (F.stored hi hz hlt)
  obtain ⟨hid, hcount, -⟩ := F.volume_of_header hi hheader
  have hi' : i < paths.length := (List.getElem?_eq_some_iff.mp hi).1
  have hmax := F.le_max
  have hle : o.headerCount paths.length ≤ maxVolumes := by
    unfold MkfsOptions.headerCount
    split <;> omega
  refine ⟨⟨Or.inl hheader.magic, by omega, by omega⟩, hid, ?_⟩
  rw [filesystemOf, hcount, hheader.fsid, hheader.fstype, MkfsOptions.filesystem]

/-- Behind the volume there are zeros. -/
theorem header_behind_bad (hi : paths[i]? = some path) (hblank : (devs path).bytes = blank)
    (hz : (fso.volumes i).size ≤ zoneBytes * z) : ¬ GoodHeader ((devs' path).header z) := by
  intro hgood
  have hmagic := hgood.magic
  rw [F.header_behind hi hz] at hmagic
  have hzero : ((devs path).header z).magic = 0 := by
    have hheader : (devs path).header z = blank := by
      rw [Device.header, hblank]
      rfl
    rw [hheader]
    decide
  rw [VolumeData.GoodMagic, hzero] at hmagic
  exact absurd hmagic (by decide)

end

/-- A header of the filesystem passes in the beginning and after others of it. -/
theorem testHeader_filesystem {vd : VolumeData} {fs : VoldataStatics} (hgood : GoodHeader vd)
    (hfs : filesystemOf vd = fs) (hst : st.count = 0 ∨ st = fs) :
    testHeader st vd = (true, fs) := by
  rw [testHeader, if_neg (not_not.mpr hgood)]
  by_cases h0 : st.count = 0
  · rw [if_pos h0]
    exact congrArg (Prod.mk true) hfs
  · obtain rfl := hst.resolve_left h0
    rw [if_neg h0, ← hfs]
    simp [filesystemOf]

theorem testZones_filesystem {dev : Device} {fs : VoldataStatics} {is : List Nat}
    (hst : st.count = 0 ∨ st = fs)
    (hzones : ∀ i ∈ is, zoneBytes * i < dev.size → ∃ vd, readVoldata dev i = some vd ∧
      GoodHeader vd ∧ filesystemOf vd = fs) :
    ∃ st', testZones dev st is = (true, st') ∧ (st'.count = 0 ∨ st' = fs) := by
  induction is generalizing st with
  | nil => exact ⟨st, rfl, hst⟩
  | cons i is ih =>
    rw [testZones]
    split
    · exact ⟨st, rfl, hst⟩
    · rename_i hlt
      obtain ⟨vd, hvd, hgood, hfs⟩ := hzones i List.mem_cons_self (Nat.lt_of_not_le hlt)
      rw [hvd]
      dsimp only
      rw [testHeader_filesystem hgood hfs hst]
      exact ih (Or.inr rfl) fun j hj => hzones j (List.mem_cons_of_mem _ hj)

/-- Without a zone behind the volume the device passes. -/
theorem testVoldata_passes (F : Formatted env o devs paths fso devs')
    (hw : ∀ path, (devs path).Works) (hno : NoZoneBehind devs paths) (hi : paths[i]? = some path)
    (hst : st.count = 0 ∨ st = MkfsOptions.filesystem o paths.length) :
    ∃ st', testVoldata (devs' path) st = (true, st') ∧
      (st'.count = 0 ∨ st' = MkfsOptions.filesystem o paths.length) := by
  refine testZones_filesystem hst fun z hz hlt => ?_
  have hz4 := List.mem_range.mp hz
  have hsize : (devs' path).size = (devs path).size := by rw [F.device i path hi]
  have hwritten : zoneBytes * z < (fso.volumes i).size := by
    rw [(F.volume i path hi).size]
    exact hno i path hi z hz4 (hsize ▸ hlt)
  obtain ⟨hgood, -, hfs⟩ := header_good F hw hi hz4 hwritten
  exact ⟨_, readVoldata_written F hw hi hz4 hwritten, hgood, hfs⟩

/-- A device that passes has no zone behind the volume. -/
theorem no_zone_of_passes (F : Formatted env o devs paths fso devs') (hi : paths[i]? = some path)
    (hblank : (devs path).bytes = blank) (hpass : (testVoldata (devs' path) st).1 = true)
    (hz : z < numVolhdrs) (hlt : zoneBytes * z < (devs path).size) :
    zoneBytes * z < alignVolume paths.length i (devs path).size := by
  have hsize : (devs' path).size = (devs path).size := by rw [F.device i path hi]
  have htest : testZones (devs' path) st (List.range numVolhdrs)
      = (true, (testVoldata (devs' path) st).2) := Prod.ext hpass rfl
  obtain ⟨vd, hvd, hgood⟩ := (testZones_true htest sorted_zones).1 z (List.mem_range.mpr hz)
    (hsize ▸ hlt)
  rw [readVoldata_eq hz] at hvd
  split at hvd
  · cases hvd
    by_contra hge
    refine header_behind_bad F hi hblank ?_ hgood
    rw [(F.volume i path hi).size]
    exact Nat.not_lt.mp hge
  · cases hvd

end Headers

/-! ## The label -/

section Label

variable {env : NewfsEnv} {o : MkfsOptions} {devs devs' : Nat → Device} {paths : List Nat}
  {fso : Ondisk} {dev : Device} {b : Blockref} {pfs : List UInt8} {path i base : Nat} {label : Label}

/-- An inode that is aligned to its size is read as it is on the device. -/
theorem readMedia_inode (hsize : b.size = 1024) (halign : 1024 ∣ b.ioOff)
    (hfit : b.ioOff + lbufSize ≤ dev.size) (hreads : ∀ off len, dev.fails off len = false) :
    ∃ media, readMedia dev b = .ok (some media) ∧
      ∀ k < 1024, media k = dev.bytes (b.ioOff + k) := by
  have hio : b.ioBytes = lbufSize := by
    rw [Blockref.ioBytes, hsize]
    exact growIo_of_le (by unfold lbufSize; omega) 64
  have hmod : b.ioOff % lbufSize % 1024 = 0 := by
    rw [Nat.mod_mod_of_dvd _ (by decide)]
    exact Nat.mod_eq_zero_of_dvd halign
  have hlt : b.ioOff % lbufSize < lbufSize := Nat.mod_lt _ (by decide)
  have hle : b.ioOff % lbufSize ≤ b.ioOff := Nat.mod_le _ _
  have hread : readBuf dev (b.ioOff - b.ioOff % lbufSize) b.ioBytes
      = some (dev.bytes.view (b.ioOff - b.ioOff % lbufSize)) := by
    rw [readBuf, if_pos ⟨by rw [hio]; omega, hreads _ _⟩]
  rw [readMedia, if_neg (by rw [hsize]; decide), if_neg (by rw [hio]; decide),
    if_neg (by unfold lbufSize at *; omega), hread]
  dsimp only
  by_cases hboff : b.ioOff % lbufSize = 0
  · rw [if_pos hboff, hboff, Nat.sub_zero]
    exact ⟨_, rfl, fun k _ => rfl⟩
  · rw [if_neg hboff, if_neg (by rw [hio, hsize]; unfold lbufSize at *; omega),
      if_neg (by rw [hsize]; omega)]
    refine ⟨_, rfl, fun k hk => ?_⟩
    rw [hsize, if_pos hk, Image.view]
    congr 1
    omega

theorem srootInode_type : (srootInode env o base).word 0x87 1 = 8 :=
  Image.word_writes_of_mem srootFields_apart (by simp [srootFields, toLE]) (by decide)

theorem pfsInode_type : (pfsInode env o i label).word 0x87 1 = 6 ∧
    (pfsInode env o i label).word 0x51 1 = 2 :=
  ⟨Image.word_writes_of_mem pfsFields_apart (by simp [pfsFields, toLE]) (by decide),
    Image.word_writes_of_mem pfsFields_apart (by simp [pfsFields]) (by decide)⟩

section

variable (F : Formatted env o devs paths fso devs')
include F

section

variable (hw : ∀ path, (devs path).Works) (h0 : paths[0]? = some path)
include hw h0

/-- The search ends at the inode of a PFS. -/
theorem enter_pfs (hi : o.allLabels[i]? = some label) :
    (brefGraph (devs' path) pfs).enter
      (pfsBlockref env o (areas o fso.totalSize).allocBase i label) = .ok (some []) := by
  have hfit := F.alloc
  have hsize := F.size_le h0
  have hdvd := Formatted.alloc_dvd o fso.totalSize
  have halloc := F.alloc_lt
  have hi4 : i < 4 := (List.getElem?_eq_some_iff.mp hi).1.trans_le (length_allLabels o)
  have hreads : ∀ off len, (devs' path).fails off len = false := by
    rw [F.device 0 path h0]
    exact (hw path).reads
  have hinodes : ∀ k < 1024, (devs' path).bytes
      ((areas o fso.totalSize).allocBase + 1024 * (i + 1) + k) = pfsInode env o i label k := by
    intro k hk
    rw [← inodeBlock_pfs hi hk, Nat.add_assoc]
    exact F.inodes h0 (by unfold pbufSize; omega)
  generalize (areas o fso.totalSize).allocBase = base at *
  obtain ⟨htype, -, -, hbytes, hoff⟩ := inodeBlockref_fields 1 (env.dirhash label.name)
    (env.xxh64 ((pfsInode env o i label).read 0 1024))
    (Nat.dvd_add hdvd (Nat.dvd_mul_right 1024 (i + 1)))
    (by unfold level1Size at halloc; omega) (show 0 < 16 by decide)
  rw [← pfsBlockref] at htype hbytes hoff
  have halign : 1024 ∣ (pfsBlockref env o base i label).ioOff := by
    rw [hoff]
    exact Nat.dvd_add hdvd (Nat.dvd_mul_right 1024 (i + 1))
  have hroom : (pfsBlockref env o base i label).ioOff + lbufSize ≤ (devs' path).size := by
    have hle : 1024 * (i + 1) + lbufSize ≤ pbufSize := by
      unfold lbufSize pbufSize
      omega
    rw [hoff, Nat.add_assoc]
    exact (Nat.add_le_add_left hle base).trans (hfit.trans hsize)
  obtain ⟨media, hread, hmedia⟩ := readMedia_inode hbytes halign hroom hreads
  have hword : ∀ q, q < 1024 → media.word q 1 = (pfsInode env o i label).word q 1 := by
    intro q hq
    refine Image.word_congr fun k h1 h2 => ?_
    rw [hmedia k (by omega), hoff, hinodes k (by omega)]
  rw [enter_some hread, pfsBelow, htype]
  dsimp only
  rw [if_neg, if_pos]
  · rw [IsPfsroot, hword 0x51 (by decide), pfsInode_type.2]
  · rw [IsSuproot, hword 0x87 (by decide), pfsInode_type.1]
    decide

/-- The search at the super-root comes to the PFSs. -/
theorem enter_sroot :
    (srootBlockref env o (areas o fso.totalSize).allocBase).type = .inode ∧ ∃ media,
      readMedia (devs' path) (srootBlockref env o (areas o fso.totalSize).allocBase)
        = .ok (some media) ∧
      pfsBelow (srootBlockref env o (areas o fso.totalSize).allocBase) media
        = some ((blockset (sortBlockrefs (pfsBlockrefs env o
            (areas o fso.totalSize).allocBase))).filter fun b => b.type ≠ .empty) := by
  have hfit := F.alloc
  have hsize := F.size_le h0
  have hdvd := Formatted.alloc_dvd o fso.totalSize
  have halloc := F.alloc_lt
  have hreads : ∀ off len, (devs' path).fails off len = false := by
    rw [F.device 0 path h0]
    exact (hw path).reads
  have hinodes : ∀ k < 1024, (devs' path).bytes ((areas o fso.totalSize).allocBase + k)
      = srootInode env o (areas o fso.totalSize).allocBase k := by
    intro k hk
    rw [← inodeBlock_sroot hk]
    exact F.inodes h0 (by unfold pbufSize; omega)
  generalize (areas o fso.totalSize).allocBase = base at *
  obtain ⟨htype, -, -, hbytes, hoff⟩ := inodeBlockref_fields 0 0
    (env.xxh64 ((srootInode env o base).read 0 1024)) hdvd
    (by unfold level1Size at halloc; omega) (show 1 < 16 by decide)
  rw [← srootBlockref] at htype hbytes hoff
  have hroom : (srootBlockref env o base).ioOff + lbufSize ≤ (devs' path).size := by
    rw [hoff]
    exact (Nat.add_le_add_left (by decide) base).trans (hfit.trans hsize)
  have halign : 1024 ∣ (srootBlockref env o base).ioOff := by
    rw [hoff]
    exact hdvd
  obtain ⟨media, hread, hmedia⟩ := readMedia_inode hbytes halign hroom hreads
  have heq : ∀ k < 1024, media k = srootInode env o base k := by
    intro k hk
    rw [hmedia k hk, hoff, hinodes k hk]
  have hword : media.word 0x87 1 = (srootInode env o base).word 0x87 1 :=
    Image.word_congr fun k _ hk => heq k (by omega)
  have hsup : IsSuproot media := hword.trans srootInode_type
  have hrefs : blockrefsAt media 0x200 4 = blockrefsAt (srootInode env o base) 0x200 4 :=
    blockrefsAt_congr fun k _ hk => heq k (by omega)
  refine ⟨htype, media, hread, ?_⟩
  rw [pfsBelow, htype]
  dsimp only
  rw [if_pos hsup, refsAt, hrefs, srootInode_spec.2]

/-- Every descent from the super-root ends. -/
theorem safeBelow_sroot (pfs : List UInt8) :
    SafeBelow (devs' path) pfs (srootBlockref env o (areas o fso.totalSize).allocBase) := by
  obtain ⟨-, media, hread, hbelow⟩ := enter_sroot F hw h0
  have henter : (brefGraph (devs' path) pfs).enter _ = .ok (pfsBelow _ media) := enter_some hread
  rw [hbelow] at henter
  refine safe_iff.mpr ⟨fun hstop => ?_, fun c hvisit => ?_⟩
  · obtain ⟨e, he⟩ := hstop
    rw [henter] at he
    cases he
  · obtain ⟨pre, post, hsplit, -⟩ := hvisit
    rw [henter] at hsplit
    have hc : c ∈ pre ++ c :: post := List.mem_append_right _ List.mem_cons_self
    rw [← Option.some.inj (Except.ok.inj hsplit), List.mem_filter, blockset] at hc
    obtain ⟨hmem, hne⟩ := hc
    rcases List.mem_append.mp hmem with hmem | hmem
    · rw [sortBlockrefs, List.mem_insertionSort, pfsBlockrefs, List.mem_mapIdx] at hmem
      obtain ⟨i, hi, rfl⟩ := hmem
      have hleaf : (brefGraph (devs' path) pfs).enter _ = .ok (some []) :=
        enter_pfs F hw h0 (List.getElem?_eq_getElem hi)
      refine safe_iff.mpr ⟨fun hstop => ?_, fun c hvisit => ?_⟩
      · obtain ⟨e, he⟩ := hstop
        rw [hleaf] at he
        cases he
      · obtain ⟨pre, post, hsplit, -⟩ := hvisit
        rw [hleaf] at hsplit
        simp at hsplit
    · rw [List.eq_of_mem_replicate hmem] at hne
      exact absurd hne (by decide)

end

end

/-- The best header is one that was written. -/
theorem labelZones_all {P : Nat × VolumeData → Prop} {is : List Nat}
    {best : Option (Nat × VolumeData)} (hbest : ∀ x ∈ best, P x)
    (hzones : ∀ z ∈ is, zoneBytes * z < dev.size → ∃ vd, readVoldata dev z = some vd ∧ P (z, vd)) :
    ∃ b, labelZones dev is best = some b ∧ ∀ x ∈ b, P x := by
  induction is generalizing best with
  | nil => exact ⟨best, rfl, hbest⟩
  | cons z is ih =>
    rw [labelZones]
    split
    · exact ⟨best, rfl, hbest⟩
    · rename_i hlt
      obtain ⟨vd, hvd, hP⟩ := hzones z List.mem_cons_self (Nat.lt_of_not_le hlt)
      rw [hvd]
      refine ih (fun x hx => ?_) fun j hj => hzones j (List.mem_cons_of_mem _ hj)
      unfold keepBest at hx
      split at hx
      · cases hx
        exact hP
      · rename_i b
        split at hx
        · cases hx
          exact hP
        · cases hx
          exact hbest _ rfl

theorem pfsName_plain {p : Path} (hne : p ≠ []) (hat : '@' ∉ p) :
    ∃ name, pfsName p = some name ∧ name.length ≤ inodeMaxname := by
  obtain ⟨c, hc⟩ : ∃ c, p.getLast? = some c := ⟨_, List.getLast?_eq_some_getLast hne⟩
  rw [pfsName, if_neg hat, hc]
  split
  · rename_i h
    cases h
  · exact ⟨_, rfl, by decide⟩
  · exact ⟨_, rfl, by decide⟩
  · exact ⟨_, rfl, by decide⟩

/-- The label of what was written is found. -/
theorem readLabel_written (F : Formatted env o devs paths fso devs')
    (hw : ∀ path, (devs path).Works) (hno : NoZoneBehind devs paths) (h0 : paths[0]? = some path)
    {p : Path} (hne : p ≠ []) (hat : '@' ∉ p) :
    ∃ fuel, readLabel fuel (devs' path) p = .ok true := by
  have hsize : (devs' path).size = (devs path).size := by rw [F.device 0 path h0]
  have hid : (fso.volumes 0).id = 0 := (F.volume 0 path h0).id
  have hzones : ∀ z ∈ List.range numVolhdrs, zoneBytes * z < (devs' path).size →
      ∃ vd, readVoldata (devs' path) z = some vd ∧
        Stored env o fso (areas o fso.totalSize) (fso.volumes 0) (z, vd).2 := by
    intro z hz hlt
    have hz4 := List.mem_range.mp hz
    have hwritten : zoneBytes * z < (fso.volumes 0).size := by
      rw [(F.volume 0 path h0).size]
      exact hno 0 path h0 z hz4 (hsize ▸ hlt)
    exact ⟨_, readVoldata_written F hw h0 hz4 hwritten, F.stored h0 hz4 hwritten⟩
  have hnone : ∀ x ∈ (none : Option (Nat × VolumeData)),
      Stored env o fso (areas o fso.totalSize) (fso.volumes 0) x.2 := by
    intro x hx
    cases hx
  obtain ⟨b, hb, hstored⟩ := labelZones_all hnone hzones
  cases b with
  | none =>
    have hzero := labelZones_empty.mp hb
    have hlt := (mem_writtenZones.mp (F.zone_zero h0)).2
    have hle := F.size_le h0
    omega
  | some x =>
    obtain ⟨z, vd⟩ := x
    have hvd := hstored _ rfl
    have href : blockrefAt vd 0x200 = srootBlockref env o (areas o fso.totalSize).allocBase :=
      List.head_eq_of_cons_eq (hvd.sroot hid)
    obtain ⟨htype, media, hread, -⟩ := enter_sroot F hw h0
    obtain ⟨name, hname, hlen⟩ := pfsName_plain hne hat
    obtain ⟨fuel, r, hr⟩ := (findPfs_returns_iff (devs' path) (name.map byteOf) _ false).mpr
      (safeBelow_sroot F hw h0 (name.map byteOf))
    refine ⟨fuel, ?_⟩
    rw [readLabel, hb]
    dsimp only
    rw [href, if_neg (not_not.mpr htype), hread]
    dsimp only
    rw [hname]
    dsimp only
    rw [if_neg (Nat.not_lt.mpr hlen), hr]

end Label

/-! ## The list of the devices -/

def countId (x : Nat → Int) (id : Nat) : Nat → Int := Function.update x id (charInc (x id))

section Lists

variable {env : NewfsEnv} {o : MkfsOptions} {devs devs' : Nat → Device} {paths rest : List Nat}
  {fso : Ondisk} {name : Nat → Path} {files : Path → Device} {path i k : Nat}
  {st st' : VoldataStatics} {s s' : Scan}

theorem not_mem_intercalate {c sep : Char} {names : List Path} (hsep : c ≠ sep)
    (h : ∀ l ∈ names, c ∉ l) : c ∉ [sep].intercalate names := by
  induction names with
  | nil => exact List.not_mem_nil
  | cons l names ih =>
    have hl := h l List.mem_cons_self
    have hrest := ih fun x hx => h x (List.mem_cons_of_mem l hx)
    cases names with
    | nil => simpa [List.intercalate] using hl
    | cons l' names =>
      rw [List.intercalate_cons_cons, List.mem_append, List.mem_append, List.mem_singleton]
      exact fun hc => hc.elim (fun hc => hc.elim hl hsep) hrest

theorem blkdevsOf_plain (L : Listing paths devs' name files) : '@' ∉ blkdevsOf paths name := by
  refine not_mem_intercalate (by decide) fun l hl => ?_
  obtain ⟨p, hp, rfl⟩ := List.mem_map.mp hl
  exact (L.plain p hp).2.2

theorem hammer2Devices_blkdevsOf (L : Listing paths devs' name files) (hne : paths ≠ []) :
    hammer2Devices (blkdevsOf paths name) = paths.map name := by
  have hat : (blkdevsOf paths name).takeWhile (· ≠ '@') = blkdevsOf paths name := by
    rw [List.takeWhile_eq_self_iff]
    intro c hc
    exact decide_eq_true fun heq => blkdevsOf_plain L (heq ▸ hc)
  rw [hammer2Devices, hat]
  refine List.splitOn_intercalate ':' (fun l hl => ?_) (by simpa using hne)
  obtain ⟨p, hp, rfl⟩ := List.mem_map.mp hl
  exact (L.plain p hp).2.1

theorem file_of (L : Listing paths devs' name files) (hi : paths[i]? = some path) :
    files (name path) = devs' path := L.files path (List.mem_of_getElem? hi)

/-- The loop goes on behind a device that passes. -/
theorem scan_step (F : Formatted env o devs paths fso devs') (hw : ∀ path, (devs path).Works)
    (L : Listing paths devs' name files) (hi : paths[i]? = some path)
    (htest : testVoldata (devs' path) st = (true, st')) (names : List Path) :
    scanHammer2 files st s (name path :: names)
      = scanHammer2 files st' (s.count (name path) i) names := by
  have hlt := mem_writtenZones.mp (F.zone_zero hi)
  have hread := readVoldata_written F hw hi hlt.1 hlt.2
  obtain ⟨hgood, hid, -⟩ := header_good F hw hi hlt.1 hlt.2
  have hopen : (devs' path).opens = true := by
    rw [F.device i path hi]
    exact (F.volume i path hi).opens
  have hmax := hgood.id
  rw [hid] at hmax
  rw [scanHammer2, file_of L hi, if_pos hopen, htest]
  dsimp only
  rw [hread]
  dsimp only
  rw [hid, if_neg (Nat.not_le.mpr hmax)]

theorem behind_first {p : Nat} (h : ∀ j q, (p :: rest)[j]? = some q → paths[k + j]? = some q) :
    ∀ j q, rest[j]? = some q → paths[k + 1 + j]? = some q := by
  intro j q hj
  have hnext := h (j + 1) q hj
  rwa [← Nat.add_assoc, Nat.add_right_comm] at hnext

/-- The loop over the devices from volume `k` on, when all of them pass. -/
theorem scan_written (F : Formatted env o devs paths fso devs') (hw : ∀ path, (devs path).Works)
    (L : Listing paths devs' name files) (hno : NoZoneBehind devs paths)
    (hrest : ∀ j p, rest[j]? = some p → paths[k + j]? = some p)
    (hst : st.count = 0 ∨ st = MkfsOptions.filesystem o paths.length) :
    ∃ s' st', scanHammer2 files st s (rest.map name) = (some s', st') ∧
      s'.x = (List.range' k rest.length).foldl countId s.x ∧
      (0 < k → s'.rootvolpath = s.rootvolpath) ∧
      (rest = [] ∧ s'.volid = s.volid ∨ s'.volid.isSome) := by
  induction rest generalizing k st s with
  | nil => exact ⟨s, st, rfl, rfl, fun _ => rfl, Or.inl ⟨rfl, rfl⟩⟩
  | cons p rest ih =>
    have hp : paths[k]? = some p := hrest 0 p rfl
    obtain ⟨st₁, htest, hst₁⟩ := testVoldata_passes F hw hno hp hst
    have hrest' := behind_first hrest
    obtain ⟨s', st', hscan, hx, hroot, hvol⟩ := ih (s := s.count (name p) k) hrest' hst₁
    refine ⟨s', st', ?_, hx, fun hk => ?_, Or.inr ?_⟩
    · rw [List.map_cons, scan_step F hw L hp htest, hscan]
    · rw [hroot (Nat.succ_pos k), Scan.count]
      exact if_neg (Nat.ne_of_gt hk)
    · rcases hvol with ⟨-, hvol⟩ | hvol
      · rw [hvol]
        rfl
      · exact hvol

/-- How far the loop has come: the devices up to there pass. -/
theorem scan_passes (F : Formatted env o devs paths fso devs') (hw : ∀ path, (devs path).Works)
    (L : Listing paths devs' name files)
    (hrest : ∀ j p, rest[j]? = some p → paths[k + j]? = some p)
    (h : scanHammer2 files st s (rest.map name) = (some s', st')) :
    ∃ m ≤ rest.length, s'.x = (List.range' k m).foldl countId s.x ∧ (m = 0 → s' = s) ∧
      ∀ j < m, ∀ p, rest[j]? = some p → ∃ st, (testVoldata (devs' p) st).1 = true := by
  induction rest generalizing k st s with
  | nil =>
    cases h
    exact ⟨0, Nat.le_refl 0, rfl, fun _ => rfl, fun j hj => absurd hj (Nat.not_lt_zero j)⟩
  | cons p rest ih =>
    have hp : paths[k]? = some p := hrest 0 p rfl
    have hrest' := behind_first hrest
    cases htest : testVoldata (devs' p) st with
    | mk passed st₁ =>
      cases passed with
      | false =>
        have hopen : (devs' p).opens = true := by
          rw [F.device k p hp]
          exact (F.volume k p hp).opens
        rw [List.map_cons, scanHammer2, file_of L hp, if_pos hopen, htest] at h
        cases h
        exact ⟨0, Nat.zero_le _, rfl, fun _ => rfl, fun j hj => absurd hj (Nat.not_lt_zero j)⟩
      | true =>
        rw [List.map_cons, scan_step F hw L hp htest] at h
        obtain ⟨m, hm, hx, -, hpass⟩ := ih hrest' h
        refine ⟨m + 1, Nat.succ_le_succ hm, hx, fun h0 => absurd h0 (Nat.succ_ne_zero m), ?_⟩
        intro j hj q hq
        cases j with
        | zero =>
          cases hq
          exact ⟨st, by rw [htest]⟩
        | succ j => exact hpass j (Nat.lt_of_succ_lt_succ hj) q hq

theorem count_range (n id : Nat) : (List.range n).count id = if id < n then 1 else 0 := by
  split
  · next h => exact List.count_eq_one_of_mem List.nodup_range (List.mem_range.mpr h)
  · next h => exact List.count_eq_zero.mpr fun hm => h (List.mem_range.mp hm)

/-- The counters after the ids below `n`. -/
theorem countId_range (n : Nat) :
    (List.range' 0 n).foldl countId (fun _ => 0) = tally (List.range n) := by
  rw [← List.range_eq_range']
  rfl

theorem exactlyOnce_range (n : Nat) : ExactlyOnce (List.range n) n := count_range n

/-- The counters are those of the volumes up to the count of the header. -/
theorem idsOk_range {m count : Nat} (hm : m ≤ maxVolumes) :
    idsOk maxVolumes (tally (List.range m)) count = true ↔ count = m := by
  have hlt : ∀ id ∈ List.range m, id < maxVolumes := fun id hid =>
    (List.mem_range.mp hid).trans_le hm
  rw [idsOk_tally_iff hlt (exactlyOnce_range m).rare]
  constructor
  · intro h
    obtain ⟨-, hex⟩ := h
    have h1 := hex count
    have h2 := hex m
    rw [count_range, if_neg (lt_irrefl count)] at h1
    rw [count_range, if_neg (lt_irrefl m)] at h2
    split at h1 <;> split at h2 <;> omega
  · intro h
    rw [h]
    exact ⟨hm, exactlyOnce_range m⟩

section

variable (F : Formatted env o devs paths fso devs')
include F

section

variable (hw : ∀ path, (devs path).Works) (L : Listing paths devs' name files)
include hw L

/-- In version 2 the list is accepted. -/
theorem fsvtyp_written (hno : NoZoneBehind devs paths) (hv : 2 ≤ o.hammer2Version) : ∃ fuel st,
      runFsvtypHammer2 fuel files initStatics (blkdevsOf paths name) = .ok (true, st) := by
  have hpos := F.pos
  have hne : paths ≠ [] := List.length_pos_iff.mp hpos
  obtain ⟨p, rest, hpaths⟩ := List.exists_cons_of_ne_nil hne
  have h0 : paths[0]? = some p := by rw [hpaths]; rfl
  have hrest : ∀ j q, (p :: rest)[j]? = some q → paths[0 + j]? = some q := by
    intro j q hj
    rw [Nat.zero_add, hpaths, hj]
  obtain ⟨st₁, htest, hst₁⟩ := testVoldata_passes F hw hno h0
    (show initStatics.count = 0 ∨ _ from Or.inl rfl)
  obtain ⟨s', st', hscan, hx, hroot, hvol⟩ := scan_written (s := Scan.init.count (name p) 0)
    F hw L hno (behind_first hrest) hst₁
  have hall : scanHammer2 files initStatics .init (paths.map name) = (some s', st') := by
    rw [hpaths, List.map_cons, scan_step F hw L h0 htest, hscan]
  have hfiles := scanFiles_scan files initStatics .init .null (paths.map name)
  rw [hall] at hfiles
  have hroot' : s'.rootvolpath = some (name p) := by
    rw [hroot Nat.one_pos]
    rfl
  have hisSome : s'.volid.isSome = true := by
    rcases hvol with ⟨-, hvol⟩ | hvol
    · rw [hvol]
      rfl
    · exact hvol
  have hlt := mem_writtenZones.mp (F.zone_zero h0)
  have hread := readVoldata_written F hw h0 hlt.1 hlt.2
  obtain ⟨-, -, hfs⟩ := header_good F hw h0 hlt.1 hlt.2
  have hcount : ((devs' p).header 0).nvolumes = paths.length :=
    (congrArg VoldataStatics.count hfs).trans (if_pos hv)
  have hvd : voldataOf files (name p) 0 = some ((devs' p).header 0) := by
    have hopen : (devs' p).opens = true := by
      rw [F.device 0 p h0]
      exact (F.volume 0 p h0).opens
    rw [voldataOf, file_of L h0, if_pos hopen, hread]
  have hids : idsOk maxVolumes s'.x ((devs' p).header 0).nvolumes = true := by
    have htally : s'.x = tally (List.range paths.length) := by
      rw [hx, ← countId_range, hpaths]
      rfl
    rw [htally, hcount]
    exact (idsOk_range F.le_max).mpr rfl
  obtain ⟨hplain, -, hat⟩ := L.plain p (List.mem_of_getElem? h0)
  obtain ⟨fuel, hlabel⟩ := readLabel_written F hw hno h0 hplain hat
  have hpath : labelPath (name p) (blkdevsOf paths name) = name p := if_neg (blkdevsOf_plain L)
  refine ⟨fuel, st', ?_⟩
  rw [runFsvtypHammer2, hammer2Devices_blkdevsOf L hne]
  generalize scanFiles files initStatics .init .null (paths.map name) = res at hfiles
  obtain ⟨o', st₂, fp⟩ := res
  cases hfiles
  dsimp only
  rw [hroot']
  dsimp only
  rw [hvd]
  dsimp only
  rw [hisSome, hids, hpath, file_of L h0, hlabel]
  rfl

/-- In version 1 the only device is accepted. -/
theorem fstyp_written (hno : NoZoneBehind devs paths) (hv : o.hammer2Version < 2)
    (hpath : paths = [path]) :
    ∃ fuel st, fstypHammer2 fuel (devs' path) initStatics (name path) = .ok (true, st) := by
  have h0 : paths[0]? = some path := by rw [hpath]; rfl
  obtain ⟨st₁, htest, -⟩ := testVoldata_passes F hw hno h0
    (show initStatics.count = 0 ∨ _ from Or.inl rfl)
  have hlt := mem_writtenZones.mp (F.zone_zero h0)
  have hread := readVoldata_written F hw h0 hlt.1 hlt.2
  obtain ⟨-, hid, hfs⟩ := header_good F hw h0 hlt.1 hlt.2
  have hcount : ((devs' path).header 0).nvolumes = 0 :=
    (congrArg VoldataStatics.count hfs).trans (if_neg (Nat.not_le.mpr hv))
  obtain ⟨hplain, -, hat⟩ := L.plain path (List.mem_of_getElem? h0)
  obtain ⟨fuel, hlabel⟩ := readLabel_written F hw hno h0 hplain hat
  refine ⟨fuel, st₁, ?_⟩
  rw [fstypHammer2, hread]
  dsimp only
  rw [if_neg (not_not.mpr hid), if_neg (not_not.mpr hcount), htest]
  dsimp only
  rw [hlabel]

/-- A list that is accepted has no zone behind a volume. -/
theorem no_zone_of_fsvtyp (hblank : ∀ p ∈ paths, (devs p).bytes = blank) {fuel : Nat}
    (h : runFsvtypHammer2 fuel files initStatics (blkdevsOf paths name) = .ok (true, st)) :
    NoZoneBehind devs paths := by
  have hne : paths ≠ [] := List.length_pos_iff.mp F.pos
  have hfiles := scanFiles_scan files initStatics .init .null (paths.map name)
  rw [runFsvtypHammer2, hammer2Devices_blkdevsOf L hne] at h
  generalize scanFiles files initStatics .init .null (paths.map name) = res at hfiles h
  obtain ⟨o', st₂, fp⟩ := res
  cases o' with
  | none =>
    have hfail : failFile fp st₂ = .ok (true, st) := h
    rw [failFile] at hfail
    split at hfail <;> cases hfail
  | some s' =>
    obtain ⟨m, hm, hx, hzero, hpass⟩ := scan_passes (k := 0) F hw L
      (fun j p hj => by rw [Nat.zero_add]; exact hj) hfiles
    dsimp only at h
    cases hroot : s'.rootvolpath with
    | none =>
      rw [hroot] at h
      have hfail : failFile fp st₂ = .ok (true, st) := h
      rw [failFile] at hfail
      split at hfail <;> cases hfail
    | some root =>
      rw [hroot] at h
      dsimp only at h
      have hm0 : m ≠ 0 := fun h0 => by
        rw [hzero h0] at hroot
        cases hroot
      split at h
      · cases h
      rename_i vd hvd
      split at h
      · rename_i hids
        rw [Bool.and_eq_true, hx] at hids
        have hcount := (idsOk_range (hm.trans F.le_max)).mp
          (by rw [← countId_range]; exact hids.2)
        obtain ⟨hmem, -⟩ := (scanHammer2_root hfiles hroot).resolve_left (by simp [Scan.init])
        obtain ⟨p, hp, rfl⟩ := List.mem_map.mp hmem
        obtain ⟨i, hi⟩ := List.getElem?_of_mem hp
        have hlt := mem_writtenZones.mp (F.zone_zero hi)
        have hread := readVoldata_written F hw hi hlt.1 hlt.2
        obtain ⟨-, -, hfs⟩ := header_good F hw hi hlt.1 hlt.2
        have hvd' : vd = (devs' p).header 0 := by
          rw [voldataOf, file_of L hi] at hvd
          split at hvd
          · rw [hread] at hvd
            exact (Option.some.inj hvd).symm
          · cases hvd
        have hn : m = o.headerCount paths.length := by
          rw [← hcount, hvd']
          exact congrArg VoldataStatics.count hfs
        intro j q hj z hz hlt
        have hjlt : j < paths.length := (List.getElem?_eq_some_iff.mp hj).1
        have hjm : j < m := by
          unfold MkfsOptions.headerCount at hn
          split at hn <;> omega
        obtain ⟨st₃, hq⟩ := hpass j hjm q hj
        exact no_zone_of_passes F hj (hblank q (List.mem_of_getElem? hj)) hq hz hlt
      · cases h

end

/-- A device that is accepted has no zone behind its volume. -/
theorem no_zone_of_fstyp (hblank : (devs path).bytes = blank) (hi : paths[i]? = some path)
    {fuel : Nat} (h : fstypHammer2 fuel (devs' path) initStatics (name path) = .ok (true, st))
    {z : Nat} (hz : z < numVolhdrs) (hlt : zoneBytes * z < (devs path).size) :
    zoneBytes * z < alignVolume paths.length i (devs path).size := by
  rw [fstypHammer2] at h
  split at h
  · cases h
  split at h
  · cases h
  split at h
  · cases h
  split at h
  · cases h
  rename_i htest
  exact no_zone_of_passes F hi hblank (congrArg Prod.fst htest) hz hlt

theorem no_zone_of_recognised (hw : ∀ path, (devs path).Works) (L : Listing paths devs' name files)
    (hblank : ∀ p ∈ paths, (devs p).bytes = blank) (h : Recognised paths devs' name files) :
    NoZoneBehind devs paths := by
  rcases h with hlist | hone
  · obtain ⟨fuel, st, hrun⟩ := hlist
    exact no_zone_of_fsvtyp F hw L hblank hrun
  · obtain ⟨p, hp, fuel, st, hrun⟩ := hone
    intro i path hi z hz hlt
    have hmem := List.mem_of_getElem? hi
    obtain rfl : path = p := by
      rw [hp] at hmem
      exact List.mem_singleton.mp hmem
    exact no_zone_of_fstyp F (hblank path hmem) hi hrun hz hlt

end

end Lists

/-- For a run that completes on devices filled with zeros: what it has written is recognised exactly
    when no zone begins between the end of a volume and the end of its device. -/
theorem newfs_recognised_iff (env : NewfsEnv) (o : MkfsOptions) (devs devs' : Nat → Device)
    (paths : List Nat) (fso : Ondisk) (name : Nat → Path) (files : Path → Device)
    (hw : ∀ path, (devs path).Works) (hblank : ∀ p ∈ paths, (devs p).bytes = blank)
    (h : newfs env o devs paths = .ok (fso, devs')) (L : Listing paths devs' name files) :
    Recognised paths devs' name files ↔ NoZoneBehind devs paths := by
  have F := newfs_ok hw h
  refine ⟨no_zone_of_recognised F hw L hblank, fun hno => ?_⟩
  by_cases hv : 2 ≤ o.hammer2Version
  · exact Or.inl (fsvtyp_written F hw L hno hv)
  · have hone := F.one_volume (Nat.not_le.mp hv)
    obtain ⟨p, hp⟩ := List.length_eq_one_iff.mp hone
    exact Or.inr ⟨p, hp, fstyp_written F hw L hno (Nat.not_le.mp hv) hp⟩

theorem listing_file (devs : Nat → Device) : Listing [0] devs (fun _ => ['d']) fun _ => devs 0 where
  files p hp := by rw [List.mem_singleton.mp hp]
  plain p hp := by decide

/-- A file of 64 MB is recognised. -/
theorem newfs_recognised_small : ∃ fso devs',
    newfs plainEnv plainMkfs (fun _ => fileDevice 67108864 blank) [0] = .ok (fso, devs') ∧
      Recognised [0] devs' (fun _ => ['d']) fun _ => devs' 0 := by
  obtain ⟨⟨fso, devs'⟩, h⟩ := exists_ok (x := newfs plainEnv plainMkfs
    (fun _ => fileDevice 67108864 blank) [0]) (by decide +kernel)
  refine ⟨fso, devs', h, (newfs_recognised_iff plainEnv plainMkfs _ devs' [0] fso _ _
    (fun _ => fileDevice_works (by decide)) (fun _ _ => rfl) h (listing_file devs')).mpr ?_⟩
  intro i path hi z hz hlt
  have hi0 : i = 0 := Nat.lt_one_iff.mp (List.getElem?_eq_some_iff.mp hi).1
  subst hi0
  have hsize : (fileDevice 67108864 blank).size =
      alignVolume [0].length 0 (fileDevice 67108864 blank).size := by decide
  exact hlt.trans_eq hsize

/-- In a file of 2 GB and 4 MB the second zone begins behind the volume of 2 GB. -/
theorem newfs_not_recognised : ∃ fso devs',
    newfs plainEnv plainMkfs (fun _ => fileDevice (zoneBytes + 4194304) blank) [0] =
        .ok (fso, devs') ∧
      ¬ Recognised [0] devs' (fun _ => ['d']) fun _ => devs' 0 := by
  obtain ⟨⟨fso, devs'⟩, h⟩ := exists_ok (x := newfs plainEnv plainMkfs
    (fun _ => fileDevice (zoneBytes + 4194304) blank) [0]) (by decide +kernel)
  have hw : ∀ path : Nat, ((fun _ => fileDevice (zoneBytes + 4194304) blank) path : Device).Works :=
    fun _ => fileDevice_works (by decide)
  refine ⟨fso, devs', h, fun hrec => ?_⟩
  have hno := no_zone_of_recognised (newfs_ok hw h) hw (listing_file devs') (fun _ _ => rfl) hrec
  have hlt := hno 0 0 rfl 1 (by decide) (by decide)
  exact absurd hlt (by decide)

end Lh1.Fstyp
