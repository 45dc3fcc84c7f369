/-
  The label of a HAMMER2 filesystem in fstyp (usr.sbin/fstyp/hammer2.c).

  `fstyp_hammer2` and `fsvtyp_hammer2` end with `read_label`, which looks for a PFS in the tree below
  the super-root. Blockrefs are followed as they are found. What the C functions do that has no
  outcome is an error here: to follow a null pointer, to copy what is behind a buffer or between
  overlapping places, to close a file twice, to fail an assertion, and to recurse without end. Which
  label is returned is left out, but not how it is looked for.

  * `findPfs_eq`: `find_pfs` is a search through the graph of the blockrefs.
  * `readLabel_returns_iff`: when `read_label` returns.
  * `fstyp_returns_iff`: when `fstyp_hammer2` and `fsvtyp_hammer2` return.
-/
import Lh1.Lib.Descent
import Lh1.Fstyp.Volumes
import Lh1.Hammer2.Media

namespace Lh1.Fstyp

open Lh1.Lib Lh1.Hammer2

inductive Crash where
  /-- A null pointer is followed. -/
  | null
  /-- Memory is read that is not in the buffer. -/
  | bounds
  /-- `memcpy` between places that overlap. -/
  | overlap
  /-- `fclose` on a file that has been closed. -/
  | closed
  | assert
  /-- The recursion has not ended. -/
  | fuel
  deriving DecidableEq, Repr

/-! ## Looking for a PFS -/

/-- `read_media`: the buffer, if there is one. -/
def readMedia (dev : Device) (b : Blockref) : Except Crash (Option Image) :=
  let boff := b.ioOff % lbufSize
  let ioBase := b.ioOff - boff
  if b.size = 0 then .ok none
  else if pbufSize < b.ioBytes then .ok none
  else if dev.size ≤ ioBase then .ok none
  else
    match readBuf dev ioBase b.ioBytes with
    | none => .ok none
    | some media =>
      if boff = 0 then .ok (some media)
      else if b.ioBytes < boff + b.size then .error .bounds
      else if boff < b.size then .error .overlap
      else .ok (some fun i => if i < b.size then media (boff + i) else media i)

/-- `meta.pfs_type == HAMMER2_PFSTYPE_SUPROOT`. -/
def IsSuproot (ipdata : Image) : Prop := ipdata.word 0x87 1 = 8

instance (ipdata : Image) : Decidable (IsSuproot ipdata) := inferInstanceAs (Decidable (_ = _))

/-- `meta.op_flags & HAMMER2_OPFLAG_PFSROOT`. -/
def IsPfsroot (ipdata : Image) : Prop := ipdata.word 0x51 1 / 2 % 2 = 1

instance (ipdata : Image) : Decidable (IsPfsroot ipdata) := inferInstanceAs (Decidable (_ = _))

/-- Whether an inode has the name that is looked for. -/
def hasName (ipdata : Image) (pfs : List UInt8) : Bool :=
  let filename := ipdata.read 0x100 256
  if 0 ∈ filename then decide (filename.takeWhile (· ≠ 0) = pfs)
  else decide (pfs ≠ [] ∧ filename.take pfs.length = pfs)

/-- The blockrefs of a block that are not EMPTY. -/
def refsAt (media : Image) (o n : Nat) : List Blockref :=
  (blockrefsAt media o n).filter fun b => b.type ≠ .empty

/-- `find_pfs`, with what `*res` is; none for -1. -/
def findPfs (dev : Device) (pfs : List UInt8) :
    Nat → Blockref → Bool → Except Crash (Option Unit × Bool)
  | 0, _, _ => .error .fuel
  | fuel + 1, b, res =>
    match readMedia dev b with
    | .error e => .error e
    | .ok none => .ok (none, res)
    | .ok (some media) =>
      let scan := fun bs => Graph.finish (visitAll (findPfs dev pfs fuel) bs res)
      match b.type with
      | .inode =>
        if IsSuproot media then scan (refsAt media 0x200 4)
        else if IsPfsroot media then .ok (some (), res || hasName media pfs)
        else .ok (none, res)
      | .indirect => scan (refsAt media 0 (b.size / 128))
      | _ => .ok (some (), res)

/-- Where `find_pfs` goes on to from a block; none where it returns -1. -/
def pfsBelow (b : Blockref) (media : Image) : Option (List Blockref) :=
  match b.type with
  | .inode =>
    if IsSuproot media then some (refsAt media 0x200 4)
    else if IsPfsroot media then some []
    else none
  | .indirect => some (refsAt media 0 (b.size / 128))
  | _ => some []

/-- The graph of the blockrefs of a device. -/
def brefGraph (dev : Device) (pfs : List UInt8) : Graph Blockref Bool Crash where
  enter := fun b =>
    match readMedia dev b with
    | .error e => .error e
    | .ok none => .ok none
    | .ok (some media) => .ok (pfsBelow b media)
  touch := fun b res =>
    match readMedia dev b with
    | .ok (some media) =>
      if b.type = .inode ∧ ¬ IsSuproot media ∧ IsPfsroot media then res || hasName media pfs
      else res
    | _ => res

section

variable {dev : Device} {pfs : List UInt8} {b : Blockref} {media : Image}

theorem enter_error {e : Crash} (h : readMedia dev b = .error e) :
    (brefGraph dev pfs).enter b = .error e := by
  simp only [brefGraph, h]

theorem enter_none (h : readMedia dev b = .ok none) : (brefGraph dev pfs).enter b = .ok none := by
  simp only [brefGraph, h]

theorem enter_some (h : readMedia dev b = .ok (some media)) :
    (brefGraph dev pfs).enter b = .ok (pfsBelow b media) := by
  simp only [brefGraph, h]

theorem touch_some (h : readMedia dev b = .ok (some media)) (res : Bool) :
    (brefGraph dev pfs).touch b res
      = if b.type = .inode ∧ ¬ IsSuproot media ∧ IsPfsroot media then res || hasName media pfs
        else res := by
  simp only [brefGraph, h]

theorem findPfs_eq (dev : Device) (pfs : List UInt8) (fuel : Nat) :
    findPfs dev pfs fuel = (brefGraph dev pfs).descend .fuel fuel := by
  induction fuel with
  | zero => rfl
  | succ fuel ih =>
    funext b res
    rw [findPfs, Graph.descend, ih]
    cases hread : readMedia dev b with
    | error e => rw [enter_error hread]
    | ok o =>
      cases o with
      | none => rw [enter_none hread]
      | some media =>
        rw [enter_some hread, touch_some hread]
        dsimp only
        cases htype : b.type with
        | inode =>
          by_cases hsup : IsSuproot media
          · simp only [pfsBelow, htype, hsup, if_true, not_true, false_and, and_false,
              if_false]
          · by_cases hroot : IsPfsroot media
            · simp only [pfsBelow, htype, hsup, hroot, if_false, if_true, not_false_iff,
                and_self, visitAll, Graph.finish]
            · simp only [pfsBelow, htype, hsup, hroot, if_false]
        | indirect => simp only [pfsBelow, htype, reduceCtorEq, false_and, if_false]
        | _ => simp only [pfsBelow, htype, reduceCtorEq, false_and, if_false, visitAll,
            Graph.finish]

end

/-! ## The label -/

/-- The loop over the zones in `read_label`: none where it jumps to `fail`, else the best header if
    there is one. -/
def labelZones (dev : Device) :
    List Nat → Option (Nat × VolumeData) → Option (Option (Nat × VolumeData))
  | [], best => some best
  | i :: is, best =>
    if dev.size ≤ zoneBytes * i then some best
    else
      match readVoldata dev i with
      | none => none
      | some vd => labelZones dev is (keepBest best i vd)

/-- The PFS that a path asks for; none where the assertion on it fails. -/
def pfsName (path : Path) : Option (List Char) :=
  if '@' ∈ path then some ((path.dropWhile (· ≠ '@')).drop 1)
  else
    match path.getLast? with
    | none => none
    | some 'a' => some ['B', 'O', 'O', 'T']
    | some 'd' => some ['R', 'O', 'O', 'T']
    | some _ => some ['D', 'A', 'T', 'A']

/-- `HAMMER2_INODE_MAXNAME`. -/
def inodeMaxname : Nat := 256

def byteOf (c : Char) : UInt8 := UInt8.ofNat c.toNat

/-- `read_label`: whether it returns 0. -/
def readLabel (fuel : Nat) (dev : Device) (path : Path) : Except Crash Bool :=
  match labelZones dev (List.range numVolhdrs) none with
  | none => .ok false
  | some none => .error .bounds
  | some (some (_, vd)) =>
    let bref := blockrefAt vd 0x200
    if bref.type ≠ .inode then .ok false
    else
      match readMedia dev bref with
      | .error e => .error e
      | .ok none => .ok false
      | .ok (some _) =>
        match pfsName path with
        | none => .error .assert
        | some pfs =>
          if inodeMaxname < pfs.length then .ok false
          else
            -- the label is that of the super-root if the PFS is not found
            match findPfs dev (pfs.map byteOf) fuel bref false with
            | .error e => .error e
            | .ok _ => .ok true

/-- `fstyp_hammer2`: whether it returns 0. -/
def fstypHammer2 (fuel : Nat) (dev : Device) (st : VoldataStatics) (path : Path) :
    Except Crash (Bool × VoldataStatics) :=
  match readVoldata dev 0 with
  | none => .error .null
  | some vd =>
    if vd.voluId ≠ 0 then .ok (false, st)
    else if vd.nvolumes ≠ 0 then .ok (false, st)
    else
      match testVoldata dev st with
      | (false, st) => .ok (false, st)
      | (true, st) =>
        match readLabel fuel dev path with
        | .error e => .error e
        | .ok r => .ok (r, st)

/-- The variable `fp` of `__fsvtyp_hammer2`. -/
inductive File where
  | null
  | open
  | closed
  deriving DecidableEq, Repr

/-- `scanHammer2`, with what becomes of `fp`. -/
def scanFiles (files : Path → Device) :
    VoldataStatics → Scan → File → List Path → Option Scan × VoldataStatics × File
  | st, s, fp, [] => (some s, st, fp)
  | st, s, _, path :: paths =>
    if (files path).opens then
      match testVoldata (files path) st with
      | (false, st) => (some s, st, .open)
      | (true, st) =>
        match readVoldata (files path) 0 with
        | none => (none, st, .closed)
        | some vd =>
          if maxVolumes ≤ vd.voluId then (none, st, .closed)
          else scanFiles files st (s.count path vd.voluId) .closed paths
    else (none, st, .null)

/-- The label `fail` of `__fsvtyp_hammer2`. -/
def failFile (fp : File) (st : VoldataStatics) : Except Crash (Bool × VoldataStatics) :=
  if fp = .closed then .error .closed else .ok (false, st)

/-- `fsvtyp_hammer2`: whether it returns 0. -/
def runFsvtypHammer2 (fuel : Nat) (files : Path → Device) (st : VoldataStatics)
    (blkdevs : List Char) : Except Crash (Bool × VoldataStatics) :=
  match scanFiles files st .init .null (hammer2Devices blkdevs) with
  | (none, st, fp) => failFile fp st
  | (some s, st, fp) =>
    match s.rootvolpath with
    | none => failFile fp st
    | some path =>
      match voldataOf files path 0 with
      | none => .ok (false, st)
      | some vd =>
        if (s.volid.isSome && idsOk maxVolumes s.x vd.nvolumes) = true then
          match readLabel fuel (files path) (labelPath path blkdevs) with
          | .error e => .error e
          | .ok r => .ok (r, st)
        else .ok (false, st)

/-! ## When they return -/

/-- Every descent of `find_pfs` from a blockref ends, and all blocks that it comes to are within
    their buffers, behind what they are moved to. -/
def SafeBelow (dev : Device) (pfs : List UInt8) (b : Blockref) : Prop :=
  Safe (brefGraph dev pfs).Visits (brefGraph dev pfs).Stops b

/-- The device has a header, and what `read_label` begins with is sound: if the blockref of the
    super-root in the best header is that of an inode, the inode is within its buffer, and if it can
    be read there is a name, which is too long or can be looked for. -/
structure LabelSafe (dev : Device) (path : Path) : Prop where
  nonempty : 0 < dev.size
  root : ∀ i vd, labelZones dev (List.range numVolhdrs) none = some (some (i, vd)) →
    (blockrefAt vd 0x200).type = .inode → ∃ m, readMedia dev (blockrefAt vd 0x200) = .ok m ∧
      (m ≠ none → ∃ pfs, pfsName path = some pfs ∧ (pfs.length ≤ inodeMaxname →
        SafeBelow dev (pfs.map byteOf) (blockrefAt vd 0x200)))

/-- `fstyp_hammer2` gets to the label only for volume 0 of a filesystem without volume count. -/
structure FstypSafe (dev : Device) (st : VoldataStatics) (path : Path) : Prop where
  header : dev.HasHeader 0
  label : (dev.header 0).voluId = 0 → (dev.header 0).nvolumes = 0 →
    (testVoldata dev st).1 = true → LabelSafe dev path

/-- Up to the first device that does not open or pass no device is empty; if there is no such device
    one of them is the root volume. -/
def ListSafe (files : Path → Device) : VoldataStatics → Bool → List Path → Prop
  | _, root, [] => root = true
  | st, root, path :: paths =>
    (files path).opens = true → (testVoldata (files path) st).1 = true →
      0 < (files path).size ∧ ListSafe files (testVoldata (files path) st).2
        (root || decide (((files path).header 0).voluId = 0)) paths

/-- The root volume of a list that is accepted up to the label. -/
def Accepts (files : Path → Device) (st : VoldataStatics) (blkdevs : List Char) (root : Path) :
    Prop :=
  ∃ s st' vd, scanHammer2 files st .init (hammer2Devices blkdevs) = (some s, st') ∧
    s.rootvolpath = some root ∧ voldataOf files root 0 = some vd ∧
    (s.volid.isSome && idsOk maxVolumes s.x vd.nvolumes) = true

structure FsvtypSafe (files : Path → Device) (st : VoldataStatics) (blkdevs : List Char) :
    Prop where
  list : ListSafe files st false (hammer2Devices blkdevs)
  label : ∀ root, Accepts files st blkdevs root →
    LabelSafe (files root) (labelPath root blkdevs)

def FstypReturns (dev : Device) (st : VoldataStatics) (path : Path) : Prop :=
  ∃ fuel r, fstypHammer2 fuel dev st path = .ok r

def FsvtypReturns (files : Path → Device) (st : VoldataStatics) (blkdevs : List Char) : Prop :=
  ∃ fuel r, runFsvtypHammer2 fuel files st blkdevs = .ok r

section

variable {dev : Device} {files : Path → Device} {st : VoldataStatics} {s : Scan} {fp : File}
  {path : Path} {paths : List Path} {i : Nat} {is : List Nat}

theorem readVoldata_eq (hi : i < numVolhdrs) :
    readVoldata dev i = if dev.HasHeader i then some (dev.header i) else none := by
  rw [readVoldata, if_neg (Nat.not_le.mpr hi)]
  by_cases hh : dev.HasHeader i
  · rw [if_neg (Nat.not_le.mpr hh.lt_size), if_pos hh]
    exact if_pos hh
  · rw [if_neg hh]
    split
    · rfl
    · exact if_neg hh

theorem labelZones_some (best : Nat × VolumeData) : labelZones dev is (some best) ≠ some none := by
  induction is generalizing best with
  | nil => nofun
  | cons i is ih =>
    rw [labelZones]
    split
    · nofun
    · split
      · nofun
      · rename_i vd _
        rw [keepBest]
        split
        · exact ih _
        · exact ih _

/-- Only an empty file leaves `best_i` at -1. -/
theorem labelZones_empty :
    labelZones dev (List.range numVolhdrs) none = some none ↔ dev.size = 0 := by
  have hrange : List.range numVolhdrs = [0, 1, 2, 3] := rfl
  rw [hrange, labelZones, Nat.mul_zero]
  by_cases hsize : dev.size = 0
  · rw [if_pos (Nat.le_of_eq hsize)]
    exact iff_of_true rfl hsize
  · rw [if_neg (by omega)]
    refine iff_of_false ?_ hsize
    split
    · nofun
    · exact labelZones_some _

theorem findPfs_returns_iff (dev : Device) (pfs : List UInt8) (b : Blockref) (res : Bool) :
    (∃ fuel r, findPfs dev pfs fuel b res = .ok r) ↔ SafeBelow dev pfs b := by
  simp only [findPfs_eq]
  exact Graph.descend_returns_iff res

theorem readLabel_returns_iff (dev : Device) (path : Path) :
    (∃ fuel r, readLabel fuel dev path = .ok r) ↔ LabelSafe dev path := by
  have hempty : labelZones dev (List.range numVolhdrs) none = some none ↔ dev.size = 0 :=
    labelZones_empty
  constructor
  · intro h
    obtain ⟨fuel, r, h⟩ := h
    refine ⟨Nat.pos_of_ne_zero fun h0 => ?_, fun i vd hzones htype => ?_⟩
    · rw [readLabel, hempty.mpr h0] at h
      cases h
    · rw [readLabel, hzones] at h
      dsimp only at h
      rw [if_neg (not_not.mpr htype)] at h
      cases hread : readMedia dev (blockrefAt vd 0x200) with
      | error e =>
        rw [hread] at h
        cases h
      | ok m =>
        refine ⟨m, rfl, fun hm => ?_⟩
        obtain ⟨media, rfl⟩ := Option.ne_none_iff_exists'.mp hm
        rw [hread] at h
        dsimp only at h
        cases hpfs : pfsName path with
        | none =>
          rw [hpfs] at h
          cases h
        | some pfs =>
          refine ⟨pfs, rfl, fun hlen => ?_⟩
          rw [hpfs] at h
          dsimp only at h
          rw [if_neg (Nat.not_lt.mpr hlen)] at h
          cases hfind : findPfs dev (pfs.map byteOf) fuel (blockrefAt vd 0x200) false with
          | error e =>
            rw [hfind] at h
            cases h
          | ok r => exact (findPfs_returns_iff dev _ _ false).mp ⟨fuel, r, hfind⟩
  · intro h
    simp only [readLabel]
    cases hzones : labelZones dev (List.range numVolhdrs) none with
    | none => exact ⟨0, false, rfl⟩
    | some o =>
      cases o with
      | none => exact absurd (hempty.mp hzones) (Nat.ne_of_gt h.nonempty)
      | some p =>
        obtain ⟨i, vd⟩ := p
        dsimp only
        by_cases htype : (blockrefAt vd 0x200).type = .inode
        · obtain ⟨m, hread, hm⟩ := h.root i vd hzones htype
          simp only [htype, hread, ne_eq, not_true_eq_false, if_false]
          cases m with
          | none => exact ⟨0, false, rfl⟩
          | some media =>
            obtain ⟨pfs, hpfs, hsafe⟩ := hm nofun
            simp only [hpfs]
            by_cases hlen : inodeMaxname < pfs.length
            · exact ⟨0, false, if_pos hlen⟩
            · obtain ⟨fuel, r, hr⟩ := (findPfs_returns_iff dev _ _ false).mpr
                (hsafe (Nat.not_lt.mp hlen))
              exact ⟨fuel, true, by rw [if_neg hlen, hr]⟩
        · exact ⟨0, false, if_pos htype⟩

theorem fstypHammer2_returns_iff (dev : Device) (st : VoldataStatics) (path : Path) :
    FstypReturns dev st path ↔ FstypSafe dev st path := by
  have hzero : readVoldata dev 0 = if dev.HasHeader 0 then some (dev.header 0) else none :=
    readVoldata_eq (by decide)
  have hlabel := readLabel_returns_iff dev path
  constructor
  · intro h
    obtain ⟨fuel, r, h⟩ := h
    rw [fstypHammer2, hzero] at h
    by_cases hh : dev.HasHeader 0
    · refine ⟨hh, fun hid hn hpass => hlabel.mp ?_⟩
      have htest : testVoldata dev st = (true, (testVoldata dev st).2) := Prod.ext hpass rfl
      rw [if_pos hh] at h
      dsimp only at h
      rw [if_neg (not_not.mpr hid), if_neg (not_not.mpr hn), htest] at h
      cases hread : readLabel fuel dev path with
      | error e =>
        rw [hread] at h
        cases h
      | ok r => exact ⟨fuel, r, hread⟩
    · rw [if_neg hh] at h
      cases h
  · intro h
    simp only [FstypReturns, fstypHammer2, hzero, if_pos h.header]
    by_cases hid : (dev.header 0).voluId = 0
    · by_cases hn : (dev.header 0).nvolumes = 0
      · simp only [hid, hn, ne_eq, not_true_eq_false, if_false]
        cases htest : testVoldata dev st with
        | mk passed st' =>
          cases passed with
          | false => exact ⟨0, _, rfl⟩
          | true =>
            obtain ⟨fuel, r, hr⟩ := hlabel.mpr (h.label hid hn (by rw [htest]))
            exact ⟨fuel, _, by rw [hr]⟩
      · simp only [hid, ne_eq, not_true_eq_false, if_false]
        exact ⟨0, _, if_pos hn⟩
    · exact ⟨0, _, if_pos hid⟩

/-- What becomes of `fp` does not matter to the loop. -/
theorem scanFiles_scan (files : Path → Device) (st : VoldataStatics) (s : Scan) (fp : File)
    (paths : List Path) : scanHammer2 files st s paths
      = ((scanFiles files st s fp paths).1, (scanFiles files st s fp paths).2.1) := by
  induction paths generalizing st s fp with
  | nil => rfl
  | cons path paths ih =>
    rw [scanHammer2, scanFiles]
    by_cases hopen : (files path).opens = true
    · rw [if_pos hopen, if_pos hopen]
      cases testVoldata (files path) st with
      | mk passed st' =>
        cases passed with
        | false => rfl
        | true =>
          dsimp only
          cases readVoldata (files path) 0 with
          | none => rfl
          | some vd =>
            dsimp only
            split
            · rfl
            · exact ih _ _ _
    · rw [if_neg hopen, if_neg hopen]

/-- The loop leaves a closed file where it cannot go on. -/
def LeavesClosed : Option Scan × VoldataStatics × File → Prop
  | (none, _, fp) => fp = .closed
  | (some s, _, fp) => s.rootvolpath = none ∧ fp = .closed

theorem passes_nonempty (hpass : (testVoldata dev st).1 = true) (hpos : 0 < dev.size) :
    readVoldata dev 0 = some (dev.header 0) ∧ (dev.header 0).voluId < maxVolumes := by
  have htest : testZones dev st (List.range numVolhdrs) = (true, (testVoldata dev st).2) :=
    Prod.ext hpass rfl
  have h0 : 0 ∈ List.range numVolhdrs := List.mem_range.mpr (by decide)
  obtain ⟨vd, hvd, hgood⟩ := (testZones_true htest sorted_zones).1 0 h0 hpos
  have hh : readVoldata dev 0 = if dev.HasHeader 0 then some (dev.header 0) else none :=
    readVoldata_eq (by decide)
  rw [hvd] at hh
  split at hh
  · cases hh
    exact ⟨hvd, hgood.id⟩
  · cases hh

theorem leavesClosed_iff (h : paths ≠ [] ∨ fp = .closed) :
    LeavesClosed (scanFiles files st s fp paths) ↔
      ¬ ListSafe files st s.rootvolpath.isSome paths := by
  induction paths generalizing st s fp with
  | nil =>
    have hfp : fp = .closed := h.resolve_left (· rfl)
    rw [scanFiles, LeavesClosed, ListSafe, Bool.not_eq_true, Option.isSome_eq_false_iff,
      Option.isNone_iff_eq_none]
    exact ⟨And.left, fun hroot => ⟨hroot, hfp⟩⟩
  | cons path paths ih =>
    rw [scanFiles, ListSafe]
    by_cases hopen : (files path).opens = true
    · rw [if_pos hopen]
      cases hpass : (testVoldata (files path) st).1 with
      | false =>
        have htest : testVoldata (files path) st = (false, (testVoldata (files path) st).2) :=
          Prod.ext hpass rfl
        rw [htest]
        refine iff_of_false (fun hc => ?_) (not_not.mpr fun _ hp => by cases hp)
        cases hc.2
      | true =>
        have htest : testVoldata (files path) st = (true, (testVoldata (files path) st).2) :=
          Prod.ext hpass rfl
        rw [htest]
        dsimp only
        rcases Nat.eq_zero_or_pos (files path).size with hzero | hpos
        · have hnone : readVoldata (files path) 0 = none := by
            rw [readVoldata_eq (by decide), if_neg]
            intro hh
            exact absurd hh.lt_size (by omega)
          rw [hnone]
          exact iff_of_true rfl fun hs => absurd (hs hopen rfl).1 (by omega)
        · obtain ⟨hread, hid⟩ := passes_nonempty hpass hpos
          rw [hread]
          dsimp only
          rw [if_neg (Nat.not_le.mpr hid), ih (Or.inr rfl)]
          have hroot : (s.count path ((files path).header 0).voluId).rootvolpath.isSome
              = (s.rootvolpath.isSome || decide (((files path).header 0).voluId = 0)) := by
            rw [Scan.count]
            dsimp only
            by_cases hid0 : ((files path).header 0).voluId = 0 <;> simp [hid0]
          rw [hroot]
          exact not_congr ⟨fun hs _ _ => ⟨hpos, hs⟩, fun hs => (hs hopen rfl).2⟩
    · rw [if_neg hopen]
      exact iff_of_false (fun hc => by cases hc) (not_not.mpr fun ho => absurd ho hopen)

/-- Where no volume set is accepted, the function goes to `fail`, which closes the file. -/
theorem failFile_returns_iff {st' : VoldataStatics} {blkdevs : List Char}
    (hno : ∀ root, ¬ Accepts files st blkdevs root)
    (hclosed : fp = .closed ↔ ¬ ListSafe files st false (hammer2Devices blkdevs)) :
    (∃ (_ : Nat) (r : _), failFile fp st' = .ok r) ↔ FsvtypSafe files st blkdevs := by
  constructor
  · intro h
    obtain ⟨-, r, h⟩ := h
    refine ⟨?_, fun root ha => absurd ha (hno root)⟩
    by_contra hns
    rw [failFile, if_pos (hclosed.mpr hns)] at h
    cases h
  · intro h
    exact ⟨0, _, if_neg fun hfp => hclosed.mp hfp h.list⟩

theorem fsvtypHammer2_returns_iff (files : Path → Device) (st : VoldataStatics)
    (blkdevs : List Char) : FsvtypReturns files st blkdevs ↔ FsvtypSafe files st blkdevs := by
  have hclosed : LeavesClosed (scanFiles files st .init .null (hammer2Devices blkdevs)) ↔
      ¬ ListSafe files st false (hammer2Devices blkdevs) :=
    leavesClosed_iff (Or.inl (List.splitOn_ne_nil _ _))
  have hscan := scanFiles_scan files st .init .null (hammer2Devices blkdevs)
  simp only [FsvtypReturns, runFsvtypHammer2]
  generalize scanFiles files st .init .null (hammer2Devices blkdevs) = res at hclosed hscan
  obtain ⟨o, st', fp⟩ := res
  cases o with
  | none =>
    refine failFile_returns_iff (fun root ha => ?_) hclosed
    obtain ⟨s, st₁, vd, hs, -⟩ := ha
    rw [hscan] at hs
    cases hs
  | some s =>
    cases hroot : s.rootvolpath with
    | none =>
      simp only [hroot]
      refine failFile_returns_iff (fun root ha => ?_)
        ⟨fun hfp => hclosed.mp ⟨hroot, hfp⟩, fun hns => (hclosed.mpr hns).2⟩
      obtain ⟨s', st₁, vd, hs, hr, -⟩ := ha
      rw [hscan] at hs
      cases hs
      rw [hroot] at hr
      cases hr
    | some path =>
      have hlist : ListSafe files st false (hammer2Devices blkdevs) := by
        by_contra hns
        have hnone := (hclosed.mpr hns).1
        rw [hroot] at hnone
        cases hnone
      have haccepts : ∀ root, Accepts files st blkdevs root ↔ root = path ∧
          ∃ vd, voldataOf files path 0 = some vd ∧
            (s.volid.isSome && idsOk maxVolumes s.x vd.nvolumes) = true := by
        intro root
        constructor
        · intro ha
          obtain ⟨s', st₁, vd, hs, hr, hvd, hids⟩ := ha
          rw [hscan] at hs
          cases hs
          rw [hroot] at hr
          cases hr
          exact ⟨rfl, vd, hvd, hids⟩
        · intro ha
          obtain ⟨rfl, vd, hvd, hids⟩ := ha
          exact ⟨s, st', vd, hscan, hroot, hvd, hids⟩
      simp only [hroot]
      have hlabel := readLabel_returns_iff (files path) (labelPath path blkdevs)
      constructor
      · intro h
        obtain ⟨fuel, r, h⟩ := h
        refine ⟨hlist, fun root ha => ?_⟩
        obtain ⟨rfl, vd, hvd, hids⟩ := (haccepts root).mp ha
        rw [hvd] at h
        dsimp only at h
        rw [if_pos hids] at h
        refine hlabel.mp ?_
        cases hread : readLabel fuel (files root) (labelPath root blkdevs) with
        | error e =>
          rw [hread] at h
          cases h
        | ok r => exact ⟨fuel, r, hread⟩
      · intro h
        cases hvd : voldataOf files path 0 with
        | none => exact ⟨0, _, rfl⟩
        | some vd =>
          by_cases hids : (s.volid.isSome && idsOk maxVolumes s.x vd.nvolumes) = true
          · obtain ⟨fuel, r, hr⟩ := hlabel.mpr
              (h.label path ((haccepts path).mpr ⟨rfl, vd, hvd, hids⟩))
            exact ⟨fuel, _, by dsimp only; rw [if_pos hids, hr]⟩
          · exact ⟨0, _, if_neg hids⟩

end

/-- `fstyp_hammer2` and `fsvtyp_hammer2` return on these files. -/
theorem fstyp_returns_iff (dev : Device) (files : Path → Device) (st : VoldataStatics)
    (path : Path) (blkdevs : List Char) :
    (FstypReturns dev st path ↔ FstypSafe dev st path) ∧
      (FsvtypReturns files st blkdevs ↔ FsvtypSafe files st blkdevs) :=
  ⟨fstypHammer2_returns_iff dev st path, fsvtypHammer2_returns_iff files st blkdevs⟩

/-! ## Files on which they do not return -/

def emptyFile : Device := { smallFile (fun _ => 0) with size := 0 }

/-- The blockref of an inode of 1 KB at 16 KB. -/
def selfRef : Blockref := ⟨1 :: List.replicate 31 0 ++ toLE 8 0x400A ++ List.replicate 88 0, rfl⟩

/-- A super-root that is its own child. -/
def selfImage : Image :=
  Image.writes (fun _ => 0)
    [(0, toLE 8 volumeIdHbo), (0x200, selfRef.bytes), (0x4087, [8]), (0x4200, selfRef.bytes)]

theorem selfRef_visits (pfs : List UInt8) :
    (brefGraph (smallFile selfImage) pfs).Visits selfRef selfRef := by
  refine ⟨[], [], ?_, nofun⟩
  have hread : readMedia (smallFile selfImage) selfRef = .ok (some (selfImage.view 0x4000)) := rfl
  rw [enter_some hread]
  have hbelow : pfsBelow selfRef (selfImage.view 0x4000) = some [selfRef] := by decide +kernel
  rw [hbelow]
  rfl

/-- There is no header to look at in an empty file; and a super-root that is its own child is
    searched for ever. -/
theorem fstyp_does_not_return :
    ¬ FstypReturns emptyFile ⟨0, [], []⟩ ['a'] ∧
      ¬ FsvtypReturns (fun _ => emptyFile) ⟨0, [], []⟩ ['a'] ∧
      ¬ FstypReturns (smallFile selfImage) ⟨0, [], []⟩ ['a'] := by
  refine ⟨fun h => ?_, fun h => ?_, fun h => ?_⟩
  · have hsafe := (fstypHammer2_returns_iff _ _ _).mp h
    exact absurd hsafe.header (by decide)
  · have hsafe := (fsvtypHammer2_returns_iff _ _ _).mp h
    exact absurd (hsafe.list rfl rfl).1 (by decide)
  · have hsafe := (fstypHammer2_returns_iff _ _ _).mp h
    have hlabel := hsafe.label (by decide +kernel) (by decide +kernel) (by decide +kernel)
    have hbest : labelZones (smallFile selfImage) (List.range numVolhdrs) none
        = some (some (0, selfImage.view 0)) := rfl
    have href : blockrefAt (selfImage.view 0) 0x200 = selfRef := by decide +kernel
    have hroot := hlabel.root 0 _ hbest
    rw [href] at hroot
    obtain ⟨m, hread, hm⟩ := hroot (by decide +kernel)
    have hsome : readMedia (smallFile selfImage) selfRef
        = .ok (some (selfImage.view 0x4000)) := rfl
    rw [hsome] at hread
    cases hread
    obtain ⟨pfs, hpfs, hbelow⟩ := hm nofun
    cases hpfs
    exact (hbelow (by decide)).irrefl (selfRef_visits _)

end Lh1.Fstyp
