/-
  `hammer recover`: one B-Tree record at a time (recover_elm and the dictionary of cmd_recover.c).

  The dictionary has an entry for each object that was met; a pointer to an entry is its index. What
  the host makes of mkdir(), rename() and truncate() on a path, and whether it opens a file, is up to
  it (`Sys`); what is written to an open file is in the model. The host has room for all files.
  The records come in any order and from anywhere, so a run is over an arbitrary list of them.

  * `Good.recoverElm`: a record keeps the names in the dictionary good and the paths confined.
  * `recover_confined`: when no name stored in a directory entry has a slash, is empty, `.` or
    `..`, every path is the target directory followed by such names.
-/
import Lh1.Lib.Bytes
import Lh1.Hammer.Layout

namespace Lh1.Hammer.Recover

open Lib

abbrev Bytes := List UInt8

abbrev Path := List UInt8

/-! ## The image -/

/-- What get_buffer() has for a 16 KB buffer: its bytes and whatever memory follows them, nothing
    when the offset does not translate, or the end of the program. -/
inductive Buffer where
  | data (bytes : Nat → UInt8)
  | null
  | dies

structure Disk where
  /-- `get_volume(v) != NULL`. -/
  volume : Nat → Bool
  /-- The buffer with a number, which includes zone and volume. -/
  buffer : Nat → Buffer
  /-- The buffer of an offset when that of the data in front of it is held. -/
  next : Nat → Buffer

/-- What is at an offset of a buffer. -/
def Buffer.at (offset : Nat) : Buffer → Buffer
  | .data bytes => .data fun i => bytes (offset % bufSize + i)
  | .null => .null
  | .dies => .dies

/-- `get_buffer_data`: what is at the pointer it returns. -/
def Disk.getBufferData (disk : Disk) (offset : Nat) : Buffer :=
  (disk.buffer (offset / bufSize)).at offset

inductive RecType where
  | inode
  | data
  | direntry
  | other
  deriving DecidableEq, Repr

/-- What is read of `struct hammer_btree_leaf_elm`. -/
structure Leaf where
  objId : UInt64
  key : Int
  recType : RecType
  localization : UInt32
  deleteTs : UInt32
  dataOffset : Nat
  dataLen : Int
  deriving DecidableEq, Repr

/-- A field of an on-disk structure. -/
def field (ondisk : Nat → UInt8) (off width : Nat) : Nat :=
  fromLE ((List.range width).map fun i => ondisk (off + i))

inductive Fault where
  | exit
  | segv
  deriving DecidableEq, Repr

/-- The records that are left out: deleted ones, those whose data is not there, and those whose data
    does not fit into the rest of its buffer. -/
def readLeaf (disk : Disk) (leaf : Leaf) : Except Fault (Option (Nat → UInt8)) :=
  if leaf.deleteTs ≠ 0 then .ok none
  else if disk.volume (volDecode leaf.dataOffset) = false then .ok none
  else if leaf.dataOffset = 0 then .ok none
  else
    match disk.getBufferData leaf.dataOffset with
    | .dies => .error .exit
    | .null => .ok none
    | .data ondisk =>
      let len := leaf.dataLen
      let chunk := min ((bufSize - leaf.dataOffset % bufSize : Nat) : Int) len
      if len < 0 ∨ 65536 < len ∨ chunk < len then .ok none else .ok (some ondisk)

/-! ## The host -/

/-- The files and directories of the host. Several paths, and open files, can lead to one file. -/
structure Host where
  files : Path → Option Nat
  bytes : Nat → Bytes
  dirs : List Path
  /-- New files get numbers from here on. -/
  next : Nat
  lt_next : ∀ p ino, files p = some ino → ino < next

/-- What the host decides. -/
structure Sys where
  mayMake : Path → Host → Bool
  mayOpen : Path → Host → Bool
  rename : Path → Path → Host → Host
  truncate : Path → Int → Host → Host

structure Fd where
  ino : Nat
  pos : Nat
  deriving DecidableEq, Repr

def Host.lstat (h : Host) (p : Path) : Bool := (h.files p).isSome || decide (p ∈ h.dirs)

/-- What is in the file that a path leads to. -/
def Host.file (h : Host) (p : Path) : Bytes :=
  match h.files p with
  | some ino => h.bytes ino
  | none => []

def Sys.mkdir (sys : Sys) (p : Path) (h : Host) : Host :=
  if h.lstat p = false ∧ sys.mayMake p h = true then { h with dirs := p :: h.dirs } else h

/-- A new file, which is empty. -/
def Host.make (h : Host) (p : Path) : Host where
  files := Function.update h.files p (some h.next)
  bytes := Function.update h.bytes h.next []
  dirs := h.dirs
  next := h.next + 1
  lt_next q ino hq := by
    rw [Function.update_apply] at hq
    split at hq
    · cases hq
      exact Nat.lt_succ_self h.next
    · exact (h.lt_next q ino hq).trans (Nat.lt_succ_self h.next)

/-- `open(p, O_CREAT|O_RDWR, 0666)`. -/
def Sys.open (sys : Sys) (p : Path) (h : Host) : Option (Fd × Host) :=
  match h.files p with
  | some ino => if sys.mayOpen p h then some (⟨ino, 0⟩, h) else none
  | none => if p ∉ h.dirs ∧ sys.mayMake p h = true then some (⟨h.next, 0⟩, h.make p) else none

/-- `lseek(fd, off, SEEK_SET)`. -/
def Fd.seek (fd : Fd) (off : Int) : Fd := if off < 0 then fd else { fd with pos := off.toNat }

def Host.write (h : Host) (fd : Fd) (bs : Bytes) : Host :=
  { h with bytes := Function.update h.bytes fd.ino (writeAt 0 (h.bytes fd.ino) fd.pos bs) }

def Host.ftruncate (h : Host) (fd : Fd) (size : Nat) : Host :=
  { h with bytes := Function.update h.bytes fd.ino (resize 0 (h.bytes fd.ino) size) }

/-- The calls that have a path. -/
inductive Call where
  | mkdir (p : Path)
  | lstat (p : Path)
  | truncate (p : Path)
  | rename (p q : Path)
  | open (p : Path)
  deriving DecidableEq, Repr

def Call.paths : Call → List Path
  | .mkdir p => [p]
  | .lstat p => [p]
  | .truncate p => [p]
  | .rename p q => [p, q]
  | .open p => [p]

/-! ## The dictionary -/

/-- `struct recover_dict`. -/
structure Dict where
  objId : UInt64
  pfsId : UInt16
  parent : Option Nat
  objType : Nat
  madeDir : Bool
  madeFile : Bool
  /-- DICTF_PARENT: "parent attached for real". -/
  hasParent : Bool
  size : Int
  name : Option Bytes
  deriving DecidableEq, Repr

instance : Inhabited Dict := ⟨⟨0, 0, none, 0, false, false, false, -1, none⟩⟩

/-- HAMMER_OBJID_ROOT. -/
def objidRoot : UInt64 := 1

def Dict.new (objId : UInt64) (pfsId : UInt16) (parent : Option Nat) : Dict :=
  ⟨objId, pfsId, parent, 0, false, false, false, -1, none⟩

/-- The target directory, the image and the host. -/
structure Env where
  targetDir : Path
  disk : Disk
  sys : Sys

/-- The static variables, the host, and the calls so far. -/
structure State where
  dicts : List Dict
  /-- CachedPath and CachedFd. -/
  cached : Option (Path × Fd)
  host : Host
  calls : List Call

def State.start (host : Host) : State := ⟨[], none, host, []⟩

def State.dict (s : State) (i : Nat) : Dict := s.dicts.getD i default

def State.setDict (s : State) (i : Nat) (f : Dict → Dict) : State :=
  { s with dicts := s.dicts.modify i f }

def findDict (dicts : List Dict) (objId : UInt64) (pfsId : UInt16) : Option Nat :=
  dicts.findIdx? fun d => d.objId = objId ∧ d.pfsId = pfsId

/-- The entry of an object other than the root, or a new one below the root. -/
def addDict (dicts : List Dict) (objId : UInt64) (pfsId : UInt16) (parent : Option Nat) :
    List Dict × Nat :=
  match findDict dicts objId pfsId with
  | some i => (dicts, i)
  | none => (dicts ++ [Dict.new objId pfsId parent], dicts.length)

/-- `get_dict`: "Always connect dangling dictionary entries to object 1 (the root of the PFS)". -/
def getDict (dicts : List Dict) (objId : UInt64) (pfsId : UInt16) : List Dict × Nat :=
  match findDict dicts objId pfsId with
  | some i => (dicts, i)
  | none =>
    if objId = objidRoot then addDict dicts objId pfsId none
    else
      let (dicts', root) := addDict dicts objidRoot pfsId none
      addDict dicts' objId pfsId (some root)

/-! ## Paths -/

def digit (n : Nat) : UInt8 := UInt8.ofNat (if n < 10 then 48 + n else 87 + n)

/-- A number in `width` digits. -/
def digits (base : Nat) : Nat → Nat → Bytes
  | 0, _ => []
  | width + 1, n => digits base width (n / base) ++ [digit (n % base)]

/-- `"PFS%05d"`. -/
def pfsName (pfsId : UInt16) : Bytes := [80, 70, 83] ++ digits 10 5 pfsId.toNat

/-- `"obj_0x%016jx"`. -/
def objName (objId : UInt64) : Bytes := [111, 98, 106, 95, 48, 120] ++ digits 16 16 objId.toNat

def Dict.component (d : Dict) (pfsId : UInt16) : Bytes :=
  if d.objId = objidRoot then pfsName pfsId
  else
    match d.name with
    | some name => name
    | none => objName d.objId

def slash : UInt8 := 47

theorem card_untraversed_lt {n p : Nat} {traversed : Finset Nat} (hp : p < n)
    (hnot : p ∉ traversed) :
    (Finset.range n \ insert p traversed).card < (Finset.range n \ traversed).card := by
  apply Finset.card_lt_card
  refine ⟨Finset.sdiff_subset_sdiff (Finset.Subset.refl _) (Finset.subset_insert p traversed), ?_⟩
  intro h
  have := h (Finset.mem_sdiff.mpr ⟨Finset.mem_range.mpr hp, hnot⟩)
  exact (Finset.mem_sdiff.mp this).2 (Finset.mem_insert_self p traversed)

/-- `recover_path_helper`. A parent with DICTF_TRAVERSED ends the path as NULL does. -/
def recoverPathHelper (targetDir : Path) (pfsId : UInt16) (dicts : List Dict)
    (traversed : Finset Nat) : Option Nat → Path
  | none => targetDir
  | some i =>
    if _h : i < dicts.length ∧ i ∉ traversed then
      recoverPathHelper targetDir pfsId dicts (insert i traversed) (dicts.getD i default).parent
        ++ slash :: (dicts.getD i default).component pfsId
    else targetDir
  termination_by (Finset.range dicts.length \ traversed).card
  decreasing_by exact card_untraversed_lt _h.1 _h.2

/-- `recover_path`. -/
def State.path (env : Env) (s : State) (i : Nat) : Path :=
  recoverPathHelper env.targetDir (s.dict i).pfsId s.dicts ∅ (some i)

/-- `isprint` of the C locale. -/
def isPrint (c : UInt8) : Bool := decide (32 ≤ c ∧ c ≤ 126)

/-- `sanitize_string`. -/
def sanitizeString (str : Bytes) : Bytes := str.map fun c => if isPrint c then c else 120

/-- The string in a buffer that has a zero behind it. -/
def cString (buf : Bytes) : Bytes := buf.takeWhile fun c => c ≠ 0

/-! ## Records -/

def State.mkdir (env : Env) (s : State) (p : Path) : State :=
  { s with host := env.sys.mkdir p s.host, calls := s.calls ++ [.mkdir p] }

def State.rename (env : Env) (s : State) (p q : Path) : State :=
  { s with host := env.sys.rename p q s.host, calls := s.calls ++ [.rename p q] }

def State.truncate (env : Env) (s : State) (p : Path) (size : Int) : State :=
  { s with host := env.sys.truncate p size s.host, calls := s.calls ++ [.truncate p] }

/-- `lstat(p, &st)`, which finds `s.host.lstat p`. -/
def State.lstat (s : State) (p : Path) : State := { s with calls := s.calls ++ [.lstat p] }

/-- A file that is opened and closed again. -/
def State.create (env : Env) (s : State) (p : Path) : State :=
  match env.sys.open p s.host with
  | some (_, host) => { s with host, calls := s.calls ++ [.open p] }
  | none => { s with calls := s.calls ++ [.open p] }

/-- The directory of an entry is made once. -/
def State.makeDir (env : Env) (s : State) : Option Nat → State
  | none => s
  | some i =>
    if (s.dict i).madeDir then s
    else
      let s := s.setDict i fun d => { d with madeDir := true }
      s.mkdir env (s.path env i)

def State.getDict (s : State) (objId : UInt64) (pfsId : UInt16) : State × Nat :=
  let r := Recover.getDict s.dicts objId pfsId
  ({ s with dicts := r.1 }, r.2)

def objtypeDirectory : Nat := 1

def objtypeRegfile : Nat := 2

def toInt64 (n : Nat) : Int := if n < 2 ^ 63 then n else (n : Int) - 2 ^ 64

/-- "Attach the inode to its parent", unless that was done. -/
def State.attach (env : Env) (s : State) (i : Nat) (parentObjId : UInt64) (pfsId : UInt16) : State :=
  if (s.dict i).hasParent = false ∧ (s.dict i).objId ≠ objidRoot ∧ parentObjId ≠ 0 then
    let r := s.getDict parentObjId pfsId
    let s := r.1.setDict i fun d => { d with hasParent := true, parent := some r.2 }
    s.makeDir env (some r.2)
  else s

/-- The file or directory of an inode, which was at `path1` so far, is made or moved. -/
def State.place (env : Env) (s : State) (i : Nat) (objType : Nat) (path1 path2 : Path) : State :=
  let s := s.lstat path1
  if s.host.lstat path1 then
    let s := if objType = objtypeRegfile then s.truncate env path1 (s.dict i).size else s
    if path1 ≠ path2 then s.rename env path1 path2 else s
  else if objType = objtypeRegfile then s.create env path2
  else if objType = objtypeDirectory then
    (s.mkdir env path2).setDict i fun d => { d with madeDir := true }
  else s

/-- HAMMER_RECTYPE_INODE. -/
def State.inode (env : Env) (s : State) (i : Nat) (pfsId : UInt16) (ondisk : Nat → UInt8) : State :=
  let path1 := s.path env i
  let objType := field ondisk 64 1
  let s := s.attach env i (UInt64.ofNat (field ondisk 24 8)) pfsId
  let s := s.setDict i fun d =>
    { d with
      objType := if d.objType = 0 then objType else d.objType
      size := toInt64 (field ondisk 80 8) }
  s.place env i objType path1 (s.path env i)

/-- How many bytes there are up to the last one that is not zero. -/
def zfill (ondisk : Nat → UInt8) : Nat → Nat
  | 0 => 0
  | n + 1 => if ondisk n ≠ 0 then n + 1 else zfill ondisk n

structure Writing where
  host : Host
  fd : Fd
  fileOffset : Int

/-- One turn of the loop below: trailing zeros are left out when the size is not known. -/
def Writing.chunk (w : Writing) (size : Int) (ondisk : Nat → UInt8) (chunk : Nat) : Writing :=
  let n := if size = -1 then zfill ondisk chunk else chunk
  let host := if n ≠ 0 then w.host.write w.fd ((List.range n).map ondisk) else w.host
  ⟨host, { w.fd with pos := w.fd.pos + chunk }, w.fileOffset + chunk⟩

/-- `while (len)`: "And write the record". -/
def Writing.run (disk : Disk) (size : Int) (w : Writing) (ondisk : Nat → UInt8) (offset len : Nat) :
    Writing × Option Fault :=
  if _h : len = 0 then (w, none)
  else
    let chunk := min (bufSize - offset % bufSize) len
    let w := w.chunk size ondisk chunk
    match (disk.next ((offset + chunk) % 2 ^ 64)).at ((offset + chunk) % 2 ^ 64) with
    | .dies => (w, some .exit)
    | .null => (w, none)
    | .data ondisk => w.run disk size ondisk ((offset + chunk) % 2 ^ 64) (len - chunk)
  termination_by len
  decreasing_by
    have := Nat.mod_lt offset (show 0 < bufSize by decide)
    omega

/-- The file is open already, or it is opened. -/
def State.openFile (env : Env) (s : State) (p : Path) : Option (Fd × State) :=
  match s.cached.filter fun c => c.1 = p with
  | some c => some (c.2, s)
  | none => (env.sys.open p s.host).map fun r =>
    (r.1, { s with host := r.2, calls := s.calls ++ [.open p] })

/-- The parent directory is made, and the path is that of the file. -/
def State.ready (env : Env) (s : State) (i : Nat) : State :=
  let s := s.setDict i fun d =>
    { d with objType := if d.objType = 0 then objtypeRegfile else d.objType }
  s.makeDir env (s.dict i).parent

/-- The record is written, the file is cut at the size of the inode, and stays open. -/
def State.store (env : Env) (s : State) (i : Nat) (p : Path) (fd : Fd) (leaf : Leaf)
    (ondisk : Nat → UInt8) : State × Option Fault :=
  let size := (s.dict i).size
  let fileOffset := leaf.key - leaf.dataLen
  let r := Writing.run env.disk size ⟨s.host, fd.seek fileOffset, fileOffset⟩ ondisk
    leaf.dataOffset leaf.dataLen.toNat
  match r.2 with
  | some fault => ({ s with host := r.1.host }, some fault)
  | none =>
    let host :=
      if 0 ≤ size ∧ size < r.1.fileOffset then r.1.host.ftruncate r.1.fd size.toNat
      else r.1.host
    ({ s with host, cached := some (p, r.1.fd) }, none)

/-- HAMMER_RECTYPE_DATA. -/
def State.data (env : Env) (s : State) (i : Nat) (leaf : Leaf) (ondisk : Nat → UInt8) :
    State × Option Fault :=
  let s := s.ready env i
  let path1 := s.path env i
  match s.openFile env path1 with
  | none => ({ s with calls := s.calls ++ [.open path1] }, none)
  | some r =>
    let s := r.2.setDict i fun d => { d with madeFile := true }
    s.store env i path1 r.1 leaf ondisk

/-- HAMMER_ENTRY_NAME_OFF. -/
def entryNameOff : Nat := 16

/-- The name that a directory entry is stored with. -/
def entryName (ondisk : Nat → UInt8) (len : Nat) : Bytes :=
  cString ((List.range (len - entryNameOff)).map fun i => ondisk (entryNameOff + i))

/-- "Attach dict2 to its directory (dict)", unless that was done. -/
def State.adopt (env : Env) (s : State) (dict : Option Nat) (j : Nat) : State × Option Fault :=
  if (s.dict j).hasParent then (s, none)
  else
    let s := s.setDict j fun d => { d with hasParent := true, parent := dict }
    (s.makeDir env dict, if dict = none then some .segv else none)

/-- The object was at `path1` so far. -/
def State.move (env : Env) (s : State) (path1 path2 : Path) : State :=
  if path1 = path2 then s
  else
    let s := s.lstat path1
    if s.host.lstat path1 then s.rename env path1 path2 else s

/-- HAMMER_RECTYPE_DIRENTRY; `dict` is the entry of the directory. "We can't deal with hardlinks so
    if the object already has a name assigned to it we just keep using that name". -/
def State.direntry (env : Env) (s : State) (dict : Option Nat) (pfsId : UInt16) (len : Nat)
    (ondisk : Nat → UInt8) : State × Option Fault :=
  let objId := UInt64.ofNat (field ondisk 0 8)
  if len < entryNameOff then (s, none)
  else if objId = 0 ∨ objId = objidRoot then (s, none)
  else
    let name := sanitizeString (entryName ondisk len)
    let r := s.getDict objId pfsId
    let path1 := r.1.path env r.2
    let s := r.1.setDict r.2 fun d => { d with name := d.name.or (some name) }
    let a := s.adopt env dict r.2
    match a.2 with
    | some fault => (a.1, some fault)
    | none => (a.1.move env path1 (a.1.path env r.2), none)

/-- `lo_to_pfs`. -/
def loToPfs (localization : UInt32) : UInt16 := UInt16.ofNat (localization.toNat / 65536)

/-- `recover_elm`. There is no entry for object 0. -/
def recoverElm (env : Env) (s : State) (leaf : Leaf) : State × Option Fault :=
  match readLeaf env.disk leaf with
  | .error fault => (s, some fault)
  | .ok none => (s, none)
  | .ok (some ondisk) =>
    let pfsId := loToPfs leaf.localization
    if leaf.objId = 0 then
      match leaf.recType with
      | .inode => (s, some .segv)
      | .direntry => s.direntry env none pfsId leaf.dataLen.toNat ondisk
      | _ => (s, none)
    else
      let r := s.getDict leaf.objId pfsId
      match leaf.recType with
      | .inode => (r.1.inode env r.2 pfsId ondisk, none)
      | .data => r.1.data env r.2 leaf ondisk
      | .direntry => r.1.direntry env (some r.2) pfsId leaf.dataLen.toNat ondisk
      | .other => (r.1, none)

/-- The records of a scan. -/
def recoverAll (env : Env) : State → List Leaf → State × Option Fault
  | s, [] => (s, none)
  | s, leaf :: leaves =>
    let r := recoverElm env s leaf
    match r.2 with
    | some fault => (r.1, some fault)
    | none => recoverAll env r.1 leaves

/-! ## Names -/

def dot : UInt8 := 46

/-- A name that stays in its directory. -/
def GoodName (name : Bytes) : Prop :=
  name ≠ [] ∧ name ≠ [dot] ∧ name ≠ [dot, dot] ∧ slash ∉ name

instance (name : Bytes) : Decidable (GoodName name) := inferInstanceAs (Decidable (_ ∧ _))

theorem digit_ne_slash {n : Nat} (h : n < 16) : digit n ≠ slash := by
  interval_cases n <;> decide

theorem slash_notMem_digits {base : Nat} (hpos : 0 < base) (hle : base ≤ 16) (width n : Nat) :
    slash ∉ digits base width n := by
  induction width generalizing n with
  | zero => simp [digits]
  | succ width ih =>
    rw [digits, List.mem_append, List.mem_singleton]
    rintro (h | h)
    · exact ih _ h
    · exact digit_ne_slash ((Nat.mod_lt n hpos).trans_le hle) h.symm

variable {name : Bytes}

theorem goodName_of_length (hlen : 2 < name.length) (hslash : slash ∉ name) : GoodName name := by
  refine ⟨?_, ?_, ?_, hslash⟩ <;> rintro rfl <;> simp at hlen

theorem goodName_pfsName (pfsId : UInt16) : GoodName (pfsName pfsId) := by
  apply goodName_of_length
  · simp [pfsName]
  · rw [pfsName, List.mem_append]
    rintro (h | h)
    · revert h
      decide
    · exact slash_notMem_digits (by decide) (by decide) 5 _ h

theorem goodName_objName (objId : UInt64) : GoodName (objName objId) := by
  apply goodName_of_length
  · simp [objName]
  · rw [objName, List.mem_append]
    rintro (h | h)
    · revert h
      decide
    · exact slash_notMem_digits (by decide) (by decide) 16 _ h

/-- Only characters that are no dot and no slash are replaced, and by one that is neither. -/
theorem goodName_sanitizeString (h : GoodName name) : GoodName (sanitizeString name) := by
  have hkeep : ∀ c d : UInt8, d ≠ 120 → (if isPrint c then c else 120) = d → c = d := by
    intro c d hd hc
    split at hc
    · exact hc
    · exact absurd hc.symm hd
  obtain ⟨hnil, hdot, hdots, hslash⟩ := h
  refine ⟨?_, ?_, ?_, ?_⟩
  · rw [sanitizeString]
    simpa using hnil
  · intro hc
    rw [sanitizeString, List.map_eq_singleton_iff] at hc
    obtain ⟨c, rfl, hc⟩ := hc
    rw [hkeep c dot (by decide) hc] at hdot
    exact hdot rfl
  · intro hc
    rw [sanitizeString, List.map_eq_cons_iff] at hc
    obtain ⟨c, cs, rfl, hc, hcs⟩ := hc
    rw [List.map_eq_singleton_iff] at hcs
    obtain ⟨c', rfl, hc'⟩ := hcs
    rw [hkeep c dot (by decide) hc, hkeep c' dot (by decide) hc'] at hdots
    exact hdots rfl
  · intro hc
    obtain ⟨c, hmem, hc⟩ := List.mem_map.mp hc
    rw [hkeep c slash (by decide) hc] at hmem
    exact hslash hmem

/-! ## Confinement -/

/-- The target directory followed by names that stay in their directories. -/
def Confined (targetDir : Path) (p : Path) : Prop :=
  ∃ names : List Bytes, (∀ name ∈ names, GoodName name) ∧
    p = targetDir ++ names.flatMap fun name => slash :: name

def Named (dicts : List Dict) : Prop := ∀ d ∈ dicts, ∀ name, d.name = some name → GoodName name

theorem goodName_component {d : Dict} (h : ∀ name, d.name = some name → GoodName name)
    (pfsId : UInt16) : GoodName (d.component pfsId) := by
  rw [Dict.component]
  split
  · exact goodName_pfsName pfsId
  · split
    · rename_i name hname
      exact h name hname
    · exact goodName_objName d.objId

theorem confined_append {targetDir p : Path} (h : Confined targetDir p) (hname : GoodName name) :
    Confined targetDir (p ++ slash :: name) := by
  obtain ⟨names, hnames, rfl⟩ := h
  refine ⟨names ++ [name], ?_, by simp⟩
  intro n hn
  rcases List.mem_append.mp hn with hn | hn
  · exact hnames n hn
  · rw [List.mem_singleton.mp hn]
    exact hname

theorem confined_recoverPathHelper {dicts : List Dict} (h : Named dicts) (targetDir : Path)
    (pfsId : UInt16) (traversed : Finset Nat) (i : Option Nat) :
    Confined targetDir (recoverPathHelper targetDir pfsId dicts traversed i) := by
  fun_induction recoverPathHelper targetDir pfsId dicts traversed i with
  | case1 => exact ⟨[], by simp, by simp⟩
  | case2 traversed i hi ih =>
    apply confined_append ih
    apply goodName_component
    apply h
    rw [List.getD_eq_getElem _ _ hi.1]
    exact List.getElem_mem hi.1
  | case3 => exact ⟨[], by simp, by simp⟩

/-- All names in the dictionary are good, and all paths so far were confined. -/
structure Good (env : Env) (s : State) : Prop where
  names : Named s.dicts
  calls : ∀ call ∈ s.calls, ∀ p ∈ call.paths, Confined env.targetDir p

section

variable {env : Env} {s : State}

theorem Good.path (h : Good env s) (i : Nat) : Confined env.targetDir (s.path env i) :=
  confined_recoverPathHelper h.names _ _ _ _

theorem mem_modify {α : Type} {l : List α} {i : Nat} {f : α → α} {a : α} (h : a ∈ l.modify i f) :
    a ∈ l ∨ ∃ b ∈ l, a = f b := by
  induction l generalizing i with
  | nil => simp at h
  | cons b l ih =>
    cases i with
    | zero =>
      rcases List.mem_cons.mp h with h | h
      · exact .inr ⟨b, List.mem_cons_self, h⟩
      · exact .inl (List.mem_cons_of_mem b h)
    | succ i =>
      rcases List.mem_cons.mp h with h | h
      · exact .inl (h ▸ List.mem_cons_self)
      · rcases ih h with h | ⟨c, hc, h⟩
        · exact .inl (List.mem_cons_of_mem b h)
        · exact .inr ⟨c, List.mem_cons_of_mem b hc, h⟩

theorem Good.setDict (h : Good env s) {f : Dict → Dict} (i : Nat)
    (hf : ∀ d name, (f d).name = some name → d.name = some name ∨ GoodName name) :
    Good env (s.setDict i f) := by
  refine ⟨fun d hd name hname => ?_, h.calls⟩
  rcases mem_modify hd with hd | ⟨b, hb, rfl⟩
  · exact h.names d hd name hname
  · exact (hf b name hname).elim (h.names b hb name) id

theorem named_addDict {dicts : List Dict} (h : Named dicts) (objId : UInt64) (pfsId : UInt16)
    (parent : Option Nat) : Named (addDict dicts objId pfsId parent).1 := by
  rw [addDict]
  split
  · exact h
  · intro d hd name hname
    rcases List.mem_append.mp hd with hd | hd
    · exact h d hd name hname
    · rw [List.mem_singleton.mp hd] at hname
      cases hname

theorem Good.getDict (h : Good env s) (objId : UInt64) (pfsId : UInt16) :
    Good env (s.getDict objId pfsId).1 := by
  refine ⟨?_, h.calls⟩
  change Named (Recover.getDict s.dicts objId pfsId).1
  rw [Recover.getDict]
  split
  · exact h.names
  · split
    · exact named_addDict h.names _ _ _
    · exact named_addDict (named_addDict h.names _ _ _) _ _ _

theorem Good.call (h : Good env s) {t : State} (call : Call)
    (hpaths : ∀ p ∈ call.paths, Confined env.targetDir p) (hdicts : t.dicts = s.dicts)
    (hcalls : t.calls = s.calls ++ [call]) : Good env t := by
  refine ⟨hdicts ▸ h.names, fun c hc => ?_⟩
  rw [hcalls] at hc
  rcases List.mem_append.mp hc with hc | hc
  · exact h.calls c hc
  · rw [List.mem_singleton.mp hc]
    exact hpaths

section

variable {p q : Path} (h : Good env s) (hp : Confined env.targetDir p)
include h hp

theorem Good.mkdir : Good env (s.mkdir env p) :=
  h.call (.mkdir p) (by simpa [Call.paths] using hp) rfl rfl

theorem Good.lstat : Good env (s.lstat p) :=
  h.call (.lstat p) (by simpa [Call.paths] using hp) rfl rfl

theorem Good.truncate (size : Int) : Good env (s.truncate env p size) :=
  h.call (.truncate p) (by simpa [Call.paths] using hp) rfl rfl

theorem Good.rename (hq : Confined env.targetDir q) : Good env (s.rename env p q) :=
  h.call (.rename p q) (by simp [Call.paths, hp, hq]) rfl rfl

theorem Good.create : Good env (s.create env p) := by
  rw [State.create]
  split
  · exact h.call (.open p) (by simpa [Call.paths] using hp) rfl rfl
  · exact h.call (.open p) (by simpa [Call.paths] using hp) rfl rfl

theorem Good.openFile {r : Fd × State} (hr : s.openFile env p = some r) : Good env r.2 := by
  rw [State.openFile] at hr
  split at hr
  · cases hr
    exact h
  · obtain ⟨a, -, rfl⟩ := Option.map_eq_some_iff.mp hr
    exact h.call (.open p) (by simpa [Call.paths] using hp) rfl rfl

end

section

variable (h : Good env s)
include h

theorem Good.makeDir (i : Option Nat) : Good env (s.makeDir env i) := by
  cases i with
  | none => exact h
  | some i =>
    rw [State.makeDir]
    split
    · exact h
    · have h1 : Good env (s.setDict i fun d => { d with madeDir := true }) :=
        h.setDict i fun _ _ => .inl
      exact h1.mkdir (h1.path i)

theorem Good.attach (i : Nat) (parentObjId : UInt64) (pfsId : UInt16) :
    Good env (s.attach env i parentObjId pfsId) := by
  rw [State.attach]
  split
  · apply Good.makeDir
    apply Good.setDict (h.getDict parentObjId pfsId)
    exact fun _ _ => .inl
  · exact h

theorem Good.place {path1 path2 : Path} (h1 : Confined env.targetDir path1)
    (h2 : Confined env.targetDir path2) (i objType : Nat) :
    Good env (s.place env i objType path1 path2) := by
  have hstat := h.lstat h1
  rw [State.place]
  generalize s.lstat path1 = s at hstat
  have hcut : Good env (if objType = objtypeRegfile then s.truncate env path1 (s.dict i).size
      else s) := by
    split
    · exact hstat.truncate h1 _
    · exact hstat
  dsimp only
  generalize (if objType = objtypeRegfile then s.truncate env path1 (s.dict i).size else s) = t
    at hcut
  split_ifs
  · exact hcut.rename h1 h2
  · exact hcut
  · exact hstat.create h2
  · exact (hstat.mkdir h2).setDict i fun _ _ => .inl
  · exact hstat

theorem Good.inode (i : Nat) (pfsId : UInt16) (ondisk : Nat → UInt8) :
    Good env (s.inode env i pfsId ondisk) := by
  have h1 := (h.attach i (UInt64.ofNat (field ondisk 24 8)) pfsId).setDict i
    (f := fun d => { d with
      objType := if d.objType = 0 then field ondisk 64 1 else d.objType
      size := toInt64 (field ondisk 80 8) }) fun _ _ => .inl
  exact h1.place (h.path i) (h1.path i) i _

theorem Good.ready (i : Nat) : Good env (s.ready env i) := by
  apply Good.makeDir
  apply Good.setDict h
  exact fun _ _ => .inl

theorem Good.data (i : Nat) (leaf : Leaf) (ondisk : Nat → UInt8) :
    Good env (s.data env i leaf ondisk).1 := by
  have hready := h.ready i
  have hpath := hready.path i
  rw [State.data]
  dsimp only
  cases ho : (s.ready env i).openFile env ((s.ready env i).path env i) with
  | none => exact hready.call (.open _) (by simpa [Call.paths] using hpath) rfl rfl
  | some r =>
    have hset : Good env (r.2.setDict i fun d => { d with madeFile := true }) :=
      (hready.openFile hpath ho).setDict i fun _ _ => .inl
    dsimp only
    rw [State.store]
    dsimp only
    split
    · exact ⟨hset.names, hset.calls⟩
    · exact ⟨hset.names, hset.calls⟩

theorem Good.adopt (dict : Option Nat) (j : Nat) : Good env (s.adopt env dict j).1 := by
  rw [State.adopt]
  split
  · exact h
  · apply Good.makeDir
    apply Good.setDict h
    exact fun _ _ => .inl

theorem Good.move {path1 path2 : Path} (h1 : Confined env.targetDir path1)
    (h2 : Confined env.targetDir path2) : Good env (s.move env path1 path2) := by
  rw [State.move]
  dsimp only
  split_ifs
  · exact h
  · exact (h.lstat h1).rename h1 h2
  · exact h.lstat h1

theorem Good.direntry (dict : Option Nat) (pfsId : UInt16) {len : Nat} {ondisk : Nat → UInt8}
    (hname : entryNameOff ≤ len → ¬ (UInt64.ofNat (field ondisk 0 8) = 0 ∨
      UInt64.ofNat (field ondisk 0 8) = objidRoot) → GoodName (entryName ondisk len)) :
    Good env (s.direntry env dict pfsId len ondisk).1 := by
  rw [State.direntry]
  dsimp only
  split
  · exact h
  · rename_i hlen
    split
    · exact h
    · rename_i hobj
      have hget := h.getDict (UInt64.ofNat (field ondisk 0 8)) pfsId
      generalize s.getDict (UInt64.ofNat (field ondisk 0 8)) pfsId = r at hget
      have hset := hget.setDict r.2
        (f := fun d => { d with name := d.name.or (some (sanitizeString (entryName ondisk len))) })
        fun d name hd => by
          cases hn : d.name with
          | some n =>
            rw [hn] at hd
            exact .inl hd
          | none =>
            rw [hn] at hd
            cases hd
            exact .inr (goodName_sanitizeString (hname (not_lt.mp hlen) hobj))
      have hadopt := hset.adopt dict r.2
      split
      · exact hadopt
      · exact hadopt.move (hget.path r.2) (hadopt.path r.2)

/-- A directory entry that is not left out has a good name. -/
def NamesGood (disk : Disk) (leaf : Leaf) : Prop :=
  leaf.recType = .direntry → ∀ ondisk, readLeaf disk leaf = .ok (some ondisk) →
    entryNameOff ≤ leaf.dataLen.toNat → ¬ (UInt64.ofNat (field ondisk 0 8) = 0 ∨
      UInt64.ofNat (field ondisk 0 8) = objidRoot) →
        GoodName (entryName ondisk leaf.dataLen.toNat)

theorem Good.recoverElm {leaf : Leaf} (hname : NamesGood env.disk leaf) :
    Good env (recoverElm env s leaf).1 := by
  rw [Recover.recoverElm]
  split
  · exact h
  · exact h
  · rename_i ondisk hread
    have hget := h.getDict leaf.objId (loToPfs leaf.localization)
    dsimp only
    generalize s.getDict leaf.objId (loToPfs leaf.localization) = r at hget
    split
    · split
      · exact h
      · rename_i htype
        exact h.direntry none _ (hname htype ondisk hread)
      · exact h
    · split
      · exact hget.inode r.2 _ ondisk
      · exact hget.data r.2 leaf ondisk
      · rename_i htype
        exact hget.direntry (some r.2) _ (hname htype ondisk hread)
      · exact hget

theorem Good.recoverAll {leaves : List Leaf} (hnames : ∀ leaf ∈ leaves, NamesGood env.disk leaf) :
    Good env (recoverAll env s leaves).1 := by
  induction leaves generalizing s with
  | nil => exact h
  | cons leaf leaves ih =>
    have hstep := h.recoverElm (hnames leaf List.mem_cons_self)
    rw [Recover.recoverAll]
    split
    · exact hstep
    · exact ih hstep fun leaf hleaf => hnames leaf (List.mem_cons_of_mem _ hleaf)

end

end

/-! ## Confinement of runs -/

/-- Whatever the image and the host are, no path leaves the target directory when the names of the
    directory entries are good. -/
theorem recover_confined (env : Env) (host : Host) (leaves : List Leaf)
    (hnames : ∀ leaf ∈ leaves, NamesGood env.disk leaf) :
    (∀ call ∈ (recoverAll env (.start host) leaves).1.calls, ∀ p ∈ call.paths,
      Confined env.targetDir p) ∧
    ∀ i, Confined env.targetDir ((recoverAll env (.start host) leaves).1.path env i) := by
  have hstart : Good env (.start host) := ⟨by simp [Named, State.start], by simp [State.start]⟩
  exact ⟨(hstart.recoverAll hnames).calls, (hstart.recoverAll hnames).path⟩

/-- A host that lets everything be made. -/
def openHost : Sys := ⟨fun _ _ => true, fun _ _ => true, fun _ _ h => h, fun _ _ h => h⟩

def emptyHost : Host := ⟨fun _ => none, fun _ => [], [], 0, fun _ _ h => by cases h⟩

/-- A volume whose first buffers are `bufs`. -/
def smallDisk (bufs : List Bytes) : Disk where
  volume v := v = 0
  buffer n := .data fun i => (bufs.getD (n % 2 ^ 46) []).getD i 0
  next off := .data fun i => (bufs.getD (off / bufSize % 2 ^ 46) []).getD i 0

/-- A directory entry of object 2. -/
def entryOf (name : Bytes) : Bytes := toLE 8 2 ++ toLE 8 0 ++ name

def entryLeaf (name : Bytes) : Leaf :=
  ⟨1, 0, .direntry, 0, 0, zoneEncode 9 0, entryNameOff + name.length⟩

/-- The inode of an empty file in the root directory. -/
def inodeOf : Bytes :=
  List.replicate 24 0 ++ toLE 8 1 ++ List.replicate 32 0 ++ toLE 8 2 ++ List.replicate 56 0

def inodeLeaf : Leaf := ⟨2, 0, .inode, 0, 0, zoneEncode 9 bufSize, inodeOf.length⟩

/-- An image with one file of that name. -/
def imageOf (name : Bytes) : Env := ⟨[84], smallDisk [entryOf name, inodeOf], openHost⟩

theorem recover_confined_file :
    Call.open ([84] ++ slash :: pfsName 0 ++ slash :: [120])
      ∈ (recoverAll (imageOf [120]) (.start emptyHost) [entryLeaf [120], inodeLeaf]).1.calls ∧
    Confined [84] ([84] ++ slash :: pfsName 0 ++ slash :: [120]) := by
  have hmem : Call.open ([84] ++ slash :: pfsName 0 ++ slash :: [120])
      ∈ (recoverAll (imageOf [120]) (.start emptyHost) [entryLeaf [120], inodeLeaf]).1.calls := by
    decide +kernel
  refine ⟨hmem, (recover_confined (imageOf [120]) emptyHost [entryLeaf [120], inodeLeaf] ?_).1 _
    hmem _ List.mem_cons_self⟩
  intro leaf hleaf htype ondisk hread _ _
  rcases List.mem_cons.mp hleaf with rfl | hleaf
  · cases hread
    decide +kernel
  · rw [List.mem_singleton.mp hleaf] at htype
    cases htype

/-! ## A name with slashes -/

/-- Up to the next slash, or to the end. -/
def nextName (p : Path) : Bytes := p.takeWhile fun c => decide (c ≠ slash)

def afterName (p : Path) : Path := p.dropWhile fun c => decide (c ≠ slash)

/-- A name without slashes is the next one in front of a slash or at the end. -/
theorem nextName_append (h : slash ∉ name) {p : Path} (hp : p = [] ∨ ∃ q, p = slash :: q) :
    nextName (name ++ p) = name ∧ afterName (name ++ p) = p := by
  have hall : ∀ c ∈ name, decide (c ≠ slash) = true := by
    intro c hc
    simp only [decide_eq_true_eq]
    rintro rfl
    exact h hc
  rw [nextName, afterName, List.takeWhile_append_of_pos hall, List.dropWhile_append_of_pos hall]
  rcases hp with rfl | ⟨q, rfl⟩ <;> simp

theorem flatMap_names (names : List Bytes) :
    (names.flatMap fun name => slash :: name) = [] ∨
      ∃ q, (names.flatMap fun name => slash :: name) = slash :: q := by
  cases names with
  | nil => exact .inl rfl
  | cons name names => exact .inr ⟨_, rfl⟩

theorem Confined.goodName_second {targetDir q : Path} {first : Bytes}
    (h : Confined targetDir (targetDir ++ slash :: first ++ slash :: q)) (hfirst : slash ∉ first) :
    GoodName (nextName q) := by
  obtain ⟨names, hgood, heq⟩ := h
  rw [List.append_assoc, List.append_cancel_left_eq] at heq
  cases names with
  | nil => cases heq
  | cons n ns =>
    rw [List.flatMap_cons, List.cons_append, List.cons_append, List.cons.injEq] at heq
    have hn := nextName_append (hgood n List.mem_cons_self).2.2.2 (flatMap_names ns)
    rw [← heq.2, (nextName_append hfirst (.inr ⟨q, rfl⟩)).2] at hn
    cases ns with
    | nil => cases hn.2
    | cons m ms =>
      have hm := hgood m (by simp)
      have hq := hn.2
      rw [List.flatMap_cons, List.cons_append, List.cons.injEq] at hq
      rw [hq.2, (nextName_append hm.2.2.2 (flatMap_names ms)).1]
      exact hm

/-- `../../x`. -/
def outside : Bytes := [46, 46, 47, 46, 46, 47, 120]

/-- The file of an entry with that name is made beside the target directory. -/
theorem recover_escapes :
    Call.open ([84] ++ slash :: pfsName 0 ++ slash :: outside)
      ∈ (recoverAll (imageOf outside) (.start emptyHost) [entryLeaf outside, inodeLeaf]).1.calls ∧
    ¬ Confined [84] ([84] ++ slash :: pfsName 0 ++ slash :: outside) := by
  refine ⟨by decide +kernel, fun h => ?_⟩
  have := h.goodName_second (goodName_pfsName 0).2.2.2
  revert this
  decide

end Lh1.Hammer.Recover
