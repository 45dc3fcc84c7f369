/-
  What `hammer recover` writes for a data record (HAMMER_RECTYPE_DATA of recover_elm).

  A record is written when its data is in one 16 KB buffer, at its file offset, except for trailing
  zeros while the size of the file is not known. `Holds` says that a file has the bytes of a record,
  as far as the size of the inode does not cut them.

  * `holds_stored_iff`: what the bytes of a file are after a record was written to it.
  * `data_restored_iff`: when exactly the recovered file has the record after recover_elm.
-/
import Lh1.Hammer.Recover

namespace Lh1.Hammer.Recover

open Lib

/-! ## The bytes of a file -/

/-- The file has `len` bytes of `data` from `fileOffset` on, cut at the size when that is known. -/
def Holds (file : Bytes) (fileOffset : Int) (len : Nat) (size : Int) (data : Nat → UInt8) : Prop :=
  ∀ i < len, (0 ≤ size → fileOffset + i < size) →
    0 ≤ fileOffset + i ∧ file[(fileOffset + i).toNat]? = some (data i)

/-- The file after the record was written at `pos`. -/
def stored (file : Bytes) (pos len : Nat) (size : Int) (data : Nat → UInt8) : Bytes :=
  let n := if size = -1 then zfill data len else len
  let written := if n ≠ 0 then writeAt 0 file pos ((List.range n).map data) else file
  if 0 ≤ size ∧ size < pos + len then resize 0 written size.toNat else written

theorem zfill_le (data : Nat → UInt8) (n : Nat) : zfill data n ≤ n := by
  induction n with
  | zero => exact Nat.le_refl 0
  | succ n ih =>
    rw [zfill]
    split
    · exact Nat.le_refl _
    · exact ih.trans (Nat.le_succ n)

theorem zfill_zero {data : Nat → UInt8} {n i : Nat} (h : zfill data n ≤ i) (hi : i < n) :
    data i = 0 := by
  induction n with
  | zero => omega
  | succ n ih =>
    rw [zfill] at h
    split at h
    · omega
    · rename_i hzero
      rcases Nat.lt_succ_iff_lt_or_eq.mp hi with hi | rfl
      · exact ih h hi
      · exact not_not.mp hzero

theorem zfill_congr {data data' : Nat → UInt8} {n : Nat} (h : ∀ i < n, data i = data' i) :
    zfill data n = zfill data' n := by
  induction n with
  | zero => rfl
  | succ n ih =>
    rw [zfill, zfill, h n (Nat.lt_succ_self n), ih fun i hi => h i (Nat.lt_succ_of_lt hi)]

section

variable {file : Bytes} {pos len n i : Nat} {size : Int} {data : Nat → UInt8}

theorem stored_congr {data' : Nat → UInt8} (h : ∀ i < len, data i = data' i) :
    stored file pos len size data = stored file pos len size data' := by
  have hmap : ∀ n ≤ len, (List.range n).map data = (List.range n).map data' := fun n hn =>
    List.map_congr_left fun i hi => h i ((List.mem_range.mp hi).trans_le hn)
  rw [stored, stored, zfill_congr h, hmap _ (by split; exact zfill_le data' len; exact Nat.le_refl len)]

theorem getElem?_written_of_lt (hi : i < n) :
    (if n ≠ 0 then writeAt 0 file pos ((List.range n).map data) else file)[pos + i]?
      = some (data i) := by
  rw [if_pos (by omega), getElem?_writeAt_of_lt (by simpa using hi)]
  simp [hi]

theorem getElem?_written_of_ge (hi : n ≤ i) :
    (if n ≠ 0 then writeAt 0 file pos ((List.range n).map data) else file)[pos + i]?
      = file[pos + i]? := by
  split
  · rw [getElem?_writeAt_of_ge (by simpa using hi)]
  · rfl

/-- Cutting the file at its size takes nothing away that is left of the record. -/
theorem getElem?_cut {written : Bytes} {c : UInt8} (hi : 0 ≤ size → (pos : Int) + i < size)
    (h : written[pos + i]? = some c) :
    (if 0 ≤ size ∧ size < pos + len then resize 0 written size.toNat else written)[pos + i]?
      = some c := by
  split
  · rename_i hcut
    have hlt : pos + i < written.length := List.getElem?_eq_some_iff.mp h |>.1
    have := hi hcut.1
    rw [getElem?_resize (by omega), if_pos hlt, h]
  · exact h

theorem holds_stored_iff :
    Holds (stored file pos len size data) pos len size data ↔
      (size = -1 → ∀ i, zfill data len ≤ i → i < len → file[pos + i]? = some 0) := by
  have hpos : ∀ i : Nat, ((pos : Int) + i).toNat = pos + i := by omega
  constructor
  · rintro h rfl i hz hi
    have := (h i hi (by omega)).2
    rw [hpos, stored, if_neg (by omega), if_pos rfl, getElem?_written_of_ge hz,
      zfill_zero hz hi] at this
    exact this
  · intro h i hi hcut
    refine ⟨by omega, ?_⟩
    rw [hpos]
    apply getElem?_cut hcut
    by_cases hsize : size = -1
    · rw [if_pos hsize]
      by_cases hz : i < zfill data len
      · exact getElem?_written_of_lt hz
      · rw [getElem?_written_of_ge (not_lt.mp hz), h hsize i (not_lt.mp hz) hi,
          zfill_zero (not_lt.mp hz) hi]
    · rw [if_neg hsize]
      exact getElem?_written_of_lt hi

/-- What the file had, it still has. -/
theorem Holds.zeros (h : Holds file pos len size data) (hsize : size = -1) (i : Nat)
    (hz : zfill data len ≤ i) (hi : i < len) : file[pos + i]? = some 0 := by
  have := (h i hi (by omega)).2
  rwa [show ((pos : Int) + i).toNat = pos + i by omega, zfill_zero hz hi] at this

theorem Holds.nonneg {fileOffset : Int} (h : Holds file fileOffset len size data) (hlen : 0 < len) :
    0 ≤ fileOffset := by
  by_contra hneg
  have := (h 0 hlen (by omega)).1
  omega

end

/-! ## What the path of a file depends on -/

/-- An entry without its type and the flags of what was made. -/
def Dict.core (d : Dict) : Dict := { d with objType := 0, madeDir := false, madeFile := false }

theorem getD_map_core (dicts : List Dict) (i : Nat) :
    (dicts.map Dict.core).getD i default = (dicts.getD i default).core := by
  rw [List.getD_eq_getElem?_getD, List.getElem?_map, List.getD_eq_getElem?_getD]
  cases dicts[i]? <;> rfl

theorem recoverPathHelper_core (targetDir : Path) (pfsId : UInt16) (dicts : List Dict)
    (traversed : Finset Nat) (i : Option Nat) :
    recoverPathHelper targetDir pfsId (dicts.map Dict.core) traversed i
      = recoverPathHelper targetDir pfsId dicts traversed i := by
  fun_induction recoverPathHelper targetDir pfsId dicts traversed i with
  | case1 => rw [recoverPathHelper]
  | case2 traversed i hi ih =>
    rw [recoverPathHelper, dif_pos (by rwa [List.length_map]), getD_map_core]
    exact congrArg (· ++ _) ih
  | case3 traversed i hi =>
    rw [recoverPathHelper, dif_neg (by rwa [List.length_map])]

theorem findDict_core (dicts : List Dict) (objId : UInt64) (pfsId : UInt16) :
    findDict (dicts.map Dict.core) objId pfsId = findDict dicts objId pfsId := by
  rw [findDict, List.findIdx?_map]
  rfl

/-- The dictionaries agree in all that matters for paths and sizes. -/
def SameCore (s t : State) : Prop := t.dicts.map Dict.core = s.dicts.map Dict.core

section

variable {env : Env} {s t u : State}

theorem SameCore.trans (h : SameCore s t) (h' : SameCore t u) : SameCore s u := Eq.trans h' h

theorem SameCore.dict (h : SameCore s t) (i : Nat) : (t.dict i).core = (s.dict i).core := by
  rw [State.dict, State.dict, ← getD_map_core, ← getD_map_core, h]

theorem SameCore.path (h : SameCore s t) (i : Nat) : t.path env i = s.path env i := by
  have hpfs : (t.dict i).core.pfsId = (s.dict i).core.pfsId := by rw [h.dict]
  change (t.dict i).pfsId = (s.dict i).pfsId at hpfs
  rw [State.path, State.path, hpfs, ← recoverPathHelper_core, h, recoverPathHelper_core]

theorem SameCore.size (h : SameCore s t) (i : Nat) : (t.dict i).size = (s.dict i).size := by
  change (t.dict i).core.size = (s.dict i).core.size
  rw [h.dict]

theorem SameCore.findDict (h : SameCore s t) (objId : UInt64) (pfsId : UInt16) :
    findDict t.dicts objId pfsId = findDict s.dicts objId pfsId := by
  rw [← findDict_core, h, findDict_core]

theorem map_modify_of_eq {α β : Type} {g : α → β} {f : α → α} (h : ∀ a, g (f a) = g a) (l : List α)
    (i : Nat) : (l.modify i f).map g = l.map g := by
  induction l generalizing i with
  | nil => simp
  | cons a l ih =>
    cases i with
    | zero => simp [h]
    | succ i => simpa using ih i

theorem sameCore_setDict (s : State) (i : Nat) {f : Dict → Dict} (hf : ∀ d, (f d).core = d.core) :
    SameCore s (s.setDict i f) := map_modify_of_eq hf s.dicts i

theorem findDict_addDict (dicts : List Dict) (objId : UInt64) (pfsId : UInt16)
    (parent : Option Nat) :
    findDict (addDict dicts objId pfsId parent).1 objId pfsId
      = some (addDict dicts objId pfsId parent).2 := by
  rw [addDict]
  cases h : findDict dicts objId pfsId with
  | some i => exact h
  | none =>
    rw [findDict] at h ⊢
    rw [List.findIdx?_append, h]
    simp [Dict.new]

theorem findDict_getDict (s : State) (objId : UInt64) (pfsId : UInt16) :
    findDict (s.getDict objId pfsId).1.dicts objId pfsId = some (s.getDict objId pfsId).2 := by
  change findDict (Recover.getDict s.dicts objId pfsId).1 objId pfsId
    = some (Recover.getDict s.dicts objId pfsId).2
  rw [Recover.getDict]
  cases h : findDict s.dicts objId pfsId with
  | some i => exact h
  | none =>
    dsimp only
    split
    · exact findDict_addDict _ _ _ _
    · exact findDict_addDict _ _ _ _

/-- An entry that is there is not made again. -/
theorem getDict_of_findDict {objId : UInt64} {pfsId : UInt16} {i : Nat}
    (h : findDict s.dicts objId pfsId = some i) : s.getDict objId pfsId = (s, i) := by
  rw [State.getDict, Recover.getDict, h]

end

/-! ## The record -/

/-- `lo_to_pfs` of the record and the object it belongs to. -/
def Leaf.entry (leaf : Leaf) (s : State) : State × Nat :=
  s.getDict leaf.objId (loToPfs leaf.localization)

def Disk.byteAt (disk : Disk) (offset : Nat) : UInt8 :=
  match disk.buffer (offset / bufSize) with
  | .data bytes => bytes (offset % bufSize)
  | _ => 0

/-- A live data record whose data is in the loaded volumes. -/
structure Live (disk : Disk) (leaf : Leaf) : Prop where
  deleteTs : leaf.deleteTs = 0
  recType : leaf.recType = .data
  objId : leaf.objId ≠ 0
  dataLen : 1 ≤ leaf.dataLen ∧ leaf.dataLen ≤ 65536
  dataOffset : leaf.dataOffset ≠ 0
  volume : disk.volume (volDecode leaf.dataOffset) = true
  loaded : ∀ i < leaf.dataLen.toNat, ∃ bytes, disk.buffer ((leaf.dataOffset + i) / bufSize) = .data bytes

/-- The file of the object, at its path, has the data of the record. -/
def Restored (env : Env) (s : State) (leaf : Leaf) : Prop :=
  let r := leaf.entry s
  Holds (s.host.file (r.1.path env r.2)) (leaf.key - leaf.dataLen) leaf.dataLen.toNat
    (r.1.dict r.2).size fun i => env.disk.byteAt (leaf.dataOffset + i)

/-- The data does not go beyond its buffer. -/
def OneBuffer (leaf : Leaf) : Prop := leaf.dataOffset % bufSize + leaf.dataLen.toNat ≤ bufSize

instance (leaf : Leaf) : Decidable (OneBuffer leaf) := inferInstanceAs (Decidable (_ ≤ _))

/-- What is written arrives in the file that the path leads to. -/
def State.Reaches (env : Env) (s : State) (p : Path) : Prop :=
  ∃ r, s.openFile env p = some r ∧ r.2.host.files p = some r.1.ino

section

variable {env : Env} {s t : State} {leaf : Leaf} {p : Path}

/-- The entry, its path and its size are those of before. -/
theorem restored_iff (hcore : SameCore (leaf.entry s).1 t) :
    Restored env t leaf ↔
      Holds (t.host.file ((leaf.entry s).1.path env (leaf.entry s).2)) (leaf.key - leaf.dataLen)
        leaf.dataLen.toNat ((leaf.entry s).1.dict (leaf.entry s).2).size
        fun i => env.disk.byteAt (leaf.dataOffset + i) := by
  have hentry : leaf.entry t = (t, (leaf.entry s).2) :=
    getDict_of_findDict (by rw [hcore.findDict]; exact findDict_getDict s _ _)
  rw [Restored, hentry]
  dsimp only
  rw [hcore.path, hcore.size]

theorem restored_congr (hcore : SameCore (leaf.entry s).1 t)
    (hfile : t.host.file ((leaf.entry s).1.path env (leaf.entry s).2)
      = s.host.file ((leaf.entry s).1.path env (leaf.entry s).2)) :
    Restored env t leaf ↔ Restored env s leaf := by
  rw [restored_iff hcore, hfile, Restored]

theorem State.makeDir_frame (s : State) (i : Option Nat) : SameCore s (s.makeDir env i) ∧
    (s.makeDir env i).host.files = s.host.files ∧ (s.makeDir env i).host.bytes = s.host.bytes ∧
    (s.makeDir env i).cached = s.cached := by
  cases i with
  | none => exact ⟨rfl, rfl, rfl, rfl⟩
  | some i =>
    rw [State.makeDir]
    split
    · exact ⟨rfl, rfl, rfl, rfl⟩
    · dsimp only
      refine ⟨sameCore_setDict s i fun _ => rfl, ?_, ?_, rfl⟩
      · rw [State.mkdir, Sys.mkdir]
        dsimp only
        split <;> rfl
      · rw [State.mkdir, Sys.mkdir]
        dsimp only
        split <;> rfl

theorem State.ready_frame (env : Env) (s : State) (i : Nat) : SameCore s (s.ready env i) ∧
    (s.ready env i).host.files = s.host.files ∧ (s.ready env i).host.bytes = s.host.bytes := by
  rw [State.ready]
  generalize hs : (s.setDict i fun d =>
    { d with objType := if d.objType = 0 then objtypeRegfile else d.objType }) = s'
  have hcore : SameCore s s' := hs ▸ sameCore_setDict s i fun _ => rfl
  obtain ⟨h1, h2, h3, -⟩ := s'.makeDir_frame (s'.dict i).parent
  exact ⟨hcore.trans h1, h2.trans (by rw [← hs]; rfl), h3.trans (by rw [← hs]; rfl)⟩

theorem file_of_eq {h h' : Host} (hfiles : h'.files = h.files) (hbytes : h'.bytes = h.bytes)
    (q : Path) : h'.file q = h.file q := by
  rw [Host.file, Host.file, hfiles, hbytes]

/-- A new file is as empty as no file. -/
theorem file_make {h : Host} (hp : h.files p = none) (q : Path) : (h.make p).file q = h.file q := by
  rw [Host.file, Host.file, Host.make]
  dsimp only
  by_cases hq : q = p
  · rw [hq, Function.update_self, hp]
    exact Function.update_self ..
  · rw [Function.update_of_ne hq]
    cases hf : h.files q with
    | none => rfl
    | some ino => exact Function.update_of_ne (h.lt_next q ino hf).ne ..

/-- Opening a file changes none, and leads to the file. -/
theorem open_ok {sys : Sys} {h : Host} {r : Fd × Host} (hr : sys.open p h = some r) :
    (∀ q, r.2.file q = h.file q) ∧ r.2.files p = some r.1.ino := by
  rw [Sys.open] at hr
  split at hr
  · rename_i ino hfile
    split at hr
    · cases hr
      exact ⟨fun _ => rfl, hfile⟩
    · cases hr
  · rename_i hfile
    split at hr
    · cases hr
      exact ⟨file_make hfile, Function.update_self ..⟩
    · cases hr

theorem openFile_ok {r : Fd × State} (hr : s.openFile env p = some r) :
    r.2.dicts = s.dicts ∧ ∀ q, r.2.host.file q = s.host.file q := by
  rw [State.openFile] at hr
  split at hr
  · cases hr
    exact ⟨rfl, fun _ => rfl⟩
  · obtain ⟨a, ha, rfl⟩ := Option.map_eq_some_iff.mp hr
    exact ⟨rfl, (open_ok ha).1⟩

/-! ## Writing -/

variable {ondisk : Nat → UInt8}

/-- The loop ends after one turn, when all is in one buffer. -/
theorem run_oneBuffer {disk : Disk} {size : Int} {w : Writing} {offset len : Nat} (hlen : 0 < len)
    (hone : offset % bufSize + len ≤ bufSize) :
    Writing.run disk size w ondisk offset len
      = (w.chunk size ondisk len,
          match disk.next ((offset + len) % 2 ^ 64) with
          | .dies => some .exit
          | _ => none) := by
  have hmin : min (bufSize - offset % bufSize) len = len := by omega
  rw [Writing.run, dif_neg hlen.ne']
  dsimp only
  rw [hmin]
  cases disk.next ((offset + len) % 2 ^ 64) with
  | dies => rfl
  | null => rfl
  | data bytes =>
    dsimp only [Buffer.at]
    rw [Writing.run, dif_pos (Nat.sub_self len)]

theorem seek_ino (fd : Fd) (off : Int) : (fd.seek off).ino = fd.ino := by
  rw [Fd.seek]
  split <;> rfl

/-- Only the file behind the descriptor changes. -/
theorem chunk_frame (w : Writing) (size : Int) (ondisk : Nat → UInt8) (len : Nat) :
    (w.chunk size ondisk len).host.files = w.host.files ∧
      ∀ ino, ino ≠ w.fd.ino → (w.chunk size ondisk len).host.bytes ino = w.host.bytes ino := by
  rw [Writing.chunk]
  dsimp only
  generalize (if size = -1 then zfill ondisk len else len) = n
  split
  · exact ⟨rfl, fun ino hino => Function.update_of_ne hino ..⟩
  · exact ⟨rfl, fun _ _ => rfl⟩

theorem chunk_bytes (w : Writing) (size : Int) (ondisk : Nat → UInt8) (len : Nat) :
    (w.chunk size ondisk len).host.bytes w.fd.ino
      = if (if size = -1 then zfill ondisk len else len) ≠ 0 then
          writeAt 0 (w.host.bytes w.fd.ino) w.fd.pos
            ((List.range (if size = -1 then zfill ondisk len else len)).map ondisk)
        else w.host.bytes w.fd.ino := by
  rw [Writing.chunk]
  dsimp only
  generalize (if size = -1 then zfill ondisk len else len) = n
  split
  · exact Function.update_self ..
  · rfl

/-- The host after a record was written. -/
def afterStore (s : State) (i : Nat) (fd : Fd) (leaf : Leaf) (ondisk : Nat → UInt8) : Host :=
  let size := (s.dict i).size
  let fileOffset := leaf.key - leaf.dataLen
  let w := Writing.chunk ⟨s.host, fd.seek fileOffset, fileOffset⟩ size ondisk leaf.dataLen.toNat
  if 0 ≤ size ∧ size < w.fileOffset then w.host.ftruncate w.fd size.toNat else w.host

theorem State.store_oneBuffer (s : State) (env : Env) (i : Nat) (p : Path) (fd : Fd)
    (ondisk : Nat → UInt8) (hlen : 0 < leaf.dataLen.toNat) (hone : OneBuffer leaf) :
    ∃ cached,
      (env.disk.next ((leaf.dataOffset + leaf.dataLen.toNat) % 2 ^ 64) ≠ .dies →
        s.store env i p fd leaf ondisk
          = ({ s with host := afterStore s i fd leaf ondisk, cached }, none)) ∧
      (env.disk.next ((leaf.dataOffset + leaf.dataLen.toNat) % 2 ^ 64) = .dies →
        (s.store env i p fd leaf ondisk).2 ≠ none) := by
  refine ⟨some (p, (Writing.chunk ⟨s.host, fd.seek (leaf.key - leaf.dataLen),
    leaf.key - leaf.dataLen⟩ (s.dict i).size ondisk leaf.dataLen.toNat).fd), ?_, ?_⟩
  · intro hnext
    rw [State.store]
    dsimp only
    rw [run_oneBuffer hlen hone]
    cases hb : env.disk.next ((leaf.dataOffset + leaf.dataLen.toNat) % 2 ^ 64) with
    | dies => exact absurd hb hnext
    | null => rfl
    | data bytes => rfl
  · intro hnext
    rw [State.store]
    dsimp only
    rw [run_oneBuffer hlen hone, hnext]
    intro hc
    cases hc

theorem afterStore_frame (s : State) (i : Nat) (fd : Fd) (leaf : Leaf) (ondisk : Nat → UInt8) :
    (afterStore s i fd leaf ondisk).files = s.host.files ∧
      ∀ ino, ino ≠ fd.ino → (afterStore s i fd leaf ondisk).bytes ino = s.host.bytes ino := by
  rw [afterStore]
  generalize hw : (⟨s.host, fd.seek (leaf.key - leaf.dataLen), leaf.key - leaf.dataLen⟩ : Writing)
    = w
  have hino : w.fd.ino = fd.ino := by rw [← hw]; exact seek_ino fd _
  have hhost : w.host = s.host := by rw [← hw]
  obtain ⟨hfiles, hbytes⟩ := chunk_frame w (s.dict i).size ondisk leaf.dataLen.toNat
  rw [hhost, hino] at hbytes
  rw [hhost] at hfiles
  split
  · refine ⟨hfiles, fun ino hne => ?_⟩
    rw [Host.ftruncate]
    dsimp only
    rw [Function.update_of_ne (by rw [Writing.chunk]; exact hino ▸ hne)]
    exact hbytes ino hne
  · exact ⟨hfiles, hbytes⟩

theorem afterStore_bytes {i : Nat} {fd : Fd} (h0 : 0 ≤ leaf.key - leaf.dataLen)
    (hlen : 0 ≤ leaf.dataLen) :
    (afterStore s i fd leaf ondisk).bytes fd.ino
      = stored (s.host.bytes fd.ino) (leaf.key - leaf.dataLen).toNat leaf.dataLen.toNat
          (s.dict i).size ondisk := by
  have hseek : fd.seek (leaf.key - leaf.dataLen)
      = ⟨fd.ino, (leaf.key - leaf.dataLen).toNat⟩ := by
    rw [Fd.seek, if_neg (by omega)]
  have hend : leaf.key - leaf.dataLen + leaf.dataLen.toNat
      = ((leaf.key - leaf.dataLen).toNat : Int) + leaf.dataLen.toNat := by omega
  rw [afterStore, hseek]
  generalize hw : (⟨s.host, ⟨fd.ino, (leaf.key - leaf.dataLen).toNat⟩,
    leaf.key - leaf.dataLen⟩ : Writing) = w
  have hoff : (w.chunk (s.dict i).size ondisk leaf.dataLen.toNat).fileOffset
      = leaf.key - leaf.dataLen + leaf.dataLen.toNat := by rw [← hw]; rfl
  have hfd : (w.chunk (s.dict i).size ondisk leaf.dataLen.toNat).fd.ino = fd.ino := by
    rw [← hw]
    rfl
  have hchunk := chunk_bytes w (s.dict i).size ondisk leaf.dataLen.toNat
  rw [show w.fd = ⟨fd.ino, (leaf.key - leaf.dataLen).toNat⟩ by rw [← hw],
    show w.host = s.host by rw [← hw]] at hchunk
  rw [hoff, hend, stored, ← hchunk]
  by_cases hcut : 0 ≤ (s.dict i).size ∧
      (s.dict i).size < ((leaf.key - leaf.dataLen).toNat : Int) + leaf.dataLen.toNat
  · rw [if_pos hcut, if_pos hcut, Host.ftruncate, hfd]
    exact Function.update_self (f := Host.bytes _) ..
  · rw [if_neg hcut, if_neg hcut]

/-! ## The record in the file -/

theorem byteAt_eq {disk : Disk} {offset i : Nat} {bytes : Nat → UInt8}
    (hb : disk.buffer (offset / bufSize) = .data bytes) (hi : offset % bufSize + i < bufSize) :
    disk.byteAt (offset + i) = bytes (offset % bufSize + i) := by
  have hdiv : (offset + i) / bufSize = offset / bufSize := by
    rw [bufSize] at hi ⊢
    omega
  have hmod : (offset + i) % bufSize = offset % bufSize + i := by
    rw [bufSize] at hi ⊢
    omega
  rw [Disk.byteAt, hdiv, hb, hmod]

/-- Of the filters only the one on the length is left. -/
theorem readLeaf_live (h : Live env.disk leaf) :
    ∃ ondisk, readLeaf env.disk leaf = .ok (if OneBuffer leaf then some ondisk else none) ∧
      (OneBuffer leaf → ∀ i < leaf.dataLen.toNat,
        ondisk i = env.disk.byteAt (leaf.dataOffset + i)) := by
  have hlen := h.dataLen
  obtain ⟨bytes, hb⟩ := h.loaded 0 (by omega)
  rw [Nat.add_zero] at hb
  refine ⟨fun i => bytes (leaf.dataOffset % bufSize + i), ?_, ?_⟩
  · have hmod := Nat.mod_lt leaf.dataOffset (show 0 < bufSize by decide)
    rw [readLeaf, if_neg (by rw [h.deleteTs]; decide), if_neg (by rw [h.volume]; decide),
      if_neg h.dataOffset, Disk.getBufferData, hb, Buffer.at]
    by_cases hone : OneBuffer leaf
    · rw [if_pos hone]
      rw [OneBuffer] at hone
      exact if_neg (by omega)
    · rw [if_neg hone]
      rw [OneBuffer] at hone
      exact if_pos (by omega)
  · intro hone i hi
    rw [OneBuffer] at hone
    rw [byteAt_eq hb (by omega)]

theorem recoverElm_live (h : Live env.disk leaf) :
    ∃ ondisk, recoverElm env s leaf
        = (if OneBuffer leaf then (leaf.entry s).1.data env (leaf.entry s).2 leaf ondisk
          else (s, none)) ∧
      (OneBuffer leaf → ∀ i < leaf.dataLen.toNat,
        ondisk i = env.disk.byteAt (leaf.dataOffset + i)) := by
  obtain ⟨ondisk, hread, hdata⟩ := readLeaf_live h
  refine ⟨ondisk, ?_, hdata⟩
  rw [recoverElm, hread]
  by_cases hone : OneBuffer leaf
  · rw [if_pos hone, if_pos hone]
    dsimp only
    rw [if_neg h.objId, h.recType]
    rfl
  · rw [if_neg hone, if_neg hone]

theorem Host.file_of_files {h : Host} {ino : Nat} (hp : h.files p = some ino) :
    h.file p = h.bytes ino := by
  rw [Host.file, hp]

/-- The zeros at the end of the record, which are not written while the size is not known, are in
    the file already. -/
def ZerosThere (env : Env) (s : State) (leaf : Leaf) : Prop :=
  let r := leaf.entry s
  (r.1.dict r.2).size = -1 → ∀ i,
    zfill (fun i => env.disk.byteAt (leaf.dataOffset + i)) leaf.dataLen.toNat ≤ i →
      i < leaf.dataLen.toNat →
        (s.host.file (r.1.path env r.2))[(leaf.key - leaf.dataLen).toNat + i]? = some 0

theorem Restored.zerosThere (h : Restored env s leaf) (hlen : 0 < leaf.dataLen.toNat) :
    leaf.dataLen ≤ leaf.key ∧ ZerosThere env s leaf := by
  rw [Restored] at h
  have h0 := h.nonneg hlen
  refine ⟨by omega, ?_⟩
  rw [show leaf.key - leaf.dataLen = ((leaf.key - leaf.dataLen).toNat : Int) by omega] at h
  exact h.zeros

/-- After the record was written to the file that its path leads to. -/
theorem restored_afterStore_iff {fd : Fd} {cached : Option (Path × Fd)}
    (hlen : 0 < leaf.dataLen.toNat)
    (hdata : ∀ i < leaf.dataLen.toNat, ondisk i = env.disk.byteAt (leaf.dataOffset + i))
    (hcore : SameCore (leaf.entry s).1 t) (hp : (leaf.entry s).1.path env (leaf.entry s).2 = p)
    (hfile : t.host.file p = s.host.file p) (hreach : t.host.files p = some fd.ino) :
    Restored env { t with host := afterStore t (leaf.entry s).2 fd leaf ondisk, cached } leaf ↔
      leaf.dataLen ≤ leaf.key ∧ ZerosThere env s leaf := by
  have hcore' : SameCore (leaf.entry s).1
      { t with host := afterStore t (leaf.entry s).2 fd leaf ondisk, cached } := hcore
  obtain ⟨hfiles, -⟩ := afterStore_frame t (leaf.entry s).2 fd leaf ondisk
  rw [restored_iff hcore', hp]
  dsimp only
  rw [Host.file_of_files (by rw [hfiles]; exact hreach), ZerosThere]
  by_cases h0 : leaf.dataLen ≤ leaf.key
  · rw [afterStore_bytes (by omega) (by omega), stored_congr hdata, hcore.size,
      ← Host.file_of_files hreach, hfile, hp]
    have hoff : leaf.key - leaf.dataLen = ((leaf.key - leaf.dataLen).toNat : Int) := by omega
    generalize (leaf.key - leaf.dataLen).toNat = pos at hoff
    rw [hoff, holds_stored_iff]
    exact (and_iff_right h0).symm
  · constructor
    · intro h
      have := h.nonneg hlen
      omega
    · exact fun h => absurd h.1 h0

/-- When a record is restored, by the state before: it does not lead to a buffer that ends the
    program, and the file has its bytes already, or gets them. -/
def RestoredWhen (env : Env) (s : State) (leaf : Leaf) : Prop :=
  let r := leaf.entry s
  let u := r.1.ready env r.2
  let p := r.1.path env r.2
  (OneBuffer leaf → (u.openFile env p).isSome → env.disk.next
      ((leaf.dataOffset + leaf.dataLen.toNat) % 2 ^ 64) ≠ .dies) ∧
  (Restored env s leaf ∨
    OneBuffer leaf ∧ leaf.dataLen ≤ leaf.key ∧ u.Reaches env p ∧ ZerosThere env s leaf)

theorem reaches_of_not_cached (hc : s.cached = none) (ho : (s.openFile env p).isSome) :
    s.Reaches env p := by
  obtain ⟨r, hr⟩ := Option.isSome_iff_exists.mp ho
  refine ⟨r, hr, ?_⟩
  rw [State.openFile, hc] at hr
  obtain ⟨a, ha, rfl⟩ := Option.map_eq_some_iff.mp hr
  exact (open_ok ha).2

/-- A file that the descriptor does not lead to stays as it is. -/
theorem not_reaches_file {fd : Fd} {i : Nat} (hne : s.host.files p ≠ some fd.ino) :
    (afterStore s i fd leaf ondisk).file p = s.host.file p := by
  obtain ⟨hfiles, hbytes⟩ := afterStore_frame s i fd leaf ondisk
  rw [Host.file, Host.file, hfiles]
  cases hf : s.host.files p with
  | none => rfl
  | some ino => exact hbytes ino fun h => hne (by rw [hf, h])

theorem data_oneBuffer_iff (hlen : 0 < leaf.dataLen.toNat) (hone : OneBuffer leaf)
    (hdata : ∀ i < leaf.dataLen.toNat, ondisk i = env.disk.byteAt (leaf.dataOffset + i)) :
    (∃ t, (leaf.entry s).1.data env (leaf.entry s).2 leaf ondisk = (t, none) ∧
      Restored env t leaf) ↔
    ((((leaf.entry s).1.ready env (leaf.entry s).2).openFile env
        ((leaf.entry s).1.path env (leaf.entry s).2)).isSome →
      env.disk.next ((leaf.dataOffset + leaf.dataLen.toNat) % 2 ^ 64) ≠ .dies) ∧
    (Restored env s leaf ∨ leaf.dataLen ≤ leaf.key ∧
      ((leaf.entry s).1.ready env (leaf.entry s).2).Reaches env
        ((leaf.entry s).1.path env (leaf.entry s).2) ∧ ZerosThere env s leaf) := by
  obtain ⟨hcore, hfiles, hbytes⟩ := State.ready_frame env (leaf.entry s).1 (leaf.entry s).2
  have hhost := file_of_eq hfiles hbytes
  rw [State.data, hcore.path]
  generalize hp : (leaf.entry s).1.path env (leaf.entry s).2 = p
  generalize (leaf.entry s).1.ready env (leaf.entry s).2 = u at hcore hhost ⊢
  rw [State.Reaches]
  cases ho : u.openFile env p with
  | none =>
    have hcongr : Restored env { u with calls := u.calls ++ [.open p] } leaf
        ↔ Restored env s leaf := restored_congr hcore (hhost _)
    simp only [Prod.mk.injEq, and_true, exists_eq_left', hcongr]
    simp
  | some q =>
    obtain ⟨hdicts, hfile⟩ := openFile_ok ho
    have hcoreq : SameCore (leaf.entry s).1
        (q.2.setDict (leaf.entry s).2 fun d => { d with madeFile := true }) :=
      hcore.trans (Eq.trans (sameCore_setDict q.2 _ fun _ => rfl) (by rw [hdicts]))
    dsimp only
    generalize hv : (q.2.setDict (leaf.entry s).2 fun d => { d with madeFile := true }) = v
      at hcoreq ⊢
    have hvhost : v.host = q.2.host := by rw [← hv]; rfl
    have hvfile : v.host.file p = s.host.file p := by
      rw [hvhost, hfile, hhost]
      rfl
    obtain ⟨cached, hstore, hdies⟩ :=
      v.store_oneBuffer env (leaf.entry s).2 p q.1 ondisk hlen hone
    by_cases hnext : env.disk.next
        ((leaf.dataOffset + leaf.dataLen.toNat) % 2 ^ 64) = .dies
    · constructor
      · rintro ⟨t, ht, -⟩
        exact absurd (congrArg Prod.snd ht) (hdies hnext)
      · rintro ⟨h, -⟩
        exact absurd hnext (h rfl)
    · rw [hstore hnext]
      simp only [Prod.mk.injEq, and_true, exists_eq_left', Option.isSome_some, forall_const,
        ne_eq, hnext, not_false_eq_true, true_and, Option.some.injEq]
      by_cases hreach : q.2.host.files p = some q.1.ino
      · rw [restored_afterStore_iff hlen hdata hcoreq hp hvfile (hvhost ▸ hreach)]
        constructor
        · rintro ⟨h0, hz⟩
          exact .inr ⟨h0, hreach, hz⟩
        · rintro (hr | ⟨h0, -, hz⟩)
          · exact hr.zerosThere hlen
          · exact ⟨h0, hz⟩
      · have hkeep : Restored env
            { v with host := afterStore v (leaf.entry s).2 q.1 leaf ondisk, cached } leaf
              ↔ Restored env s leaf := by
          refine restored_congr hcoreq ?_
          rw [hp]
          exact (not_reaches_file (hvhost ▸ hreach)).trans hvfile
        rw [hkeep]
        constructor
        · exact .inl
        · rintro (hr | ⟨-, h, -⟩)
          · exact hr
          · exact absurd h hreach

end

/-- A live record is in the recovered file after recover_elm exactly when its data is in one buffer,
    at a file offset that is not negative, it can be written to the file that its path leads to, and
    no zeros at its end are missing there. -/
theorem data_restored_iff (env : Env) (s : State) (leaf : Leaf) (hlive : Live env.disk leaf) :
    (∃ t, recoverElm env s leaf = (t, none) ∧ Restored env t leaf) ↔ RestoredWhen env s leaf := by
  have hlen : 0 < leaf.dataLen.toNat := by
    have := hlive.dataLen
    omega
  obtain ⟨ondisk, helm, hdata⟩ := recoverElm_live (s := s) hlive
  rw [helm, RestoredWhen]
  by_cases hone : OneBuffer leaf
  · rw [if_pos hone, data_oneBuffer_iff hlen hone (hdata hone)]
    simp only [hone, true_and, forall_const]
  · rw [if_neg hone]
    constructor
    · rintro ⟨t, ht, hr⟩
      cases ht
      exact ⟨fun h => absurd h hone, .inl hr⟩
    · rintro ⟨-, hr | ⟨h, -⟩⟩
      · exact ⟨s, rfl, hr⟩
      · exact absurd h hone

/-- A volume that is full of ones. -/
def onesEnv : Env := ⟨[84], ⟨fun v => v = 0, fun _ => .data fun _ => 1, fun _ => .data fun _ => 1⟩, openHost⟩

/-- A data record of object 2. -/
def dataLeaf (key offset len : Nat) : Leaf := ⟨2, key, .data, 0, 0, zoneEncode 10 offset, len⟩

theorem live_dataLeaf {key offset len : Nat} (hlen : 1 ≤ len ∧ len ≤ 65536)
    (hvol : volDecode (zoneEncode 10 offset) = 0) : Live onesEnv.disk (dataLeaf key offset len) where
  deleteTs := rfl
  recType := rfl
  objId := show (2 : UInt64) ≠ 0 by decide
  dataLen := by
    change 1 ≤ (len : Int) ∧ (len : Int) ≤ 65536
    omega
  dataOffset := by
    change 10 * 2 ^ 60 + offset ≠ 0
    omega
  volume := decide_eq_true hvol
  loaded _ _ := ⟨_, rfl⟩

theorem data_restored_four :
    ∃ t, recoverElm onesEnv (.start emptyHost) (dataLeaf 4 0 4) = (t, none) ∧
      Restored onesEnv t (dataLeaf 4 0 4) := by
  apply (data_restored_iff _ _ _ (live_dataLeaf (by decide) (by decide))).mpr
  refine ⟨fun _ _ => nofun, .inr ⟨by decide, by decide, ?_, ?_⟩⟩
  · apply reaches_of_not_cached
    · rfl
    · decide +kernel
  · intro _ i hz hi
    have : zfill (fun i => onesEnv.disk.byteAt ((dataLeaf 4 0 4).dataOffset + i))
        (dataLeaf 4 0 4).dataLen.toNat = 4 := by decide +kernel
    have : (dataLeaf 4 0 4).dataLen.toNat = 4 := rfl
    omega

/-- 16 KB of data that begin in the middle of a buffer. -/
theorem data_dropped : Live onesEnv.disk (dataLeaf 16384 8192 16384) ∧
    ∃ t, recoverElm onesEnv (.start emptyHost) (dataLeaf 16384 8192 16384) = (t, none) ∧
      ¬ Restored onesEnv t (dataLeaf 16384 8192 16384) := by
  have hlive : Live onesEnv.disk (dataLeaf 16384 8192 16384) :=
    live_dataLeaf (by decide) (by decide)
  refine ⟨hlive, .start emptyHost, ?_, fun h => ?_⟩
  · obtain ⟨ondisk, helm, -⟩ := recoverElm_live (s := .start emptyHost) hlive
    rw [helm, if_neg (by decide)]
  · have := (h 0 (by decide) fun h => absurd h (by decide)).2
    cases this

end Lh1.Hammer.Recover
