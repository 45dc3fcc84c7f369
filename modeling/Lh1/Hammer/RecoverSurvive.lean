/-
  Which records `hammer recover` survives (recover_elm of cmd_recover.c, get_buffer of ondisk.c).

  recover_elm looks at the volume of a data offset and at its length, and leaves the rest to
  get_buffer. That one translates the offset by its zone and by the freemap, and asserts that the
  result is one of zone 2 on a volume that is there. After the data of a file has been written,
  the buffer behind it is asked for too. Object 0 has no entry in the dictionary.

  - `getBuffer_ok_iff`: when get_buffer returns for an offset.
  - `recoverElm_survives_iff`: when recover_elm returns for a record, whatever the host does.

  The cache of buffers is left out here: an offset leads to the same buffer every time. A block
  that cannot be read ends the program, as does one that is read ahead with it.
-/
import Lh1.Lib.Fallible
import Lh1.Hammer.Cache
import Lh1.Hammer.RecoverData

namespace Lh1.Hammer.Recover

open Lib

/-! ## Buffers -/

/-- The volumes of a filesystem: `get_volume`, what is read of a volume at a raw offset, and what
    is in memory behind a buffer. -/
structure Volumes where
  get : Nat → Option Cache.VolumeInfo
  read : Nat → Int → Option Cache.Block
  beyond : Nat → UInt8

section Buffers

variable (vols : Volumes)

/-- The buffer of a zone 2 offset. -/
def Volumes.load (z2 : Nat) : Except Cache.Fault Cache.Block :=
  match vols.get (volDecode z2) with
  | none => .error .assertion
  | some volume =>
    match vols.read (volDecode z2) (volume.ondisk.xlateToPhys (Cache.blockOffset z2)) with
    | none => .error .exit
    | some b => .ok b

/-- What a buffer is got with, for an offset of the freemap. -/
abbrev Getter := Nat → Except Cache.Fault (Option (Nat × Cache.Block))

/-- The zone that owns the big-block of an offset, as `blockmap_lookup` finds it in the freemap;
    nothing when it gives up before. -/
def owner (getBuf : Getter) (root : Cache.VolumeOndisk) (off : Nat) :
    Except Cache.Fault (Option Nat) := do
  let freemap := root.vol0Blockmap zoneFreemapIndex
  let layer1Offset := (freemap.physOffset + layer1Index off * 32) % 2 ^ 64
  match ← getBuf layer1Offset with
  | none => .ok none
  | some (_, layer1) =>
    let physOffset := layer1.word (layer1Offset % bufSize + 8) 8
    if physOffset = unavail then .ok none
    else
      let layer2Offset := (physOffset + layer2Index off * 16) % 2 ^ 64
      match ← getBuf layer2Offset with
      | none => .ok none
      | some (_, layer2) => .ok (some (layer2.word (layer2Offset % bufSize) 1))

/-- `__blockmap_xlate_to_zone2`. -/
def Volumes.xlateToZone2 (getBuf : Getter) (off : Nat) : Except Cache.Fault (Option Nat) :=
  if zoneDecode off = 2 then .ok (some off)
  else if zoneDecode off ≤ 1 then .ok none
  else
    match vols.get 0 with
    | none => .error .wild
    | some root =>
      match Cache.translate root.ondisk off with
      | none => .ok none
      | some result => do
        if (← owner getBuf root.ondisk result) = some (zoneDecode off) then
          if zoneDecode result = 2 then .ok (some result) else .error .assertion
        else .ok none

/-- `get_buffer`: the zone 2 offset and the buffer. `depth` bounds how deep translations are
    nested: an offset of the freemap that is not one of zone 2 needs a translation itself. -/
def Volumes.getBuffer : Nat → Getter
  | 0, _ => .error .fuel
  | depth + 1, off => do
    match ← vols.xlateToZone2 (Volumes.getBuffer depth) off with
    | none => .ok none
    | some z2 => do
      let b ← vols.load z2
      .ok (some (z2, b))

/-- Whether a buffer is the one of an offset, as `get_buffer_data` finds out. -/
def Volumes.sameBuffer (z2 off : Nat) : Except Cache.Fault Bool :=
  if zoneDecode off = zoneUndoIndex then
    match vols.get (volDecode z2) with
    | none => .error .wild
    | some volume => .ok (decide (volume.ondisk.xlateToUndo off / bufSize = z2 / bufSize))
  else if zoneDecode off = 2 ∨ zoneDecode off = zoneFreemapIndex ∨
      isIndexRecord (zoneDecode off) then
    .ok (decide (longOff off / bufSize = longOff z2 / bufSize))
  else .error .assertion

/-- `get_buffer_data` when the buffer of `z2` is held. -/
def Volumes.getNext (depth z2 : Nat) (b : Cache.Block) : Getter := fun off => do
  if ← vols.sameBuffer z2 off then .ok (some (z2, b)) else vols.getBuffer depth off

/-- A buffer as recover_elm gets it. -/
def Volumes.toBuffer : Except Cache.Fault (Option (Nat × Cache.Block)) → Buffer
  | .error _ => .dies
  | .ok none => .null
  | .ok (some (_, b)) => .data fun i => if h : i < bufSize then b ⟨i, h⟩ else vols.beyond i

/-- Where the data of a record ends. -/
def Leaf.nextOffset (leaf : Leaf) : Nat := (leaf.dataOffset + leaf.dataLen.toNat) % 2 ^ 64

/-- What recover_elm has of the volumes while it is at a record: the buffer of the data, and then
    the one behind the data. An offset of the UNDO FIFO in the same 16 KB can be in another buffer,
    where the big-block in the volume header is no such thing. -/
def Volumes.diskFor (depth : Nat) (leaf : Leaf) : Disk where
  volume v := (vols.get v).isSome
  buffer _ := vols.toBuffer (vols.getBuffer depth leaf.dataOffset)
  next off :=
    match vols.getBuffer depth leaf.dataOffset with
    | .ok (some (z2, b)) => vols.toBuffer (vols.getNext depth z2 b off)
    | _ => .null

end Buffers

/-! ## Harmless records -/

section Harmless

variable (vols : Volumes) (depth : Nat)

/-- The buffer of a zone 2 offset can be had. -/
def Volumes.Loads (z2 : Nat) : Prop :=
  ∃ volume, vols.get (volDecode z2) = some volume ∧
    ∃ b, vols.read (volDecode z2) (volume.ondisk.xlateToPhys (Cache.blockOffset z2)) = some b

/-- `get_buffer` returns for the offset: if it is one of zone 2, that can be had. If it is one of
    another zone that has big-blocks, its owner can be looked up; and if that is the zone itself,
    the offset is translated to one of zone 2 that can be had. -/
structure Volumes.Safe (off : Nat) : Prop where
  raw : zoneDecode off = 2 → vols.Loads off
  other : 2 < zoneDecode off → ∃ root, vols.get 0 = some root ∧
    ∀ r, Cache.translate root.ondisk off = some r →
      ∃ o, owner (vols.getBuffer depth) root.ondisk r = .ok o ∧
        (o = some (zoneDecode off) → zoneDecode r = 2 ∧ vols.Loads r)

/-- The same when the buffer of `z2` is held, unless it is that of the offset. -/
def Volumes.SafeNext (z2 off : Nat) : Prop :=
  vols.sameBuffer z2 off = .ok true ∨ vols.sameBuffer z2 off = .ok false ∧ vols.Safe depth off

/-- The record is not deleted, and the volume of its data is there. -/
structure Considered (leaf : Leaf) : Prop where
  deleteTs : leaf.deleteTs = 0
  volume : (vols.get (volDecode leaf.dataOffset)).isSome = true
  dataOffset : leaf.dataOffset ≠ 0

/-- The record gets to the dictionary, with its data in the buffer `b` at `z2`. -/
structure Taken (leaf : Leaf) (z2 : Nat) (b : Cache.Block) : Prop where
  considered : Considered vols leaf
  buffer : vols.getBuffer (depth + 1) leaf.dataOffset = .ok (some (z2, b))
  len : 0 ≤ leaf.dataLen ∧ leaf.dataLen ≤ 65536
  fits : OneBuffer leaf

/-- The bytes from the data offset on. -/
def Volumes.ondisk (leaf : Leaf) (b : Cache.Block) (i : Nat) : UInt8 :=
  if h : leaf.dataOffset % bufSize + i < bufSize then b ⟨leaf.dataOffset % bufSize + i, h⟩
  else vols.beyond (leaf.dataOffset % bufSize + i)

/-- The object has an entry in the dictionary that was attached to a parent. -/
def Attached (dicts : List Dict) (objId : UInt64) (pfsId : UInt16) : Prop :=
  ∃ i, findDict dicts objId pfsId = some i ∧ (dicts.getD i default).hasParent = true

/-- What a record of object 0 must not be: an inode, or a directory entry for an object that has
    to be attached to its directory. -/
structure ZeroOk (dicts : List Dict) (leaf : Leaf) (ondisk : Nat → UInt8) : Prop where
  inode : leaf.recType ≠ .inode
  direntry : leaf.recType = .direntry → entryNameOff ≤ leaf.dataLen.toNat →
    UInt64.ofNat (field ondisk 0 8) ≠ 0 → UInt64.ofNat (field ondisk 0 8) ≠ objidRoot →
      Attached dicts (UInt64.ofNat (field ondisk 0 8)) (loToPfs leaf.localization)

structure Harmless (dicts : List Dict) (leaf : Leaf) : Prop where
  data : Considered vols leaf → vols.Safe depth leaf.dataOffset
  zero : ∀ z2 b, Taken vols depth leaf z2 b → leaf.objId = 0 →
    ZeroOk dicts leaf (vols.ondisk leaf b)
  next : ∀ z2 b, Taken vols depth leaf z2 b → leaf.objId ≠ 0 → leaf.recType = .data →
    0 < leaf.dataLen → vols.SafeNext depth z2 leaf.nextOffset

end Harmless

/-! ## Getting a buffer -/

section GetBuffer

variable {vols : Volumes} {depth off z2 : Nat} {b : Cache.Block}

theorem load_ok_iff : (∃ b, vols.load z2 = .ok b) ↔ vols.Loads z2 := by
  unfold Volumes.load Volumes.Loads
  cases vols.get (volDecode z2) with
  | none => exact iff_of_false (fun ⟨_, h⟩ => by cases h) fun ⟨_, h, _⟩ => by cases h
  | some volume =>
    simp only [Option.some.injEq, exists_eq_left']
    cases vols.read (volDecode z2) (volume.ondisk.xlateToPhys (Cache.blockOffset z2)) with
    | none => exact iff_of_false (fun ⟨_, h⟩ => by cases h) fun ⟨_, h⟩ => by cases h
    | some b => exact iff_of_true ⟨b, rfl⟩ ⟨b, rfl⟩

variable {root : Cache.VolumeInfo}

theorem xlateToZone2_other (getBuf : Getter) (hz : 2 < zoneDecode off)
    (hroot : vols.get 0 = some root) :
    vols.xlateToZone2 getBuf off =
      match Cache.translate root.ondisk off with
      | none => .ok none
      | some r => owner getBuf root.ondisk r >>= fun o =>
        if o = some (zoneDecode off) then
          if zoneDecode r = 2 then .ok (some r) else .error .assertion
        else .ok none := by
  unfold Volumes.xlateToZone2
  rw [if_neg (by omega), if_neg (by omega), hroot]

theorem safe_other (hz : 2 < zoneDecode off) (hroot : vols.get 0 = some root) :
    vols.Safe depth off ↔ ∀ r, Cache.translate root.ondisk off = some r →
      ∃ o, owner (vols.getBuffer depth) root.ondisk r = .ok o ∧
        (o = some (zoneDecode off) → zoneDecode r = 2 ∧ vols.Loads r) := by
  constructor
  · intro h
    obtain ⟨root', hroot', h⟩ := h.other hz
    rw [hroot] at hroot'
    cases hroot'
    exact h
  · exact fun h => ⟨fun h2 => by omega, fun _ => ⟨root, hroot, h⟩⟩

/-- `get_buffer` is the translation and the load. -/
theorem getBuffer_of_xlate {o : Option Nat}
    (h : vols.xlateToZone2 (vols.getBuffer depth) off = .ok o) :
    (∃ o, vols.getBuffer (depth + 1) off = .ok o) ↔ ∀ z2, o = some z2 → vols.Loads z2 := by
  unfold Volumes.getBuffer
  rw [h, except_ok_bind]
  cases o with
  | none => exact iff_of_true ⟨none, rfl⟩ fun _ h => by cases h
  | some z2 =>
    simp only [Option.some.injEq, forall_eq', ← load_ok_iff, except_bind_ok_iff]
    constructor
    · intro h
      obtain ⟨_, b, hb, _⟩ := h
      exact ⟨b, hb⟩
    · intro h
      obtain ⟨b, hb⟩ := h
      exact ⟨_, b, hb, rfl⟩

theorem getBuffer_of_error {e : Cache.Fault}
    (h : vols.xlateToZone2 (vols.getBuffer depth) off = .error e) :
    ¬ ∃ o, vols.getBuffer (depth + 1) off = .ok o := by
  unfold Volumes.getBuffer
  rw [h]
  intro hok
  obtain ⟨_, hok⟩ := hok
  cases hok

theorem getBuffer_ok_iff :
    (∃ o, vols.getBuffer (depth + 1) off = .ok o) ↔ vols.Safe depth off := by
  rcases Nat.lt_trichotomy (zoneDecode off) 2 with hz | hz | hz
  · have hx : vols.xlateToZone2 (vols.getBuffer depth) off = .ok none := by
      unfold Volumes.xlateToZone2
      rw [if_neg (by omega), if_pos (by omega)]
    rw [getBuffer_of_xlate hx]
    exact iff_of_true (fun _ h => by cases h) ⟨fun h => by omega, fun h => by omega⟩
  · have hx : vols.xlateToZone2 (vols.getBuffer depth) off = .ok (some off) := by
      unfold Volumes.xlateToZone2
      rw [if_pos hz]
    rw [getBuffer_of_xlate hx]
    exact ⟨fun h => ⟨fun _ => h off rfl, fun h => by omega⟩,
      fun h z2 e => Option.some.inj e ▸ h.raw hz⟩
  · cases hroot : vols.get 0 with
    | none =>
      have hx : vols.xlateToZone2 (vols.getBuffer depth) off = .error .wild := by
        unfold Volumes.xlateToZone2
        rw [if_neg (by omega), if_neg (by omega), hroot]
      refine iff_of_false (getBuffer_of_error hx) fun h => ?_
      obtain ⟨_, h, -⟩ := h.other hz
      rw [hroot] at h
      cases h
    | some root =>
      rw [safe_other hz hroot]
      have hx := xlateToZone2_other (vols.getBuffer depth) hz hroot
      cases htr : Cache.translate root.ondisk off with
      | none =>
        rw [htr] at hx
        rw [getBuffer_of_xlate hx]
        exact iff_of_true (fun _ h => by cases h) fun _ h => by cases h
      | some r =>
        rw [htr] at hx
        simp only [Option.some.injEq, forall_eq']
        cases ho : owner (vols.getBuffer depth) root.ondisk r with
        | error e =>
          dsimp only at hx
          rw [ho] at hx
          refine iff_of_false (getBuffer_of_error hx) fun h => ?_
          cases h.choose_spec.1
        | ok o =>
          dsimp only at hx
          rw [ho, except_ok_bind] at hx
          simp only [Except.ok.injEq, exists_eq_left']
          split_ifs at hx with h1 h2
          · rw [getBuffer_of_xlate hx]
            exact ⟨fun h _ => ⟨h2, h r rfl⟩, fun h z2 e => Option.some.inj e ▸ (h h1).2⟩
          · exact iff_of_false (getBuffer_of_error hx) fun h => h2 (h h1).1
          · rw [getBuffer_of_xlate hx]
            exact iff_of_true (fun _ h => by cases h) fun h => absurd h h1

theorem toBuffer_ne_dies {r : Except Cache.Fault (Option (Nat × Cache.Block))} :
    vols.toBuffer r ≠ .dies ↔ ∃ o, r = .ok o := by
  match r with
  | .error e => exact iff_of_false (fun h => h rfl) fun ⟨_, h⟩ => by cases h
  | .ok none => exact iff_of_true (fun h => by cases h) ⟨none, rfl⟩
  | .ok (some (z2, b)) => exact iff_of_true (fun h => by cases h) ⟨some (z2, b), rfl⟩

theorem getNext_ok_iff :
    (∃ o, vols.getNext (depth + 1) z2 b off = .ok o) ↔ vols.SafeNext depth z2 off := by
  unfold Volumes.getNext Volumes.SafeNext
  cases vols.sameBuffer z2 off with
  | error e => exact iff_of_false (fun ⟨_, h⟩ => by cases h) fun h => by simp at h
  | ok same =>
    rw [except_ok_bind]
    cases same with
    | true => exact iff_of_true ⟨some (z2, b), rfl⟩ (Or.inl rfl)
    | false =>
      rw [← getBuffer_ok_iff]
      exact ⟨fun h => Or.inr ⟨rfl, h⟩, fun h => (h.resolve_left fun h => by cases h).2⟩

end GetBuffer

/-! ## Records -/

section Records

variable {vols : Volumes} {depth z2 : Nat} {b : Cache.Block} {leaf : Leaf} {env : Env} {s : State}

/-- The buffer behind the data of a record does not end the program. -/
theorem buffer_next (h : vols.getBuffer (depth + 1) leaf.dataOffset = .ok (some (z2, b))) :
    (vols.diskFor (depth + 1) leaf).next leaf.nextOffset ≠ .dies ↔
      vols.SafeNext depth z2 leaf.nextOffset := by
  rw [← getNext_ok_iff (b := b), ← toBuffer_ne_dies]
  unfold Volumes.diskFor
  dsimp only
  rw [h]

theorem readLeaf_of_not_considered (h : ¬ Considered vols leaf) :
    readLeaf (vols.diskFor depth leaf) leaf = .ok none := by
  unfold readLeaf
  split_ifs with h1 h2 h3
  · rfl
  · rfl
  · rfl
  · refine absurd ⟨not_not.mp h1, ?_, h3⟩ h
    exact (Bool.not_eq_false _).mp h2

/-- The filters in front of the buffer let the record pass. -/
theorem readLeaf_of_considered (h : Considered vols leaf) :
    readLeaf (vols.diskFor depth leaf) leaf =
      match (vols.diskFor depth leaf).getBufferData leaf.dataOffset with
      | .dies => .error .exit
      | .null => .ok none
      | .data ondisk =>
        if leaf.dataLen < 0 ∨ 65536 < leaf.dataLen ∨
            min ((bufSize - leaf.dataOffset % bufSize : Nat) : Int) leaf.dataLen < leaf.dataLen
          then .ok none else .ok (some ondisk) := by
  have hvol : ¬ (vols.diskFor depth leaf).volume (volDecode leaf.dataOffset) = false :=
    (Bool.not_eq_false _).mpr h.volume
  unfold readLeaf
  exact (if_neg (not_not_intro h.deleteTs)).trans ((if_neg hvol).trans (if_neg h.dataOffset))

theorem getBufferData_of_error {e : Cache.Fault}
    (h : vols.getBuffer depth leaf.dataOffset = .error e) :
    (vols.diskFor depth leaf).getBufferData leaf.dataOffset = .dies := by
  unfold Disk.getBufferData Volumes.diskFor
  dsimp only
  rw [h]
  rfl

theorem getBufferData_of_none (h : vols.getBuffer depth leaf.dataOffset = .ok none) :
    (vols.diskFor depth leaf).getBufferData leaf.dataOffset = .null := by
  unfold Disk.getBufferData Volumes.diskFor
  dsimp only
  rw [h]
  rfl

theorem getBufferData_of_some (h : vols.getBuffer depth leaf.dataOffset = .ok (some (z2, b))) :
    (vols.diskFor depth leaf).getBufferData leaf.dataOffset = .data (vols.ondisk leaf b) := by
  unfold Disk.getBufferData Volumes.diskFor
  dsimp only
  rw [h]
  rfl

theorem readLeaf_taken (h : Taken vols depth leaf z2 b) :
    readLeaf (vols.diskFor (depth + 1) leaf) leaf = .ok (some (vols.ondisk leaf b)) := by
  rw [readLeaf_of_considered h.considered, getBufferData_of_some h.buffer]
  have hlen := h.len
  have hfits := h.fits
  unfold OneBuffer at hfits
  exact if_neg (by omega)

/-! ### The dictionary -/

variable {ondisk : Nat → UInt8} {dict : Option Nat} {pfsId : UInt16}

theorem getD_addDict {dicts : List Dict} {objId : UInt64} {parent : Option Nat}
    (h : findDict dicts objId pfsId = none) :
    (addDict dicts objId pfsId parent).1.getD (addDict dicts objId pfsId parent).2 default =
      Dict.new objId pfsId parent := by
  unfold addDict
  rw [h]
  simp

theorem findDict_addRoot {dicts : List Dict} {objId : UInt64}
    (h : findDict dicts objId pfsId = none) (hne : objId ≠ objidRoot) :
    findDict (addDict dicts objidRoot pfsId none).1 objId pfsId = none := by
  unfold addDict
  cases findDict dicts objidRoot pfsId with
  | some i => exact h
  | none =>
    unfold findDict at h ⊢
    rw [List.findIdx?_append, h]
    simp [Dict.new, Ne.symm hne]

/-- An entry that `get_dict` has to make is not attached. -/
theorem hasParent_getDict {objId : UInt64} :
    ((s.getDict objId pfsId).1.dict (s.getDict objId pfsId).2).hasParent = true ↔
      Attached s.dicts objId pfsId := by
  unfold Attached
  cases h : findDict s.dicts objId pfsId with
  | some i =>
    rw [getDict_of_findDict h]
    simp only [Option.some.injEq, exists_eq_left']
    rfl
  | none =>
    refine iff_of_false ?_ fun h => by cases h.choose_spec.1
    have hnew : ∃ parent, (s.getDict objId pfsId).1.dict (s.getDict objId pfsId).2 =
        Dict.new objId pfsId parent := by
      change ∃ parent, (Recover.getDict s.dicts objId pfsId).1.getD
        (Recover.getDict s.dicts objId pfsId).2 default = _
      unfold Recover.getDict
      rw [h]
      dsimp only
      split_ifs with hroot
      · exact ⟨none, getD_addDict h⟩
      · exact ⟨_, getD_addDict (findDict_addRoot h hroot)⟩
    obtain ⟨parent, hnew⟩ := hnew
    rw [hnew]
    exact Bool.false_ne_true

/-- A name is no attachment. -/
theorem hasParent_setName {i j : Nat} {name : Bytes} :
    ((s.setDict i fun d => { d with name := d.name.or (some name) }).dict j).hasParent =
      (s.dict j).hasParent := by
  unfold State.setDict State.dict
  rw [List.getD_eq_getElem?_getD, List.getD_eq_getElem?_getD, List.getElem?_modify]
  cases s.dicts[j]? with
  | none => rfl
  | some d =>
    by_cases hij : i = j
    · simp [hij]
    · simp [hij]

theorem adopt_fault {j : Nat} :
    (s.adopt env dict j).2 =
      if (s.dict j).hasParent then none else if dict = none then some .segv else none := by
  unfold State.adopt
  split_ifs <;> rfl

/-- A directory entry that is not left out ends as the attachment of its object does. -/
theorem direntry_fault {len : Nat} (hlen : entryNameOff ≤ len)
    (hzero : UInt64.ofNat (field ondisk 0 8) ≠ 0)
    (hroot : UInt64.ofNat (field ondisk 0 8) ≠ objidRoot) :
    (s.direntry env dict pfsId len ondisk).2 =
      if ((s.getDict (UInt64.ofNat (field ondisk 0 8)) pfsId).1.dict
          (s.getDict (UInt64.ofNat (field ondisk 0 8)) pfsId).2).hasParent then none
      else if dict = none then some .segv else none := by
  unfold State.direntry
  dsimp only
  rw [if_neg (by omega), if_neg (not_or.mpr ⟨hzero, hroot⟩)]
  split
  · next h =>
      rw [adopt_fault, hasParent_setName] at h
      exact h.symm
  · next h =>
      rw [adopt_fault, hasParent_setName] at h
      exact h.symm

theorem direntry_skipped {len : Nat}
    (h : ¬ (entryNameOff ≤ len ∧ UInt64.ofNat (field ondisk 0 8) ≠ 0 ∧
      UInt64.ofNat (field ondisk 0 8) ≠ objidRoot)) :
    (s.direntry env dict pfsId len ondisk).2 = none := by
  unfold State.direntry
  dsimp only
  split_ifs with hlen hobj
  · rfl
  · rfl
  · exact absurd ⟨by omega, not_or.mp hobj⟩ h

theorem direntry_none {len : Nat} :
    (s.direntry env none pfsId len ondisk).2 = none ↔
      (entryNameOff ≤ len → UInt64.ofNat (field ondisk 0 8) ≠ 0 →
        UInt64.ofNat (field ondisk 0 8) ≠ objidRoot →
          Attached s.dicts (UInt64.ofNat (field ondisk 0 8)) pfsId) := by
  by_cases h : entryNameOff ≤ len ∧ UInt64.ofNat (field ondisk 0 8) ≠ 0 ∧
      UInt64.ofNat (field ondisk 0 8) ≠ objidRoot
  · rw [direntry_fault h.1 h.2.1 h.2.2, ← hasParent_getDict]
    split_ifs with hp
    · exact iff_of_true rfl fun _ _ _ => hp
    · exact iff_of_false (fun e => by cases e) fun e => hp (e h.1 h.2.1 h.2.2)
    · exact absurd rfl ‹¬ none = none›
  · exact iff_of_true (direntry_skipped h) fun h1 h2 h3 => absurd ⟨h1, h2, h3⟩ h

theorem direntry_some {i : Nat} {len : Nat} :
    (s.direntry env (some i) pfsId len ondisk).2 = none := by
  by_cases h : entryNameOff ≤ len ∧ UInt64.ofNat (field ondisk 0 8) ≠ 0 ∧
      UInt64.ofNat (field ondisk 0 8) ≠ objidRoot
  · have hsome : ¬ some i = none := Option.some_ne_none i
    rw [direntry_fault h.1 h.2.1 h.2.2, if_neg hsome, ite_self]
  · exact direntry_skipped h

/-! ### Data -/

/-- A host on which every file is there and can be opened. -/
def fullHost : Host where
  files _ := some 0
  bytes _ := []
  dirs := []
  next := 1
  lt_next _ ino h := by
    cases h
    exact Nat.zero_lt_one

def fullSys : Sys := ⟨fun _ _ => true, fun _ _ => true, fun _ _ h => h, fun _ _ h => h⟩

theorem ready_cached (env : Env) (s : State) (i : Nat) : (s.ready env i).cached = s.cached :=
  (State.makeDir_frame _ _).2.2.2

theorem openFile_full {p : Path} (hfiles : s.host.files = fullHost.files) (hc : s.cached = none)
    (hsys : env.sys = fullSys) : ∃ r, s.openFile env p = some r := by
  unfold State.openFile
  rw [hc]
  unfold Sys.open
  rw [hfiles, hsys]
  exact ⟨_, rfl⟩

theorem data_fault_of_opened {i : Nat} (hlen : 0 < leaf.dataLen.toNat) (hone : OneBuffer leaf)
    (hopen : ∃ r, (s.ready env i).openFile env ((s.ready env i).path env i) = some r)
    (hnext : env.disk.next leaf.nextOffset = .dies) :
    (s.data env i leaf ondisk).2 ≠ none := by
  obtain ⟨r, hr⟩ := hopen
  unfold State.data
  dsimp only
  rw [hr]
  obtain ⟨cached, -, hdies⟩ := (r.2.setDict i fun d => { d with madeFile := true }).store_oneBuffer
    env i ((s.ready env i).path env i) r.1 ondisk hlen hone
  exact hdies hnext

theorem store_empty {i : Nat} {p : Path} {fd : Fd} (hlen : leaf.dataLen.toNat = 0) :
    (s.store env i p fd leaf ondisk).2 = none := by
  unfold State.store
  dsimp only
  rw [hlen, Writing.run, dif_pos rfl]

theorem data_no_fault {i : Nat} (hone : OneBuffer leaf)
    (hnext : 0 < leaf.dataLen → env.disk.next leaf.nextOffset ≠ .dies) :
    (s.data env i leaf ondisk).2 = none := by
  unfold State.data
  dsimp only
  split
  · rfl
  · next r hr =>
      by_cases hlen : 0 < leaf.dataLen.toNat
      · obtain ⟨cached, hstore, -⟩ :=
          (r.2.setDict i fun d => { d with madeFile := true }).store_oneBuffer env i
            ((s.ready env i).path env i) r.1 ondisk hlen hone
        rw [hstore (hnext (by omega))]
      · exact store_empty (by omega)

end Records

/-! ## Survival -/

section Survival

variable {vols : Volumes} {depth z2 : Nat} {b : Cache.Block} {leaf : Leaf} {dicts : List Dict}

/-- recover_elm returns for the record, whatever the target directory, the host and the files
    open so far are. -/
def Survives (vols : Volumes) (depth : Nat) (dicts : List Dict) (leaf : Leaf) : Prop :=
  ∀ targetDir sys cached host calls,
    (recoverElm ⟨targetDir, vols.diskFor depth leaf, sys⟩ ⟨dicts, cached, host, calls⟩ leaf).2
      = none

/-- A record that is left out by the filters. -/
theorem survives_of_skipped (h : readLeaf (vols.diskFor depth leaf) leaf = .ok none) :
    Survives vols depth dicts leaf := by
  intro targetDir sys cached host calls
  unfold recoverElm
  rw [h]

theorem survives_zero_iff (ht : Taken vols depth leaf z2 b) (hobj : leaf.objId = 0) :
    Survives vols (depth + 1) dicts leaf ↔ ZeroOk dicts leaf (vols.ondisk leaf b) := by
  unfold Survives recoverElm
  simp only [readLeaf_taken ht, if_pos hobj]
  cases hr : leaf.recType with
  | inode =>
    exact iff_of_false (fun h => by cases h [] fullSys none fullHost []) fun h => h.inode hr
  | data => exact iff_of_true (fun _ _ _ _ _ => rfl) ⟨by rw [hr]; nofun, by rw [hr]; nofun⟩
  | other => exact iff_of_true (fun _ _ _ _ _ => rfl) ⟨by rw [hr]; nofun, by rw [hr]; nofun⟩
  | direntry =>
    constructor
    · exact fun h => ⟨by rw [hr]; nofun, fun _ =>
        direntry_none.mp (h [] fullSys none fullHost [])⟩
    · exact fun h _ _ _ _ _ => direntry_none.mpr (h.direntry hr)

theorem survives_object_iff (ht : Taken vols depth leaf z2 b) (hobj : leaf.objId ≠ 0) :
    Survives vols (depth + 1) dicts leaf ↔
      (leaf.recType = .data → 0 < leaf.dataLen → vols.SafeNext depth z2 leaf.nextOffset) := by
  unfold Survives recoverElm
  simp only [readLeaf_taken ht, if_neg hobj]
  cases hr : leaf.recType with
  | inode => exact iff_of_true (fun _ _ _ _ _ => rfl) nofun
  | other => exact iff_of_true (fun _ _ _ _ _ => rfl) nofun
  | direntry => exact iff_of_true (fun _ _ _ _ _ => direntry_some) nofun
  | data =>
    rw [← buffer_next ht.buffer]
    constructor
    · intro h _ hlen hdies
      -- on a host where every file is there, the record is written
      refine data_fault_of_opened (by omega) ht.fits ?_ hdies (h [] fullSys none fullHost [])
      obtain ⟨-, hfiles, -⟩ := State.ready_frame ⟨[], vols.diskFor (depth + 1) leaf, fullSys⟩
        (State.getDict ⟨dicts, none, fullHost, []⟩ leaf.objId (loToPfs leaf.localization)).1
        (State.getDict ⟨dicts, none, fullHost, []⟩ leaf.objId (loToPfs leaf.localization)).2
      exact openFile_full hfiles (ready_cached _ _ _) rfl
    · exact fun h _ _ _ _ _ => data_no_fault ht.fits (h rfl)

theorem harmless_of_not_taken (hsafe : Considered vols leaf → vols.Safe depth leaf.dataOffset)
    (h : ∀ z2 b, ¬ Taken vols depth leaf z2 b) : Harmless vols depth dicts leaf :=
  ⟨hsafe, fun z2 b ht => absurd ht (h z2 b), fun z2 b ht => absurd ht (h z2 b)⟩

theorem Taken.unique {z2' : Nat} {b' : Cache.Block} (h : Taken vols depth leaf z2 b)
    (h' : Taken vols depth leaf z2' b') : z2' = z2 ∧ b' = b := by
  have hbuffer := h'.buffer
  rw [h.buffer] at hbuffer
  cases hbuffer
  exact ⟨rfl, rfl⟩

/-- A record that gets to the dictionary. -/
theorem harmless_iff_of_taken (ht : Taken vols depth leaf z2 b) :
    Harmless vols depth dicts leaf ↔ Survives vols (depth + 1) dicts leaf := by
  have hsafe : vols.Safe depth leaf.dataOffset := getBuffer_ok_iff.mp ⟨_, ht.buffer⟩
  by_cases hobj : leaf.objId = 0
  · rw [survives_zero_iff ht hobj]
    refine ⟨fun h => h.zero z2 b ht hobj, fun h => ⟨fun _ => hsafe, fun z2' b' ht' _ => ?_,
      fun _ _ _ hne => absurd hobj hne⟩⟩
    obtain ⟨rfl, rfl⟩ := ht.unique ht'
    exact h
  · rw [survives_object_iff ht hobj]
    refine ⟨fun h => h.next z2 b ht hobj, fun h => ⟨fun _ => hsafe,
      fun _ _ _ hz => absurd hz hobj, fun z2' b' ht' _ => ?_⟩⟩
    obtain ⟨rfl, rfl⟩ := ht.unique ht'
    exact h

/-- The records that recover_elm survives, with the dictionary and the volumes as they are. -/
theorem recoverElm_survives_iff (vols : Volumes) (depth : Nat) (dicts : List Dict) (leaf : Leaf) :
    Survives vols (depth + 1) dicts leaf ↔ Harmless vols depth dicts leaf := by
  by_cases hc : Considered vols leaf
  · cases hget : vols.getBuffer (depth + 1) leaf.dataOffset with
    | error e =>
      refine iff_of_false (fun h => ?_) fun h => ?_
      · have hfault := h [] fullSys none fullHost []
        unfold recoverElm at hfault
        simp only [readLeaf_of_considered hc, getBufferData_of_error hget] at hfault
        cases hfault
      · obtain ⟨o, ho⟩ := getBuffer_ok_iff.mpr (h.data hc)
        rw [hget] at ho
        cases ho
    | ok o =>
      have hsafe : vols.Safe depth leaf.dataOffset := getBuffer_ok_iff.mp ⟨o, hget⟩
      cases o with
      | none =>
        refine iff_of_true (survives_of_skipped ?_)
          (harmless_of_not_taken (fun _ => hsafe) fun z2 b ht => ?_)
        · rw [readLeaf_of_considered hc, getBufferData_of_none hget]
        · have hbuffer := ht.buffer
          rw [hget] at hbuffer
          cases hbuffer
      | some r =>
        by_cases hfit : (0 ≤ leaf.dataLen ∧ leaf.dataLen ≤ 65536) ∧ OneBuffer leaf
        · exact (harmless_iff_of_taken ⟨hc, hget, hfit.1, hfit.2⟩).symm
        · refine iff_of_true (survives_of_skipped ?_)
            (harmless_of_not_taken (fun _ => hsafe) fun z2 b ht => hfit ⟨ht.len, ht.fits⟩)
          rw [readLeaf_of_considered hc, getBufferData_of_some hget]
          refine if_pos ?_
          have hmod := Nat.mod_lt leaf.dataOffset (show 0 < bufSize by decide)
          unfold OneBuffer at hfit
          omega
  · exact iff_of_true (survives_of_skipped (readLeaf_of_not_considered hc))
      (harmless_of_not_taken (fun h => absurd h hc) fun _ _ ht => hc ht.considered)

end Survival

/-- One volume of two blocks: a layer 1 entry that leads to the other block, and a layer 2 entry
    that gives the big-block to the freemap. -/
def twoBlocks : Volumes where
  get v :=
    if v = 0 then some ⟨0, true, ⟨0, 2 * bufSize, fun _ => ⟨zoneEncode 2 0, 0⟩,
      fun _ => rawBuffer 0 0, fun _ => 0⟩⟩
    else none
  read _ off := some fun i =>
    if off = 0 then (if i.val = 9 then 0x40 else if i.val = 15 then 0x20 else 0)
    else (if i.val = 0 then 4 else 0)
  beyond _ := 0

/-- An inode of object 0 uses an entry that is not there, and data in a big-block of the freemap,
    by its offset in that zone, makes get_buffer fail an assertion. -/
theorem recoverElm_crashes :
    ¬ Survives twoBlocks 1 [] ⟨0, 0, .inode, 0, 0, zoneEncode 2 0, 128⟩ ∧
      twoBlocks.getBuffer 2 (zoneEncode zoneFreemapIndex 0) = .error .assertion ∧
      ¬ Survives twoBlocks 2 [] ⟨2, 128, .data, 0, 0, zoneEncode zoneFreemapIndex 0, 128⟩ := by
  refine ⟨fun h => ?_, rfl, fun h => ?_⟩
  · exact absurd (h [] fullSys none fullHost []) (by decide +kernel)
  · exact absurd (h [] fullSys none fullHost []) (by decide +kernel)

end Lh1.Hammer.Recover
