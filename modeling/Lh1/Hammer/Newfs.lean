/-
  newfs_hammer: the layout of a volume, and its formatting (`format_volume` of newfs_hammer.c and
  the rest of the formatting code of ondisk.c).

  The program starts with whatever the volumes hold. What is left out: the parsing of options,
  which gives the sizes of `Config`, the names, identifiers and times that are written, which no
  function of this development reads, and the TRIM of a block device. The CRC of a B-Tree node is
  a parameter, a function of the format version and of the node's contents.
-/
import Lh1.Hammer.Freemap

namespace Lh1.Hammer

open Lib

/-! ## Sizes -/

/-- The sizes of the areas in front of the buffers and of the UNDO FIFO, with
    `ForceOpt` and the format version. -/
structure Config where
  force : Bool
  headerJunk : Int
  bootArea : Int
  memoryLog : Int
  undoBuffer : Int
  version : Nat

/-- `sizeof(struct hammer_volume_ondisk)`. -/
def headerSize : Nat := 1928

/-- `vol_buf_beg`, the end of header, boot area and memory log. -/
def Config.bufBeg (c : Config) : Int := (c.headerJunk + c.bootArea + c.memoryLog).bmod (2 ^ 64)

/-! ## The root volume -/

/-- `format_blockmap`. -/
def formatBlockmap (zone : Nat) : HamM Unit := do
  check (isIndexRecord zone) .assert
  setNext zone (zoneEncode zone 0)

/-- The size of the UNDO FIFO that `format_undomap` settles on. -/
def undoLimit (bufSize undoBuffer : Int) : Nat :=
  let n := (undoBuffer % 2 ^ 64).toNat
  let n := if n = 0 then max (bufSize / 1000).toNat (bigblockSize * 64) else n
  let n := (n + (bigblockSize - 1)) % 2 ^ 64 / bigblockSize * bigblockSize
  min (max n bigblockSize) (bigblockSize * 128)

/-- `HAMMER_UNDO_ALIGN`, the size of the records a new UNDO FIFO is filled with. -/
def undoAlign : Nat := 512

def headTypeDummy : Nat := 0x41

/-- `hammer_xlate_to_undo`. -/
def Fs.xlateToUndo (fs : Fs) (off : Nat) : Nat :=
  fs.undoArray (shortOff off / bigblockSize) + off % bigblockSize

def formatUndoRecord (i : Nat) : HamM Unit :=
  modify fun fs => { fs with
    heads := Function.update fs.heads (fs.xlateToUndo (zoneEncode zoneUndoIndex (i * undoAlign)))
      ⟨headTypeDummy, undoAlign, i % 2 ^ 32⟩ }

def setUndoArray (n off : Nat) : HamM Unit :=
  modify fun fs => { fs with undoArray := Function.update fs.undoArray n off }

def formatUndomap (v : Nat) (undoBuffer : Int) : HamM Unit := do
  check (v = 0) .assert
  let vol := (← get).vols v
  let limit := undoLimit (vol.bufEnd - vol.bufBeg) undoBuffer
  modify fun fs => { fs with undoAlloc := zoneEncode zoneUndoIndex limit }
  check (limit / bigblockSize ≤ 128) .assert
  loop 128 (fun n _ =>
    if n < limit / bigblockSize then do
      let off ← allocUndoBigblock v
      setUndoArray n off
    else setUndoArray n unavail) ()
  loop (limit / undoAlign) (fun i _ => formatUndoRecord i) ()

/-- Sizes of a B-Tree node, of inode data and of PFS data, and the record types of the two. -/
def nodeSize : Nat := 4096

def inodeDataSize : Nat := 128

def pfsDataSize : Nat := 292

def rectypeInode : Nat := 0x01

def rectypePfs : Nat := 0x15

/-- The CRC of a B-Tree node, by format version. -/
abbrev NodeCrc := Nat → Char → List Elm → Nat

def formatRootDirectory (crc : NodeCrc) : HamM Nat := do
  let btree ← allocBlockmap RecordZone.btree.index nodeSize
  let idata ← allocBlockmap RecordZone.metadata.index inodeDataSize
  let pfsd ← allocBlockmap RecordZone.metadata.index pfsDataSize
  let elms := [⟨rectypeInode, idata, inodeDataSize⟩, ⟨rectypePfs, pfsd, pfsDataSize⟩]
  modify fun fs => { fs with
    nodes := Function.update fs.nodes (xlateToZone2 btree) ⟨'L', elms, crc fs.version 'L' elms⟩ }
  pure btree

def formatRootVolume (crc : NodeCrc) (c : Config) : HamM Unit := do
  let blocks ← countFreemap 0
  check (c.force = true ∨ 10 * 1024 * 1024 * 1024 ≤ blocks * bigblockSize) .exit
  formatFreemap 0
  check ((← get).freeBigblocks = 0) .assert
  let blocks ← initializeFreemap 0
  modify fun fs => { fs with freeBigblocks := (blocks : Int) }
  loop 16 (fun z _ => if isIndexRecord z then formatBlockmap z else pure ()) ()
  formatUndomap 0 c.undoBuffer
  check ((← get).bigblocks = 0) .assert
  modify fun fs => { fs with bigblocks := fs.freeBigblocks }
  let root ← formatRootDirectory crc
  modify fun fs => { fs with btreeRoot := root }

/-! ## Volumes -/

/-- The part of `format_volume` before the freemap: where the buffers of the volume are. -/
def layoutVolume (c : Config) (v size : Nat) : HamM Unit := do
  let bufEnd : Int := size / bufSize * bufSize
  let bytes := (bufEnd - c.bufBeg).bmod (2 ^ 64)
  check (headerSize ≤ bytes) .exit
  check (bytes < 2 ^ 52) .exit
  setVolume v ⟨c.bufBeg, bufEnd, rawBuffer v 0,
    rawBuffer v (bytes.toNat / bigblockSize * bigblockSize)⟩

def formatVolume (crc : NodeCrc) (c : Config) (v size : Nat) : HamM Unit := do
  layoutVolume c v size
  if v = 0 then formatRootVolume crc c
  else do
    let blocks ← initializeFreemap v
    modify fun fs => { fs.addFree blocks with bigblocks := fs.bigblocks + blocks }

end Lh1.Hammer
