/-
  The buffer cache of hammer(8) and newfs_hammer(8) (sbin/hammer/ondisk.c and cache.c).

  A buffer is a 16 KB block of zone 2. Buffers are on two kinds of lists: `CacheList`, which has
  them in the order they will be looked at for eviction, and the hash lists of the volumes, by
  which they are found. What releases, flushes and evicts buffers is modelled, and where an offset
  is translated to.

  The volumes and their headers are given (`Config`), as are the settings of the readahead and
  which calls of `pread` and `pwrite` succeed. `CacheUse` and `CacheMax` are of type `int`.
  A failed assertion, an exit with an error message and the use of a pointer to a buffer that was
  freed are the ways to fail.
-/
import Lh1.Hammer.Layout
import Lh1.Lib.Fallible
import Lh1.Lib.Image
import Lh1.Lib.Store

namespace Lh1.Hammer.Cache

open Lib

/-! ## Volumes and buffers -/

/-- The contents of a buffer. -/
abbrev Block := Fin bufSize → UInt8

/-- The word of `w` bytes at `o`, as far as the buffer goes. -/
def Block.word (b : Block) (o w : Nat) : Nat :=
  fromLE ((List.range w).map fun i => if h : o + i < bufSize then b ⟨o + i, h⟩ else 0)

/-- `struct hammer_blockmap`: `phys_offset` and `alloc_offset`. -/
structure Blockmap where
  physOffset : Nat
  allocOffset : Nat

/-- `struct hammer_volume_ondisk`: the fields the cache reads, and the header as it is written. -/
structure VolumeOndisk where
  volBufBeg : Int
  volBufEnd : Int
  vol0Blockmap : Nat → Blockmap
  vol0UndoArray : Nat → Nat
  bytes : Block

/-- `struct volume_info`. -/
structure VolumeInfo where
  volNo : Nat
  rdonly : Bool
  ondisk : VolumeOndisk

/-- `VolList`, the readahead, and whether the I/O call with a number succeeds. -/
structure Config where
  volList : List VolumeInfo
  useReadBehind : Int
  useReadAhead : Int
  ioOk : Nat → Bool

abbrev Ptr := Nat

/-- `struct buffer_info` with its `struct cache_info`. -/
structure BufferInfo where
  refs : Nat
  modified : Bool
  delete : Bool
  zone2Offset : Nat
  rawOffset : Int
  volume : VolumeInfo
  ondisk : Block

/-- The buffers, `CacheList` from head to tail, the hash lists of each volume, the two counters
    and what is on the volumes. `io` is the number of I/O calls so far. -/
structure State where
  heap : Store Ptr BufferInfo
  next : Ptr
  cacheList : List Ptr
  bufferLists : Nat → Nat → List Ptr
  cacheUse : Int
  cacheMax : Int
  disks : Nat → Image
  io : Nat

inductive Fault where
  | assertion
  | exit     -- err(1, ...)
  | wild     -- a freed buffer or a NULL volume
  | fuel     -- translations that need translations without end
  deriving DecidableEq, Repr

abbrev CacheM := StateT State (Except Fault)

def fail {α : Type} (e : Fault) : CacheM α := fun _ => .error e

def check (p : Prop) [Decidable p] (e : Fault) : CacheM Unit := if p then pure () else fail e

def deref (p : Ptr) : CacheM BufferInfo := fun s =>
  match s.heap.get p with
  | some b => .ok (b, s)
  | none => .error .wild

def update (p : Ptr) (f : BufferInfo → BufferInfo) : CacheM Unit := fun s =>
  match s.heap.get p with
  | some _ => .ok ((), { s with heap := s.heap.modify p f })
  | none => .error .wild

def blockOffset (off : Nat) : Nat := off / bufSize * bufSize

/-- `buffer_hash`. -/
def bufferHash (zone2Offset : Nat) : Nat := zone2Offset / bufSize % 64

/-- `hammer_xlate_to_phys`. -/
def VolumeOndisk.xlateToPhys (ondisk : VolumeOndisk) (zone2Offset : Nat) : Int :=
  ondisk.volBufBeg + shortOff zone2Offset

/-- `hammer_xlate_to_undo`. -/
def VolumeOndisk.xlateToUndo (ondisk : VolumeOndisk) (zone3Offset : Nat) : Nat :=
  (ondisk.vol0UndoArray (shortOff zone3Offset / bigblockSize) + zone3Offset % bigblockSize) % 2 ^ 64

section

variable (cfg : Config)

/-- `__write` of a buffer. On a volume opened read-only it does nothing. -/
def writeBlock (volume : VolumeInfo) (offset : Int) (data : Block) : CacheM Unit := fun s =>
  if volume.rdonly = true then .ok ((), s)
  else if 0 ≤ offset ∧ cfg.ioOk s.io = true then
    .ok ((), { s with
      disks := Function.update s.disks volume.volNo
        ((s.disks volume.volNo).write offset.toNat (List.ofFn data))
      io := s.io + 1 })
  else .error .exit

/-! ## The lists -/

def hammerCacheDel (p : Ptr) : CacheM Unit :=
  modify fun s => { s with
    cacheList := s.cacheList.erase p
    cacheUse := int32 (s.cacheUse - bufSize) }

def hammerCacheUsed (p : Ptr) : CacheM Unit :=
  modify fun s => { s with cacheList := s.cacheList.erase p ++ [p] }

def chainRemove (volNo hi : Nat) (p : Ptr) : CacheM Unit :=
  modify fun s => { s with
    bufferLists := Function.update s.bufferLists volNo
      (Function.update (s.bufferLists volNo) hi ((s.bufferLists volNo hi).erase p)) }

def free (p : Ptr) : CacheM Unit := modify fun s => { s with heap := s.heap.erase p }

/-! ## Releasing and flushing -/

def flushBuffer (p : Ptr) : CacheM Unit := do
  let b ← deref p
  writeBlock cfg b.volume b.rawOffset b.ondisk
  update p fun b => { b with modified := false }

def relBuffer : Option Ptr → CacheM Unit
  | none => pure ()
  | some p => do
    let b ← deref p
    check (0 < b.refs) .assertion
    update p fun b => { b with refs := b.refs - 1 }
    if b.refs = 1 ∧ b.delete = true then do
      (if b.modified = true then flushBuffer cfg p else pure ())
      chainRemove b.volume.volNo (bufferHash b.zone2Offset) p
      hammerCacheDel p
      free p
    else pure ()

/-- What `hammer_cache_flush` does with a buffer that has no references. -/
def evict (p : Ptr) : CacheM Unit := do
  update p fun b => { b with refs := 1, delete := true }
  relBuffer cfg (some p)

/-- `if (count >= (CacheUse / HAMMER_BUFSIZE))`, and the `count` it leaves. -/
def growCacheMax (count : Nat) : CacheM Nat := fun s =>
  if s.cacheUse.tdiv bufSize ≤ count then
    .ok (0, { s with cacheMax := int32 (s.cacheMax + bufSize * 512) })
  else .ok (count, s)

/-- The loop of `hammer_cache_flush`. A turn evicts the head of the list or moves it to the tail,
    and the first one that was moved ends the loop when it comes up again, so one turn more than
    there are buffers is enough. -/
def cacheFlushLoop : Nat → Option Ptr → Nat → CacheM Unit
  | 0, _, _ => fail .fuel
  | turns + 1, first, count => do
    match (← get).cacheList with
    | [] => pure ()
    | p :: _ =>
      if first = some p then pure ()
      else
        let b ← deref p
        if b.refs ≠ 0 then
          hammerCacheUsed p
          cacheFlushLoop turns (first.or (some p)) (count + 1)
        else
          let count ← growCacheMax count
          evict cfg p
          let s ← get
          if s.cacheUse < s.cacheMax.tdiv 2 then pure ()
          else cacheFlushLoop turns first count

def hammerCacheFlush : CacheM Unit := do
  let s ← get
  if s.cacheMax ≤ s.cacheUse then cacheFlushLoop cfg (s.cacheList.length + 1) none 0
  else pure ()

/-! ## Translation -/

/-- Where `blockmap_lookup` takes an offset, before it has looked at the freemap; nothing if it
    fails there. -/
def translate (ondisk : VolumeOndisk) (zoneOffset : Nat) : Option Nat :=
  let zone := zoneDecode zoneOffset
  let blockmap := ondisk.vol0Blockmap zone
  if isIndexRecord zone then
    if zoneDecode blockmap.allocOffset ≠ zone then none else some (xlateToZone2 zoneOffset)
  else if zone = zoneUndoIndex then
    if blockmap.allocOffset ≤ zoneOffset then none else some (ondisk.xlateToUndo zoneOffset)
  else some zoneOffset

end

end Lh1.Hammer.Cache
