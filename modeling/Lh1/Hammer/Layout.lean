/-
  Offsets of the HAMMER on-disk format.

  A 64-bit offset has a zone in its top 4 bits, then 8 bits of volume number and 52 bits of
  byte offset. The freemap is a two-level map over the low 60 bits: layer 1 has one entry for
  each 4 TB section, layer 2 one for each 8 MB big-block. Masks and shifts are written as
  division and remainder by the same powers of two.
-/
import Mathlib

namespace Lh1.Hammer

def bufSize : Nat := 16384

def bigblockSize : Nat := 8192 * 1024

/-- `HAMMER_BLOCKMAP_RADIX1` and `HAMMER_BLOCKMAP_RADIX2`: entries of 32 and of 16 bytes in a
    big-block. -/
def radix1 : Nat := bigblockSize / 32

def radix2 : Nat := bigblockSize / 16

/-- `HAMMER_BLOCKMAP_LAYER2`: what one layer 1 entry covers. -/
def layer2Span : Nat := radix2 * bigblockSize

/-- `HAMMER_BLOCKMAP_UNAVAIL`. -/
def unavail : Nat := 2 ^ 64 - 1

/-- The zones whose big-blocks `alloc_blockmap` hands out: B-Tree nodes, meta-data, large and
    small data. -/
inductive RecordZone where
  | btree
  | metadata
  | largeData
  | smallData
  deriving DecidableEq, Repr

def RecordZone.index : RecordZone → Nat
  | .btree => 8
  | .metadata => 9
  | .largeData => 10
  | .smallData => 11

def zoneUndoIndex : Nat := 3

def zoneFreemapIndex : Nat := 4

def zoneUnavailIndex : Nat := 15

/-- `hammer_is_index_record`. -/
def isIndexRecord (zone : Nat) : Prop := 8 ≤ zone ∧ zone < 16

instance (zone : Nat) : Decidable (isIndexRecord zone) := inferInstanceAs (Decidable (_ ∧ _))

def zoneEncode (zone off : Nat) : Nat := zone * 2 ^ 60 + off

def zoneDecode (off : Nat) : Nat := off / 2 ^ 60

/-- `HAMMER_OFF_SHORT_ENCODE` and `HAMMER_OFF_LONG_ENCODE`. -/
def shortOff (off : Nat) : Nat := off % 2 ^ 52

def longOff (off : Nat) : Nat := off % 2 ^ 60

/-- `HAMMER_VOL_DECODE`. -/
def volDecode (offset : Nat) : Nat := offset / 2 ^ 52 % 256

/-- `hammer_xlate_to_zone2`. -/
def xlateToZone2 (off : Nat) : Nat := zoneEncode 2 (longOff off)

/-- `HAMMER_ENCODE_RAW_BUFFER`. -/
def rawBuffer (vol off : Nat) : Nat := 2 * 2 ^ 60 + vol % 256 * 2 ^ 52 + off % 2 ^ 52

def layer1Index (off : Nat) : Nat := off % 2 ^ 60 / layer2Span

def layer2Index (off : Nat) : Nat := off % layer2Span / bigblockSize

/-- `HAMMER_DATA_DOALIGN`. -/
def dataAlign (bytes : Nat) : Nat := (bytes + 15) / 16 * 16

/-- `HAMMER_ZONE_LAYER2_NEXT_OFFSET`. -/
def layer2NextOffset (off : Nat) : Nat := (off + bigblockSize) / bigblockSize * bigblockSize

/-- How often `for (i = lo; i < hi; i += step)` runs. -/
def iterations (lo hi step : Nat) : Nat := (hi - lo + (step - 1)) / step

/-- What an `int` is after an operation that overflows. -/
def int32 (x : Int) : Int := x.bmod (2 ^ 32)

end Lh1.Hammer
