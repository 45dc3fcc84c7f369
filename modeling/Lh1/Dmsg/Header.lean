/-
  The dmsg message header (sys/sys/dmsg.h): constants, the 64-byte core header, its bytes
  in memory, and the byte swap of a header sent by a peer of the other endianness.

  * `DmsgHdr` is `struct dmsg_hdr`, field by field. `DmsgHdr.bytes` lays it out at the
    source's offsets (little endian), `DmsgHdr.ofBytes` reads it back.
  * `ofBytes_bytes`: decoding undoes encoding.
  * `doalign32` is `DMSG_DOALIGN` at type `uint32_t` (it wraps), `doalign` at `size_t`.
    `doalign32_toNat` says when the two agree: up to `2 ^ 32 - 64`.
-/
import Lh1.Lib.Bytes

namespace Lh1.Dmsg

open Lh1.Lib

/-! ## Constants -/

def dmsgHdrMagic : UInt16 := 0x4832
def dmsgHdrMagicRev : UInt16 := 0x3248

/-- `sizeof(struct dmsg_hdr)`. -/
def dmsgHdrSize : Nat := 64

/-- `DMSG_HDR_MAX`, which is `sizeof(union dmsg_any)`. -/
def dmsgHdrMax : Nat := 2048
def dmsgAuxMax : Nat := 1024 * 1024
def dmsgBufSize : Nat := dmsgHdrMax * 4
def dmsgAlign : Nat := 64

/-- `DMSGF_SIZE`: the low byte of `cmd` is the header size in units of `DMSG_ALIGN`. -/
def dmsgfSize : UInt32 := 0xFF

/-- `(cmd & DMSGF_SIZE) * DMSG_ALIGN`. -/
def hbytesOf (cmd : UInt32) : Nat := (cmd &&& dmsgfSize).toNat * dmsgAlign

/-- `DMSG_DOALIGN` on a `size_t` (no `size_t` here comes near `2 ^ 64`). -/
def doalign (bytes : Nat) : Nat := (bytes + (dmsgAlign - 1)) / dmsgAlign * dmsgAlign

/-- `DMSG_DOALIGN` on a `uint32_t`: the addition wraps. -/
def doalign32 (bytes : UInt32) : UInt32 := (bytes + 63) &&& ~~~63

theorem land_not_63 (n : Nat) (h : n < 2 ^ 32) : n &&& 4294967232 = n / 64 * 64 := by
  apply Nat.eq_of_testBit_eq
  intro i
  have hmask : (4294967232 : Nat) = (2 ^ 26 - 1) <<< 6 := by decide
  have hdiv : n / 64 * 64 = (n >>> 6) <<< 6 := by
    rw [Nat.shiftRight_eq_div_pow, Nat.shiftLeft_eq]
  rw [hmask, hdiv, Nat.testBit_land, Nat.testBit_shiftLeft, Nat.testBit_shiftLeft,
    Nat.testBit_two_pow_sub_one, Nat.testBit_shiftRight]
  by_cases h6 : 6 ≤ i
  · have hi : 6 + (i - 6) = i := by omega
    by_cases h32 : i < 32
    · simp [h6, hi, show i - 6 < 26 by omega]
    · have hbit : n.testBit i = false :=
        Nat.testBit_lt_two_pow (Nat.lt_of_lt_of_le h (Nat.pow_le_pow_right (by decide) (by omega)))
      simp [hi, hbit]
  · simp [h6]

theorem doalign32_toNat_mod (x : UInt32) :
    (doalign32 x).toNat = (x.toNat + 63) % 2 ^ 32 / 64 * 64 := by
  have hmask : (~~~(63 : UInt32)).toNat = 4294967232 := by decide
  rw [doalign32, UInt32.toNat_and, hmask, UInt32.toNat_add,
    land_not_63 _ (Nat.mod_lt _ (by decide))]
  rfl

/-- The 32-bit alignment is the exact one up to `2 ^ 32 - 64`. -/
theorem doalign32_toNat (x : UInt32) (h : x.toNat ≤ 2 ^ 32 - 64) :
    (doalign32 x).toNat = doalign x.toNat := by
  rw [doalign32_toNat_mod, Nat.mod_eq_of_lt (by omega)]
  rfl

theorem doalign_eq_zero (n : Nat) : doalign n = 0 ↔ n = 0 := by
  unfold doalign dmsgAlign
  omega

/-- The limit is itself aligned, so the check on the aligned size bounds the size. -/
theorem doalign_le_auxMax (n : Nat) : doalign n ≤ dmsgAuxMax ↔ n ≤ dmsgAuxMax := by
  unfold doalign dmsgAlign dmsgAuxMax
  omega

/-! ## The core header -/

/-- `struct dmsg_hdr`. -/
structure DmsgHdr where
  magic : UInt16
  reserved02 : UInt16
  salt : UInt32
  msgid : UInt64
  circuit : UInt64
  linkVerifier : UInt64
  cmd : UInt32
  auxCrc : UInt32
  auxBytes : UInt32
  error : UInt32
  auxDescr : UInt64
  reserved38 : UInt32
  hdrCrc : UInt32
  deriving DecidableEq, Repr

/-- The header as it stands in memory. -/
def DmsgHdr.bytes (h : DmsgHdr) : List UInt8 :=
  toLE 2 h.magic.toNat ++ toLE 2 h.reserved02.toNat ++ toLE 4 h.salt.toNat ++
  toLE 8 h.msgid.toNat ++ toLE 8 h.circuit.toNat ++ toLE 8 h.linkVerifier.toNat ++
  toLE 4 h.cmd.toNat ++ toLE 4 h.auxCrc.toNat ++ toLE 4 h.auxBytes.toNat ++
  toLE 4 h.error.toNat ++ toLE 8 h.auxDescr.toNat ++ toLE 4 h.reserved38.toNat ++
  toLE 4 h.hdrCrc.toNat

def u16At (bs : List UInt8) (i : Nat) : UInt16 := UInt16.ofNat (fromLE (slice bs i (i + 2)))
def u32At (bs : List UInt8) (i : Nat) : UInt32 := UInt32.ofNat (fromLE (slice bs i (i + 4)))
def u64At (bs : List UInt8) (i : Nat) : UInt64 := UInt64.ofNat (fromLE (slice bs i (i + 8)))

/-- Reading `*(dmsg_hdr_t *)bs`. -/
def DmsgHdr.ofBytes (bs : List UInt8) : DmsgHdr where
  magic := u16At bs 0x00
  reserved02 := u16At bs 0x02
  salt := u32At bs 0x04
  msgid := u64At bs 0x08
  circuit := u64At bs 0x10
  linkVerifier := u64At bs 0x18
  cmd := u32At bs 0x20
  auxCrc := u32At bs 0x24
  auxBytes := u32At bs 0x28
  error := u32At bs 0x2C
  auxDescr := u64At bs 0x30
  reserved38 := u32At bs 0x38
  hdrCrc := u32At bs 0x3C

@[simp] theorem DmsgHdr.length_bytes (h : DmsgHdr) : h.bytes.length = dmsgHdrSize := by
  simp [DmsgHdr.bytes, dmsgHdrSize]

theorem ofNat16_fromLE_toLE (x : UInt16) : UInt16.ofNat (fromLE (toLE 2 x.toNat)) = x := by
  rw [fromLE_toLE 2 _ x.toNat_lt, UInt16.ofNat_toNat]

theorem ofNat32_fromLE_toLE (x : UInt32) : UInt32.ofNat (fromLE (toLE 4 x.toNat)) = x := by
  rw [fromLE_toLE 4 _ x.toNat_lt, UInt32.ofNat_toNat]

theorem ofNat64_fromLE_toLE (x : UInt64) : UInt64.ofNat (fromLE (toLE 8 x.toNat)) = x := by
  rw [fromLE_toLE 8 _ x.toNat_lt, UInt64.ofNat_toNat]

theorem DmsgHdr.ofBytes_bytes (h : DmsgHdr) (rest : List UInt8) :
    DmsgHdr.ofBytes (h.bytes ++ rest) = h := by
  cases h
  simp [DmsgHdr.ofBytes, DmsgHdr.bytes, u16At, u32At, u64At, slice, List.drop_append,
    ofNat16_fromLE_toLE, ofNat32_fromLE_toLE, ofNat64_fromLE_toLE]

/-! ## Byte order -/

def bswap16 (x : UInt16) : UInt16 := UInt16.ofNat (bswap 2 x.toNat)
def bswap32 (x : UInt32) : UInt32 := UInt32.ofNat (bswap 4 x.toNat)
def bswap64 (x : UInt64) : UInt64 := UInt64.ofNat (bswap 8 x.toNat)

/-- `dmsg_bswap_head`. The extended header is not adjusted. -/
def dmsgBswapHead (h : DmsgHdr) : DmsgHdr where
  magic := bswap16 h.magic
  reserved02 := bswap16 h.reserved02
  salt := bswap32 h.salt
  msgid := bswap64 h.msgid
  circuit := bswap64 h.circuit
  linkVerifier := bswap64 h.linkVerifier
  cmd := bswap32 h.cmd
  auxCrc := bswap32 h.auxCrc
  auxBytes := bswap32 h.auxBytes
  error := bswap32 h.error
  auxDescr := bswap64 h.auxDescr
  reserved38 := bswap32 h.reserved38
  hdrCrc := bswap32 h.hdrCrc

end Lh1.Dmsg
