/-
  Blockrefs and the blocks they refer to (hammer2_disk.h, and read_media of fsck_hammer2/test.c).

  A blockref is its 128 bytes. Reading one goes through the table of volumes to a device, rounds the
  range to an I/O buffer of at least 16 KB and moves the block to the front of the buffer. The buffer
  is an automatic variable: what is not read from the device is what was on the stack, `stale`.

  * `State.getVolumeAttr_eq`: on a set of volumes that was accepted, `volumeAt` is the lookup of
    hammer2/ondisk.c.
  * `Blockref.whole_iff`: the blocks of which everything is read.
  * `Media.readMedia_aligned`: a block that is aligned to its size is read as it is on the device.
-/
import Lh1.Hammer2.Volumes

namespace Lh1.Hammer2

open Lib

/-! ## Blockrefs -/

/-- `HAMMER2_BREF_TYPE_*`. -/
inductive BrefType where
  | empty
  | inode
  | indirect
  | data
  | dirent
  | freemapNode
  | freemapLeaf
  | freemap
  | volume
  | other (byte : Nat)
  deriving DecidableEq, Repr

def BrefType.ofByte : Nat → BrefType
  | 0 => .empty
  | 1 => .inode
  | 2 => .indirect
  | 3 => .data
  | 4 => .dirent
  | 5 => .freemapNode
  | 6 => .freemapLeaf
  | 254 => .freemap
  | 255 => .volume
  | n => .other n

/-- `HAMMER2_CHECK_*`, as far as a check code is computed. -/
inductive CheckMethod where
  | none
  | iscsi32
  | xxhash64
  | sha192
  | freemap
  deriving DecidableEq, Repr

/-- `HAMMER2_DEC_CHECK` of the `methods` field. -/
def CheckMethod.ofByte (methods : Nat) : CheckMethod :=
  match methods / 16 % 16 with
  | 2 => .iscsi32
  | 3 => .xxhash64
  | 4 => .sha192
  | 5 => .freemap
  | _ => .none

/-- `struct hammer2_blockref`. -/
structure Blockref where
  bytes : List UInt8
  length : bytes.length = 128
  deriving DecidableEq

namespace Blockref

def type (b : Blockref) : BrefType := BrefType.ofByte (fromLE (slice b.bytes 0 1))
def method (b : Blockref) : CheckMethod := CheckMethod.ofByte (fromLE (slice b.bytes 1 2))
def dataOff (b : Blockref) : Nat := fromLE (slice b.bytes 32 40)

/-- `check.iscsi32.value` and `check.freemap.icrc32`. -/
def check32 (b : Blockref) : Nat := fromLE (slice b.bytes 64 68)

/-- `check.xxhash64.value`. -/
def check64 (b : Blockref) : Nat := fromLE (slice b.bytes 64 72)

/-- `check.sha192.data`. -/
def check192 (b : Blockref) : List UInt8 := slice b.bytes 64 88

/-- `data_off & HAMMER2_OFF_MASK_RADIX`. -/
def radix (b : Blockref) : Nat := b.dataOff % 64

/-- The size of the block, 0 when there is none. -/
def size (b : Blockref) : Nat := if b.radix = 0 then 0 else 2 ^ b.radix

/-- `data_off & ~HAMMER2_OFF_MASK_RADIX`. -/
def ioOff (b : Blockref) : Nat := b.dataOff - b.dataOff % 64

end Blockref

def blockrefAt (m : Image) (o : Nat) : Blockref := ⟨m.read o 128, Image.length_read⟩

def blockrefsAt (m : Image) (o n : Nat) : List Blockref :=
  (List.range n).map fun i => blockrefAt m (o + 128 * i)

/-! ## Looking up a volume -/

/-- The volume of `hammer2_get_volume_attr`, without its assertion and the bound of the table. -/
def Ondisk.volumeAt (fso : Ondisk) (offset : Nat) : Option Volume :=
  ((List.range fso.nvolumes).map fso.volumes).find? fun vol =>
    vol.offset ≤ offset - offset % 64 ∧ offset - offset % 64 < addOff vol.offset vol.size

theorem Ondisk.findVolume_eq_find (fso : Ondisk) (offset : Nat) {is : List Nat}
    (h : ∀ i ∈ is, i < maxVolumes) :
    fso.findVolume offset is = .ok ((is.map fso.volumes).find? fun vol =>
      vol.offset ≤ offset ∧ offset < addOff vol.offset vol.size) := by
  induction is with
  | nil => rfl
  | cons i is ih =>
    have hi : ¬ maxVolumes ≤ i := Nat.not_le.mpr (h i List.mem_cons_self)
    have his := ih fun j hj => h j (List.mem_cons_of_mem _ hj)
    rw [Ondisk.findVolume, if_neg hi, List.map_cons, List.find?_cons]
    split
    · rename_i hcov
      rw [decide_eq_true hcov]
    · rename_i hcov
      rw [decide_eq_false hcov]
      exact his

theorem State.getVolumeAttr_eq {s : State} (hinit : s.initialized = true)
    (hn : s.fso.nvolumes ≤ maxVolumes) (offset : Nat) :
    s.getVolumeAttr offset = .ok (s.fso.volumeAt offset) := by
  rw [State.getVolumeAttr, hinit]
  exact Ondisk.findVolume_eq_find _ _ fun i hi => (List.mem_range.mp hi).trans_le hn

/-! ## Reading a block -/

/-- Subtraction of `hammer2_off_t`. -/
def subOff (a b : Nat) : Nat := (a + 18446744073709551616 - b) % 18446744073709551616

/-- `HAMMER2_LBUFSIZE`. -/
def lbufSize : Nat := 16384

/-- What the program runs on: the volumes that were found, the devices, and what is on the stack
    where the buffer for a block is not filled. -/
structure Media where
  fso : Ondisk
  devs : Nat → Device
  stale : Nat → Image

/-- The results -1 and -2 of `read_media`. -/
inductive ReadError where
  | badIoBytes
  | readFailed
  deriving DecidableEq, Repr

/-- The loop that doubles `io_bytes`. A size is at most `2 ^ 63`, so it ends within 64 rounds. -/
def growIo (boff bytes : Nat) : Nat → Nat → Nat
  | 0, io => io
  | n + 1, io => if io + boff < bytes then growIo boff bytes n (2 * io) else io

def Blockref.ioBytes (b : Blockref) : Nat := growIo (b.ioOff % lbufSize) b.size 64 lbufSize

namespace Media

/-- `hammer2_get_volume_fd`. -/
def volumeFd (m : Media) (offset : Nat) : Int := (m.fso.volumeAt offset).elim (-1) Volume.fd

/-- `hammer2_get_volume_offset`. -/
def volumeOffset (m : Media) (offset : Nat) : Nat :=
  (m.fso.volumeAt offset).elim noOffset Volume.offset

/-- `lseek` and `read` on a descriptor: the device from there on, if all is returned. -/
def pread (m : Media) (fd : Int) (pos len : Nat) : Option Image :=
  if fd < 0 ∨ 9223372036854775808 ≤ pos ∨ ¬ (m.devs fd.toNat).Readable pos len then none
  else some ((m.devs fd.toNat).bytes.view pos)

/-- The buffer after `io` bytes at the front were read and the block was moved there. -/
def buffer (m : Media) (b : Blockref) (data : Image) : Image :=
  let io : Image := fun i => if i < b.ioBytes then data i else m.stale b.dataOff i
  if b.ioOff % lbufSize = 0 then io
  else fun i => if i < b.size then io (b.ioOff % lbufSize + i) else io i

/-- `read_media`: the size of the block and the buffer. -/
def readMedia (m : Media) (b : Blockref) : Except ReadError (Nat × Image) :=
  if b.size = 0 then .ok (0, m.stale b.dataOff)
  else if pbufSize < b.ioBytes then .error .badIoBytes
  else
    let ioBase := b.ioOff - b.ioOff % lbufSize
    match m.pread (m.volumeFd b.ioOff) (subOff ioBase (m.volumeOffset ioBase)) b.ioBytes with
    | none => .error .readFailed
    | some data => .ok (b.size, m.buffer b data)

end Media

/-! ## Blocks that are read as a whole -/

/-- The block is in the I/O buffer that is read for it: up to 16 KB it does not cross a multiple of
    16 KB, and a larger one begins at one. -/
def Blockref.Whole (b : Blockref) : Prop :=
  (b.size ≤ lbufSize → b.ioOff % lbufSize + b.size ≤ lbufSize) ∧
    (lbufSize < b.size → b.ioOff % lbufSize = 0)

instance (b : Blockref) : Decidable b.Whole := by
  unfold Blockref.Whole
  infer_instance

theorem growIo_of_le {boff bytes io : Nat} (h : bytes ≤ io + boff) (n : Nat) :
    growIo boff bytes n io = io := by
  cases n with
  | zero => rfl
  | succ n => rw [growIo, if_neg (by omega)]

theorem le_growIo (boff bytes n io : Nat) : io ≤ growIo boff bytes n io := by
  induction n generalizing io with
  | zero => exact le_rfl
  | succ n ih =>
    rw [growIo]
    split
    · exact (by omega : io ≤ 2 * io).trans (ih _)
    · exact le_rfl

theorem growIo_pow {boff r j n : Nat} (hboff : boff < lbufSize) (h14 : 14 ≤ j) (hj : j ≤ r)
    (hr : r ≤ j + n) : growIo boff (2 ^ r) n (2 ^ j) = 2 ^ r := by
  induction n generalizing j with
  | zero => rw [growIo, (by omega : j = r)]
  | succ n ih =>
    rw [growIo]
    rcases hj.eq_or_lt with rfl | hlt
    · rw [if_neg (by omega)]
    · have hle : 2 ^ (j + 1) ≤ 2 ^ r := Nat.pow_le_pow_right (by decide) hlt
      have hbuf : lbufSize ≤ 2 ^ j := Nat.pow_le_pow_right (n := 2) (by decide) h14
      have hdouble : 2 * 2 ^ j = 2 ^ (j + 1) := (Nat.pow_succ' (n := j)).symm
      rw [if_pos (by omega), hdouble, ih (by omega) hlt (by omega)]

theorem Blockref.whole_iff (b : Blockref) :
    b.Whole ↔ b.ioOff % lbufSize + b.size ≤ b.ioBytes := by
  have hmod : b.ioOff % lbufSize < lbufSize := Nat.mod_lt _ (by decide)
  unfold Blockref.Whole
  rcases Nat.lt_or_ge lbufSize b.size with hgt | hle
  · have hpow : b.size = 2 ^ b.radix := by
      unfold Blockref.size at hgt ⊢
      split at hgt
      · cases hgt
      · next h0 => rw [if_neg h0]
    have hradix : 14 ≤ b.radix := by
      by_contra hlt
      have hsmall : 2 ^ b.radix ≤ 2 ^ 14 := Nat.pow_le_pow_right (by decide) (by omega)
      rw [hpow] at hgt
      exact absurd hsmall (Nat.not_le.mpr hgt)
    have hlt : b.radix < 64 := Nat.mod_lt _ (by decide)
    have hio : b.ioBytes = b.size := by
      rw [Blockref.ioBytes, hpow]
      exact growIo_pow hmod (le_refl 14) hradix (by omega)
    rw [hio]
    omega
  · rw [Blockref.ioBytes, (growIo_of_le (by omega) 64 : _ = lbufSize)]
    omega

/-! ## Blocks that are aligned to their size -/

theorem subOff_of_le {a b : Nat} (hb : b ≤ a) (ha : a < 18446744073709551616) :
    subOff a b = a - b := by
  unfold subOff
  omega

variable {b : Blockref}

/-- A block that is aligned to its size is within the I/O buffer. -/
theorem Blockref.ioBytes_of_aligned (hmax : b.size ≤ pbufSize) (halign : b.size ∣ b.ioOff) :
    b.ioBytes = max lbufSize b.size ∧ b.ioOff % lbufSize + b.size ≤ max lbufSize b.size := by
  have hpow : b.size = 0 ∨ ∃ r, b.size = 2 ^ r := by
    unfold Blockref.size
    split
    · exact Or.inl rfl
    · exact Or.inr ⟨_, rfl⟩
  unfold Blockref.ioBytes
  rcases hpow with h0 | ⟨r, hr⟩
  · have hlt : b.ioOff % lbufSize < lbufSize := Nat.mod_lt _ (by decide)
    rw [h0, growIo_of_le (Nat.zero_le _)]
    omega
  have hr16 : r ≤ 16 := by
    have hle : 2 ^ r ≤ 2 ^ 16 := by rw [← hr]; exact hmax
    exact (Nat.pow_le_pow_iff_right (by decide)).mp hle
  rcases Nat.lt_or_ge 14 r with hr14 | hr14
  · -- larger than the smallest buffer, which then begins with the block
    have hdvd : lbufSize ∣ b.ioOff := (hr ▸ Nat.pow_dvd_pow 2 hr14.le : lbufSize ∣ b.size).trans halign
    rw [hr, Nat.mod_eq_zero_of_dvd hdvd]
    rcases (by omega : r = 15 ∨ r = 16) with rfl | rfl <;> decide
  · have hdvd : b.size ∣ lbufSize := hr ▸ Nat.pow_dvd_pow 2 hr14
    have hle : b.size ≤ lbufSize := Nat.le_of_dvd (by decide) hdvd
    rw [growIo_of_le (by omega), max_eq_left hle]
    obtain ⟨x, hx⟩ : b.size ∣ b.ioOff % lbufSize := (Nat.dvd_mod_iff hdvd).mpr halign
    obtain ⟨y, hy⟩ := hdvd
    have hlt : b.ioOff % lbufSize < lbufSize := Nat.mod_lt _ (by decide)
    refine ⟨rfl, ?_⟩
    have hxy : x + 1 ≤ y := by
      rw [hx, hy] at hlt
      exact Nat.lt_of_mul_lt_mul_left hlt
    calc b.ioOff % lbufSize + b.size = b.size * (x + 1) := by rw [hx, Nat.mul_succ]
      _ ≤ b.size * y := Nat.mul_le_mul_left _ hxy
      _ = lbufSize := hy.symm

/-- The block is at the front of the buffer, as far as it was in what was read. -/
theorem Media.buffer_apply (m : Media) (data : Image) {i : Nat} (hi : i < b.size) :
    m.buffer b data i = if b.ioOff % lbufSize + i < b.ioBytes then data (b.ioOff % lbufSize + i)
      else m.stale b.dataOff (b.ioOff % lbufSize + i) := by
  unfold Media.buffer
  dsimp only
  split
  · next hz => rw [hz, Nat.zero_add]
  · exact if_pos hi

/-- Of a block that is read as a whole, nothing is from the stack. -/
theorem Media.buffer_stale (m : Media) (h : b.Whole) (stale : Nat → Image) (data : Image) {i : Nat}
    (hi : i < b.size ∨ i < lbufSize) :
    Media.buffer { m with stale := stale } b data i = m.buffer b data i := by
  have hwhole := b.whole_iff.mp h
  have hio : lbufSize ≤ b.ioBytes := le_growIo ..
  unfold Media.buffer
  dsimp only
  split
  · dsimp only
    rw [if_pos (by omega), if_pos (by omega)]
  · dsimp only
    split
    · rw [if_pos (by omega), if_pos (by omega)]
    · rw [if_pos (by omega), if_pos (by omega)]

/-- A volume that a block can be read from: the I/O buffer is in it, and the device returns it. -/
structure Media.Serves (m : Media) (b : Blockref) (vol : Volume) : Prop where
  fits : b.ioBytes ≤ pbufSize
  found : m.fso.volumeAt b.ioOff = some vol
  base : m.fso.volumeAt (b.ioOff - b.ioOff % lbufSize) = some vol
  fd : 0 ≤ vol.fd
  offset : vol.offset ≤ b.ioOff - b.ioOff % lbufSize
  lt : b.ioOff - b.ioOff % lbufSize - vol.offset < 9223372036854775808
  readable : (m.devs vol.fd.toNat).Readable (b.ioOff - b.ioOff % lbufSize - vol.offset) b.ioBytes

theorem Blockref.ioOff_lt (b : Blockref) : b.ioOff < 18446744073709551616 := by
  have h := fromLE_lt (slice b.bytes 32 40)
  rw [length_slice b.bytes 32 40 (by rw [b.length]; decide)] at h
  exact (Nat.sub_le _ _).trans_lt h

theorem Media.Serves.pread {m : Media} {vol : Volume} (h : m.Serves b vol) :
    m.pread (m.volumeFd b.ioOff) (subOff (b.ioOff - b.ioOff % lbufSize)
        (m.volumeOffset (b.ioOff - b.ioOff % lbufSize))) b.ioBytes =
      some ((m.devs vol.fd.toNat).bytes.view (b.ioOff - b.ioOff % lbufSize - vol.offset)) := by
  have hlt := b.ioOff_lt
  unfold Media.volumeFd Media.volumeOffset
  rw [h.found, h.base, Option.elim_some, Option.elim_some, subOff_of_le h.offset (by omega),
    Media.pread, if_neg]
  rintro (hfd | hpos | hread)
  · exact absurd h.fd (not_le.mpr hfd)
  · exact absurd h.lt (not_lt.mpr hpos)
  · exact hread h.readable

theorem Media.Serves.readMedia {m : Media} {vol : Volume} (h : m.Serves b vol) (h0 : b.size ≠ 0) :
    m.readMedia b = .ok (b.size, m.buffer b
      ((m.devs vol.fd.toNat).bytes.view (b.ioOff - b.ioOff % lbufSize - vol.offset))) := by
  unfold Media.readMedia
  rw [if_neg h0, if_neg (Nat.not_lt.mpr h.fits)]
  dsimp only
  rw [h.pread]

/-- A block that is aligned to its size is read as it is on the device. -/
theorem Media.readMedia_aligned {m : Media} {vol : Volume} (h0 : b.size ≠ 0)
    (hmax : b.size ≤ pbufSize) (halign : b.size ∣ b.ioOff)
    (hvol : m.fso.volumeAt b.ioOff = some vol)
    (hbase : m.fso.volumeAt (b.ioOff - b.ioOff % lbufSize) = some vol) (hfd : 0 ≤ vol.fd)
    (hoff : vol.offset ≤ b.ioOff - b.ioOff % lbufSize) (hlt : b.ioOff < 2 ^ 63)
    (hread : (m.devs vol.fd.toNat).Readable (b.ioOff - b.ioOff % lbufSize - vol.offset)
      (max lbufSize b.size)) :
    ∃ buf, m.readMedia b = .ok (b.size, buf) ∧
      ∀ i < b.size, buf i = (m.devs vol.fd.toNat).bytes (b.ioOff - vol.offset + i) := by
  obtain ⟨hio, hfits⟩ := Blockref.ioBytes_of_aligned hmax halign
  have hserves : m.Serves b vol := {
    fits := by rw [hio]; exact max_le (by decide) hmax
    found := hvol
    base := hbase
    fd := hfd
    offset := hoff
    lt := by omega
    readable := by rwa [hio] }
  refine ⟨_, hserves.readMedia h0, fun i hi => ?_⟩
  have hmod : b.ioOff % lbufSize ≤ b.ioOff := Nat.mod_le _ _
  rw [Media.buffer_apply _ _ hi, if_pos (by omega), Image.view]
  congr 1
  omega

/-! ## Sets of blockrefs -/

/-- Blockrefs that are stored one after the other are read back. -/
theorem blockrefsAt_of_read {m : Image} {o : Nat} (bs : List Blockref)
    (h : m.read o (128 * bs.length) = bs.flatMap Blockref.bytes) :
    blockrefsAt m o bs.length = bs := by
  induction bs generalizing o with
  | nil => rfl
  | cons b bs ih =>
    rw [List.length_cons, Nat.mul_succ, Nat.add_comm, Image.read_add, List.flatMap_cons] at h
    obtain ⟨hb, hbs⟩ := List.append_inj h (by rw [Image.length_read, b.length])
    rw [blockrefsAt, List.length_cons, List.range_succ_eq_map, List.map_cons, List.map_map]
    congr 1
    · cases b
      simp only [blockrefAt, Nat.mul_zero, Nat.add_zero, Blockref.mk.injEq]
      exact hb
    · have hrest := ih hbs
      rw [blockrefsAt] at hrest
      conv => rhs; rw [← hrest]
      apply List.map_congr_left
      intro i _
      rw [Function.comp_apply]
      congr 1
      omega

end Lh1.Hammer2
