/-
  The freemap of a HAMMER filesystem and the allocators of newfs_hammer (blockmap.c and the
  freemap part of ondisk.c).

  A volume set is one record: what the programs keep of every volume, the fields of the root
  volume's header they use, and the two levels of the freemap. Layer 1 and layer 2 entries are
  found by their zone 2 address, so the programs compute addresses here as they do in C. The
  CRC fields of the two kinds of entries are left out: they are set at every write and no
  function of this development reads them. `errx()` and `err()` are a fault of their own kind,
  apart from failed assertions.
-/
import Lh1.Lib.Fallible
import Lh1.Hammer.Layout

namespace Lh1.Hammer

open Lib

/-! ## The state -/

/-- `struct hammer_blockmap_layer1`: where the layer 2 array of the section is, and how many of
    its big-blocks are free. -/
structure Layer1 where
  phys : Nat
  blocksFree : Nat
  deriving DecidableEq

/-- `struct hammer_blockmap_layer2`: the owner of a big-block, where the next allocation in it
    goes, and how many of its bytes are free. -/
structure Layer2 where
  zone : Nat
  appendOff : Nat
  bytesFree : Int
  deriving DecidableEq

/-- What is kept of a volume: `vol_buf_beg` and `vol_buf_end` of its header, and the two ends of
    what `bootstrap_bigblock` hands out. -/
structure Volume where
  bufBeg : Int
  bufEnd : Int
  freeOff : Nat
  freeEnd : Nat
  deriving DecidableEq

/-- An element of a leaf of the B-Tree. -/
structure Elm where
  recType : Nat
  dataOffset : Nat
  dataLen : Nat
  deriving DecidableEq

/-- `struct hammer_node_ondisk` with the elements that count. -/
structure Node where
  type : Char
  elms : List Elm
  crc : Nat
  deriving DecidableEq

/-- `struct hammer_fifo_head`. -/
structure FifoHead where
  hdrType : Nat
  hdrSize : Nat
  hdrSeq : Nat
  deriving DecidableEq

/-- A volume set. `freemap` is `vol0_blockmap[4].phys_offset`, `next z` is
    `vol0_blockmap[z].next_offset`, `undoAlloc` is `vol0_blockmap[3].alloc_offset`. B-Tree nodes
    and the records of the UNDO FIFO are found by their zone 2 address too. -/
structure Fs where
  version : Nat
  vols : Nat → Volume
  freemap : Nat
  next : Nat → Nat
  undoAlloc : Nat
  undoArray : Nat → Nat
  btreeRoot : Nat
  freeBigblocks : Int
  bigblocks : Int
  layer1 : Nat → Layer1
  layer2 : Nat → Layer2
  nodes : Nat → Node
  heads : Nat → FifoHead

inductive Fault where
  | assert
  | exit
  /-- No fault of the program: the search for a big-block was cut short. -/
  | fuel
  deriving DecidableEq

abbrev HamM := StateT Fs (Except Fault)

def fail {α : Type} (e : Fault) : HamM α := fun _ => .error e

def check (p : Prop) [Decidable p] (e : Fault) : HamM Unit := if p then pure () else fail e

@[simps]
def Fs.putLayer1 (fs : Fs) (off : Nat) (l : Layer1) : Fs :=
  { fs with layer1 := Function.update fs.layer1 off l }

@[simps]
def Fs.putLayer2 (fs : Fs) (off : Nat) (l : Layer2) : Fs :=
  { fs with layer2 := Function.update fs.layer2 off l }

@[simps]
def Fs.putVolume (fs : Fs) (v : Nat) (vol : Volume) : Fs :=
  { fs with vols := Function.update fs.vols v vol }

@[simps]
def Fs.putNext (fs : Fs) (zone off : Nat) : Fs :=
  { fs with next := Function.update fs.next zone off }

/-- Changes `vol0_stat_freebigblocks`. -/
@[simps]
def Fs.addFree (fs : Fs) (d : Int) : Fs := { fs with freeBigblocks := fs.freeBigblocks + d }

def setLayer1 (off : Nat) (l : Layer1) : HamM Unit := modify (·.putLayer1 off l)

def setLayer2 (off : Nat) (l : Layer2) : HamM Unit := modify (·.putLayer2 off l)

def setVolume (v : Nat) (vol : Volume) : HamM Unit := modify (·.putVolume v vol)

def setNext (zone off : Nat) : HamM Unit := modify (·.putNext zone off)

def decFree : HamM Unit := modify (·.addFree (-1))

/-- `freemap->phys_offset + HAMMER_BLOCKMAP_LAYER1_OFFSET(off)`. -/
def Fs.layer1Offset (fs : Fs) (off : Nat) : Nat := fs.freemap + layer1Index off * 32

/-- `layer1->phys_offset + HAMMER_BLOCKMAP_LAYER2_OFFSET(off)`. -/
def Layer1.layer2Offset (l : Layer1) (off : Nat) : Nat := l.phys + layer2Index off * 16

/-- The layer 1 and layer 2 entries that cover `off`. -/
def Fs.layer1At (fs : Fs) (off : Nat) : Layer1 := fs.layer1 (fs.layer1Offset off)

def Fs.layer2At (fs : Fs) (off : Nat) : Layer2 := fs.layer2 ((fs.layer1At off).layer2Offset off)

/-- `--x` on a 64-bit counter. -/
def dec64 (x : Nat) : Nat := (x + (2 ^ 64 - 1)) % 2 ^ 64

/-! ## The allocators -/

def assertVolumeOffset (vol : Volume) : HamM Unit := do
  check (zoneDecode vol.freeOff = 2) .assert
  check (zoneDecode vol.freeEnd = 2) .assert
  check (vol.freeOff < vol.freeEnd) .exit

def bootstrapBigblock (v : Nat) : HamM Nat := do
  let vol := (← get).vols v
  assertVolumeOffset vol
  setVolume v { vol with freeOff := vol.freeOff + bigblockSize }
  pure vol.freeOff

def allocUndoBigblock (v : Nat) : HamM Nat := do
  check (v = 0) .assert
  let off ← bootstrapBigblock v
  let fs ← get
  let l1 := fs.layer1At off
  check (l1.phys ≠ unavail) .assert
  setLayer1 (fs.layer1Offset off) { l1 with blocksFree := dec64 l1.blocksFree }
  let l2 := fs.layer2At off
  check (l2.zone = 0) .assert
  setLayer2 (l1.layer2Offset off) ⟨zoneUndoIndex, bigblockSize, 0⟩
  decFree
  pure off

/-- Where `alloc_blockmap` goes on from `next`: behind the buffer boundary that a chunk of
    `bytes` would cross. -/
def skipBuffer (next bytes : Nat) : Nat :=
  if next / bufSize = (next + bytes - 1) / bufSize then next
  else (next + bytes - 1) / bufSize * bufSize

/-- The big-block at `off` is free: `zone` takes it. -/
def claimBigblock (zone off : Nat) (l1 : Layer1) (l2 : Layer2) : HamM Unit := do
  let fs ← get
  setLayer1 (fs.layer1Offset off) { l1 with blocksFree := dec64 l1.blocksFree }
  setLayer2 (l1.layer2Offset off) ⟨zone, l2.appendOff, l2.bytesFree⟩
  decFree
  check (l2.bytesFree = bigblockSize) .assert
  check (l2.appendOff = 0) .assert

/-- The chunk at `off` of the big-block that `zone` owns is handed out. -/
def takeChunk (zone bytes off : Nat) (l1 : Layer1) : HamM Nat := do
  let l2 := (← get).layer2 (l1.layer2Offset off)
  check (l2.appendOff = off % bigblockSize) .assert
  setNext zone (off + bytes)
  setLayer2 (l1.layer2Offset off)
    ⟨l2.zone, (off + bytes) % bigblockSize, l2.bytesFree - bytes⟩
  pure off

/-- The big-block at `off` is taken, used, or left for the next one. -/
def useBigblock (zone bytes off : Nat) (l1 : Layer1) (l2 : Layer2) (again : HamM Nat) : HamM Nat :=
  if l2.zone = 0 then do
    claimBigblock zone off l1 l2
    takeChunk zone bytes off l1
  else if l2.zone = zone then
    takeChunk zone bytes off l1
  else do
    setNext zone (layer2NextOffset off)
    again

/-- The part of `alloc_blockmap` from the label `again` on. -/
def allocAgain (zone bytes : Nat) : Nat → HamM Nat
  | 0 => fail .fuel
  | fuel + 1 => do
    let next := (← get).next zone
    check (next ≠ zoneEncode (zone + 1) 0 % 2 ^ 64) .assert
    let off := skipBuffer next bytes
    setNext zone off
    let fs ← get
    let l1 := fs.layer1At off
    check (l1.phys ≠ unavail) .assert
    check (¬ (off % bigblockSize = 0 ∧ l1.blocksFree = 0)) .assert
    let l2 := fs.layer2At off
    check (l2.zone ≠ zoneUnavailIndex) .exit
    useBigblock zone bytes off l1 l2 (allocAgain zone bytes fuel)

/-- `alloc_blockmap`. A zone addresses `2 ^ 37` big-blocks, and every turn goes on to the next
    one. The data the chunk will hold is not written here. -/
def allocBlockmap (zone bytes : Nat) : HamM Nat := do
  check (zoneDecode ((← get).next zone) = zone) .assert
  let bytes := dataAlign bytes
  check (0 < bytes ∧ bytes ≤ bufSize) .assert
  check (isIndexRecord zone) .assert
  allocAgain zone bytes (2 ^ 37)

/-! ## How the operations end

  Each lemma says when an operation returns, what, and in which state. -/

section Returns

variable {s t : Fs} {e : Fault} {u : Unit} {v off n zone bytes : Nat} {l1 : Layer1} {l2 : Layer2}

@[simp] theorem bind_ok {α β : Type} {x : HamM α} {f : α → HamM β} {b : β} :
    (x >>= f) s = .ok (b, t) ↔ ∃ a s1, x s = .ok (a, s1) ∧ f a s1 = .ok (b, t) := bind_ok_iff

@[simp] theorem pure_ok {α : Type} {a b : α} :
    (pure a : HamM α) s = .ok (b, t) ↔ b = a ∧ t = s := pure_ok_iff

@[simp] theorem fail_ok {α : Type} {a : α} : (fail e : HamM α) s = .ok (a, t) ↔ False := by
  simp [fail]

@[simp] theorem get_ok {a : Fs} : (get : HamM Fs) s = .ok (a, t) ↔ a = s ∧ t = s := by
  change Except.ok (s, s) = .ok (a, t) ↔ _
  simp [eq_comm]

@[simp] theorem modify_ok {f : Fs → Fs} {u : PUnit} :
    (modify f : HamM PUnit) s = .ok (u, t) ↔ t = f s := by
  change Except.ok (PUnit.unit, f s) = .ok (u, t) ↔ _
  simp [eq_comm]

@[simp] theorem check_ok {p : Prop} [Decidable p] : check p e s = .ok (u, t) ↔ p ∧ t = s := by
  unfold check
  split <;> simp_all

@[simp] theorem setLayer1_ok : setLayer1 off l1 s = .ok (u, t) ↔ t = s.putLayer1 off l1 :=
  modify_ok

@[simp] theorem setLayer2_ok : setLayer2 off l2 s = .ok (u, t) ↔ t = s.putLayer2 off l2 :=
  modify_ok

@[simp] theorem setVolume_ok {vol : Volume} :
    setVolume v vol s = .ok (u, t) ↔ t = s.putVolume v vol := modify_ok

@[simp] theorem setNext_ok : setNext zone off s = .ok (u, t) ↔ t = s.putNext zone off :=
  modify_ok

@[simp] theorem decFree_ok : decFree s = .ok (u, t) ↔ t = s.addFree (-1) := modify_ok

@[simp] theorem assertVolumeOffset_ok {vol : Volume} : assertVolumeOffset vol s = .ok (u, t) ↔
    (zoneDecode vol.freeOff = 2 ∧ zoneDecode vol.freeEnd = 2 ∧ vol.freeOff < vol.freeEnd) ∧
      t = s := by
  simp [assertVolumeOffset, and_assoc, and_comm, and_left_comm]

/-- The state after `bootstrap_bigblock`. -/
def Fs.bootstrapped (fs : Fs) (v : Nat) : Fs :=
  fs.putVolume v { fs.vols v with freeOff := (fs.vols v).freeOff + bigblockSize }

@[simp] theorem bootstrapBigblock_ok : bootstrapBigblock v s = .ok (off, t) ↔
    (zoneDecode (s.vols v).freeOff = 2 ∧ zoneDecode (s.vols v).freeEnd = 2 ∧
      (s.vols v).freeOff < (s.vols v).freeEnd) ∧ off = (s.vols v).freeOff ∧
      t = s.bootstrapped v := by
  simp only [bootstrapBigblock, bind_ok, get_ok, assertVolumeOffset_ok, setVolume_ok, pure_ok,
    Fs.bootstrapped]
  aesop

/-- The free big-block at `off` becomes `l`. -/
def Fs.claimed (fs : Fs) (off : Nat) (l : Layer2) : Fs :=
  ((fs.putLayer1 (fs.layer1Offset off)
    { fs.layer1At off with blocksFree := dec64 (fs.layer1At off).blocksFree }).putLayer2
      ((fs.layer1At off).layer2Offset off) l).addFree (-1)

theorem allocUndoBigblock_ok : allocUndoBigblock v s = .ok (off, t) ↔
    v = 0 ∧ bootstrapBigblock v s = .ok (off, s.bootstrapped v) ∧
      ((s.bootstrapped v).layer1At off).phys ≠ unavail ∧
      ((s.bootstrapped v).layer2At off).zone = 0 ∧
      t = (s.bootstrapped v).claimed off ⟨zoneUndoIndex, bigblockSize, 0⟩ := by
  simp only [allocUndoBigblock, bind_ok, check_ok, get_ok, setLayer1_ok, setLayer2_ok, decFree_ok,
    pure_ok, bootstrapBigblock_ok, Fs.claimed]
  aesop

@[simp] theorem layer1At_putNext : (s.putNext zone n).layer1At off = s.layer1At off := rfl

@[simp] theorem layer2At_putNext : (s.putNext zone n).layer2At off = s.layer2At off := rfl

theorem putNext_putNext {m : Nat} : (s.putNext zone m).putNext zone n = s.putNext zone n := by
  simp [Fs.putNext]

/-- The entry of a big-block after a chunk that ends at `stop` is taken from it. -/
def Layer2.take (l : Layer2) (zone stop bytes : Nat) : Layer2 :=
  ⟨zone, stop % bigblockSize, l.bytesFree - bytes⟩

/-- How `useBigblock` ends: it takes a free big-block and the first chunk of it, or the next
    chunk of a big-block of the zone, or it leaves the rest to `again`. -/
inductive Turn (zone bytes : Nat) (again : HamM Nat) (s : Fs) (off : Nat) : Nat → Fs → Prop
  | claim (h0 : (s.layer2At off).zone = 0) (hb : (s.layer2At off).bytesFree = bigblockSize)
      (ha : (s.layer2At off).appendOff = 0) (hoff : off % bigblockSize = 0) :
      Turn zone bytes again s off off ((s.putNext zone (off + bytes)).claimed off
        ((s.layer2At off).take zone (off + bytes) bytes))
  | own (h0 : (s.layer2At off).zone ≠ 0) (hz : (s.layer2At off).zone = zone)
      (ha : (s.layer2At off).appendOff = off % bigblockSize) :
      Turn zone bytes again s off off ((s.putNext zone (off + bytes)).putLayer2
        ((s.layer1At off).layer2Offset off) ((s.layer2At off).take zone (off + bytes) bytes))
  | skip {r : Nat} {t : Fs} (h0 : (s.layer2At off).zone ≠ 0) (hz : (s.layer2At off).zone ≠ zone)
      (h : again (s.putNext zone (layer2NextOffset off)) = .ok (r, t)) :
      Turn zone bytes again s off r t

theorem claimBigblock_ok :
    claimBigblock zone off (s.layer1At off) l2 (s.putNext zone n) = .ok (u, t) ↔
      l2.bytesFree = bigblockSize ∧ l2.appendOff = 0 ∧
        t = (s.putNext zone n).claimed off ⟨zone, l2.appendOff, l2.bytesFree⟩ := by
  simp only [claimBigblock, bind_ok, get_ok, setLayer1_ok, setLayer2_ok, decFree_ok, check_ok,
    Fs.claimed, layer1At_putNext]
  aesop

theorem takeChunk_ok {r : Nat} : takeChunk zone bytes off l1 s = .ok (r, t) ↔
    (s.layer2 (l1.layer2Offset off)).appendOff = off % bigblockSize ∧ r = off ∧
      t = (s.putNext zone (off + bytes)).putLayer2 (l1.layer2Offset off)
        ((s.layer2 (l1.layer2Offset off)).take (s.layer2 (l1.layer2Offset off)).zone
          (off + bytes) bytes) := by
  simp only [takeChunk, bind_ok, get_ok, setNext_ok, setLayer2_ok, check_ok, pure_ok, Layer2.take]
  aesop

/-- Both writes of a turn that claims a big-block in one. -/
theorem claimed_take {m : Nat} (l : Layer2) :
    (((s.putNext zone m).claimed off l2).putNext zone n).putLayer2
      ((s.layer1At off).layer2Offset off) l = (s.putNext zone n).claimed off l := by
  simp [Fs.claimed, Fs.putNext, Fs.putLayer1, Fs.putLayer2, Fs.addFree, Fs.layer1At,
    Fs.layer1Offset]

theorem useBigblock_ok {again : HamM Nat} {r : Nat} :
    useBigblock zone bytes off (s.layer1At off) (s.layer2At off) again (s.putNext zone off) =
      .ok (r, t) ↔ Turn zone bytes again s off r t := by
  have hclaim : ((s.putNext zone off).claimed off
      ⟨zone, (s.layer2At off).appendOff, (s.layer2At off).bytesFree⟩).layer2
      ((s.layer1At off).layer2Offset off) =
      ⟨zone, (s.layer2At off).appendOff, (s.layer2At off).bytesFree⟩ := by
    simp [Fs.claimed]
  have hown : (s.putNext zone off).layer2 ((s.layer1At off).layer2Offset off) = s.layer2At off :=
    rfl
  constructor
  · intro h
    unfold useBigblock at h
    split_ifs at h with h0 hz
    · obtain ⟨_, _, hc, ht⟩ := bind_ok.mp h
      obtain ⟨hb, ha, rfl⟩ := claimBigblock_ok.mp hc
      obtain ⟨hoff, rfl, rfl⟩ := takeChunk_ok.mp ht
      rw [hclaim] at hoff
      rw [hclaim, claimed_take]
      exact .claim h0 hb ha (hoff.symm.trans ha)
    · obtain ⟨ha, rfl, rfl⟩ := takeChunk_ok.mp h
      rw [hown] at ha ⊢
      rw [putNext_putNext, hz]
      exact .own h0 hz ha
    · simp only [bind_ok, setNext_ok] at h
      obtain ⟨_, _, rfl, h⟩ := h
      rw [putNext_putNext] at h
      exact .skip h0 hz h
  · intro h
    unfold useBigblock
    cases h with
    | claim h0 hb ha hoff =>
      rw [if_pos h0]
      refine bind_ok.mpr ⟨(), _, claimBigblock_ok.mpr ⟨hb, ha, rfl⟩, takeChunk_ok.mpr ⟨?_, rfl, ?_⟩⟩
      · exact (congrArg _ hclaim).trans (ha.trans hoff.symm)
      · rw [hclaim, claimed_take]
        rfl
    | own h0 hz ha =>
      rw [if_neg h0, if_pos hz]
      refine takeChunk_ok.mpr ⟨ha, rfl, ?_⟩
      rw [hown, putNext_putNext, hz]
    | skip h0 hz h =>
      rw [if_neg h0, if_neg hz]
      refine bind_ok.mpr ⟨(), _, setNext_ok.mpr rfl, ?_⟩
      rw [putNext_putNext]
      exact h

theorem allocAgain_ok {r : Nat} : allocAgain zone bytes (n + 1) s = .ok (r, t) ↔
    s.next zone ≠ zoneEncode (zone + 1) 0 % 2 ^ 64 ∧
      (s.layer1At (skipBuffer (s.next zone) bytes)).phys ≠ unavail ∧
      ¬ (skipBuffer (s.next zone) bytes % bigblockSize = 0 ∧
        (s.layer1At (skipBuffer (s.next zone) bytes)).blocksFree = 0) ∧
      (s.layer2At (skipBuffer (s.next zone) bytes)).zone ≠ zoneUnavailIndex ∧
      Turn zone bytes (allocAgain zone bytes n) s (skipBuffer (s.next zone) bytes) r t := by
  simp only [allocAgain, bind_ok, get_ok, setNext_ok, check_ok, ← useBigblock_ok]
  constructor
  · rintro ⟨_, _, ⟨rfl, rfl⟩, _, _, ⟨h1, rfl⟩, _, _, rfl, _, _, ⟨rfl, rfl⟩, _, _, ⟨h2, rfl⟩, _, _,
      ⟨h3, rfl⟩, _, _, ⟨h4, rfl⟩, h⟩
    exact ⟨h1, h2, h3, h4, h⟩
  · rintro ⟨h1, h2, h3, h4, h⟩
    exact ⟨_, _, ⟨rfl, rfl⟩, (), _, ⟨h1, rfl⟩, (), _, rfl, _, _, ⟨rfl, rfl⟩, (), _, ⟨h2, rfl⟩, (), _,
      ⟨h3, rfl⟩, (), _, ⟨h4, rfl⟩, h⟩
theorem allocBlockmap_ok {r : Nat} : allocBlockmap zone bytes s = .ok (r, t) ↔
    zoneDecode (s.next zone) = zone ∧ (0 < dataAlign bytes ∧ dataAlign bytes ≤ bufSize) ∧
      isIndexRecord zone ∧ allocAgain zone (dataAlign bytes) (2 ^ 37) s = .ok (r, t) := by
  simp only [allocBlockmap, bind_ok, get_ok, check_ok]
  constructor
  · rintro ⟨_, _, ⟨rfl, rfl⟩, _, _, ⟨h1, rfl⟩, _, _, ⟨h2, rfl⟩, _, _, ⟨h3, rfl⟩, h⟩
    exact ⟨h1, h2, h3, h⟩
  · rintro ⟨h1, h2, h3, h⟩
    exact ⟨_, _, ⟨rfl, rfl⟩, (), _, ⟨h1, rfl⟩, (), _, ⟨h2, rfl⟩, (), _, ⟨h3, rfl⟩, h⟩

end Returns

/-! ## Formatting the freemap -/

def formatFreemap (v : Nat) : HamM Unit := do
  check (v = 0) .assert
  let off ← bootstrapBigblock v
  loop radix1 (fun i _ => setLayer1 (off + i * 32) ⟨unavail, 0⟩) ()
  modify fun fs => { fs with freemap := off }

/-- The big-blocks for the layer 2 arrays come from the volume they describe. -/
def preallocateLayer2 (v phys : Nat) : HamM Unit := do
  let fs ← get
  if (fs.layer1At phys).phys = unavail then
    let off ← bootstrapBigblock v
    setLayer1 (fs.layer1Offset phys) ⟨off, 0⟩

/-- The layer 2 entry that `initialize_freemap` makes for the big-block at `phys`. -/
def initialEntry (vol : Volume) (phys : Nat) : Layer2 :=
  if phys < vol.freeOff then ⟨zoneFreemapIndex, bigblockSize, 0⟩
  else if phys < vol.freeEnd then ⟨0, 0, bigblockSize⟩
  else ⟨zoneUnavailIndex, bigblockSize, 0⟩

/-- Fills the layer 2 array of the section at `phys` and counts its free big-blocks. -/
def fillSection (vol : Volume) (l1 : Layer1) (phys : Nat) : HamM Nat :=
  loop radix2 (fun i count => do
    let block := i * bigblockSize
    setLayer2 (l1.layer2Offset block) (initialEntry vol (phys + block))
    pure (if (initialEntry vol (phys + block)).zone = 0 then count + 1 else count)) 0

def fillLayer1 (v phys : Nat) : HamM Nat := do
  let fs ← get
  let l1 := fs.layer1At phys
  check (l1.phys ≠ unavail) .assert
  let count ← fillSection (fs.vols v) l1 phys
  setLayer1 (fs.layer1Offset phys) { l1 with blocksFree := (l1.blocksFree + count) % 2 ^ 64 }
  pure count

/-- `HAMMER_BLOCKMAP_LAYER2_DOALIGN`. -/
def layer2Align (off : Nat) : Nat := (off + (layer2Span - 1)) / layer2Span * layer2Span

def initializeFreemap (v : Nat) : HamM Nat := do
  let vol := (← get).vols v
  assertVolumeOffset vol
  let start := rawBuffer v 0
  let sections := iterations start (layer2Align vol.freeEnd) layer2Span
  loop sections (fun i _ => preallocateLayer2 v (start + i * layer2Span)) ()
  loop sections (fun i count => do
    let n ← fillLayer1 v (start + i * layer2Span)
    pure (count + n)) 0

/-- `count_freemap`: what will be free in the volume once it is formatted. -/
def countFreemap (v : Nat) : HamM Nat := do
  let vol := (← get).vols v
  assertVolumeOffset vol
  let start := rawBuffer v 0
  let alignedEnd := layer2Align vol.freeEnd
  let freeOff := start + (if v = 0 then bigblockSize else 0)
    + iterations start alignedEnd layer2Span * bigblockSize
  pure ((List.range (iterations start alignedEnd bigblockSize)).countP fun i =>
    decide (¬ start + i * bigblockSize < freeOff ∧ start + i * bigblockSize < vol.freeEnd))

end Lh1.Hammer
