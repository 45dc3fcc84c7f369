/-
  The key exchange at the start of an encrypted dmsg link (lib/libdmsg/crypto.c):
  `dmsg_crypto_negotiate` from the point where the three keys have been read.

  Both ends send a handshake of 512 bytes, in RSA blocks that have gone through the sender's
  private and the receiver's public key, and then read the handshake of the other end, which is
  decrypted in place block by block as it comes in. `encryptStage` is the sending half with its
  retry loop, `readLoop` the receiving half, `verify` the check of what came in. RSA is a
  `KeyPair`; the calls of the cipher library that set up AES-GCM are taken to succeed.

  * `encryptStage_spec`: what goes over the wire is the handshake that was prepared, but for the
    counters in the pads, block by block under both keys.
  * `readLoop_spec`: however the reads split it, each block is decrypted once, when it is complete.
  * `handshake_agreement`: both ends verify, and receive with the key and IV that the other end
    transmits with.
-/
import Lh1.Dmsg.Ioq
import Lh1.Lib.Fallible
import Lh1.Lib.Image
import Lh1.Lib.Trapdoor

namespace Lh1.Dmsg

open Lh1.Lib

/-! ## The handshake -/

inductive ByteOrder where
  | little
  | big
  deriving DecidableEq, Repr

namespace ByteOrder

/-- The bytes of an integer of `w` bytes in memory. -/
def bytes (e : ByteOrder) (w n : Nat) : List UInt8 :=
  match e with
  | little => toLE w n
  | big => toBE w n

/-- The integer of `w` bytes at `o`. -/
def word (e : ByteOrder) (m : Image) (o w : Nat) : Nat :=
  match e with
  | little => fromLE (m.read o w)
  | big => fromBE (m.read o w)

end ByteOrder

/-- `sizeof(struct dmsg_handshake)`. -/
def handshakeSize : Nat := 512

/-- Offsets of `pad1`, `magic`, `version`, `flags`, `sess`, `verf`, `quickmsg` and `pad2`. -/
def pad1Off : Nat := 0x000
def magicOff : Nat := 0x008
def versionOff : Nat := 0x00A
def flagsOff : Nat := 0x00C
def sessOff : Nat := 0x010
def verfOff : Nat := 0x050
def quickmsgOff : Nat := 0x060
def pad2Off : Nat := 0x100

/-- Sizes of `sess` and `verf`. -/
def sessSize : Nat := 64
def verfSize : Nat := 16

/-- `"Testing 1 2 3"` with its terminating zero. -/
def quickmsg : List UInt8 := [84, 101, 115, 116, 105, 110, 103, 32, 49, 32, 50, 32, 51, 0]

/-- One end of the link: its own keys, the public key it has on file for the other end, and what
    it reads from `/dev/urandom`. `stack` is what the uninitialised `buf1` and `buf2` hold. -/
structure Endpoint where
  order : ByteOrder
  own : KeyPair
  remote : PublicKey
  fill : Image
  stack : List UInt8

/-- `verf[i / 4] ^= sess[i]`. -/
def xorByte (m : Image) (i : Nat) : Image :=
  m.write (verfOff + i / 4) [m (verfOff + i / 4) ^^^ m (sessOff + i)]

/-- The loop over `sess`. -/
def xorVerf (m : Image) : Image := (List.range sessSize).foldl xorByte m

/-- The fields of `handtx` that are set after the random fill. -/
def prepare (e : ByteOrder) (m : Image) : Image :=
  let m := m.write quickmsgOff quickmsg
  let m := m.write magicOff (e.bytes 2 dmsgHdrMagic.toNat)
  let m := m.write versionOff (e.bytes 2 1)
  let m := m.write flagsOff (e.bytes 4 0)
  let m := m.write verfOff (List.replicate verfSize 0)
  let m := m.write pad1Off [m pad1Off &&& 0x3f]
  let m := m.write pad2Off [m pad2Off &&& 0x3f]
  xorVerf m

/-! ## Sending -/

/-- Why the handshake has not been sent. -/
inductive SendStop where
  | refused (e : IoqError)  -- given up before the first block
  | running                 -- in a retry loop
  deriving DecidableEq, Repr

structure SendState where
  tx : Image
  buf1 : List UInt8
  buf2 : List UInt8
  error : Option IoqError
  wire : List UInt8

section

variable (ep : Endpoint)

/-- `++*(int *)(ptr + 4)`. -/
def bump (m : Image) (i : Nat) : Image :=
  m.write (i + 4) (ep.order.bytes 4 ((ep.order.word m (i + 4) 4 + 1) % 2 ^ 32))

/-- One turn of the retry loop for the block at `i`. -/
def retryTurn (i : Nat) (s : SendState) : SendState :=
  let tx := bump ep s.tx i
  match ep.own.privateOp (tx.read i ep.remote.size) with
  | some out => { s with tx := tx, buf1 := out }
  | none => { s with tx := tx, error := some .keyxchgfail }

/-- `do { ... } while (buf1[0] & 0xC0)`. -/
def retry (i : Nat) : Nat → SendState → Except SendStop SendState
  | 0, _ => .error .running
  | fuel + 1, s =>
    let s := retryTurn ep i s
    if s.buf1.headD 0 &&& 0xC0 = 0 then .ok s else retry i fuel s

/-- `RSA_public_encrypt` of `buf1` and the `write` of `buf2`. -/
def sendBlock (s : SendState) : SendState :=
  match ep.remote.publicOp s.buf1 with
  | some out => { s with buf2 := out, wire := s.wire ++ out }
  | none => { s with error := some .keyxchgfail, wire := s.wire ++ s.buf2 }

/-- The loop over the blocks at the given offsets. -/
def sendLoop (fuel : Nat) : List Nat → SendState → Except SendStop SendState
  | [], s => .ok s
  | i :: is, s =>
    match retry ep i fuel s with
    | .error e => .error e
    | .ok s => sendLoop fuel is (sendBlock ep s)

def blockOffsets (blksize : Nat) : List Nat :=
  (List.range (handshakeSize / blksize)).map (blksize * ·)

/-- From the check of the key sizes to the end of the loop that sends the blocks. -/
def encryptStage (fuel : Nat) : Except SendStop SendState :=
  let blksize := ep.remote.size
  if blksize ≠ ep.own.size ∨ handshakeSize % blksize ≠ 0 then .error (.refused .keyfmt)
  -- read all zeros
  else if ep.fill.read 0 handshakeSize = List.replicate handshakeSize 0 then
    .error (.refused .badurandom)
  else
    sendLoop ep fuel (blockOffsets blksize)
      { tx := prepare ep.order ep.fill, buf1 := ep.stack, buf2 := ep.stack, error := none,
        wire := [] }

end

/-! ## Receiving -/

/-- A block that was decrypted: where it starts, how many bytes of the handshake had come in by
    then, and what it was. -/
structure Decryption where
  start : Nat
  received : Nat
  block : List UInt8
  deriving DecidableEq, Repr

structure ReadState where
  rx : Image
  i : Nat
  input : List UInt8
  calls : Nat
  buf1 : List UInt8
  error : Option IoqError
  log : List Decryption

section

variable (ep : Endpoint) (k : Nat → Nat)

/-- `RSA_private_decrypt` and `RSA_public_decrypt` of the block at `ptr`, in place. -/
def decryptBlock (ptr : Nat) (s : ReadState) : ReadState :=
  let blksize := ep.remote.size
  let block := s.rx.read ptr blksize
  let s : ReadState := { s with log := s.log ++ [⟨ptr, s.i, block⟩] }
  let s : ReadState := match ep.own.privateOp block with
    | some out => { s with buf1 := out }
    | none => { s with error := some .keyxchgfail }
  match ep.remote.publicOp s.buf1 with
  | some out => { s with rx := s.rx.write ptr out }
  | none => { s with error := some .keyxchgfail }

/-- One pass of the loop that reads the handshake, or nothing for its `break`. The `read` call
    with number `c` returns at most `k c` bytes of those that are there; with none it returns 0. -/
def readPass (s : ReadState) : Option ReadState :=
  let blksize := ep.remote.size
  let blkmask := blksize - 1
  let n := min (k s.calls) (min (blksize - (s.i &&& blkmask)) s.input.length)
  if n = 0 then none
  else
    let ptr := s.i - (s.i &&& blkmask)
    let s := { s with
      rx := s.rx.write s.i (s.input.take n)
      i := s.i + n
      input := s.input.drop n
      calls := s.calls + 1 }
    if s.i &&& blkmask = 0 then some (decryptBlock ep ptr s) else some s

/-- `while (i < sizeof(handrx))`. A pass that does not leave the loop reads a byte, so as many
    passes as there are bytes are enough. -/
def readLoop : Nat → ReadState → ReadState
  | 0, s => s
  | passes + 1, s =>
    if s.i < handshakeSize then
      match readPass ep k s with
      | none => s
      | some s => readLoop passes s
    else s

/-- The check of the received data: `n` is 0 if the verifier matches and the version is 1. -/
def verify (rx : Image) : Bool :=
  let swapped := ep.order.word rx magicOff 2 = dmsgHdrMagicRev.toNat
  let version := ep.order.word rx versionOff 2
  let version := if swapped then bswap 2 version else version
  let rx := xorVerf rx
  let n := ((List.range verfSize).map fun i => (rx (verfOff + i)).toNat).sum
  let n := if version ≠ 1 then n + 1 else n
  n = 0

end

/-! ## `dmsg_crypto_negotiate` -/

/-- What `dmsg_crypto_gcm_init` leaves: the key and the running IV. -/
structure CipherInit where
  key : List UInt8
  iv : List UInt8
  deriving DecidableEq, Repr

/-- `DMSG_CRYPTO_GCM_KEY_SIZE`, `DMSG_CRYPTO_GCM_IV_FIXED_SIZE` and `DMSG_CRYPTO_GCM_IV_SIZE`. -/
def gcmKeySize : Nat := 32
def gcmIvFixedSize : Nat := 4
def gcmIvSize : Nat := 12

def dmsgCryptoGcmInit (key : List UInt8) (klen : Nat) (ivFixed : List UInt8) (ivlen : Nat) :
    Option CipherInit :=
  if klen < gcmKeySize ∨ ivlen < gcmIvFixedSize then none
  else some
    { key := key.take gcmKeySize
      iv := ivFixed.take gcmIvFixedSize ++ List.replicate (gcmIvSize - gcmIvFixedSize) 0 }

/-- The first 32 bytes of `sess` are the key and the rest the fixed part of the IV. -/
def sessInit (m : Image) : Option CipherInit :=
  dmsgCryptoGcmInit (m.read sessOff gcmKeySize) gcmKeySize
    (m.read (sessOff + gcmKeySize) (sessSize - gcmKeySize)) (sessSize - gcmKeySize)

/-- What one end is left with: the bytes it wrote, the error in `ioq_rx`, the flags
    `DMSG_IOCOMF_EOF` and `DMSG_IOCOMF_CRYPTED` and the ciphers of its two queues. -/
structure Outcome where
  wire : List UInt8 := []
  error : Option IoqError := none
  eof : Bool := false
  crypted : Bool := false
  ioqRx : Option CipherInit := none
  ioqTx : Option CipherInit := none
  log : List Decryption := []
  deriving DecidableEq

section

variable (ep : Endpoint) (fuel : Nat) (input : List UInt8) (k : Nat → Nat)

/-- The handshake of the other end as it is read. -/
def receive (s : SendState) : ReadState :=
  readLoop ep k handshakeSize
    { rx := fun _ => 0, i := 0, input := input, calls := 0, buf1 := s.buf1, error := s.error,
      log := [] }

/-- From the read loop to the end. -/
def finish (s : SendState) : Outcome :=
  let r := receive ep input k s
  let failed := fun (e : IoqError) (o : Outcome) => { o with error := some e, eof := true }
  let o : Outcome := { wire := s.wire, log := r.log }
  match r.error with
  | some e => failed e o
  | none =>
    if r.i ≠ handshakeSize then failed .keyxchgfail o
    else if verify ep r.rx = false then failed .keyxchgfail o
    else
      match sessInit r.rx with
      | none => failed .keyxchgfail o
      | some rx =>
        match sessInit s.tx with
        | none => failed .keyxchgfail { o with ioqRx := some rx }
        | some tx => { o with crypted := true, ioqRx := some rx, ioqTx := some tx }

/-- What is left of one end when `input` is what the other one sends; nothing as long as it is in
    a retry loop. -/
def dmsgCryptoNegotiate : Option Outcome :=
  match encryptStage ep fuel with
  | .error .running => none
  | .error (.refused e) => some { error := some e, eof := true }
  | .ok s =>
    match s.error with
    | some e => some { wire := s.wire, error := some e, eof := true }
    | none => some (finish ep input k s)

end

/-! ## The verifier -/

/-- What the indices `is` contribute to the byte at `x`. -/
def verfMask (m : Image) (x : Nat) : List Nat → UInt8
  | [] => 0
  | i :: is => (if verfOff + i / 4 = x then m (sessOff + i) else 0) ^^^ verfMask m x is

section

variable {m m' : Image} {x : Nat}

theorem xorByte_apply (m : Image) (i x : Nat) :
    xorByte m i x = m x ^^^ (if verfOff + i / 4 = x then m (sessOff + i) else 0) := by
  unfold xorByte
  split
  next h =>
    subst h
    exact Image.write_apply_of_mem (i := 0) (by simp)
  next h =>
    rw [UInt8.xor_zero]
    exact Image.write_apply_of_disjoint (by rw [List.length_singleton]; omega)

theorem verfMask_congr (h : ∀ i < sessSize, m (sessOff + i) = m' (sessOff + i)) {is : List Nat}
    (his : ∀ i ∈ is, i < sessSize) : verfMask m x is = verfMask m' x is := by
  induction is with
  | nil => rfl
  | cons i is ih =>
    rw [verfMask, verfMask, h i (his i List.mem_cons_self),
      ih fun j hj => his j (List.mem_cons_of_mem _ hj)]

theorem xorByte_sess (m : Image) {i : Nat} (j : Nat) (hj : j < sessSize) :
    xorByte m i (sessOff + j) = m (sessOff + j) := by
  rw [xorByte_apply, if_neg (by unfold verfOff sessOff; unfold sessSize at hj; omega),
    UInt8.xor_zero]

/-- The loop adds to each byte what `sess` contributes to it. -/
theorem foldl_xorByte (m : Image) (x : Nat) {is : List Nat} (his : ∀ i ∈ is, i < sessSize) :
    is.foldl xorByte m x = m x ^^^ verfMask m x is := by
  induction is generalizing m with
  | nil => rw [List.foldl_nil, verfMask, UInt8.xor_zero]
  | cons i is ih =>
    have htl := fun j hj => his j (List.mem_cons_of_mem _ hj)
    rw [List.foldl_cons, ih _ htl, xorByte_apply, verfMask, UInt8.xor_assoc,
      verfMask_congr (xorByte_sess m) htl]

theorem xorVerf_apply (m : Image) (x : Nat) :
    xorVerf m x = m x ^^^ verfMask m x (List.range sessSize) :=
  foldl_xorByte m x fun _ hi => List.mem_range.mp hi

theorem verfMask_eq_zero {is : List Nat} (h : ∀ i ∈ is, verfOff + i / 4 ≠ x) :
    verfMask m x is = 0 := by
  induction is with
  | nil => rfl
  | cons i is ih =>
    rw [verfMask, if_neg (h i List.mem_cons_self), ih fun j hj => h j (List.mem_cons_of_mem _ hj)]
    rfl

/-- Outside `verf` nothing changes. -/
theorem xorVerf_frame (h : x < verfOff ∨ verfOff + verfSize ≤ x) : xorVerf m x = m x := by
  rw [xorVerf_apply, verfMask_eq_zero, UInt8.xor_zero]
  intro i hi
  have := List.mem_range.mp hi
  unfold sessSize at this
  unfold verfSize at h
  omega

end

/-- A handshake that will verify, written by a host with byte order `e`. -/
structure WellFormed (e : ByteOrder) (m : Image) : Prop where
  magic : m.read magicOff 2 = e.bytes 2 dmsgHdrMagic.toNat
  version : m.read versionOff 2 = e.bytes 2 1
  verf : ∀ i < verfSize, m (verfOff + i) = verfMask m (verfOff + i) (List.range sessSize)

section

variable {e : ByteOrder} {m m' : Image}

/-- The fields from `magic` to `verf` are all that counts. -/
theorem WellFormed.congr (hm : WellFormed e m)
    (h : ∀ x, magicOff ≤ x → x < quickmsgOff → m' x = m x) : WellFormed e m' := by
  refine ⟨?_, ?_, fun i hi => ?_⟩
  · rw [← hm.magic]
    refine Image.read_congr fun x hx hx' => h x hx ?_
    unfold magicOff at hx'
    unfold quickmsgOff
    omega
  · rw [← hm.version]
    refine Image.read_congr fun x hx hx' => h x ?_ ?_ <;>
      simp only [versionOff, magicOff, quickmsgOff] at * <;> omega
  · have hsess : ∀ j < sessSize, m' (sessOff + j) = m (sessOff + j) := by
      intro j hj
      apply h <;> simp only [sessSize, sessOff, magicOff, quickmsgOff] at * <;> omega
    have hverf : m' (verfOff + i) = m (verfOff + i) := by
      apply h <;> simp only [verfSize, verfOff, magicOff, quickmsgOff] at * <;> omega
    rw [hverf, hm.verf i hi, verfMask_congr hsess fun _ hj => List.mem_range.mp hj]

/-- The verifier cancels out and the version is read right in either byte order. -/
theorem WellFormed.verify (hm : WellFormed e m) (ep : Endpoint) : verify ep m = true := by
  have hzero : ∀ i ∈ List.range verfSize, (xorVerf m (verfOff + i)).toNat = 0 := by
    intro i hi
    rw [xorVerf_apply, hm.verf i (List.mem_range.mp hi), UInt8.xor_self]
    rfl
  have hsum : ((List.range verfSize).map fun i => (xorVerf m (verfOff + i)).toNat).sum = 0 := by
    rw [List.sum_eq_zero_iff]
    intro n hn
    obtain ⟨i, hi, rfl⟩ := List.mem_map.mp hn
    exact hzero i hi
  rw [Dmsg.verify]
  simp only [hsum]
  cases hord : ep.order <;> cases e <;>
    simp only [ByteOrder.word, hm.magic, hm.version, ByteOrder.bytes] <;> decide

theorem xorVerf_sess (m : Image) {i : Nat} (hi : i < sessSize) :
    xorVerf m (sessOff + i) = m (sessOff + i) := by
  apply xorVerf_frame
  unfold sessSize at hi
  unfold sessOff verfOff
  omega

theorem length_bytes (e : ByteOrder) (w n : Nat) : (e.bytes w n).length = w := by
  cases e
  · exact length_toLE w n
  · exact length_toBE w n

theorem prepare_wellFormed (e : ByteOrder) (m : Image) : WellFormed e (prepare e m) := by
  have h2 := length_bytes e 2
  have h4 := length_bytes e 4
  have hread : ∀ (m : Image) (o w n : Nat), (m.write o (e.bytes w n)).read o w = e.bytes w n :=
    fun m o w n => Image.read_write_of_length (length_bytes e w n)
  refine ⟨?_, ?_, fun i hi => ?_⟩
  · rw [prepare, Image.read_congr fun x hx hx' => xorVerf_frame
      (by simp only [magicOff, verfOff] at *; omega)]
    rw [Image.read_write_of_disjoint (by simp [magicOff, pad2Off]),
      Image.read_write_of_disjoint (by simp [magicOff, pad1Off]),
      Image.read_write_of_disjoint (by simp [magicOff, verfOff]),
      Image.read_write_of_disjoint (by simp [magicOff, flagsOff]),
      Image.read_write_of_disjoint (by simp [magicOff, versionOff]), hread]
  · rw [prepare, Image.read_congr fun x hx hx' => xorVerf_frame
      (by simp only [versionOff, verfOff] at *; omega)]
    rw [Image.read_write_of_disjoint (by simp [versionOff, pad2Off]),
      Image.read_write_of_disjoint (by simp [versionOff, pad1Off]),
      Image.read_write_of_disjoint (by simp [versionOff, verfOff]),
      Image.read_write_of_disjoint (by simp [versionOff, flagsOff]), hread]
  · rw [prepare, verfMask_congr (fun j hj => xorVerf_sess _ hj) fun _ hj => List.mem_range.mp hj,
      xorVerf_apply, Image.write_apply_of_disjoint, Image.write_apply_of_disjoint,
      Image.write_apply_of_mem (by rwa [List.length_replicate]), List.getElem_replicate,
      UInt8.zero_xor]
    · unfold verfOff pad1Off
      right
      rw [List.length_singleton]
      omega
    · unfold verfSize at hi
      unfold verfOff pad2Off
      omega

/-- The blocks start with a byte that keeps them below the modulus. -/
theorem prepare_pads (e : ByteOrder) (m : Image) :
    prepare e m pad1Off &&& 0xC0 = 0 ∧ prepare e m pad2Off &&& 0xC0 = 0 := by
  have hmask : ∀ b : UInt8, b &&& 0x3f &&& 0xC0 = 0 := by
    intro b
    rw [UInt8.and_assoc, show (0x3f : UInt8) &&& 0xC0 = 0 by decide, UInt8.and_zero]
  constructor
  · rw [prepare, xorVerf_frame (by unfold pad1Off verfOff; omega),
      Image.write_apply_of_disjoint (by unfold pad1Off pad2Off; omega)]
    exact (congrArg (· &&& 0xC0) (Image.write_apply_of_mem (i := 0) (by simp))).trans (hmask _)
  · rw [prepare, xorVerf_frame (by unfold pad2Off verfOff verfSize; omega)]
    exact (congrArg (· &&& 0xC0) (Image.write_apply_of_mem (i := 0) (by simp))).trans (hmask _)

end

/-! ## What is sent -/

section

variable {ep : Endpoint} {l : KeyPair} {i fuel : Nat} {s s' : SendState}

theorem bump_frame (m : Image) {x : Nat} (h : x < i + 4 ∨ i + 8 ≤ x) : bump ep m i x = m x :=
  Image.write_apply_of_disjoint (by rw [length_bytes]; omega)

/-- The counters in the pads are all that sending changes in the handshake. -/
def OnlyCounters (is : List Nat) (m m' : Image) : Prop :=
  ∀ x, (∀ i ∈ is, x < i + 4 ∨ i + 8 ≤ x) → m' x = m x

/-- The state after `retry` at the block `i`. -/
structure Retried (ep : Endpoint) (i : Nat) (s s' : SendState) : Prop where
  error : s'.error = s.error
  wire : s'.wire = s.wire
  frame : OnlyCounters [i] s.tx s'.tx
  stage : ep.own.privateOp (s'.tx.read i ep.remote.size) = some s'.buf1
  length : s'.buf1.length = ep.own.size

/-- The first stage never blows out the modulus. -/
theorem retryTurn_spec (hsize : ep.remote.size = ep.own.size) (hpos : 0 < ep.own.size)
    (hpad : s.tx i &&& 0xC0 = 0) : Retried ep i s (retryTurn ep i s) := by
  have hlen : ((bump ep s.tx i).read i ep.remote.size).length = ep.own.size := by
    rw [Image.length_read, hsize]
  have hhead : ((bump ep s.tx i).read i ep.remote.size).headD 0 = s.tx i := by
    obtain ⟨n, hn⟩ : ∃ n, ep.remote.size = 1 + n := ⟨ep.remote.size - 1, by omega⟩
    rw [hn, Image.read_add, Image.read, List.range_one, List.map_singleton, List.singleton_append,
      List.headD_cons, bump_frame _ (by omega), Nat.add_zero]
  obtain ⟨out, hout, hl⟩ := blockOp_some (f := ep.own.priv) hlen
    (KeyPair.fromBE_lt_of_head hlen hpos (hhead ▸ hpad))
  have hstep : retryTurn ep i s = { s with tx := bump ep s.tx i, buf1 := out } := by
    rw [retryTurn, KeyPair.privateOp, hout]
  rw [hstep]
  exact ⟨rfl, rfl, fun x hx => bump_frame _ (hx i List.mem_cons_self), hout, hl⟩

theorem Retried.trans {t : SendState} (h1 : Retried ep i s t) (h2 : Retried ep i t s') :
    Retried ep i s s' :=
  ⟨h2.error.trans h1.error, h2.wire.trans h1.wire,
    fun x hx => (h2.frame x hx).trans (h1.frame x hx), h2.stage, h2.length⟩

theorem Retried.pad (h : Retried ep i s s') (hpad : s.tx i &&& 0xC0 = 0) :
    s'.tx i &&& 0xC0 = 0 := by
  rw [h.frame i (by intro j hj; rw [List.mem_singleton.mp hj]; omega)]
  exact hpad

/-- A retry loop that ends leaves a first stage that fits the second modulus. -/
theorem retry_spec (hsize : ep.remote.size = ep.own.size) (hpos : 0 < ep.own.size)
    (hpad : s.tx i &&& 0xC0 = 0) (h : retry ep i fuel s = .ok s') :
    Retried ep i s s' ∧ s'.buf1.headD 0 &&& 0xC0 = 0 := by
  induction fuel generalizing s with
  | zero => cases h
  | succ fuel ih =>
    have hturn := retryTurn_spec hsize hpos hpad
    rw [retry] at h
    split at h
    next hhead =>
      cases h
      exact ⟨hturn, hhead⟩
    next =>
      obtain ⟨hrest, hhead⟩ := ih (hturn.pad hpad) h
      exact ⟨hturn.trans hrest, hhead⟩

/-- The blocks at `is` have been sent as `cs`. -/
structure SentBlocks (ep : Endpoint) (is : List Nat) (s s' : SendState)
    (cs : List (List UInt8)) : Prop where
  error : s'.error = s.error
  wire : s'.wire = s.wire ++ cs.flatten
  frame : OnlyCounters is s.tx s'.tx
  blocks : List.Forall₂ (fun i c => c.length = ep.remote.size ∧
    ep.own.Sealed ep.remote (s'.tx.read i ep.remote.size) c) is cs

theorem sendLoop_spec {is : List Nat} (hsize : ep.remote.size = ep.own.size)
    (hpos : 8 ≤ ep.own.size) (hremote : ep.remote = l.publicKey)
    (hpads : ∀ i ∈ is, s.tx i &&& 0xC0 = 0)
    (hapart : is.Pairwise fun i j => i + ep.own.size ≤ j)
    (h : sendLoop ep fuel is s = .ok s') : ∃ cs, SentBlocks ep is s s' cs := by
  induction is generalizing s with
  | nil =>
    cases h
    exact ⟨[], rfl, (List.append_nil _).symm, fun _ _ => rfl, .nil⟩
  | cons i is ih =>
    rw [sendLoop] at h
    rw [List.pairwise_cons] at hapart
    split at h
    next => cases h
    next t ht =>
      obtain ⟨hretry, hhead⟩ := retry_spec hsize (by omega) (hpads i List.mem_cons_self) ht
      have hl : l.size = ep.own.size := by rw [← hsize, hremote]; rfl
      obtain ⟨c, hc, hclen⟩ := blockOp_some (f := l.pub) (hretry.length.trans hl.symm)
        (KeyPair.fromBE_lt_of_head (hretry.length.trans hl.symm) (by omega) hhead)
      have hop : ep.remote.publicOp t.buf1 = some c := by
        rw [hremote, ← hc]
        rfl
      have hblock : sendBlock ep t = { t with buf2 := c, wire := t.wire ++ c } := by
        rw [sendBlock, hop]
      rw [hblock] at h
      have hpads' : ∀ j ∈ is, t.tx j &&& 0xC0 = 0 := by
        intro j hj
        have := hapart.1 j hj
        rw [hretry.frame j (by intro k hk; rw [List.mem_singleton.mp hk]; omega)]
        exact hpads j (List.mem_cons_of_mem _ hj)
      obtain ⟨cs, hcs⟩ := ih (s := { t with buf2 := c, wire := t.wire ++ c })
        hpads' hapart.2 h
      -- the counters of the later blocks are not in this one
      have hkeep : s'.tx.read i ep.remote.size = t.tx.read i ep.remote.size := by
        refine Image.read_congr fun x hx hx' => hcs.frame x fun j hj => ?_
        have := hapart.1 j hj
        omega
      refine ⟨c :: cs, hcs.error.trans hretry.error, ?_, ?_, .cons ⟨?_, ?_⟩ hcs.blocks⟩
      · rw [hcs.wire, List.flatten_cons, ← List.append_assoc, ← hretry.wire]
      · intro x hx
        rw [hcs.frame x fun j hj => hx j (List.mem_cons_of_mem _ hj)]
        exact hretry.frame x fun j hj => hx j (List.mem_singleton.mp hj ▸ List.mem_cons_self)
      · rw [hclen, hl, hsize]
      · exact ⟨t.buf1, hkeep ▸ hretry.stage, hop⟩

/-- What an endpoint has sent, block by block. -/
structure Sent (ep : Endpoint) (s : SendState) : Prop where
  size : ep.remote.size = ep.own.size
  error : s.error = none
  length : s.wire.length = handshakeSize
  wellFormed : WellFormed ep.order s.tx
  blocks : ∀ j, ep.remote.size * (j + 1) ≤ handshakeSize →
    ep.own.Sealed ep.remote (s.tx.read (ep.remote.size * j) ep.remote.size)
      (slice s.wire (ep.remote.size * j) (ep.remote.size * (j + 1)))

/-- The sizes for which every block starts with a pad. -/
def PadSize (n : Nat) : Prop := n = 256 ∨ n = 512

theorem blockOffsets_pad {n : Nat} (hn : PadSize n) :
    ∀ i ∈ blockOffsets n, i = pad1Off ∨ i = pad2Off := by
  rcases hn with rfl | rfl <;> decide

theorem blockOffsets_apart {n : Nat} (hn : PadSize n) :
    (blockOffsets n).Pairwise fun i j => i + n ≤ j := by
  rcases hn with rfl | rfl <;> decide

theorem encryptStage_spec (hn : PadSize ep.own.size) (hremote : ep.remote = l.publicKey)
    (h : encryptStage ep fuel = .ok s) : Sent ep s := by
  unfold encryptStage at h
  dsimp only at h
  split at h
  next => cases h
  next hkeys =>
    obtain ⟨hsize, hdvd⟩ := not_or.mp hkeys
    rw [not_not] at hsize hdvd
    split at h
    next => cases h
    next =>
      have hpads : ∀ i ∈ blockOffsets ep.remote.size,
          prepare ep.order ep.fill i &&& 0xC0 = 0 := by
        intro i hi
        rcases blockOffsets_pad (hsize ▸ hn) i hi with rfl | rfl
        · exact (prepare_pads _ _).1
        · exact (prepare_pads _ _).2
      obtain ⟨cs, hcs⟩ := sendLoop_spec hsize (by rcases hn with hn | hn <;> omega) hremote hpads
        (hsize ▸ blockOffsets_apart (hsize ▸ hn)) h
      have hlen : cs.length = handshakeSize / ep.remote.size := by
        rw [← hcs.blocks.length_eq, blockOffsets, List.length_map, List.length_range]
      have hall : ∀ c ∈ cs, c.length = ep.remote.size := by
        intro c hc
        obtain ⟨j, hj, rfl⟩ := List.getElem_of_mem hc
        exact (hcs.blocks.get (hcs.blocks.length_eq ▸ hj) hj).1
      have hwire : s.wire = cs.flatten := hcs.wire
      refine ⟨hsize, hcs.error, ?_, (prepare_wellFormed _ ep.fill).congr ?_, fun j hj => ?_⟩
      · rw [hwire, length_flatten_blocks hall, hlen]
        exact Nat.mul_div_cancel' (Nat.dvd_of_mod_eq_zero hdvd)
      · intro x hx hx'
        apply hcs.frame
        intro i hi
        simp only [magicOff, quickmsgOff] at hx hx'
        rcases blockOffsets_pad (hsize ▸ hn) i hi with rfl | rfl
        · unfold pad1Off
          omega
        · unfold pad2Off
          omega
      · have hj' : j < cs.length := by
          rw [hlen]
          refine (Nat.le_div_iff_mul_le ?_).mpr (by rwa [Nat.mul_comm])
          rcases hn with hn | hn <;> omega
        have hget := (hcs.blocks.get (hcs.blocks.length_eq ▸ hj') hj').2
        rw [hwire, slice_flatten_blocks hall hj']
        simpa [blockOffsets] using hget

end

/-! ## What is received -/

section

variable {ep : Endpoint} {k : Nat → Nat} {plain : Image} {wire : List UInt8}

/-- The blocks of `wire` decrypt to those of `plain`. -/
def OpensTo (ep : Endpoint) (plain : Image) (wire : List UInt8) : Prop :=
  ∀ j, ep.remote.size * (j + 1) ≤ handshakeSize → ∃ mid,
    ep.own.privateOp (slice wire (ep.remote.size * j) (ep.remote.size * (j + 1))) = some mid ∧
      ep.remote.publicOp mid = some (plain.read (ep.remote.size * j) ep.remote.size)

/-- The decryption of block `j`, when it is complete. -/
def decryption (size : Nat) (wire : List UInt8) (j : Nat) : Decryption :=
  ⟨size * j, size * (j + 1), slice wire (size * j) (size * (j + 1))⟩

/-- `j` blocks have been read and decrypted, and `r` bytes of the next one have come in. -/
structure ReadAt (ep : Endpoint) (plain : Image) (wire : List UInt8) (j r : Nat)
    (s : ReadState) : Prop where
  i : s.i = ep.remote.size * j + r
  lt : r < ep.remote.size
  le : s.i ≤ handshakeSize
  input : s.input = wire.drop s.i
  error : s.error = none
  done : s.rx.read 0 (ep.remote.size * j) = plain.read 0 (ep.remote.size * j)
  part : s.rx.read (ep.remote.size * j) r = slice wire (ep.remote.size * j) s.i
  log : s.log = (List.range j).map (decryption ep.remote.size wire)

theorem decryptBlock_spec {s : ReadState} {j : Nat} (hopen : OpensTo ep plain wire)
    (hi : s.i = ep.remote.size * (j + 1)) (hpos : 0 < ep.remote.size)
    (hle : s.i ≤ handshakeSize) (hinput : s.input = wire.drop s.i) (herr : s.error = none)
    (hdone : s.rx.read 0 (ep.remote.size * j) = plain.read 0 (ep.remote.size * j))
    (hblock : s.rx.read (ep.remote.size * j) ep.remote.size =
      slice wire (ep.remote.size * j) (ep.remote.size * (j + 1)))
    (hlog : s.log = (List.range j).map (decryption ep.remote.size wire)) :
    ReadAt ep plain wire (j + 1) 0 (decryptBlock ep (ep.remote.size * j) s) ∧
      (decryptBlock ep (ep.remote.size * j) s).i = s.i := by
  obtain ⟨mid, hpriv, hpub⟩ := hopen j (hi ▸ hle)
  have hstep : decryptBlock ep (ep.remote.size * j) s = { s with
      log := s.log ++ [decryption ep.remote.size wire j]
      buf1 := mid
      rx := s.rx.write (ep.remote.size * j)
        (plain.read (ep.remote.size * j) ep.remote.size) } := by
    simp only [decryptBlock, hblock, hpriv, hpub, decryption, hi]
  rw [hstep]
  refine ⟨⟨hi, hpos, hle, hinput, herr, ?_, ?_, ?_⟩, rfl⟩
  · rw [Nat.mul_succ, Image.read_add, Image.read_add, Nat.zero_add,
      Image.read_write_of_disjoint (Or.inl (by omega)), hdone]
    congr 1
    exact Image.read_write_of_length Image.length_read
  · rw [hi, slice_self]
    rfl
  · rw [hlog, List.range_succ, List.map_append, List.map_singleton]

/-- One pass reads on in the block at hand, and decrypts it if that completes it. -/
theorem readPass_spec {s : ReadState} {j r t : Nat} (hpow : ep.remote.size = 2 ^ t)
    (hlen : wire.length = handshakeSize)
    (hk : ∀ c, 0 < k c) (hopen : OpensTo ep plain wire) (hs : ReadAt ep plain wire j r s)
    (hlt : s.i < handshakeSize) :
    ∃ s' j' r', readPass ep k s = some s' ∧ s.i < s'.i ∧ ReadAt ep plain wire j' r' s' := by
  have hmask : ∀ j r, r < ep.remote.size →
      ep.remote.size * j + r &&& ep.remote.size - 1 = r := by
    intro j r hr
    rw [hpow, Nat.and_two_pow_sub_one_eq_mod, ← hpow, Nat.mul_add_mod, Nat.mod_eq_of_lt hr]
  have hr := hs.lt
  have hinput : s.input.length = handshakeSize - s.i := by
    rw [hs.input, List.length_drop, hlen]
  unfold readPass
  simp only [hs.i, hmask j r hr, Nat.add_sub_cancel]
  rw [← hs.i]
  obtain ⟨n, hn⟩ : ∃ n, n = min (k s.calls) (min (ep.remote.size - r) s.input.length) := ⟨_, rfl⟩
  have hkc := hk s.calls
  rw [← hn, if_neg (by omega)]
  have htake : (s.input.take n).length = n := by rw [List.length_take]; omega
  have hdone : (s.rx.write s.i (s.input.take n)).read 0 (ep.remote.size * j) =
      plain.read 0 (ep.remote.size * j) := by
    rw [Image.read_write_of_disjoint (Or.inl (by rw [hs.i]; omega)), hs.done]
  have hpart : (s.rx.write s.i (s.input.take n)).read (ep.remote.size * j) (r + n) =
      slice wire (ep.remote.size * j) (s.i + n) := by
    have hnew := Image.read_write_of_length (m := s.rx) (o := s.i) htake
    have hslice : s.input.take n = slice wire s.i (s.i + n) := by
      rw [slice, hs.input, Nat.add_sub_cancel_left]
    rw [Image.read_add, ← hs.i, hnew, Image.read_write_of_disjoint (Or.inl (by rw [hs.i])),
      hs.part, hslice]
    exact slice_append wire _ s.i _ (by rw [hs.i]; omega) (by omega)
  by_cases hfull : r + n = ep.remote.size
  · have hi' : s.i + n = ep.remote.size * (j + 1) := by rw [hs.i, Nat.mul_succ]; omega
    have hzero : s.i + n &&& ep.remote.size - 1 = 0 := by
      have := hmask (j + 1) 0 (by omega)
      rwa [Nat.add_zero, ← hi'] at this
    rw [if_pos hzero]
    obtain ⟨hat, hi⟩ := decryptBlock_spec (s := { s with
        rx := s.rx.write s.i (s.input.take n), i := s.i + n, input := s.input.drop n,
        calls := s.calls + 1 }) hopen hi' (by omega) (by show s.i + n ≤ _; omega)
      (by rw [hs.input, List.drop_drop]) hs.error hdone
      (by rw [← hi', ← hpart, hfull]) hs.log
    exact ⟨_, j + 1, 0, rfl, by rw [hi]; show s.i < s.i + n; omega, hat⟩
  · have hne : s.i + n &&& ep.remote.size - 1 ≠ 0 := by
      rw [hs.i, Nat.add_assoc, hmask j (r + n) (by omega)]
      omega
    rw [if_neg hne]
    exact ⟨_, j, r + n, rfl, by show s.i < s.i + n; omega, by
      refine ⟨by show s.i + n = _; rw [hs.i, Nat.add_assoc], by omega,
        by show s.i + n ≤ _; omega, by rw [hs.input, List.drop_drop], hs.error, hdone, hpart, hs.log⟩⟩

theorem readLoop_spec {s : ReadState} {j r t passes : Nat} (hpow : ep.remote.size = 2 ^ t)
    (hlen : wire.length = handshakeSize) (hk : ∀ c, 0 < k c) (hopen : OpensTo ep plain wire)
    (hs : ReadAt ep plain wire j r s) (hpasses : handshakeSize ≤ s.i + passes) :
    ∃ j' r', ReadAt ep plain wire j' r' (readLoop ep k passes s) ∧
      (readLoop ep k passes s).i = handshakeSize := by
  induction passes generalizing s j r with
  | zero => exact ⟨j, r, hs, Nat.le_antisymm hs.le hpasses⟩
  | succ passes ih =>
    rw [readLoop]
    split
    next hlt =>
      obtain ⟨s', j', r', hpass, hmore, hs'⟩ := readPass_spec hpow hlen hk hopen hs hlt
      rw [hpass]
      exact ih hs' (by omega)
    next hge => exact ⟨j, r, hs, Nat.le_antisymm hs.le (Nat.le_of_not_lt hge)⟩

/-- The handshake has come in whole, and each block was decrypted when it was complete. -/
theorem receive_spec {s : SendState} (hn : PadSize ep.remote.size)
    (hlen : wire.length = handshakeSize) (hk : ∀ c, 0 < k c) (hopen : OpensTo ep plain wire)
    (herr : s.error = none) :
    let r := receive ep wire k s
    r.error = none ∧ r.i = handshakeSize ∧
      r.rx.read 0 handshakeSize = plain.read 0 handshakeSize ∧
      r.log = (List.range (handshakeSize / ep.remote.size)).map
        (decryption ep.remote.size wire) := by
  obtain ⟨t, hpow⟩ : ∃ t, ep.remote.size = 2 ^ t := by
    rcases hn with hn | hn
    · exact ⟨8, hn⟩
    · exact ⟨9, hn⟩
  have hstart : ReadAt ep plain wire 0 0
      { rx := fun _ => 0, i := 0, input := wire, calls := 0, buf1 := s.buf1, error := s.error,
        log := [] } :=
    ⟨rfl, by rw [hpow]; exact Nat.two_pow_pos t, Nat.zero_le _, rfl, herr, rfl,
      (slice_self _ _).symm, rfl⟩
  obtain ⟨j, r, hat, hi⟩ := readLoop_spec hpow hlen hk hopen hstart (Nat.le_of_eq (Nat.zero_add _).symm)
  -- the block size divides the whole
  have hend : r = 0 ∧ j = handshakeSize / ep.remote.size ∧ ep.remote.size * j = handshakeSize := by
    have hi' := hat.i.symm.trans hi
    have hr := hat.lt
    unfold handshakeSize at hi' ⊢
    rcases hn with hn | hn <;> rw [hn] at hi' hr ⊢ <;> omega
  obtain ⟨-, hj, hall⟩ := hend
  exact ⟨hat.error, hi, hall ▸ hat.done, hj ▸ hat.log⟩

end

/-! ## Both ends -/

section

variable {a b : Endpoint} {fa fb : Nat} {sa sb : SendState} {k : Nat → Nat}

/-- What one end sends, the other one opens. -/
theorem opensTo_of_sent (hab : a.remote = b.own.publicKey) (hba : b.remote = a.own.publicKey)
    (ha : Sent a sa) (hb : Sent b sb) : OpensTo b sa.tx sa.wire := by
  have hsize : b.remote.size = a.remote.size := by
    rw [hb.size, hab]
    rfl
  intro j hj
  rw [hsize] at hj ⊢
  have hseal := ha.blocks j hj
  nth_rewrite 1 [hab] at hseal
  rw [hba]
  exact KeyPair.sealed_open hseal

theorem sessInit_congr {m m' : Image} (h : m.read 0 handshakeSize = m'.read 0 handshakeSize) :
    sessInit m = sessInit m' := by
  have hx : ∀ x < handshakeSize, m x = m' x := by
    intro x hx
    have := Image.eq_of_read_eq h hx
    rwa [Nat.zero_add] at this
  have hread : ∀ o len, o + len ≤ handshakeSize → m.read o len = m'.read o len :=
    fun o len hle => Image.read_congr fun x _ hx' => hx x (by omega)
  rw [sessInit, sessInit, hread _ _ (by decide), hread _ _ (by decide)]

theorem sessInit_isSome (m : Image) : (sessInit m).isSome = true := rfl

/-- The outcome at `ep` when `peer` is what the other end has sent. -/
def settled (ep : Endpoint) (s peer : SendState) : Outcome :=
  { wire := s.wire, error := none, eof := false, crypted := true, ioqRx := sessInit peer.tx,
    ioqTx := sessInit s.tx,
    log := (List.range (handshakeSize / ep.remote.size)).map
      (decryption ep.remote.size peer.wire) }

theorem negotiate_spec (hsize : PadSize b.own.size) (hab : a.remote = b.own.publicKey)
    (hba : b.remote = a.own.publicKey) (ha : Sent a sa) (hb : Sent b sb) (hk : ∀ c, 0 < k c)
    (h : encryptStage b fb = .ok sb) :
    dmsgCryptoNegotiate b fb sa.wire k = some (settled b sb sa) := by
  obtain ⟨herr, hi, hrx, hlog⟩ := receive_spec (hb.size ▸ hsize) ha.length hk
    (opensTo_of_sent hab hba ha hb) hb.error
  have hver : verify b (receive b sa.wire k sb).rx = true := by
    refine WellFormed.verify (ha.wellFormed.congr fun x _ hx => ?_) b
    have := Image.eq_of_read_eq hrx (i := x) (by unfold quickmsgOff at hx; unfold handshakeSize; omega)
    rwa [Nat.zero_add] at this
  obtain ⟨rx, hrxInit⟩ := Option.isSome_iff_exists.mp (sessInit_isSome sa.tx)
  obtain ⟨tx, htxInit⟩ := Option.isSome_iff_exists.mp (sessInit_isSome sb.tx)
  have hinit : sessInit (receive b sa.wire k sb).rx = some rx := (sessInit_congr hrx).trans hrxInit
  simp only [dmsgCryptoNegotiate, h, hb.error, finish, herr, hi, hver, hinit, hrxInit, htxInit,
    hlog, settled, ne_eq, not_true_eq_false, if_false, Bool.true_eq_false]

/-- If the retry loops of both ends come to an end, both ends verify what they receive, decrypting
    each block once and when it is complete, and each receives with the key and IV that the other
    one transmits with. -/
theorem handshake_agreement (ka kb : Nat → Nat) (hsizeA : PadSize a.own.size)
    (hsizeB : PadSize b.own.size) (hab : a.remote = b.own.publicKey)
    (hba : b.remote = a.own.publicKey) (hka : ∀ c, 0 < ka c) (hkb : ∀ c, 0 < kb c)
    (ha : encryptStage a fa = .ok sa) (hb : encryptStage b fb = .ok sb) :
    ∃ oa ob, dmsgCryptoNegotiate a fa ob.wire ka = some oa ∧
      dmsgCryptoNegotiate b fb oa.wire kb = some ob ∧
      (oa.error = none ∧ oa.eof = false ∧ oa.crypted = true) ∧
      (ob.error = none ∧ ob.eof = false ∧ ob.crypted = true) ∧
      oa.log = (List.range (handshakeSize / a.remote.size)).map
        (decryption a.remote.size ob.wire) ∧
      ob.log = (List.range (handshakeSize / b.remote.size)).map
        (decryption b.remote.size oa.wire) ∧
      (∃ c, oa.ioqRx = some c ∧ ob.ioqTx = some c) ∧
      (∃ c, ob.ioqRx = some c ∧ oa.ioqTx = some c) := by
  have hsa := encryptStage_spec hsizeA hab ha
  have hsb := encryptStage_spec hsizeB hba hb
  obtain ⟨ca, hca⟩ := Option.isSome_iff_exists.mp (sessInit_isSome sa.tx)
  obtain ⟨cb, hcb⟩ := Option.isSome_iff_exists.mp (sessInit_isSome sb.tx)
  exact ⟨settled a sa sb, settled b sb sa, negotiate_spec hsizeA hba hab hsb hsa hka ha,
    negotiate_spec hsizeB hab hba hsa hsb hkb hb, ⟨rfl, rfl, rfl⟩, ⟨rfl, rfl, rfl⟩, rfl, rfl,
    ⟨cb, hcb, hcb⟩, ca, hca, hca⟩

end

/-- A key pair whose operations add and subtract `k`. -/
def shiftPair (k : Nat) : KeyPair where
  size := 256
  modulus := 256 ^ 256 - 1
  pub := fun n => (n + k % (256 ^ 256 - 1)) % (256 ^ 256 - 1)
  priv := fun n => (n + (256 ^ 256 - 1 - k % (256 ^ 256 - 1))) % (256 ^ 256 - 1)
  top_bit := by decide +kernel
  fits := by decide +kernel
  pub_lt := fun _ _ => Nat.mod_lt _ (by decide +kernel)
  priv_lt := fun _ _ => Nat.mod_lt _ (by decide +kernel)
  pub_priv := fun n h => by
    have hk : k % (256 ^ 256 - 1) ≤ 256 ^ 256 - 1 := (Nat.mod_lt k (by decide +kernel)).le
    rw [Nat.mod_add_mod, Nat.add_assoc, Nat.sub_add_cancel hk, Nat.add_mod_right,
      Nat.mod_eq_of_lt h]
  priv_pub := fun n h => by
    have hk : k % (256 ^ 256 - 1) ≤ 256 ^ 256 - 1 := (Nat.mod_lt k (by decide +kernel)).le
    rw [Nat.mod_add_mod, Nat.add_assoc, Nat.add_sub_cancel' hk, Nat.add_mod_right,
      Nat.mod_eq_of_lt h]

/-- An end with such a pair, whose random numbers are all `c`. -/
def shiftEnd (e : ByteOrder) (c : UInt8) (own remote : Nat) : Endpoint where
  order := e
  own := shiftPair own
  remote := (shiftPair remote).publicKey
  fill := fun _ => c
  stack := []

/-- Two such ends of different byte order, one that reads byte by byte. -/
theorem handshake_agreement_shifted :
    ∃ oa ob, dmsgCryptoNegotiate (shiftEnd .little 1 5 7) 1 ob.wire (fun _ => 1) = some oa ∧
      dmsgCryptoNegotiate (shiftEnd .big 2 7 5) 1 oa.wire (fun _ => 512) = some ob ∧
      oa.error = none ∧ ob.error = none ∧ oa.ioqRx = ob.ioqTx ∧ ob.ioqRx = oa.ioqTx := by
  obtain ⟨sa, ha⟩ := exists_ok (x := encryptStage (shiftEnd .little 1 5 7) 1) (by decide +kernel)
  obtain ⟨sb, hb⟩ := exists_ok (x := encryptStage (shiftEnd .big 2 7 5) 1) (by decide +kernel)
  obtain ⟨oa, ob, h1, h2, h3, h4, -, -, ⟨c, h5, h6⟩, d, h7, h8⟩ :=
    handshake_agreement (fun _ => 1) (fun _ => 512) (Or.inl rfl) (Or.inl rfl) rfl rfl
      (fun _ => Nat.one_pos) (fun _ => Nat.succ_pos _) ha hb
  exact ⟨oa, ob, h1, h2, h3.1, h4.1, h5.trans h6.symm, h7.trans h8.symm⟩

end Lh1.Dmsg
