/-
  The chunk ciphers of an encrypted dmsg link (lib/libdmsg/crypto.c): `dmsg_crypto_decrypt` and
  the `dec_chunk` entry of the algorithm table.

  The FIFO of an ioq holds decrypted bytes from `fifo_beg` to `fifo_cdx` and bytes still to be
  decrypted from `fifo_cdn` to `fifo_end`. `dmsg_crypto_decrypt` decrypts in place, one chunk of
  64 bytes after the other. It ignores what `dec_chunk` returns: a chunk that failed advances
  `fifo_cdx` but neither `fifo_cdn` nor the loop.

  * `decryptLoop_ordered_iff`: the loop ends with the FIFO in order exactly if enough chunks
    succeed before the failures have used up the gap between `fifo_cdx` and `fifo_cdn`.
  * `decrypt_contained_iff` says the same of `dmsg_crypto_decrypt`.
-/
import Lh1.Dmsg.Ioq
import Mathlib.Data.Nat.Count

namespace Lh1.Dmsg

open Lh1.Lib

/-- `DMSG_CRYPTO_CHUNK_SIZE`. -/
def dmsgCryptoChunkSize : Nat := 64

/-- `enc_chunk` or `dec_chunk` of the algorithm in use: what the call with number `n` on an ioq
    makes of a chunk, or the error it leaves in the ioq. -/
abbrev ChunkFn := Nat → List UInt8 → Except IoqError (List UInt8)

/-- `dmsg_crypto_gcm_decrypt_chunk`. The call that would set the running IV is commented out
    and its result is 0, so every chunk takes the failure exit. -/
def dmsgCryptoGcmDecryptChunk : ChunkFn := fun _ _ => .error .algo

inductive CryptoFault where
  | fuel     -- the loop is still running
  | overrun  -- a decrypted chunk is stored behind `ioq->buf`
  deriving DecidableEq, Repr

/-! ## `dmsg_crypto_decrypt` -/

section

variable (decChunk : ChunkFn)

/-- `while (p_len >= DMSG_CRYPTO_CHUNK_SIZE)`. A chunk that was decrypted is consumed
    (`used` is its size); one that failed is not (`used` is 0). -/
def decryptLoop : Nat → Nat → DmsgIoq → Except CryptoFault DmsgIoq
  | 0, pLen, ioq => if dmsgCryptoChunkSize ≤ pLen then .error .fuel else .ok ioq
  | fuel + 1, pLen, ioq =>
    if dmsgCryptoChunkSize ≤ pLen then
      let buf := slice ioq.buf ioq.fifoCdn (ioq.fifoCdn + dmsgCryptoChunkSize)
      match decChunk ioq.chunks buf with
      | .ok pt =>
        if dmsgBufSize < ioq.fifoCdx + dmsgCryptoChunkSize then .error .overrun
        else decryptLoop fuel (pLen - dmsgCryptoChunkSize) { ioq with
          buf := blit ioq.buf ioq.fifoCdx pt
          chunks := ioq.chunks + 1
          fifoCdn := ioq.fifoCdn + dmsgCryptoChunkSize
          fifoCdx := ioq.fifoCdx + dmsgCryptoChunkSize }
      | .error e => decryptLoop fuel pLen { ioq with
          error := some e
          chunks := ioq.chunks + 1
          fifoCdx := ioq.fifoCdx + dmsgCryptoChunkSize }
    else .ok ioq

def dmsgCryptoDecrypt (fuel : Nat) (ioq : DmsgIoq) : Except CryptoFault DmsgIoq :=
  let pLen := ioq.fifoEnd - ioq.fifoCdn
  if pLen = 0 then .ok ioq
  else decryptLoop decChunk fuel pLen ioq

end

/-! ## When it ends, and with which FIFO -/

/-- The order the FIFO indices are meant to keep. -/
def FifoOrdered (ioq : DmsgIoq) : Prop :=
  ioq.fifoBeg ≤ ioq.fifoCdx ∧ ioq.fifoCdx ≤ ioq.fifoCdn ∧ ioq.fifoCdn ≤ ioq.fifoEnd ∧
    ioq.fifoEnd ≤ dmsgBufSize

instance (ioq : DmsgIoq) : Decidable (FifoOrdered ioq) :=
  inferInstanceAs (Decidable (_ ∧ _ ∧ _ ∧ _))

/-- How many of the `k` chunks from number `c` on are decrypted. -/
def successes (out : Nat → Except IoqError (List UInt8)) (c k : Nat) : Nat :=
  Nat.count (fun i => (out (c + i)).isOk = true) k

/-- Of the outcomes from `c` on, `n` successes come before the failures have moved `fifo_cdx`
    past `fifo_cdn`. -/
def Contained (out : Nat → Except IoqError (List UInt8)) (c n : Nat) (cdx cdn : Nat) : Prop :=
  ∃ k, successes out c k = n ∧ cdx + dmsgCryptoChunkSize * (k - n) ≤ cdn

section

variable {out : Nat → Except IoqError (List UInt8)} {c k n cdx cdn : Nat}

theorem successes_le (out : Nat → Except IoqError (List UInt8)) (c k : Nat) :
    successes out c k ≤ k := Nat.count_le _

theorem successes_succ_ok {pt : List UInt8} (h : out c = .ok pt) :
    successes out c (k + 1) = successes out (c + 1) k + 1 := by
  unfold successes
  rw [Nat.count_succ', if_pos (by rw [Nat.add_zero, h]; rfl)]
  simp only [Nat.add_assoc, Nat.add_comm 1]

theorem successes_succ_error {e : IoqError} (h : out c = .error e) :
    successes out c (k + 1) = successes out (c + 1) k := by
  unfold successes
  rw [Nat.count_succ', if_neg (by rw [Nat.add_zero, h]; exact Bool.false_ne_true), Nat.add_zero]
  simp only [Nat.add_assoc, Nat.add_comm 1]

theorem contained_zero : Contained out c 0 cdx cdn ↔ cdx ≤ cdn := by
  constructor
  · rintro ⟨k, -, h⟩
    omega
  · intro h
    exact ⟨0, rfl, by simpa using h⟩

/-- A decrypted chunk moves both indices by its size. -/
theorem contained_ok {pt : List UInt8} (h : out c = .ok pt) :
    Contained out c (n + 1) cdx cdn ↔ Contained out (c + 1) n cdx cdn := by
  constructor
  · rintro ⟨k, hs, hle⟩
    cases k with
    | zero => cases hs
    | succ k =>
      rw [successes_succ_ok h] at hs
      exact ⟨k, by omega, by rwa [Nat.add_sub_add_right] at hle⟩
  · rintro ⟨k, hs, hle⟩
    exact ⟨k + 1, by rw [successes_succ_ok h, hs], by rwa [Nat.add_sub_add_right]⟩

/-- A failed chunk moves `fifo_cdx` only. -/
theorem contained_error {e : IoqError} (h : out c = .error e) :
    Contained out c (n + 1) cdx cdn ↔
      Contained out (c + 1) (n + 1) (cdx + dmsgCryptoChunkSize) cdn := by
  constructor
  · rintro ⟨k, hs, hle⟩
    cases k with
    | zero => cases hs
    | succ k =>
      rw [successes_succ_error h] at hs
      have := successes_le out (c + 1) k
      refine ⟨k, hs, ?_⟩
      rw [show k + 1 - (n + 1) = (k - (n + 1)) + 1 by omega, Nat.mul_succ] at hle
      omega
  · rintro ⟨k, hs, hle⟩
    have := successes_le out (c + 1) k
    refine ⟨k + 1, by rw [successes_succ_error h, hs], ?_⟩
    rw [show k + 1 - (n + 1) = (k - (n + 1)) + 1 by omega, Nat.mul_succ]
    omega

end

section

variable {out : Nat → Except IoqError (List UInt8)} {ioq : DmsgIoq} {pLen : Nat}

/-- The ioq after a chunk that was decrypted to `pt`. -/
def DmsgIoq.decrypted (ioq : DmsgIoq) (pt : List UInt8) : DmsgIoq :=
  { ioq with
    buf := blit ioq.buf ioq.fifoCdx pt
    chunks := ioq.chunks + 1
    fifoCdn := ioq.fifoCdn + dmsgCryptoChunkSize
    fifoCdx := ioq.fifoCdx + dmsgCryptoChunkSize }

/-- The ioq after a chunk that failed with `e`. -/
def DmsgIoq.failedChunk (ioq : DmsgIoq) (e : IoqError) : DmsgIoq :=
  { ioq with
    error := some e
    chunks := ioq.chunks + 1
    fifoCdx := ioq.fifoCdx + dmsgCryptoChunkSize }

variable {decChunk : ChunkFn}

theorem decryptLoop_done (fuel : Nat) (h : ¬ dmsgCryptoChunkSize ≤ pLen) :
    decryptLoop decChunk fuel pLen ioq = .ok ioq := by
  cases fuel <;> rw [decryptLoop, if_neg h]

theorem decryptLoop_ok {pt : List UInt8} (fuel : Nat) (h : dmsgCryptoChunkSize ≤ pLen)
    (hd : decChunk ioq.chunks
      (slice ioq.buf ioq.fifoCdn (ioq.fifoCdn + dmsgCryptoChunkSize)) = .ok pt) :
    decryptLoop decChunk (fuel + 1) pLen ioq =
      if dmsgBufSize < ioq.fifoCdx + dmsgCryptoChunkSize then .error .overrun
      else decryptLoop decChunk fuel (pLen - dmsgCryptoChunkSize) (ioq.decrypted pt) := by
  rw [decryptLoop, if_pos h]
  simp only [hd]
  rfl

theorem decryptLoop_error {e : IoqError} (fuel : Nat) (h : dmsgCryptoChunkSize ≤ pLen)
    (hd : decChunk ioq.chunks
      (slice ioq.buf ioq.fifoCdn (ioq.fifoCdn + dmsgCryptoChunkSize)) = .error e) :
    decryptLoop decChunk (fuel + 1) pLen ioq =
      decryptLoop decChunk fuel pLen (ioq.failedChunk e) := by
  rw [decryptLoop, if_pos h]
  simp only [hd]
  rfl

/-- The number of whole chunks drops by one with each chunk consumed. -/
theorem chunks_pos (h : dmsgCryptoChunkSize ≤ pLen) :
    pLen / dmsgCryptoChunkSize = (pLen - dmsgCryptoChunkSize) / dmsgCryptoChunkSize + 1 := by
  unfold dmsgCryptoChunkSize at *
  omega

theorem contained_of_decryptLoop (fuel pLen : Nat) (ioq : DmsgIoq) {ioq' : DmsgIoq}
    (hp : pLen = ioq.fifoEnd - ioq.fifoCdn) (hend : ioq.fifoEnd ≤ dmsgBufSize)
    (h : decryptLoop (fun n _ => out n) fuel pLen ioq = .ok ioq') (hord : FifoOrdered ioq') :
    Contained out ioq.chunks (pLen / dmsgCryptoChunkSize) ioq.fifoCdx ioq.fifoCdn := by
  induction fuel generalizing ioq pLen with
  | zero =>
    rw [decryptLoop] at h
    split at h
    · cases h
    · rename_i hlt
      cases h
      rw [Nat.div_eq_of_lt (Nat.lt_of_not_le hlt), contained_zero]
      exact hord.2.1
  | succ fuel ih =>
    by_cases hge : dmsgCryptoChunkSize ≤ pLen
    · rw [chunks_pos hge]
      cases hout : out ioq.chunks with
      | ok pt =>
        rw [decryptLoop_ok fuel hge hout] at h
        split at h
        · cases h
        · rw [contained_ok hout]
          have hc := ih _ (ioq.decrypted pt) (by rw [hp, Nat.sub_sub]; rfl) hend h
          obtain ⟨k, hk, hle⟩ := hc
          refine ⟨k, hk, ?_⟩
          have hle' : ioq.fifoCdx + dmsgCryptoChunkSize + _ ≤
            ioq.fifoCdn + dmsgCryptoChunkSize := hle
          omega
      | error e =>
        rw [decryptLoop_error fuel hge hout] at h
        rw [contained_error hout, ← chunks_pos hge]
        exact ih _ (ioq.failedChunk e) hp hend h
    · rw [decryptLoop_done _ hge] at h
      cases h
      rw [Nat.div_eq_of_lt (Nat.lt_of_not_le hge), contained_zero]
      exact hord.2.1

/-- As many iterations as there are outcomes up to the last success needed are enough. -/
theorem decryptLoop_of_contained (k pLen : Nat) (ioq : DmsgIoq)
    (hp : pLen = ioq.fifoEnd - ioq.fifoCdn)
    (hbeg : ioq.fifoBeg ≤ ioq.fifoCdx) (hcdn : ioq.fifoCdn ≤ ioq.fifoEnd)
    (hend : ioq.fifoEnd ≤ dmsgBufSize)
    (hs : successes out ioq.chunks k = pLen / dmsgCryptoChunkSize)
    (hle : ioq.fifoCdx + dmsgCryptoChunkSize * (k - pLen / dmsgCryptoChunkSize) ≤ ioq.fifoCdn) :
    ∃ ioq', decryptLoop (fun n _ => out n) k pLen ioq = .ok ioq' ∧ FifoOrdered ioq' := by
  induction k generalizing ioq pLen with
  | zero =>
    have hge : ¬ dmsgCryptoChunkSize ≤ pLen := by
      intro hge
      rw [chunks_pos hge] at hs
      cases hs
    exact ⟨ioq, decryptLoop_done _ hge, hbeg, by omega, hcdn, hend⟩
  | succ k ih =>
    by_cases hge : dmsgCryptoChunkSize ≤ pLen
    · have hroom : ioq.fifoCdn + dmsgCryptoChunkSize ≤ ioq.fifoEnd := by
        have : 0 < dmsgCryptoChunkSize := by decide
        omega
      have hpos := chunks_pos hge
      cases hout : out ioq.chunks with
      | ok pt =>
        rw [successes_succ_ok hout, hpos] at hs
        rw [hpos, Nat.add_sub_add_right] at hle
        rw [decryptLoop_ok k hge hout, if_neg (by omega)]
        refine ih _ (ioq.decrypted pt) (by rw [hp, Nat.sub_sub]; rfl) ?_ hroom hend
          (Nat.succ.inj hs) ?_
        · exact Nat.le_trans hbeg (Nat.le_add_right _ _)
        · change ioq.fifoCdx + dmsgCryptoChunkSize + _ ≤ ioq.fifoCdn + dmsgCryptoChunkSize
          omega
      | error e =>
        rw [successes_succ_error hout] at hs
        have hk := successes_le out (ioq.chunks + 1) k
        rw [decryptLoop_error k hge hout]
        refine ih _ (ioq.failedChunk e) hp ?_ hcdn hend hs ?_
        · exact Nat.le_trans hbeg (Nat.le_add_right _ _)
        · rw [show k + 1 - pLen / dmsgCryptoChunkSize = (k - pLen / dmsgCryptoChunkSize) + 1 by
            omega, Nat.mul_succ] at hle
          change ioq.fifoCdx + dmsgCryptoChunkSize + _ ≤ ioq.fifoCdn
          omega
    · exact ⟨ioq, decryptLoop_done _ hge, hbeg, by omega, hcdn, hend⟩

theorem decryptLoop_ordered_iff (hp : pLen = ioq.fifoEnd - ioq.fifoCdn)
    (hbeg : ioq.fifoBeg ≤ ioq.fifoCdx) (hcdn : ioq.fifoCdn ≤ ioq.fifoEnd)
    (hend : ioq.fifoEnd ≤ dmsgBufSize) :
    (∃ fuel ioq', decryptLoop (fun n _ => out n) fuel pLen ioq = .ok ioq' ∧ FifoOrdered ioq') ↔
      Contained out ioq.chunks (pLen / dmsgCryptoChunkSize) ioq.fifoCdx ioq.fifoCdn := by
  constructor
  · rintro ⟨fuel, ioq', h, hord⟩
    exact contained_of_decryptLoop fuel pLen ioq hp hend h hord
  · rintro ⟨k, hs, hle⟩
    exact ⟨k, decryptLoop_of_contained k pLen ioq hp hbeg hcdn hend hs hle⟩

end

/-- `dmsg_crypto_decrypt` returns with its FIFO in order exactly if the chunks it has to decrypt
    succeed before the failures on the way have used up the bytes between `fifo_cdx` and
    `fifo_cdn`. -/
theorem decrypt_contained_iff (out : Nat → Except IoqError (List UInt8)) (ioq : DmsgIoq)
    (h : FifoOrdered ioq) :
    (∃ fuel ioq', dmsgCryptoDecrypt (fun n _ => out n) fuel ioq = .ok ioq' ∧ FifoOrdered ioq') ↔
      Contained out ioq.chunks ((ioq.fifoEnd - ioq.fifoCdn) / dmsgCryptoChunkSize)
        ioq.fifoCdx ioq.fifoCdn := by
  obtain ⟨hbeg, hcdx, hcdn, hend⟩ := h
  rw [← decryptLoop_ordered_iff rfl hbeg hcdn hend]
  unfold dmsgCryptoDecrypt
  by_cases hz : ioq.fifoEnd - ioq.fifoCdn = 0
  · have hlt : ¬ dmsgCryptoChunkSize ≤ ioq.fifoEnd - ioq.fifoCdn := by
      rw [hz]; decide
    simp only [if_pos hz, decryptLoop_done _ hlt]
  · simp only [if_neg hz]

/-- An ioq that has received one whole chunk. -/
def oneChunkIoq : DmsgIoq := { dmsgIoqInit with fifoEnd := dmsgCryptoChunkSize }

/-- One failure is absorbed by a gap of one chunk. -/
theorem decrypt_contained_one_failure :
    ∃ fuel ioq', dmsgCryptoDecrypt
        (fun n _ => if n = 0 then .error .macfail else .ok (List.replicate 64 0)) fuel
        { dmsgIoqInit with fifoCdn := 64, fifoEnd := 128 } = .ok ioq' ∧ FifoOrdered ioq' :=
  (decrypt_contained_iff (fun n => if n = 0 then .error .macfail else .ok (List.replicate 64 0))
    { dmsgIoqInit with fifoCdn := 64, fifoEnd := 128 } (by decide)).mpr
    ⟨2, by decide, by decide⟩

/-- With the cipher as it stands a single chunk keeps `dmsg_crypto_decrypt` running for ever. -/
theorem decrypt_not_contained :
    FifoOrdered oneChunkIoq ∧
      ¬ ∃ fuel ioq', dmsgCryptoDecrypt dmsgCryptoGcmDecryptChunk fuel oneChunkIoq = .ok ioq' ∧
        FifoOrdered ioq' := by
  refine ⟨by decide, ?_⟩
  have hz : oneChunkIoq.fifoEnd - oneChunkIoq.fifoCdn ≠ 0 := by decide
  simp only [dmsgCryptoDecrypt, if_neg hz]
  rintro ⟨fuel, ioq', h, hord⟩
  have hc : Contained (fun _ => .error .algo) oneChunkIoq.chunks
      ((oneChunkIoq.fifoEnd - oneChunkIoq.fifoCdn) / dmsgCryptoChunkSize) _ _ :=
    contained_of_decryptLoop fuel _ oneChunkIoq rfl (by decide) h hord
  obtain ⟨k, hs, -⟩ := hc
  have hnone : successes (fun _ => .error .algo) oneChunkIoq.chunks k = 0 := by
    unfold successes
    exact Nat.count_false k
  rw [hnone] at hs
  exact absurd hs (by decide)

end Lh1.Dmsg
