/-
  The transmit half of an unencrypted dmsg link (lib/libdmsg/msg.c): `dmsg_iocom_flush1`,
  `dmsg_iocom_flush2` and `dmsg_iocom_drain`.

  `flush2` builds an iovec over the queued messages, hands it to `writev` and retires what was
  accepted. `ioq->hbytes` and `ioq->abytes` record how much of the first message is out, so
  the next flush resumes at that byte. How `writev` behaves is a `WriteChoice`.

  * `unsent` is the abstract queue: the bytes of the queued messages that are not out yet.
  * `flush2_spec`: no assertion fails, and what `writev` took is what `unsent` lost, from its
    front. A write that takes a byte makes progress.
-/
import Lh1.Dmsg.Ioq

namespace Lh1.Dmsg

open Lh1.Lib

/-- `DMSG_IOQ_MAXIOVEC`. -/
def dmsgIoqMaxiovec : Nat := 16

inductive FlushAssert where
  | offsets   -- assert(hoff <= hbytes && aoff <= abytes)
  | auxNull   -- assert(msg->aux_data != NULL)
  | nactZero  -- assert(nact == 0)
  deriving DecidableEq, Repr

/-- What one `writev` does. -/
inductive WriteChoice where
  | bytes (k : Nat)   -- accept at most `k` bytes
  | again             -- EINTR, EINPROGRESS or EAGAIN
  | fail              -- any other errno
  deriving DecidableEq, Repr

/-- `struct dmsg_ioq` as the sender uses it without encryption; its FIFO stays empty. -/
structure TxIoq where
  hbytes : Nat
  abytes : Nat
  error : Option IoqError
  seq : Nat
  msgq : List DmsgMsg

def txIoqInit : TxIoq where
  hbytes := 0
  abytes := 0
  error := none
  seq := 0
  msgq := []

/-- The header size coded in `cmd`. -/
def DmsgMsg.hbytes (m : DmsgMsg) : Nat := hbytesOf m.head.cmd

def DmsgMsg.abytes (m : DmsgMsg) : Nat := doalign m.auxSize

/-- The extended header as it lies in memory. -/
def DmsgMsg.headImage (m : DmsgMsg) : List UInt8 := m.head.bytes ++ m.ext

/-- A message as it goes over the wire. -/
def DmsgMsg.wireImage (m : DmsgMsg) : List UInt8 := m.headImage ++ m.auxData

/-! ## `dmsg_iocom_flush1` -/

section

variable (icrc : Crc) (random : Nat → UInt32)

/-- Finish the header of a message that gets sequence number `seq`. `random seq` is what
    `random()` returns there. -/
def populate (seq : Nat) (m : DmsgMsg) : DmsgMsg :=
  let head := { m.head with
    magic := dmsgHdrMagic
    salt := (random seq <<< 8) ||| UInt32.ofNat (seq % 256) }
  let head := if m.auxSize ≠ 0 ∧ head.auxCrc = 0 then
    { head with auxCrc := icrc (m.auxData.take m.abytes) } else head
  let head := { head with auxBytes := UInt32.ofNat m.auxSize, hdrCrc := 0 }
  { m with head := { head with hdrCrc := icrc ((head.bytes ++ m.ext).take m.hbytes) } }

/-- The second loop of `flush1`: move the messages of `tmpq` to `ioq->msgq`. -/
def flush1Queue : List DmsgMsg → TxIoq → TxIoq
  | [], ioq => ioq
  | msg :: tmpq, ioq =>
    if ioq.error ≠ none then flush1Queue tmpq { ioq with msgq := ioq.msgq ++ [msg] }
    else flush1Queue tmpq { ioq with
      seq := ioq.seq + 1
      msgq := ioq.msgq ++ [populate icrc random ioq.seq msg] }

end

/-! ## `dmsg_iocom_flush2` -/

/-- `dmsg_iocom_drain`. -/
def dmsgIocomDrain (ioq : TxIoq) : TxIoq :=
  { ioq with hbytes := 0, abytes := 0, msgq := [] }

/-- `maxlen`: at most half of `ioq->buf` in one piece. -/
def iovLen (left : Nat) : Nat :=
  if left > dmsgBufSize / 2 then dmsgBufSize / 2 else left

/-- Add what is left of `image` behind `off` to the iovec and go on with `next`, unless the
    iovec is full or the piece had to be cut. -/
def iovAdd (image : List UInt8) (off bytes iovcnt : Nat)
    (next : Nat → Except FlushAssert (List (List UInt8))) :
    Except FlushAssert (List (List UInt8)) :=
  if off < bytes then
    let maxlen := iovLen (bytes - off)
    let piece := slice image off (off + maxlen)
    if iovcnt + 1 = dmsgIoqMaxiovec ∨ maxlen ≠ bytes - off then .ok [piece]
    else
      match next (iovcnt + 1) with
      | .ok iov => .ok (piece :: iov)
      | .error a => .error a
  else next iovcnt

/-- The `TAILQ_FOREACH` that builds the iovec. -/
def flush2Iov : List DmsgMsg → Nat → Nat → Nat → Except FlushAssert (List (List UInt8))
  | [], _, _, _ => .ok []
  | msg :: msgq, hoff, aoff, iovcnt =>
    if ¬ (hoff ≤ msg.hbytes ∧ aoff ≤ msg.abytes) then .error .offsets
    else iovAdd msg.headImage hoff msg.hbytes iovcnt fun iovcnt =>
      if aoff < msg.abytes ∧ msg.auxData = [] then .error .auxNull
      else iovAdd msg.auxData aoff msg.abytes iovcnt fun iovcnt => flush2Iov msgq 0 0 iovcnt

/-- The loop that cleans out the transmit queue: `nact`, `ioq->hbytes`, `ioq->abytes` and the
    queue, before and after. -/
def flush2Retire : Nat → Nat → Nat → List DmsgMsg → Nat × Nat × Nat × List DmsgMsg
  | nact, hbytes, abytes, [] => (nact, hbytes, abytes, [])
  | nact, hbytes, abytes, msg :: msgq =>
    if nact < msg.hbytes - hbytes then (0, hbytes + nact, abytes, msg :: msgq)
    else
      let nact := nact - (msg.hbytes - hbytes)
      if nact < msg.abytes - abytes then (0, msg.hbytes, abytes + nact, msg :: msgq)
      else flush2Retire (nact - (msg.abytes - abytes)) 0 0 msgq

def writevTakes (offered : List UInt8) : WriteChoice → List UInt8
  | .bytes k => offered.take k
  | .again => []
  | .fail => []

/-- Returns the queue and the bytes that went into the socket. -/
def flush2 (ioq : TxIoq) (w : WriteChoice) : Except FlushAssert (TxIoq × List UInt8) :=
  if ioq.error ≠ none then .ok (dmsgIocomDrain ioq, [])
  else
    match flush2Iov ioq.msgq ioq.hbytes ioq.abytes 0 with
    | .error a => .error a
    | .ok iov =>
      if iov = [] then .ok (ioq, [])
      else
        let sent := writevTakes iov.flatten w
        let (nact, hbytes, abytes, msgq) :=
          flush2Retire sent.length ioq.hbytes ioq.abytes ioq.msgq
        if nact ≠ 0 then .error .nactZero
        else
          let ioq := { ioq with hbytes := hbytes, abytes := abytes, msgq := msgq }
          match w with
          | .fail => .ok (dmsgIocomDrain { ioq with error := some .sock }, sent)
          | _ => .ok (ioq, sent)

/-! ## What is left to send -/

/-- A queued message has the sizes its header and its `aux_size` say. -/
structure Sized (m : DmsgMsg) : Prop where
  head : dmsgHdrSize + m.ext.length = m.hbytes
  aux : m.auxData.length = m.abytes

theorem Sized.length_headImage {m : DmsgMsg} (h : Sized m) : m.headImage.length = m.hbytes := by
  rw [DmsgMsg.headImage, List.length_append, DmsgHdr.length_bytes]
  exact h.head

theorem Sized.length_wireImage {m : DmsgMsg} (h : Sized m) :
    m.wireImage.length = m.hbytes + m.abytes := by
  rw [DmsgMsg.wireImage, List.length_append, h.length_headImage, h.aux]

def queueImage (q : List DmsgMsg) : List UInt8 := (q.map DmsgMsg.wireImage).flatten

@[simp] theorem queueImage_nil : queueImage [] = [] := rfl

@[simp] theorem queueImage_cons (m : DmsgMsg) (q : List DmsgMsg) :
    queueImage (m :: q) = m.wireImage ++ queueImage q := rfl

@[simp] theorem queueImage_append (q r : List DmsgMsg) :
    queueImage (q ++ r) = queueImage q ++ queueImage r := by
  simp [queueImage]

/-- The bytes of the queued messages that are not out yet. -/
def TxIoq.unsent (ioq : TxIoq) : List UInt8 :=
  (queueImage ioq.msgq).drop (ioq.hbytes + ioq.abytes)

/-- `hbytes` and `abytes` point into the first message, at its payload only behind its
    header. -/
def OffsetsOk (hbytes abytes : Nat) : List DmsgMsg → Prop
  | [] => hbytes = 0 ∧ abytes = 0
  | m :: _ => hbytes ≤ m.hbytes ∧ abytes ≤ m.abytes ∧ (abytes ≠ 0 → hbytes = m.hbytes)

theorem OffsetsOk.zero (q : List DmsgMsg) : OffsetsOk 0 0 q := by
  cases q with
  | nil => exact ⟨rfl, rfl⟩
  | cons m q => exact ⟨Nat.zero_le _, Nat.zero_le _, fun h => absurd rfl h⟩

/-- The rest of the first message, split at its header. -/
theorem drop_wireImage {m : DmsgMsg} (h : Sized m) {hb ab : Nat} (hok : OffsetsOk hb ab [m])
    (rest : List UInt8) :
    (m.wireImage ++ rest).drop (hb + ab) = m.headImage.drop hb ++ (m.auxData.drop ab ++ rest) := by
  obtain ⟨h1, h2, h3⟩ := hok
  have hl := h.length_headImage
  have ha := h.aux
  rw [DmsgMsg.wireImage, List.append_assoc]
  by_cases hz : ab = 0
  · subst hz
    rw [Nat.add_zero, List.drop_append_of_le_length (by omega), List.drop_zero]
  · have hb' := h3 hz
    rw [hb', ← hl, List.drop_append, List.drop_eq_nil_of_le (Nat.le_add_right _ _),
      Nat.add_sub_cancel_left, List.drop_length, List.drop_append_of_le_length (by omega)]

/-! ## The iovec is a prefix of what is left -/

/-- The iovec offers a prefix of `bs`, and something of it if there is anything. -/
def Offers (r : Except FlushAssert (List (List UInt8))) (bs : List UInt8) : Prop :=
  ∃ iov, r = .ok iov ∧ iov.flatten <+: bs ∧ (bs ≠ [] → iov.flatten ≠ [])

theorem iovLen_pos {n : Nat} (h : 0 < n) : 0 < iovLen n := by
  unfold iovLen
  split
  · decide
  · exact h

theorem iovLen_le (n : Nat) : iovLen n ≤ n := by
  unfold iovLen
  split <;> omega

theorem iovAdd_offers {image tail : List UInt8} {off bytes iovcnt : Nat}
    {next : Nat → Except FlushAssert (List (List UInt8))} (hlen : image.length = bytes)
    (hoff : off ≤ bytes) (hnext : ∀ c, Offers (next c) tail) :
    Offers (iovAdd image off bytes iovcnt next) (image.drop off ++ tail) := by
  unfold iovAdd
  split
  · rename_i hlt
    have hpos := iovLen_pos (Nat.sub_pos_of_lt hlt)
    have hle := iovLen_le (bytes - off)
    have hpiece : slice image off (off + iovLen (bytes - off)) =
        (image.drop off).take (iovLen (bytes - off)) := by
      rw [slice, Nat.add_sub_cancel_left]
    have hdl : (image.drop off).length = bytes - off := by rw [List.length_drop, hlen]
    have hne : (image.drop off).take (iovLen (bytes - off)) ≠ [] := by
      intro h0
      have := congrArg List.length h0
      rw [List.length_take, hdl, List.length_nil] at this
      omega
    dsimp only
    rw [hpiece]
    split
    · refine ⟨_, rfl, ?_, fun _ => by simpa using hne⟩
      rw [List.flatten_cons, List.flatten_nil, List.append_nil]
      exact (List.take_prefix _ _).trans (List.prefix_append _ _)
    · rename_i hgo
      have hall : iovLen (bytes - off) = bytes - off := by
        by_contra hc
        exact hgo (Or.inr hc)
      obtain ⟨iov, hiov, hpre, -⟩ := hnext (iovcnt + 1)
      rw [hiov]
      refine ⟨_, rfl, ?_, fun _ => ?_⟩
      · rw [List.flatten_cons, hall, List.take_of_length_le (by omega)]
        exact List.prefix_append_right_inj _ |>.mpr hpre
      · rw [List.flatten_cons]
        exact fun h => hne (List.append_eq_nil_iff.mp h).1
  · rename_i hge
    have hnil : image.drop off = [] := List.drop_eq_nil_of_le (by omega)
    rw [hnil, List.nil_append]
    exact hnext iovcnt

theorem flush2Iov_offers (q : List DmsgMsg) (hq : ∀ m ∈ q, Sized m) (hoff aoff iovcnt : Nat)
    (hok : OffsetsOk hoff aoff q) :
    Offers (flush2Iov q hoff aoff iovcnt) ((queueImage q).drop (hoff + aoff)) := by
  induction q generalizing hoff aoff iovcnt with
  | nil => exact ⟨[], rfl, by simp, by simp⟩
  | cons m q ih =>
    have hm : Sized m := hq m (by simp)
    have hrest : ∀ x ∈ q, Sized x := fun x hx => hq x (by simp [hx])
    rw [flush2Iov, queueImage_cons, drop_wireImage hm hok, if_neg (not_not.mpr ⟨hok.1, hok.2.1⟩)]
    refine iovAdd_offers hm.length_headImage hok.1 (fun c => ?_)
    rw [if_neg]
    · refine iovAdd_offers hm.aux hok.2.1 (fun c' => ?_)
      exact ih hrest 0 0 c' (OffsetsOk.zero q)
    · rintro ⟨hlt, hnil⟩
      have := hm.aux
      rw [hnil, List.length_nil] at this
      omega

/-! ## Retiring what was written -/

/-- Retiring `nact` bytes drops them from the front of what is left. -/
theorem flush2Retire_spec (q : List DmsgMsg) (hq : ∀ m ∈ q, Sized m) (nact hbytes abytes : Nat)
    (hok : OffsetsOk hbytes abytes q)
    (hn : nact ≤ ((queueImage q).drop (hbytes + abytes)).length) :
    ∃ hb ab q', flush2Retire nact hbytes abytes q = (0, hb, ab, q') ∧ OffsetsOk hb ab q' ∧
      q' <:+ q ∧
      (queueImage q').drop (hb + ab) = ((queueImage q).drop (hbytes + abytes)).drop nact := by
  induction q generalizing nact hbytes abytes with
  | nil =>
    rw [queueImage_nil, List.drop_nil, List.length_nil] at hn
    refine ⟨hbytes, abytes, [], ?_, hok, List.suffix_refl _, by simp⟩
    rw [flush2Retire, Nat.le_zero.mp hn]
  | cons m q ih =>
    have hm : Sized m := hq m (by simp)
    have hl := hm.length_headImage
    have ha := hm.aux
    rw [queueImage_cons] at hn ⊢
    have hsplit := drop_wireImage hm hok (queueImage q)
    obtain ⟨h1, h2, h3⟩ := hok
    rw [hsplit, List.length_append, List.length_append, List.length_drop, List.length_drop,
      hl, ha] at hn
    rw [flush2Retire]
    split
    · -- inside the header; the payload is untouched
      rename_i hlt
      have hz : abytes = 0 := by
        by_contra hne
        have := h3 hne
        omega
      refine ⟨_, _, _, rfl, ⟨by omega, h2, fun hne => absurd hz hne⟩, List.suffix_refl _, ?_⟩
      rw [queueImage_cons, List.drop_drop, hz, Nat.add_zero, Nat.add_zero]
    · rename_i hge
      dsimp only
      split
      · rename_i hlt
        refine ⟨_, _, _, rfl, ⟨Nat.le_refl _, by omega, fun _ => rfl⟩, List.suffix_refl _, ?_⟩
        rw [queueImage_cons, List.drop_drop]
        congr 1
        omega
      · rename_i hge'
        obtain ⟨hb, ab, q', heq, hok', hsuf, hdrop⟩ :=
          ih (fun x hx => hq x (by simp [hx])) (nact - (m.hbytes - hbytes) - (m.abytes - abytes))
            0 0 (OffsetsOk.zero q) (by rw [Nat.add_zero, List.drop_zero]; omega)
        refine ⟨hb, ab, q', heq, hok', hsuf.trans (List.suffix_cons m q), ?_⟩
        have hfirst : (m.headImage.drop hbytes ++ m.auxData.drop abytes).length =
            (m.hbytes - hbytes) + (m.abytes - abytes) := by
          rw [List.length_append, List.length_drop, List.length_drop, hl, ha]
        have hgone : (m.headImage.drop hbytes ++ m.auxData.drop abytes).drop nact = [] :=
          List.drop_eq_nil_of_le (by omega)
        rw [hdrop, hsplit, ← List.append_assoc, List.drop_append, hfirst, hgone,
          List.nil_append, Nat.add_zero, List.drop_zero, Nat.sub_sub]

/-! ## One flush -/

structure TxOk (ioq : TxIoq) : Prop where
  noErr : ioq.error = none
  sized : ∀ m ∈ ioq.msgq, Sized m
  offsets : OffsetsOk ioq.hbytes ioq.abytes ioq.msgq

theorem flush2_spec {ioq : TxIoq} (h : TxOk ioq) {w : WriteChoice} (hw : w ≠ .fail) :
    ∃ ioq' sent, flush2 ioq w = .ok (ioq', sent) ∧ TxOk ioq' ∧ sent ++ ioq'.unsent = ioq.unsent ∧
      ioq'.seq = ioq.seq ∧ ioq'.msgq <:+ ioq.msgq ∧
      (∀ k, w = .bytes (k + 1) → ioq.unsent ≠ [] → sent ≠ []) := by
  obtain ⟨iov, hiov, hpre, hne⟩ := flush2Iov_offers ioq.msgq h.sized ioq.hbytes ioq.abytes 0 h.offsets
  unfold flush2
  rw [if_neg (not_not.mpr h.noErr), hiov]
  dsimp only
  split
  · rename_i hnil
    refine ⟨ioq, [], rfl, h, rfl, rfl, List.suffix_refl _, fun k _ hu => ?_⟩
    rw [hnil] at hne
    exact absurd rfl (hne hu)
  · have hsent : writevTakes iov.flatten w <+: (queueImage ioq.msgq).drop (ioq.hbytes + ioq.abytes) := by
      cases w with
      | bytes k => exact (List.take_prefix k _).trans hpre
      | again => exact List.nil_prefix
      | fail => exact absurd rfl hw
    obtain ⟨hb, ab, q', heq, hok, hsuf, hdrop⟩ :=
      flush2Retire_spec ioq.msgq h.sized (writevTakes iov.flatten w).length ioq.hbytes ioq.abytes
        h.offsets hsent.length_le
    rw [heq]
    dsimp only
    rw [if_neg (not_not.mpr rfl)]
    have hres : TxOk { ioq with hbytes := hb, abytes := ab, msgq := q' } :=
      ⟨h.noErr, fun m hm => h.sized m (hsuf.mem hm), hok⟩
    have hcat : writevTakes iov.flatten w ++
        ({ ioq with hbytes := hb, abytes := ab, msgq := q' } : TxIoq).unsent = ioq.unsent := by
      change _ ++ (queueImage q').drop (hb + ab) = _
      rw [hdrop]
      obtain ⟨t, ht⟩ := hsent
      rw [TxIoq.unsent, ← ht, List.drop_left]
    cases w with
    | fail => exact absurd rfl hw
    | again =>
      refine ⟨_, _, rfl, hres, hcat, rfl, hsuf, fun k hk => ?_⟩
      cases hk
    | bytes k =>
      refine ⟨_, _, rfl, hres, hcat, rfl, hsuf, fun k' hk hu => ?_⟩
      cases hk
      have hf := hne hu
      cases hfl : iov.flatten with
      | nil => exact absurd hfl hf
      | cons b bs => simp [writevTakes]

end Lh1.Dmsg
