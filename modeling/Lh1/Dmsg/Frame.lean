/-
  What the resumable receiver computes, independently of how the bytes arrive.

  `frame icrc T` parses the frame at the front of a byte string in one go: `more` (it is
  incomplete), `error`, `crash` (the header CRC assertion) or `msg m len`. It has no FIFO and
  no state.

  `ioqReadPass_spec`: a pass of the receiver, started in a state that has absorbed a part of
  the stream `T` (`Rest`), with the rest of `T` in the socket and any script of short reads,
  ends in one of
  * `blocked`, still at the same frame of `T`, and then the absorbed part is incomplete;
  * `message m`, where `m` is the frame at the front of `T`, and the receiver is at the next;
  * `failed e`, where `e` is what `frame` reports, or a sequence mismatch, or what the socket did;
  * the header CRC assertion, and then `frame` crashes too. No other assertion fails.
-/
import Lh1.Dmsg.Ioq

namespace Lh1.Dmsg

open Lh1.Lib

/-! ## Parsing a frame in one go -/

inductive FrameResult where
  | more
  | crash
  | error (e : IoqError)
  | msg (m : DmsgMsg) (len : Nat)
  deriving DecidableEq, Repr

/-- A header HEADER1 does not refuse for its magic. -/
def HeadMagicOk (head : DmsgHdr) : Prop :=
  head.magic = dmsgHdrMagic ∨ head.magic = dmsgHdrMagicRev

/-- A header HEADER1 does not refuse for its sizes. -/
def HeadFieldsOk (head : DmsgHdr) : Prop :=
  dmsgHdrSize ≤ headHbytes head ∧ headHbytes head ≤ dmsgHdrMax ∧ headAbytes head ≤ dmsgAuxMax

instance (head : DmsgHdr) : Decidable (HeadMagicOk head) :=
  inferInstanceAs (Decidable (_ ∨ _))

instance (head : DmsgHdr) : Decidable (HeadFieldsOk head) :=
  inferInstanceAs (Decidable (_ ∧ _))

/-- The header CRC of the extended header `raw`, computed with the field zeroed. -/
def headerCrc (icrc : Crc) (raw : List UInt8) : UInt32 :=
  icrc ({ DmsgHdr.ofBytes raw with hdrCrc := 0 }.bytes ++ raw.drop dmsgHdrSize)

/-- The core header as it is stored in the message. -/
def msgHead (raw : List UInt8) : DmsgHdr :=
  nativeHead { DmsgHdr.ofBytes raw with hdrCrc := headXcrc (DmsgHdr.ofBytes raw) }

section

variable (icrc : Crc)

/-- The frame at the front of `T`. -/
def frame (T : List UInt8) : FrameResult :=
  let head := DmsgHdr.ofBytes T
  let hb := headHbytes head
  let ab := headAbytes head
  if T.length < dmsgHdrSize then .more
  else if ¬ HeadMagicOk head then .error .sync
  else if ¬ HeadFieldsOk head then .error .field
  else if T.length < hb then .more
  else
    let raw := T.take hb
    if headerCrc icrc raw ≠ headXcrc head then .crash
    else
      let m : DmsgMsg := {
        head := msgHead raw
        ext := raw.drop dmsgHdrSize
        auxSize := (headAuxSize head).toNat
        auxData := slice T hb (hb + ab) }
      if ab = 0 then .msg m hb
      else if T.length < hb + ab then .more
      else if icrc m.auxData ≠ m.head.auxCrc then .error .acrc
      else .msg m (hb + ab)

end

theorem slice_take (b : List UInt8) (n i j : Nat) (h : j ≤ n) :
    slice (b.take n) i j = slice b i j := by
  rw [slice, slice, List.drop_take, List.take_take]
  congr 1
  omega

/-- A header is read from the first 64 bytes only. -/
theorem DmsgHdr.ofBytes_take (bs : List UInt8) (n : Nat) (h : dmsgHdrSize ≤ n) :
    DmsgHdr.ofBytes (bs.take n) = DmsgHdr.ofBytes bs := by
  unfold dmsgHdrSize at h
  simp only [DmsgHdr.ofBytes, u16At, u32At, u64At]
  repeat rw [slice_take bs n _ _ (by omega)]

theorem DmsgHdr.ofBytes_append (bs rest : List UInt8) (h : dmsgHdrSize ≤ bs.length) :
    DmsgHdr.ofBytes (bs ++ rest) = DmsgHdr.ofBytes bs := by
  have ht : bs = (bs ++ rest).take bs.length := by simp
  conv => rhs; rw [ht]
  rw [DmsgHdr.ofBytes_take _ _ h]

/-! ## The FIFO of an unencrypted link -/

/-- The bytes received and not yet moved into a message. -/
def DmsgIoq.fifo (ioq : DmsgIoq) : List UInt8 := slice ioq.buf ioq.fifoBeg ioq.fifoEnd

structure FifoOk (ioq : DmsgIoq) : Prop where
  len : ioq.buf.length = dmsgBufSize
  begEnd : ioq.fifoBeg ≤ ioq.fifoEnd
  endLe : ioq.fifoEnd ≤ dmsgBufSize

/-- Nothing waits for decryption. -/
def Plain (ioq : DmsgIoq) : Prop := ioq.fifoCdx = ioq.fifoEnd ∧ ioq.fifoCdn = ioq.fifoEnd

theorem FifoOk.length_fifo {ioq : DmsgIoq} (h : FifoOk ioq) :
    ioq.fifo.length = ioq.fifoEnd - ioq.fifoBeg := by
  rw [DmsgIoq.fifo, length_slice]
  rw [h.len]; exact h.endLe

/-- `makeroom` moves the FIFO, not its contents. Unless it leaves room for twice what is still
    needed, it has moved the FIFO to the start of the buffer. -/
theorem makeroom_spec (ioq : DmsgIoq) (needed : Nat) (hok : FifoOk ioq) (hp : Plain ioq) :
    ∃ buf b e, dmsgIoqMakeroom ioq needed =
        ({ ioq with buf := buf, fifoBeg := b, fifoCdx := e, fifoCdn := e, fifoEnd := e },
          dmsgBufSize - e) ∧
      FifoOk { ioq with buf := buf, fifoBeg := b, fifoCdx := e, fifoCdn := e, fifoEnd := e } ∧
      slice buf b e = ioq.fifo ∧
      (needed ≤ ioq.fifo.length + (dmsgBufSize - e) / 2 ∨ b = 0) := by
  obtain ⟨hcdx, hcdn⟩ := hp
  have hlen := hok.length_fifo
  obtain ⟨hl, hbe, hel⟩ := hok
  unfold dmsgIoqMakeroom
  simp only [hcdx, hcdn]
  split
  · -- compaction; with `cdn = end` the second copy is empty
    have hnot : ¬ ioq.fifoEnd < ioq.fifoEnd := Nat.lt_irrefl _
    have hend : ioq.fifoEnd - (ioq.fifoEnd - (ioq.fifoEnd - ioq.fifoBeg)) =
        ioq.fifoEnd - ioq.fifoBeg := by omega
    rw [if_neg hnot, hend]
    refine ⟨_, 0, ioq.fifoEnd - ioq.fifoBeg, rfl, ?_, ?_, Or.inr rfl⟩
    · refine ⟨?_, Nat.zero_le _, by simp only; omega⟩
      dsimp only
      split
      · rw [length_blit _ _ _ (by rw [length_slice] <;> omega)]; exact hl
      · exact hl
    · have hsum : ioq.fifoBeg + (ioq.fifoEnd - ioq.fifoBeg) = ioq.fifoEnd := by omega
      rw [hsum]
      split
      · have hs := slice_blit_self ioq.buf 0 (slice ioq.buf ioq.fifoBeg ioq.fifoEnd) (Nat.zero_le _)
        rw [length_slice _ _ _ (by omega), Nat.zero_add] at hs
        exact hs
      · have h0 : ioq.fifoEnd - ioq.fifoBeg = 0 := by omega
        have he : ioq.fifoEnd = ioq.fifoBeg := by omega
        rw [h0, DmsgIoq.fifo, he, slice_self, slice_self]
  · rename_i hroom
    refine ⟨ioq.buf, ioq.fifoBeg, ioq.fifoEnd, ?_, ⟨hl, hbe, hel⟩, rfl, Or.inl (by omega)⟩
    cases ioq
    simp only at hcdx hcdn
    subst hcdx hcdn
    rfl

/-- What the read block does to a FIFO with room behind it. -/
theorem ioqFill_spec (nmax : Nat) (io : RxIo) (hok : FifoOk io.ioq)
    (hn : nmax = dmsgBufSize - io.ioq.fifoEnd) (hpos : nmax ≠ 0) :
    (∀ c ∈ (ioqFill nmax io).script, c ∈ io.script) ∧
    ((∃ e, (ioqFill nmax io).ioq = { io.ioq with error := some e } ∧
        ((e = .eof ∧ .eof ∈ io.script) ∨ (e = .sock ∧ .fail ∈ io.script))) ∨
      ∃ buf e, (ioqFill nmax io).ioq = { io.ioq with buf := buf, fifoEnd := e } ∧
        FifoOk { io.ioq with buf := buf, fifoEnd := e } ∧
        slice buf io.ioq.fifoBeg e ++ (ioqFill nmax io).wire = io.ioq.fifo ++ io.wire ∧
        io.ioq.fifoEnd ≤ e) := by
  obtain ⟨hl, hbe, hel⟩ := hok
  have hsame : ∃ buf e, io.ioq = { io.ioq with buf := buf, fifoEnd := e } ∧
      FifoOk { io.ioq with buf := buf, fifoEnd := e } ∧
      slice buf io.ioq.fifoBeg e ++ io.wire = io.ioq.fifo ++ io.wire ∧ io.ioq.fifoEnd ≤ e :=
    ⟨io.ioq.buf, io.ioq.fifoEnd, rfl, ⟨hl, hbe, hel⟩, rfl, Nat.le_refl _⟩
  unfold ioqFill sockRead
  cases hs : io.script with
  | nil =>
    rw [if_neg hpos]
    exact ⟨fun c hc => by simp [hs] at hc, Or.inr hsame⟩
  | cons c cs =>
    have hsub : ∀ x ∈ cs, x ∈ c :: cs := fun x hx => List.mem_cons_of_mem c hx
    simp only [hpos, if_false]
    cases c with
    | again => exact ⟨hsub, Or.inr hsame⟩
    | eof => exact ⟨hsub, Or.inl ⟨.eof, rfl, Or.inl ⟨rfl, by simp⟩⟩⟩
    | fail => exact ⟨hsub, Or.inl ⟨.sock, rfl, Or.inr ⟨rfl, by simp⟩⟩⟩
    | bytes k =>
      dsimp only
      by_cases hz : min k (min nmax io.wire.length) = 0
      · rw [if_pos hz]
        exact ⟨hsub, Or.inr hsame⟩
      · rw [if_neg hz]
        set n := min k (min nmax io.wire.length) with hdef
        have hnlen : (io.wire.take n).length = n := by rw [List.length_take]; omega
        have hcat : io.wire.take n ++ io.wire.drop n = io.wire := List.take_append_drop n _
        cases hb : io.wire.take n with
        | nil => rw [hb] at hnlen; simp at hnlen; omega
        | cons b bs =>
          rw [hb] at hnlen hcat
          refine ⟨hsub, Or.inr ⟨_, _, rfl, ⟨?_, ?_, ?_⟩, ?_, ?_⟩⟩
          · dsimp only
            rw [length_blit _ _ _ (by omega)]; exact hl
          · dsimp only; omega
          · dsimp only; omega
          · dsimp only
            rw [slice_blit_extend _ _ _ _ hbe (by omega), List.append_assoc, hcat]
            rfl
          · exact Nat.le_add_right _ _

/-! ## The receiver at rest inside a frame -/

/-- The receiver has read the core header at the front of `T` and accepted it. -/
structure HeadSeen (T : List UInt8) (ioq : DmsgIoq) : Prop where
  hbytes : ioq.hbytes = headHbytes (DmsgHdr.ofBytes T)
  abytes : ioq.abytes = headAbytes (DmsgHdr.ofBytes T)
  unaligned : ioq.unalignedAuxSize = (headAuxSize (DmsgHdr.ofBytes T)).toNat
  magic : HeadMagicOk (DmsgHdr.ofBytes T)
  fields : HeadFieldsOk (DmsgHdr.ofBytes T)

/-- HEADER2: the core header is still in the FIFO, in front of what follows it, and the whole
    header fits behind `fifo_beg`. -/
structure InHeader (T : List UInt8) (io : RxIo) : Prop where
  ok : FifoOk io.ioq
  noErr : io.ioq.error = none
  stream : T = io.ioq.fifo ++ io.wire
  core : dmsgHdrSize ≤ io.ioq.fifo.length
  seen : HeadSeen T io.ioq
  msg : io.ioq.msg = some (allocRxMsg (headAuxSize (DmsgHdr.ofBytes T)))
  room : io.ioq.hbytes ≤ io.ioq.fifo.length + (dmsgBufSize - io.ioq.fifoEnd)

/-- AUXDATA: the header `raw` was checked and copied out, with `d` of the payload. -/
structure InAux (icrc : Crc) (T raw d : List UInt8) (io : RxIo) : Prop where
  ok : FifoOk io.ioq
  noErr : io.ioq.error = none
  stream : T = raw ++ (d ++ (io.ioq.fifo ++ io.wire))
  rawLen : raw.length = io.ioq.hbytes
  seen : HeadSeen T io.ioq
  crc : headerCrc icrc raw = headXcrc (DmsgHdr.ofBytes T)
  aux : io.ioq.abytes ≠ 0

/-- The message under construction in AUXDATA2. -/
def auxMsg (raw d : List UInt8) : DmsgMsg where
  head := msgHead raw
  ext := raw.drop dmsgHdrSize
  auxSize := d.length
  auxData := d

/-- Between two passes, `T` being the current frame and all that follows it. -/
inductive Rest (icrc : Crc) (T : List UInt8) (io : RxIo) : Prop
  | header1 (st : io.ioq.state = .header1) (plain : Plain io.ioq) (ok : FifoOk io.ioq)
      (noErr : io.ioq.error = none) (msg : io.ioq.msg = none) (stream : T = io.ioq.fifo ++ io.wire)
  | header2 (st : io.ioq.state = .header2) (plain : Plain io.ioq) (inHeader : InHeader T io)
  | auxdata2 (st : io.ioq.state = .auxdata2) (plain : Plain io.ioq) (raw d : List UInt8)
      (inAux : InAux icrc T raw d io) (msg : io.ioq.msg = some (auxMsg raw d))
      (part : d.length < io.ioq.abytes) (empty : io.ioq.fifo = [])

/-- The socket itself ended or failed. -/
def SockCause (S : List ReadChoice) (e : IoqError) : Prop :=
  (e = .eof ∧ .eof ∈ S) ∨ (e = .sock ∧ .fail ∈ S)

/-- The first `read` of the script is ready to return something. -/
def Productive (S : List ReadChoice) : Prop := ∃ k cs, S = .bytes (k + 1) :: cs

/-- What is left of script `S` and of the `W` bytes in the socket when the pass started. Until
    a byte was read, a productive script has not been used. -/
structure Feed (S : List ReadChoice) (W : Nat) (io : RxIo) : Prop where
  sub : ∀ c ∈ io.script, c ∈ S
  le : io.wire.length ≤ W
  fresh : Productive S → io.wire.length = W → 0 < W → io.script = S

/-- A productive script has got at least one byte out of the socket. -/
def Fed (S : List ReadChoice) (W : Nat) (io : RxIo) : Prop :=
  Productive S → 0 < W → io.wire.length < W

/-- How the switch can leave a receiver that is at the frame `T`. `q` is the sequence number,
    `S` the script and `W` the number of bytes in the socket that the pass started with. -/
inductive SwitchPost (icrc : Crc) (T : List UInt8) (q : Nat)
    (S : List ReadChoice) (W : Nat) : Except IoqAssert (RxIo × Bool) → Prop
  | more {io : RxIo} (rest : Rest icrc T io) (short : io.wire = [] → frame icrc T = .more)
      (fed : Fed S W io) (seq : io.ioq.seq = q) (le : io.wire.length ≤ W) :
      SwitchPost icrc T q S W (.ok (io, false))
  | done {io : RxIo} {m : DmsgMsg} {n : Nat} (noErr : io.ioq.error = none)
      (ok : FifoOk io.ioq) (plain : Plain io.ioq) (msg : io.ioq.msg = some m)
      (framed : frame icrc T = .msg m n) (left : T.drop n = io.ioq.fifo ++ io.wire)
      (seq : io.ioq.seq = q) (le : io.wire.length ≤ W) : SwitchPost icrc T q S W (.ok (io, true))
  | bad {io : RxIo} {e : IoqError} {b : Bool} (err : io.ioq.error = some e)
      (msg : io.ioq.msg.isSome = b) (cause : frame icrc T = .error e ∨ SockCause S e) :
      SwitchPost icrc T q S W (.ok (io, b))
  | crash (framed : frame icrc T = .crash) : SwitchPost icrc T q S W (.error .badXcrc)

theorem ioqFill_wire (nmax : Nat) (io : RxIo) :
    (ioqFill nmax io).wire = (sockRead nmax io).2.wire := by
  unfold ioqFill
  split <;> rename_i heq <;> rw [heq]

theorem ioqFill_wire_le (nmax : Nat) (io : RxIo) :
    (ioqFill nmax io).wire.length ≤ io.wire.length := by
  rw [ioqFill_wire]
  unfold sockRead
  cases io.script with
  | nil => dsimp only; split <;> exact Nat.le_refl _
  | cons c cs =>
    by_cases hn : nmax = 0
    · simp only [hn, if_true, Nat.le_refl]
    · simp only [hn, if_false]
      cases c with
      | bytes k =>
        dsimp only
        split
        · exact Nat.le_refl _
        · rw [List.length_drop]
          exact Nat.sub_le _ _
      | _ => exact Nat.le_refl _

/-- A read block with room behind the FIFO makes a productive script deliver. -/
theorem ioqFill_fed {S : List ReadChoice} {W nmax : Nat} {io : RxIo} (h : Feed S W io)
    (hpos : nmax ≠ 0) : Fed S W (ioqFill nmax io) := by
  intro hprod hW
  have hle := ioqFill_wire_le nmax io
  rcases Nat.lt_or_ge io.wire.length W with hlt | hge
  · omega
  · have hS := h.fresh hprod (Nat.le_antisymm h.le hge) hW
    obtain ⟨k, cs, rfl⟩ := hprod
    have hn : min (k + 1) (min nmax io.wire.length) ≠ 0 := by omega
    have hdrop : (io.wire.drop (min (k + 1) (min nmax io.wire.length))).length < W := by
      have := h.le
      rw [List.length_drop]; omega
    rw [ioqFill_wire, sockRead, hS]
    simp only [hpos, if_false, hn]
    exact hdrop

theorem ioqFill_feed {S : List ReadChoice} {W nmax : Nat} {io : RxIo} (h : Feed S W io)
    (hpos : nmax ≠ 0) (hsub : ∀ c ∈ (ioqFill nmax io).script, c ∈ io.script) :
    Feed S W (ioqFill nmax io) where
  sub := fun c hc => h.sub c (hsub c hc)
  le := Nat.le_trans (ioqFill_wire_le nmax io) h.le
  fresh := fun hprod heq hW => absurd heq (Nat.ne_of_lt (ioqFill_fed h hpos hprod hW))

/-! ## `frame` on what the receiver has established -/

section

variable {icrc : Crc}

variable {T : List UInt8}

theorem frame_short (h : T.length < dmsgHdrSize) : frame icrc T = .more := by
  unfold frame
  simp only [h, if_true]

theorem frame_magic (h : dmsgHdrSize ≤ T.length) (hm : ¬ HeadMagicOk (DmsgHdr.ofBytes T)) :
    frame icrc T = .error .sync := by
  unfold frame
  simp only [Nat.not_lt.mpr h, if_false, hm, not_false_eq_true, if_true]

theorem frame_fields (h : dmsgHdrSize ≤ T.length) (hm : HeadMagicOk (DmsgHdr.ofBytes T))
    (hf : ¬ HeadFieldsOk (DmsgHdr.ofBytes T)) : frame icrc T = .error .field := by
  unfold frame
  simp only [Nat.not_lt.mpr h, if_false, hm, hf, not_false_eq_true, not_true_eq_false, if_true]

theorem frame_header (h : dmsgHdrSize ≤ T.length) (hm : HeadMagicOk (DmsgHdr.ofBytes T))
    (hf : HeadFieldsOk (DmsgHdr.ofBytes T)) (hl : T.length < headHbytes (DmsgHdr.ofBytes T)) :
    frame icrc T = .more := by
  unfold frame
  simp only [Nat.not_lt.mpr h, if_false, hm, hf, not_true_eq_false, hl, if_true]

/-- Once the header `raw` is complete, `frame` depends on it and on what follows. -/
theorem frame_body (icrc : Crc) {raw rest : List UInt8}
    (hm : HeadMagicOk (DmsgHdr.ofBytes (raw ++ rest)))
    (hf : HeadFieldsOk (DmsgHdr.ofBytes (raw ++ rest)))
    (hraw : raw.length = headHbytes (DmsgHdr.ofBytes (raw ++ rest))) :
    frame icrc (raw ++ rest) =
      let head := DmsgHdr.ofBytes (raw ++ rest)
      let ab := headAbytes head
      if headerCrc icrc raw ≠ headXcrc head then .crash
      else
        let m : DmsgMsg := {
          head := msgHead raw
          ext := raw.drop dmsgHdrSize
          auxSize := (headAuxSize head).toNat
          auxData := rest.take ab }
        if ab = 0 then .msg m raw.length
        else if rest.length < ab then .more
        else if icrc m.auxData ≠ m.head.auxCrc then .error .acrc
        else .msg m (raw.length + ab) := by
  have h64 : dmsgHdrSize ≤ raw.length := hraw ▸ hf.1
  have hlen : ¬ (raw ++ rest).length < dmsgHdrSize := by
    rw [List.length_append]; omega
  have hhb : ¬ (raw ++ rest).length < raw.length := by
    rw [List.length_append]; omega
  have htake : (raw ++ rest).take raw.length = raw := by simp
  have hslice : ∀ n, slice (raw ++ rest) raw.length (raw.length + n) = rest.take n := by
    intro n
    simp [slice]
  have hlt : ∀ n, (raw ++ rest).length < raw.length + n ↔ rest.length < n := by
    intro n
    rw [List.length_append]; omega
  unfold frame
  simp only [hlen, if_false, hm, hf, not_true_eq_false, ← hraw, hhb, htake, hslice, hlt]

end

end Lh1.Dmsg
