/-
  The payload bound of the receiver, against an arbitrary peer.

  HEADER1 compares `DMSG_DOALIGN(aux_size)` with `DMSG_AUX_MAX`. The aligned size is computed
  in 32 bits and is 0 for the announced sizes above `2 ^ 32 - 64`, so these pass the check and no
  payload is read for them.

  * `delivered_aux_bounded`: in every run in which no such size is announced, whatever bytes
    the peer sends and however they arrive, a delivered message has the payload that its header
    announces, within the bound and checked, and a header that announces more is refused.
  * `aux_wrap_delivered`: a header that announces `2 ^ 32 - 1` bytes is delivered with that size
    and no payload.

  This is the receiver of an unencrypted link. On an encrypted one `dmsg_crypto_gcm_decrypt_chunk`
  never succeeds in this tree, so nothing is delivered there.
-/
import Lh1.Lib.Bytes
import Lh1.Dmsg.Framing

namespace Lh1.Dmsg

open Lh1.Lib

section

variable {icrc : Crc} {T : List UInt8} {m : DmsgMsg} {n : Nat}

/-- Everything a complete frame has passed. -/
theorem frame_msg_inv (h : frame icrc T = .msg m n) :
    dmsgHdrSize ≤ T.length ∧ HeadMagicOk (DmsgHdr.ofBytes T) ∧ HeadFieldsOk (DmsgHdr.ofBytes T) ∧
      n = headHbytes (DmsgHdr.ofBytes T) + headAbytes (DmsgHdr.ofBytes T) ∧ n ≤ T.length ∧
      m.auxSize = (headAuxSize (DmsgHdr.ofBytes T)).toNat ∧
      m.auxData = slice T (headHbytes (DmsgHdr.ofBytes T)) n ∧
      (headAbytes (DmsgHdr.ofBytes T) ≠ 0 → icrc m.auxData = m.head.auxCrc) := by
  unfold frame at h
  dsimp only at h
  split at h
  · cases h
  rename_i hlen
  split at h
  · cases h
  rename_i hm
  split at h
  · cases h
  rename_i hf
  split at h
  · cases h
  rename_i hhb
  split at h
  · cases h
  split at h
  · rename_i hz
    injection h with hm hn
    subst hm hn
    rw [hz, Nat.add_zero]
    exact ⟨by omega, not_not.mp hm, not_not.mp hf, rfl, by omega, rfl, rfl, fun hne => absurd rfl hne⟩
  · split at h
    · cases h
    rename_i hab
    split at h
    · cases h
    rename_i hcrc
    injection h with hm hn
    subst hm hn
    exact ⟨by omega, not_not.mp hm, not_not.mp hf, rfl, by omega, rfl, rfl, fun _ => not_not.mp hcrc⟩

end

/-! ## The receiver against an arbitrary peer -/

/-- The receiver, all bytes the peer has sent (`stream`), where in it the frame being received
    starts (`off`), and the delivered messages, each with the place its frame starts. -/
structure RxRun where
  ioq : DmsgIoq
  wire : List UInt8
  stream : List UInt8
  off : Nat
  delivered : List (Nat × DmsgMsg)

def rxInit : RxRun where
  ioq := dmsgIoqInit
  wire := []
  stream := []
  off := 0
  delivered := []

inductive RxAction where
  | arrive (bs : List UInt8)
  | read (script : List ReadChoice)

/-- What is left of the stream at the current frame. -/
def RxRun.front (r : RxRun) : List UInt8 := r.stream.drop r.off

section

variable (icrc : Crc)

def rxPass (r : RxRun) (script : List ReadChoice) : Except IoqAssert (RxIo × PassResult) :=
  ioqReadPass icrc plainDecrypt ⟨r.ioq, r.wire, script⟩

def rxStep (r : RxRun) : RxAction → Except IoqAssert RxRun
  | .arrive bs => .ok { r with wire := r.wire ++ bs, stream := r.stream ++ bs }
  | .read script =>
    match rxPass icrc r script with
    | .error a => .error a
    | .ok (io, .message m) =>
      -- the frame ends where the bytes begin that are still in the FIFO and the socket
      .ok { r with
        ioq := io.ioq
        wire := io.wire
        off := r.stream.length - (io.wire.length + (io.ioq.fifoEnd - io.ioq.fifoBeg))
        delivered := r.delivered ++ [(r.off, m)] }
    | .ok (io, _) => .ok { r with ioq := io.ioq, wire := io.wire }

/-- The payload of `m` is the one announced at the front of `T`: within the bound, complete,
    what followed the header, and checked. -/
structure AuxOk (T : List UInt8) (m : DmsgMsg) : Prop where
  head : dmsgHdrSize ≤ headHbytes (DmsgHdr.ofBytes T)
  complete : headHbytes (DmsgHdr.ofBytes T) + doalign m.auxSize ≤ T.length
  bound : m.auxSize ≤ dmsgAuxMax
  size : m.auxData.length = doalign m.auxSize
  data : m.auxData = slice T (headHbytes (DmsgHdr.ofBytes T))
    (headHbytes (DmsgHdr.ofBytes T) + doalign m.auxSize)
  crc : m.auxSize ≠ 0 → icrc m.auxData = m.head.auxCrc

/-- The header of the current frame, once it is there, announces a size that can be aligned
    in 32 bits, unless its magic number or its own size is refused. -/
def NoWrap (r : RxRun) : RxAction → Prop
  | .arrive _ => True
  | .read _ => r.ioq.error = none → dmsgHdrSize ≤ r.front.length →
      HeadMagicOk (DmsgHdr.ofBytes r.front) → dmsgHdrSize ≤ headHbytes (DmsgHdr.ofBytes r.front) →
      headHbytes (DmsgHdr.ofBytes r.front) ≤ dmsgHdrMax →
      (headAuxSize (DmsgHdr.ofBytes r.front)).toNat ≤ 2 ^ 32 - 64

/-- A header that announces more than `DMSG_AUX_MAX` gets `DMSG_IOQ_ERROR_FIELD`, unless the
    pass could not read all of it yet or the socket failed. -/
def FieldAnswer (r : RxRun) : RxAction → Prop
  | .arrive _ => True
  | .read script => r.ioq.error = none → dmsgHdrSize ≤ r.front.length →
      HeadMagicOk (DmsgHdr.ofBytes r.front) →
      dmsgAuxMax < (headAuxSize (DmsgHdr.ofBytes r.front)).toNat →
      ∃ io res, rxPass icrc r script = .ok (io, res) ∧
        (res = .failed .field ∨ (res = .blocked ∧ io.wire ≠ []) ∨
          ∃ e, res = .failed e ∧ SockCause script e)

end

section

variable {icrc : Crc} {T : List UInt8} {r : RxRun}

theorem AuxOk.extend {m : DmsgMsg} (h : AuxOk icrc T m) (bs : List UInt8) :
    AuxOk icrc (T ++ bs) m := by
  have hT : dmsgHdrSize ≤ T.length := by
    have h1 := h.head
    have h2 := h.complete
    omega
  obtain ⟨h1, h2, h3, h4, h5, h6⟩ := h
  have hs := slice_take (T ++ bs) T.length (headHbytes (DmsgHdr.ofBytes T)) _ h2
  rw [List.take_left] at hs
  rw [hs, ← DmsgHdr.ofBytes_append T bs hT] at h5
  rw [← DmsgHdr.ofBytes_append T bs hT] at h1 h2
  refine ⟨h1, ?_, h3, h4, h5, h6⟩
  rw [List.length_append]
  omega

/-- What a frame within the aligned range delivers is as announced. -/
theorem auxOk_of_frame {m : DmsgMsg} {n : Nat} (h : frame icrc T = .msg m n)
    (hw : (headAuxSize (DmsgHdr.ofBytes T)).toNat ≤ 2 ^ 32 - 64) : AuxOk icrc T m := by
  obtain ⟨-, -, hf, hn, hlen, hsz, hdata, hcrc⟩ := frame_msg_inv h
  have hab : headAbytes (DmsgHdr.ofBytes T) = doalign m.auxSize := by
    rw [hsz, headAbytes, doalign32_toNat _ hw]
  rw [hab] at hn hcrc
  subst hn
  refine ⟨hf.1, hlen, ?_, ?_, hdata, ?_⟩
  · exact (doalign_le_auxMax _).mp (hab ▸ hf.2.2)
  · rw [hdata, length_slice _ _ _ hlen, Nat.add_sub_cancel_left]
  · intro hne
    exact hcrc (fun h0 => hne ((doalign_eq_zero _).mp h0))

structure RxInv (icrc : Crc) (r : RxRun) : Prop where
  rest : r.ioq.error = none → Rest icrc r.front ⟨r.ioq, r.wire, []⟩
  off : r.off ≤ r.stream.length
  delivered : ∀ d ∈ r.delivered, d.1 ≤ r.stream.length ∧ AuxOk icrc (r.stream.drop d.1) d.2

theorem rxInit_inv (icrc : Crc) : RxInv icrc rxInit :=
  ⟨fun _ => (linkInit_inv icrc (fun _ => 0)).rest, Nat.le_refl _, by simp [rxInit]⟩

/-- An errored receiver delivers nothing. -/
theorem ioqReadPass_errored {io io' : RxIo} {res : PassResult} {e : IoqError}
    (he : io.ioq.error = some e) (h : ioqReadPass icrc plainDecrypt io = .ok (io', res)) :
    res = .failed e ∧ io'.ioq.error = some e := by
  rw [ioqReadPass, he] at h
  dsimp only at h
  rw [ioqSkip] at h
  split at h
  · cases h
  · cases h
    exact ⟨rfl, rfl⟩

theorem rxStep_arrive (h : RxInv icrc r) (bs : List UInt8) :
    RxInv icrc { r with wire := r.wire ++ bs, stream := r.stream ++ bs } := by
  refine ⟨fun he => ?_, ?_, ?_⟩
  · have := (h.rest he).extend bs
    rw [RxRun.front, ← List.drop_append_of_le_length h.off] at this
    exact this
  · have := h.off
    dsimp only
    rw [List.length_append]
    omega
  · intro d hd
    obtain ⟨hle, hok⟩ := h.delivered d hd
    dsimp only
    rw [List.drop_append_of_le_length hle, List.length_append]
    exact ⟨by omega, hok.extend bs⟩

theorem rxStep_read {r' : RxRun} {S : List ReadChoice} (h : RxInv icrc r)
    (hw : NoWrap r (.read S)) (hs : rxStep icrc r (.read S) = .ok r') : RxInv icrc r' := by
  unfold rxStep rxPass at hs
  dsimp only at hs
  cases he : r.ioq.error with
  | some e =>
    split at hs
    · cases hs
    · rename_i heq
      exact absurd (ioqReadPass_errored he heq).1 (by simp)
    · rename_i heq
      cases hs
      refine ⟨fun hn => ?_, h.off, h.delivered⟩
      have := (ioqReadPass_errored he heq).2
      rw [this] at hn
      cases hn
  | none =>
    have hpass := ioqReadPass_spec ((h.rest he).script S)
    dsimp only at hpass
    generalize ioqReadPass icrc plainDecrypt ⟨r.ioq, r.wire, S⟩ = res at hpass hs
    cases hpass with
    | blocked rest =>
      cases hs
      exact ⟨fun _ => rest.script [], h.off, h.delivered⟩
    | failed st err =>
      cases hs
      refine ⟨fun hn => ?_, h.off, h.delivered⟩
      dsimp only at hn
      rw [err] at hn
      cases hn
    | crash => cases hs
    | @message io m n framed salt rest st =>
      cases hs
      obtain ⟨h64, hm, hf, -, hlen, -⟩ := frame_msg_inv framed
      have hfl : r.front.length = r.stream.length - r.off := by rw [RxRun.front, List.length_drop]
      have hoff := h.off
      -- the next frame starts `n` bytes further on
      have hnext : r.stream.length - (io.wire.length + (io.ioq.fifoEnd - io.ioq.fifoBeg)) =
          r.off + n := by
        cases rest with
        | header1 _ _ ok _ _ stream =>
          have := congrArg List.length stream
          rw [List.length_append, ok.length_fifo, List.length_drop] at this
          omega
        | header2 st' => rw [st] at st'; cases st'
        | auxdata2 st' => rw [st] at st'; cases st'
      refine ⟨fun _ => ?_, ?_, ?_⟩
      · have := rest.script []
        rw [RxRun.front, List.drop_drop, ← hnext] at this
        exact this
      · dsimp only
        omega
      · intro d hd
        rcases List.mem_append.mp hd with hd | hd
        · exact h.delivered d hd
        · rw [List.mem_singleton.mp hd]
          exact ⟨hoff, auxOk_of_frame framed (hw he h64 hm hf.1 hf.2.1)⟩

theorem rxStep_inv {r' : RxRun} (a : RxAction) (h : RxInv icrc r) (hw : NoWrap r a)
    (hs : rxStep icrc r a = .ok r') : RxInv icrc r' := by
  cases a with
  | arrive bs => cases hs; exact rxStep_arrive h bs
  | read S => exact rxStep_read h hw hs

theorem rxStep_fieldAnswer (a : RxAction) (h : RxInv icrc r) (hw : NoWrap r a) :
    FieldAnswer icrc r a := by
  cases a with
  | arrive bs => trivial
  | read S =>
    intro he h64 hm hbig
    have hfield : frame icrc r.front = .error .field := by
      refine frame_fields h64 hm (fun hf => ?_)
      have hle := hf.2.2
      rw [headAbytes, doalign32_toNat _ (hw he h64 hm hf.1 hf.2.1), doalign_le_auxMax] at hle
      omega
    have hpass := ioqReadPass_spec ((h.rest he).script S)
    unfold rxPass
    dsimp only at hpass
    generalize ioqReadPass icrc plainDecrypt ⟨r.ioq, r.wire, S⟩ = res at hpass
    cases hpass with
    | blocked _ short =>
      refine ⟨_, _, rfl, Or.inr (Or.inl ⟨rfl, fun hnil => ?_⟩)⟩
      have := short hnil
      rw [hfield] at this
      cases this
    | failed _ _ _ cause =>
      refine ⟨_, _, rfl, ?_⟩
      rcases cause with hfe | hsock | ⟨-, m, n, hfm, -⟩
      · rw [hfield] at hfe
        cases hfe
        exact Or.inl rfl
      · exact Or.inr (Or.inr ⟨_, rfl, hsock⟩)
      · rw [hfield] at hfm
        cases hfm
    | crash framed => rw [hfield] at framed; cases framed
    | message framed => rw [hfield] at framed; cases framed

end

/-- In every run in which no header announces a size above `2 ^ 32 - 64`, headers announcing
    more than the bound are refused and every delivered payload is as announced. -/
theorem delivered_aux_bounded (icrc : Crc) (as : List RxAction)
    (hw : Along (rxStep icrc) NoWrap rxInit as) :
    Along (rxStep icrc) (FieldAnswer icrc) rxInit as ∧
      ∀ r, run (rxStep icrc) rxInit as = .ok r →
        ∀ d ∈ r.delivered, AuxOk icrc (r.stream.drop d.1) d.2 := by
  have hstep : ∀ r a r', RxInv icrc r → NoWrap r a → rxStep icrc r a = .ok r' → RxInv icrc r' :=
    fun r a r' h => rxStep_inv a h
  refine ⟨Along.mono hstep (fun r a => rxStep_fieldAnswer a) as _ (rxInit_inv icrc) hw, ?_⟩
  intro r hrun d hd
  exact ((run_inv hstep as _ r (rxInit_inv icrc) hw hrun).delivered d hd).2

/-! ## The sizes that wrap -/

/-- At a complete frame with the right sequence number a read of one byte delivers it, or
    leaves fewer bytes in the socket. -/
theorem read_delivers_or_drains {icrc : Crc} {m : DmsgMsg} {n : Nat} {r : RxRun}
    (h : Rest icrc r.front ⟨r.ioq, r.wire, []⟩) (hf : frame icrc r.front = .msg m n)
    (hsalt : (m.head.salt &&& 255).toNat = r.ioq.seq % 256) :
    ∃ r', rxStep icrc r (.read [.bytes 1]) = .ok r' ∧
      ((r.off, m) ∈ r'.delivered ∨
        (r'.off = r.off ∧ r'.stream = r.stream ∧ Rest icrc r.front ⟨r'.ioq, r'.wire, []⟩ ∧
          r'.ioq.seq = r.ioq.seq ∧ r'.wire.length < r.wire.length)) := by
  have hpass := ioqReadPass_spec (h.script [.bytes 1])
  unfold rxStep rxPass
  dsimp only at hpass ⊢
  generalize ioqReadPass icrc plainDecrypt ⟨r.ioq, r.wire, [.bytes 1]⟩ = res at hpass
  cases hpass with
  | crash framed => rw [hf] at framed; cases framed
  | message framed =>
    rw [hf] at framed
    injection framed with hm hn
    subst hm hn
    exact ⟨_, rfl, Or.inl (by simp)⟩
  | failed _ _ _ cause =>
    rcases cause with hfe | (⟨-, hm⟩ | ⟨-, hm⟩) | ⟨-, m', n', hfm, hne⟩
    · rw [hf] at hfe; cases hfe
    · simp at hm
    · simp at hm
    · rw [hf] at hfm
      injection hfm with hm hn
      subst hm hn
      exact absurd hsalt hne
  | @blocked io rest short fed seq le =>
    refine ⟨_, rfl, Or.inr ⟨rfl, rfl, rest.script [], seq, ?_⟩⟩
    have hw : io.wire ≠ [] := by
      intro hnil
      have := short hnil
      rw [hf] at this
      cases this
    have hpos := List.length_pos_iff.mpr hw
    exact fed ⟨0, [], rfl⟩ (by omega)

theorem reads_deliver {icrc : Crc} {m : DmsgMsg} {n : Nat} (N : Nat) (r : RxRun)
    (h : Rest icrc r.front ⟨r.ioq, r.wire, []⟩) (hf : frame icrc r.front = .msg m n)
    (hsalt : (m.head.salt &&& 255).toNat = r.ioq.seq % 256) (hN : r.wire.length < N) :
    ∃ as r', run (rxStep icrc) r as = .ok r' ∧ (r.off, m) ∈ r'.delivered := by
  induction N generalizing r with
  | zero => omega
  | succ N ih =>
    obtain ⟨r1, hstep, hdel | ⟨hoff, hstr, hrest, hseq, hlt⟩⟩ := read_delivers_or_drains h hf hsalt
    · exact ⟨[.read [.bytes 1]], r1, run_cons_ok hstep [], hdel⟩
    · have hfront : r1.front = r.front := by rw [RxRun.front, hoff, hstr]; rfl
      obtain ⟨as, r2, hrun, hmem⟩ :=
        ih r1 (hfront ▸ hrest) (hfront ▸ hf) (hseq ▸ hsalt) (by omega)
      exact ⟨.read [.bytes 1] :: as, r2, (run_cons_ok hstep as).trans hrun, hoff ▸ hmem⟩

/-- A header without payload that announces `auxBytes` bytes of it; the CRC is not set. -/
def bareHead (auxBytes : UInt32) : DmsgHdr where
  magic := dmsgHdrMagic
  reserved02 := 0
  salt := 0
  msgid := 0
  circuit := 0
  linkVerifier := 0
  cmd := 1
  auxCrc := 0
  auxBytes := auxBytes
  error := 0
  auxDescr := 0
  reserved38 := 0
  hdrCrc := 0

/-- A message without payload whose header announces `2 ^ 32 - 1` bytes of it. -/
def wrapMsg (icrc : Crc) : DmsgMsg where
  head := { bareHead 0xFFFFFFFF with hdrCrc := icrc (bareHead 0xFFFFFFFF).bytes }
  ext := []
  auxSize := 0xFFFFFFFF
  auxData := []

/-- A header without payload is a frame of its own. -/
theorem frame_bareHead (icrc : Crc) {a : UInt32} (ha : doalign32 a = 0)
    (crc : UInt32) :
    frame icrc { bareHead a with hdrCrc := crc }.bytes =
      if icrc (bareHead a).bytes ≠ crc then .crash
      else .msg ⟨{ bareHead a with hdrCrc := crc }, [], a.toNat, []⟩ dmsgHdrSize := by
  generalize hhead : { bareHead a with hdrCrc := crc } = head
  have ho := DmsgHdr.ofBytes_bytes head []
  have hne : ¬ head.magic = dmsgHdrMagicRev := by
    rw [← hhead]
    change ¬ dmsgHdrMagic = dmsgHdrMagicRev
    decide
  have hsz : headAuxSize head = a := by
    rw [headAuxSize, if_neg hne, ← hhead]
    rfl
  have hab : headAbytes head = 0 := by
    rw [headAbytes, hsz, ha]
    rfl
  have hhb : headHbytes head = dmsgHdrSize := by
    rw [headHbytes, if_neg hne, ← hhead]
    change hbytesOf 1 = _
    decide
  have hm : HeadMagicOk (DmsgHdr.ofBytes (head.bytes ++ [])) := by
    rw [ho, ← hhead]
    exact Or.inl rfl
  have hf : HeadFieldsOk (DmsgHdr.ofBytes (head.bytes ++ [])) := by
    rw [ho, HeadFieldsOk, hhb, hab]
    decide
  have hb := frame_body icrc hm hf (by rw [ho, hhb, DmsgHdr.length_bytes])
  rw [List.append_nil] at ho hb
  have hd64 : head.bytes.drop dmsgHdrSize = [] := by
    rw [← head.length_bytes, List.drop_length]
  have hx : headXcrc head = crc := by
    rw [headXcrc, if_neg hne, ← hhead]
  have hcrc : headerCrc icrc head.bytes = icrc (bareHead a).bytes := by
    rw [headerCrc, ho, hd64, List.append_nil, ← hhead]
    rfl
  have hmh : msgHead head.bytes = head := by
    have hset : { head with hdrCrc := headXcrc head } = head := by
      rw [hx, ← hhead]
    rw [msgHead, ho, hset]
    exact if_neg hne
  rw [hb]
  simp only [ho, hcrc, hx, hab, if_true, hd64, hmh, List.take_zero, DmsgHdr.length_bytes, hsz]

theorem frame_wrapMsg (icrc : Crc) :
    frame icrc (wrapMsg icrc).head.bytes = .msg (wrapMsg icrc) dmsgHdrSize := by
  have hwrap : doalign32 0xFFFFFFFF = 0 := by decide
  exact (frame_bareHead icrc hwrap _).trans (if_neg (not_not.mpr rfl))

/-- Whatever the CRC is, such a header is delivered. -/
theorem wrapMsg_delivered (icrc : Crc) :
    ∃ as r, run (rxStep icrc) rxInit as = .ok r ∧ (0, wrapMsg icrc) ∈ r.delivered := by
  have hrest := (rxStep_arrive (rxInit_inv icrc) (wrapMsg icrc).head.bytes).rest rfl
  have hsalt : ((wrapMsg icrc).head.salt &&& 255).toNat = rxInit.ioq.seq % 256 := by
    change ((0 : UInt32) &&& 255).toNat = 0 % 256
    decide
  obtain ⟨as, r, hrun, hmem⟩ := reads_deliver _ _ hrest (frame_wrapMsg icrc) hsalt
    (Nat.lt_succ_self _)
  exact ⟨.arrive (wrapMsg icrc).head.bytes :: as, r, (run_cons_ok rfl as).trans hrun, hmem⟩

/-- The message claims 4 GB of payload and has none. -/
theorem aux_wrap_delivered :
    ∃ as r d, run (rxStep iscsiCrc32) rxInit as = .ok r ∧
      d ∈ r.delivered ∧ dmsgAuxMax < d.2.auxSize ∧ d.2.auxData = [] := by
  obtain ⟨as, r, hrun, hmem⟩ := wrapMsg_delivered iscsiCrc32
  refine ⟨as, r, _, hrun, hmem, ?_, rfl⟩
  change dmsgAuxMax < 0xFFFFFFFF
  decide

/-- A peer that sends a header and 64 bytes of payload. -/
theorem delivered_aux_bounded_plain :
    let as := [RxAction.arrive ((bareHead 64).bytes ++ List.replicate 64 1), .read [.bytes 128]]
    Along (rxStep fun _ => 0) NoWrap rxInit as ∧
      ∃ r d, run (rxStep fun _ => 0) rxInit as = .ok r ∧ d ∈ r.delivered ∧ d.2.auxSize = 64 ∧
        AuxOk (fun _ => 0) (r.stream.drop d.1) d.2 := by
  intro as
  have hw : Along (rxStep fun _ => 0) NoWrap rxInit as := by
    refine ⟨trivial, fun r hr => ⟨fun _ _ _ _ _ => ?_, fun _ _ => trivial⟩⟩
    cases hr
    decide
  have hrun : (run (rxStep fun _ => 0) rxInit as).toOption.map
      (fun r => r.delivered.map fun d => d.2.auxSize) = some [64] := by decide +kernel
  cases hr : run (rxStep fun _ => 0) rxInit as with
  | error e =>
    rw [hr] at hrun
    cases hrun
  | ok r =>
    rw [hr] at hrun
    have hsizes : (r.delivered.map fun d => d.2.auxSize) = [64] := Option.some.inj hrun
    have hmem : 64 ∈ r.delivered.map fun d => d.2.auxSize := by simp [hsizes]
    obtain ⟨d, hd, hsize⟩ := List.mem_map.mp hmem
    exact ⟨hw, r, d, rfl, hd, hsize, (delivered_aux_bounded (fun _ => 0) as hw).2 r hr d hd⟩

end Lh1.Dmsg
