/-
  The receiver refines `frame`.

  One lemma per receive state says that the state, entered with what the earlier ones have
  established (`InHeader`, `InAux`), leaves the switch in one of the ways `SwitchPost` lists.
  `ioqSwitch_spec` collects them for a receiver at rest, `ioqReadPass_spec` adds the sequence
  check and the exits.
-/
import Lh1.Dmsg.Frame

namespace Lh1.Dmsg

open Lh1.Lib

/-! ## Taking bytes out of the FIFO -/

theorem FifoOk.slice_front {ioq : DmsgIoq} (h : FifoOk ioq) {n : Nat} (hn : n ≤ ioq.fifo.length) :
    slice ioq.buf ioq.fifoBeg (ioq.fifoBeg + n) = ioq.fifo.take n := by
  have hl := h.length_fifo
  have hbe := h.begEnd
  rw [DmsgIoq.fifo, take_slice _ _ _ _ (by omega)]

theorem DmsgIoq.slice_back (ioq : DmsgIoq) (n : Nat) :
    slice ioq.buf (ioq.fifoBeg + n) ioq.fifoEnd = ioq.fifo.drop n := by
  rw [DmsgIoq.fifo, drop_slice]

theorem FifoOk.consume {ioq ioq' : DmsgIoq} (h : FifoOk ioq) {n : Nat} (hn : n ≤ ioq.fifo.length)
    (hbuf : ioq'.buf = ioq.buf) (hbeg : ioq'.fifoBeg = ioq.fifoBeg + n)
    (hend : ioq'.fifoEnd = ioq.fifoEnd) : FifoOk ioq' := by
  have hl := h.length_fifo
  have hbe := h.begEnd
  exact ⟨hbuf ▸ h.len, by omega, hend ▸ h.endLe⟩

section

variable {icrc : Crc} {T raw d : List UInt8} {io : RxIo} {q : Nat}
  {S : List ReadChoice} {W : Nat}

theorem HeadSeen.congr {ioq ioq' : DmsgIoq} (h : HeadSeen T ioq) (hh : ioq'.hbytes = ioq.hbytes)
    (ha : ioq'.abytes = ioq.abytes) (hu : ioq'.unalignedAuxSize = ioq.unalignedAuxSize) :
    HeadSeen T ioq' :=
  ⟨hh.trans h.hbytes, ha.trans h.abytes, hu.trans h.unaligned, h.magic, h.fields⟩

/-- The read block of the three reading states: an error ends the pass, and `next` goes on with
    what the FIFO has. -/
theorem SwitchPost.fill (next : RxIo → Except IoqAssert (RxIo × Bool)) {nmax : Nat} {b : Bool}
    (hfeed : Feed S W io) (hok : FifoOk io.ioq) (hn : nmax = dmsgBufSize - io.ioq.fifoEnd)
    (hpos : nmax ≠ 0) (herr : io.ioq.error = none) (hmsg : io.ioq.msg.isSome = b)
    (hnext : ∀ {buf e wire script}, FifoOk { io.ioq with buf := buf, fifoEnd := e } →
      slice buf io.ioq.fifoBeg e ++ wire = io.ioq.fifo ++ io.wire → io.ioq.fifoEnd ≤ e →
      Feed S W ⟨{ io.ioq with buf := buf, fifoEnd := e }, wire, script⟩ →
      Fed S W ⟨{ io.ioq with buf := buf, fifoEnd := e }, wire, script⟩ →
      SwitchPost icrc T q S W (next ⟨{ io.ioq with buf := buf, fifoEnd := e }, wire, script⟩)) :
    SwitchPost icrc T q S W (if (ioqFill nmax io).ioq.error ≠ none then .ok (ioqFill nmax io, b)
      else next (ioqFill nmax io)) := by
  obtain ⟨hsub, hfill⟩ := ioqFill_spec nmax io hok hn hpos
  have hfeed' := ioqFill_feed hfeed hpos hsub
  have hfed := ioqFill_fed hfeed hpos
  generalize ioqFill nmax io = io' at *
  obtain ⟨ioq', wire, script⟩ := io'
  rcases hfill with ⟨er, rfl, hcause⟩ | ⟨buf, e, rfl, hok', hcat, hle⟩
  · rw [if_pos (by simp)]
    exact .bad rfl hmsg (Or.inr (hcause.imp (And.imp_right (hfeed.sub _))
      (And.imp_right (hfeed.sub _))))
  · rw [if_neg (not_not_intro herr)]
    exact hnext hok' hcat hle hfeed' hfed

/-! ## AUXDATA -/

theorem InAux.frame_eq (h : InAux icrc T raw d io) :
    frame icrc T =
      (let rest := d ++ (io.ioq.fifo ++ io.wire)
       let data := rest.take io.ioq.abytes
       if rest.length < io.ioq.abytes then .more
       else if icrc data ≠ (msgHead raw).auxCrc then .error .acrc
       else .msg { head := msgHead raw, ext := raw.drop dmsgHdrSize,
                   auxSize := io.ioq.unalignedAuxSize, auxData := data }
              (raw.length + io.ioq.abytes)) := by
  have hm := h.seen.magic
  have hf := h.seen.fields
  have hhb := h.rawLen.trans h.seen.hbytes
  have hcrc := h.crc
  have hab := h.seen.abytes
  have hun := h.seen.unaligned
  have haux := h.aux
  rw [h.stream] at hm hf hhb hcrc hab hun ⊢
  rw [frame_body icrc hm hf hhb]
  simp only [hcrc, ne_eq, not_true_eq_false, if_false, ← hab, ← hun, haux]

theorem ioqAuxdata2Copy_spec (h : InAux icrc T raw d io) (hst : io.ioq.state = .auxdata2)
    (hd : d.length ≤ io.ioq.abytes) (hq : io.ioq.seq = q) (hfeed : Feed S W io)
    (hfed : d.length < io.ioq.abytes → Fed S W io) :
    SwitchPost icrc T q S W (ioqAuxdata2Copy icrc plainDecrypt io (auxMsg raw d)) := by
  have hlen := h.ok.length_fifo
  have hframe := h.frame_eq
  have hstream := h.stream
  unfold ioqAuxdata2Copy
  simp only [plainDecrypt, auxMsg, ← hlen, List.take_length]
  set n := min io.ioq.fifo.length (io.ioq.abytes - d.length) with hn
  have hnle : n ≤ io.ioq.fifo.length := Nat.min_le_left _ _
  simp only [h.ok.slice_front hnle]
  split
  · -- the payload is still incomplete, so the FIFO is used up
    rename_i hmore
    have hall : n = io.ioq.fifo.length := by omega
    have htake : io.ioq.fifo.take n = io.ioq.fifo := by rw [hall, List.take_length]
    have hdrop : io.ioq.fifo.drop n = [] := by rw [hall, List.drop_length]
    have hmsg : (⟨msgHead raw, raw.drop dmsgHdrSize, d.length + n, d ++ io.ioq.fifo.take n⟩ :
        DmsgMsg) = auxMsg raw (d ++ io.ioq.fifo.take n) := by
      rw [auxMsg, List.length_append, List.length_take, Nat.min_eq_left hnle]
    rw [hmsg]
    refine SwitchPost.more (Rest.auxdata2 hst ⟨rfl, rfl⟩ raw (d ++ io.ioq.fifo.take n) ?_ rfl ?_ ?_)
      ?_ (hfed (by omega)) hq hfeed.le
    · refine ⟨h.ok.consume hnle rfl rfl rfl, h.noErr, ?_, h.rawLen, h.seen.congr rfl rfl rfl,
        h.crc, h.aux⟩
      change T = raw ++ (d ++ io.ioq.fifo.take n ++
        (slice io.ioq.buf (io.ioq.fifoBeg + n) io.ioq.fifoEnd ++ io.wire))
      rw [DmsgIoq.slice_back, hdrop, htake, hstream]
      simp only [List.append_assoc, List.nil_append]
    · rw [List.length_append, htake]
      dsimp only; omega
    · exact (io.ioq.slice_back n).trans hdrop
    · intro hw
      dsimp only at hw
      rw [hframe]
      simp only [hw, List.append_nil, List.length_append]
      rw [if_pos (by omega)]
  · rename_i hdone
    have hn' : n = io.ioq.abytes - d.length := by omega
    have htot : d.length + n = io.ioq.abytes := by omega
    have hdata : (d ++ (io.ioq.fifo ++ io.wire)).take io.ioq.abytes = d ++ io.ioq.fifo.take n := by
      rw [List.take_append, List.take_of_length_le hd, ← hn', List.take_append_of_le_length hnle]
    have hdlen : (d ++ io.ioq.fifo.take n).length = io.ioq.abytes := by
      rw [List.length_append, List.length_take]; omega
    have hlong : ¬ (d ++ (io.ioq.fifo ++ io.wire)).length < io.ioq.abytes := by
      rw [List.length_append, List.length_append]; omega
    simp only [hdata, hlong, if_false] at hframe
    have htk : (d ++ io.ioq.fifo.take n).take io.ioq.abytes = d ++ io.ioq.fifo.take n :=
      List.take_of_length_le (Nat.le_of_eq hdlen)
    rw [if_neg (by simp only [htot, ne_eq, not_true_eq_false, not_false_eq_true]), htk]
    split
    · rename_i hbad
      rw [if_pos hbad] at hframe
      exact SwitchPost.bad rfl rfl (Or.inl hframe)
    · rename_i hgood
      rw [if_neg hgood] at hframe
      refine SwitchPost.done h.noErr (h.ok.consume hnle rfl rfl rfl) ⟨rfl, rfl⟩ rfl hframe ?_ hq hfeed.le
      change _ = slice io.ioq.buf (io.ioq.fifoBeg + n) io.ioq.fifoEnd ++ io.wire
      rw [DmsgIoq.slice_back, hstream, ← htot]
      simp only [List.drop_append, List.drop_eq_nil_of_le, Nat.le_add_right, List.nil_append,
        Nat.add_sub_cancel_left]
      rw [Nat.sub_eq_zero_of_le hnle, List.drop_zero]

/-- AUXDATA2, entered by falling through from AUXDATA1 or at the start of a pass. -/
theorem ioqAuxdata2_spec {bytes : Nat} (h : InAux icrc T raw d io) (hp : Plain io.ioq)
    (hst : io.ioq.state = .auxdata2) (hmsg : io.ioq.msg = some (auxMsg raw d))
    (hd : d.length ≤ io.ioq.abytes)
    (hpart : d.length < io.ioq.abytes → io.ioq.fifo = [] ∧ bytes = 0)
    (hq : io.ioq.seq = q) (hfeed : Feed S W io) :
    SwitchPost icrc T q S W (ioqAuxdata2 icrc plainDecrypt io bytes) := by
  obtain ⟨buf, b, e, hmk, hok, hfifo, hroom⟩ :=
    makeroom_spec io.ioq (io.ioq.abytes - d.length) h.ok hp
  unfold ioqAuxdata2
  simp only [hmsg]
  rw [show (auxMsg raw d).auxSize = d.length from rfl, hmk]
  dsimp only
  set ioq1 := { io.ioq with buf := buf, fifoBeg := b, fifoCdx := e, fifoCdn := e, fifoEnd := e }
    with hioq1
  have h1 : InAux icrc T raw d { io with ioq := ioq1 } :=
    ⟨hok, h.noErr, by rw [h.stream, ← hfifo]; rfl, h.rawLen,
      h.seen.congr rfl rfl rfl, h.crc, h.aux⟩
  have hfeed1 : Feed S W { io with ioq := ioq1 } := ⟨hfeed.sub, hfeed.le, hfeed.fresh⟩
  split
  · rename_i hlt
    obtain ⟨hempty, hb0⟩ := hpart hlt
    -- an empty FIFO leaves room for a read: it was reset, or half of the buffer is free
    have hnmax : dmsgBufSize - e ≠ 0 := by
      have hle := hok.length_fifo
      rw [show ioq1.fifo = io.ioq.fifo from hfifo, hempty] at hle
      have hbs : dmsgBufSize = 8192 := rfl
      rw [hempty] at hroom
      simp only [hioq1, List.length_nil] at hle hroom
      omega
    rw [if_neg hnmax, if_neg (by simp [hb0])]
    refine SwitchPost.fill (ioqAuxdata2Copy icrc plainDecrypt · (auxMsg raw d)) (b := true) hfeed1
      hok rfl hnmax h.noErr (congrArg Option.isSome hmsg) fun hok' hcat _ hfeed' hfed => ?_
    refine ioqAuxdata2Copy_spec ⟨hok', h.noErr, ?_, h.rawLen, h.seen.congr rfl rfl rfl, h.crc,
      h.aux⟩ hst hd hq hfeed' (fun _ => hfed)
    rw [h1.stream, ← hcat]
    rfl
  · exact ioqAuxdata2Copy_spec h1 hst hd hq hfeed1 (fun hlt => absurd hlt ‹_›)

/-- AUXDATA1, entered from HEADER2 with `bytes` bytes in the FIFO behind the header. -/
theorem ioqAuxdata1_spec {bytes size : Nat} (h : InAux icrc T raw [] io) (hp : Plain io.ioq)
    (hmsg : io.ioq.msg = some ⟨msgHead raw, raw.drop dmsgHdrSize, size, []⟩)
    (hbytes : bytes = io.ioq.fifo.length) (hq : io.ioq.seq = q) (hfeed : Feed S W io) :
    SwitchPost icrc T q S W (ioqAuxdata1 icrc plainDecrypt io bytes) := by
  obtain ⟨hcdx, hcdn⟩ := hp
  have hlen := h.ok.length_fifo
  have hbe := h.ok.begEnd
  have hstream := h.stream
  rw [List.nil_append] at hstream
  -- the first `n` bytes of the FIFO become payload
  have moved : ∀ n, n ≤ io.ioq.fifo.length → ∀ bytes',
      n ≤ io.ioq.abytes → (n < io.ioq.abytes → n = io.ioq.fifo.length ∧ bytes' = 0) →
      SwitchPost icrc T q S W (ioqAuxdata2 icrc plainDecrypt { io with ioq := { io.ioq with
        fifoBeg := io.ioq.fifoBeg + n, fifoCdx := io.ioq.fifoEnd, fifoCdn := io.ioq.fifoEnd,
        msg := some ⟨msgHead raw, raw.drop dmsgHdrSize, n,
          slice io.ioq.buf io.ioq.fifoBeg (io.ioq.fifoBeg + n)⟩,
        state := .auxdata2 } } bytes') := by
    intro n hn bytes' hna hpart
    have htlen : (io.ioq.fifo.take n).length = n := by rw [List.length_take]; omega
    rw [h.ok.slice_front hn]
    refine @ioqAuxdata2_spec icrc T raw (io.ioq.fifo.take n) _ _ _ _ _ ?_ ⟨rfl, rfl⟩ rfl ?_ ?_ ?_ hq
      ⟨hfeed.sub, hfeed.le, hfeed.fresh⟩
    · refine ⟨h.ok.consume hn rfl rfl rfl, h.noErr, ?_, h.rawLen, h.seen.congr rfl rfl rfl,
        h.crc, h.aux⟩
      change T = raw ++ (io.ioq.fifo.take n ++
        (slice io.ioq.buf (io.ioq.fifoBeg + n) io.ioq.fifoEnd ++ io.wire))
      rw [DmsgIoq.slice_back, ← List.append_assoc (io.ioq.fifo.take n), List.take_append_drop]
      exact hstream
    · rw [auxMsg, htlen]
    · rw [htlen]; exact hna
    · rw [htlen]
      intro hlt
      obtain ⟨hall, hb0⟩ := hpart hlt
      refine ⟨(io.ioq.slice_back n).trans ?_, hb0⟩
      rw [hall, List.drop_length]
  unfold ioqAuxdata1
  simp only [hmsg, hcdx, hcdn]
  split
  · rename_i hle
    rw [if_pos ⟨by omega, Nat.le_refl _⟩]
    exact moved io.ioq.abytes (by omega) _ (Nat.le_refl _) (fun hlt => absurd hlt (Nat.lt_irrefl _))
  · rename_i hgt
    split
    · have hend : ¬ io.ioq.fifoEnd < io.ioq.fifoBeg + bytes := by omega
      simp only [hend, if_false]
      rw [if_pos ⟨by omega, Nat.le_refl _⟩]
      exact moved bytes (by omega) 0 (by omega) (fun _ => ⟨hbytes, rfl⟩)
    · rename_i hz
      have hz0 : bytes = 0 := by omega
      have := moved 0 (Nat.zero_le _) 0 (Nat.zero_le _) (fun _ => ⟨by omega, rfl⟩)
      rw [Nat.add_zero, slice_self] at this
      exact this

/-! ## HEADER2 -/

theorem ioqHeader2Copy_spec (h : InHeader T io) (hst : io.ioq.state = .header2)
    (hq : io.ioq.seq = q) (hfeed : Feed S W io)
    (hfed : io.ioq.fifo.length < io.ioq.hbytes → Fed S W io) :
    SwitchPost icrc T q S W (ioqHeader2Copy icrc plainDecrypt io
      (allocRxMsg (headAuxSize (DmsgHdr.ofBytes T)))) := by
  have hlen := h.ok.length_fifo
  have hstream := h.stream
  have h64 := h.core
  have hhb := h.seen.hbytes
  have hTlen : T.length = io.ioq.fifo.length + io.wire.length := by
    rw [hstream, List.length_append]
  unfold ioqHeader2Copy
  simp only [plainDecrypt, allocRxMsg, ← hlen]
  split
  · rename_i hshort
    refine SwitchPost.more (Rest.header2 hst ⟨rfl, rfl⟩ ?_) ?_ (hfed hshort) hq hfeed.le
    · exact ⟨⟨h.ok.len, h.ok.begEnd, h.ok.endLe⟩, h.noErr, hstream, h64, h.seen.congr rfl rfl rfl,
        h.msg, h.room⟩
    · intro hw
      dsimp only at hw
      rw [hw, List.length_nil] at hTlen
      exact frame_header (by omega) h.seen.magic h.seen.fields (by omega)
  · rename_i hfull
    have hle : io.ioq.hbytes ≤ io.ioq.fifo.length := by omega
    have h64' : dmsgHdrSize ≤ io.ioq.hbytes := by rw [hhb]; exact h.seen.fields.1
    rw [h.ok.slice_front hle]
    set raw := io.ioq.fifo.take io.ioq.hbytes with hraw
    have hrawT : T = raw ++ (io.ioq.fifo.drop io.ioq.hbytes ++ io.wire) := by
      rw [← List.append_assoc, hraw, List.take_append_drop]; exact hstream
    have hrl : raw.length = io.ioq.hbytes := by rw [hraw, List.length_take]; omega
    have hhead : DmsgHdr.ofBytes raw = DmsgHdr.ofBytes T := by
      rw [hrawT, DmsgHdr.ofBytes_append _ _ (by omega)]
    have hm := h.seen.magic
    have hf := h.seen.fields
    have hrl' := hrl.trans hhb
    rw [hrawT] at hm hf hrl'
    have hbody := frame_body icrc hm hf hrl'
    rw [← hrawT] at hbody
    simp only [← h.seen.abytes] at hbody
    have hcrc : icrc ({ DmsgHdr.ofBytes raw with hdrCrc := 0 }.bytes ++ raw.drop dmsgHdrSize) =
        headerCrc icrc raw := rfl
    rw [hcrc, hhead]
    split
    · rename_i hbad
      rw [if_pos hbad] at hbody
      exact SwitchPost.crash hbody
    · rename_i hgood
      rw [if_neg hgood] at hbody
      have hmh : nativeHead { DmsgHdr.ofBytes T with hdrCrc := headXcrc (DmsgHdr.ofBytes T) } =
          msgHead raw := by rw [msgHead, hhead]
      simp only [hmh]
      split
      · rename_i hz
        rw [if_pos hz, hz, List.take_zero] at hbody
        refine SwitchPost.done h.noErr (h.ok.consume hle rfl rfl rfl) ⟨rfl, rfl⟩ rfl hbody ?_ hq hfeed.le
        change _ = slice io.ioq.buf (io.ioq.fifoBeg + io.ioq.hbytes) io.ioq.fifoEnd ++ io.wire
        rw [DmsgIoq.slice_back, hrawT, List.drop_left]
      · rename_i hnz
        refine @ioqAuxdata1_spec icrc T raw _ _ _ _ _ _ ?_ ⟨rfl, rfl⟩ rfl ?_ hq
          ⟨hfeed.sub, hfeed.le, hfeed.fresh⟩
        · refine ⟨h.ok.consume hle rfl rfl rfl, h.noErr, ?_, hrl, h.seen.congr rfl rfl rfl,
            not_not.mp hgood, hnz⟩
          change T = raw ++ ([] ++
            (slice io.ioq.buf (io.ioq.fifoBeg + io.ioq.hbytes) io.ioq.fifoEnd ++ io.wire))
          rw [DmsgIoq.slice_back, List.nil_append]
          exact hrawT
        · change _ = (slice io.ioq.buf (io.ioq.fifoBeg + io.ioq.hbytes) io.ioq.fifoEnd).length
          rw [DmsgIoq.slice_back, List.length_drop]

/-- HEADER2, entered by falling through from HEADER1 or at the start of a pass. -/
theorem ioqHeader2_spec {bytes nmax : Nat} (h : InHeader T io) (hst : io.ioq.state = .header2)
    (hbytes : bytes = io.ioq.fifo.length) (hn : nmax = dmsgBufSize - io.ioq.fifoEnd)
    (hq : io.ioq.seq = q) (hfeed : Feed S W io) :
    SwitchPost icrc T q S W (ioqHeader2 icrc plainDecrypt io bytes nmax) := by
  unfold ioqHeader2
  simp only [h.msg]
  split
  · rename_i hshort
    have hroom := h.room
    have hnmax : nmax ≠ 0 := by omega
    rw [if_neg hnmax]
    refine SwitchPost.fill (ioqHeader2Copy icrc plainDecrypt · _) (b := true) hfeed h.ok hn hnmax
      h.noErr (congrArg Option.isSome h.msg) fun {buf' e' _ _} hok' hcat _ hfeed' hfed => ?_
    have hlen := h.ok.length_fifo
    have hlen' : ({ io.ioq with buf := buf', fifoEnd := e' } : DmsgIoq).fifo.length =
        e' - io.ioq.fifoBeg := hok'.length_fifo
    have hbe := h.ok.begEnd
    have hcore := h.core
    have hend' : e' ≤ dmsgBufSize := hok'.endLe
    have hel := h.ok.endLe
    refine ioqHeader2Copy_spec ⟨hok', h.noErr, ?_, ?_, h.seen.congr rfl rfl rfl, h.msg, ?_⟩ hst hq
      hfeed' (fun _ => hfed)
    · rw [h.stream, ← hcat]
      rfl
    · rw [hlen']; omega
    · rw [hlen']
      dsimp only
      omega
  · exact ioqHeader2Copy_spec h hst hq hfeed (fun hlt => absurd (hbytes ▸ hlt) ‹_›)

/-! ## HEADER1 -/

theorem ioqHeader1Parse_spec (hok : FifoOk io.ioq) (hst : io.ioq.state = .header1)
    (herr : io.ioq.error = none) (hmsg : io.ioq.msg = none) (hstream : T = io.ioq.fifo ++ io.wire)
    (hq : io.ioq.seq = q) (hfeed : Feed S W io)
    (hfed : io.ioq.fifo.length < dmsgHdrSize → Fed S W io) :
    SwitchPost icrc T q S W (ioqHeader1Parse icrc plainDecrypt io) := by
  have hlen := hok.length_fifo
  have hTlen : T.length = io.ioq.fifo.length + io.wire.length := by
    rw [hstream, List.length_append]
  unfold ioqHeader1Parse
  simp only [plainDecrypt, hmsg, ne_eq, not_true_eq_false, if_false, ← hlen]
  split
  · rename_i hshort
    refine SwitchPost.more (Rest.header1 hst ⟨rfl, rfl⟩ ⟨hok.len, hok.begEnd, hok.endLe⟩ herr rfl
      hstream) ?_ (hfed hshort) hq hfeed.le
    intro hw
    dsimp only at hw
    rw [hw, List.length_nil] at hTlen
    exact frame_short (by omega)
  · rename_i hcore
    have h64 : dmsgHdrSize ≤ io.ioq.fifo.length := by omega
    have hhead : DmsgHdr.ofBytes (io.ioq.fifo.take dmsgHdrSize) = DmsgHdr.ofBytes T := by
      rw [DmsgHdr.ofBytes_take _ _ (Nat.le_refl _), hstream, DmsgHdr.ofBytes_append _ _ h64]
    rw [hok.slice_front h64, hhead]
    split
    · rename_i hbad
      have hm : ¬ HeadMagicOk (DmsgHdr.ofBytes T) := by
        rintro (h | h)
        · exact hbad.1 h
        · exact hbad.2 h
      exact SwitchPost.bad rfl rfl (Or.inl (frame_magic (by omega) hm))
    · rename_i hgood
      have hm : HeadMagicOk (DmsgHdr.ofBytes T) := by
        unfold HeadMagicOk
        tauto
      split
      · rename_i hbad
        have hf : ¬ HeadFieldsOk (DmsgHdr.ofBytes T) := by
          unfold HeadFieldsOk
          omega
        exact SwitchPost.bad rfl rfl (Or.inl (frame_fields (by omega) hm hf))
      · rename_i hok'
        have hf : HeadFieldsOk (DmsgHdr.ofBytes T) := by
          unfold HeadFieldsOk
          omega
        set ioq1 : DmsgIoq := { io.ioq with
          fifoCdx := io.ioq.fifoEnd
          fifoCdn := io.ioq.fifoEnd
          hbytes := headHbytes (DmsgHdr.ofBytes T)
          abytes := headAbytes (DmsgHdr.ofBytes T)
          unalignedAuxSize := (headAuxSize (DmsgHdr.ofBytes T)).toNat
          msg := some (allocRxMsg (headAuxSize (DmsgHdr.ofBytes T))) } with hioq1
        have hok1 : FifoOk ioq1 := ⟨hok.len, hok.begEnd, hok.endLe⟩
        obtain ⟨buf, b, e, hmk, hok2, hfifo, hroom⟩ :=
          makeroom_spec ioq1 (headHbytes (DmsgHdr.ofBytes T)) hok1 ⟨rfl, rfl⟩
        rw [hmk]
        have hf1 : ioq1.fifo = io.ioq.fifo := rfl
        have hlen2 : (slice buf b e).length = e - b := hok2.length_fifo
        rw [hfifo, hf1] at hlen2
        have hel : e ≤ dmsgBufSize := hok2.endLe
        have hbe : b ≤ e := hok2.begEnd
        have hhb := hf.2.1
        have hbs : dmsgBufSize = 8192 := rfl
        have hmax : dmsgHdrMax = 2048 := rfl
        refine ioqHeader2_spec ?_ rfl ?_ rfl hq ⟨hfeed.sub, hfeed.le, hfeed.fresh⟩
        · refine ⟨⟨hok2.len, hok2.begEnd, hok2.endLe⟩, herr, ?_, ?_, ⟨rfl, rfl, rfl, hm, hf⟩, rfl, ?_⟩
          · change T = slice buf b e ++ io.wire
            rw [hfifo, hf1]; exact hstream
          · change dmsgHdrSize ≤ (slice buf b e).length
            rw [hfifo, hf1]; exact h64
          · change headHbytes (DmsgHdr.ofBytes T) ≤ (slice buf b e).length + (dmsgBufSize - e)
            rw [hf1] at hroom
            rw [hfifo, hf1]
            omega
        · change io.ioq.fifo.length = (slice buf b e).length
          rw [hfifo, hf1]

theorem ioqHeader1_spec (hok : FifoOk io.ioq) (hp : Plain io.ioq) (hst : io.ioq.state = .header1)
    (herr : io.ioq.error = none) (hmsg : io.ioq.msg = none) (hstream : T = io.ioq.fifo ++ io.wire)
    (hq : io.ioq.seq = q) (hfeed : Feed S W io) :
    SwitchPost icrc T q S W (ioqHeader1 icrc plainDecrypt io) := by
  obtain ⟨buf, b, e, hmk, hok1, hfifo, hroom⟩ := makeroom_spec io.ioq dmsgHdrSize hok hp
  have hlen := hok.length_fifo
  unfold ioqHeader1
  rw [hmk]
  dsimp only
  have hstream1 : T = slice buf b e ++ io.wire := by rw [hfifo]; exact hstream
  have hfeed1 : Feed S W { io with ioq := { io.ioq with
      buf := buf, fifoBeg := b, fifoCdx := e, fifoCdn := e, fifoEnd := e } } :=
    ⟨hfeed.sub, hfeed.le, hfeed.fresh⟩
  split
  · rename_i hshort
    have hlen1 : (slice buf b e).length = e - b := hok1.length_fifo
    rw [hfifo] at hlen1
    have hbe : b ≤ e := hok1.begEnd
    have hnmax : dmsgBufSize - e ≠ 0 := by
      have hbs : dmsgBufSize = 8192 := rfl
      have h64 : dmsgHdrSize = 64 := rfl
      rw [hp.1] at hshort
      omega
    exact SwitchPost.fill (ioqHeader1Parse icrc plainDecrypt) (b := false) hfeed1 hok1 rfl hnmax
      herr (congrArg Option.isSome hmsg)
      fun hok' hcat _ hfeed' hfed => ioqHeader1Parse_spec hok' hst herr hmsg
        (hstream1.trans hcat.symm) hq hfeed' (fun _ => hfed)
  · rename_i hcore
    refine ioqHeader1Parse_spec hok1 hst herr hmsg hstream1 hq hfeed1 (fun hlt => ?_)
    rw [hp.1, ← hlen, ← hfifo] at hcore
    exact absurd hlt hcore

/-! ## The switch and the pass -/

theorem ioqSwitch_spec (h : Rest icrc T io) (hq : io.ioq.seq = q) (hfeed : Feed S W io) :
    SwitchPost icrc T q S W (ioqSwitch icrc plainDecrypt io) := by
  unfold ioqSwitch
  cases h with
  | header1 st plain ok noErr msg stream =>
    simp only [st]
    exact ioqHeader1_spec ok plain st noErr msg stream hq hfeed
  | header2 st plain inHeader =>
    simp only [st]
    refine ioqHeader2_spec inHeader st ?_ rfl hq hfeed
    rw [plain.1, inHeader.ok.length_fifo]
  | auxdata2 st plain raw d inAux msg part empty =>
    simp only [st]
    refine ioqAuxdata2_spec inAux plain st msg (Nat.le_of_lt part) (fun _ => ⟨empty, ?_⟩) hq hfeed
    rw [plain.1, ← inAux.ok.length_fifo, empty, List.length_nil]

theorem Rest.error_none (h : Rest icrc T io) : io.ioq.error = none := by
  cases h with
  | header1 _ _ _ noErr => exact noErr
  | header2 _ _ inHeader => exact inHeader.noErr
  | auxdata2 _ _ _ _ inAux => exact inAux.noErr

/-- How a pass can end that started at the frame `T` with sequence number `q` and script `S`. -/
inductive PassPost (icrc : Crc) (T : List UInt8) (q : Nat)
    (S : List ReadChoice) (W : Nat) : Except IoqAssert (RxIo × PassResult) → Prop
  | blocked {io : RxIo} (rest : Rest icrc T io) (short : io.wire = [] → frame icrc T = .more)
      (fed : Fed S W io) (seq : io.ioq.seq = q) (le : io.wire.length ≤ W) :
      PassPost icrc T q S W (.ok (io, .blocked))
  | message {io : RxIo} {m : DmsgMsg} {n : Nat} (framed : frame icrc T = .msg m n)
      (salt : (m.head.salt &&& 255).toNat = q % 256) (rest : Rest icrc (T.drop n) io)
      (st : io.ioq.state = .header1) (seq : io.ioq.seq = q + 1) (le : io.wire.length ≤ W) :
      PassPost icrc T q S W (.ok (io, .message m))
  | failed {io : RxIo} {e : IoqError} (st : io.ioq.state = .error) (err : io.ioq.error = some e)
      (msg : io.ioq.msg = none)
      (cause : frame icrc T = .error e ∨ SockCause S e ∨
        (e = .msgseq ∧ ∃ m n, frame icrc T = .msg m n ∧ (m.head.salt &&& 255).toNat ≠ q % 256)) :
      PassPost icrc T q S W (.ok (io, .failed e))
  | crash (framed : frame icrc T = .crash) : PassPost icrc T q S W (.error .badXcrc)

/-- Completion leaves the FIFO contents alone; an empty FIFO is moved to the buffer's start. -/
theorem ioqComplete_fifo {ioq : DmsgIoq} (hok : FifoOk ioq) (hp : Plain ioq) :
    FifoOk (ioqComplete ioq) ∧ Plain (ioqComplete ioq) ∧ (ioqComplete ioq).fifo = ioq.fifo := by
  unfold ioqComplete
  dsimp only
  split
  · rename_i hempty
    refine ⟨⟨hok.len, Nat.le_refl _, Nat.zero_le _⟩, ⟨rfl, rfl⟩, ?_⟩
    rw [DmsgIoq.fifo, DmsgIoq.fifo, ← hp.1, hempty.1, slice_self, slice_self]
  · exact ⟨⟨hok.len, hok.begEnd, hok.endLe⟩, hp, rfl⟩

theorem ioqComplete_fields (ioq : DmsgIoq) :
    (ioqComplete ioq).state = .header1 ∧ (ioqComplete ioq).error = ioq.error ∧
      (ioqComplete ioq).msg = none ∧ (ioqComplete ioq).seq = ioq.seq := by
  unfold ioqComplete
  dsimp only
  split <;> exact ⟨rfl, rfl, rfl, rfl⟩

theorem ioqReadPass_spec (h : Rest icrc T io) :
    PassPost icrc T io.ioq.seq io.script io.wire.length (ioqReadPass icrc plainDecrypt io) := by
  have hsw := ioqSwitch_spec h rfl
    (⟨fun _ hc => hc, Nat.le_refl _, fun _ _ _ => rfl⟩ : Feed io.script io.wire.length io)
  unfold ioqReadPass
  rw [h.error_none]
  generalize ioqSwitch icrc plainDecrypt io = r at hsw
  cases hsw with
  | more rest short fed seq le =>
    dsimp only
    rw [ioqFinish, rest.error_none]
    exact PassPost.blocked rest short fed seq le
  | crash framed => exact PassPost.crash framed
  | bad err msg cause =>
    dsimp only
    rw [ioqFinish, err]
    dsimp only
    rw [ioqSkip, if_neg (not_not.mpr msg)]
    exact PassPost.failed rfl rfl rfl (cause.imp_right Or.inl)
  | @done io' m n noErr ok plain msg framed left seq le =>
    dsimp only
    rw [ioqFinish, noErr]
    simp only [if_true, msg]
    split
    · rename_i hsalt
      rw [ioqSkip, if_neg (by simp [msg])]
      rw [seq] at hsalt
      exact PassPost.failed rfl rfl rfl (Or.inr (Or.inr ⟨rfl, m, n, framed, hsalt⟩))
    · rename_i hsalt
      rw [seq] at hsalt
      obtain ⟨hok, hp, hfifo⟩ := @ioqComplete_fifo { io'.ioq with seq := io'.ioq.seq + 1 }
        ⟨ok.len, ok.begEnd, ok.endLe⟩ plain
      obtain ⟨hst, her, hms, hsq⟩ := ioqComplete_fields { io'.ioq with seq := io'.ioq.seq + 1 }
      refine PassPost.message framed (not_not.mp hsalt) ?_ hst (hsq.trans (by rw [← seq])) le
      exact Rest.header1 hst hp hok (her.trans noErr) hms 
        (left.trans (congrArg (· ++ io'.wire) hfifo.symm))

end

end Lh1.Dmsg
