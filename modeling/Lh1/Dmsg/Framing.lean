/-
  A whole unidirectional dmsg link without encryption: the sender's queues (`Flush`), the
  bytes in the socket and the receiver (`Ioq`), driven by an arbitrary schedule of queueing,
  flushing and reading.

  `frame_wired` is the point where the two halves meet: of any prefix of a sent message and
  what follows it, the receiver's `frame` makes that message or waits for more. With it,
  `LinkInv` says that what was received, what the receiver has absorbed, what is in the
  socket and what is left to send always add up to what was queued.

  * `link_faithful`: in every schedule the received messages are the queued ones, in order
    and unchanged, and enough further rounds of writes and reads deliver all of them.
-/
import Lh1.Dmsg.Flush
import Lh1.Dmsg.IoqSpec
import Lh1.Lib.Run

namespace Lh1.Dmsg

open Lh1.Lib

/-! ## Messages a sender may queue, and what becomes of them -/

/-- What `dmsg_msg_alloc` and its callers guarantee of a queued message. A nonzero `aux_crc`
    is taken as already computed. -/
structure Sendable (icrc : Crc) (m : DmsgMsg) : Prop extends Sized m where
  headMax : m.hbytes ≤ dmsgHdrMax
  auxMax : m.auxSize ≤ dmsgAuxMax
  auxCrc : m.auxSize ≠ 0 → m.head.auxCrc = 0 ∨ m.head.auxCrc = icrc m.auxData

/-- A message as `flush1` completes it for sequence number `q`. -/
structure Wired (icrc : Crc) (q : Nat) (p : DmsgMsg) : Prop extends Sized p where
  headMax : p.hbytes ≤ dmsgHdrMax
  auxMax : p.auxSize ≤ dmsgAuxMax
  magic : p.head.magic = dmsgHdrMagic
  salt : (p.head.salt &&& 255).toNat = q % 256
  auxBytes : p.head.auxBytes.toNat = p.auxSize
  auxCrc : p.auxSize ≠ 0 → p.head.auxCrc = icrc p.auxData
  hdrCrc : p.head.hdrCrc = icrc ({ p.head with hdrCrc := 0 }.bytes ++ p.ext)

theorem salt_low_byte (r : UInt32) (q : Nat) :
    (((r <<< 8) ||| UInt32.ofNat (q % 256)) &&& 255).toNat = q % 256 := by
  have h255 : (255 : UInt32).toNat = 2 ^ 8 - 1 := rfl
  have h8 : (8 : UInt32).toNat % 32 = 8 := rfl
  rw [UInt32.toNat_and, UInt32.toNat_or, h255, Nat.and_two_pow_sub_one_eq_mod,
    Nat.or_mod_two_pow, UInt32.toNat_shiftLeft, h8, UInt32.toNat_ofNat']
  have hz : (r.toNat <<< 8 % 2 ^ 32) % 2 ^ 8 = 0 := by
    rw [Nat.shiftLeft_eq]; omega
  rw [hz, Nat.zero_or]
  omega

theorem populate_wired {icrc : Crc} (random : Nat → UInt32) (q : Nat)
    {m : DmsgMsg} (h : Sendable icrc m) : Wired icrc q (populate icrc random q m) := by
  have hmax : m.auxSize < 2 ^ 32 := by
    have := h.auxMax
    unfold dmsgAuxMax at this
    omega
  have hall : m.auxData.take m.abytes = m.auxData :=
    List.take_of_length_le (Nat.le_of_eq h.aux)
  have hhd : ∀ hd : DmsgHdr, (hd.bytes ++ m.ext).take m.hbytes = hd.bytes ++ m.ext := by
    intro hd
    apply List.take_of_length_le
    rw [List.length_append, DmsgHdr.length_bytes]
    exact Nat.le_of_eq h.head
  unfold populate
  simp only [hall, hhd]
  refine ⟨⟨?_, h.aux⟩, ?_, h.auxMax, ?_, ?_, ?_, ?_, rfl⟩
  · unfold DmsgMsg.hbytes
    split <;> exact h.head
  · unfold DmsgMsg.hbytes
    split <;> exact h.headMax
  · split <;> rfl
  · split <;> exact salt_low_byte _ _
  · rw [UInt32.toNat_ofNat', Nat.mod_eq_of_lt hmax]
  · intro hne
    split
    · rfl
    · rename_i hno
      rcases h.auxCrc hne with h0 | hc
      · exact absurd ⟨hne, h0⟩ hno
      · exact hc

/-! ## The receiver's view of a sent message -/

section

variable {icrc : Crc} {q : Nat} {p : DmsgMsg} {T rest : List UInt8}

theorem Wired.headAbytes_eq (h : Wired icrc q p) : headAbytes p.head = p.abytes := by
  have hne : p.head.magic ≠ dmsgHdrMagicRev := by rw [h.magic]; decide
  have hmax := h.auxMax
  rw [← h.auxBytes] at hmax
  unfold dmsgAuxMax at hmax
  rw [headAbytes, headAuxSize, if_neg hne, doalign32_toNat _ (by omega), h.auxBytes]
  rfl

theorem Wired.headHbytes_eq (h : Wired icrc q p) : headHbytes p.head = p.hbytes := by
  have hne : p.head.magic ≠ dmsgHdrMagicRev := by rw [h.magic]; decide
  rw [headHbytes, if_neg hne]
  rfl

theorem Wired.accepted (h : Wired icrc q p) : HeadMagicOk p.head ∧ HeadFieldsOk p.head := by
  refine ⟨Or.inl h.magic, ?_⟩
  have := h.head
  refine ⟨by rw [h.headHbytes_eq]; omega, by rw [h.headHbytes_eq]; exact h.headMax, ?_⟩
  rw [h.headAbytes_eq]
  exact (doalign_le_auxMax _).mpr h.auxMax

theorem ofBytes_headImage (p : DmsgMsg) (rest : List UInt8) :
    DmsgHdr.ofBytes (p.headImage ++ rest) = p.head := by
  rw [DmsgMsg.headImage, List.append_assoc, DmsgHdr.ofBytes_bytes]

theorem Wired.msgHead_eq (h : Wired icrc q p) : msgHead p.headImage = p.head := by
  have hne : p.head.magic ≠ dmsgHdrMagicRev := by rw [h.magic]; decide
  have ho := ofBytes_headImage p []
  rw [List.append_nil] at ho
  rw [msgHead, ho, headXcrc, if_neg hne, nativeHead]
  exact if_neg hne

theorem Wired.headerCrc_eq (h : Wired icrc q p) : headerCrc icrc p.headImage = headXcrc p.head := by
  have hne : p.head.magic ≠ dmsgHdrMagicRev := by rw [h.magic]; decide
  have ho := ofBytes_headImage p []
  have hd : p.headImage.drop dmsgHdrSize = p.ext := by
    rw [DmsgMsg.headImage, ← p.head.length_bytes, List.drop_left]
  rw [List.append_nil] at ho
  rw [headerCrc, ho, hd, headXcrc, if_neg hne, h.hdrCrc]

/-- Of a prefix of a sent message and what follows it, the receiver makes that message, or
    waits for the rest of it. -/
theorem frame_wired (h : Wired icrc q p) (hT : T <+: p.wireImage ++ rest) :
    frame icrc T =
      if T.length < p.wireImage.length then .more else .msg p p.wireImage.length := by
  have hhl := h.length_headImage
  have hwl := h.length_wireImage
  have hsz := h.head
  obtain ⟨hmok, hfok⟩ := h.accepted
  rw [DmsgMsg.wireImage, List.append_assoc] at hT
  rcases Nat.lt_or_ge T.length dmsgHdrSize with hlt | hge
  · rw [frame_short hlt, if_pos (by omega)]
  have hof : DmsgHdr.ofBytes T = p.head := by
    obtain ⟨t, ht⟩ := hT
    rw [← DmsgHdr.ofBytes_append T t hge, ht, ofBytes_headImage]
  rcases Nat.lt_or_ge T.length p.hbytes with hlt | hge'
  · rw [frame_header hge (hof ▸ hmok) (hof ▸ hfok) (by rw [hof, h.headHbytes_eq]; exact hlt),
      if_pos (by omega)]
  -- the header is complete: split it off
  obtain ⟨t, rfl⟩ : p.headImage <+: T :=
    List.prefix_of_prefix_length_le (List.prefix_append _ _) hT (by omega)
  have ht : t <+: p.auxData ++ rest := (List.prefix_append_right_inj _).mp hT
  rw [frame_body icrc (hof ▸ hmok) (hof ▸ hfok) (by rw [hof, h.headHbytes_eq, hhl])]
  have haux : (headAuxSize p.head).toNat = p.auxSize := by
    have hne : p.head.magic ≠ dmsgHdrMagicRev := by rw [h.magic]; decide
    rw [headAuxSize, if_neg hne, h.auxBytes]
  have hext : p.headImage.drop dmsgHdrSize = p.ext := by
    rw [DmsgMsg.headImage, ← p.head.length_bytes, List.drop_left]
  simp only [hof, h.headAbytes_eq, h.headerCrc_eq, ne_eq, not_true_eq_false, if_false,
    h.msgHead_eq, haux, hext, List.length_append, hwl, hhl, Nat.add_lt_add_iff_left]
  by_cases hz : p.abytes = 0
  · have hnil : p.auxData = [] := List.length_eq_zero_iff.mp (h.aux.trans hz)
    rw [if_pos hz, if_neg (by omega), hz, List.take_zero, Nat.add_zero, ← hnil]
  · rw [if_neg hz]
    split
    · rfl
    · rename_i hlen
      have hdata : t.take p.abytes = p.auxData := by
        have hpre : p.auxData <+: t :=
          List.prefix_of_prefix_length_le (List.prefix_append _ _) ht (by rw [h.aux]; omega)
        rw [← h.aux]
        exact (List.prefix_iff_eq_take.mp hpre).symm
      have hne : p.auxSize ≠ 0 := by
        intro h0
        rw [DmsgMsg.abytes, h0] at hz
        exact hz rfl
      rw [hdata, if_neg (not_not.mpr (h.auxCrc hne).symm)]

end

/-! ## The link -/

/-- Both ends of the link. `queued` and `received` record all messages handed to the sender
    and all messages the receiver has extracted. -/
structure Link where
  queued : List DmsgMsg
  txmsgq : List DmsgMsg
  tx : TxIoq
  wire : List UInt8
  rx : DmsgIoq
  received : List DmsgMsg

def linkInit : Link where
  queued := []
  txmsgq := []
  tx := txIoqInit
  wire := []
  rx := dmsgIoqInit
  received := []

inductive LinkAction where
  | enqueue (m : DmsgMsg)
  | flush (w : WriteChoice)
  | read (script : List ReadChoice)

/-- An assertion that fails on either side. -/
inductive LinkFault where
  | tx (a : FlushAssert)
  | rx (a : IoqAssert)

section

variable (icrc : Crc) (random : Nat → UInt32)

def linkStep (l : Link) : LinkAction → Except LinkFault Link
  | .enqueue m => .ok { l with queued := l.queued ++ [m], txmsgq := l.txmsgq ++ [m] }
  | .flush w =>
    match flush2 (flush1Queue icrc random l.txmsgq l.tx) w with
    | .error a => .error (.tx a)
    | .ok (tx, sent) => .ok { l with txmsgq := [], tx := tx, wire := l.wire ++ sent }
  | .read script =>
    match ioqReadPass icrc plainDecrypt ⟨l.rx, l.wire, script⟩ with
    | .error a => .error (.rx a)
    | .ok (io, .message m) =>
      .ok { l with rx := io.ioq, wire := io.wire, received := l.received ++ [m] }
    | .ok (io, _) => .ok { l with rx := io.ioq, wire := io.wire }

/-- Actions of a link on which neither end fails or closes the socket. -/
def Honest : LinkAction → Prop
  | .enqueue m => Sendable icrc m
  | .flush w => w ≠ .fail
  | .read script => .eof ∉ script ∧ .fail ∉ script

end

/-- The messages a schedule queues. -/
def enqueued (as : List LinkAction) : List DmsgMsg :=
  as.filterMap fun
    | .enqueue m => some m
    | _ => none

/-! ## What holds in every state of the link -/

/-- The messages `q` as they are completed, starting with sequence number `n`. -/
def populateAll (icrc : Crc) (random : Nat → UInt32) :
    Nat → List DmsgMsg → List DmsgMsg
  | _, [] => []
  | n, m :: q => populate icrc random n m :: populateAll icrc random (n + 1) q

section

variable {icrc : Crc} {random : Nat → UInt32}

theorem length_populateAll (icrc : Crc) (random : Nat → UInt32) (n : Nat)
    (q : List DmsgMsg) : (populateAll icrc random n q).length = q.length := by
  induction q generalizing n with
  | nil => rfl
  | cons m q ih => rw [populateAll, List.length_cons, ih, List.length_cons]

theorem populateAll_append (n : Nat) (q r : List DmsgMsg) :
    populateAll icrc random n (q ++ r) =
      populateAll icrc random n q ++ populateAll icrc random (n + q.length) r := by
  induction q generalizing n with
  | nil => rfl
  | cons m q ih =>
    rw [List.cons_append, populateAll, populateAll, ih, List.cons_append, List.length_cons,
      Nat.add_assoc, Nat.add_comm 1]

theorem populateAll_wired (n : Nat) (q : List DmsgMsg) (hq : ∀ m ∈ q, Sendable icrc m)
    {r : List DmsgMsg} {p : DmsgMsg} {s : List DmsgMsg}
    (h : populateAll icrc random n q = r ++ p :: s) : Wired icrc (n + r.length) p := by
  induction q generalizing n r with
  | nil => simp [populateAll] at h
  | cons m q ih =>
    rw [populateAll] at h
    cases r with
    | nil =>
      rw [List.nil_append, List.cons.injEq] at h
      rw [← h.1]
      exact populate_wired random n (hq m (by simp))
    | cons x r =>
      rw [List.cons_append, List.cons.injEq] at h
      have := ih (n + 1) (fun y hy => hq y (by simp [hy])) h.2
      rw [List.length_cons, Nat.add_comm r.length, ← Nat.add_assoc]
      exact this

theorem flush1Queue_eq (icrc : Crc) (random : Nat → UInt32) (q : List DmsgMsg) (ioq : TxIoq) (h : ioq.error = none) :
    flush1Queue icrc random q ioq =
      { ioq with seq := ioq.seq + q.length
                 msgq := ioq.msgq ++ populateAll icrc random ioq.seq q } := by
  induction q generalizing ioq with
  | nil => simp [flush1Queue, populateAll]
  | cons m q ih =>
    rw [flush1Queue, if_neg (not_not.mpr h), ih]
    · simp only [populateAll, List.append_assoc, List.cons_append, List.nil_append,
        List.length_cons, Nat.add_assoc, Nat.add_comm 1]
    · exact h

/-- What the sender holds grows by the completed messages. -/
theorem flush1Queue_spec (random : Nat → UInt32) {q : List DmsgMsg} {ioq : TxIoq} (h : TxOk ioq)
    (hq : ∀ m ∈ q, Sendable icrc m) :
    TxOk (flush1Queue icrc random q ioq) ∧
      (flush1Queue icrc random q ioq).unsent =
        ioq.unsent ++ queueImage (populateAll icrc random ioq.seq q) := by
  rw [flush1Queue_eq icrc random q ioq h.noErr]
  have hsz : ∀ p ∈ populateAll icrc random ioq.seq q, Sized p := by
    intro p hp
    obtain ⟨r, s, hrs⟩ := List.append_of_mem hp
    exact (populateAll_wired _ q hq hrs).toSized
  obtain ⟨hb, ab, er, sq, msgq⟩ := ioq
  cases msgq with
  | nil =>
    obtain ⟨rfl, rfl⟩ : hb = 0 ∧ ab = 0 := h.offsets
    refine ⟨⟨h.noErr, by simpa using hsz, OffsetsOk.zero _⟩, ?_⟩
    simp [TxIoq.unsent]
  | cons m ms =>
    have hoff := h.offsets
    refine ⟨⟨h.noErr, ?_, hoff⟩, ?_⟩
    · intro x hx
      rcases List.mem_append.mp hx with hx | hx
      · exact h.sized x hx
      · exact hsz x hx
    · have hlen : hb + ab ≤ (queueImage (m :: ms)).length := by
        have hl := (h.sized m (by simp)).length_wireImage
        have h1 : hb ≤ m.hbytes := hoff.1
        have h2 : ab ≤ m.abytes := hoff.2.1
        rw [queueImage_cons, List.length_append]
        omega
      rw [TxIoq.unsent, TxIoq.unsent]
      dsimp only
      rw [queueImage_append, List.drop_append_of_le_length hlen]

/-- The receiver's state does not depend on how the next reads behave. -/
theorem Rest.script {T : List UInt8} {io : RxIo} (h : Rest icrc T io) (S : List ReadChoice) :
    Rest icrc T { io with script := S } := by
  cases h with
  | header1 st plain ok noErr msg stream => exact Rest.header1 st plain ok noErr msg stream
  | header2 st plain i =>
    exact Rest.header2 st plain ⟨i.ok, i.noErr, i.stream, i.core, i.seen, i.msg, i.room⟩
  | auxdata2 st plain raw d i msg part empty =>
    exact Rest.auxdata2 st plain raw d ⟨i.ok, i.noErr, i.stream, i.rawLen, i.seen, i.crc, i.aux⟩
      msg part empty

theorem HeadSeen.extend {T : List UInt8} {ioq : DmsgIoq} (h : HeadSeen T ioq)
    (hT : dmsgHdrSize ≤ T.length) (bs : List UInt8) : HeadSeen (T ++ bs) ioq := by
  obtain ⟨h1, h2, h3, h4, h5⟩ := h
  rw [← DmsgHdr.ofBytes_append T bs hT] at h1 h2 h3 h4 h5
  exact ⟨h1, h2, h3, h4, h5⟩

/-- More bytes arrive in the socket. -/
theorem Rest.extend {T : List UInt8} {io : RxIo} (h : Rest icrc T io) (bs : List UInt8) :
    Rest icrc (T ++ bs) { io with wire := io.wire ++ bs } := by
  cases h with
  | header1 st plain ok noErr msg stream =>
    refine Rest.header1 st plain ok noErr msg ?_
    rw [stream, List.append_assoc]
  | header2 st plain i =>
    have hT : dmsgHdrSize ≤ T.length := by
      have := i.core
      rw [i.stream, List.length_append]; omega
    refine Rest.header2 st plain ⟨i.ok, i.noErr, ?_, i.core, i.seen.extend hT bs, ?_, i.room⟩
    · rw [i.stream, List.append_assoc]
    · rw [DmsgHdr.ofBytes_append T bs hT]; exact i.msg
  | auxdata2 st plain raw d i msg part empty =>
    have hT : dmsgHdrSize ≤ T.length := by
      have h1 := i.seen.fields.1
      have h2 := i.seen.hbytes
      have h3 := i.rawLen
      rw [i.stream, List.length_append]; omega
    refine Rest.auxdata2 st plain raw d ⟨i.ok, i.noErr, ?_, i.rawLen, i.seen.extend hT bs, ?_,
      i.aux⟩ msg part empty
    · rw [i.stream]
      simp only [List.append_assoc]
    · rw [DmsgHdr.ofBytes_append T bs hT]; exact i.crc

end

/-- Of the queued messages `done` were completed by `flush1`, the rest is in `txmsgq`. The
    completed ones are those received and those in `flight`. The bytes of the latter are what
    the receiver has absorbed and what is in the socket (`T`), then what the sender holds. -/
structure LinkInv (icrc : Crc) (random : Nat → UInt32) (l : Link)
    (done flight : List DmsgMsg) (T : List UInt8) : Prop where
  sendable : ∀ m ∈ l.queued, Sendable icrc m
  queued : l.queued = done ++ l.txmsgq
  split : populateAll icrc random 0 done = l.received ++ flight
  txOk : TxOk l.tx
  txSeq : l.tx.seq = done.length
  rxSeq : l.rx.seq = l.received.length
  rest : Rest icrc T ⟨l.rx, l.wire, []⟩
  stream : T ++ l.tx.unsent = queueImage flight

section

variable {icrc : Crc} {random : Nat → UInt32} {l : Link}
  {done flight : List DmsgMsg} {T : List UInt8}

theorem linkInit_inv (icrc : Crc) (random : Nat → UInt32) :
    LinkInv icrc random linkInit [] [] [] := by
  have hok : FifoOk dmsgIoqInit := ⟨by simp [dmsgIoqInit], Nat.le_refl _, Nat.zero_le _⟩
  refine ⟨by simp [linkInit], rfl, rfl, ⟨rfl, by simp [linkInit, txIoqInit], rfl, rfl⟩, rfl, rfl, ?_, rfl⟩
  refine Rest.header1 rfl ⟨rfl, rfl⟩ hok rfl rfl ?_
  simp [DmsgIoq.fifo, linkInit, dmsgIoqInit]

section

variable (h : LinkInv icrc random l done flight T)
include h

theorem linkStep_enqueue {m : DmsgMsg} (hm : Sendable icrc m) :
    LinkInv icrc random { l with queued := l.queued ++ [m], txmsgq := l.txmsgq ++ [m] }
      done flight T where
  sendable := by
    intro x hx
    rcases List.mem_append.mp hx with hx | hx
    · exact h.sendable x hx
    · rw [List.mem_singleton.mp hx]; exact hm
  queued := by
    change l.queued ++ [m] = done ++ (l.txmsgq ++ [m])
    rw [h.queued, List.append_assoc]
  split := h.split
  txOk := h.txOk
  txSeq := h.txSeq
  rxSeq := h.rxSeq
  rest := h.rest
  stream := h.stream

/-- A flush completes the messages of `txmsgq` and moves a prefix of what the sender holds to
    the socket. -/
theorem linkStep_flush {w : WriteChoice} (hw : w ≠ .fail) :
    ∃ tx sent, linkStep icrc random l (.flush w) =
        .ok { l with txmsgq := [], tx := tx, wire := l.wire ++ sent } ∧
      LinkInv icrc random { l with txmsgq := [], tx := tx, wire := l.wire ++ sent } l.queued
        (flight ++ populateAll icrc random done.length l.txmsgq) (T ++ sent) ∧
      sent ++ tx.unsent = l.tx.unsent ++ queueImage (populateAll icrc random done.length l.txmsgq) ∧
      (∀ k, w = .bytes (k + 1) → sent ++ tx.unsent ≠ [] → sent ≠ []) := by
  have hs : ∀ m ∈ l.txmsgq, Sendable icrc m := fun m hm =>
    h.sendable m (h.queued ▸ List.mem_append_right _ hm)
  obtain ⟨hok1, hun1⟩ := flush1Queue_spec random h.txOk hs
  have heq := flush1Queue_eq icrc random l.txmsgq l.tx h.txOk.noErr
  obtain ⟨tx, sent, hfl, hok, hcat, hseq, -, hprog⟩ := flush2_spec hok1 hw
  rw [hun1, h.txSeq] at hcat
  refine ⟨tx, sent, ?_, ?_, hcat, ?_⟩
  · rw [linkStep, hfl]
  · refine ⟨h.sendable, by rw [List.append_nil], ?_, hok, ?_, h.rxSeq, ?_, ?_⟩
    · rw [h.queued, populateAll_append, h.split, List.append_assoc, Nat.zero_add]
    · rw [hseq, heq, h.queued, List.length_append, ← h.txSeq]
    · exact h.rest.extend sent
    · rw [List.append_assoc, hcat, ← List.append_assoc, h.stream, queueImage_append]
  · intro k hk hne
    rw [hcat, ← h.txSeq, ← hun1] at hne
    exact hprog k hk hne

theorem LinkInv.flight_wired {p : DmsgMsg} {flight' : List DmsgMsg} (hf : flight = p :: flight') :
    Wired icrc l.rx.seq p := by
  have := populateAll_wired 0 done (fun m hm => h.sendable m (h.queued ▸ List.mem_append_left _ hm))
    (hf ▸ h.split)
  rwa [Nat.zero_add, ← h.rxSeq] at this

/-- On this link `frame` says at most that the next message in flight is complete. -/
theorem LinkInv.frame_eq :
    frame icrc T = .more ∨
      ∃ p flight', flight = p :: flight' ∧ frame icrc T = .msg p p.wireImage.length ∧
        p.wireImage.length ≤ T.length := by
  cases hf : flight with
  | nil =>
    have hs := h.stream
    rw [hf, queueImage_nil, List.append_eq_nil_iff] at hs
    rw [hs.1]
    exact Or.inl (frame_short (by decide))
  | cons p flight' =>
    have hpre : T <+: p.wireImage ++ queueImage flight' := ⟨_, by rw [h.stream, hf, queueImage_cons]⟩
    rw [frame_wired (h.flight_wired hf) hpre]
    split
    · exact Or.inl rfl
    · exact Or.inr ⟨p, flight', rfl, rfl, by omega⟩

/-- A read extracts the next message in flight, or nothing. -/
theorem linkStep_read {S : List ReadChoice} (hS : .eof ∉ S ∧ .fail ∉ S) :
    (∃ rx wire, linkStep icrc random l (.read S) = .ok { l with rx := rx, wire := wire } ∧
      LinkInv icrc random { l with rx := rx, wire := wire } done flight T ∧
      wire.length ≤ l.wire.length ∧ (wire = [] → frame icrc T = .more) ∧
      (Productive S → 0 < l.wire.length → wire.length < l.wire.length)) ∨
    ∃ rx wire p flight', flight = p :: flight' ∧
      linkStep icrc random l (.read S) =
        .ok { l with rx := rx, wire := wire, received := l.received ++ [p] } ∧
      LinkInv icrc random { l with rx := rx, wire := wire, received := l.received ++ [p] } done
        flight' (T.drop p.wireImage.length) ∧
      wire.length ≤ l.wire.length := by
  have hpass := ioqReadPass_spec (h.rest.script S)
  have hfr := h.frame_eq
  rw [linkStep]
  dsimp only at hpass
  generalize ioqReadPass icrc plainDecrypt ⟨l.rx, l.wire, S⟩ = r at hpass
  cases hpass with
  | blocked rest short fed seq le =>
    refine Or.inl ⟨_, _, rfl, ?_, le, short, fed⟩
    exact ⟨h.sendable, h.queued, h.split, h.txOk, h.txSeq, seq.trans h.rxSeq, rest.script [],
      h.stream⟩
  | message framed salt rest st seq le =>
    rcases hfr with hmore | ⟨p, flight', hf, hmsg, hlen⟩
    · rw [hmore] at framed; cases framed
    · rw [hmsg] at framed
      injection framed with hm hn
      subst hm hn
      refine Or.inr ⟨_, _, p, flight', hf, rfl, ?_, le⟩
      refine ⟨h.sendable, h.queued, ?_, h.txOk, h.txSeq, ?_, rest.script [], ?_⟩
      · rw [h.split, hf, List.append_assoc]; rfl
      · rw [List.length_append, ← h.rxSeq]; exact seq
      · have hs := congrArg (List.drop p.wireImage.length) h.stream
        rw [hf, queueImage_cons, List.drop_left, List.drop_append_of_le_length hlen] at hs
        exact hs
  | failed st err msg cause =>
    exfalso
    rcases cause with hfe | hsock | ⟨-, m, n, hfm, hsalt⟩
    · rcases hfr with hmore | ⟨p, flight', -, hmsg, -⟩
      · rw [hmore] at hfe; cases hfe
      · rw [hmsg] at hfe; cases hfe
    · rcases hsock with ⟨-, hm⟩ | ⟨-, hm⟩
      · exact hS.1 hm
      · exact hS.2 hm
    · rcases hfr with hmore | ⟨p, flight', hf, hmsg, -⟩
      · rw [hmore] at hfm; cases hfm
      · rw [hmsg] at hfm
        cases hfm
        exact hsalt (h.flight_wired hf).salt
  | crash framed =>
    exfalso
    rcases hfr with hmore | ⟨p, flight', -, hmsg, -⟩
    · rw [hmore] at framed; cases framed
    · rw [hmsg] at framed; cases framed

/-- One step of the schedule: it succeeds and the books stay balanced. -/
theorem linkStep_inv {a : LinkAction} (ha : Honest icrc a) :
    ∃ l' done' flight' T', linkStep icrc random l a = .ok l' ∧
      LinkInv icrc random l' done' flight' T' ∧ l'.queued = l.queued ++ enqueued [a] := by
  cases a with
  | enqueue m => exact ⟨_, _, _, _, rfl, linkStep_enqueue h ha, rfl⟩
  | flush w =>
    obtain ⟨tx, sent, heq, hinv, -⟩ := linkStep_flush h ha
    exact ⟨_, _, _, _, heq, hinv, (List.append_nil _).symm⟩
  | read S =>
    rcases linkStep_read h ha with ⟨rx, wire, heq, hinv, -⟩ | ⟨rx, wire, p, fl, -, heq, hinv, -⟩
    · exact ⟨_, _, _, _, heq, hinv, (List.append_nil _).symm⟩
    · exact ⟨_, _, _, _, heq, hinv, (List.append_nil _).symm⟩

end

theorem linkRun_inv (as : List LinkAction) (has : ∀ a ∈ as, Honest icrc a)
    (h : LinkInv icrc random l done flight T) :
    ∃ l' done' flight' T', run (linkStep icrc random) l as = .ok l' ∧
      LinkInv icrc random l' done' flight' T' ∧ l'.queued = l.queued ++ enqueued as := by
  induction as generalizing l done flight T with
  | nil => exact ⟨l, done, flight, T, rfl, h, (List.append_nil _).symm⟩
  | cons a as ih =>
    obtain ⟨l1, d1, f1, T1, hstep, h1, hq1⟩ := linkStep_inv h (has a (by simp))
    obtain ⟨l2, d2, f2, T2, hrun, h2, hq2⟩ := ih (fun x hx => has x (by simp [hx])) h1
    refine ⟨l2, d2, f2, T2, (run_cons_ok hstep as).trans hrun, h2, ?_⟩
    rw [hq2, hq1, List.append_assoc, enqueued, enqueued, ← List.filterMap_append]
    rfl

/-! ## What the two ends agree on -/

/-- A queued message with what `flush1` announces in its header. -/
def announced (m : DmsgMsg) : DmsgMsg :=
  { m with head := { m.head with magic := dmsgHdrMagic, auxBytes := UInt32.ofNat m.auxSize } }

/-- A message up to salt and CRCs. -/
def DmsgMsg.content (m : DmsgMsg) : DmsgMsg :=
  { m with head := { m.head with salt := 0, auxCrc := 0, hdrCrc := 0 } }

theorem content_populate (n : Nat) (m : DmsgMsg) :
    (populate icrc random n m).content = (announced m).content := by
  unfold populate DmsgMsg.content announced
  dsimp only
  split <;> rfl

theorem map_content_populateAll (n : Nat) (q : List DmsgMsg) :
    (populateAll icrc random n q).map DmsgMsg.content = q.map (fun m => (announced m).content) := by
  induction q generalizing n with
  | nil => rfl
  | cons m q ih => rw [populateAll, List.map_cons, content_populate, ih, List.map_cons]

section

variable (h : LinkInv icrc random l done flight T)
include h

theorem LinkInv.length_done : done.length = l.received.length + flight.length := by
  rw [← length_populateAll icrc random 0 done, h.split, List.length_append]

theorem LinkInv.length_received : l.received.length ≤ done.length := by
  rw [h.length_done]
  exact Nat.le_add_right _ _

theorem LinkInv.length_queued : l.queued.length = done.length + l.txmsgq.length := by
  rw [h.queued, List.length_append]

/-- The received messages are the first ones queued. -/
theorem LinkInv.received_eq :
    l.received.map DmsgMsg.content =
      (l.queued.map fun m => (announced m).content).take l.received.length := by
  have hm := congrArg (List.map DmsgMsg.content) h.split
  have hle := h.length_received
  have hlen : (l.received.map DmsgMsg.content).length = l.received.length := List.length_map _
  rw [map_content_populateAll, List.map_append] at hm
  rw [h.queued, List.map_append, List.take_append_of_le_length (by rwa [List.length_map]), hm,
    ← hlen, List.take_left]

end

/-! ## Everything queued arrives -/

theorem length_queueImage_populateAll (n : Nat) (q : List DmsgMsg)
    (hq : ∀ m ∈ q, Sendable icrc m) :
    (queueImage (populateAll icrc random n q)).length = (queueImage q).length := by
  induction q generalizing n with
  | nil => rfl
  | cons m q ih =>
    have hm := hq m (by simp)
    have hp := populate_wired random n hm
    have hsame : (populate icrc random n m).hbytes + (populate icrc random n m).abytes =
        m.hbytes + m.abytes := by
      have h1 := hp.head
      have h2 := hm.head
      have h3 := hp.aux
      have h4 := hm.aux
      have h5 : (populate icrc random n m).ext = m.ext := rfl
      have h6 : (populate icrc random n m).auxData = m.auxData := rfl
      rw [h5] at h1
      rw [h6] at h3
      omega
    rw [populateAll, queueImage_cons, queueImage_cons, List.length_append, List.length_append,
      ih (n + 1) (fun x hx => hq x (by simp [hx])), hp.length_wireImage, hm.length_wireImage, hsame]

/-- A bound on the rounds that are still needed: every byte the sender holds goes through the
    socket, every byte in the socket and every message has to be read. -/
def Link.pending (l : Link) : Nat :=
  2 * (l.tx.unsent.length + (queueImage l.txmsgq).length) + l.wire.length +
    (l.queued.length - l.received.length)

/-- A write that takes at least one byte, if there is one, then a read. -/
def roundActions (r : Nat × List ReadChoice) : List LinkAction :=
  [.flush (.bytes (r.1 + 1)), .read r.2]

/-- A read of such a round gets at least one byte, if there is one. -/
def GoodRead (S : List ReadChoice) : Prop := Productive S ∧ .eof ∉ S ∧ .fail ∉ S

/-- Once the sender holds nothing, a productive read delivers or empties the socket a bit. -/
theorem linkStep_read_progress (h : LinkInv icrc random l done flight T) {S : List ReadChoice}
    (hS : GoodRead S) :
    ∃ l' flight' T', linkStep icrc random l (.read S) = .ok l' ∧
      LinkInv icrc random l' done flight' T' ∧ l'.queued = l.queued ∧ l'.pending ≤ l.pending ∧
      l.received.length ≤ l'.received.length ∧
      (l.txmsgq = [] → l.tx.unsent = [] → l.received.length ≠ l.queued.length →
        l'.pending < l.pending) := by
  have hlq := h.length_queued
  have hld := h.length_done
  rcases linkStep_read h hS.2 with ⟨rx, wire, heq, hinv, hle, hshort, hfed⟩ |
    ⟨rx, wire, p, flight', hf, heq, hinv, hle⟩
  · refine ⟨_, flight, T, heq, hinv, rfl, ?_, Nat.le_refl _, ?_⟩
    · unfold Link.pending
      dsimp only
      omega
    · intro htx hun hne
      have hwire : wire ≠ [] := by
        intro hw
        -- all bytes in flight are absorbed, so the next message is complete
        cases hfl : flight with
        | nil =>
          rw [htx, List.length_nil] at hlq
          rw [hfl, List.length_nil] at hld
          omega
        | cons p fl =>
          have hst := h.stream
          rw [hun, List.append_nil] at hst
          have hpre : T <+: p.wireImage ++ queueImage fl :=
            ⟨[], by rw [hst, hfl, queueImage_cons, List.append_nil]⟩
          have hfw := frame_wired (h.flight_wired hfl) hpre
          have hlen : ¬ T.length < p.wireImage.length := by
            rw [hst, hfl, queueImage_cons, List.length_append]
            omega
          rw [if_neg hlen, hshort hw] at hfw
          cases hfw
      have hpos : 0 < wire.length := List.length_pos_iff.mpr hwire
      have hlt := hfed hS.1 (by omega)
      unfold Link.pending
      dsimp only
      omega
  · rw [hf, List.length_cons] at hld
    have hdec : ({ l with rx := rx, wire := wire, received := l.received ++ [p] } : Link).pending <
        l.pending := by
      unfold Link.pending
      dsimp only
      rw [List.length_append, List.length_singleton]
      omega
    refine ⟨_, flight', _, heq, hinv, rfl, Nat.le_of_lt hdec, ?_, fun _ _ _ => hdec⟩
    dsimp only
    rw [List.length_append]
    omega

/-- A round brings the link closer to having delivered everything. -/
theorem round_progress (h : LinkInv icrc random l done flight T) {r : Nat × List ReadChoice}
    (hr : GoodRead r.2) :
    ∃ l' done' flight' T', run (linkStep icrc random) l (roundActions r) = .ok l' ∧
      LinkInv icrc random l' done' flight' T' ∧ l'.queued = l.queued ∧
      l.received.length ≤ l'.received.length ∧
      (l.received.length ≠ l.queued.length → l'.pending < l.pending) := by
  obtain ⟨tx, sent, heq, hinv, hcat, hprog⟩ :=
    linkStep_flush h (w := .bytes (r.1 + 1)) (by intro hc; cases hc)
  obtain ⟨l2, fl2, T2, heq2, hinv2, hq2, hle2, hmono, hdec⟩ := linkStep_read_progress hinv hr
  refine ⟨l2, _, fl2, T2, ?_, hinv2, hq2, hmono, fun hne => ?_⟩
  · rw [roundActions, run_cons_ok heq, run_cons_ok heq2, run_nil]
  · have htot := congrArg List.length hcat
    rw [List.length_append, List.length_append, length_queueImage_populateAll _ _ (fun m hm =>
      h.sendable m (h.queued ▸ List.mem_append_right _ hm))] at htot
    have hp1 : ({ l with txmsgq := [], tx := tx, wire := l.wire ++ sent } : Link).pending +
        sent.length = l.pending := by
      unfold Link.pending
      dsimp only
      rw [queueImage_nil, List.length_nil, List.length_append]
      omega
    by_cases hu : sent ++ tx.unsent = []
    · have := hdec rfl (List.append_eq_nil_iff.mp hu).2 hne
      omega
    · have := List.length_pos_iff.mpr (hprog r.1 rfl hu)
      omega

theorem rounds_deliver (rs : List (Nat × List ReadChoice)) (hrs : ∀ r ∈ rs, GoodRead r.2)
    (h : LinkInv icrc random l done flight T)
    (hn : l.received.length = l.queued.length ∨ l.pending ≤ rs.length) :
    ∃ l' done' flight' T', run (linkStep icrc random) l (rs.flatMap roundActions) = .ok l' ∧
      LinkInv icrc random l' done' flight' T' ∧ l'.queued = l.queued ∧
      l'.received.length = l.queued.length := by
  induction rs generalizing l done flight T with
  | nil =>
    refine ⟨l, done, flight, T, rfl, h, rfl, ?_⟩
    have h1 := h.length_queued
    have h2 := h.length_received
    rcases hn with hd | hp
    · exact hd
    · unfold Link.pending at hp
      rw [List.length_nil] at hp
      omega
  | cons r rs ih =>
    obtain ⟨l1, d1, f1, T1, heq, h1, hq1, hmono, hdec⟩ := round_progress h (hrs r (by simp))
    have hnext : l1.received.length = l1.queued.length ∨ l1.pending ≤ rs.length := by
      have ha := h1.length_queued
      have hb := h1.length_received
      rw [hq1] at ha ⊢
      by_cases hd : l.received.length = l.queued.length
      · left; omega
      · right
        have := hdec hd
        rw [List.length_cons] at hn
        omega
    obtain ⟨l2, d2, f2, T2, hrun, h2, hq2, hall⟩ := ih (fun x hx => hrs x (by simp [hx])) h1 hnext
    refine ⟨l2, d2, f2, T2, ?_, h2, hq2.trans hq1, hall.trans (by rw [hq1])⟩
    rw [List.flatMap_cons, run_append heq, hrun]

/-- Every schedule runs without a failed assertion and without an error. What the receiver has
    extracted is an initial part of what was queued, in order and unchanged, and its sequence
    number counts it. Any `l.pending` further rounds that take and return at least one byte
    where there is one, whatever else they do, deliver everything. -/
theorem link_faithful (icrc : Crc) (random : Nat → UInt32) (as : List LinkAction)
    (has : ∀ a ∈ as, Honest icrc a) :
    ∃ l, run (linkStep icrc random) linkInit as = .ok l ∧
      l.tx.error = none ∧ l.rx.error = none ∧
      l.received.map DmsgMsg.content =
        ((enqueued as).map fun m => (announced m).content).take l.received.length ∧
      l.rx.seq = l.received.length ∧ l.tx.seq + l.txmsgq.length = (enqueued as).length ∧
      ∀ rs : List (Nat × List ReadChoice), (∀ r ∈ rs, GoodRead r.2) → l.pending ≤ rs.length →
        ∃ l', run (linkStep icrc random) l (rs.flatMap roundActions) = .ok l' ∧
          l'.tx.error = none ∧ l'.rx.error = none ∧
          l'.received.map DmsgMsg.content = (enqueued as).map (fun m => (announced m).content) ∧
          l'.rx.seq = l'.tx.seq := by
  obtain ⟨l, done, flight, T, hrun, h, hq⟩ :=
    linkRun_inv as has (linkInit_inv icrc random)
  have hq' : l.queued = enqueued as := hq
  refine ⟨l, hrun, h.txOk.noErr, h.rest.error_none, hq' ▸ h.received_eq, h.rxSeq, ?_, ?_⟩
  · rw [h.txSeq, ← hq', h.length_queued]
  · intro rs hrs hn
    obtain ⟨l', done', flight', T', hrun', h', hq2, hall⟩ := rounds_deliver rs hrs h (Or.inr hn)
    refine ⟨l', hrun', h'.txOk.noErr, h'.rest.error_none, ?_, ?_⟩
    · rw [h'.received_eq, hall, hq2, hq', List.take_of_length_le (by rw [List.length_map])]
    · have h1 := h'.length_queued
      have h2 := h'.length_received
      rw [hq2] at h1
      rw [h'.rxSeq, h'.txSeq]
      omega

/-- A message of one 64 byte header and three bytes of payload. -/
def pingMsg : DmsgMsg where
  head := { DmsgHdr.ofBytes [] with magic := dmsgHdrMagic, cmd := 1, msgid := 7 }
  ext := []
  auxSize := 3
  auxData := List.replicate 64 0x2a

/-- Queue `pingMsg` twice, with a write that stops inside the first header. -/
def pingSchedule : List LinkAction :=
  [.enqueue pingMsg, .flush (.bytes 40), .read [.bytes 30, .again], .enqueue pingMsg, .flush .again]

theorem link_faithful_ping :
    (∀ a ∈ pingSchedule, Honest (fun _ => 0) a) ∧
      ∃ l, run (linkStep (fun _ => 0) (fun _ => 1)) linkInit pingSchedule = .ok l ∧
        l.rx.error = none ∧ l.rx.seq = l.received.length ∧ l.tx.seq + l.txmsgq.length = 2 := by
  have hping : Sendable (fun _ => 0) pingMsg :=
    ⟨⟨by decide, by decide⟩, by decide, by decide, fun _ => Or.inl rfl⟩
  have has : ∀ a ∈ pingSchedule, Honest (fun _ => 0) a := by
    intro a ha
    simp only [pingSchedule, List.mem_cons, List.not_mem_nil, or_false] at ha
    rcases ha with rfl | rfl | rfl | rfl | rfl
    · exact hping
    · exact fun h => by cases h
    · exact ⟨by decide, by decide⟩
    · exact hping
    · exact fun h => by cases h
  obtain ⟨l, hrun, -, hrx, -, hseq, htx, -⟩ := link_faithful (fun _ => 0) (fun _ => 1) pingSchedule has
  exact ⟨has, l, hrun, hrx, hseq, htx⟩

end

end Lh1.Dmsg
