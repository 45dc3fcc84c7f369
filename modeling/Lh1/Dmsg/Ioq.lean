/-
  The receive half of a dmsg link (lib/libdmsg/msg.c): `dmsg_ioq_makeroom` and the framing
  part of `dmsg_ioq_read`, up to the call of `dmsg_state_msgrx`.

  `ioqReadPass` is one pass of `dmsg_ioq_read`: the switch on the ioq state with its fall
  throughs (`ioqHeader1`, `ioqHeader2`, `ioqAuxdata1`, `ioqAuxdata2`), the sequence check and
  the three exits. The exits are `PassResult.message` (the message goes to
  `dmsg_state_msgrx`), `PassResult.blocked` (NULL, wait for a read event) and
  `PassResult.failed` (the ioq is errored out). A failed assertion is an `IoqAssert`.

  The socket is a byte stream and a script of how each `read` behaves (`ReadChoice`): short
  reads, EAGAIN, end of file and errors all occur. Each pass consumes as much of the script
  as it issues reads. Decryption is a parameter; `plainDecrypt` is the unencrypted link.
-/
import Lh1.Dmsg.Header

namespace Lh1.Dmsg

open Lh1.Lib

/-! ## Messages and queues -/

/-- The part of `struct dmsg_msg` that framing sees. `ext` is what follows the core header in
    `any`. `auxData` is the part of the aux buffer written so far, from its start. -/
structure DmsgMsg where
  head : DmsgHdr
  ext : List UInt8
  auxSize : Nat
  auxData : List UInt8
  deriving DecidableEq, Repr

/-- `DMSG_IOQ_ERROR_*`, those that msg.c, the handshake and the chunk ciphers of crypto.c
    raise. -/
inductive IoqError where
  | sync
  | eof
  | sock
  | field
  | xcrc
  | acrc
  | keyxchgfail
  | keyfmt
  | badurandom
  | msgseq
  | ealready
  | trans
  | ivwrap
  | macfail
  | algo
  deriving DecidableEq, Repr

inductive IoqState where
  | header1
  | header2
  | auxdata1
  | auxdata2
  | error
  deriving DecidableEq, Repr

/-- `struct dmsg_ioq` as the receiver uses it. `chunks` counts the chunks handed to the cipher
    so far and stands for its running state, `ctx` and `iv`. -/
structure DmsgIoq where
  state : IoqState
  fifoBeg : Nat
  fifoCdx : Nat
  fifoCdn : Nat
  fifoEnd : Nat
  hbytes : Nat
  abytes : Nat
  unalignedAuxSize : Nat
  error : Option IoqError
  seq : Nat
  msg : Option DmsgMsg
  buf : List UInt8
  chunks : Nat

/-- `dmsg_ioq_init`. -/
def dmsgIoqInit : DmsgIoq where
  state := .header1
  fifoBeg := 0
  fifoCdx := 0
  fifoCdn := 0
  fifoEnd := 0
  hbytes := 0
  abytes := 0
  unalignedAuxSize := 0
  error := none
  seq := 0
  msg := none
  buf := List.replicate dmsgBufSize 0
  chunks := 0

/-- The assertions in the body of `dmsg_ioq_read`. -/
inductive IoqAssert where
  | msgNull       -- HEADER1 and ERROR: assert(msg == NULL)
  | msgNonNull    -- HEADER2 and AUXDATA2: assert(msg != NULL)
  | nmaxPos       -- assert(nmax > 0)
  | bytesZero     -- assert(bytes == 0)
  | fifoOrder     -- assert(fifo_beg <= fifo_cdx), assert(fifo_cdx <= fifo_cdn)
  | auxSize       -- assert(msg->aux_size == ioq->abytes)
  | badXcrc       -- assert(0) after BAD-XCRC
  | errorMsg      -- assert(ioq->msg == msg) on the error exit
  deriving DecidableEq, Repr

/-! ## The socket -/

/-- What one `read` on the socket does. -/
inductive ReadChoice where
  | bytes (k : Nat)   -- return at most `k` of the bytes that are there
  | again             -- EINTR, EINPROGRESS or EAGAIN
  | eof
  | fail              -- any other errno
  deriving DecidableEq, Repr

/-- The receiver together with the bytes that still sit in the socket. -/
structure RxIo where
  ioq : DmsgIoq
  wire : List UInt8
  script : List ReadChoice

inductive ReadRes where
  | got (bs : List UInt8)
  | again
  | fail

/-- `read(iocom->sock_fd, ..., nmax)`. A zero-length read returns 0; with nothing to return
    the non-blocking socket says EAGAIN. -/
def sockRead (nmax : Nat) (io : RxIo) : ReadRes × RxIo :=
  match io.script with
  | [] => if nmax = 0 then (.got [], io) else (.again, io)
  | c :: cs =>
    let io := { io with script := cs }
    if nmax = 0 then (.got [], io) else
    match c with
    | .bytes k =>
      let n := min k (min nmax io.wire.length)
      if n = 0 then (.again, io)
      else (.got (io.wire.take n), { io with wire := io.wire.drop n })
    | .again => (.again, io)
    | .eof => (.got [], io)
    | .fail => (.fail, io)

/-- The read block shared by the three reading states: append to the FIFO or set the error. -/
def ioqFill (nmax : Nat) (io : RxIo) : RxIo :=
  match sockRead nmax io with
  | (.got [], io) => { io with ioq := { io.ioq with error := some .eof } }
  | (.got (b :: bs), io) =>
    { io with ioq := { io.ioq with
        buf := blit io.ioq.buf io.ioq.fifoEnd (b :: bs)
        fifoEnd := io.ioq.fifoEnd + (b :: bs).length } }
  | (.again, io) => io
  | (.fail, io) => { io with ioq := { io.ioq with error := some .sock } }

/-! ## `dmsg_ioq_makeroom` -/

/-- Returns the ioq, compacted if `needed` bytes might not fit, and the room behind
    `fifo_end`. -/
def dmsgIoqMakeroom (ioq : DmsgIoq) (needed : Nat) : DmsgIoq × Nat :=
  let bytes := ioq.fifoCdx - ioq.fifoBeg
  let nmax := dmsgBufSize - ioq.fifoEnd
  if bytes + nmax / 2 < needed then
    let buf := if bytes ≠ 0 then blit ioq.buf 0 (slice ioq.buf ioq.fifoBeg (ioq.fifoBeg + bytes))
      else ioq.buf
    let cdx := ioq.fifoCdx - ioq.fifoBeg
    let buf := if ioq.fifoCdn < ioq.fifoEnd then blit buf cdx (slice buf ioq.fifoCdn ioq.fifoEnd)
      else buf
    let fend := ioq.fifoEnd - (ioq.fifoCdn - cdx)
    ({ ioq with buf := buf, fifoBeg := 0, fifoCdx := cdx, fifoCdn := cdx, fifoEnd := fend },
      dmsgBufSize - fend)
  else (ioq, nmax)

/-- Without encryption everything received counts as decrypted. -/
def plainDecrypt (ioq : DmsgIoq) : DmsgIoq :=
  { ioq with fifoCdx := ioq.fifoEnd, fifoCdn := ioq.fifoEnd }

/-! ## The header a message starts with -/

/-- `head` in the byte order of this machine. -/
def nativeHead (head : DmsgHdr) : DmsgHdr :=
  if head.magic = dmsgHdrMagicRev then dmsgBswapHead head else head

/-- `ioq->hbytes` as HEADER1 computes it. -/
def headHbytes (head : DmsgHdr) : Nat :=
  if head.magic = dmsgHdrMagicRev then hbytesOf (bswap32 head.cmd) else hbytesOf head.cmd

/-- `aux_size` as HEADER1 computes it. -/
def headAuxSize (head : DmsgHdr) : UInt32 :=
  if head.magic = dmsgHdrMagicRev then bswap32 head.auxBytes else head.auxBytes

/-- `ioq->abytes` as HEADER1 computes it, in 32 bits. -/
def headAbytes (head : DmsgHdr) : Nat := (doalign32 (headAuxSize head)).toNat

/-- `xcrc32` as HEADER2 reads it. -/
def headXcrc (head : DmsgHdr) : UInt32 :=
  if head.magic = dmsgHdrMagicRev then bswap32 head.hdrCrc else head.hdrCrc

/-- `dmsg_msg_alloc(&iocom->state0, aux_size, ...)` as HEADER1 calls it: an empty header, the
    announced aux size and a fresh aux buffer nothing was copied into. -/
def allocRxMsg (auxSize : UInt32) : DmsgMsg where
  head := DmsgHdr.ofBytes []
  ext := []
  auxSize := auxSize.toNat
  auxData := []

/-! ## The receive states -/

section

variable (icrc : Crc) (decrypt : DmsgIoq → DmsgIoq)

/-- AUXDATA2 after its read: move payload out of the FIFO; when it is complete restore the
    unaligned size and check `aux_crc` over the aligned size. -/
def ioqAuxdata2Copy (io : RxIo) (msg : DmsgMsg) : Except IoqAssert (RxIo × Bool) :=
  let ioq := decrypt io.ioq
  let bytes := min (ioq.fifoCdx - ioq.fifoBeg) (ioq.abytes - msg.auxSize)
  let msg := { msg with
    auxData := msg.auxData.take msg.auxSize ++ slice ioq.buf ioq.fifoBeg (ioq.fifoBeg + bytes)
    auxSize := msg.auxSize + bytes }
  let ioq := { ioq with fifoBeg := ioq.fifoBeg + bytes }
  if msg.auxSize < ioq.abytes then .ok ({ io with ioq := { ioq with msg := some msg } }, false)
  else if msg.auxSize ≠ ioq.abytes then .error .auxSize
  else
    let msg := { msg with auxSize := ioq.unalignedAuxSize }
    if icrc (msg.auxData.take ioq.abytes) ≠ msg.head.auxCrc then
      .ok ({ io with ioq := { ioq with msg := some msg, error := some .acrc } }, true)
    else .ok ({ io with ioq := { ioq with msg := some msg } }, true)

/-- `DMSG_MSGQ_STATE_AUXDATA2`. -/
def ioqAuxdata2 (io : RxIo) (bytes : Nat) : Except IoqAssert (RxIo × Bool) :=
  match io.ioq.msg with
  | none => .error .msgNonNull
  | some msg =>
    let (ioq, nmax) := dmsgIoqMakeroom io.ioq (io.ioq.abytes - msg.auxSize)
    let io := { io with ioq := ioq }
    if msg.auxSize < io.ioq.abytes then
      if nmax = 0 then .error .nmaxPos
      else if bytes ≠ 0 then .error .bytesZero
      else
        let io := ioqFill nmax io
        if io.ioq.error ≠ none then .ok (io, true)
        else ioqAuxdata2Copy icrc decrypt io msg
    else ioqAuxdata2Copy icrc decrypt io msg

/-- `DMSG_MSGQ_STATE_AUXDATA1`: move what the FIFO already has of the payload. -/
def ioqAuxdata1 (io : RxIo) (bytes : Nat) : Except IoqAssert (RxIo × Bool) :=
  match io.ioq.msg with
  | none => .error .msgNonNull
  | some msg =>
    let ioq := io.ioq
    if ioq.abytes ≤ bytes then
      let msg := { msg with
        auxData := slice ioq.buf ioq.fifoBeg (ioq.fifoBeg + ioq.abytes), auxSize := ioq.abytes }
      let ioq := { ioq with fifoBeg := ioq.fifoBeg + ioq.abytes, msg := some msg }
      if ioq.fifoBeg ≤ ioq.fifoCdx ∧ ioq.fifoCdx ≤ ioq.fifoCdn then
        ioqAuxdata2 icrc decrypt { io with ioq := { ioq with state := .auxdata2 } }
          (bytes - ioq.abytes)
      else .error .fifoOrder
    else if bytes ≠ 0 then
      let msg := { msg with
        auxData := slice ioq.buf ioq.fifoBeg (ioq.fifoBeg + bytes), auxSize := bytes }
      let beg := ioq.fifoBeg + bytes
      let cdx := if ioq.fifoCdx < beg then beg else ioq.fifoCdx
      let ioq := { ioq with fifoBeg := beg, fifoCdx := cdx, msg := some msg }
      if ioq.fifoBeg ≤ ioq.fifoCdx ∧ ioq.fifoCdx ≤ ioq.fifoCdn then
        ioqAuxdata2 icrc decrypt { io with ioq := { ioq with state := .auxdata2 } } 0
      else .error .fifoOrder
    else
      ioqAuxdata2 icrc decrypt
        { io with ioq := { ioq with msg := some { msg with auxSize := 0 }, state := .auxdata2 } } 0

/-- HEADER2 after its read: check the header CRC, copy the header into the message. -/
def ioqHeader2Copy (io : RxIo) (msg : DmsgMsg) : Except IoqAssert (RxIo × Bool) :=
  let ioq := decrypt io.ioq
  let bytes := ioq.fifoCdx - ioq.fifoBeg
  if bytes < ioq.hbytes then .ok ({ io with ioq := ioq }, false)
  else
    let raw := slice ioq.buf ioq.fifoBeg (ioq.fifoBeg + ioq.hbytes)
    let head := DmsgHdr.ofBytes raw
    let ext := raw.drop dmsgHdrSize
    if icrc ({ head with hdrCrc := 0 }.bytes ++ ext) ≠ headXcrc head then .error .badXcrc
    else
      -- `head->hdr_crc = xcrc32` stores the value in this machine's order before the swap
      let msg := { msg with head := nativeHead { head with hdrCrc := headXcrc head }, ext := ext }
      let ioq := { ioq with fifoBeg := ioq.fifoBeg + ioq.hbytes, msg := some msg }
      if ioq.abytes = 0 then .ok ({ io with ioq := ioq }, true)
      else ioqAuxdata1 icrc decrypt { io with ioq := { ioq with state := .auxdata1 } }
        (bytes - ioq.hbytes)

/-- `DMSG_MSGQ_STATE_HEADER2`. -/
def ioqHeader2 (io : RxIo) (bytes nmax : Nat) : Except IoqAssert (RxIo × Bool) :=
  match io.ioq.msg with
  | none => .error .msgNonNull
  | some msg =>
    if bytes < io.ioq.hbytes then
      if nmax = 0 then .error .nmaxPos
      else
        let io := ioqFill nmax io
        if io.ioq.error ≠ none then .ok (io, true)
        else ioqHeader2Copy icrc decrypt io msg
    else ioqHeader2Copy icrc decrypt io msg

/-- HEADER1 after its read: validate the core header, size and allocate the message. -/
def ioqHeader1Parse (io : RxIo) : Except IoqAssert (RxIo × Bool) :=
  let ioq := decrypt io.ioq
  let bytes := ioq.fifoCdx - ioq.fifoBeg
  if ioq.msg ≠ none then .error .msgNull
  else if bytes < dmsgHdrSize then .ok ({ io with ioq := ioq }, false)
  else
    let head := DmsgHdr.ofBytes (slice ioq.buf ioq.fifoBeg (ioq.fifoBeg + dmsgHdrSize))
    if head.magic ≠ dmsgHdrMagic ∧ head.magic ≠ dmsgHdrMagicRev then
      .ok ({ io with ioq := { ioq with error := some .sync } }, false)
    else
      let auxSize := headAuxSize head
      let ioq := { ioq with
        hbytes := headHbytes head
        abytes := headAbytes head
        unalignedAuxSize := auxSize.toNat }
      if ioq.hbytes < dmsgHdrSize ∨ ioq.hbytes > dmsgHdrMax ∨ ioq.abytes > dmsgAuxMax then
        .ok ({ io with ioq := { ioq with error := some .field } }, false)
      else
        let (ioq, nmax) := dmsgIoqMakeroom { ioq with msg := some (allocRxMsg auxSize) } ioq.hbytes
        ioqHeader2 icrc decrypt { io with ioq := { ioq with state := .header2 } } bytes nmax

/-- `DMSG_MSGQ_STATE_HEADER1`. -/
def ioqHeader1 (io : RxIo) : Except IoqAssert (RxIo × Bool) :=
  let bytes := io.ioq.fifoCdx - io.ioq.fifoBeg
  let (ioq, nmax) := dmsgIoqMakeroom io.ioq dmsgHdrSize
  let io := { io with ioq := ioq }
  if bytes < dmsgHdrSize then
    let io := ioqFill nmax io
    if io.ioq.error ≠ none then .ok (io, false)
    else ioqHeader1Parse icrc decrypt io
  else ioqHeader1Parse icrc decrypt io

/-- `switch(ioq->state)`. The flag says whether the local `msg` is non-NULL afterwards; the
    message itself is `ioq->msg`. -/
def ioqSwitch (io : RxIo) : Except IoqAssert (RxIo × Bool) :=
  let bytes := io.ioq.fifoCdx - io.ioq.fifoBeg
  match io.ioq.state with
  | .header1 => ioqHeader1 icrc decrypt io
  | .header2 => ioqHeader2 icrc decrypt io bytes (dmsgBufSize - io.ioq.fifoEnd)
  | .auxdata1 => ioqAuxdata1 icrc decrypt io bytes
  | .auxdata2 => ioqAuxdata2 icrc decrypt io bytes
  | .error => if io.ioq.msg = none then .ok (io, false) else .error .msgNull

/-! ## One pass of `dmsg_ioq_read` -/

inductive PassResult where
  | message (m : DmsgMsg)
  | blocked
  | failed (e : IoqError)
  deriving DecidableEq, Repr

/-- The error exit (`skip:`) up to where the open transactions are terminated. -/
def ioqSkip (io : RxIo) (e : IoqError) (have_ : Bool) : Except IoqAssert (RxIo × PassResult) :=
  if io.ioq.msg.isSome ≠ have_ then .error .errorMsg
  else .ok ({ io with ioq := { io.ioq with error := some e, msg := none, state := .error } },
    .failed e)

/-- Completion: the FIFO is already past the message; reset its indices if it is empty. -/
def ioqComplete (ioq : DmsgIoq) : DmsgIoq :=
  let ioq := { ioq with state := .header1, msg := none }
  if ioq.fifoBeg = ioq.fifoCdx ∧ ioq.fifoCdn = ioq.fifoEnd then
    { ioq with fifoBeg := 0, fifoCdx := 0, fifoCdn := 0, fifoEnd := 0 }
  else ioq

/-- From the sequence check to the call of `dmsg_state_msgrx`. -/
def ioqFinish (io : RxIo) (have_ : Bool) : Except IoqAssert (RxIo × PassResult) :=
  match io.ioq.error with
  | some e => ioqSkip io e have_
  | none =>
    if have_ then
      match io.ioq.msg with
      | none => .error .msgNonNull
      | some msg =>
        if (msg.head.salt &&& 255).toNat ≠ io.ioq.seq % 256 then ioqSkip io .msgseq true
        else
          let ioq := { io.ioq with seq := io.ioq.seq + 1 }
          .ok ({ io with ioq := ioqComplete ioq }, .message msg)
    else .ok (io, .blocked)

/-- One pass of `dmsg_ioq_read`, from `again:` with nothing on `ioq->msgq` to the call of
    `dmsg_state_msgrx`, to the NULL return or to the error exit. -/
def ioqReadPass (io : RxIo) : Except IoqAssert (RxIo × PassResult) :=
  match io.ioq.error with
  | some e => ioqSkip io e false
  | none =>
    match ioqSwitch icrc decrypt io with
    | .error a => .error a
    | .ok (io, have_) => ioqFinish io have_

end

end Lh1.Dmsg
