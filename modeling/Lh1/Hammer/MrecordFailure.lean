/-
  Failed reads in the mirror stream (`read_mrecords` and `read_mrecord` of cmd_mirror.c).

  Both readers are machines here whose steps are the results of read(2). The result is kept in a
  `size_t`, so the test `i <= 0` is true at the end of file and false for the result -1, and
  `n += i` moves the offset back by one. Before the first byte of a header that gives a huge offset
  and the reader stops with a short read. Everywhere else the loop goes on: the next bytes go to the
  wrong place, and a byte that was read before is overwritten.

  A record that is complete and the checks of it are those of the readers in `Mrecord`. What the
  memory holds before it is read into is taken to be zero; every byte that is used later was read.

  * `ReadCall.failed_step_iff`: what one failed read does.
  * `read_failure_stops_iff`: over whole runs of a reader.
-/
import Lh1.Lib.Run
import Lh1.Hammer.Mrecord

namespace Lh1.Hammer.Mirror

open Lib

/-! ## The readers -/

/-- A result of read(2). -/
inductive ReadResult where
  | data (b : List UInt8)
  | eof
  | failed
  deriving DecidableEq

/-- The function that reads, with what it keeps across records: `read_mrecord` nothing, and
    `read_mrecords` the room that is left in the buffer and the records that are in it. -/
inductive Fn where
  | mrecord
  | mrecords (room : Nat) (buf : List UInt8)
  deriving DecidableEq

inductive Ended where
  | record (mrec : List UInt8)
  | records (buf : List UInt8)
  | eof
  | error (e : Fault)
  deriving DecidableEq

/-- What is being read: a header, or the payload behind the header `head`. `area` is the memory it
    is read into. -/
inductive Part where
  | header
  | payload (head : Head)
  deriving DecidableEq

/-- A reader that is in read(2) at offset `n`, or one that has ended. -/
inductive ReadCall where
  | reading (fn : Fn) (part : Part) (area : List UInt8) (n : Nat)
  | ended (e : Ended)
  deriving DecidableEq

/-- `HAMMER_HEAD_DOALIGN(rec_size)`, a 32-bit number. -/
def Head.aligned (h : Head) : Nat := headAlign h.recSize % 2 ^ 32

/-- The loop of `read_mrecords` up to its first read, with an empty pickup. -/
def nextRecord (room : Nat) (buf : List UInt8) : ReadCall :=
  if room < headSize then .ended (.records buf)
  else .reading (.mrecords room buf) .header (List.replicate headSize 0) 0

/-- A record is complete. `read_mrecords` puts the header in front of it now, `read_mrecord` did
    so before it read the payload. -/
def recordDone (crc : Crc) (fn : Fn) (head : Head) (area : List UInt8) : ReadCall :=
  match fn with
  | .mrecord =>
    if (Head.ofBytes area).recCrc ≠ (crc (crcData area (Head.ofBytes area).recSize)).toNat then
      .ended (.error .badCrc)
    else .ended (.record area)
  | .mrecords room buf =>
    let mrec := head.bytes ++ area.drop headSize
    match checkRecord crc head mrec with
    | .error e => .ended (.error e)
    | .ok () => nextRecord (room - mrec.length) (buf ++ mrec)

/-- The payload, if there is one. -/
def readPayload (crc : Crc) (fn : Fn) (head : Head) (area : List UInt8) : ReadCall :=
  if headSize < area.length then .reading fn (.payload head) area headSize
  else recordDone crc fn head area

/-- What comes behind the signature check. -/
def headUse (crc : Crc) (fn : Fn) (head : Head) : ReadCall :=
  match fn with
  | .mrecord =>
    if head.aligned < headSize then .ended (.error .illegalRecSize)
    else readPayload crc fn head (head.bytes ++ List.replicate (head.aligned - headSize) 0)
  | .mrecords room buf =>
    if head.recSize < headSize ∨ maxRecSize < head.recSize then .ended (.error .illegalRecSize)
    else if room < head.aligned ∨ ¬ Carried head.type then .ended (.records buf)
    else readPayload crc fn head (List.replicate head.aligned 0)

def headDone (crc : Crc) (fn : Fn) (head : Head) : ReadCall :=
  if head.signature ≠ mirrorSignature then .ended (.error .badSignature) else headUse crc fn head

/-- The end of a loop around read(2), at offset `n`. -/
def loopDone (crc : Crc) (fn : Fn) (part : Part) (area : List UInt8) (n : Nat) :
    ReadCall :=
  match part with
  | .header =>
    if n = 0 then
      match fn with
      | .mrecord => .ended .eof
      | .mrecords _ buf => .ended (.records buf)
    else if n ≠ headSize then .ended (.error .shortRead)
    else headDone crc fn (Head.ofBytes area)
  | .payload head =>
    if n ≠ area.length then .ended (.error .shortRead) else recordDone crc fn head area

/-- The condition of the loop. -/
def loopOn (crc : Crc) (fn : Fn) (part : Part) (area : List UInt8) (n : Nat) :
    ReadCall :=
  if n < area.length then .reading fn part area n else loopDone crc fn part area n

inductive ReadStuck where
  | ended
  | notARead
  deriving DecidableEq

/-- One result of read(2). It has at most the bytes that were asked for. -/
def ReadCall.step (crc : Crc) : ReadCall → ReadResult → Except ReadStuck ReadCall
  | .ended _, _ => .error .ended
  | .reading fn part area n, .data b =>
    if b = [] ∨ area.length < n + b.length then .error .notARead
    else .ok (loopOn crc fn part (blit area n b) (n + b.length))
  | .reading fn part area n, .eof => .ok (loopDone crc fn part area n)
  | .reading fn part area n, .failed =>
    -- `i` is the largest `size_t`, which is not `<= 0`
    .ok (loopOn crc fn part area ((n + (2 ^ 64 - 1)) % 2 ^ 64))

/-- `read_mrecord` and `read_mrecords` at their start. A pickup that is not empty is the header;
    `read_mrecords` does not look at its signature again. -/
def ReadCall.start (crc : Crc) (fn : Fn) (pickup : Head) : ReadCall :=
  match fn with
  | .mrecord =>
    if pickup.type ≠ 0 then headDone crc .mrecord pickup
    else .reading .mrecord .header (List.replicate headSize 0) 0
  | .mrecords room buf =>
    if room < headSize then .ended (.records buf)
    else if pickup.signature ≠ 0 then headUse crc (.mrecords room buf) pickup
    else .reading (.mrecords room buf) .header (List.replicate headSize 0) 0

/-! ## What a failed read does -/

/-- The offset is inside what is read, and that is not larger than a record can be. -/
def ReadCall.Inside : ReadCall → Prop
  | .ended _ => True
  | .reading _ _ area n => n < area.length ∧ area.length < 2 ^ 32

/-- A failed read ends the reader with an error. -/
def ReadCall.StopsAt (crc : Crc) (c : ReadCall) (r : ReadResult) : Prop :=
  r = .failed → ∀ c', c.step crc r = .ok c' → ∃ e, c' = .ended (.error e)

/-- A read only fails before the first byte of a record. -/
def ReadCall.FailsFirst (c : ReadCall) (r : ReadResult) : Prop :=
  r = .failed → ∀ fn part area n, c = .reading fn part area n → n = 0

section

variable {crc : Crc} {c c' : ReadCall} {r : ReadResult} {fn : Fn} {head : Head}
  {part : Part} {area : List UInt8} {n : Nat}

theorem nextRecord_inside (room : Nat) (buf : List UInt8) : (nextRecord room buf).Inside := by
  unfold nextRecord
  split
  · trivial
  · exact ⟨by decide, by decide⟩

theorem recordDone_inside (crc : Crc) (fn : Fn) (head : Head) (area : List UInt8) :
    (recordDone crc fn head area).Inside := by
  unfold recordDone
  split
  · split <;> trivial
  · dsimp only
    split
    · trivial
    · exact nextRecord_inside _ _

theorem readPayload_inside (h : area.length < 2 ^ 32) :
    (readPayload crc fn head area).Inside := by
  unfold readPayload
  split
  · next hlt => exact ⟨hlt, h⟩
  · exact recordDone_inside _ _ _ _

theorem headUse_inside (crc : Crc) (fn : Fn) (head : Head) :
    (headUse crc fn head).Inside := by
  have hlt : head.aligned < 2 ^ 32 := Nat.mod_lt _ (by decide)
  unfold headUse
  split
  · split
    · trivial
    · refine readPayload_inside ?_
      rw [List.length_append, List.length_replicate, Head.length_bytes]
      omega
  · split
    · trivial
    · split
      · trivial
      · refine readPayload_inside ?_
        rwa [List.length_replicate]

theorem headDone_inside (crc : Crc) (fn : Fn) (head : Head) :
    (headDone crc fn head).Inside := by
  unfold headDone
  split
  · trivial
  · exact headUse_inside _ _ _

theorem loopDone_inside (crc : Crc) (fn : Fn) (part : Part) (area : List UInt8)
    (n : Nat) : (loopDone crc fn part area n).Inside := by
  unfold loopDone
  split
  · split
    · split <;> trivial
    · split
      · trivial
      · exact headDone_inside _ _ _
  · split
    · trivial
    · exact recordDone_inside _ _ _ _

theorem loopOn_inside (h : area.length < 2 ^ 32) : (loopOn crc fn part area n).Inside := by
  unfold loopOn
  split
  · next hlt => exact ⟨hlt, h⟩
  · exact loopDone_inside _ _ _ _ _

theorem ReadCall.start_inside (crc : Crc) (fn : Fn) (pickup : Head) :
    (ReadCall.start crc fn pickup).Inside := by
  unfold ReadCall.start
  split
  · split
    · exact headDone_inside _ _ _
    · exact ⟨by decide, by decide⟩
  · split
    · trivial
    · split
      · exact headUse_inside _ _ _
      · exact ⟨by decide, by decide⟩

theorem ReadCall.Inside.step (h : c.Inside) (hstep : c.step crc r = .ok c') : c'.Inside := by
  cases c with
  | ended e => cases hstep
  | reading fn part area n =>
    cases r with
    | data b =>
      rw [ReadCall.step] at hstep
      split at hstep
      · cases hstep
      · next hb =>
        obtain rfl := Except.ok.inj hstep
        refine loopOn_inside ?_
        rw [length_blit _ _ _ (by omega)]
        exact h.2
    | eof =>
      obtain rfl := Except.ok.inj hstep
      exact loopDone_inside _ _ _ _ _
    | failed =>
      obtain rfl := Except.ok.inj hstep
      exact loopOn_inside h.2

/-- A failed read stops the reader iff nothing of the record was read before. -/
theorem ReadCall.failed_step_iff (h : c.Inside) :
    c.StopsAt crc r ↔ c.FailsFirst r := by
  cases c with
  | ended e =>
    constructor
    · exact fun _ _ _ _ _ _ hc => by cases hc
    · exact fun _ _ _ hc => by cases hc
  | reading fn part area n =>
    obtain ⟨hn, harea⟩ := h
    constructor
    · rintro hstops rfl fn' part' area' n' hc
      cases hc
      by_contra h0
      -- the loop goes on one byte further back
      have hback : (n + (2 ^ 64 - 1)) % 2 ^ 64 = n - 1 := by omega
      obtain ⟨e, he⟩ := hstops rfl _ rfl
      rw [hback, loopOn, if_pos (by omega)] at he
      cases he
    · rintro hfirst rfl c' hstep
      obtain rfl := hfirst rfl fn part area n rfl
      obtain rfl := Except.ok.inj hstep
      have hhuge : (0 + (2 ^ 64 - 1)) % 2 ^ 64 = 2 ^ 64 - 1 := by decide
      refine ⟨.shortRead, ?_⟩
      rw [hhuge, loopOn, if_neg (by omega)]
      unfold loopDone
      split
      · rw [if_neg (by decide), if_pos (by decide)]
      · rw [if_pos (by omega)]

end

/-- A reader stops with an error at every read that fails iff no read fails behind the first byte
    of a record, whatever else the reads return. -/
theorem read_failure_stops_iff (crc : Crc) (fn : Fn) (pickup : Head)
    (reads : List ReadResult) :
    Along (ReadCall.step crc) (ReadCall.StopsAt crc) (.start crc fn pickup) reads ↔
      Along (ReadCall.step crc) ReadCall.FailsFirst (.start crc fn pickup) reads := by
  have hstart := ReadCall.start_inside crc fn pickup
  have hkeeps : ∀ P : ReadCall → ReadResult → Prop, ∀ c r c', c.Inside → P c r →
      c.step crc r = .ok c' → c'.Inside := fun _ _ _ _ h _ hstep => h.step hstep
  constructor
  · exact Along.mono (hkeeps _) (fun _ _ h hP => (ReadCall.failed_step_iff h).mp hP) reads _ hstart
  · exact Along.mono (hkeeps _) (fun _ _ h hP => (ReadCall.failed_step_iff h).mpr hP) reads _ hstart

/-- The record of the example below, without its payload. -/
def sentHead : Head := ⟨mirrorSignature, 0, 24, 1⟩

/-- The payload of a record is read in two goes, and the first one fails. `read_mrecord` takes the
    payload one byte too early, with the first byte of the next record at its end, and returns a
    record that nobody sent: a byte of its type is 9. -/
theorem read_failure_moves :
    ¬ Along (ReadCall.step fun _ => 0) (ReadCall.StopsAt fun _ => 0)
        (.start (fun _ => 0) .mrecord ⟨0, 0, 0, 0⟩)
        [.data sentHead.bytes, .failed, .data [9, 8, 7, 6, 5, 4, 3, 2], .data [0x72]] ∧
      run (ReadCall.step fun _ => 0) (.start (fun _ => 0) .mrecord ⟨0, 0, 0, 0⟩)
        [.data sentHead.bytes, .failed, .data [9, 8, 7, 6, 5, 4, 3, 2], .data [0x72]] =
        .ok (.ended (.record (sentHead.bytes.take 15 ++ [9, 8, 7, 6, 5, 4, 3, 2, 0x72]))) := by
  refine ⟨fun h => ?_, by decide +kernel⟩
  have hhead : ReadCall.step (fun _ => 0) (.start (fun _ => 0) .mrecord ⟨0, 0, 0, 0⟩)
      (.data sentHead.bytes) = .ok (.reading .mrecord (.payload sentHead)
        (sentHead.bytes ++ List.replicate 8 0) 16) := by decide +kernel
  have hback : ReadCall.step (fun _ => 0) (.reading .mrecord (.payload sentHead)
      (sentHead.bytes ++ List.replicate 8 0) 16) .failed = .ok (.reading .mrecord
        (.payload sentHead) (sentHead.bytes ++ List.replicate 8 0) 15) := by decide +kernel
  obtain ⟨e, he⟩ := (h.2 _ hhead).1 rfl _ hback
  cases he

end Lh1.Hammer.Mirror
