/-
  Framing of the mirror stream (`read_mrecords`, `read_mrecord` and `write_mrecord` of
  cmd_mirror.c).

  A record is a 16-byte header and a payload, padded to 8 bytes. `read_mrecords` fills a buffer
  with bulk records for the ioctl; a header it has read but cannot use stays in the pickup, which
  the next reader takes up. A pickup is empty when its signature is 0. Where the program ends
  with errx() or an assertion, or a reader fails, the model has a fault. The CRC is a parameter.
  A data CRC that does not match is only reported, so it is not in the model.

  * `Pending.readMrecords`, `Pending.readMrecord`: from a pickup and a pipe that together hold
    some records, a call returns the first of them and leaves the rest.
  * `mirror_stream_faithful`: so does every sequence of calls, and mirror-dump walks over exactly
    the records that were written.
-/
import Lh1.Lib.Bytes
import Lh1.Lib.Pipe

namespace Lh1.Hammer.Mirror

open Lib

/-! ## Records -/

/-- `HAMMER_MREC_TYPE_*`. The flags of a type field, such as `HAMMER_MRECF_CRC_ERROR`, are above
    the low byte. -/
inductive RecType where
  | record
  | pfsd
  | update
  | sync
  | skip
  | pass
  | term
  | idle
  deriving DecidableEq, Repr

def RecType.code : RecType → Nat
  | .record => 1
  | .pfsd => 2
  | .update => 3
  | .sync => 4
  | .skip => 5
  | .pass => 6
  | .term => 7
  | .idle => 8

/-- `HAMMER_MRECF_TYPE_LOMASK`. -/
def typeLow (type : Nat) : Nat := type &&& 0xFF

/-- `HAMMER_MRECF_TYPE_MASK`: the low byte and `HAMMER_MRECF_CRC_ERROR`. -/
def typeMasked (type : Nat) : Nat := type &&& 0x800000FF

/-- `struct hammer_ioc_mrecord_head`. -/
structure Head where
  signature : Nat
  recCrc : Nat
  recSize : Nat
  type : Nat
  deriving DecidableEq, Repr

def headSize : Nat := 16

def Head.bytes (h : Head) : List UInt8 :=
  toLE 4 h.signature ++ toLE 4 h.recCrc ++ toLE 4 h.recSize ++ toLE 4 h.type

def Head.ofBytes (b : List UInt8) : Head :=
  ⟨fromLE (slice b 0 4), fromLE (slice b 4 8), fromLE (slice b 8 12), fromLE (slice b 12 16)⟩

/-- `pickup->signature = 0; pickup->type = 0`. -/
def Head.clear (h : Head) : Head := ⟨0, h.recCrc, h.recSize, 0⟩

/-- `HAMMER_HEAD_DOALIGN`. -/
def headAlign (n : Nat) : Nat := (n + 7) / 8 * 8

/-- `HAMMER_IOC_MIRROR_SIGNATURE`. -/
def mirrorSignature : Nat := 0x4dd97272

/-- `sizeof(struct hammer_ioc_mrecord_rec)`: the header and a leaf element. -/
def recHeadSize : Nat := 80

/-- `sizeof(union hammer_ioc_mrecord_any) + HAMMER_XBUFSIZE`. -/
def maxRecSize : Nat := 320 + 65536

def serialbufSize : Nat := 512 * 1024

/-- `rec.leaf.data_len`, a signed word near the end of the leaf element. -/
def dataLen (mrec : List UInt8) : Int := (fromLE (slice mrec 72 76) : Int).bmod (2 ^ 32)

/-- What `hammer_crc_get_mrec_head` runs over: the record from `HAMMER_MREC_CRCOFF` on. -/
def crcData (mrec : List UInt8) (size : Nat) : List UInt8 := slice mrec 8 size

/-- A record as it stands in a stream; its padding is arbitrary. -/
structure Valid (crc : Crc) (mrec : List UInt8) : Prop where
  signature : (Head.ofBytes mrec).signature = mirrorSignature
  size_ge : headSize ≤ (Head.ofBytes mrec).recSize
  size_le : (Head.ofBytes mrec).recSize ≤ maxRecSize
  length : mrec.length = headAlign (Head.ofBytes mrec).recSize
  type : ∃ t : RecType, typeLow (Head.ofBytes mrec).type = t.code
  check : (Head.ofBytes mrec).recCrc
    = (crc (crcData mrec (Head.ofBytes mrec).recSize)).toNat
  data : typeMasked (Head.ofBytes mrec).type = RecType.record.code →
    0 ≤ dataLen mrec ∧ recHeadSize + dataLen mrec ≤ (Head.ofBytes mrec).recSize

/-- REC (with REC_BADCRC), SKIP and PASS, the types the ioctl supports. -/
def IsBulk (mrec : List UInt8) : Prop :=
  typeLow (Head.ofBytes mrec).type = RecType.record.code ∨
    typeLow (Head.ofBytes mrec).type = RecType.skip.code ∨
    typeLow (Head.ofBytes mrec).type = RecType.pass.code

/-- `write_mrecord`: what it puts into the pipe for a record of type `t` that has `body` behind
    its header. -/
def writeMrecord (crc : Crc) (t : RecType) (body : List UInt8) : List UInt8 :=
  let bytes := headSize + body.length
  let pad := headAlign bytes - bytes
  let head : Head := ⟨mirrorSignature, 0, bytes, t.code⟩
  let recCrc := (crc (crcData (head.bytes ++ body) bytes)).toNat
  Head.bytes { head with recCrc } ++ body ++ List.replicate pad 0

/-! ## Readers -/

/-- The reading end of the pipe, and the pickup. -/
structure Reader where
  pipe : Pipe
  pickup : Head
  deriving DecidableEq

inductive Fault where
  | shortRead
  | badSignature
  | illegalRecSize
  | badCrc
  | illegalDataLen
  | misaligned
  deriving DecidableEq, Repr

/-- The types `read_mrecords` goes on with: PFSD is among them. -/
def Carried (type : Nat) : Prop :=
  typeLow type = RecType.pfsd.code ∨ typeLow type = RecType.record.code ∨
    typeLow type = RecType.skip.code ∨ typeLow type = RecType.pass.code

instance (type : Nat) : Decidable (Carried type) := inferInstanceAs (Decidable (_ ∨ _))

/-- The checks of a record that `read_mrecords` has completed. The sum is a size_t. -/
def checkRecord (crc : Crc) (h : Head) (mrec : List UInt8) : Except Fault Unit :=
  if h.recCrc ≠ (crc (crcData mrec h.recSize)).toNat then .error .badCrc
  else if typeMasked h.type = RecType.record.code ∧
      h.recSize < (recHeadSize + dataLen mrec) % 2 ^ 64 then .error .illegalDataLen
  else .ok ()

/-- The header of the next record, in the pickup already or read into it; `none` at the end of
    file. -/
def fillPickup (r : Reader) : Except Fault (Option Head × Pipe) :=
  if r.pickup.signature ≠ 0 then .ok (some r.pickup, r.pipe)
  else
    let (b, pipe) := r.pipe.readFull headSize
    if b.length = 0 then .ok (none, pipe)
    else if b.length ≠ headSize then .error .shortRead
    else if (Head.ofBytes b).signature ≠ mirrorSignature then .error .badSignature
    else .ok (some (Head.ofBytes b), pipe)

/-- `read_mrecords` with room for `size` bytes: the bytes it puts into the buffer. -/
def readMrecords (crc : Crc) (size : Nat) (r : Reader) :
    Except Fault (List UInt8 × Reader) :=
  if size < headSize then .ok ([], r)
  else
    match fillPickup r with
    | .error e => .error e
    | .ok (none, pipe) => .ok ([], ⟨pipe, r.pickup⟩)
    | .ok (some pickup, pipe) =>
      if _hsize : pickup.recSize < headSize ∨ maxRecSize < pickup.recSize then
        .error .illegalRecSize
      else if _hroom : size < headAlign pickup.recSize then .ok ([], ⟨pipe, pickup⟩)
      else if ¬ Carried pickup.type then .ok ([], ⟨pipe, pickup⟩)
      else
        let bytes := headAlign pickup.recSize
        let (rest, pipe) := pipe.readFull (bytes - headSize)
        if headSize + rest.length ≠ bytes then .error .shortRead
        else
          let mrec := pickup.bytes ++ rest
          match checkRecord crc pickup mrec with
          | .error e => .error e
          | .ok () =>
            match readMrecords crc (size - bytes) ⟨pipe, pickup.clear⟩ with
            | .error e => .error e
            | .ok (more, r) => .ok (mrec ++ more, r)
  termination_by size
  decreasing_by
    simp only [headAlign, headSize] at *
    omega

/-- The header `read_mrecord` begins with, from the pickup or from the pipe. -/
def takeHead (r : Reader) : List UInt8 × Reader :=
  if r.pickup.type ≠ 0 then (r.pickup.bytes, ⟨r.pipe, r.pickup.clear⟩)
  else
    let (b, pipe) := r.pipe.readFull headSize
    (b, ⟨pipe, r.pickup⟩)

/-- `read_mrecord`; `none` at the end of file. -/
def readMrecord (crc : Crc) (r : Reader) :
    Except Fault (Option (List UInt8) × Reader) :=
  let (b, r) := takeHead r
  let mrechd := Head.ofBytes b
  if b.length = 0 then .ok (none, r)
  else if b.length ≠ headSize then .error .shortRead
  else if mrechd.signature ≠ mirrorSignature then .error .badSignature
  else
    let bytes := headAlign mrechd.recSize
    if bytes < headSize then .error .illegalRecSize
    else
      let (rest, pipe) := r.pipe.readFull (bytes - headSize)
      if headSize + rest.length ≠ bytes then .error .shortRead
      else if mrechd.recCrc ≠ (crc (crcData (b ++ rest) mrechd.recSize)).toNat then .error .badCrc
      else .ok (some (b ++ rest), ⟨pipe, r.pickup⟩)

/-! ## mirror-dump -/

/-- The walk over a buffer that `read_mrecords` has filled. -/
def walk : Nat → List UInt8 → Except Fault (List (List UInt8))
  | 0, _ => .ok []
  | fuel + 1, buf =>
    if buf.length = 0 then .ok []
    else
      let bytes := headAlign (Head.ofBytes buf).recSize
      if buf.length < bytes then .error .misaligned
      else
        match walk fuel (buf.drop bytes) with
        | .error e => .error e
        | .ok more => .ok (buf.take bytes :: more)

/-- "Read and process bulk records". -/
def dumpBulk (crc : Crc) : Nat → Reader →
    Except Fault (List (List UInt8) × Reader)
  | 0, r => .ok ([], r)
  | fuel + 1, r =>
    match readMrecords crc serialbufSize r with
    | .error e => .error e
    | .ok (buf, r) =>
      if buf.length = 0 then .ok ([], r)
      else
        match walk buf.length buf with
        | .error e => .error e
        | .ok here =>
          match dumpBulk crc fuel r with
          | .error e => .error e
          | .ok (more, r) => .ok (here ++ more, r)

/-- The rounds of mirror-dump behind the PFS header: bulk records, a termination record, and the
    first record of the next batch. A missing termination record is only reported. -/
def dumpRounds (crc : Crc) (bulks : Nat) : Nat → Reader →
    Except Fault (List (List UInt8))
  | 0, _ => .ok []
  | fuel + 1, r =>
    match dumpBulk crc bulks r with
    | .error e => .error e
    | .ok (bulk, r) =>
      match readMrecord crc r with
      | .error e => .error e
      | .ok (sync, r) =>
        match readMrecord crc r with
        | .error e => .error e
        | .ok (none, _) => .ok (bulk ++ sync.toList)
        | .ok (some next, r) =>
          match dumpRounds crc bulks fuel r with
          | .error e => .error e
          | .ok more => .ok (bulk ++ sync.toList ++ [next] ++ more)

/-- `hammer_cmd_mirror_dump`: the records it reads, in order. Its loops run at most `fuel`
    times. -/
def mirrorDump (crc : Crc) (fuel : Nat) (pipe : Pipe) :
    Except Fault (List (List UInt8)) :=
  match readMrecord crc ⟨pipe, ⟨0, 0, 0, 0⟩⟩ with
  | .error e => .error e
  | .ok (pfsd, r) =>
    match dumpRounds crc fuel fuel r with
    | .error e => .error e
    | .ok more => .ok (pfsd.toList ++ more)

/-! ## What is pending -/

variable {b mrec : List UInt8} {crc : Crc}

theorem Valid.headSize_le (h : Valid crc mrec) :
    headSize ≤ headAlign (Head.ofBytes mrec).recSize := by
  have := h.size_ge
  simp only [headSize, headAlign] at *
  omega

theorem Valid.headSize_le_length (h : Valid crc mrec) : headSize ≤ mrec.length := by
  rw [h.length]
  exact h.headSize_le

theorem Valid.type_ne_zero (h : Valid crc mrec) : (Head.ofBytes mrec).type ≠ 0 := by
  obtain ⟨t, ht⟩ := h.type
  intro h0
  rw [h0] at ht
  cases t <;> simp [typeLow, RecType.code] at ht

theorem Valid.headAlign_le (h : Valid crc mrec) :
    headAlign (Head.ofBytes mrec).recSize ≤ maxRecSize := by
  have := h.size_le
  simp only [headAlign, maxRecSize] at *
  omega

theorem Head.ofBytes_append (h : headSize ≤ b.length) (rest : List UInt8) :
    Head.ofBytes (b ++ rest) = Head.ofBytes b := by
  have hs : ∀ i j : Nat, i ≤ j → j ≤ 16 → slice (b ++ rest) i j = slice b i j := by
    intro i j hij hj
    have hb : 16 ≤ b.length := h
    rw [slice, slice, List.drop_append_of_le_length (by omega),
      List.take_append_of_le_length (by rw [List.length_drop]; omega)]
  simp [Head.ofBytes, hs]

theorem Head.ofBytes_take (h : headSize ≤ b.length) :
    Head.ofBytes (b.take headSize) = Head.ofBytes b := by
  have hl : headSize ≤ (b.take headSize).length := by rw [List.length_take]; omega
  have := Head.ofBytes_append hl (b.drop headSize)
  rw [List.take_append_drop] at this
  exact this.symm

@[simp] theorem Head.length_bytes (h : Head) : h.bytes.length = headSize := by
  simp [Head.bytes, headSize]

theorem Head.bytes_ofBytes (h : headSize ≤ b.length) :
    (Head.ofBytes b).bytes = b.take headSize := by
  have hb : 16 ≤ b.length := h
  have hw : ∀ i, i + 4 ≤ 16 → toLE 4 (fromLE (slice b i (i + 4))) = slice b i (i + 4) :=
    fun i hi => toLE_fromLE_slice b i 4 (by omega)
  have h0 := hw 0 (by omega)
  have h4 := hw 4 (by omega)
  have h8 := hw 8 (by omega)
  have h12 := hw 12 (by omega)
  simp only [Nat.reduceAdd] at h0 h4 h8 h12
  rw [Head.bytes]
  simp only [Head.ofBytes, h0, h4, h8, h12]
  rw [slice_append b 0 4 8 (by omega) (by omega), slice_append b 0 8 12 (by omega) (by omega),
    slice_append b 0 12 16 (by omega) (by omega)]
  simp [slice, headSize]

theorem Head.bytes_ofBytes_append (h : headSize ≤ b.length) :
    (Head.ofBytes b).bytes ++ b.drop headSize = b := by
  rw [Head.bytes_ofBytes h, List.take_append_drop]

/-- The records that are still to be read: what is in the pipe, behind a header that is in the
    pickup when one has been read ahead. -/
inductive Pending : Reader → List (List UInt8) → Prop
  | idle {pipe : Pipe} {pickup : Head} {rs : List (List UInt8)} (hsig : pickup.signature = 0)
      (htype : pickup.type = 0) (hpipe : pipe.bytes = rs.flatten) : Pending ⟨pipe, pickup⟩ rs
  | ahead {pipe : Pipe} {mrec : List UInt8} {rs : List (List UInt8)}
      (hpipe : pipe.bytes = mrec.drop headSize ++ rs.flatten) :
      Pending ⟨pipe, Head.ofBytes mrec⟩ (mrec :: rs)

section

variable {crc : Crc}

variable {rs : List (List UInt8)} {mrec : List UInt8} {fuel : Nat} {pipe : Pipe} {r : Reader}

theorem readFull_head (hm : Valid crc mrec) (hpipe : pipe.bytes = (mrec :: rs).flatten) :
    ∃ splits, pipe.readFull headSize
      = (mrec.take headSize, ⟨mrec.drop headSize ++ rs.flatten, splits⟩) := by
  obtain ⟨splits, h⟩ := pipe.readFull_spec headSize
  refine ⟨splits, ?_⟩
  rw [h, hpipe, List.flatten_cons, List.take_append_of_le_length hm.headSize_le_length,
    List.drop_append_of_le_length hm.headSize_le_length]

theorem readFull_rest (hm : Valid crc mrec)
    (hpipe : pipe.bytes = mrec.drop headSize ++ rs.flatten) :
    ∃ splits, pipe.readFull (headAlign (Head.ofBytes mrec).recSize - headSize)
      = (mrec.drop headSize, ⟨rs.flatten, splits⟩) := by
  have hlen : (mrec.drop headSize).length
      = headAlign (Head.ofBytes mrec).recSize - headSize := by
    rw [List.length_drop, hm.length]
  obtain ⟨splits, h⟩ := pipe.readFull_spec (headAlign (Head.ofBytes mrec).recSize - headSize)
  refine ⟨splits, ?_⟩
  rw [h, hpipe, ← hlen, List.take_left, List.drop_left]

theorem readFull_eof (hpipe : pipe.bytes = []) (n : Nat) :
    ∃ splits, pipe.readFull n = ([], ⟨[], splits⟩) := by
  obtain ⟨splits, h⟩ := pipe.readFull_spec n
  exact ⟨splits, by rw [h, hpipe, List.take_nil, List.drop_nil]⟩

theorem Pending.fillPickup_nil (h : Pending r []) :
    ∃ pipe, fillPickup r = .ok (none, pipe) ∧ Pending ⟨pipe, r.pickup⟩ [] := by
  cases h with
  | @idle pipe _ _ hsig htype hpipe =>
    obtain ⟨splits, hread⟩ := readFull_eof hpipe headSize
    refine ⟨⟨[], splits⟩, ?_, .idle hsig htype rfl⟩
    simp [fillPickup, hsig, hread]

theorem Pending.fillPickup_cons (hm : Valid crc mrec) (h : Pending r (mrec :: rs)) :
    ∃ pipe, fillPickup r = .ok (some (Head.ofBytes mrec), pipe) ∧
      pipe.bytes = mrec.drop headSize ++ rs.flatten := by
  have hlen := hm.headSize_le_length
  have hsig : (Head.ofBytes mrec).signature ≠ 0 := by
    rw [hm.signature]
    decide
  cases h with
  | idle hzero _ hpipe =>
    obtain ⟨splits, hread⟩ := readFull_head hm hpipe
    have hpos : headSize ≠ 0 := by decide
    refine ⟨⟨_, splits⟩, ?_, rfl⟩
    simp [fillPickup, hzero, hread, Head.ofBytes_take hlen, hm.signature, Nat.min_eq_left hlen,
      hpos]
  | ahead hpipe => exact ⟨_, by simp [fillPickup, hsig], hpipe⟩

theorem Valid.checkRecord (h : Valid crc mrec) :
    checkRecord crc (Head.ofBytes mrec) mrec = .ok () := by
  have hdata : ¬ (typeMasked (Head.ofBytes mrec).type = RecType.record.code ∧
      ((Head.ofBytes mrec).recSize : Int) < (recHeadSize + dataLen mrec) % 2 ^ 64) := by
    rintro ⟨ht, hlt⟩
    obtain ⟨h0, h1⟩ := h.data ht
    have hmod : ((recHeadSize : Int) + dataLen mrec) % 2 ^ 64 = recHeadSize + dataLen mrec := by
      have := h.size_le
      rw [Int.emod_eq_of_lt] <;> simp only [recHeadSize, maxRecSize] at * <;> omega
    omega
  rw [Mirror.checkRecord, if_neg (not_not_intro h.check), if_neg hdata]

/-- A call of `read_mrecords` takes the first records, in whole, as far as they are carried and
    have room; it takes none only at the end of file, in front of a record of another type, or
    when there is no room for a record. -/
theorem Pending.readMrecords (hv : ∀ mrec ∈ rs, Valid crc mrec) (size : Nat) (h : Pending r rs) :
    ∃ taken rest r', readMrecords crc size r = .ok (taken.flatten, r') ∧ rs = taken ++ rest ∧
      Pending r' rest ∧ taken.flatten.length ≤ size ∧
      (∀ mrec ∈ taken, Carried (Head.ofBytes mrec).type) ∧
      (taken = [] → maxRecSize ≤ size →
        ∀ mrec ∈ rest.head?, ¬ Carried (Head.ofBytes mrec).type) := by
  -- one record a turn: the induction is on the room left, along the records
  induction rs generalizing size r with
  | nil =>
    rw [Mirror.readMrecords]
    by_cases hsize : size < headSize
    · exact ⟨[], [], r, by rw [if_pos hsize]; rfl, rfl, h, by simp, by simp, by simp⟩
    obtain ⟨pipe, hfill, hpend⟩ := h.fillPickup_nil
    refine ⟨[], [], _, ?_, rfl, hpend, by simp, by simp, by simp⟩
    rw [if_neg hsize, hfill]
    rfl
  | cons mrec rs ih =>
    have hm := hv mrec List.mem_cons_self
    rw [Mirror.readMrecords]
    by_cases hsize : size < headSize
    · refine ⟨[], mrec :: rs, r, by rw [if_pos hsize]; rfl, rfl, h, by simp, by simp,
        fun _ hmax => ?_⟩
      have : headSize ≤ maxRecSize := by decide
      omega
    obtain ⟨pipe, hfill, hpipe⟩ := h.fillPickup_cons hm
    have hlegal : ¬ ((Head.ofBytes mrec).recSize < headSize ∨
        maxRecSize < (Head.ofBytes mrec).recSize) := by
      have := hm.size_ge
      have := hm.size_le
      omega
    rw [if_neg hsize, hfill]
    dsimp only
    rw [dif_neg hlegal]
    by_cases hroom : size < headAlign (Head.ofBytes mrec).recSize
    · refine ⟨[], mrec :: rs, _, by rw [dif_pos hroom]; rfl, rfl, .ahead hpipe, by simp,
        by simp, fun _ hmax => ?_⟩
      have := hm.headAlign_le
      omega
    by_cases hcarried : Carried (Head.ofBytes mrec).type
    · obtain ⟨splits, hread⟩ := readFull_rest hm hpipe
      have hlen := hm.length
      have hge := hm.headSize_le
      have hshort : ¬ headSize + (mrec.drop headSize).length
          ≠ headAlign (Head.ofBytes mrec).recSize := by
        rw [List.length_drop]
        omega
      obtain ⟨taken, rest, r', hmore, hsplit, hpend, hfit, htypes, -⟩ :=
        ih (fun m hmem => hv m (List.mem_cons_of_mem _ hmem))
          (size - headAlign (Head.ofBytes mrec).recSize)
          (show Pending ⟨⟨rs.flatten, splits⟩, (Head.ofBytes mrec).clear⟩ rs from
            .idle rfl rfl rfl)
      refine ⟨mrec :: taken, rest, r', ?_, by rw [hsplit]; rfl, hpend, ?_,
        List.forall_mem_cons.mpr ⟨hcarried, htypes⟩, by simp⟩
      · rw [dif_neg hroom, if_neg (not_not_intro hcarried), hread]
        dsimp only
        rw [if_neg hshort, Head.bytes_ofBytes_append hm.headSize_le_length, hm.checkRecord]
        dsimp only
        rw [hmore]
        rfl
      · rw [List.flatten_cons, List.length_append]
        omega
    · refine ⟨[], mrec :: rs, _, by rw [dif_neg hroom, if_pos hcarried]; rfl, rfl,
        .ahead hpipe, by simp, by simp, fun _ _ m hmem => ?_⟩
      obtain rfl : mrec = m := by simpa using hmem
      exact hcarried

theorem Pending.takeHead_cons (hm : Valid crc mrec) (h : Pending r (mrec :: rs)) :
    ∃ r', takeHead r = (mrec.take headSize, r') ∧ r'.pickup.signature = 0 ∧
      r'.pickup.type = 0 ∧ r'.pipe.bytes = mrec.drop headSize ++ rs.flatten := by
  cases h with
  | idle hsig htype hpipe =>
    obtain ⟨splits, hread⟩ := readFull_head hm hpipe
    exact ⟨_, by simp [takeHead, htype, hread]; rfl, hsig, htype, rfl⟩
  | ahead hpipe =>
    refine ⟨⟨_, (Head.ofBytes mrec).clear⟩, ?_, rfl, rfl, hpipe⟩
    rw [takeHead, if_pos hm.type_ne_zero, Head.bytes_ofBytes hm.headSize_le_length]

/-- A call of `read_mrecord` takes the first record. -/
theorem Pending.readMrecord (hv : ∀ mrec ∈ rs, Valid crc mrec) (h : Pending r rs) :
    ∃ r', readMrecord crc r = .ok (rs.head?, r') ∧ Pending r' rs.tail := by
  cases rs with
  | nil =>
    cases h with
    | idle hsig htype hpipe =>
      obtain ⟨splits, hread⟩ := readFull_eof hpipe headSize
      refine ⟨⟨⟨[], splits⟩, _⟩, ?_, .idle hsig htype rfl⟩
      simp [Mirror.readMrecord, takeHead, htype, hread]
  | cons mrec rs =>
    have hm := hv mrec List.mem_cons_self
    have hlen := hm.headSize_le_length
    obtain ⟨r', htake, hsig, htype, hpipe⟩ := h.takeHead_cons hm
    obtain ⟨splits, hread⟩ := readFull_rest hm hpipe
    have hge := hm.headSize_le
    have hpos : headSize ≠ 0 := by decide
    have hhead : (mrec.take headSize).length = headSize := by
      rw [List.length_take]
      omega
    have hshort : ¬ headSize + (mrec.drop headSize).length
        ≠ headAlign (Head.ofBytes mrec).recSize := by
      rw [List.length_drop, hm.length]
      omega
    refine ⟨⟨⟨rs.flatten, splits⟩, r'.pickup⟩, ?_, .idle hsig htype rfl⟩
    rw [Mirror.readMrecord, htake]
    dsimp only
    rw [if_neg (by omega), if_neg (by omega), Head.ofBytes_take hlen,
      if_neg (not_not_intro hm.signature), if_neg (by omega), hread]
    dsimp only
    rw [if_neg hshort, List.take_append_drop, if_neg (not_not_intro hm.check)]
    rfl

/-! ## Sequences of calls -/

inductive Call where
  | bulk
  | single
  deriving DecidableEq, Repr

/-- What a call returns: the buffer of `read_mrecords`, the record of `read_mrecord`. -/
inductive Outcome where
  | bulk (buf : List UInt8)
  | single (mrec : Option (List UInt8))
  deriving DecidableEq

def Reader.call (crc : Crc) (r : Reader) : Call → Except Fault (Outcome × Reader)
  | .bulk =>
    match readMrecords crc serialbufSize r with
    | .error e => .error e
    | .ok (buf, r) => .ok (.bulk buf, r)
  | .single =>
    match readMrecord crc r with
    | .error e => .error e
    | .ok (mrec, r) => .ok (.single mrec, r)

def runCalls (crc : Crc) : List Call → Reader →
    Except Fault (List Outcome × Reader)
  | [], r => .ok ([], r)
  | c :: calls, r =>
    match r.call crc c with
    | .error e => .error e
    | .ok (o, r) =>
      match runCalls crc calls r with
      | .error e => .error e
      | .ok (more, r) => .ok (o :: more, r)

/-- What a reader must see of the records `rs`. A bulk call returns the next records, of types it
    goes on with, in whole and within the buffer, and nothing only at the end or in front of a
    record that is not bulk; a single call returns the next record, and nothing only at the
    end. -/
def Faithful : List (List UInt8) → List Call → List Outcome → Prop
  | _, [], [] => True
  | rs, .bulk :: calls, .bulk buf :: more =>
    ∃ taken rest, rs = taken ++ rest ∧ buf = taken.flatten ∧ buf.length ≤ serialbufSize ∧
      (∀ mrec ∈ taken, Carried (Head.ofBytes mrec).type) ∧
      (buf = [] → ∀ mrec ∈ rs.head?, ¬ IsBulk mrec) ∧ Faithful rest calls more
  | rs, .single :: calls, .single mrec :: more => mrec = rs.head? ∧ Faithful rs.tail calls more
  | _, _, _ => False

theorem IsBulk.carried (h : IsBulk mrec) : Carried (Head.ofBytes mrec).type :=
  Or.inr h

theorem Pending.runCalls (hv : ∀ mrec ∈ rs, Valid crc mrec) (calls : List Call) (h : Pending r rs) :
    ∃ trace r', runCalls crc calls r = .ok (trace, r') ∧ Faithful rs calls trace := by
  induction calls generalizing rs r with
  | nil => exact ⟨[], r, rfl, trivial⟩
  | cons c calls ih =>
    cases c with
    | bulk =>
      obtain ⟨taken, rest, r1, hread, hsplit, hpend, hfit, htypes, hstop⟩ :=
        h.readMrecords hv serialbufSize
      obtain ⟨trace, r2, hrun, hfaith⟩ :=
        ih (fun m hm => hv m (by rw [hsplit]; exact List.mem_append_right _ hm)) hpend
      refine ⟨.bulk taken.flatten :: trace, r2, ?_, taken, rest, hsplit, rfl, hfit,
        htypes, ?_, hfaith⟩
      · simp only [Mirror.runCalls, Reader.call, hread, hrun]
      · intro hempty mrec hmem hbulk
        cases taken with
        | nil =>
          rw [hsplit, List.nil_append] at hmem
          exact hstop rfl (by decide) mrec hmem hbulk.carried
        | cons first taken =>
          have hlen := (hv first (by rw [hsplit]; simp)).headSize_le_length
          have hnil : first = [] := (List.append_eq_nil_iff.mp hempty).1
          rw [hnil] at hlen
          exact absurd hlen (by decide)
    | single =>
      obtain ⟨r1, hread, hpend⟩ := h.readMrecord hv
      obtain ⟨trace, r2, hrun, hfaith⟩ := ih (fun m hm => hv m (List.mem_of_mem_tail hm)) hpend
      refine ⟨.single rs.head? :: trace, r2, ?_, rfl, hfaith⟩
      simp only [Mirror.runCalls, Reader.call, hread, hrun]

/-! ## mirror-dump sees every record -/

theorem Valid.ne_nil (h : Valid crc mrec) : mrec ≠ [] := by
  intro hnil
  have := h.headSize_le_length
  rw [hnil] at this
  exact absurd this (by decide)

section

variable (hv : ∀ mrec ∈ rs, Valid crc mrec)
include hv

theorem length_le_flatten : rs.length ≤ rs.flatten.length := by
  induction rs with
  | nil => simp
  | cons mrec rs ih =>
    have hpos := List.length_pos_iff.mpr (hv mrec List.mem_cons_self).ne_nil
    have := ih fun m hm => hv m (List.mem_cons_of_mem _ hm)
    rw [List.flatten_cons, List.length_append, List.length_cons]
    omega

theorem flatten_eq_nil (h : rs.flatten.length = 0) : rs = [] := by
  have := length_le_flatten hv
  exact List.length_eq_zero_iff.mp (by omega)

/-- The walk finds the records again that fill the buffer. -/
theorem walk_flatten (hf : rs.length ≤ fuel) : walk fuel rs.flatten = .ok rs := by
  induction rs generalizing fuel with
  | nil => cases fuel <;> simp [walk]
  | cons mrec rs ih =>
    have hm := hv mrec List.mem_cons_self
    obtain ⟨fuel, rfl⟩ : ∃ n, fuel = n + 1 := ⟨fuel - 1, by rw [List.length_cons] at hf; omega⟩
    have hhead : Head.ofBytes (mrec :: rs).flatten = Head.ofBytes mrec := by
      rw [List.flatten_cons]
      exact Head.ofBytes_append hm.headSize_le_length _
    have hpos : (mrec :: rs).flatten.length ≠ 0 := fun h => by
      have := flatten_eq_nil hv h
      simp at this
    have hroom : ¬ (mrec :: rs).flatten.length < mrec.length := by
      rw [List.flatten_cons, List.length_append]
      omega
    rw [walk, if_neg hpos]
    dsimp only
    rw [hhead, ← hm.length, if_neg hroom, List.flatten_cons, List.drop_left, List.take_left,
      ih (fun m hmem => hv m (List.mem_cons_of_mem _ hmem)) (by simpa using hf)]

/-- The bulk loop ends in front of a record that is not bulk, or at the end of file. -/
theorem Pending.dumpBulk (hf : rs.length < fuel) (h : Pending r rs) :
    ∃ taken rest r', dumpBulk crc fuel r = .ok (taken, r') ∧ rs = taken ++ rest ∧
      Pending r' rest := by
  induction fuel generalizing rs r with
  | zero => omega
  | succ fuel ih =>
    obtain ⟨taken, rest, r1, hread, hsplit, hpend, -, -⟩ := h.readMrecords hv serialbufSize
    have hvt : ∀ m ∈ taken, Valid crc m := fun m hm => hv m (by rw [hsplit]; simp [hm])
    have hvr : ∀ m ∈ rest, Valid crc m := fun m hm => hv m (by rw [hsplit]; simp [hm])
    rw [Mirror.dumpBulk, hread]
    dsimp only
    by_cases hzero : taken.flatten.length = 0
    · obtain rfl := flatten_eq_nil hvt hzero
      exact ⟨[], rest, r1, by rw [if_pos hzero], hsplit, hpend⟩
    have hne : taken.length ≠ 0 := fun h0 => hzero (by
      rw [List.length_eq_zero_iff.mp h0]
      rfl)
    have hlen : rs.length = taken.length + rest.length := by rw [hsplit, List.length_append]
    obtain ⟨more, rest', r2, hmore, hsplit', hpend'⟩ := ih hvr (by omega) hpend
    refine ⟨taken ++ more, rest', r2, ?_, by rw [hsplit, hsplit', List.append_assoc], hpend'⟩
    rw [if_neg hzero, walk_flatten hvt (length_le_flatten hvt)]
    dsimp only
    rw [hmore]

theorem Pending.dumpRounds {bulks : Nat} (hb : rs.length < bulks) (hf : rs.length < fuel)
    (h : Pending r rs) : dumpRounds crc bulks fuel r = .ok rs := by
  induction fuel generalizing rs r with
  | zero => omega
  | succ fuel ih =>
    obtain ⟨bulk, rest, r1, hbulk, hsplit, hpend⟩ := h.dumpBulk hv hb
    have hvr : ∀ m ∈ rest, Valid crc m := fun m hm => hv m (by rw [hsplit]; simp [hm])
    obtain ⟨r2, hsync, hpend2⟩ := hpend.readMrecord hvr
    have hvt : ∀ m ∈ rest.tail, Valid crc m := fun m hm => hvr m (List.mem_of_mem_tail hm)
    obtain ⟨r3, hnext, hpend3⟩ := hpend2.readMrecord hvt
    rw [Mirror.dumpRounds, hbulk]
    dsimp only
    rw [hsync]
    dsimp only
    rw [hnext]
    match rest with
    | [] => simp [hsplit]
    | [sync] => simp [hsplit]
    | sync :: next :: rest =>
      have hlen : rs.length = bulk.length + (rest.length + 2) := by simp [hsplit]
      have hmore := ih (fun m hm => hvt m (List.mem_of_mem_tail hm))
        (by simp; omega) (by simp; omega) hpend3
      simp only [List.head?_cons, List.tail_cons, Option.toList] at hmore ⊢
      rw [hmore, hsplit]
      simp

theorem mirrorDump_eq (hf : rs.length < fuel) (hpipe : pipe.bytes = rs.flatten) :
    mirrorDump crc fuel pipe = .ok rs := by
  have h : Pending ⟨pipe, ⟨0, 0, 0, 0⟩⟩ rs := .idle rfl rfl hpipe
  obtain ⟨r, hread, hpend⟩ := h.readMrecord hv
  have hlen : rs.tail.length ≤ rs.length := by simp
  rw [mirrorDump, hread]
  dsimp only
  rw [hpend.dumpRounds (fun m hm => hv m (List.mem_of_mem_tail hm)) (by omega) (by omega)]
  cases rs <;> rfl

end

/-! ## Written records -/

theorem Head.ofBytes_bytes {h : Head} (h1 : h.signature < 2 ^ 32) (h2 : h.recCrc < 2 ^ 32)
    (h3 : h.recSize < 2 ^ 32) (h4 : h.type < 2 ^ 32) : Head.ofBytes h.bytes = h := by
  have hw : ∀ n : Nat, n < 2 ^ 32 → fromLE (toLE 4 n) = n := fun n hn => fromLE_toLE 4 n hn
  have s1 : slice h.bytes 0 4 = toLE 4 h.signature := by simp [Head.bytes, slice, toLE]
  have s2 : slice h.bytes 4 8 = toLE 4 h.recCrc := by simp [Head.bytes, slice, toLE]
  have s3 : slice h.bytes 8 12 = toLE 4 h.recSize := by simp [Head.bytes, slice, toLE]
  have s4 : slice h.bytes 12 16 = toLE 4 h.type := by simp [Head.bytes, slice, toLE]
  rw [Head.ofBytes, s1, s2, s3, s4, hw _ h1, hw _ h2, hw _ h3, hw _ h4]

/-- The CRC does not cover itself, nor the padding. -/
theorem crcData_bytes (s c z t : Nat) (body rest : List UInt8) :
    crcData (Head.bytes ⟨s, c, z, t⟩ ++ body ++ rest) (headSize + body.length)
      = toLE 4 z ++ toLE 4 t ++ body := by
  have hdrop : (Head.bytes ⟨s, c, z, t⟩ ++ body ++ rest).drop 8
      = (toLE 4 z ++ toLE 4 t ++ body) ++ rest := by
    simp [Head.bytes, toLE]
  rw [crcData, slice, hdrop, List.take_left']
  simp [headSize]
  omega

theorem length_writeMrecord (t : RecType) (body : List UInt8) :
    (writeMrecord crc t body).length = headAlign (headSize + body.length) := by
  have : headSize + body.length ≤ headAlign (headSize + body.length) := by
    rw [headAlign]
    omega
  simp only [writeMrecord, List.length_append, Head.length_bytes, List.length_replicate]
  omega

theorem RecType.typeLow_code (t : RecType) : typeLow t.code = t.code := by
  cases t <;> decide

theorem RecType.typeMasked_code (t : RecType) : typeMasked t.code = t.code := by
  cases t <;> decide

/-- What `write_mrecord` writes is a record; the program writes no B-Tree records with it. -/
theorem writeMrecord_valid {t : RecType} (ht : t ≠ .record) {body : List UInt8}
    (hsize : headSize + body.length ≤ maxRecSize) : Valid crc (writeMrecord crc t body) := by
  obtain ⟨c, hc⟩ : ∃ c : Nat, (crc (crcData (Head.bytes ⟨mirrorSignature, 0,
    headSize + body.length, t.code⟩ ++ body) (headSize + body.length))).toNat = c := ⟨_, rfl⟩
  have hw : writeMrecord crc t body
      = Head.bytes ⟨mirrorSignature, c, headSize + body.length, t.code⟩ ++ body ++
        List.replicate (headAlign (headSize + body.length) - (headSize + body.length)) 0 := by
    rw [← hc]
    rfl
  have hcode : t.code < 2 ^ 32 := by cases t <;> decide
  have hlt : c < 2 ^ 32 := by
    rw [← hc]
    exact UInt32.toNat_lt _
  have hmax : maxRecSize < 2 ^ 32 := by decide
  have hhead : Head.ofBytes (writeMrecord crc t body)
      = ⟨mirrorSignature, c, headSize + body.length, t.code⟩ := by
    rw [hw, List.append_assoc, Head.ofBytes_append (by simp),
      Head.ofBytes_bytes (show mirrorSignature < 2 ^ 32 by decide) hlt (by dsimp only; omega) hcode]
  constructor
  · rw [hhead]
  · rw [hhead]
    exact Nat.le_add_right _ _
  · rw [hhead]
    exact hsize
  · rw [hhead]
    exact length_writeMrecord t body
  · rw [hhead]
    exact ⟨t, t.typeLow_code⟩
  · -- the CRC was taken with its own field zero and without the padding
    rw [hhead, hw, crcData_bytes, ← hc]
    have := crcData_bytes mirrorSignature 0 (headSize + body.length) t.code body []
    rw [List.append_nil] at this
    rw [this]
  · rw [hhead]
    intro h
    rw [t.typeMasked_code] at h
    cases t <;> simp [RecType.code] at h ht

/-- What goes into the pipe: the buffer the ioctl has filled, record by record, or a call of
    `write_mrecord`. -/
inductive Written where
  | ioctl (mrec : List UInt8)
  | message (t : RecType) (body : List UInt8)

def Written.bytes (crc : Crc) : Written → List UInt8
  | .ioctl mrec => mrec
  | .message t body => writeMrecord crc t body

/-- The ioctl generates bulk records, the program the other types. -/
def Written.Legal (crc : Crc) : Written → Prop
  | .ioctl mrec => Valid crc mrec ∧ IsBulk mrec
  | .message t body =>
    t ≠ .record ∧ t ≠ .skip ∧ t ≠ .pass ∧ headSize + body.length ≤ maxRecSize

theorem Written.Legal.valid {w : Written} (h : w.Legal crc) : Valid crc (w.bytes crc) := by
  cases w with
  | ioctl mrec => exact h.1
  | message t body => exact writeMrecord_valid h.1 h.2.2.2

end

/-- The stream is read back as it was written, however the reads are split: by every sequence of
    calls, and as a whole by mirror-dump. -/
theorem mirror_stream_faithful (crc : Crc) (ws : List Written)
    (hws : ∀ w ∈ ws, w.Legal crc) (splits : List Nat) :
    let rs := ws.map (Written.bytes crc)
    (∀ calls, ∃ trace r, runCalls crc calls ⟨⟨rs.flatten, splits⟩, ⟨0, 0, 0, 0⟩⟩
      = .ok (trace, r) ∧ Faithful rs calls trace) ∧
    ∀ fuel, ws.length < fuel → mirrorDump crc fuel ⟨rs.flatten, splits⟩ = .ok rs := by
  intro rs
  have hv : ∀ mrec ∈ rs, Valid crc mrec := by
    intro mrec hm
    obtain ⟨w, hw, rfl⟩ := List.mem_map.mp hm
    exact (hws w hw).valid
  constructor
  · intro calls
    exact Pending.runCalls hv calls (.idle rfl rfl rfl)
  · intro fuel hf
    exact mirrorDump_eq hv (by rw [List.length_map]; exact hf) rfl

/-- A PASS record and a SYNC record behind it. -/
theorem mirror_stream_faithful_pair :
    let crc : Crc := fun b => b.foldl (fun c x => 31 * c + x.toUInt32) 7
    let pass := Head.bytes ⟨mirrorSignature, (crc (toLE 4 16 ++ toLE 4 6)).toNat, 16, 6⟩
    let rs := [pass, writeMrecord crc .sync []]
    mirrorDump crc 3 ⟨rs.flatten, [2, 0, 5]⟩ = .ok rs := by
  refine (mirror_stream_faithful _ [.ioctl _, .message .sync []] ?_ [2, 0, 5]).2 3 (by decide)
  intro w hw
  rcases List.mem_pair.mp hw with rfl | rfl
  · refine ⟨⟨?_, ?_, ?_, ?_, ⟨.pass, ?_⟩, ?_, ?_⟩, .inr (.inr ?_)⟩ <;> decide
  · exact ⟨by decide, by decide, by decide, by decide⟩

end Lh1.Hammer.Mirror
