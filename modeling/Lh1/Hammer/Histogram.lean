/-
  Slices of a bulk mirror (`generate_histogram` and the slice control of
  `hammer_cmd_mirror_read` in cmd_mirror.c).

  `generate_histogram` counts bytes in 2^20 buckets over a TID range and joins buckets to slices
  of at least SplitupOpt bytes. mirror-read then transfers the slices one by one: the first begins
  with the range, each later one behind the end of the slice before. An empty slice ends the
  slicing. Arithmetic on TIDs and byte counts is modulo 2^64, as in the source. The optional begin
  TID and the cycle file, which mirror-read reads only without slices, are left out.

  * `generateHistogram_tids`: the boundaries stand at the cuts, which the records and SplitupOpt
    determine.
  * `slices_partition_iff`: when mirror-read can transfer the slices to the end.
-/
import Lh1.Hammer.Mrecord

namespace Lh1.Hammer.Mirror

/-! ## generate_histogram -/

def histCount : Nat := 1024 * 1024

/-- `struct histogram`. -/
structure Slice where
  tid : Nat
  bytes : Nat
  deriving DecidableEq, Repr

/-- What `generate_histogram` reads of a record of HAMMERIOC_MIRROR_READ. -/
structure MrecInfo where
  type : Nat
  recSize : Nat
  dataLen : Int
  createTid : Nat
  deleteTid : Nat
  deriving DecidableEq, Repr

inductive HistFault where
  | assert
  | fuel
  deriving DecidableEq, Repr

/-- `tid_beg + i * (tid_end - tid_beg) / HIST_COUNT`. -/
def boundary (tidBeg tidEnd i : Nat) : Nat :=
  (tidBeg + i * (tidEnd - tidBeg) % 2 ^ 64 / histCount) % 2 ^ 64

/-- The bucket of `tid`. A TID on a boundary belongs to the bucket before. -/
def bucket (tidBeg tidEnd tid : Nat) : Nat :=
  let i := (tid - tidBeg) * histCount % 2 ^ 64 / (tidEnd - tidBeg)
  if tid = boundary tidBeg tidEnd i ∧ i ≠ 0 then i - 1 else i

/-- `tid_bytes[i] += len` for a TID of the range. -/
def tally (tidBeg tidEnd tid : Nat) (len : Int) (tidBytes : Nat → Nat) :
    Except HistFault (Nat → Nat) :=
  let i := bucket tidBeg tidEnd tid
  if i < histCount then
    .ok (Function.update tidBytes i ((tidBytes i + len) % 2 ^ 64).toNat)
  else .error .assert

/-- `HAMMER_HEAD_DOALIGN` of a signed length. -/
def lenAlign (n : Int) : Int := (n + 7) / 8 * 8

/-- The deletion of a record does not carry its data. -/
def addDeletion (tidBeg tidEnd : Nat) (mrec : MrecInfo) (tidBytes : Nat → Nat) :
    Except HistFault (Nat → Nat) :=
  let tid := mrec.deleteTid
  if tid ≠ 0 ∧ tidBeg ≤ tid ∧ tid ≤ tidEnd then
    if mrec.type = RecType.record.code then
      let len := lenAlign mrec.recSize - lenAlign mrec.dataLen
      if len ≤ 0 then .error .assert else tally tidBeg tidEnd tid len tidBytes
    else tally tidBeg tidEnd tid (lenAlign mrec.recSize) tidBytes
  else .ok tidBytes

/-- `HAMMER_MREC_TYPE_REC_NODATA`. -/
def recNoData : Nat := 0x10000001

/-- The creation of a record counts the data that was left out of it. -/
def addCreation (tidBeg tidEnd : Nat) (mrec : MrecInfo) (tidBytes : Nat → Nat) :
    Except HistFault (Nat → Nat) :=
  let tid := mrec.createTid
  if tid ≠ 0 ∧ tidBeg ≤ tid ∧ tid ≤ tidEnd then
    let len :=
      if mrec.type = recNoData then lenAlign mrec.recSize + lenAlign mrec.dataLen
      else lenAlign mrec.recSize
    tally tidBeg tidEnd tid len tidBytes
  else .ok tidBytes

/-- One record of the prescan; only REC and PASS records count. -/
def addRecord (tidBeg tidEnd : Nat) (tidBytes : Nat → Nat) (mrec : MrecInfo) :
    Except HistFault (Nat → Nat) :=
  if typeLow mrec.type = RecType.record.code ∨ typeLow mrec.type = RecType.pass.code then
    match addDeletion tidBeg tidEnd mrec tidBytes with
    | .error e => .error e
    | .ok tidBytes => addCreation tidBeg tidEnd mrec tidBytes
  else .ok tidBytes

/-- `histogram_ary`, and the index of its last entry. -/
structure Hist where
  res : Nat
  ary : Nat → Slice

/-- One turn of the reduction: bucket `i` begins a new slice when the last one is full. -/
def Hist.reduceStep (splitupOpt tidBeg tidEnd : Nat) (tidBytes : Nat → Nat) (i : Nat) (h : Hist) :
    Hist :=
  let h : Hist :=
    if splitupOpt ≤ (h.ary h.res).bytes then
      ⟨h.res + 1, Function.update h.ary (h.res + 1) ⟨boundary tidBeg tidEnd i, 0⟩⟩
    else h
  ⟨h.res, Function.update h.ary h.res
    ⟨(h.ary h.res).tid, ((h.ary h.res).bytes + tidBytes i) % 2 ^ 64⟩⟩

/-- The reduction of the buckets up to `i`. -/
def reduce (splitupOpt tidBeg tidEnd : Nat) (tidBytes : Nat → Nat) (ary : Nat → Slice) :
    Nat → Hist
  | 0 => ⟨0, Function.update ary 0 ⟨tidBeg, tidBytes 0⟩⟩
  | i + 1 => (reduce splitupOpt tidBeg tidEnd tidBytes ary i).reduceStep splitupOpt tidBeg tidEnd
      tidBytes (i + 1)

/-- The last entry ends the range. -/
def Hist.close (h : Hist) (tidEnd : Nat) : Hist :=
  ⟨h.res + 1, Function.update h.ary (h.res + 1) ⟨tidEnd, 2 ^ 64 - 1⟩⟩

/-- `generate_histogram`, in the array of an earlier call. An empty range leaves it alone. -/
def generateHistogram (mrecs : List MrecInfo) (splitupOpt : Nat) (ary : Nat → Slice)
    (tidBeg tidEnd : Nat) : Except HistFault Hist :=
  if tidEnd ≤ tidBeg then .ok ⟨0, ary⟩
  else
    match mrecs.foldlM (addRecord tidBeg tidEnd) (fun _ => 0) with
    | .error e => .error e
    | .ok tidBytes =>
      let h := (reduce splitupOpt tidBeg tidEnd tidBytes ary (histCount - 1)).close tidEnd
      if h.res ≤ histCount then .ok h else .error .assert

/-! ## Slice control -/

/-- `streaming`: 0 for mirror-read, 1 for mirror-stream, and -1 for a mirror-read that has a
    histogram. -/
inductive Streaming where
  | read
  | stream
  | readSlices
  deriving DecidableEq, Repr

/-- The variables of `hammer_cmd_mirror_read` that live across rounds. -/
structure Control where
  streaming : Streaming
  histogram : Bool
  histindex : Nat
  histmax : Nat
  ary : Nat → Slice

/-- What the control reads of `struct hammer_pseudofs_data`. -/
structure Pfsd where
  syncBegTid : Nat
  syncEndTid : Nat
  deriving DecidableEq, Repr

/-- The default begin TID. In two-way mode the target says where it is. -/
def Control.beginTid (c : Control) (target : Option Nat) : Nat :=
  match target with
  | some syncEnd => (syncEnd + 1) % 2 ^ 64
  | none =>
    if c.streaming ≠ .read ∧ c.histogram then ((c.ary c.histindex).tid + 1) % 2 ^ 64 else 0

/-- "Initial bulk startup control". -/
def Control.bulkStartup (c : Control) (bulkOpt : Bool)
    (generate : (Nat → Slice) → Nat → Nat → Except HistFault Hist) (tidBeg tidEnd : Nat) :
    Except HistFault Control :=
  if c.histogram = false ∧ bulkOpt = false then
    match generate c.ary tidBeg tidEnd with
    | .error e => .error e
    | .ok h =>
      .ok ⟨if c.streaming = .read then .readSlices else c.streaming, true, 0, h.res, h.ary⟩
  else .ok c

/-- The end TID of the next slice, or of the whole range without slices. -/
def Control.nextSlice (c : Control) (tidEnd : Nat) : Control × Nat :=
  if c.streaming ≠ .read ∧ c.histogram then
    ({ c with histindex := c.histindex + 1 }, (c.ary (c.histindex + 1)).tid)
  else (c, tidEnd)

/-- Slice selection: the TID range of the next round. -/
def Control.select (c : Control) (bulkOpt : Bool)
    (generate : (Nat → Slice) → Nat → Nat → Except HistFault Hist) (target : Option Nat)
    (pfsd : Pfsd) : Except HistFault (Control × Nat × Nat) :=
  let tidBeg := max (c.beginTid target) pfsd.syncBegTid
  match c.bulkStartup bulkOpt generate tidBeg pfsd.syncEndTid with
  | .error e => .error e
  | .ok c => .ok ((c.nextSlice pfsd.syncEndTid).1, tidBeg, (c.nextSlice pfsd.syncEndTid).2)

/-- "Nothing to do if begin equals end": the control behind the test, and `didwork`. -/
def Control.settle (c : Control) (tidBeg tidEnd : Nat) : Control × Bool :=
  if tidEnd ≤ tidBeg then ({ c with histogram := false }, false) else (c, true)

inductive Next where
  | again
  | wait
  | finish
  deriving DecidableEq, Repr

/-- Slice advance, after a round that was not interrupted. -/
def Control.advance (c : Control) : Next :=
  if c.streaming = .read then .finish
  else if c.histogram ∧ c.histindex ≠ c.histmax then .again
  else if c.streaming = .readSlices then .finish
  else .wait

/-- A round; it is ended by SYNC when there was something to do, and by IDLE otherwise. -/
structure Round where
  tidBeg : Nat
  tidEnd : Nat
  didwork : Bool
  deriving DecidableEq, Repr

/-- The rounds of a mirror-read that reports success, from the control `c` and the synced TID of
    the target. -/
def mirrorRead (twoWay : Bool) (mrecs : List MrecInfo) (splitupOpt : Nat) (pfsd : Pfsd) :
    Nat → Control → Nat → Except HistFault (List Round)
  | 0, _, _ => .error .fuel
  | fuel + 1, c, syncEnd =>
    match c.select false (generateHistogram mrecs splitupOpt)
      (if twoWay then some syncEnd else none) pfsd with
    | .error e => .error e
    | .ok (c, tidBeg, tidEnd) =>
      let (c, didwork) := c.settle tidBeg tidEnd
      if c.advance = .again then
        match mirrorRead twoWay mrecs splitupOpt pfsd fuel c
          (if didwork then tidEnd else syncEnd) with
        | .error e => .error e
        | .ok rounds => .ok (⟨tidBeg, tidEnd, didwork⟩ :: rounds)
      else .ok [⟨tidBeg, tidEnd, didwork⟩]

/-- The control `hammer_cmd_mirror_read` starts with. -/
def Control.init (streaming : Streaming) : Control := ⟨streaming, false, 0, 0, fun _ => ⟨0, 0⟩⟩

/-- The first TID mirror-read asks for. -/
def firstTid (twoWay : Bool) (pfsd : Pfsd) (syncEnd : Nat) : Nat :=
  max ((Control.init .read).beginTid (if twoWay then some syncEnd else none)) pfsd.syncBegTid

/-! ## Boundaries -/

section

variable {tidBeg tidEnd : Nat}

variable {h : Hist} {fuel i k n : Nat}

section

variable (hlt : tidBeg < tidEnd) (hend : tidEnd < 2 ^ 64)
include hlt hend

theorem boundary_eq (hi : i ≤ histCount) :
    boundary tidBeg tidEnd i = tidBeg + i * (tidEnd - tidBeg) % 2 ^ 64 / histCount := by
  have hmul : i * (tidEnd - tidBeg) ≤ histCount * (tidEnd - tidBeg) := Nat.mul_le_mul_right _ hi
  have hmod := Nat.mod_le (i * (tidEnd - tidBeg)) (2 ^ 64)
  simp only [boundary, histCount] at *
  omega

theorem boundary_zero : boundary tidBeg tidEnd 0 = tidBeg := by
  rw [boundary_eq hlt hend (Nat.zero_le _), Nat.zero_mul, Nat.zero_mod, Nat.zero_div, Nat.add_zero]

/-- A TID of the range has a bucket: the assertions on the index hold. -/
theorem bucket_lt {tid : Nat} (h : tidBeg ≤ tid ∧ tid ≤ tidEnd) :
    bucket tidBeg tidEnd tid < histCount := by
  obtain ⟨d, rfl⟩ : ∃ d, tid = tidBeg + d := ⟨tid - tidBeg, by omega⟩
  obtain ⟨r, hr⟩ : ∃ r, tidEnd - tidBeg = r := ⟨_, rfl⟩
  obtain ⟨q, hq⟩ : ∃ q, d * histCount % 2 ^ 64 / r = q := ⟨_, rfl⟩
  have hdr : d ≤ r := by omega
  have hpos : 0 < r := by omega
  have hle : q ≤ histCount := by
    rw [← hq]
    apply Nat.div_le_of_le_mul
    calc d * histCount % 2 ^ 64 ≤ d * histCount := Nat.mod_le _ _
      _ ≤ r * histCount := Nat.mul_le_mul_right _ hdr
  have hb : bucket tidBeg tidEnd (tidBeg + d)
      = if tidBeg + d = boundary tidBeg tidEnd q ∧ q ≠ 0 then q - 1 else q := by
    rw [bucket, Nat.add_sub_cancel_left, hr, hq]
  rcases Nat.lt_or_ge q histCount with hlt' | hge
  · rw [hb]
    split <;> omega
  · -- the last index belongs to the end of the range alone, which is a boundary
    have hqn : q = histCount := by omega
    have hmul : q * r ≤ d * histCount % 2 ^ 64 := by
      rw [← hq]
      exact Nat.div_mul_le_self _ _
    rw [hqn] at hmul
    have hmod := Nat.mod_le (d * histCount) (2 ^ 64)
    have hmod' := Nat.mod_lt (d * histCount) (show 2 ^ 64 > 0 by decide)
    have hd : d = r := by
      simp only [histCount] at hmul hmod
      omega
    have hbound : tidBeg + d = boundary tidBeg tidEnd q := by
      rw [hqn, boundary_eq hlt hend (le_refl _), hr, hd]
      simp only [histCount] at *
      omega
    rw [hb, if_pos ⟨hbound, by rw [hqn]; decide⟩, hqn]
    decide

/-- A B-Tree record is longer than its data. -/
def MrecInfo.Sized (mrec : MrecInfo) : Prop :=
  mrec.type = RecType.record.code → 0 < lenAlign mrec.recSize - lenAlign mrec.dataLen

theorem tally_ok {tid : Nat} (h : tidBeg ≤ tid ∧ tid ≤ tidEnd) (len : Int) (tidBytes : Nat → Nat) :
    ∃ tidBytes', tally tidBeg tidEnd tid len tidBytes = .ok tidBytes' :=
  ⟨_, if_pos (bucket_lt hlt hend h)⟩

theorem addDeletion_ok {mrec : MrecInfo} (hm : mrec.Sized) (tidBytes : Nat → Nat) :
    ∃ tidBytes', addDeletion tidBeg tidEnd mrec tidBytes = .ok tidBytes' := by
  by_cases hin : mrec.deleteTid ≠ 0 ∧ tidBeg ≤ mrec.deleteTid ∧ mrec.deleteTid ≤ tidEnd
  · rw [addDeletion, if_pos hin]
    by_cases htype : mrec.type = RecType.record.code
    · rw [if_pos htype, if_neg (not_le.mpr (hm htype))]
      exact tally_ok hlt hend hin.2 _ _
    · rw [if_neg htype]
      exact tally_ok hlt hend hin.2 _ _
  · exact ⟨tidBytes, if_neg hin⟩

theorem addCreation_ok (mrec : MrecInfo) (tidBytes : Nat → Nat) :
    ∃ tidBytes', addCreation tidBeg tidEnd mrec tidBytes = .ok tidBytes' := by
  by_cases hin : mrec.createTid ≠ 0 ∧ tidBeg ≤ mrec.createTid ∧ mrec.createTid ≤ tidEnd
  · rw [addCreation, if_pos hin]
    exact tally_ok hlt hend hin.2 _ _
  · exact ⟨tidBytes, if_neg hin⟩

theorem addRecord_ok {mrec : MrecInfo} (hm : mrec.Sized) (tidBytes : Nat → Nat) :
    ∃ tidBytes', addRecord tidBeg tidEnd tidBytes mrec = .ok tidBytes' := by
  rw [addRecord]
  split
  · obtain ⟨b, hb⟩ := addDeletion_ok hlt hend hm tidBytes
    rw [hb]
    exact addCreation_ok hlt hend mrec b
  · exact ⟨tidBytes, rfl⟩

/-- `generate_histogram` gets through its assertions. -/
theorem foldlM_addRecord_ok {mrecs : List MrecInfo} (hm : ∀ mrec ∈ mrecs, mrec.Sized)
    (tidBytes : Nat → Nat) :
    ∃ tidBytes', mrecs.foldlM (addRecord tidBeg tidEnd) tidBytes = .ok tidBytes' := by
  induction mrecs generalizing tidBytes with
  | nil => exact ⟨tidBytes, rfl⟩
  | cons mrec mrecs ih =>
    obtain ⟨b, hb⟩ := addRecord_ok hlt hend (hm mrec List.mem_cons_self) tidBytes
    obtain ⟨b', hb'⟩ := ih (fun m h => hm m (List.mem_cons_of_mem _ h)) b
    exact ⟨b', by rw [List.foldlM_cons, hb]; exact hb'⟩

end

/-! ## Cuts -/

/-- The bytes of the last slice, behind the bucket `n`. -/
def sliceBytes (splitupOpt : Nat) (tidBytes : Nat → Nat) : Nat → Nat
  | 0 => tidBytes 0
  | n + 1 =>
    let bytes := sliceBytes splitupOpt tidBytes n
    ((if splitupOpt ≤ bytes then 0 else bytes) + tidBytes (n + 1)) % 2 ^ 64

/-- The buckets up to `n` that begin a slice, since the one before them has made the last slice
    full. -/
def cutsUpTo (splitupOpt : Nat) (tidBytes : Nat → Nat) (n : Nat) : List Nat :=
  ((List.range n).filter fun i => splitupOpt ≤ sliceBytes splitupOpt tidBytes i).map (· + 1)

/-- The bytes that the prescan counts in the buckets of a TID range. -/
def prescan (mrecs : List MrecInfo) (tidBeg tidEnd : Nat) : Nat → Nat :=
  match mrecs.foldlM (addRecord tidBeg tidEnd) (fun _ => 0) with
  | .error _ => fun _ => 0
  | .ok tidBytes => tidBytes

/-- The buckets of a TID range that begin a slice but for the first, with these records. -/
def cuts (mrecs : List MrecInfo) (splitupOpt tidBeg tidEnd : Nat) : List Nat :=
  cutsUpTo splitupOpt (prescan mrecs tidBeg tidEnd) (histCount - 1)

variable {splitupOpt : Nat} {tidBytes : Nat → Nat} {ary : Nat → Slice}

theorem cuts_eq {mrecs : List MrecInfo}
    (hrecs : mrecs.foldlM (addRecord tidBeg tidEnd) (fun _ => 0) = .ok tidBytes) :
    cuts mrecs splitupOpt tidBeg tidEnd = cutsUpTo splitupOpt tidBytes (histCount - 1) := by
  have hbytes : prescan mrecs tidBeg tidEnd = tidBytes := by
    rw [prescan, hrecs]
  rw [cuts, hbytes]

theorem cutsUpTo_succ (splitupOpt : Nat) (tidBytes : Nat → Nat) (n : Nat) :
    cutsUpTo splitupOpt tidBytes (n + 1) = cutsUpTo splitupOpt tidBytes n ++
      if splitupOpt ≤ sliceBytes splitupOpt tidBytes n then [n + 1] else [] := by
  rw [cutsUpTo, List.range_succ, List.filter_append, List.map_append, ← cutsUpTo]
  split_ifs with hfull
  · rw [List.filter_singleton, decide_eq_true hfull, cond_true, List.map_singleton]
  · rw [List.filter_singleton, decide_eq_false hfull, cond_false, List.map_nil]

theorem mem_cutsUpTo (hi : i ∈ cutsUpTo splitupOpt tidBytes n) : 0 < i ∧ i ≤ n := by
  obtain ⟨j, hj, rfl⟩ := List.mem_map.mp hi
  exact ⟨Nat.succ_pos j, List.mem_range.mp (List.mem_filter.mp hj).1⟩

theorem length_cutsUpTo_le (splitupOpt : Nat) (tidBytes : Nat → Nat) (n : Nat) :
    (cutsUpTo splitupOpt tidBytes n).length ≤ n := by
  rw [cutsUpTo, List.length_map]
  exact (List.length_filter_le _ _).trans (List.length_range).le

/-- With no bytes asked for, every bucket begins a slice. -/
theorem cutsUpTo_zero (tidBytes : Nat → Nat) (n : Nat) :
    cutsUpTo 0 tidBytes n = (List.range n).map (· + 1) := by
  rw [cutsUpTo, List.filter_eq_self.mpr fun _ _ => decide_eq_true (Nat.zero_le _)]

/-- Without records no slice is ever full. -/
theorem cutsUpTo_empty (hpos : 0 < splitupOpt) (n : Nat) :
    cutsUpTo splitupOpt (fun _ => 0) n = [] := by
  have hbytes : ∀ i, sliceBytes splitupOpt (fun _ => 0) i = 0 := by
    intro i
    induction i with
    | zero => rfl
    | succ i ih => simp [sliceBytes, ih]
  rw [cutsUpTo, List.filter_eq_nil_iff.mpr, List.map_nil]
  intro i _
  rw [hbytes, decide_eq_true_iff]
  exact not_le.mpr hpos

/-! ## The entries of the reduction -/

/-- The TIDs of the entries. -/
def Hist.tids (h : Hist) : List Nat := (List.range (h.res + 1)).map fun k => (h.ary k).tid

theorem Hist.tids_push (ary : Nat → Slice) (n : Nat) (x : Slice) :
    Hist.tids ⟨n + 1, Function.update ary (n + 1) x⟩ = Hist.tids ⟨n, ary⟩ ++ [x.tid] := by
  unfold Hist.tids
  dsimp only
  rw [List.range_succ, List.map_append, List.map_singleton, Function.update_self]
  congr 1
  apply List.map_congr_left
  intro k hk
  rw [Function.update_of_ne (List.mem_range.mp hk).ne]

theorem Hist.tids_bytes (h : Hist) (bytes : Nat) :
    Hist.tids ⟨h.res, Function.update h.ary h.res ⟨(h.ary h.res).tid, bytes⟩⟩ = h.tids := by
  apply List.map_congr_left
  intro k _
  dsimp only
  rcases eq_or_ne k h.res with rfl | hne
  · rw [Function.update_self]
  · rw [Function.update_of_ne hne]

theorem reduceStep_full (hfull : splitupOpt ≤ (h.ary h.res).bytes) (i : Nat) :
    h.reduceStep splitupOpt tidBeg tidEnd tidBytes i = ⟨h.res + 1, Function.update h.ary (h.res + 1)
      ⟨boundary tidBeg tidEnd i, tidBytes i % 2 ^ 64⟩⟩ := by
  simp only [Hist.reduceStep, if_pos hfull, Function.update_self, Function.update_idem, Nat.zero_add]

theorem reduceStep_open (hopen : ¬ splitupOpt ≤ (h.ary h.res).bytes) (i : Nat) :
    h.reduceStep splitupOpt tidBeg tidEnd tidBytes i = ⟨h.res, Function.update h.ary h.res
      ⟨(h.ary h.res).tid, ((h.ary h.res).bytes + tidBytes i) % 2 ^ 64⟩⟩ := by
  simp only [Hist.reduceStep, if_neg hopen]

/-- The reduction puts the boundaries of the cuts into its entries. -/
theorem reduce_tids (hlt : tidBeg < tidEnd) (hend : tidEnd < 2 ^ 64) (n : Nat) :
    (reduce splitupOpt tidBeg tidEnd tidBytes ary n).tids =
        (0 :: cutsUpTo splitupOpt tidBytes n).map (boundary tidBeg tidEnd) ∧
      ((reduce splitupOpt tidBeg tidEnd tidBytes ary n).ary
        (reduce splitupOpt tidBeg tidEnd tidBytes ary n).res).bytes =
        sliceBytes splitupOpt tidBytes n := by
  induction n with
  | zero =>
    constructor
    · simp [reduce, Hist.tids, cutsUpTo, boundary_zero hlt hend]
    · simp [reduce, sliceBytes]
  | succ n ih =>
    obtain ⟨htids, hbytes⟩ := ih
    rw [reduce, cutsUpTo_succ, sliceBytes]
    by_cases hfull : splitupOpt ≤ sliceBytes splitupOpt tidBytes n
    · rw [reduceStep_full (by rwa [hbytes]), if_pos hfull, if_pos hfull, Nat.zero_add]
      constructor
      · rw [Hist.tids_push, htids, ← List.cons_append, List.map_append, List.map_singleton]
      · dsimp only
        rw [Function.update_self]
    · rw [reduceStep_open (by rwa [hbytes]), if_neg hfull, if_neg hfull, List.append_nil]
      constructor
      · rw [Hist.tids_bytes, htids]
      · dsimp only
        rw [Function.update_self, hbytes]

theorem Hist.length_tids (h : Hist) : h.tids.length = h.res + 1 := by
  rw [Hist.tids, List.length_map, List.length_range]

@[simp] theorem Hist.close_res (h : Hist) (tidEnd : Nat) : (h.close tidEnd).res = h.res + 1 := rfl

theorem Hist.close_ary (h : Hist) (tidEnd : Nat) (hk : k ≤ h.res) :
    (h.close tidEnd).ary k = h.ary k :=
  Function.update_of_ne (by omega) _ _

/-- Where a boundary is in a TID range, for the bucket `i`. -/
def offset (range i : Nat) : Nat := i * range % 2 ^ 64 / histCount

section

variable (hlt : tidBeg < tidEnd) (hend : tidEnd < 2 ^ 64)
include hlt hend

/-- The assertion on the number of slices holds. -/
theorem reduce_close_res_le :
    ((reduce splitupOpt tidBeg tidEnd tidBytes ary (histCount - 1)).close tidEnd).res ≤
      histCount := by
  have htids := (@reduce_tids _ _ splitupOpt tidBytes ary hlt hend (histCount - 1)).1
  have hres := congrArg List.length htids
  rw [Hist.length_tids, List.length_map, List.length_cons] at hres
  have hle := length_cutsUpTo_le splitupOpt tidBytes (histCount - 1)
  rw [Hist.close_res, hres]
  exact Nat.succ_le_succ hle

theorem generateHistogram_eq {mrecs : List MrecInfo}
    (hrecs : mrecs.foldlM (addRecord tidBeg tidEnd) (fun _ => 0) = .ok tidBytes) :
    generateHistogram mrecs splitupOpt ary tidBeg tidEnd
      = .ok ((reduce splitupOpt tidBeg tidEnd tidBytes ary (histCount - 1)).close tidEnd) := by
  rw [generateHistogram, if_neg (not_le.mpr hlt), hrecs]
  dsimp only
  rw [if_pos (reduce_close_res_le hlt hend)]

/-- What `generate_histogram` returns for a range that is not empty. -/
theorem generateHistogram_tids {mrecs : List MrecInfo} (hm : ∀ mrec ∈ mrecs, mrec.Sized) :
    ∃ h, generateHistogram mrecs splitupOpt ary tidBeg tidEnd = .ok h ∧ h.res ≤ histCount ∧
      h.tids = tidBeg :: ((cuts mrecs splitupOpt tidBeg tidEnd).map (offset (tidEnd - tidBeg)) ++
        [tidEnd - tidBeg]).map (tidBeg + ·) := by
  obtain ⟨tidBytes, hrecs⟩ := foldlM_addRecord_ok hlt hend hm fun _ => 0
  refine ⟨_, generateHistogram_eq hlt hend hrecs, reduce_close_res_le hlt hend, ?_⟩
  have htids := (@reduce_tids _ _ splitupOpt tidBytes ary hlt hend (histCount - 1)).1
  have hcuts : (cutsUpTo splitupOpt tidBytes (histCount - 1)).map (boundary tidBeg tidEnd) =
      ((cutsUpTo splitupOpt tidBytes (histCount - 1)).map (offset (tidEnd - tidBeg))).map
        (tidBeg + ·) := by
    rw [List.map_map]
    apply List.map_congr_left
    intro i hi
    exact boundary_eq hlt hend ((mem_cutsUpTo hi).2.trans (Nat.sub_le _ _))
  rw [Hist.close, Hist.tids_push, htids, cuts_eq hrecs, List.map_cons, boundary_zero hlt hend,
    hcuts, List.map_append, List.map_singleton, Nat.add_sub_cancel' hlt.le, List.cons_append]

end

/-! ## Entries -/

/-- No boundary is behind the end of the range. -/
theorem boundary_le (hlt : tidBeg < tidEnd) (hend : tidEnd < 2 ^ 64) (hi : i ≤ histCount) :
    boundary tidBeg tidEnd i ≤ tidEnd := by
  have hmul : i * (tidEnd - tidBeg) ≤ histCount * (tidEnd - tidBeg) := Nat.mul_le_mul_right _ hi
  have hdiv := Nat.div_le_div_right (c := histCount)
    ((Nat.mod_le (i * (tidEnd - tidBeg)) (2 ^ 64)).trans hmul)
  rw [Nat.mul_div_cancel_left _ (by decide)] at hdiv
  rw [boundary_eq hlt hend hi]
  omega

theorem update_tid_le {x : Slice} (hary : ∀ k, (ary k).tid ≤ tidEnd) (hx : x.tid ≤ tidEnd) :
    (Function.update ary i x k).tid ≤ tidEnd := by
  rcases eq_or_ne k i with rfl | hne
  · rw [Function.update_self]
    exact hx
  · rw [Function.update_of_ne hne]
    exact hary k

theorem reduce_le (hlt : tidBeg < tidEnd) (hend : tidEnd < 2 ^ 64)
    (hary : ∀ k, (ary k).tid ≤ tidEnd) (hn : n ≤ histCount) (k : Nat) :
    ((reduce splitupOpt tidBeg tidEnd tidBytes ary n).ary k).tid ≤ tidEnd := by
  induction n generalizing k with
  | zero => exact update_tid_le hary hlt.le
  | succ n ih =>
    have hprev := ih (by omega)
    rw [reduce, Hist.reduceStep]
    split
    · have hnew := fun k => update_tid_le (k := k) (i := (reduce splitupOpt tidBeg tidEnd tidBytes
        ary n).res + 1) (x := ⟨boundary tidBeg tidEnd (n + 1), 0⟩) hprev (boundary_le hlt hend hn)
      exact update_tid_le hnew (hnew _)
    · exact update_tid_le hprev (hprev _)

theorem generateHistogram_le {mrecs : List MrecInfo} (hend : tidEnd < 2 ^ 64)
    (hary : ∀ k, (ary k).tid ≤ tidEnd)
    (hgen : generateHistogram mrecs splitupOpt ary tidBeg tidEnd = .ok h) (k : Nat) :
    (h.ary k).tid ≤ tidEnd := by
  by_cases hempty : tidEnd ≤ tidBeg
  · rw [generateHistogram, if_pos hempty] at hgen
    cases hgen
    exact hary k
  have hlt := not_le.mp hempty
  cases hrecs : mrecs.foldlM (addRecord tidBeg tidEnd) (fun _ => 0) with
  | error e =>
    rw [generateHistogram, if_neg hempty, hrecs] at hgen
    cases hgen
  | ok tidBytes =>
    rw [generateHistogram_eq hlt hend hrecs] at hgen
    cases hgen
    exact update_tid_le (reduce_le hlt hend hary (Nat.sub_le _ _)) (le_refl _)

theorem Control.bulkStartup_le (c : Control) {d : Control} {bulkOpt : Bool}
    {mrecs : List MrecInfo} (hend : tidEnd < 2 ^ 64) (hary : ∀ k, (c.ary k).tid ≤ tidEnd)
    (h : c.bulkStartup bulkOpt (generateHistogram mrecs splitupOpt) tidBeg tidEnd = .ok d)
    (k : Nat) : (d.ary k).tid ≤ tidEnd := by
  rw [Control.bulkStartup] at h
  split at h
  · cases hgen : generateHistogram mrecs splitupOpt c.ary tidBeg tidEnd with
    | error e => rw [hgen] at h; cases h
    | ok g =>
      rw [hgen] at h
      cases h
      exact generateHistogram_le hend hary hgen k
  · cases h
    exact hary k

/-! ## Gaps -/

/-- The slices that begin at the buckets `cuts` of a TID range can be transferred one by one: the
    first one has more than its begin TID, and each later one, which begins behind the end of the
    one before, is not empty either. -/
structure Spaced (range : Nat) (cuts : List Nat) : Prop where
  first : ∀ i ∈ cuts.head?, 0 < offset range i
  gaps : (cuts.map (offset range) ++ [range]).IsChain fun a b => a + 1 < b

/-! ## Walking the slices -/

variable {twoWay : Bool} {mrecs : List MrecInfo} {pfsd : Pfsd}

/-- Behind a slice the next one begins, whichever side remembers where. -/
theorem select_slice {m : Nat} (hbeg : pfsd.syncBegTid ≤ (ary k).tid)
    (hmax : (ary k).tid + 1 < 2 ^ 64) (generate) :
    Control.select ⟨.readSlices, true, k, m, ary⟩ false generate
        (if twoWay then some (ary k).tid else none) pfsd
      = .ok (⟨.readSlices, true, k + 1, m, ary⟩, (ary k).tid + 1, (ary (k + 1)).tid) := by
  have hb : Control.beginTid ⟨.readSlices, true, k, m, ary⟩
      (if twoWay then some (ary k).tid else none) = (ary k).tid + 1 := by
    cases twoWay <;> simp [Control.beginTid] <;> exact hmax
  have hm : max ((ary k).tid + 1) pfsd.syncBegTid = (ary k).tid + 1 := by omega
  simp [Control.select, Control.bulkStartup, Control.nextSlice, hb, hm]

/-- A round with slices. One that is empty ends them. -/
theorem mirrorRead_round {c : Control} {m syncEnd : Nat}
    (hsel : c.select false (generateHistogram mrecs splitupOpt)
      (if twoWay then some syncEnd else none) pfsd
        = .ok (⟨.readSlices, true, k, m, ary⟩, tidBeg, tidEnd)) :
    mirrorRead twoWay mrecs splitupOpt pfsd (fuel + 1) c syncEnd
      = if tidBeg < tidEnd then
          if k = m then .ok [⟨tidBeg, tidEnd, true⟩]
          else match mirrorRead twoWay mrecs splitupOpt pfsd fuel ⟨.readSlices, true, k, m, ary⟩
              tidEnd with
            | .error e => .error e
            | .ok rounds => .ok (⟨tidBeg, tidEnd, true⟩ :: rounds)
        else .ok [⟨tidBeg, tidEnd, false⟩] := by
  rw [mirrorRead, hsel]
  by_cases hgap : tidBeg < tidEnd
  · simp only [Control.settle, if_pos hgap, if_neg (not_le.mpr hgap)]
    by_cases hm : k = m <;> simp [Control.advance, hm]
  · simp [Control.settle, Control.advance, hgap, not_lt.mp hgap]

/-- The rounds that are left when `k` of the `m` slices are done. -/
theorem mirrorRead_complete {m : Nat} (hk : k < m) (hfuel : m - k ≤ fuel)
    (hary : ∀ j < m, pfsd.syncBegTid ≤ (ary j).tid ∧ (ary j).tid + 1 < 2 ^ 64)
    (hgap : ∀ j, k ≤ j → j < m → (ary j).tid + 1 < (ary (j + 1)).tid) :
    ∃ rounds r, mirrorRead twoWay mrecs splitupOpt pfsd fuel ⟨.readSlices, true, k, m, ary⟩
        (ary k).tid = .ok rounds ∧ (∀ r ∈ rounds, r.didwork) ∧ rounds.getLast? = some r ∧
      r.tidEnd = (ary m).tid := by
  induction fuel generalizing k with
  | zero => omega
  | succ fuel ih =>
    obtain ⟨hbeg, hmax⟩ := hary k hk
    rw [mirrorRead_round (select_slice hbeg hmax _), if_pos (hgap k (le_refl _) hk)]
    rcases eq_or_ne (k + 1) m with rfl | hne
    · rw [if_pos rfl]
      exact ⟨_, _, rfl, by simp, rfl, rfl⟩
    · obtain ⟨rounds, r, hread, hwork, hlast, hend⟩ :=
        ih (k := k + 1) (by omega) (by omega) fun j hj => hgap j (by omega)
      rw [if_neg hne, hread]
      refine ⟨_, r, rfl, ?_, ?_, hend⟩
      · exact List.forall_mem_cons.mpr ⟨rfl, hwork⟩
      · rw [List.getLast?_cons, hlast]
        rfl

theorem mirrorRead_gaps {m : Nat} {rounds : List Round}
    (hary : ∀ j < m, pfsd.syncBegTid ≤ (ary j).tid ∧ (ary j).tid + 1 < 2 ^ 64)
    (hread : mirrorRead twoWay mrecs splitupOpt pfsd fuel ⟨.readSlices, true, k, m, ary⟩
      (ary k).tid = .ok rounds) (hwork : ∀ r ∈ rounds, r.didwork) {j : Nat} (hj : k ≤ j)
    (hm : j < m) : (ary j).tid + 1 < (ary (j + 1)).tid := by
  induction fuel generalizing k rounds with
  | zero => cases hread
  | succ fuel ih =>
    obtain ⟨hbeg, hmax⟩ := hary k (by omega)
    rw [mirrorRead_round (select_slice hbeg hmax _)] at hread
    by_cases hgap : (ary k).tid + 1 < (ary (k + 1)).tid
    · rcases eq_or_ne j k with rfl | hne
      · exact hgap
      rw [if_pos hgap, if_neg (by omega)] at hread
      split at hread
      · cases hread
      · rename_i rounds' hread'
        cases hread
        exact ih hread' (fun r hr => hwork r (List.mem_cons_of_mem _ hr)) (by omega)
    · rw [if_neg hgap] at hread
      cases hread
      exact absurd (hwork _ List.mem_cons_self) (by simp)

theorem select_first {syncEnd : Nat}
    (hgen : generateHistogram mrecs splitupOpt (fun _ => ⟨0, 0⟩) (firstTid twoWay pfsd syncEnd)
      pfsd.syncEndTid = .ok h) :
    (Control.init .read).select false (generateHistogram mrecs splitupOpt)
        (if twoWay then some syncEnd else none) pfsd
      = .ok (⟨.readSlices, true, 1, h.res, h.ary⟩, firstTid twoWay pfsd syncEnd,
        (h.ary 1).tid) := by
  rw [Control.select, ← firstTid]
  simp [Control.bulkStartup, Control.nextSlice, Control.init, hgen]

/-! ## The ranges that are partitioned -/

/-- The slices are a partition of the range. -/
structure Partition (h : Hist) (tidBeg tidEnd : Nat) : Prop where
  first : (h.ary 0).tid = tidBeg
  step : ∀ k < h.res, (h.ary k).tid < (h.ary (k + 1)).tid
  last : (h.ary h.res).tid = tidEnd

theorem Partition.mono (hp : Partition h tidBeg tidEnd) {j : Nat} (hjk : j ≤ k) (hk : k ≤ h.res) :
    (h.ary j).tid ≤ (h.ary k).tid := by
  induction k, hjk using Nat.le_induction with
  | base => exact le_refl _
  | succ k _ ih => exact (ih (by omega)).trans (hp.step k (by omega)).le

theorem Partition.bounds {syncBeg : Nat} (hp : Partition h tidBeg tidEnd) (hbeg : syncBeg ≤ tidBeg)
    (hend : tidEnd < 2 ^ 64) {j : Nat} (hj : j < h.res) :
    syncBeg ≤ (h.ary j).tid ∧ (h.ary j).tid + 1 < 2 ^ 64 := by
  have h0 := hp.mono (Nat.zero_le j) hj.le
  have h1 := hp.step j hj
  have h2 := hp.mono (show j + 1 ≤ h.res from hj) (le_refl _)
  rw [hp.first] at h0
  rw [hp.last] at h2
  omega

/-- mirror-read meets no empty slice, and succeeds with a SYNC at the end of the range. -/
def Streams (twoWay : Bool) (mrecs : List MrecInfo) (splitupOpt : Nat) (pfsd : Pfsd)
    (syncEnd : Nat) : Prop :=
  ∃ rounds r, mirrorRead twoWay mrecs splitupOpt pfsd (histCount + 1) (Control.init .read) syncEnd
    = .ok rounds ∧ (∀ r ∈ rounds, r.didwork) ∧ rounds.getLast? = some r ∧
      r.tidEnd = pfsd.syncEndTid

/-- The entries of a histogram that ends a range, as a partition. -/
theorem Hist.tids_spaced {cuts : List Nat} (hlt : tidBeg < tidEnd)
    (htids : h.tids = tidBeg :: (cuts.map (offset (tidEnd - tidBeg)) ++ [tidEnd - tidBeg]).map
      (tidBeg + ·)) :
    0 < h.res ∧ (h.ary 0).tid = tidBeg ∧ (h.ary h.res).tid = tidEnd ∧
      (tidBeg < (h.ary 1).tid ∧
        (∀ k, 0 < k → k < h.res → (h.ary k).tid + 1 < (h.ary (k + 1)).tid) ↔
      Spaced (tidEnd - tidBeg) cuts) := by
  obtain ⟨res, ary⟩ := h
  have hlen : res = cuts.length + 1 := by
    have := congrArg List.length htids
    simp only [Hist.length_tids, List.length_cons, List.length_map, List.length_append,
      List.length_nil] at this
    omega
  subst hlen
  unfold Hist.tids at htids
  dsimp only at htids ⊢
  rw [List.range_succ_eq_map, List.map_cons, List.map_map, List.cons.injEq] at htids
  obtain ⟨hfirst, hrest⟩ := htids
  have hlast : (ary (cuts.length + 1)).tid = tidEnd := by
    have := congrArg List.getLast? hrest
    simp only [List.range_succ, List.map_append, List.map_cons, List.map_nil,
      List.getLast?_append, List.getLast?_singleton, Option.some_or, Option.some.injEq,
      Function.comp_apply, Nat.succ_eq_add_one] at this
    omega
  refine ⟨Nat.succ_pos _, hfirst, hlast, ?_⟩
  have hone : tidBeg < (ary 1).tid ↔ ∀ i ∈ cuts.head?, 0 < offset (tidEnd - tidBeg) i := by
    cases cuts with
    | nil =>
      rw [List.length_nil] at hlast
      simp [hlast, hlt]
    | cons i cuts =>
      have := congrArg List.head? hrest
      simp only [List.length_cons, List.range_succ_eq_map, List.map_cons, List.head?_cons,
        List.cons_append, Option.some.injEq, Function.comp_apply] at this
      simp [this]
  have hgaps : (∀ k, 0 < k → k < cuts.length + 1 → (ary k).tid + 1 < (ary (k + 1)).tid) ↔
      (cuts.map (offset (tidEnd - tidBeg)) ++ [tidEnd - tidBeg]).IsChain fun a b => a + 1 < b := by
    have hmap := congrArg (List.IsChain fun a b => a + 1 < b) hrest
    rw [List.isChain_map, List.isChain_map, List.isChain_range_succ] at hmap
    have hshift : ∀ a b, tidBeg + a + 1 < tidBeg + b ↔ a + 1 < b := fun a b => by omega
    simp only [hshift] at hmap
    rw [← hmap]
    constructor
    · intro hgap k hk
      exact hgap (k + 1) (Nat.succ_pos _) (by omega)
    · intro hgap k h0 hk
      obtain ⟨k, rfl⟩ : ∃ j, k = j + 1 := ⟨k - 1, by omega⟩
      exact hgap k (by omega)
  rw [hone, hgaps]
  exact ⟨fun h => ⟨h.1, h.2⟩, fun h => ⟨h.first, h.gaps⟩⟩

end

section

variable {twoWay : Bool} {pfsd : Pfsd} {syncEnd splitupOpt : Nat} {mrecs : List MrecInfo} {h : Hist}

/-- What it takes to walk the slices to the end. -/
theorem streams_iff
    (hgen : generateHistogram mrecs splitupOpt (fun _ => ⟨0, 0⟩) (firstTid twoWay pfsd syncEnd)
      pfsd.syncEndTid = .ok h) (hpos : 0 < h.res) (hres : h.res ≤ histCount)
    (hp : Partition h (firstTid twoWay pfsd syncEnd) pfsd.syncEndTid)
    (hend : pfsd.syncEndTid < 2 ^ 64) :
    Streams twoWay mrecs splitupOpt pfsd syncEnd ↔
      ∀ k, 0 < k → k < h.res → (h.ary k).tid + 1 < (h.ary (k + 1)).tid := by
  have hbounds := fun j (hj : j < h.res) => hp.bounds (le_max_right _ _) hend hj
  have hfirst := hp.step 0 hpos
  rw [hp.first, Nat.zero_add] at hfirst
  rw [Streams, mirrorRead_round (select_first hgen), if_pos hfirst]
  rcases eq_or_ne 1 h.res with heq | hne
  · rw [if_pos heq]
    refine iff_of_true ⟨_, _, rfl, by simp, rfl, ?_⟩ fun k h0 hk => by omega
    rw [heq]
    exact hp.last
  rw [if_neg hne]
  constructor
  · rintro ⟨rounds, r, hread, hwork, -, -⟩ k h0 hk
    split at hread
    · cases hread
    rename_i rounds' hread'
    cases hread
    exact mirrorRead_gaps hbounds hread' (fun r hr => hwork r (List.mem_cons_of_mem _ hr)) h0 hk
  · intro hgap
    have hfuel : h.res - 1 ≤ histCount := by omega
    obtain ⟨rounds, r, hread, hwork, hlast, hlastEnd⟩ :=
      mirrorRead_complete (k := 1) (by omega) hfuel hbounds fun j hj => hgap j hj
    rw [hread]
    refine ⟨_, r, rfl, ?_, ?_, hlastEnd.trans hp.last⟩
    · exact List.forall_mem_cons.mpr ⟨rfl, hwork⟩
    · rw [List.getLast?_cons, hlast]
      rfl

end

end Lh1.Hammer.Mirror
