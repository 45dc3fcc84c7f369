/-
  The two scans of the UNDO FIFO: `check_undo` (sbin/hammer/cmd_blockmap.c) and
  `hammer_cmd_show_undo` (sbin/hammer/cmd_show.c).

  The FIFO lies in zone 3 and is divided into blocks of 512 bytes. Each block starts with a
  record, and the size in a record's header leads to the next one, at most up to the end of the
  block. Both scans follow the sizes from the start of the zone to `alloc_offset`; at a size
  that cannot be right they go to the next block with `HAMMER_UNDO_DOALIGN`, which leaves an
  offset that is already aligned where it is.

  `undoScan` is the loop the two share and returns the offsets it went through.

  * `undoScan_forward_iff`: the scan goes forward to its end, block by block, exactly if all
    records of the scanned range can be read and the first record of each block has a legal size.
-/
import Lh1.Hammer.Newfs
import Lh1.Lib.Image

namespace Lh1.Hammer

open Lh1.Lib

/-! ## The UNDO area -/

/-- `HAMMER_HEAD_ALIGN`. -/
def fifoHeadAlign : Nat := 8

/-- `HAMMER_UNDO_DOALIGN`. -/
def undoDoalign (off : Nat) : Nat := (off + (undoAlign - 1)) % 2 ^ 64 / undoAlign * undoAlign

/-- `HAMMER_ENCODE_UNDO`. -/
def encodeUndo (off : Nat) : Nat := zoneEncode zoneUndoIndex (shortOff off)

/-- `HAMMER_HEAD_TYPE_*`. -/
def headTypePad : Nat := 0x8040

def headTypeUndo : Nat := 0x43

def headTypeRedo : Nat := 0x44

/-- The UNDO area behind the zone 3 offsets. `mapped` says for which of its big-blocks
    `blockmap_lookup` finds a zone 2 address. -/
structure UndoArea where
  bytes : Image
  mapped : Nat → Bool

/-- The header `get_buffer_data` returns. Outside zone 3 it ends in an assertion, where nothing
    is mapped in the NULL pointer the scans do not check for. -/
def UndoArea.head (a : UndoArea) (off : Nat) : Option FifoHead :=
  if zoneDecode off = zoneUndoIndex ∧ a.mapped (off / bigblockSize) = true then
    some ⟨a.bytes.word (off + 2) 2, a.bytes.word (off + 4) 4, a.bytes.word (off + 8) 4⟩
  else none

/-! ## The scans -/

/-- The sizes that are followed: aligned, not 0 and not past the end of the block. -/
def LegalSize (off size : Nat) : Prop :=
  size % fifoHeadAlign = 0 ∧ size ≠ 0 ∧ size ≤ undoAlign - off % undoAlign

instance (off size : Nat) : Decidable (LegalSize off size) :=
  inferInstanceAs (Decidable (_ ∧ _ ∧ _))

def nextOffset (off size : Nat) : Nat :=
  if LegalSize off size then (off + size) % 2 ^ 64 else undoDoalign off

inductive ScanFault where
  | fuel        -- the scan is still running
  | unreadable  -- no header at `scan_offset`
  | headType    -- assert(!DebugOpt)
  deriving DecidableEq, Repr

section

variable (a : UndoArea) (accept : FifoHead → Bool) (allocOffset : Nat)

/-- `while (scan_offset < alloc_offset)`. The offsets the scan went through, the last of them
    the one it ended at. -/
def undoScan : Nat → Nat → Except ScanFault (List Nat)
  | 0, off => if off < allocOffset then .error .fuel else .ok [off]
  | fuel + 1, off =>
    if off < allocOffset then
      match a.head off with
      | none => .error .unreadable
      | some head =>
        if accept head then
          match undoScan fuel (nextOffset off head.hdrSize) with
          | .ok trace => .ok (off :: trace)
          | .error e => .error e
        else .error .headType
    else .ok [off]

end

/-- The types `check_undo` hands to `collect_undo`. For others it asserts that `DebugOpt` is not
    set. -/
def collects (debugOpt : Bool) (head : FifoHead) : Bool :=
  !debugOpt || decide (head.hdrType = headTypePad ∨ head.hdrType = headTypeDummy ∨
    head.hdrType = headTypeUndo ∨ head.hdrType = headTypeRedo)

def checkUndo (debugOpt : Bool) (a : UndoArea) (allocOffset fuel : Nat) :
    Except ScanFault (List Nat) :=
  undoScan a (collects debugOpt) allocOffset fuel (encodeUndo 0)

/-- `hammer_cmd_show_undo` prints every type. -/
def hammerCmdShowUndo (a : UndoArea) (allocOffset fuel : Nat) : Except ScanFault (List Nat) :=
  undoScan a (fun _ => true) allocOffset fuel (encodeUndo 0)

/-! ## Progress -/

/-- The end of the block `off` is in. -/
def blockEnd (off : Nat) : Nat := (off / undoAlign + 1) * undoAlign

/-- One iteration goes forward and not over the end of its block. -/
def Forward (off next : Nat) : Prop := off < next ∧ next ≤ blockEnd off

/-- The scan ends, and each of its iterations goes forward. -/
def ScansForward (scan : Nat → Except ScanFault (List Nat)) : Prop :=
  ∃ fuel trace, scan fuel = .ok trace ∧ trace.IsChain Forward

/-- The offsets at which the area has a record: the blocks' first ones, and those that legal
    sizes lead to. -/
inductive IsRecord (a : UndoArea) : Nat → Prop
  | first {off : Nat} (h : undoAlign ∣ off) : IsRecord a off
  | next {off : Nat} {head : FifoHead} (h : IsRecord a off) (hh : a.head off = some head)
      (hs : LegalSize off head.hdrSize) : IsRecord a (off + head.hdrSize)

/-- The records of the zone before `alloc_offset` can be read, and the first one of each block
    has a legal size. -/
def Scannable (a : UndoArea) (accept : FifoHead → Bool) (allocOffset : Nat) : Prop :=
  ∀ off, IsRecord a off → encodeUndo 0 ≤ off → off < allocOffset →
    ∃ head, a.head off = some head ∧ accept head = true ∧
      (undoAlign ∣ off → LegalSize off head.hdrSize)

theorem UndoArea.head_lt {a : UndoArea} {off : Nat} {head : FifoHead}
    (h : a.head off = some head) : off < 2 ^ 62 := by
  unfold UndoArea.head at h
  split at h
  · rename_i hc
    have hz := hc.1
    unfold zoneDecode zoneUndoIndex at hz
    omega
  · cases h

theorem aligned_encodeUndo : undoAlign ∣ encodeUndo 0 := by decide

section

variable {off size : Nat}

theorem nextOffset_legal (hoff : off < 2 ^ 62) (h : LegalSize off size) :
    nextOffset off size = off + size := by
  have hle := h.2.2
  unfold undoAlign at hle
  rw [nextOffset, if_pos h, Nat.mod_eq_of_lt (by omega)]

theorem nextOffset_illegal (h : ¬ LegalSize off size) : nextOffset off size = undoDoalign off :=
  if_neg h

/-- An aligned offset is its own `HAMMER_UNDO_DOALIGN`. -/
theorem undoDoalign_aligned (hoff : off < 2 ^ 62) (h : undoAlign ∣ off) : undoDoalign off = off := by
  unfold undoDoalign undoAlign at *
  omega

theorem undoDoalign_unaligned (hoff : off < 2 ^ 62) (h : ¬ undoAlign ∣ off) :
    undoDoalign off = blockEnd off := by
  unfold undoDoalign blockEnd undoAlign at *
  omega

theorem lt_blockEnd (off : Nat) : off < blockEnd off := by
  unfold blockEnd undoAlign
  omega

theorem aligned_blockEnd (off : Nat) : undoAlign ∣ blockEnd off := ⟨_, Nat.mul_comm _ _⟩

theorem blockEnd_le {x : Nat} (h : undoAlign ∣ x) (hlt : off < x) : blockEnd off ≤ x := by
  unfold blockEnd undoAlign at *
  omega

theorem LegalSize.forward (h : LegalSize off size) : Forward off (off + size) := by
  obtain ⟨-, hne, hle⟩ := h
  refine ⟨by omega, ?_⟩
  unfold blockEnd
  unfold undoAlign at *
  omega

end

section

variable {a : UndoArea} {accept : FifoHead → Bool} {allocOffset : Nat}

/-- One iteration of a scan that comes to its end. -/
theorem undoScan_ok_iff {fuel off : Nat} {trace : List Nat} (hlt : off < allocOffset) :
    undoScan a accept allocOffset fuel off = .ok trace ↔
      ∃ n head rest, fuel = n + 1 ∧ a.head off = some head ∧ accept head = true ∧
        undoScan a accept allocOffset n (nextOffset off head.hdrSize) = .ok rest ∧
        trace = off :: rest := by
  constructor
  · intro h
    cases fuel with
    | zero =>
      rw [undoScan, if_pos hlt] at h
      cases h
    | succ n =>
      rw [undoScan, if_pos hlt] at h
      cases hhead : a.head off with
      | none => rw [hhead] at h; cases h
      | some head =>
        rw [hhead] at h
        dsimp only at h
        split at h
        · rename_i hacc
          split at h
          · rename_i rest hrest
            cases h
            exact ⟨n, head, rest, rfl, rfl, hacc, hrest, rfl⟩
          · cases h
        · cases h
  · rintro ⟨n, head, rest, rfl, hhead, hacc, hrest, rfl⟩
    rw [undoScan, if_pos hlt, hhead]
    dsimp only
    rw [if_pos hacc, hrest]

theorem undoScan_end {fuel off : Nat} (hge : allocOffset ≤ off) :
    undoScan a accept allocOffset fuel off = .ok [off] := by
  cases fuel <;> rw [undoScan, if_neg (Nat.not_lt.mpr hge)]

theorem undoScan_head {fuel off : Nat} {trace : List Nat}
    (h : undoScan a accept allocOffset fuel off = .ok trace) : ∃ rest, trace = off :: rest := by
  rcases Nat.lt_or_ge off allocOffset with hlt | hge
  · obtain ⟨-, -, rest, -, -, -, -, hrest⟩ := (undoScan_ok_iff hlt).mp h
    exact ⟨rest, hrest⟩
  · rw [undoScan_end hge] at h
    cases h
    exact ⟨[], rfl⟩

/-! ## A scannable area is scanned -/

theorem Scannable.step (h : Scannable a accept allocOffset) {off : Nat} (hrec : IsRecord a off)
    (hbase : encodeUndo 0 ≤ off) (hlt : off < allocOffset) :
    ∃ head, a.head off = some head ∧ accept head = true ∧
      Forward off (nextOffset off head.hdrSize) ∧ IsRecord a (nextOffset off head.hdrSize) := by
  obtain ⟨head, hhead, hacc, hfirst⟩ := h off hrec hbase hlt
  have hoff := UndoArea.head_lt hhead
  refine ⟨head, hhead, hacc, ?_⟩
  by_cases hs : LegalSize off head.hdrSize
  · rw [nextOffset_legal hoff hs]
    exact ⟨hs.forward, .next hrec hhead hs⟩
  · rw [nextOffset_illegal hs, undoDoalign_unaligned hoff (mt hfirst hs)]
    exact ⟨⟨lt_blockEnd off, Nat.le_refl _⟩, .first (aligned_blockEnd off)⟩

theorem Scannable.scans (h : Scannable a accept allocOffset) (fuel off : Nat)
    (hrec : IsRecord a off) (hbase : encodeUndo 0 ≤ off) (hfuel : allocOffset - off ≤ fuel) :
    ∃ trace, undoScan a accept allocOffset fuel off = .ok trace ∧ trace.IsChain Forward := by
  induction fuel generalizing off with
  | zero => exact ⟨[off], undoScan_end (by omega), List.isChain_singleton off⟩
  | succ fuel ih =>
    rcases Nat.lt_or_ge off allocOffset with hlt | hge
    · obtain ⟨head, hhead, hacc, hfwd, hnext⟩ := h.step hrec hbase hlt
      have hgt := hfwd.1
      obtain ⟨trace, htrace, hchain⟩ := ih _ hnext (by omega) (by omega)
      refine ⟨off :: trace,
        (undoScan_ok_iff hlt).mpr ⟨fuel, head, trace, rfl, hhead, hacc, htrace, rfl⟩, ?_⟩
      obtain ⟨rest, rfl⟩ := undoScan_head htrace
      exact List.isChain_cons_cons.mpr ⟨hfwd, hchain⟩
    · exact ⟨[off], undoScan_end hge, List.isChain_singleton off⟩

/-! ## What a scan that goes forward has seen -/

section

variable {fuel base : Nat} {trace : List Nat}

section

variable (h : undoScan a accept allocOffset fuel base = .ok trace) (hchain : trace.IsChain Forward)
include h hchain

/-- At each offset the scan went through it read a header and went forward from there. -/
theorem undoScan_visited {off : Nat} (hmem : off ∈ trace) (hlt : off < allocOffset) :
    ∃ head, a.head off = some head ∧ accept head = true ∧
      nextOffset off head.hdrSize ∈ trace ∧ off < nextOffset off head.hdrSize := by
  induction fuel generalizing base trace with
  | zero =>
    rcases Nat.lt_or_ge base allocOffset with hb | hb
    · obtain ⟨n, -, -, hn, -⟩ := (undoScan_ok_iff hb).mp h
      cases hn
    · rw [undoScan_end hb] at h
      cases h
      rw [List.mem_singleton] at hmem
      omega
  | succ fuel ih =>
    rcases Nat.lt_or_ge base allocOffset with hb | hb
    · obtain ⟨n, head, rest, hn, hhead, hacc, hrest, rfl⟩ := (undoScan_ok_iff hb).mp h
      cases hn
      obtain ⟨rest', rfl⟩ := undoScan_head hrest
      obtain ⟨hfwd, hchain'⟩ := List.isChain_cons_cons.mp hchain
      rcases List.mem_cons.mp hmem with rfl | hmem'
      · exact ⟨head, hhead, hacc, by simp, hfwd.1⟩
      · obtain ⟨head', h1, h2, h3, h4⟩ := ih hrest hchain' hmem'
        exact ⟨head', h1, h2, List.mem_cons_of_mem _ h3, h4⟩
    · rw [undoScan_end hb] at h
      cases h
      rw [List.mem_singleton] at hmem
      omega

/-- No block is stepped over. -/
theorem mem_of_aligned {x : Nat} (hx : undoAlign ∣ x) (hle : base ≤ x) (hlt : x < allocOffset) :
    x ∈ trace := by
  induction fuel generalizing base trace with
  | zero =>
    obtain ⟨n, -, -, hn, -⟩ := (undoScan_ok_iff (Nat.lt_of_le_of_lt hle hlt)).mp h
    cases hn
  | succ fuel ih =>
    obtain ⟨n, head, rest, hn, -, -, hrest, rfl⟩ :=
      (undoScan_ok_iff (Nat.lt_of_le_of_lt hle hlt)).mp h
    cases hn
    obtain ⟨rest', rfl⟩ := undoScan_head hrest
    obtain ⟨hfwd, hchain'⟩ := List.isChain_cons_cons.mp hchain
    rcases Nat.eq_or_lt_of_le hle with rfl | hgt
    · exact List.mem_cons_self
    · exact List.mem_cons_of_mem _
        (ih hrest hchain' (Nat.le_trans hfwd.2 (blockEnd_le hx hgt)))

/-- No record is left out. -/
theorem mem_of_isRecord (hbase : undoAlign ∣ base) {off : Nat} (hrec : IsRecord a off)
    (hle : base ≤ off) (hlt : off < allocOffset) : off ∈ trace := by
  induction hrec with
  | first hx => exact mem_of_aligned h hchain hx hle hlt
  | @next off head hrec hhead hs ih =>
    have hfwd := hs.forward
    rcases Nat.lt_or_ge off base with hb | hb
    · -- the record ends where the scan starts
      have heq : off + head.hdrSize = base :=
        Nat.le_antisymm (Nat.le_trans hfwd.2 (blockEnd_le hbase hb)) hle
      rw [heq] at hlt ⊢
      exact mem_of_aligned h hchain hbase (Nat.le_refl _) hlt
    · have hoff : off < allocOffset := Nat.lt_trans hfwd.1 hlt
      obtain ⟨head', hhead', -, hnext, -⟩ := undoScan_visited h hchain (ih hb hoff) hoff
      rw [hhead] at hhead'
      cases hhead'
      rwa [nextOffset_legal (UndoArea.head_lt hhead) hs] at hnext

end

theorem scannable_of_undoScan
    (h : undoScan a accept allocOffset fuel (encodeUndo 0) = .ok trace)
    (hchain : trace.IsChain Forward) : Scannable a accept allocOffset := by
  intro off hrec hle hlt
  have hmem := mem_of_isRecord h hchain aligned_encodeUndo hrec hle hlt
  obtain ⟨head, hhead, hacc, -, hgt⟩ := undoScan_visited h hchain hmem hlt
  refine ⟨head, hhead, hacc, fun hx => ?_⟩
  by_contra hs
  rw [nextOffset_illegal hs, undoDoalign_aligned (UndoArea.head_lt hhead) hx] at hgt
  exact Nat.lt_irrefl _ hgt

end

theorem undoScan_forward_iff :
    ScansForward (fun fuel => undoScan a accept allocOffset fuel (encodeUndo 0)) ↔
      Scannable a accept allocOffset := by
  constructor
  · rintro ⟨fuel, trace, h, hchain⟩
    exact scannable_of_undoScan h hchain
  · intro h
    obtain ⟨trace, htrace, hchain⟩ := h.scans (allocOffset - encodeUndo 0)
      (encodeUndo 0) (.first aligned_encodeUndo) (Nat.le_refl _) (Nat.le_refl _)
    exact ⟨_, trace, htrace, hchain⟩

end

theorem Scannable.mono {a : UndoArea} {accept accept' : FifoHead → Bool} {allocOffset : Nat}
    (h : Scannable a accept allocOffset) (hacc : ∀ head, accept head = true → accept' head = true) :
    Scannable a accept' allocOffset := by
  intro off hrec hle hlt
  obtain ⟨head, hhead, ha, hs⟩ := h off hrec hle hlt
  exact ⟨head, hhead, hacc head ha, hs⟩

/-- Both scanners make progress up to `alloc_offset` exactly if the area is scannable. -/
theorem undo_scanners_forward_iff (debugOpt : Bool) (a : UndoArea) (allocOffset : Nat) :
    (ScansForward (checkUndo debugOpt a allocOffset) ∧
        ScansForward (hammerCmdShowUndo a allocOffset)) ↔
      Scannable a (collects debugOpt) allocOffset := by
  constructor
  · rintro ⟨hcheck, -⟩
    exact undoScan_forward_iff.mp hcheck
  · intro h
    exact ⟨undoScan_forward_iff.mpr h, undoScan_forward_iff.mpr (h.mono fun _ _ => rfl)⟩

/-- A fully mapped area of zero bytes. -/
def zeroArea : UndoArea where
  bytes := fun _ => 0
  mapped := fun _ => true

/-- A size of 0 at the start of the zone keeps both scanners where they are. -/
theorem undo_scanners_not_forward :
    ¬ ScansForward (checkUndo false zeroArea (encodeUndo 512)) ∧
      ¬ ScansForward (hammerCmdShowUndo zeroArea (encodeUndo 512)) := by
  have hno : ∀ accept, ¬ Scannable zeroArea accept (encodeUndo 512) := by
    intro accept h
    obtain ⟨head, hhead, -, hs⟩ := h (encodeUndo 0) (.first aligned_encodeUndo) (Nat.le_refl _)
      (by decide)
    have hsize : (zeroArea.head (encodeUndo 0)).map FifoHead.hdrSize = some 0 := by decide +kernel
    rw [hhead, Option.map_some, Option.some.injEq] at hsize
    exact (hs aligned_encodeUndo).2.1 hsize
  exact ⟨fun h => hno _ (undoScan_forward_iff.mp h), fun h => hno _ (undoScan_forward_iff.mp h)⟩

end Lh1.Hammer
