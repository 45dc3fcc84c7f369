/-
  dedup-simulate and dedup (cmd_dedup.c).

  Both collect the data records of a PFS in a tree by CRC. When the tree uses more memory than
  MemoryLimit, the upper half of the CRC range at hand is thrown out, and another pass over the
  PFS is made for it. What the ioctls return for records is a parameter; there are no timeouts, so
  no pass resumes from a cycle file. The counters are natural numbers: the program's are these
  modulo 2^64.

  * `Tally`: what has been counted in a pass is what the window of the pass has let through.
  * `dedup_accounts_once`: when the memory limit only ever throws out CRCs above all that has been
    counted elsewhere, both tools account every record once.
-/
import Lh1.Lib.Fallible
import Lh1.Lib.Weight
import Lh1.Hammer.Layout

namespace Lh1.Hammer.Dedup

open Lib

/-- What is read of `struct hammer_btree_leaf_elm`; `base` stands for the key. -/
structure Leaf where
  base : Nat
  dataCrc : Nat
  dataOffset : Nat
  dataLen : Nat
  deriving DecidableEq, Repr

inductive Fault where
  | assert
  | exit
  | fuel
  deriving DecidableEq, Repr

/-! ## The CRC window -/

/-- `DedupCrcStart + (uint32_t)(DedupCrcEnd - DedupCrcStart - 1) / 2`. -/
def shrinkEnd (crcStart crcEnd : Nat) : Nat :=
  (crcStart + (crcEnd + 2 ^ 33 - crcStart - 1) % 2 ^ 32 / 2) % 2 ^ 32

/-- `scan_pfs` leaves a record to another pass. -/
def Skips (crcStart crcEnd crc : Nat) : Prop :=
  crcStart ≠ crcEnd ∧ (crc < crcStart ∨ crcEnd ≠ 0 ∧ crcEnd ≤ crc)

instance (crcStart crcEnd crc : Nat) : Decidable (Skips crcStart crcEnd crc) :=
  inferInstanceAs (Decidable (_ ∧ _))

/-! ## dedup-simulate -/

/-- `struct sim_dedup_entry`. -/
structure SimEntry where
  crc : Nat
  refBlks : Nat
  refSize : Nat
  deriving DecidableEq, Repr

/-- `sizeof(struct sim_dedup_entry)`. -/
def simEntrySize : Nat := 56

/-- The global variables of dedup-simulate. -/
structure Sim where
  crcStart : Nat
  crcEnd : Nat
  memoryUse : Nat
  tree : List SimEntry
  refSize : Nat
  allocSize : Nat
  deriving DecidableEq, Repr

def Sim.init : Sim := ⟨0, 0, 0, [], 0, 0⟩

/-- "If we are using too much memory we have to clean some out". -/
def Sim.limit (memoryLimit : Nat) (s : Sim) : Sim :=
  if memoryLimit < s.memoryUse then
    let crcEnd := shrinkEnd s.crcStart s.crcEnd
    let tree := s.tree.filter fun e => decide (e.crc < crcEnd)
    { s with
      crcEnd, tree, memoryUse := s.memoryUse - simEntrySize * (s.tree.length - tree.length) }
  else s

/-- The statistics of a record go to the entry of its CRC. -/
def Sim.insert (s : Sim) (leaf : Leaf) : Sim :=
  match s.tree.find? fun e => e.crc = leaf.dataCrc with
  | none =>
    { s with tree := ⟨leaf.dataCrc, 1, leaf.dataLen⟩ :: s.tree,
             memoryUse := s.memoryUse + simEntrySize }
  | some _ =>
    { s with tree := update SimEntry.crc leaf.dataCrc
               (fun e => ⟨e.crc, e.refBlks + 1, e.refSize + leaf.dataLen⟩) s.tree }

/-- `collect_btree_elm`. -/
def Sim.collect (memoryLimit : Nat) (s : Sim) (leaf : Leaf) : Sim :=
  (s.limit memoryLimit).insert leaf

/-- `scan_pfs` with `collect_btree_elm`. -/
def Sim.scan (memoryLimit : Nat) : Sim → List Leaf → Sim
  | s, [] => s
  | s, leaf :: leaves =>
    if Skips s.crcStart s.crcEnd leaf.dataCrc then s.scan memoryLimit leaves
    else (s.collect memoryLimit leaf).scan memoryLimit leaves

/-- "Calculate simulated dedup ratio and get rid of the tree". -/
def Sim.flush (s : Sim) : Except Fault Sim :=
  if ∀ e ∈ s.tree, e.refBlks ≠ 0 then
    .ok { s with
      refSize := s.refSize + (s.tree.map SimEntry.refSize).sum,
      allocSize := s.allocSize + (s.tree.map fun e => e.refSize / e.refBlks).sum, tree := [] }
  else .error .assert

def Sim.begin (s : Sim) : Sim := { s with crcStart := s.crcEnd, crcEnd := 0, memoryUse := 0 }

/-- The collection passes of `hammer_cmd_dedup_simulate`. -/
def Sim.passes (memoryLimit : Nat) (leaves : List Leaf) : Nat → Sim → Except Fault Sim
  | 0, _ => .error .fuel
  | fuel + 1, s =>
    match (s.begin.scan memoryLimit leaves).flush with
    | .error e => .error e
    | .ok s => if s.crcEnd ≠ 0 then s.passes memoryLimit leaves fuel else .ok s

/-! ## dedup -/

inductive DedupResult where
  | ok
  | techFailure
  | cmpFailure
  | invalidZone
  | underflow
  | versFailure
  deriving DecidableEq, Repr

/-- HAMMERIOC_DEDUP on a pair of records, and the SHA of the data of a record by
    HAMMERIOC_GET_DATA, if it can be read. -/
structure Kernel where
  dedup : Leaf → Leaf → DedupResult
  hash : Leaf → Option Nat

/-- `struct sha_dedup_entry`. -/
structure ShaEntry where
  leaf : Leaf
  refBlks : Nat
  refSize : Nat
  hash : Nat
  deriving DecidableEq, Repr

/-- The union of `struct dedup_entry`: statistics, or the SHA tree of a fictitious entry. -/
inductive Refs where
  | plain (refBlks refSize : Nat)
  | fictitious (shas : List ShaEntry)
  deriving DecidableEq, Repr

/-- `struct dedup_entry`. -/
structure Entry where
  leaf : Leaf
  refs : Refs
  deriving DecidableEq, Repr

/-- `sizeof(struct dedup_entry)`. -/
def entrySize : Nat := 120

/-- `sizeof(struct sha_dedup_entry)`. -/
def shaEntrySize : Nat := 144

def Refs.shas : Refs → List ShaEntry
  | .plain _ _ => []
  | .fictitious shas => shas

def Entry.memory (e : Entry) : Nat := entrySize + shaEntrySize * e.refs.shas.length

def Refs.size : Refs → Nat
  | .plain _ refSize => refSize
  | .fictitious shas => (shas.map ShaEntry.refSize).sum

/-- The blocks that stay allocated. -/
def Refs.alloc : Refs → Nat
  | .plain refBlks refSize => refSize / refBlks
  | .fictitious shas => (shas.map fun e => e.refSize / e.refBlks).sum

/-- The assertions on `ref_blks`. -/
def Refs.Counted : Refs → Prop
  | .plain refBlks _ => refBlks ≠ 0
  | .fictitious shas => ∀ e ∈ shas, e.refBlks ≠ 0

instance : (r : Refs) → Decidable r.Counted
  | .plain refBlks _ => inferInstanceAs (Decidable (refBlks ≠ 0))
  | .fictitious shas => inferInstanceAs (Decidable (∀ e ∈ shas, e.refBlks ≠ 0))

def Entry.crc (e : Entry) : Nat := e.leaf.dataCrc

def Entry.size (e : Entry) : Nat := e.refs.size

/-- The global variables of dedup. -/
structure Real where
  crcStart : Nat
  crcEnd : Nat
  memoryUse : Nat
  tree : List Entry
  /-- `pass2_dedup_queue`. -/
  queue : List Leaf
  refSize : Nat
  allocSize : Nat
  skippedSize : Nat
  crcFailures : Nat
  shaFailures : Nat
  underflows : Nat
  successesCount : Nat
  successesBytes : Nat
  deriving DecidableEq, Repr

def Real.init : Real := ⟨0, 0, 0, [], [], 0, 0, 0, 0, 0, 0, 0, 0⟩

/-- What is left below a new end of the CRC window. -/
def Real.evict (s : Real) (crcEnd : Nat) : Real :=
  { s with
    crcEnd, tree := s.tree.filter fun e => decide (e.crc < crcEnd),
    memoryUse := s.memoryUse -
      ((s.tree.filter fun e => decide (crcEnd ≤ e.crc)).map Entry.memory).sum }

/-- `while (MemoryUse > MemoryLimit)`. -/
def Real.limit (memoryLimit : Nat) : Nat → Real → Except Fault Real
  | 0, _ => .error .fuel
  | fuel + 1, s =>
    if memoryLimit < s.memoryUse then
      (s.evict (shrinkEnd s.crcStart s.crcEnd)).limit memoryLimit fuel
    else .ok s

/-- `validate_dedup_pair`. -/
def ValidPair (p q : Leaf) : Prop :=
  zoneDecode p.dataOffset = zoneDecode q.dataOffset ∧ p.dataLen = q.dataLen

instance (p q : Leaf) : Decidable (ValidPair p q) := inferInstanceAs (Decidable (_ ∧ _))

/-- `deduplicate`. A candidate that is at the same place already needs no ioctl. -/
def Real.deduplicate (k : Kernel) (s : Real) (p q : Leaf) : DedupResult × Real :=
  if p.dataOffset = q.dataOffset then (.ok, s)
  else if k.dedup p q = .ok then
    (.ok, { s with successesCount := s.successesCount + 1,
                   successesBytes := s.successesBytes + p.dataLen })
  else (k.dedup p q, s)

/-- `terminate_early`. -/
def Real.terminateEarly (s : Real) (leaf : Leaf) : Real × Bool :=
  ({ s with allocSize := s.allocSize + leaf.dataLen, refSize := s.refSize + leaf.dataLen }, false)

/-- `pass2_insert`. -/
def Real.pass2Insert (s : Real) (pass2 : Bool) (leaf : Leaf) : Real × Bool :=
  if pass2 then s.terminateEarly leaf
  else ({ s with queue := s.queue ++ [leaf], skippedSize := s.skippedSize + leaf.dataLen }, true)

/-- Changes to the entry of a CRC. -/
def Real.setEntry (s : Real) (crc memory : Nat) (f : Entry → Entry) : Real :=
  { s with tree := update Entry.crc crc f s.tree, memoryUse := s.memoryUse + memory }

/-- `upgrade_stats`, with `leaf` as the new representative after an underflow. -/
def Entry.upgrade (leaf : Leaf) (underflow : Bool) (e : Entry) : Entry :=
  match e.refs with
  | .plain refBlks refSize =>
    ⟨if underflow then leaf else e.leaf, .plain (refBlks + 1) (refSize + leaf.dataLen)⟩
  | .fictitious _ => e

/-- `upgrade_stats_sha`. -/
def ShaEntry.upgrade (leaf : Leaf) (underflow : Bool) (e : ShaEntry) : ShaEntry :=
  ⟨if underflow then leaf else e.leaf, e.refBlks + 1, e.refSize + leaf.dataLen, e.hash⟩

def Entry.upgradeSha (leaf : Leaf) (underflow : Bool) (hash : Nat) (e : Entry) : Entry :=
  ⟨e.leaf, .fictitious (update ShaEntry.hash hash (ShaEntry.upgrade leaf underflow) e.refs.shas)⟩

/-- A new entry in the SHA tree, which is ordered by the hash. -/
def Entry.insertSha (leaf : Leaf) (hash : Nat) (e : Entry) : Entry :=
  ⟨e.leaf, .fictitious (e.refs.shas.orderedInsert (fun a b => a.hash ≤ b.hash)
    ⟨leaf, 1, leaf.dataLen, hash⟩)⟩

/-- `sha256_failure`. -/
def Real.shaFailure (s : Real) (leaf : Leaf) : Real × Bool :=
  Real.terminateEarly { s with shaFailures := s.shaFailures + 1 } leaf

/-- `crc_failure`: both blocks go to a SHA tree, and the entry becomes fictitious. -/
def Real.crcFailure (k : Kernel) (s : Real) (pass2 : Bool) (de : Entry) (refBlks refSize : Nat)
    (leaf : Leaf) : Real × Bool :=
  let s := { s with crcFailures := s.crcFailures + 1 }
  match k.hash de.leaf with
  | none => s.pass2Insert pass2 leaf
  | some h =>
    let s := s.setEntry leaf.dataCrc shaEntrySize fun e =>
      ⟨e.leaf, .fictitious [⟨de.leaf, refBlks, refSize, h⟩]⟩
    match k.hash leaf with
    | none => s.pass2Insert pass2 leaf
    | some h' =>
      if h' = h then s.shaFailure leaf
      else (s.setEntry leaf.dataCrc shaEntrySize (Entry.insertSha leaf h'), true)

/-- A record whose CRC is in the tree, with statistics. -/
def Real.processPlain (k : Kernel) (s : Real) (pass2 : Bool) (de : Entry)
    (refBlks refSize : Nat) (leaf : Leaf) : Except Fault (Real × Bool) :=
  if ¬ ValidPair de.leaf leaf then .ok (s.crcFailure k pass2 de refBlks refSize leaf)
  else
    let (error, s) := s.deduplicate k de.leaf leaf
    match error with
    | .ok => .ok (s.setEntry leaf.dataCrc 0 (Entry.upgrade leaf false), true)
    | .techFailure => .ok (s.pass2Insert pass2 leaf)
    | .cmpFailure => .ok (s.crcFailure k pass2 de refBlks refSize leaf)
    | .invalidZone => .ok (s.terminateEarly leaf)
    | .underflow =>
      .ok (Real.setEntry { s with underflows := s.underflows + 1 } leaf.dataCrc 0
        (Entry.upgrade leaf true), true)
    | .versFailure => .error .exit

/-- A record whose SHA is in the tree as well. -/
def Real.processSha (k : Kernel) (s : Real) (pass2 : Bool) (sha : ShaEntry) (leaf : Leaf) :
    Except Fault (Real × Bool) :=
  if ¬ ValidPair sha.leaf leaf then .ok (s.shaFailure leaf)
  else
    let (error, s) := s.deduplicate k sha.leaf leaf
    match error with
    | .ok => .ok (s.setEntry leaf.dataCrc 0 (Entry.upgradeSha leaf false sha.hash), true)
    | .techFailure => .ok (s.pass2Insert pass2 leaf)
    | .cmpFailure => .ok (s.shaFailure leaf)
    | .invalidZone => .ok (s.terminateEarly leaf)
    | .underflow =>
      .ok (Real.setEntry { s with underflows := s.underflows + 1 } leaf.dataCrc 0
        (Entry.upgradeSha leaf true sha.hash), true)
    | .versFailure => .error .exit

/-- A record whose CRC has a fictitious entry. Before its data is read it is looked for in the SHA
    tree by its place. -/
def Real.processFictitious (k : Kernel) (s : Real) (pass2 : Bool) (shas : List ShaEntry)
    (leaf : Leaf) : Except Fault (Real × Bool) :=
  match shas.find? fun e => e.leaf.dataOffset = leaf.dataOffset ∧ e.leaf.dataLen = leaf.dataLen with
  | some sha => s.processSha k pass2 sha leaf
  | none =>
    match k.hash leaf with
    | none => .ok (s.pass2Insert pass2 leaf)
    | some h =>
      match shas.find? fun e => e.hash = h with
      | some sha => s.processSha k pass2 sha leaf
      | none => .ok (s.setEntry leaf.dataCrc shaEntrySize (Entry.insertSha leaf h), true)

/-- The statistics of a record, behind the test of the memory limit. -/
def Real.collect (k : Kernel) (s : Real) (pass2 : Bool) (leaf : Leaf) :
    Except Fault (Real × Bool) :=
  match s.tree.find? fun e => e.crc = leaf.dataCrc with
  | none =>
    .ok ({ s with tree := ⟨leaf, .plain 1 leaf.dataLen⟩ :: s.tree,
                  memoryUse := s.memoryUse + entrySize }, true)
  | some de =>
    match de.refs with
    | .plain refBlks refSize => s.processPlain k pass2 de refBlks refSize leaf
    | .fictitious shas => s.processFictitious k pass2 shas leaf

/-- `process_btree_elm`; it returns whether the record was not terminated early. -/
def Real.process (k : Kernel) (memoryLimit fuel : Nat) (s : Real) (pass2 : Bool) (leaf : Leaf) :
    Except Fault (Real × Bool) :=
  match s.limit memoryLimit fuel with
  | .error e => .error e
  | .ok s => s.collect k pass2 leaf

/-- `scan_pfs` with `process_btree_elm`. -/
def Real.scan (k : Kernel) (memoryLimit fuel : Nat) : Real → List Leaf → Except Fault Real
  | s, [] => .ok s
  | s, leaf :: leaves =>
    if Skips s.crcStart s.crcEnd leaf.dataCrc then s.scan k memoryLimit fuel leaves
    else
      match s.process k memoryLimit fuel false leaf with
      | .error e => .error e
      | .ok r => r.1.scan k memoryLimit fuel leaves

/-- A record of the second pass leaves the queue. -/
def Real.dequeue (r : Real × Bool) (leaf : Leaf) (rest : List Leaf) : Real :=
  { r.1 with
    queue := rest,
    skippedSize := if r.2 then r.1.skippedSize - leaf.dataLen else r.1.skippedSize }

/-- The records of `pass2_dedup_queue` once more. -/
def Real.drain (k : Kernel) (memoryLimit fuel : Nat) : Real → List Leaf → Except Fault Real
  | s, [] => .ok s
  | s, leaf :: rest =>
    match s.process k memoryLimit fuel true leaf with
    | .error e => .error e
    | .ok r => (Real.dequeue r leaf rest).drain k memoryLimit fuel rest

/-- "Calculate dedup ratio and get rid of the trees". -/
def Real.flush (s : Real) : Except Fault Real :=
  if ∀ e ∈ s.tree, e.refs.Counted then
    .ok { s with
      refSize := s.refSize + (s.tree.map Entry.size).sum,
      allocSize := s.allocSize + (s.tree.map fun e => e.refs.alloc).sum, tree := [] }
  else .error .assert

def Real.begin (s : Real) : Real := { s with crcStart := s.crcEnd, crcEnd := 0, memoryUse := 0 }

def Real.pass (k : Kernel) (memoryLimit fuel : Nat) (leaves : List Leaf) (s : Real) :
    Except Fault Real :=
  match s.begin.scan k memoryLimit fuel leaves with
  | .error e => .error e
  | .ok s =>
    match s.drain k memoryLimit fuel s.queue with
    | .error e => .error e
    | .ok s => s.flush

/-- The collection passes of `hammer_cmd_dedup`. -/
def Real.passes (k : Kernel) (memoryLimit fuel : Nat) (leaves : List Leaf) :
    Nat → Real → Except Fault Real
  | 0, _ => .error .fuel
  | n + 1, s =>
    match s.pass k memoryLimit fuel leaves with
    | .error e => .error e
    | .ok s => if s.crcEnd ≠ 0 then s.passes k memoryLimit fuel leaves n else .ok s

/-! ## What a window lets through -/

/-- The CRCs of the pass, as far as it has not been cut back. -/
def inWindow (crcStart crcEnd crc : Nat) : Bool :=
  decide (crcStart ≤ crc) && (decide (crcEnd = 0) || decide (crc < crcEnd))

/-- A window that is not degenerate. -/
def Proper (crcStart crcEnd : Nat) : Prop :=
  crcStart < 2 ^ 32 ∧ crcEnd < 2 ^ 32 ∧ (crcEnd = 0 ∨ crcStart < crcEnd)

theorem skips_iff {crcStart crcEnd crc : Nat} (hw : Proper crcStart crcEnd) :
    Skips crcStart crcEnd crc ↔ inWindow crcStart crcEnd crc = false := by
  obtain ⟨-, -, hw⟩ := hw
  simp only [Skips, inWindow, Bool.and_eq_false_iff, Bool.or_eq_false_iff, decide_eq_false_iff_not]
  omega

theorem inWindow_of_lt {crcStart crcEnd crcEnd' crc : Nat}
    (h : inWindow crcStart crcEnd crc = true) (hlt : crc < crcEnd') :
    inWindow crcStart crcEnd' crc = true := by
  simp only [inWindow, Bool.and_eq_true, Bool.or_eq_true, decide_eq_true_eq] at h ⊢
  exact ⟨h.1, .inr hlt⟩

/-- Cutting a window back leaves a part of it, unless nothing is left. -/
theorem shrinkEnd_spec {crcStart crcEnd : Nat} (hw : Proper crcStart crcEnd)
    (hne : shrinkEnd crcStart crcEnd ≠ crcStart) :
    Proper crcStart (shrinkEnd crcStart crcEnd) ∧ 0 < shrinkEnd crcStart crcEnd ∧
      (crcEnd = 0 ∨ shrinkEnd crcStart crcEnd < crcEnd) := by
  obtain ⟨h1, h2, h3⟩ := hw
  simp only [Proper, shrinkEnd] at *
  omega

/-- Weights of records by CRC. -/
abbrev leafWeight (leaves : List Leaf) : (Nat → Bool) → Nat :=
  weight Leaf.dataCrc Leaf.dataLen leaves

/-- `W` gives the bytes that have been counted for the CRCs of a class: it is what the window has
    let through of the records so far. -/
def Tally (crcStart crcEnd : Nat) (seen : List Leaf) (W : (Nat → Bool) → Nat) : Prop :=
  ∀ p, W p = leafWeight seen fun crc => p crc && inWindow crcStart crcEnd crc

section

variable {crcStart crcEnd : Nat} {seen : List Leaf} {W : (Nat → Bool) → Nat}

section

variable (h : Tally crcStart crcEnd seen W)
include h

theorem Tally.shrink (hw : Proper crcStart crcEnd) (hne : shrinkEnd crcStart crcEnd ≠ crcStart) :
    Tally crcStart (shrinkEnd crcStart crcEnd) seen
      fun p => W fun crc => p crc && decide (crc < shrinkEnd crcStart crcEnd) := by
  obtain ⟨-, hpos, hle⟩ := shrinkEnd_spec hw hne
  intro p
  dsimp only
  rw [h]
  apply weight_congr
  intro leaf _
  rw [Bool.and_assoc]
  congr 1
  rw [Bool.eq_iff_iff]
  simp only [inWindow, Bool.and_eq_true, Bool.or_eq_true, decide_eq_true_eq]
  omega

theorem Tally.skip {leaf : Leaf} (hs : inWindow crcStart crcEnd leaf.dataCrc = false) :
    Tally crcStart crcEnd (seen ++ [leaf]) W := by
  intro p
  rw [h]
  simp [hs]

theorem Tally.count {leaf : Leaf} (hs : inWindow crcStart crcEnd leaf.dataCrc = true)
    {W' : (Nat → Bool) → Nat} (hW : ∀ p, W' p = W p + if p leaf.dataCrc then leaf.dataLen else 0) :
    Tally crcStart crcEnd (seen ++ [leaf]) W' := by
  intro p
  rw [hW, h]
  simp [hs]

/-- A pass adds what is in its window to what is below it. -/
theorem Tally.total (hw : Proper crcStart crcEnd) :
    (leafWeight seen fun crc => decide (crc < crcStart)) + W (fun _ => true)
      = if crcEnd = 0 then (seen.map Leaf.dataLen).sum
        else leafWeight seen fun crc => decide (crc < crcEnd) := by
  obtain ⟨-, -, hw⟩ := hw
  rw [h, weight_add]
  · split
    · rw [← @weight_true _ Leaf.dataCrc]
      apply weight_congr
      intro leaf _
      simp only [inWindow, Bool.and_eq_true, Bool.or_eq_true, decide_eq_true_eq, Bool.true_and]
      omega
    · apply weight_congr
      intro leaf _
      rw [Bool.eq_iff_iff]
      simp only [inWindow, Bool.and_eq_true, Bool.or_eq_true, decide_eq_true_eq, Bool.true_and]
      omega
  · intro leaf _
    simp only [inWindow, Bool.and_eq_true, Bool.or_eq_true, decide_eq_true_eq, Bool.true_and]
    omega

end

end

/-! ## dedup-simulate counts every record once -/

/-- When the memory limit cuts the window back for a record, the record stays in it. -/
def Sim.TameStep (memoryLimit : Nat) (s : Sim) (leaf : Leaf) : Prop :=
  memoryLimit < s.memoryUse → shrinkEnd s.crcStart s.crcEnd ≠ s.crcStart ∧
    leaf.dataCrc < shrinkEnd s.crcStart s.crcEnd

instance (memoryLimit : Nat) (s : Sim) (leaf : Leaf) : Decidable (s.TameStep memoryLimit leaf) :=
  inferInstanceAs (Decidable (_ → _))

/-- Every record of a scan is met in such a state. -/
def Sim.TameScan (memoryLimit : Nat) : Sim → List Leaf → Prop
  | _, [] => True
  | s, leaf :: leaves =>
    if Skips s.crcStart s.crcEnd leaf.dataCrc then s.TameScan memoryLimit leaves
    else s.TameStep memoryLimit leaf ∧ (s.collect memoryLimit leaf).TameScan memoryLimit leaves

def Sim.TamePasses (memoryLimit : Nat) (leaves : List Leaf) : Nat → Sim → Prop
  | 0, _ => True
  | fuel + 1, s =>
    s.begin.TameScan memoryLimit leaves ∧
      ∀ s', (s.begin.scan memoryLimit leaves).flush = .ok s' → s'.crcEnd ≠ 0 →
        s'.TamePasses memoryLimit leaves fuel

instance Sim.decidableTameScan (memoryLimit : Nat) :
    (s : Sim) → (leaves : List Leaf) → Decidable (s.TameScan memoryLimit leaves)
  | _, [] => inferInstanceAs (Decidable True)
  | s, leaf :: leaves =>
    have := Sim.decidableTameScan memoryLimit s leaves
    have := Sim.decidableTameScan memoryLimit (s.collect memoryLimit leaf) leaves
    inferInstanceAs (Decidable (if Skips s.crcStart s.crcEnd leaf.dataCrc then _ else _ ∧ _))

instance Sim.decidableTamePasses (memoryLimit : Nat) (leaves : List Leaf) :
    (fuel : Nat) → (s : Sim) → Decidable (s.TamePasses memoryLimit leaves fuel)
  | 0, _ => inferInstanceAs (Decidable True)
  | fuel + 1, _ =>
    have (s' : Sim) := Sim.decidableTamePasses memoryLimit leaves fuel s'
    inferInstanceAs (Decidable (_ ∧ ∀ _, _ → (_ → _)))

/-- The tree has what the window has let through. -/
structure Sim.Counts (s : Sim) (seen : List Leaf) : Prop where
  proper : Proper s.crcStart s.crcEnd
  tally : Tally s.crcStart s.crcEnd seen (weight SimEntry.crc SimEntry.refSize s.tree)

section

variable {memoryLimit : Nat} {seen leaves : List Leaf} {leaf : Leaf}

variable {s : Sim}

theorem Sim.Counts.limit (h : s.Counts seen) (ht : s.TameStep memoryLimit leaf) :
    (s.limit memoryLimit).Counts seen := by
  rw [Sim.limit]
  split
  · rename_i hlim
    obtain ⟨hne, -⟩ := ht hlim
    refine ⟨(shrinkEnd_spec h.proper hne).1, fun p => ?_⟩
    rw [← h.tally.shrink h.proper hne]
    exact weight_filter (q := fun crc => decide (crc < shrinkEnd s.crcStart s.crcEnd))
  · exact h

theorem Sim.limit_fields (s : Sim) (memoryLimit : Nat) :
    (s.limit memoryLimit).crcStart = s.crcStart ∧
      (s.limit memoryLimit).refSize = s.refSize := by
  rw [Sim.limit]
  split <;> exact ⟨rfl, rfl⟩

theorem Sim.inWindow_limit (ht : s.TameStep memoryLimit leaf)
    (hs : inWindow s.crcStart s.crcEnd leaf.dataCrc = true) :
    inWindow (s.limit memoryLimit).crcStart (s.limit memoryLimit).crcEnd leaf.dataCrc = true := by
  rw [Sim.limit]
  split
  · rename_i hlim
    have := (ht hlim).2
    simp only [inWindow, Bool.and_eq_true, Bool.or_eq_true, decide_eq_true_eq] at hs ⊢
    exact ⟨hs.1, .inr this⟩
  · exact hs

theorem Sim.insert_weight (s : Sim) (leaf : Leaf) (p : Nat → Bool) :
    weight SimEntry.crc SimEntry.refSize (s.insert leaf).tree p
      = weight SimEntry.crc SimEntry.refSize s.tree p +
        if p leaf.dataCrc then leaf.dataLen else 0 := by
  rw [Sim.insert]
  split
  · rw [weight_cons, Nat.add_comm]
  · rename_i e he
    have hcrc : e.crc = leaf.dataCrc := by simpa using List.find?_some he
    exact weight_update_add he hcrc rfl

theorem Sim.insert_fields (s : Sim) (leaf : Leaf) : (s.insert leaf).crcStart = s.crcStart ∧
    (s.insert leaf).crcEnd = s.crcEnd ∧ (s.insert leaf).refSize = s.refSize := by
  rw [Sim.insert]
  split <;> exact ⟨rfl, rfl, rfl⟩

theorem Sim.Counts.collect (h : s.Counts seen) (ht : s.TameStep memoryLimit leaf)
    (hs : inWindow s.crcStart s.crcEnd leaf.dataCrc = true) :
    (s.collect memoryLimit leaf).Counts (seen ++ [leaf]) := by
  have hl := h.limit ht
  obtain ⟨h1, h2, -⟩ := (s.limit memoryLimit).insert_fields leaf
  constructor
  · rw [Sim.collect, h1, h2]
    exact hl.proper
  · rw [Sim.collect, h1, h2]
    exact hl.tally.count (Sim.inWindow_limit ht hs) (Sim.insert_weight _ leaf)

theorem Sim.Counts.scan (h : s.Counts seen) (ht : s.TameScan memoryLimit leaves) :
    (s.scan memoryLimit leaves).Counts (seen ++ leaves) ∧
      (s.scan memoryLimit leaves).crcStart = s.crcStart ∧
      (s.scan memoryLimit leaves).refSize = s.refSize := by
  induction leaves generalizing s seen with
  | nil =>
    rw [List.append_nil]
    exact ⟨h, rfl, rfl⟩
  | cons leaf leaves ih =>
    rw [Sim.TameScan] at ht
    rw [Sim.scan, show seen ++ leaf :: leaves = seen ++ [leaf] ++ leaves by simp]
    by_cases hs : Skips s.crcStart s.crcEnd leaf.dataCrc
    · rw [if_pos hs] at ht ⊢
      exact ih ⟨h.proper, h.tally.skip ((skips_iff h.proper).mp hs)⟩ ht
    · rw [if_neg hs] at ht ⊢
      have hin : inWindow s.crcStart s.crcEnd leaf.dataCrc = true := by
        rw [skips_iff h.proper] at hs
        simpa using hs
      obtain ⟨h1, h2, h3⟩ := ih (h.collect ht.1 hin) ht.2
      obtain ⟨hi1, -, hi3⟩ := (s.limit memoryLimit).insert_fields leaf
      obtain ⟨hl1, hl2⟩ := s.limit_fields memoryLimit
      exact ⟨h1, h2.trans (hi1.trans hl1), h3.trans (hi3.trans hl2)⟩

theorem Sim.flush_ok {s' : Sim} (h : s.flush = .ok s') : s'.tree = [] ∧ s'.crcEnd = s.crcEnd ∧
    s'.refSize = s.refSize + (s.tree.map SimEntry.refSize).sum := by
  rw [Sim.flush] at h
  split at h <;> cases h
  exact ⟨rfl, rfl, rfl⟩

/-- The passes, from the end of a pass on. -/
theorem Sim.passes_refSize {fuel : Nat} {t : Sim} (hend : s.crcEnd < 2 ^ 32) (htree : s.tree = [])
    (href : s.refSize = leafWeight leaves fun crc => decide (crc < s.crcEnd))
    (ht : s.TamePasses memoryLimit leaves fuel) (hrun : s.passes memoryLimit leaves fuel = .ok t) :
    t.refSize = (leaves.map Leaf.dataLen).sum := by
  induction fuel generalizing s with
  | zero => cases hrun
  | succ fuel ih =>
    rw [Sim.passes] at hrun
    obtain ⟨htame, hnext⟩ := ht
    have hbegin : s.begin.Counts [] := by
      refine ⟨⟨hend, Nat.two_pow_pos 32, .inl rfl⟩, fun p => ?_⟩
      rw [Sim.begin, htree]
      rfl
    obtain ⟨hcounts, hstart, hrefs⟩ := hbegin.scan htame
    have hstart' : (s.begin.scan memoryLimit leaves).crcStart = s.crcEnd := hstart
    have hrefs' : (s.begin.scan memoryLimit leaves).refSize = s.refSize := hrefs
    rw [List.nil_append] at hcounts
    cases hf : (s.begin.scan memoryLimit leaves).flush with
    | error e =>
      rw [hf] at hrun
      cases hrun
    | ok s' =>
      obtain ⟨htree', hend', hrefs''⟩ := Sim.flush_ok hf
      have htotal := hcounts.tally.total hcounts.proper
      rw [weight_true, hstart', ← href, ← hrefs', ← hrefs'', ← hend'] at htotal
      rw [hf] at hrun
      dsimp only at hrun
      split at hrun
      · rename_i hne
        rw [if_neg hne] at htotal
        exact ih (hend' ▸ hcounts.proper.2.1) htree' htotal (hnext s' hf hne) hrun
      · rename_i hzero
        rw [if_pos (not_not.mp hzero)] at htotal
        cases hrun
        exact htotal

end

/-! ## What dedup does with a record -/

/-- What the trees have for a class of CRCs. -/
abbrev Real.treeWeight (s : Real) : (Nat → Bool) → Nat := weight Entry.crc Entry.size s.tree

/-- Nothing is counted on the way from `s` to `s'`. -/
structure Real.Same (s s' : Real) : Prop where
  crcStart : s'.crcStart = s.crcStart
  crcEnd : s'.crcEnd = s.crcEnd
  queue : s'.queue = s.queue
  refSize : s'.refSize = s.refSize
  tree : ∀ p, s'.treeWeight p = s.treeWeight p

/-- A record is counted once on the way from `s` to `r.1`: in a tree, in the queue, or at once when
    it was terminated early. -/
structure Real.Counted (s : Real) (pass2 : Bool) (leaf : Leaf) (r : Real × Bool) : Prop where
  crcStart : r.1.crcStart = s.crcStart
  crcEnd : r.1.crcEnd = s.crcEnd
  queue : pass2 → r.1.queue = s.queue
  refSize : r.1.refSize = s.refSize + if r.2 then 0 else leaf.dataLen
  tree : ∀ p, r.1.treeWeight p + leafWeight r.1.queue p +
      (if r.2 then 0 else if p leaf.dataCrc then leaf.dataLen else 0)
    = s.treeWeight p + leafWeight s.queue p + if p leaf.dataCrc then leaf.dataLen else 0

/-- What a record can do to the entry of its CRC, and the memory that this takes. -/
inductive Entry.Change (leaf : Leaf) : Entry → Entry → Nat → Prop
  | upgrade {e : Entry} {refBlks refSize : Nat} (underflow : Bool)
      (hplain : e.refs = .plain refBlks refSize) : Change leaf e (e.upgrade leaf underflow) 0
  | split {e : Entry} {refBlks refSize : Nat} (hash : Nat)
      (hplain : e.refs = .plain refBlks refSize) :
      Change leaf e ⟨e.leaf, .fictitious [⟨e.leaf, refBlks, refSize, hash⟩]⟩ shaEntrySize
  | upgradeSha {e : Entry} {shas : List ShaEntry} {sha : ShaEntry} (underflow : Bool)
      (hfict : e.refs = .fictitious shas) (hsha : sha ∈ shas) :
      Change leaf e (e.upgradeSha leaf underflow sha.hash) 0
  | insertSha {e : Entry} {shas : List ShaEntry} {hash : Nat}
      (hfict : e.refs = .fictitious shas) (hnew : ∀ sha ∈ shas, sha.hash ≠ hash) :
      Change leaf e (e.insertSha leaf hash) shaEntrySize

/-- What `process_btree_elm` does with a record, behind the test of the memory limit. -/
inductive Real.Takes (pass2 : Bool) (leaf : Leaf) : Real → Real × Bool → Prop
  | early (s : Real) : Takes pass2 leaf s (s.terminateEarly leaf)
  | defer (s : Real) : Takes pass2 leaf s (s.pass2Insert pass2 leaf)
  | insert {s : Real} (hnew : s.tree.find? (fun e => e.crc = leaf.dataCrc) = none) :
      Takes pass2 leaf s ({ s with tree := ⟨leaf, .plain 1 leaf.dataLen⟩ :: s.tree,
                                   memoryUse := s.memoryUse + entrySize }, true)
  | set {s : Real} {e : Entry} {f : Entry → Entry} {memory : Nat}
      (he : s.tree.find? (fun e => e.crc = leaf.dataCrc) = some e)
      (hf : Entry.Change leaf e (f e) memory) (hsize : (f e).size = e.size + leaf.dataLen) :
      Takes pass2 leaf s (s.setEntry leaf.dataCrc memory f, true)
  | split {s : Real} {e : Entry} {f : Entry → Entry} {memory : Nat} {r : Real × Bool}
      (he : s.tree.find? (fun e => e.crc = leaf.dataCrc) = some e)
      (hf : Entry.Change leaf e (f e) memory) (hsize : (f e).size = e.size)
      (h : Takes pass2 leaf (s.setEntry leaf.dataCrc memory f) r) : Takes pass2 leaf s r
  | quiet {s t : Real} {r : Real × Bool} (hs : s.Same t) (htree : t.tree = s.tree)
      (hmem : t.memoryUse = s.memoryUse) (h : Takes pass2 leaf t r) : Takes pass2 leaf s r

section

variable {s s' : Real} {k : Kernel} {pass2 : Bool} {leaf : Leaf} {e e' : Entry} {r : Real × Bool}
  {m refBlks refSize : Nat} {shas : List ShaEntry} {sha : ShaEntry}

theorem Real.Same.counted (h : s.Same s') (hc : s'.Counted pass2 leaf r) :
    s.Counted pass2 leaf r where
  crcStart := hc.crcStart.trans h.crcStart
  crcEnd := hc.crcEnd.trans h.crcEnd
  queue hp := (hc.queue hp).trans h.queue
  refSize := by rw [hc.refSize, h.refSize]
  tree p := by rw [hc.tree, h.tree, h.queue]

theorem Real.pass2Insert_counted (s : Real) (pass2 : Bool) (leaf : Leaf) :
    s.Counted pass2 leaf (s.pass2Insert pass2 leaf) := by
  cases pass2 with
  | true => exact ⟨rfl, rfl, fun _ => rfl, rfl, fun _ => rfl⟩
  | false =>
    refine ⟨rfl, rfl, nofun, rfl, fun p => ?_⟩
    simp [Real.pass2Insert, Real.treeWeight, leafWeight]
    omega

/-- The entry of the CRC gets the bytes of the record. -/
theorem Real.setEntry_counted {f : Entry → Entry} {memory : Nat}
    (he : s.tree.find? (fun e => e.crc = leaf.dataCrc) = some e)
    (hcrc : (f e).crc = leaf.dataCrc) (hsize : (f e).size = e.size + leaf.dataLen) :
    s.Counted pass2 leaf (s.setEntry leaf.dataCrc memory f, true) := by
  refine ⟨rfl, rfl, fun _ => rfl, rfl, fun p => ?_⟩
  have hw : (s.setEntry leaf.dataCrc memory f).treeWeight p
      = s.treeWeight p + if p leaf.dataCrc then leaf.dataLen else 0 :=
    weight_update_add he hcrc hsize
  have hq : (s.setEntry leaf.dataCrc memory f).queue = s.queue := rfl
  rw [hw, hq]
  simp only [if_true]
  omega

theorem Real.setEntry_same {f : Entry → Entry} {memory : Nat}
    (he : s.tree.find? (fun e => e.crc = leaf.dataCrc) = some e)
    (hcrc : (f e).crc = leaf.dataCrc) (hsize : (f e).size = e.size) :
    s.Same (s.setEntry leaf.dataCrc memory f) := by
  refine ⟨rfl, rfl, rfl, rfl, fun p => ?_⟩
  have hw : (s.setEntry leaf.dataCrc memory f).treeWeight p
      = s.treeWeight p + if p leaf.dataCrc then 0 else 0 :=
    weight_update_add he hcrc hsize
  simpa using hw

theorem Real.deduplicate_same (k : Kernel) (s : Real) (p q : Leaf) :
    s.Same (s.deduplicate k p q).2 ∧ (s.deduplicate k p q).2.tree = s.tree ∧
      (s.deduplicate k p q).2.memoryUse = s.memoryUse := by
  rw [Real.deduplicate]
  split
  · exact ⟨⟨rfl, rfl, rfl, rfl, fun _ => rfl⟩, rfl, rfl⟩
  · split <;> exact ⟨⟨rfl, rfl, rfl, rfl, fun _ => rfl⟩, rfl, rfl⟩

theorem Entry.upgrade_size (leaf : Leaf) (underflow : Bool)
    (h : e.refs = .plain refBlks refSize) :
    (e.upgrade leaf underflow).size = e.size + leaf.dataLen := by
  rw [Entry.upgrade, h, Entry.size, Entry.size, h]
  rfl

theorem Entry.upgrade_crc (underflow : Bool) (h : e.crc = leaf.dataCrc) :
    (e.upgrade leaf underflow).crc = leaf.dataCrc := by
  rw [Entry.upgrade]
  split
  · cases underflow
    · exact h
    · rfl
  · exact h

theorem Entry.upgradeSha_size (leaf : Leaf) (underflow : Bool) (h : sha ∈ e.refs.shas)
    (hsize : e.size = (e.refs.shas.map ShaEntry.refSize).sum) :
    (e.upgradeSha leaf underflow sha.hash).size = e.size + leaf.dataLen := by
  obtain ⟨a, ha⟩ : ∃ a, e.refs.shas.find? (fun r => r.hash = sha.hash) = some a :=
    Option.isSome_iff_exists.mp (List.find?_isSome.mpr ⟨sha, h, by simp⟩)
  have hhash : a.hash = sha.hash := by simpa using List.find?_some ha
  have := @weight_update_add _ ShaEntry.hash ShaEntry.refSize _ (fun _ => true) _ _
    (ShaEntry.upgrade leaf underflow) ha leaf.dataLen hhash rfl
  rw [weight_true, weight_true] at this
  rw [hsize]
  exact this

theorem Entry.insertSha_size (leaf : Leaf) (hash : Nat)
    (hsize : e.size = (e.refs.shas.map ShaEntry.refSize).sum) :
    (e.insertSha leaf hash).size = e.size + leaf.dataLen := by
  have hperm := List.perm_orderedInsert (fun a b : ShaEntry => a.hash ≤ b.hash)
    ⟨leaf, 1, leaf.dataLen, hash⟩ e.refs.shas
  have := (hperm.map ShaEntry.refSize).sum_eq
  rw [List.map_cons, List.sum_cons] at this
  rw [hsize, Nat.add_comm]
  exact this

theorem Entry.Change.crc (h : Change leaf e e' m) (he : e.crc = leaf.dataCrc) :
    e'.crc = leaf.dataCrc := by
  cases h with
  | upgrade underflow hplain => exact Entry.upgrade_crc underflow he
  | split hash hplain => exact he
  | upgradeSha underflow hfict hsha => exact he
  | insertSha hfict hnew => exact he

/-- A record is counted once, whatever is done with it. -/
theorem Real.Takes.counted (h : Takes pass2 leaf s r) : s.Counted pass2 leaf r := by
  induction h with
  | early s => exact ⟨rfl, rfl, fun _ => rfl, rfl, fun _ => rfl⟩
  | defer s => exact s.pass2Insert_counted pass2 leaf
  | insert hnew =>
    refine ⟨rfl, rfl, fun _ => rfl, rfl, fun p => ?_⟩
    dsimp only [Real.treeWeight]
    rw [weight_cons, if_pos rfl]
    change (if p leaf.dataCrc then leaf.dataLen else 0) + _ + _ + 0 = _
    omega
  | set he hf hsize =>
    exact Real.setEntry_counted he (hf.crc (by simpa using List.find?_some he)) hsize
  | split he hf hsize _ ih =>
    exact (Real.setEntry_same he (hf.crc (by simpa using List.find?_some he)) hsize).counted ih
  | quiet hs _ _ _ ih => exact hs.counted ih

theorem Real.Takes.deduplicate {p q : Leaf} (h : Takes pass2 leaf (s.deduplicate k p q).2 r) :
    Takes pass2 leaf s r := by
  obtain ⟨hs, htree, hmem⟩ := s.deduplicate_same k p q
  exact .quiet hs htree hmem h

theorem Real.shaFailure_takes (s : Real) : Takes pass2 leaf s (s.shaFailure leaf) :=
  .quiet (t := { s with shaFailures := s.shaFailures + 1 })
    ⟨rfl, rfl, rfl, rfl, fun _ => rfl⟩ rfl rfl (.early _)

theorem Real.Takes.underflow
    (h : Takes pass2 leaf { s with underflows := s.underflows + 1 } r) : Takes pass2 leaf s r := by
  refine .quiet ?_ ?_ ?_ h
  · exact ⟨rfl, rfl, rfl, rfl, fun _ => rfl⟩
  · rfl
  · rfl

section Entry

variable (he : s.tree.find? (fun e => e.crc = leaf.dataCrc) = some e)
include he

theorem Real.crcFailure_takes (hplain : e.refs = .plain refBlks refSize) :
    Takes pass2 leaf s (s.crcFailure k pass2 e refBlks refSize leaf) := by
  have hcrc : e.crc = leaf.dataCrc := by simpa using List.find?_some he
  refine .quiet (t := { s with crcFailures := s.crcFailures + 1 })
    ⟨rfl, rfl, rfl, rfl, fun _ => rfl⟩ rfl rfl ?_
  unfold Real.crcFailure
  dsimp only
  cases hh : k.hash e.leaf with
  | none => exact .defer _
  | some h =>
    -- the entry becomes fictitious, with the bytes it had
    let fict : Entry := ⟨e.leaf, .fictitious [⟨e.leaf, refBlks, refSize, h⟩]⟩
    refine .split he (f := fun e' => ⟨e'.leaf, fict.refs⟩) (.split h hplain) ?_ ?_
    · simp [fict, Entry.size, Refs.size, hplain]
    have he' := find?_update (f := fun e' : Entry => ⟨e'.leaf, fict.refs⟩) he hcrc
    cases hh' : k.hash leaf with
    | none => exact .defer _
    | some h' =>
      dsimp only
      split
      · exact Real.shaFailure_takes _
      · next hne =>
          refine .set he' (.insertSha rfl fun sha hsha => ?_) (Entry.insertSha_size leaf h' rfl)
          rw [List.mem_singleton.mp hsha]
          exact fun hs => hne hs.symm

theorem Real.processPlain_takes (hplain : e.refs = .plain refBlks refSize)
    (h : s.processPlain k pass2 e refBlks refSize leaf = .ok r) : Takes pass2 leaf s r := by
  rw [Real.processPlain] at h
  split at h
  · cases h
    exact Real.crcFailure_takes he hplain
  rw [← (s.deduplicate_same k e.leaf leaf).2.1] at he
  apply Real.Takes.deduplicate (k := k) (p := e.leaf) (q := leaf)
  generalize s.deduplicate k e.leaf leaf = d at *
  obtain ⟨error, s'⟩ := d
  cases error with
  | ok =>
    cases h
    exact .set he (.upgrade false hplain) (Entry.upgrade_size leaf false hplain)
  | techFailure =>
    cases h
    exact .defer s'
  | cmpFailure =>
    cases h
    exact Real.crcFailure_takes he hplain
  | invalidZone =>
    cases h
    exact .early s'
  | underflow =>
    cases h
    exact .underflow (.set he (.upgrade true hplain) (Entry.upgrade_size leaf true hplain))
  | versFailure => cases h

theorem Real.processSha_takes (hfict : e.refs = .fictitious shas) (hsha : sha ∈ shas)
    (h : s.processSha k pass2 sha leaf = .ok r) : Takes pass2 leaf s r := by
  have hsize : ∀ underflow, (e.upgradeSha leaf underflow sha.hash).size
      = e.size + leaf.dataLen := fun underflow => by
    refine Entry.upgradeSha_size leaf underflow ?_ ?_ <;> simp [Entry.size, hfict, Refs.shas,
      Refs.size, hsha]
  rw [Real.processSha] at h
  split at h
  · cases h
    exact s.shaFailure_takes
  rw [← (s.deduplicate_same k sha.leaf leaf).2.1] at he
  apply Real.Takes.deduplicate (k := k) (p := sha.leaf) (q := leaf)
  generalize s.deduplicate k sha.leaf leaf = d at *
  obtain ⟨error, s'⟩ := d
  cases error with
  | ok =>
    cases h
    exact .set he (.upgradeSha false hfict hsha) (hsize false)
  | techFailure =>
    cases h
    exact .defer s'
  | cmpFailure =>
    cases h
    exact s'.shaFailure_takes
  | invalidZone =>
    cases h
    exact .early s'
  | underflow =>
    cases h
    exact .underflow (.set he (.upgradeSha true hfict hsha) (hsize true))
  | versFailure => cases h

end Entry

/-- Behind the test of the memory limit a record is taken. -/
theorem Real.collect_takes (h : s.collect k pass2 leaf = .ok r) : Takes pass2 leaf s r := by
  rw [Real.collect] at h
  split at h
  · next hnew =>
      cases h
      exact .insert hnew
  rename_i e he
  split at h
  · exact Real.processPlain_takes he ‹_› h
  rename_i shas hfict
  rw [Real.processFictitious] at h
  split at h
  · next sha hsha => exact Real.processSha_takes he hfict (List.mem_of_find?_eq_some hsha) h
  split at h
  · cases h
    exact .defer s
  split at h
  · next sha hsha => exact Real.processSha_takes he hfict (List.mem_of_find?_eq_some hsha) h
  · next hnew =>
      cases h
      refine .set he (.insertSha hfict fun sha hsha hs => ?_) (Entry.insertSha_size leaf _ ?_)
      · exact absurd hs (by simpa using List.find?_eq_none.mp hnew sha hsha)
      · simp [Entry.size, hfict, Refs.shas, Refs.size]

end

/-! ## dedup counts every record once -/

/-- When the memory limit cuts the window back for a record, the record stays in it, and so do the
    records that this pass has queued or `settled` early. -/
def Real.TameLimit (memoryLimit : Nat) (settled : List Leaf) (leaf : Leaf) : Nat → Real → Prop
  | 0, _ => True
  | fuel + 1, s =>
    memoryLimit < s.memoryUse → shrinkEnd s.crcStart s.crcEnd ≠ s.crcStart ∧
      (∀ q ∈ leaf :: s.queue ++ settled, q.dataCrc < shrinkEnd s.crcStart s.crcEnd) ∧
      (s.evict (shrinkEnd s.crcStart s.crcEnd)).TameLimit memoryLimit settled leaf fuel

/-- Every record of a scan is met in such a state; `next` says what follows. -/
def Real.TameScan (k : Kernel) (memoryLimit fuel : Nat) (next : List Leaf → Real → Prop) :
    List Leaf → Real → List Leaf → Prop
  | settled, s, [] => next settled s
  | settled, s, leaf :: leaves =>
    if Skips s.crcStart s.crcEnd leaf.dataCrc then
      Real.TameScan k memoryLimit fuel next settled s leaves
    else
      s.TameLimit memoryLimit settled leaf fuel ∧
        ∀ r, s.process k memoryLimit fuel false leaf = .ok r →
          Real.TameScan k memoryLimit fuel next (if r.2 then settled else leaf :: settled) r.1
            leaves

def Real.TameDrain (k : Kernel) (memoryLimit fuel : Nat) : List Leaf → Real → List Leaf → Prop
  | _, _, [] => True
  | settled, s, leaf :: rest =>
    s.TameLimit memoryLimit settled leaf fuel ∧
      ∀ r, s.process k memoryLimit fuel true leaf = .ok r →
        Real.TameDrain k memoryLimit fuel (if r.2 then settled else leaf :: settled)
          (Real.dequeue r leaf rest) rest

def Real.TamePasses (k : Kernel) (memoryLimit fuel : Nat) (leaves : List Leaf) : Nat → Real → Prop
  | 0, _ => True
  | n + 1, s =>
    Real.TameScan k memoryLimit fuel
        (fun settled s => Real.TameDrain k memoryLimit fuel settled s s.queue) [] s.begin leaves ∧
      ∀ s', s.pass k memoryLimit fuel leaves = .ok s' → s'.crcEnd ≠ 0 →
        s'.TamePasses k memoryLimit fuel leaves n

instance Real.decidableTameLimit (memoryLimit : Nat) (settled : List Leaf) (leaf : Leaf) :
    (fuel : Nat) → (s : Real) → Decidable (s.TameLimit memoryLimit settled leaf fuel)
  | 0, _ => inferInstanceAs (Decidable True)
  | fuel + 1, s =>
    have := Real.decidableTameLimit memoryLimit settled leaf fuel
      (s.evict (shrinkEnd s.crcStart s.crcEnd))
    inferInstanceAs (Decidable (_ → _ ∧ _ ∧ _))

instance Real.decidableTameScan (k : Kernel) (memoryLimit fuel : Nat)
    (next : List Leaf → Real → Prop) [∀ settled s, Decidable (next settled s)] :
    (settled : List Leaf) → (s : Real) → (leaves : List Leaf) →
      Decidable (Real.TameScan k memoryLimit fuel next settled s leaves)
  | settled, s, [] => inferInstanceAs (Decidable (next settled s))
  | _, s, leaf :: leaves =>
    have (settled : List Leaf) (s : Real) :=
      Real.decidableTameScan k memoryLimit fuel next settled s leaves
    inferInstanceAs
      (Decidable (if Skips s.crcStart s.crcEnd leaf.dataCrc then _ else _ ∧ ∀ _, _ → _))

instance Real.decidableTameDrain (k : Kernel) (memoryLimit fuel : Nat) :
    (settled : List Leaf) → (s : Real) → (queue : List Leaf) →
      Decidable (Real.TameDrain k memoryLimit fuel settled s queue)
  | _, _, [] => inferInstanceAs (Decidable True)
  | _, _, _ :: rest =>
    have (settled : List Leaf) (s : Real) :=
      Real.decidableTameDrain k memoryLimit fuel settled s rest
    inferInstanceAs (Decidable (_ ∧ ∀ _, _ → _))

instance Real.decidableTamePasses (k : Kernel) (memoryLimit fuel : Nat) (leaves : List Leaf) :
    (n : Nat) → (s : Real) → Decidable (s.TamePasses k memoryLimit fuel leaves n)
  | 0, _ => inferInstanceAs (Decidable True)
  | n + 1, _ =>
    have (s' : Real) := Real.decidableTamePasses k memoryLimit fuel leaves n s'
    inferInstanceAs (Decidable (_ ∧ ∀ _, _ → (_ → _)))

/-- Trees, queue and the early terminated records together have what the window has let through;
    the last ones are in `dedup_ref_size` already. -/
structure Real.Counts (s : Real) (base : Nat) (settled seen : List Leaf) : Prop where
  proper : Proper s.crcStart s.crcEnd
  refSize : s.refSize = base + (settled.map Leaf.dataLen).sum
  tally : Tally s.crcStart s.crcEnd seen fun p =>
    s.treeWeight p + leafWeight s.queue p + leafWeight settled p

section

variable {k : Kernel} {memoryLimit fuel base : Nat} {settled seen leaves : List Leaf} {leaf : Leaf}
  {s t : Real}

theorem leafWeight_below {l : List Leaf} {x : Nat} (h : ∀ q ∈ l, q.dataCrc < x) (p : Nat → Bool) :
    (leafWeight l fun crc => p crc && decide (crc < x)) = leafWeight l p :=
  weight_congr fun q hq => by simp [h q hq]

theorem Real.evict_fields (s : Real) (crcEnd : Nat) : (s.evict crcEnd).crcStart = s.crcStart ∧
    (s.evict crcEnd).crcEnd = crcEnd ∧ (s.evict crcEnd).queue = s.queue :=
  ⟨rfl, rfl, rfl⟩

/-- Nothing that counts is above a new end of the window, the trees apart. -/
theorem Real.Counts.evict {crcEnd : Nat} (h : s.Counts base settled seen)
    (hend : shrinkEnd s.crcStart s.crcEnd = crcEnd) (hne : crcEnd ≠ s.crcStart)
    (hqueue : ∀ q ∈ s.queue, q.dataCrc < crcEnd) (hsettled : ∀ q ∈ settled, q.dataCrc < crcEnd) :
    (s.evict crcEnd).Counts base settled seen := by
  have hproper := (shrinkEnd_spec h.proper (hend ▸ hne)).1
  have htally := h.tally.shrink h.proper (hend ▸ hne)
  rw [hend] at hproper htally
  refine ⟨hproper, h.refSize, fun p => ?_⟩
  have hp := htally p
  dsimp only at hp
  rw [leafWeight_below hqueue, leafWeight_below hsettled] at hp
  have htree : (s.evict crcEnd).treeWeight p
      = s.treeWeight fun crc => p crc && decide (crc < crcEnd) :=
    weight_filter (q := fun crc => decide (crc < crcEnd))
  rw [← htree] at hp
  exact hp

theorem Real.Counts.limit (h : s.Counts base settled seen)
    (ht : s.TameLimit memoryLimit settled leaf fuel) (hl : s.limit memoryLimit fuel = .ok t) :
    t.Counts base settled seen ∧ t.crcStart = s.crcStart ∧ t.queue = s.queue ∧
      (inWindow s.crcStart s.crcEnd leaf.dataCrc = true →
        inWindow t.crcStart t.crcEnd leaf.dataCrc = true) := by
  induction fuel generalizing s with
  | zero => cases hl
  | succ fuel ih =>
    rw [Real.limit] at hl
    rw [Real.TameLimit] at ht
    generalize hend : shrinkEnd s.crcStart s.crcEnd = crcEnd at hl ht
    split at hl
    · rename_i hlim
      obtain ⟨hne, hbelow, htail⟩ := ht hlim
      obtain ⟨hc, hstart, hq, hin⟩ := ih (h.evict hend hne (fun q hq => hbelow q (by simp [hq]))
        fun q hq => hbelow q (by simp [hq])) htail hl
      obtain ⟨h1, h2, h3⟩ := s.evict_fields crcEnd
      rw [h1] at hstart hin
      rw [h2] at hin
      rw [h3] at hq
      exact ⟨hc, hstart, hq, fun hw => hin (inWindow_of_lt hw (hbelow leaf (by simp)))⟩
    · cases hl
      exact ⟨h, rfl, rfl, id⟩

variable {r : Real × Bool}

theorem Real.process_ok {pass2 : Bool} (h : s.process k memoryLimit fuel pass2 leaf = .ok r) :
    ∃ t, s.limit memoryLimit fuel = .ok t ∧ t.Counted pass2 leaf r := by
  rw [Real.process] at h
  cases hl : s.limit memoryLimit fuel with
  | error e =>
    rw [hl] at h
    cases h
  | ok t =>
    rw [hl] at h
    exact ⟨t, rfl, (Real.collect_takes h).counted⟩

/-- Where the sum of `Counted` goes when a record was terminated early. -/
theorem leafWeight_settle (settled : List Leaf) (leaf : Leaf) (early : Bool) (p : Nat → Bool) :
    leafWeight (if early then settled else leaf :: settled) p
      = (if early then 0 else if p leaf.dataCrc then leaf.dataLen else 0) +
        leafWeight settled p := by
  cases early <;> simp

theorem sum_settle (settled : List Leaf) (leaf : Leaf) (early : Bool) :
    ((if early then settled else leaf :: settled).map Leaf.dataLen).sum
      = (if early then 0 else leaf.dataLen) + (settled.map Leaf.dataLen).sum := by
  cases early <;> simp

theorem Real.Counts.process (h : s.Counts base settled seen)
    (hin : inWindow s.crcStart s.crcEnd leaf.dataCrc = true)
    (ht : s.TameLimit memoryLimit settled leaf fuel)
    (hr : s.process k memoryLimit fuel false leaf = .ok r) :
    r.1.Counts base (if r.2 then settled else leaf :: settled) (seen ++ [leaf]) ∧
      r.1.crcStart = s.crcStart := by
  obtain ⟨t, hl, hc⟩ := Real.process_ok hr
  obtain ⟨hcounts, hstart, -, hin'⟩ := h.limit ht hl
  refine ⟨⟨?_, ?_, ?_⟩, hc.crcStart.trans hstart⟩
  · rw [hc.crcStart, hc.crcEnd]
    exact hcounts.proper
  · rw [hc.refSize, hcounts.refSize, sum_settle]
    omega
  · rw [hc.crcStart, hc.crcEnd]
    refine hcounts.tally.count (hin' hin) fun p => ?_
    have := hc.tree p
    rw [leafWeight_settle]
    omega

theorem Real.Counts.scan {next : List Leaf → Real → Prop} (h : s.Counts base settled seen)
    (ht : Real.TameScan k memoryLimit fuel next settled s leaves)
    (hs : s.scan k memoryLimit fuel leaves = .ok t) :
    ∃ settled', t.Counts base settled' (seen ++ leaves) ∧ t.crcStart = s.crcStart ∧
      next settled' t := by
  induction leaves generalizing s seen settled with
  | nil =>
    cases hs
    rw [List.append_nil]
    exact ⟨settled, h, rfl, ht⟩
  | cons leaf leaves ih =>
    rw [Real.TameScan] at ht
    rw [Real.scan] at hs
    rw [show seen ++ leaf :: leaves = seen ++ [leaf] ++ leaves by simp]
    by_cases hskip : Skips s.crcStart s.crcEnd leaf.dataCrc
    · rw [if_pos hskip] at ht hs
      exact ih ⟨h.proper, h.refSize, h.tally.skip ((skips_iff h.proper).mp hskip)⟩ ht hs
    · rw [if_neg hskip] at ht hs
      have hin : inWindow s.crcStart s.crcEnd leaf.dataCrc = true := by
        rw [skips_iff h.proper] at hskip
        simpa using hskip
      cases hr : s.process k memoryLimit fuel false leaf with
      | error e =>
        rw [hr] at hs
        cases hs
      | ok r =>
        rw [hr] at hs
        obtain ⟨hc, hstart⟩ := h.process hin ht.1 hr
        obtain ⟨settled', h1, h2, h3⟩ := ih hc (ht.2 r hr) hs
        exact ⟨settled', h1, h2.trans hstart, h3⟩

/-- A record of the queue was in the sums before. -/
theorem Real.Counts.dequeue {rest : List Leaf} (h : s.Counts base settled seen)
    (hqueue : s.queue = leaf :: rest) (ht : s.TameLimit memoryLimit settled leaf fuel)
    (hr : s.process k memoryLimit fuel true leaf = .ok r) :
    (Real.dequeue r leaf rest).Counts base (if r.2 then settled else leaf :: settled) seen ∧
      (Real.dequeue r leaf rest).crcStart = s.crcStart := by
  obtain ⟨t, hl, hc⟩ := Real.process_ok hr
  obtain ⟨hcounts, hstart, hq, -⟩ := h.limit ht hl
  refine ⟨⟨?_, ?_, fun p => ?_⟩, hc.crcStart.trans hstart⟩
  · rw [Real.dequeue, hc.crcStart, hc.crcEnd]
    exact hcounts.proper
  · rw [Real.dequeue, hc.refSize, hcounts.refSize, sum_settle]
    omega
  · have htally := hcounts.tally p
    have htree := hc.tree p
    rw [hc.queue rfl, hq, hqueue] at htree
    change r.1.treeWeight p + leafWeight rest p +
      leafWeight (if r.2 then settled else leaf :: settled) p
        = leafWeight seen fun crc => p crc && inWindow r.1.crcStart r.1.crcEnd crc
    rw [hc.crcStart, hc.crcEnd, ← htally, leafWeight_settle]
    dsimp only [leafWeight] at htree ⊢
    rw [hq, hqueue, weight_cons]
    rw [weight_cons] at htree
    omega

theorem Real.Counts.drain {queue : List Leaf} (h : s.Counts base settled seen)
    (hqueue : s.queue = queue) (ht : Real.TameDrain k memoryLimit fuel settled s queue)
    (hs : s.drain k memoryLimit fuel queue = .ok t) :
    ∃ settled', t.Counts base settled' seen ∧ t.crcStart = s.crcStart ∧ t.queue = [] := by
  induction queue generalizing s settled with
  | nil =>
    cases hs
    exact ⟨settled, h, rfl, hqueue⟩
  | cons leaf rest ih =>
    rw [Real.drain] at hs
    cases hr : s.process k memoryLimit fuel true leaf with
    | error e =>
      rw [hr] at hs
      cases hs
    | ok r =>
      rw [hr] at hs
      obtain ⟨hc, hstart⟩ := h.dequeue hqueue ht.1 hr
      obtain ⟨settled', h1, h2, h3⟩ := ih hc rfl (ht.2 r hr) hs
      exact ⟨settled', h1, h2.trans hstart, h3⟩

theorem Real.flush_ok {s' : Real} (h : s.flush = .ok s') : s'.tree = [] ∧
    s'.crcEnd = s.crcEnd ∧ s'.queue = s.queue ∧
    s'.refSize = s.refSize + (s.tree.map Entry.size).sum := by
  rw [Real.flush] at h
  split at h <;> cases h
  exact ⟨rfl, rfl, rfl, rfl⟩

theorem Real.pass_ok (h : s.pass k memoryLimit fuel leaves = .ok t) :
    ∃ s₁ s₂, s.begin.scan k memoryLimit fuel leaves = .ok s₁ ∧
      s₁.drain k memoryLimit fuel s₁.queue = .ok s₂ ∧ s₂.flush = .ok t := by
  rw [Real.pass] at h
  split at h
  · cases h
  · rename_i s₁ h₁
    split at h
    · cases h
    · rename_i s₂ h₂
      exact ⟨s₁, s₂, h₁, h₂, h⟩

/-- One pass: what is below its window, and what it counts. -/
theorem Real.pass_refSize (hend : s.crcEnd < 2 ^ 32) (htree : s.tree = []) (hqueue : s.queue = [])
    (href : s.refSize = leafWeight leaves fun crc => decide (crc < s.crcEnd))
    (ht : Real.TameScan k memoryLimit fuel
      (fun settled s => Real.TameDrain k memoryLimit fuel settled s s.queue) [] s.begin leaves)
    (h : s.pass k memoryLimit fuel leaves = .ok t) :
    t.crcEnd < 2 ^ 32 ∧ t.tree = [] ∧ t.queue = [] ∧
      t.refSize = if t.crcEnd = 0 then (leaves.map Leaf.dataLen).sum
        else leafWeight leaves fun crc => decide (crc < t.crcEnd) := by
  obtain ⟨s₁, s₂, hscan, hdrain, hflush⟩ := Real.pass_ok h
  have hbegin : s.begin.Counts s.refSize [] [] := by
    refine ⟨⟨hend, Nat.two_pow_pos 32, .inl rfl⟩, rfl, fun p => ?_⟩
    rw [Real.begin, htree, hqueue]
    rfl
  obtain ⟨settled, h₁, hstart₁, htame⟩ := hbegin.scan ht hscan
  obtain ⟨settled', h₂, hstart₂, hqueue₂⟩ := h₁.drain rfl htame hdrain
  obtain ⟨htree', hend', hqueue', href'⟩ := Real.flush_ok hflush
  have hstart : s₂.crcStart = s.crcEnd := hstart₂.trans hstart₁
  refine ⟨hend' ▸ h₂.proper.2.1, htree', hqueue'.trans hqueue₂, ?_⟩
  have htotal := h₂.tally.total h₂.proper
  simp only [List.nil_append, hqueue₂, weight_true, List.map_nil, List.sum_nil, hstart, ← href,
    ← hend'] at htotal
  rw [← htotal, href', h₂.refSize]
  omega

theorem Real.passes_refSize {n : Nat} (hend : s.crcEnd < 2 ^ 32) (htree : s.tree = [])
    (hqueue : s.queue = [])
    (href : s.refSize = leafWeight leaves fun crc => decide (crc < s.crcEnd))
    (ht : s.TamePasses k memoryLimit fuel leaves n)
    (hrun : s.passes k memoryLimit fuel leaves n = .ok t) :
    t.refSize = (leaves.map Leaf.dataLen).sum := by
  induction n generalizing s with
  | zero => cases hrun
  | succ n ih =>
    rw [Real.passes] at hrun
    cases hp : s.pass k memoryLimit fuel leaves with
    | error e =>
      rw [hp] at hrun
      cases hrun
    | ok s' =>
      obtain ⟨hend', htree', hqueue', href'⟩ :=
        Real.pass_refSize hend htree hqueue href ht.1 hp
      rw [hp] at hrun
      dsimp only at hrun
      split at hrun
      · rename_i hne
        rw [if_neg hne] at href'
        exact ih hend' htree' hqueue' href' (ht.2 s' hp hne) hrun
      · rename_i hzero
        rw [if_pos (not_not.mp hzero)] at href'
        cases hrun
        exact href'

end

/-! ## Both tools -/

/-- Whatever MemoryLimit is, and whatever the ioctls return: when each cut of the window leaves in it
    what the pass has counted elsewhere, `dedup_ref_size` is the size of all records. -/
theorem dedup_accounts_once (k : Kernel) (leaves : List Leaf) (memoryLimit fuel n : Nat) :
    (∀ t, Sim.init.TamePasses memoryLimit leaves n →
      Sim.init.passes memoryLimit leaves n = .ok t →
        t.refSize = (leaves.map Leaf.dataLen).sum) ∧
    (∀ t, Real.init.TamePasses k memoryLimit fuel leaves n →
      Real.init.passes k memoryLimit fuel leaves n = .ok t →
        t.refSize = (leaves.map Leaf.dataLen).sum) := by
  have hnone : 0 = leafWeight leaves fun crc => decide (crc < 0) := by
    rw [leafWeight, weight]
    simp
  constructor
  · intro t ht hrun
    exact Sim.passes_refSize (Nat.two_pow_pos 32) rfl hnone ht hrun
  · intro t ht hrun
    exact Real.passes_refSize (Nat.two_pow_pos 32) rfl rfl hnone ht hrun

/-- The third record has the window cut back to the lower half, which throws out the second one; it
    is counted in the second pass. -/
theorem dedup_accounts_once_two_passes :
    (∃ t, Sim.init.passes 100 [⟨0, 0, 0, 1⟩, ⟨1, 2 ^ 31, 1, 2⟩, ⟨2, 1, 2, 3⟩] 2 = .ok t ∧
      t.refSize = 6) ∧
    ∃ t, Real.init.passes ⟨fun _ _ => .ok, fun _ => none⟩ 200 3
      [⟨0, 0, 0, 1⟩, ⟨1, 2 ^ 31, 1, 2⟩, ⟨2, 1, 2, 3⟩] 2 = .ok t ∧ t.refSize = 6 := by
  have h := dedup_accounts_once ⟨fun _ _ => .ok, fun _ => none⟩
    [⟨0, 0, 0, 1⟩, ⟨1, 2 ^ 31, 1, 2⟩, ⟨2, 1, 2, 3⟩]
  exact ⟨⟨_, rfl, (h 100 0 2).1 _ (by decide +kernel) rfl⟩,
    ⟨_, rfl, (h 200 3 2).2 _ (by decide +kernel) rfl⟩⟩

/-! ## A record that is counted twice -/

/-- Records of one byte with the CRCs from `m` on. -/
def crowd (m n : Nat) : List Leaf := (List.range' m n).map fun i => ⟨i, i, i, 1⟩

def crowdTree : Nat → List SimEntry
  | 0 => []
  | m + 1 => ⟨m, 1, 1⟩ :: crowdTree m

theorem mem_crowdTree {m : Nat} {e : SimEntry} (h : e ∈ crowdTree m) : e.crc < m ∧ e.refBlks = 1 := by
  induction m with
  | zero => cases h
  | succ m ih =>
    rcases List.mem_cons.mp h with rfl | h
    · exact ⟨Nat.lt_succ_self m, rfl⟩
    · exact ⟨(ih h).1.trans (Nat.lt_succ_self m), (ih h).2⟩

theorem sum_crowdTree (m : Nat) : ((crowdTree m).map SimEntry.refSize).sum = m := by
  induction m with
  | zero => rfl
  | succ m ih =>
    rw [crowdTree, List.map_cons, List.sum_cons, ih]
    exact Nat.add_comm 1 m

/-- Up to the limit the window stays open. -/
theorem Sim.scan_crowd {memoryLimit m n : Nat} (h : simEntrySize * (m + n) ≤ memoryLimit + simEntrySize)
    (leaves : List Leaf) :
    Sim.scan memoryLimit ⟨0, 0, simEntrySize * m, crowdTree m, 0, 0⟩ (crowd m n ++ leaves)
      = Sim.scan memoryLimit ⟨0, 0, simEntrySize * (m + n), crowdTree (m + n), 0, 0⟩ leaves := by
  induction n generalizing m with
  | zero => rfl
  | succ n ih =>
    have hlim : ¬ memoryLimit < simEntrySize * m := by
      rw [simEntrySize] at h ⊢
      omega
    have hfind : (crowdTree m).find? (fun e => e.crc = m) = none := by
      rw [List.find?_eq_none]
      intro e he
      simpa using (mem_crowdTree he).1.ne
    have hstep := ih (m := m + 1) (by rwa [Nat.add_assoc, Nat.add_comm 1])
    rw [Nat.add_assoc, Nat.add_comm 1] at hstep
    rw [← hstep, crowd, List.range'_succ, List.map_cons, List.cons_append, Sim.scan,
      if_neg (by simp [Skips]), Sim.collect, Sim.limit, if_neg hlim, Sim.insert]
    dsimp only
    rw [hfind]
    rfl

theorem Sim.scan_skipped {memoryLimit : Nat} {s : Sim} {leaves : List Leaf}
    (h : ∀ leaf ∈ leaves, Skips s.crcStart s.crcEnd leaf.dataCrc) (rest : List Leaf) :
    s.scan memoryLimit (leaves ++ rest) = s.scan memoryLimit rest := by
  induction leaves with
  | nil => rfl
  | cons leaf leaves ih =>
    rw [List.cons_append, Sim.scan, if_pos (h leaf List.mem_cons_self)]
    exact ih fun leaf hleaf => h leaf (List.mem_cons_of_mem _ hleaf)

theorem sum_crowd (m n : Nat) : ((crowd m n).map Leaf.dataLen).sum = n := by
  simp [crowd, Function.comp_def]

section

variable {memoryLimit n crcEnd : Nat} {last : Leaf}

/-- The record at which the limit is found to be exceeded goes to the tree although the window was
    cut back below its CRC. -/
theorem Sim.scan_first (hle : memoryLimit < simEntrySize * n)
    (hge : simEntrySize * n ≤ memoryLimit + simEntrySize) (hend : shrinkEnd 0 0 = crcEnd)
    (hn : n ≤ crcEnd) (hlast : crcEnd ≤ last.dataCrc) :
    Sim.scan memoryLimit ⟨0, 0, 0, [], 0, 0⟩ (crowd 0 n ++ [last])
      = ⟨0, crcEnd, simEntrySize * n + simEntrySize,
          ⟨last.dataCrc, 1, last.dataLen⟩ :: crowdTree n, 0, 0⟩ := by
  have hfilter : (crowdTree n).filter (fun e => decide (e.crc < crcEnd)) = crowdTree n :=
    List.filter_eq_self.mpr fun e he => by simpa using (mem_crowdTree he).1.trans_le hn
  have hfind : (crowdTree n).find? (fun e => e.crc = last.dataCrc) = none := by
    rw [List.find?_eq_none]
    intro e he
    have := (mem_crowdTree he).1
    simp only [decide_eq_true_eq]
    omega
  have hcrowd := Sim.scan_crowd (m := 0) (n := n) (by rwa [Nat.zero_add]) [last]
  rw [Nat.zero_add] at hcrowd
  refine Eq.trans hcrowd ?_
  rw [Sim.scan, if_neg (by simp [Skips]), Sim.collect, Sim.limit, if_pos hle]
  dsimp only
  rw [hend, hfilter, Nat.sub_self, Nat.mul_zero, Nat.sub_zero, Sim.insert]
  dsimp only
  rw [hfind]
  rfl

/-- The next pass meets it again. -/
theorem Sim.scan_second (hpos : 0 < crcEnd) (hn : n ≤ crcEnd) (hlast : crcEnd ≤ last.dataCrc)
    (refSize allocSize : Nat) :
    Sim.scan memoryLimit ⟨crcEnd, 0, 0, [], refSize, allocSize⟩ (crowd 0 n ++ [last])
      = ⟨crcEnd, 0, simEntrySize, [⟨last.dataCrc, 1, last.dataLen⟩], refSize, allocSize⟩ := by
  have hskip : ∀ leaf ∈ crowd 0 n, Skips crcEnd 0 leaf.dataCrc := by
    intro leaf hleaf
    obtain ⟨i, hi, rfl⟩ := List.mem_map.mp hleaf
    rw [List.mem_range'_1] at hi
    exact ⟨by omega, .inl (show i < crcEnd by omega)⟩
  have hkeep : ¬ Skips crcEnd 0 last.dataCrc := by
    rw [Skips]
    omega
  rw [Sim.scan_skipped hskip, Sim.scan, if_neg hkeep, Sim.collect, Sim.limit,
    if_neg (Nat.not_lt_zero memoryLimit)]
  rfl

theorem Sim.passes_crowd (hle : memoryLimit < simEntrySize * n)
    (hge : simEntrySize * n ≤ memoryLimit + simEntrySize) (hend : shrinkEnd 0 0 = crcEnd)
    (hpos : 0 < crcEnd) (hn : n ≤ crcEnd) (hlast : crcEnd ≤ last.dataCrc) :
    ∃ t, Sim.init.passes memoryLimit (crowd 0 n ++ [last]) 2 = .ok t ∧
      t.refSize = last.dataLen + n + last.dataLen := by
  have hblks : ∀ e ∈ (⟨last.dataCrc, 1, last.dataLen⟩ :: crowdTree n : List SimEntry),
      e.refBlks ≠ 0 := by
    intro e he
    rcases List.mem_cons.mp he with rfl | he
    · exact Nat.one_ne_zero
    · rw [(mem_crowdTree he).2]
      exact Nat.one_ne_zero
  have hone : ∀ e ∈ ([⟨last.dataCrc, 1, last.dataLen⟩] : List SimEntry), e.refBlks ≠ 0 := by simp
  rw [Sim.passes, Sim.init, Sim.begin, Sim.scan_first hle hge hend hn hlast, Sim.flush,
    if_pos hblks]
  dsimp only
  rw [if_pos hpos.ne', Sim.passes, Sim.begin, Sim.scan_second hpos hn hlast, Sim.flush,
    if_pos hone]
  dsimp only
  rw [if_neg (fun h => h rfl)]
  refine ⟨_, rfl, ?_⟩
  simp [sum_crowdTree]

end

/-- 18725 records with the CRCs from 0 on use more than 1 MB; the record behind them is in the upper
    half of the CRCs. -/
theorem dedup_counts_twice : ∃ t,
    Sim.init.passes (1024 * 1024) (crowd 0 18725 ++ [⟨18725, 2 ^ 31, 18725, 1⟩]) 2 = .ok t ∧
      t.refSize = 18727 ∧
      (List.map Leaf.dataLen (crowd 0 18725 ++ [⟨18725, 2 ^ 31, 18725, 1⟩])).sum = 18726 := by
  obtain ⟨t, ht, hsize⟩ := @Sim.passes_crowd (1024 * 1024) 18725 _ ⟨18725, 2 ^ 31, 18725, 1⟩
    (by decide) (by decide) rfl (by decide) (by decide) (by decide)
  refine ⟨t, ht, hsize, ?_⟩
  rw [List.map_append, List.sum_append, sum_crowd]
  rfl

end Lh1.Hammer.Dedup
