/-
  The books of one pass of dedup (process_btree_elm of cmd_dedup.c).

  Here the entries are as they lie in memory. The union of a dedup_entry remembers the member that
  was written last, FICTITIOUS is a flag next to it, and it is a fault to use the other member.
  process_btree_elm is left through the labels of its end, so that it is seen which records failed.
  Every call has a kernel of its own: what the ioctls answer may change from call to call, and no
  call asks for the same thing twice. What the data of a record hashes to is left to the kernel.

  * `Raw.collect_refines`: behind the test of the memory limit, process_btree_elm does to the
    entries in memory what `Real.collect` does to the tree.
  * `Real.Books.moves`: the books are kept whatever a record does to the tree.
  * `pass_books`: in both passes the books are kept, no assertion on them fails, and the bytes that
    are left skipped are those of the records that failed twice.
-/
import Lh1.Hammer.DedupPasses

namespace Lh1.Hammer.Dedup

open Lib

/-! ## The entries in memory -/

/-- The union of `struct dedup_entry`, by the member that was written last. -/
inductive Member where
  | de (refBlks refSize : Nat)
  | fictRoot (shas : List ShaEntry)
  deriving DecidableEq, Repr

/-- `struct dedup_entry`, with HAMMER_DEDUP_ENTRY_FICTITIOUS of its flags. -/
structure Slot where
  leaf : Leaf
  u : Member
  fictitious : Bool
  deriving DecidableEq, Repr

def Slot.crc (e : Slot) : Nat := e.leaf.dataCrc

inductive Trap where
  /-- The member of a union is used that was not written last. -/
  | member
  /-- A pointer to no entry is followed. -/
  | null
  | assert
  /-- "HAMMER filesystem must be at least version 5 to dedup". -/
  | exit
  /-- MemoryUse is above MemoryLimit. -/
  | limit
  deriving DecidableEq, Repr

/-- `dedup_tree`, and the other global variables; the tree among them is not used. -/
structure Raw where
  slots : List Slot
  globals : Real
  deriving DecidableEq, Repr

/-- The end of `process_btree_elm` that is gone to; `sha_de` is given by its hash. -/
inductive Exit where
  | upgradeStats
  | upgradeStatsSha (hash : Nat)
  | pass2Insert
  | terminateEarly
  deriving DecidableEq, Repr

def Raw.lookup (s : Raw) (crc : Nat) : Option Slot := s.slots.find? fun e => e.crc = crc

def Raw.setSlot (s : Raw) (crc memory : Nat) (e : Slot) : Raw :=
  ⟨update Slot.crc crc (fun _ => e) s.slots,
    { s.globals with memoryUse := s.globals.memoryUse + memory }⟩

def Raw.deduplicate (k : Kernel) (s : Raw) (p q : Leaf) : DedupResult × Raw :=
  ((s.globals.deduplicate k p q).1, ⟨s.slots, (s.globals.deduplicate k p q).2⟩)

/-- `sha256_failure`. -/
def Raw.shaFailure (s : Raw) : Raw × Exit :=
  (⟨s.slots, { s.globals with shaFailures := s.globals.shaFailures + 1 }⟩, .terminateEarly)

def Raw.underflow (s : Raw) : Raw :=
  ⟨s.slots, { s.globals with underflows := s.globals.underflows + 1 }⟩

/-- A new entry of a SHA tree, before `upgrade_stats_sha`. -/
def newSha (leaf : Leaf) (hash : Nat) (shas : List ShaEntry) : List ShaEntry :=
  shas.orderedInsert (fun a b => a.hash ≤ b.hash) ⟨leaf, 0, 0, hash⟩

/-- `crc_failure`. The statistics of the entry go to its SHA entry before the union becomes a
    tree. -/
def Raw.crcFailure (k : Kernel) (s : Raw) (de : Slot) (leaf : Leaf) : Except Trap (Raw × Exit) :=
  let s : Raw := ⟨s.slots, { s.globals with crcFailures := s.globals.crcFailures + 1 }⟩
  match de.u with
  | .fictRoot _ => .error .member
  | .de refBlks refSize =>
    match k.hash de.leaf with
    | none => .ok (s, .pass2Insert)
    | some h =>
      let shas : List ShaEntry := [⟨de.leaf, refBlks, refSize, h⟩]
      let s := s.setSlot leaf.dataCrc shaEntrySize ⟨de.leaf, .fictRoot shas, true⟩
      match k.hash leaf with
      | none => .ok (s, .pass2Insert)
      | some h' =>
        match shas.find? fun e => e.hash = h' with
        | some _ => .ok s.shaFailure
        | none =>
          .ok (s.setSlot leaf.dataCrc shaEntrySize
            ⟨de.leaf, .fictRoot (newSha leaf h' shas), true⟩, .upgradeStatsSha h')

/-- A record whose entry is not fictitious. -/
def Raw.searchPlain (k : Kernel) (s : Raw) (de : Slot) (leaf : Leaf) :
    Except Trap (Raw × Exit) :=
  if ¬ ValidPair de.leaf leaf then s.crcFailure k de leaf
  else
    match s.deduplicate k de.leaf leaf with
    | (.ok, s) => .ok (s, .upgradeStats)
    | (.techFailure, s) => .ok (s, .pass2Insert)
    | (.cmpFailure, s) => s.crcFailure k de leaf
    | (.invalidZone, s) => .ok (s, .terminateEarly)
    | (.underflow, s) =>
      .ok (s.underflow.setSlot leaf.dataCrc 0 { de with leaf := leaf }, .upgradeStats)
    | (.versFailure, _) => .error .exit

/-- A record with a SHA entry; `temp` is `temp.sha_hash`. -/
def Raw.searchPair (k : Kernel) (s : Raw) (de : Slot) (shas : List ShaEntry) (sha : ShaEntry)
    (temp : Nat) (leaf : Leaf) : Except Trap (Raw × Exit) :=
  if ¬ ValidPair sha.leaf leaf then .ok s.shaFailure
  else
    match s.deduplicate k sha.leaf leaf with
    | (.ok, s) => .ok (s, .upgradeStatsSha sha.hash)
    | (.techFailure, s) => .ok (s, .pass2Insert)
    | (.cmpFailure, s) => .ok s.shaFailure
    | (.invalidZone, s) => .ok (s, .terminateEarly)
    | (.underflow, s) =>
      let shas :=
        update ShaEntry.hash sha.hash (fun e => { e with leaf := leaf, hash := temp }) shas
      .ok (s.underflow.setSlot leaf.dataCrc 0 { de with u := .fictRoot shas },
        .upgradeStatsSha temp)
    | (.versFailure, _) => .error .exit

/-- A record whose entry is fictitious. -/
def Raw.searchSha (k : Kernel) (s : Raw) (de : Slot) (leaf : Leaf) : Except Trap (Raw × Exit) :=
  match de.u with
  | .de _ _ => .error .member
  | .fictRoot shas =>
    match shas.find? fun e =>
      e.leaf.dataOffset = leaf.dataOffset ∧ e.leaf.dataLen = leaf.dataLen with
    | some sha => s.searchPair k de shas sha sha.hash leaf
    | none =>
      match k.hash leaf with
      | none => .ok (s, .pass2Insert)
      | some h =>
        match shas.find? fun e => e.hash = h with
        | some sha => s.searchPair k de shas sha h leaf
        | none =>
          .ok (s.setSlot leaf.dataCrc shaEntrySize
            { de with u := .fictRoot (newSha leaf h shas) }, .upgradeStatsSha h)

/-- `process_btree_elm` between the test of the memory limit and the labels of its end. -/
def Raw.search (k : Kernel) (s : Raw) (leaf : Leaf) : Except Trap (Raw × Exit) :=
  match s.lookup leaf.dataCrc with
  | none =>
    -- calloc: no flag, and statistics of zero
    .ok (⟨⟨leaf, .de 0 0, false⟩ :: s.slots,
      { s.globals with memoryUse := s.globals.memoryUse + entrySize }⟩, .upgradeStats)
  | some de => if de.fictitious then s.searchSha k de leaf else s.searchPlain k de leaf

/-- The labels at the end of `process_btree_elm`. -/
def Raw.leave (s : Raw) (pass2 : Bool) (leaf : Leaf) : Exit → Except Trap (Raw × Bool)
  | .upgradeStats =>
    match s.lookup leaf.dataCrc with
    | none => .error .null
    | some de =>
      match de.u with
      | .fictRoot _ => .error .member
      | .de refBlks refSize =>
        .ok (s.setSlot leaf.dataCrc 0
          { de with u := .de (refBlks + 1) (refSize + leaf.dataLen) }, true)
  | .upgradeStatsSha hash =>
    match s.lookup leaf.dataCrc with
    | none => .error .null
    | some de =>
      match de.u with
      | .de _ _ => .error .member
      | .fictRoot shas =>
        let shas := update ShaEntry.hash hash (ShaEntry.upgrade leaf false) shas
        .ok (s.setSlot leaf.dataCrc 0 { de with u := .fictRoot shas }, true)
  | .pass2Insert =>
    .ok (⟨s.slots, (s.globals.pass2Insert pass2 leaf).1⟩, (s.globals.pass2Insert pass2 leaf).2)
  | .terminateEarly => .ok (⟨s.slots, (s.globals.terminateEarly leaf).1⟩, false)

/-- `process_btree_elm` behind the test of the memory limit. -/
def Raw.collect (k : Kernel) (s : Raw) (pass2 : Bool) (leaf : Leaf) : Except Trap (Raw × Bool) :=
  match s.search k leaf with
  | .error t => .error t
  | .ok (s, exit) => s.leave pass2 leaf exit

/-! ## The tree of the entries -/

def Member.refs : Member → Refs
  | .de refBlks refSize => .plain refBlks refSize
  | .fictRoot shas => .fictitious shas

def Slot.entry (e : Slot) : Entry := ⟨e.leaf, e.u.refs⟩

def Raw.abs (s : Raw) : Real := { s.globals with tree := s.slots.map Slot.entry }

/-- The union is a SHA tree if and only if the entry is marked. -/
def Slot.Tagged (e : Slot) : Prop := e.fictitious = true ↔ ∃ shas, e.u = .fictRoot shas

def Raw.Tagged (s : Raw) : Prop := ∀ e ∈ s.slots, e.Tagged

theorem tagged_de (leaf : Leaf) (refBlks refSize : Nat) :
    Slot.Tagged ⟨leaf, .de refBlks refSize, false⟩ := by
  constructor
  · intro h
    cases h
  · intro h
    obtain ⟨shas, h⟩ := h
    cases h

theorem tagged_fictRoot (leaf : Leaf) (shas : List ShaEntry) :
    Slot.Tagged ⟨leaf, .fictRoot shas, true⟩ :=
  ⟨fun _ => ⟨shas, rfl⟩, fun _ => rfl⟩

section Raw

variable {s : Raw} {k : Kernel} {pass2 : Bool} {leaf : Leaf} {de e : Slot} {crc memory : Nat}
  {shas : List ShaEntry} {sha : ShaEntry}

theorem lookup_mem (hde : s.lookup crc = some de) : de ∈ s.slots := List.mem_of_find?_eq_some hde

theorem lookup_crc (hde : s.lookup crc = some de) : de.crc = crc := by
  simpa using List.find?_some hde

theorem abs_find? (s : Raw) (crc : Nat) :
    s.abs.tree.find? (fun e => e.crc = crc) = (s.lookup crc).map Slot.entry := by
  rw [Raw.abs, List.find?_map]
  rfl

theorem lookup_setSlot (hde : s.lookup crc = some de) (hcrc : e.crc = crc) :
    (s.setSlot crc memory e).lookup crc = some e :=
  find?_update hde hcrc

theorem setSlot_setSlot {memory' : Nat} {e' : Slot} (hde : s.lookup crc = some de)
    (hcrc : e.crc = crc) :
    (s.setSlot crc memory e).setSlot crc memory' e' = s.setSlot crc (memory + memory') e' := by
  have hupdate : update Slot.crc crc (fun _ => e') (update Slot.crc crc (fun _ => e) s.slots)
      = update Slot.crc crc (fun _ => e') s.slots := update_update (f := fun _ => e) hde hcrc
  simp only [Raw.setSlot, hupdate, Nat.add_assoc]

theorem abs_setSlot {f : Entry → Entry} (hde : s.lookup crc = some de)
    (hf : e.entry = f de.entry) : (s.setSlot crc memory e).abs = s.abs.setEntry crc memory f := by
  have hmap : (update Slot.crc crc (fun _ => e) s.slots).map Slot.entry
      = update Entry.crc crc f (s.slots.map Slot.entry) :=
    map_update (f := fun _ => e) hde (fun _ => rfl) hf
  simp only [Raw.abs, Raw.setSlot, Real.setEntry, hmap]

theorem Raw.Tagged.setSlot (h : s.Tagged) (hde : s.lookup crc = some de) (he : e.Tagged) :
    (s.setSlot crc memory e).Tagged := by
  intro x hx
  rcases mem_update hde hx with hx | rfl
  · exact h x hx
  · exact he

theorem Slot.Tagged.eq_de (h : de.Tagged) (hplain : de.fictitious = false) :
    ∃ refBlks refSize, de = ⟨de.leaf, .de refBlks refSize, false⟩ := by
  obtain ⟨l, u, fict⟩ := de
  dsimp only at hplain
  subst hplain
  cases u with
  | de refBlks refSize => exact ⟨refBlks, refSize, rfl⟩
  | fictRoot shas => cases h.mpr ⟨shas, rfl⟩

theorem Slot.Tagged.eq_fictRoot (h : de.Tagged) (hfict : de.fictitious = true) :
    ∃ shas, de = ⟨de.leaf, .fictRoot shas, true⟩ := by
  obtain ⟨shas, hu⟩ := h.mp hfict
  obtain ⟨l, u, fict⟩ := de
  dsimp only at hu hfict
  subst hu hfict
  exact ⟨shas, rfl⟩

theorem Raw.deduplicate_abs (k : Kernel) (s : Raw) (p q : Leaf) :
    s.abs.deduplicate k p q = ((s.deduplicate k p q).1, (s.deduplicate k p q).2.abs) := by
  unfold Raw.deduplicate Real.deduplicate
  split
  · rfl
  · split <;> rfl

/-! ## The entries refine the tree -/

/-- What has been done in memory is what was to be done to the tree. -/
def Refines : Except Trap (Raw × Bool) → Except Fault (Real × Bool) → Prop
  | .ok r, y => r.1.Tagged ∧ y = .ok (r.1.abs, r.2)
  | .error t, y => t = .exit ∧ y = .error .exit

/-- What the ends of process_btree_elm add to what it has done before. -/
def Leaves (pass2 : Bool) (leaf : Leaf) :
    Except Trap (Raw × Exit) → Except Fault (Real × Bool) → Prop
  | .ok p, y => Refines (p.1.leave pass2 leaf p.2) y
  | .error t, y => t = .exit ∧ y = .error .exit

theorem leaves_pass2Insert (h : s.Tagged) :
    Leaves pass2 leaf (.ok (s, .pass2Insert)) (.ok (s.abs.pass2Insert pass2 leaf)) := by
  refine ⟨h, ?_⟩
  cases pass2 <;> rfl

theorem leaves_terminateEarly (h : s.Tagged) :
    Leaves pass2 leaf (.ok (s, .terminateEarly)) (.ok (s.abs.terminateEarly leaf)) := ⟨h, rfl⟩

theorem leaves_shaFailure (h : s.Tagged) :
    Leaves pass2 leaf (.ok s.shaFailure) (.ok (s.abs.shaFailure leaf)) := ⟨h, rfl⟩

variable {l : Leaf}

/-- `upgrade_stats` after the entry has been written. -/
theorem leave_upgradeStats {refBlks refSize : Nat} (hde : s.lookup leaf.dataCrc = some de)
    (hcrc : l.dataCrc = leaf.dataCrc) :
    (s.setSlot leaf.dataCrc memory ⟨l, .de refBlks refSize, false⟩).leave pass2 leaf .upgradeStats
      = .ok (s.setSlot leaf.dataCrc memory
          ⟨l, .de (refBlks + 1) (refSize + leaf.dataLen), false⟩, true) := by
  have hcrc' : Slot.crc ⟨l, .de refBlks refSize, false⟩ = leaf.dataCrc := hcrc
  rw [Raw.leave, lookup_setSlot hde hcrc']
  dsimp only
  rw [setSlot_setSlot hde hcrc', Nat.add_zero]

/-- `upgrade_stats_sha` after the entry has been written. -/
theorem leave_upgradeStatsSha {hash : Nat} (hde : s.lookup leaf.dataCrc = some de)
    (hcrc : l.dataCrc = leaf.dataCrc) :
    (s.setSlot leaf.dataCrc memory ⟨l, .fictRoot shas, true⟩).leave pass2 leaf
        (.upgradeStatsSha hash)
      = .ok (s.setSlot leaf.dataCrc memory
          ⟨l, .fictRoot (update ShaEntry.hash hash (ShaEntry.upgrade leaf false) shas), true⟩,
            true) := by
  have hcrc' : Slot.crc ⟨l, .fictRoot shas, true⟩ = leaf.dataCrc := hcrc
  rw [Raw.leave, lookup_setSlot hde hcrc']
  dsimp only
  rw [setSlot_setSlot hde hcrc', Nat.add_zero]

theorem refines_setSlot {f : Entry → Entry} (h : s.Tagged)
    (hde : s.lookup crc = some de) (he : e.Tagged) (hf : e.entry = f de.entry) :
    Refines (.ok (s.setSlot crc memory e, true)) (.ok (s.abs.setEntry crc memory f, true)) :=
  ⟨h.setSlot hde he, by rw [abs_setSlot hde hf]⟩

theorem update_newSha (leaf : Leaf) {hash : Nat} (hnew : ∀ sha ∈ shas, sha.hash ≠ hash) :
    update ShaEntry.hash hash (ShaEntry.upgrade leaf false) (newSha leaf hash shas)
      = shas.orderedInsert (fun a b => a.hash ≤ b.hash) ⟨leaf, 1, leaf.dataLen, hash⟩ := by
  have hadd : ShaEntry.upgrade leaf false ⟨leaf, 0, 0, hash⟩ = ⟨leaf, 1, leaf.dataLen, hash⟩ := by
    simp only [ShaEntry.upgrade, Bool.false_eq_true, if_false, Nat.zero_add]
  rw [newSha]
  induction shas with
  | nil => simp only [List.orderedInsert, update, if_true, hadd]
  | cons b shas ih =>
    have hb : b.hash ≠ hash := hnew b List.mem_cons_self
    rw [List.orderedInsert_cons, List.orderedInsert_cons]
    by_cases hle : hash ≤ b.hash
    · rw [if_pos hle, if_pos hle, update, if_pos rfl, hadd]
    · rw [if_neg hle, if_neg hle, update, if_neg hb,
        ih fun sha hsha => hnew sha (List.mem_cons_of_mem b hsha)]

theorem leaves_newSha {hash : Nat} (h : s.Tagged)
    (hde : s.lookup leaf.dataCrc = some ⟨l, .fictRoot shas, true⟩)
    (hnew : ∀ sha ∈ shas, sha.hash ≠ hash) :
    Leaves pass2 leaf
      (.ok (s.setSlot leaf.dataCrc shaEntrySize ⟨l, .fictRoot (newSha leaf hash shas), true⟩,
        .upgradeStatsSha hash))
      (.ok (s.abs.setEntry leaf.dataCrc shaEntrySize (Entry.insertSha leaf hash), true)) := by
  have hcrc := lookup_crc hde
  rw [Leaves, leave_upgradeStatsSha hde hcrc, update_newSha leaf hnew]
  exact refines_setSlot h hde (tagged_fictRoot _ _) rfl

theorem leaves_crcFailure {refBlks refSize : Nat} (h : s.Tagged)
    (hde : s.lookup leaf.dataCrc = some ⟨l, .de refBlks refSize, false⟩) :
    Leaves pass2 leaf (s.crcFailure k ⟨l, .de refBlks refSize, false⟩ leaf)
      (.ok (s.abs.crcFailure k pass2 ⟨l, .plain refBlks refSize⟩ refBlks refSize leaf)) := by
  let s₁ : Raw := ⟨s.slots, { s.globals with crcFailures := s.globals.crcFailures + 1 }⟩
  have h₁ : s₁.Tagged := h
  have hde₁ : s₁.lookup leaf.dataCrc = some ⟨l, .de refBlks refSize, false⟩ := hde
  have hcrc := lookup_crc hde
  unfold Raw.crcFailure Real.crcFailure
  dsimp only
  cases hl : k.hash l with
  | none => exact leaves_pass2Insert h₁
  | some hash =>
    let shas : List ShaEntry := [⟨l, refBlks, refSize, hash⟩]
    have htag : (s₁.setSlot leaf.dataCrc shaEntrySize ⟨l, .fictRoot shas, true⟩).Tagged :=
      h₁.setSlot hde₁ (tagged_fictRoot l shas)
    have hfind : (s₁.setSlot leaf.dataCrc shaEntrySize ⟨l, .fictRoot shas, true⟩).lookup
        leaf.dataCrc = some ⟨l, .fictRoot shas, true⟩ :=
      lookup_setSlot hde₁ hcrc
    have habs : (s₁.setSlot leaf.dataCrc shaEntrySize ⟨l, .fictRoot shas, true⟩).abs
        = s₁.abs.setEntry leaf.dataCrc shaEntrySize fun e => ⟨e.leaf, .fictitious shas⟩ :=
      abs_setSlot hde₁ rfl
    change Leaves pass2 leaf _ (.ok (match k.hash leaf with
      | none => (s₁.abs.setEntry leaf.dataCrc shaEntrySize _).pass2Insert pass2 leaf
      | some h' => if h' = hash
          then (s₁.abs.setEntry leaf.dataCrc shaEntrySize _).shaFailure leaf
          else ((s₁.abs.setEntry leaf.dataCrc shaEntrySize _).setEntry leaf.dataCrc shaEntrySize
            (Entry.insertSha leaf h'), true)))
    rw [← habs]
    cases hleaf : k.hash leaf with
    | none => exact leaves_pass2Insert htag
    | some hash' =>
      dsimp only
      by_cases heq : hash' = hash
      · rw [if_pos heq, List.find?_cons_of_pos (by simpa using heq.symm)]
        exact leaves_shaFailure htag
      · have hne : ∀ sha ∈ shas, sha.hash ≠ hash' := by
          intro sha hsha
          rw [List.mem_singleton.mp hsha]
          exact fun he => heq he.symm
        rw [if_neg heq, List.find?_cons_of_neg (by simpa using fun he => heq he.symm)]
        exact leaves_newSha htag hfind hne

theorem leaves_searchPlain {refBlks refSize : Nat} (h : s.Tagged)
    (hde : s.lookup leaf.dataCrc = some ⟨l, .de refBlks refSize, false⟩) :
    Leaves pass2 leaf (s.searchPlain k ⟨l, .de refBlks refSize, false⟩ leaf)
      (s.abs.processPlain k pass2 ⟨l, .plain refBlks refSize⟩ refBlks refSize leaf) := by
  unfold Raw.searchPlain Real.processPlain
  dsimp only
  split
  · exact leaves_crcFailure h hde
  rw [Raw.deduplicate_abs]
  have h' : (s.deduplicate k l leaf).2.Tagged := h
  have hde' : (s.deduplicate k l leaf).2.lookup leaf.dataCrc = _ := hde
  generalize s.deduplicate k l leaf = d at h' hde'
  obtain ⟨error, s'⟩ := d
  dsimp only at h' hde' ⊢
  cases error with
  | ok =>
    dsimp only
    rw [Leaves, Raw.leave, hde']
    exact refines_setSlot h' hde' (tagged_de _ _ _) rfl
  | techFailure => exact leaves_pass2Insert h'
  | cmpFailure => exact leaves_crcFailure h' hde'
  | invalidZone => exact leaves_terminateEarly h'
  | underflow =>
    have hu : s'.underflow.lookup leaf.dataCrc = _ := hde'
    dsimp only
    rw [Leaves, leave_upgradeStats hu rfl]
    exact refines_setSlot h' hu (tagged_de _ _ _) rfl
  | versFailure => exact ⟨rfl, rfl⟩

theorem leaves_searchPair (h : s.Tagged)
    (hde : s.lookup leaf.dataCrc = some ⟨l, .fictRoot shas, true⟩) (hsha : sha ∈ shas) :
    Leaves pass2 leaf (s.searchPair k ⟨l, .fictRoot shas, true⟩ shas sha sha.hash leaf)
      (s.abs.processSha k pass2 sha leaf) := by
  unfold Raw.searchPair Real.processSha
  dsimp only
  split
  · exact leaves_shaFailure h
  rw [Raw.deduplicate_abs]
  have h' : (s.deduplicate k sha.leaf leaf).2.Tagged := h
  have hde' : (s.deduplicate k sha.leaf leaf).2.lookup leaf.dataCrc = _ := hde
  generalize s.deduplicate k sha.leaf leaf = d at h' hde'
  obtain ⟨error, s'⟩ := d
  dsimp only at h' hde' ⊢
  cases error with
  | ok =>
    dsimp only
    rw [Leaves, Raw.leave, hde']
    exact refines_setSlot h' hde' (tagged_fictRoot _ _) rfl
  | techFailure => exact leaves_pass2Insert h'
  | cmpFailure => exact leaves_shaFailure h'
  | invalidZone => exact leaves_terminateEarly h'
  | underflow =>
    have hu : s'.underflow.lookup leaf.dataCrc = _ := hde'
    have hcrc := lookup_crc hde'
    obtain ⟨a, ha⟩ : ∃ a, shas.find? (fun r => r.hash = sha.hash) = some a :=
      Option.isSome_iff_exists.mp (List.find?_isSome.mpr ⟨sha, hsha, by simp⟩)
    have hhash : a.hash = sha.hash := by simpa using List.find?_some ha
    -- temp.sha_hash is the hash of the entry, so that the hash is written back as it was
    have hup : update ShaEntry.hash sha.hash (ShaEntry.upgrade leaf false)
        (update ShaEntry.hash sha.hash (fun e => { e with leaf := leaf, hash := sha.hash }) shas)
          = update ShaEntry.hash sha.hash (ShaEntry.upgrade leaf true) shas := by
      rw [update_update (f := fun e => { e with leaf := leaf, hash := sha.hash }) ha rfl]
      exact update_congr ha (by simp only [ShaEntry.upgrade, hhash, Bool.false_eq_true, if_false,
        if_true])
    dsimp only
    rw [Leaves, leave_upgradeStatsSha hu hcrc, hup]
    exact refines_setSlot h' hu (tagged_fictRoot _ _) rfl
  | versFailure => exact ⟨rfl, rfl⟩

theorem leaves_searchSha (h : s.Tagged)
    (hde : s.lookup leaf.dataCrc = some ⟨l, .fictRoot shas, true⟩) :
    Leaves pass2 leaf (s.searchSha k ⟨l, .fictRoot shas, true⟩ leaf)
      (s.abs.processFictitious k pass2 shas leaf) := by
  unfold Raw.searchSha Real.processFictitious
  dsimp only
  cases hplace : shas.find? fun e =>
      e.leaf.dataOffset = leaf.dataOffset ∧ e.leaf.dataLen = leaf.dataLen with
  | some sha => exact leaves_searchPair h hde (List.mem_of_find?_eq_some hplace)
  | none =>
    cases hhash : k.hash leaf with
    | none => exact leaves_pass2Insert h
    | some hash =>
      dsimp only
      cases hfind : shas.find? fun e => e.hash = hash with
      | some sha =>
        obtain rfl : sha.hash = hash := by simpa using List.find?_some hfind
        exact leaves_searchPair h hde (List.mem_of_find?_eq_some hfind)
      | none =>
        exact leaves_newSha h hde (by simpa using List.find?_eq_none.mp hfind)

theorem Raw.search_leaves (h : s.Tagged) :
    Leaves pass2 leaf (s.search k leaf) (s.abs.collect k pass2 leaf) := by
  rw [Raw.search, Real.collect, abs_find?]
  cases hde : s.lookup leaf.dataCrc with
  | none =>
    have hnew : ∀ g, (⟨⟨leaf, .de 0 0, false⟩ :: s.slots, g⟩ : Raw).lookup leaf.dataCrc
        = some ⟨leaf, .de 0 0, false⟩ := fun g => List.find?_cons_of_pos (by simp [Slot.crc])
    have hset : update Slot.crc leaf.dataCrc
        (fun _ => ⟨leaf, .de (0 + 1) (0 + leaf.dataLen), false⟩)
        (⟨leaf, .de 0 0, false⟩ :: s.slots) = ⟨leaf, .de 1 leaf.dataLen, false⟩ :: s.slots := by
      have hcrc : Slot.crc ⟨leaf, .de 0 0, false⟩ = leaf.dataCrc := rfl
      rw [update, if_pos hcrc, Nat.zero_add, Nat.zero_add]
    dsimp only [Option.map_none]
    rw [Leaves]
    dsimp only
    rw [Raw.leave, hnew]
    dsimp only
    rw [Raw.setSlot, hset]
    refine ⟨fun e he => ?_, rfl⟩
    rcases List.mem_cons.mp he with rfl | he
    · exact tagged_de leaf 1 leaf.dataLen
    · exact h e he
  | some de =>
    dsimp only [Option.map_some]
    have htag : de.Tagged := h de (lookup_mem hde)
    cases hfict : de.fictitious with
    | true =>
      obtain ⟨shas, heq⟩ := htag.eq_fictRoot hfict
      rw [heq] at hde ⊢
      exact leaves_searchSha h hde
    | false =>
      obtain ⟨refBlks, refSize, heq⟩ := htag.eq_de hfict
      rw [heq] at hde ⊢
      exact leaves_searchPlain h hde

/-- Behind the test of the memory limit, process_btree_elm does to the entries in memory what is to
    be done to the tree. -/
theorem Raw.collect_refines (k : Kernel) (pass2 : Bool) (leaf : Leaf) (h : s.Tagged) :
    Refines (s.collect k pass2 leaf) (s.abs.collect k pass2 leaf) := by
  have hleaves : Leaves pass2 leaf (s.search k leaf) (s.abs.collect k pass2 leaf) :=
    Raw.search_leaves h
  rw [Raw.collect]
  cases hs : s.search k leaf with
  | error t =>
    rw [hs] at hleaves
    exact hleaves
  | ok p =>
    rw [hs] at hleaves
    exact hleaves

end Raw

/-! ## The books -/

/-- The entries below a CRC have that CRC, and hashes of their own. -/
def Entry.Filed (e : Entry) : Prop :=
  (∀ sha ∈ e.refs.shas, sha.leaf.dataCrc = e.crc) ∧ (e.refs.shas.map ShaEntry.hash).Nodup

structure Real.Books (s : Real) : Prop where
  memory : s.memoryUse = (s.tree.map Entry.memory).sum
  crcs : (s.tree.map Entry.crc).Nodup
  filed : ∀ e ∈ s.tree, e.Filed
  sound : s.Sound

section Books

variable {s t : Real} {leaf : Leaf} {e e' : Entry} {m : Nat}

theorem Entry.Change.memory (h : Change leaf e e' m) : e'.memory = e.memory + m := by
  cases h with
  | upgrade underflow hplain => simp only [Entry.memory, Entry.upgrade, hplain, Refs.shas]; rfl
  | split hash hplain => simp only [Entry.memory, hplain, Refs.shas]; rfl
  | upgradeSha underflow hfict hsha =>
    simp only [Entry.memory, Entry.upgradeSha, Refs.shas, length_update]; rfl
  | insertSha hfict hnew =>
    simp only [Entry.memory, Entry.insertSha, hfict, Refs.shas, List.orderedInsert_length,
      Nat.mul_succ, Nat.add_assoc]

theorem Entry.Change.filed (h : Change leaf e e' m) (he : e.crc = leaf.dataCrc)
    (hf : e.Filed) : e'.Filed := by
  cases h with
  | upgrade underflow hplain =>
    rw [Entry.Filed, Entry.upgrade, hplain]
    exact ⟨fun _ hsha => absurd hsha List.not_mem_nil, List.nodup_nil⟩
  | split hash hplain =>
    refine ⟨fun sha hsha => ?_, List.nodup_singleton hash⟩
    rw [List.mem_singleton.mp hsha]
    rfl
  | @upgradeSha shas sha underflow hfict hsha =>
    rw [Entry.Filed, hfict] at hf
    obtain ⟨a, ha⟩ : ∃ a, shas.find? (fun r => r.hash = sha.hash) = some a :=
      Option.isSome_iff_exists.mp (List.find?_isSome.mpr ⟨sha, hsha, by simp⟩)
    have hhash : a.hash = sha.hash := by simpa using List.find?_some ha
    rw [Entry.Filed, Entry.upgradeSha, hfict]
    constructor
    · intro x hx
      rcases mem_update ha hx with hx | rfl
      · exact hf.1 x hx
      · rw [ShaEntry.upgrade]
        split
        · exact he.symm
        · exact hf.1 a (List.mem_of_find?_eq_some ha)
    · have hmap := map_key_update (f := ShaEntry.upgrade leaf underflow) ha hhash
      dsimp only [Refs.shas] at hf ⊢
      rw [hmap]
      exact hf.2
  | @insertSha shas hash hfict hnew =>
    rw [Entry.Filed, hfict] at hf
    rw [Entry.Filed, Entry.insertSha, hfict]
    constructor
    · intro x hx
      rcases List.mem_orderedInsert _ |>.mp hx with rfl | hx
      · exact he.symm
      · exact hf.1 x hx
    · have hperm := (List.perm_orderedInsert (fun a b : ShaEntry => a.hash ≤ b.hash)
        ⟨leaf, 1, leaf.dataLen, hash⟩ shas).map ShaEntry.hash
      refine hperm.nodup_iff.mpr (List.nodup_cons.mpr ⟨fun hin => ?_, hf.2⟩)
      obtain ⟨sha, hsha, heq⟩ := List.mem_map.mp hin
      exact hnew sha hsha heq

/-- Whatever a record does to the tree, the books are kept. -/
theorem Real.Books.moves (h : s.Books) (hm : Moves leaf s t) : t.Books := by
  have hsound := h.sound.moves hm
  induction hm with
  | same htree hmem =>
    refine ⟨?_, ?_, ?_, hsound⟩ <;> simp only [htree, hmem]
    exacts [h.memory, h.crcs, h.filed]
  | insert hnew htree hmem =>
    refine ⟨?_, ?_, ?_, hsound⟩
    · rw [hmem, htree, List.map_cons, List.sum_cons, h.memory, Nat.add_comm]
      rfl
    · rw [htree, List.map_cons, List.nodup_cons]
      refine ⟨fun hin => ?_, h.crcs⟩
      obtain ⟨e, he, heq⟩ := List.mem_map.mp hin
      have hne := List.find?_eq_none.mp hnew e he
      exact hne (decide_eq_true heq)
    · intro x hx
      rw [htree] at hx
      rcases List.mem_cons.mp hx with rfl | hx
      · exact ⟨nofun, List.nodup_nil⟩
      · exact h.filed x hx
  | @set s e f m he hf =>
    have hcrc : e.crc = leaf.dataCrc := by simpa using List.find?_some he
    refine ⟨?_, ?_, ?_, hsound⟩
    · have hw := weight_update_add (p := fun _ => true) he (hf.crc hcrc) hf.memory
      rw [weight_true, weight_true, if_pos rfl, ← h.memory] at hw
      exact hw.symm
    · have hmap := map_key_update he (hf.crc hcrc)
      rw [Real.setEntry]
      dsimp only
      rw [hmap]
      exact h.crcs
    · intro x hx
      rcases mem_update he hx with hx | rfl
      · exact h.filed x hx
      · exact hf.filed hcrc (h.filed _ (List.mem_of_find?_eq_some he))
  | trans hst htu ih₁ ih₂ => exact ih₂ (ih₁ h (h.sound.moves hst)) hsound

end Books

/-! ## The passes -/

/-- What `process_btree_elm` does and returns, and the label that it was left through. -/
structure Return where
  state : Raw
  exit : Exit
  value : Bool
  deriving DecidableEq, Repr

/-- `process_btree_elm`, in passes that do not get to the memory limit. -/
def Raw.process (k : Kernel) (memoryLimit : Nat) (s : Raw) (pass2 : Bool) (leaf : Leaf) :
    Except Trap Return :=
  if memoryLimit < s.globals.memoryUse then .error .limit
  else
    match s.search k leaf with
    | .error t => .error t
    | .ok (s, exit) =>
      match s.leave pass2 leaf exit with
      | .error t => .error t
      | .ok (s, value) => .ok ⟨s, exit, value⟩

/-- `process_btree_elm` for one record after the other, and the records that failed. -/
def Raw.firstPass (memoryLimit : Nat) : Raw → List (Kernel × Leaf) → Except Trap (Raw × List Leaf)
  | s, [] => .ok (s, [])
  | s, (k, leaf) :: calls =>
    match s.process k memoryLimit false leaf with
    | .error t => .error t
    | .ok r =>
      match r.state.firstPass memoryLimit calls with
      | .error t => .error t
      | .ok (s, failed) => .ok (s, if r.exit = .pass2Insert then leaf :: failed else failed)

/-- A record of `pass2_dedup_queue` has been processed once more. -/
def Return.dequeue (r : Return) (leaf : Leaf) (rest : List Leaf) : Raw :=
  ⟨r.state.slots, Real.dequeue (r.state.globals, r.value) leaf rest⟩

/-- The records of `pass2_dedup_queue` once more, as many as there are kernels for, and those of
    them that failed again. -/
def Raw.secondPass (memoryLimit : Nat) : Raw → List Kernel → Except Trap (Raw × List Leaf)
  | s, [] => .ok (s, [])
  | s, k :: ks =>
    match s.globals.queue with
    | [] => .ok (s, [])
    | leaf :: rest =>
      match s.process k memoryLimit true leaf with
      | .error t => .error t
      | .ok r =>
        match (r.dequeue leaf rest).secondPass memoryLimit ks with
        | .error t => .error t
        | .ok (s, failed) => .ok (s, if r.value then failed else leaf :: failed)

/-- What an entry adds to dedup_ref_size and dedup_alloc_size at the end of the pass. -/
def Slot.close (e : Slot) : Except Trap (Nat × Nat) :=
  match e.fictitious, e.u with
  | true, .fictRoot shas =>
    if ∀ sha ∈ shas, sha.refBlks ≠ 0 then
      .ok ((shas.map ShaEntry.refSize).sum, (shas.map fun e => e.refSize / e.refBlks).sum)
    else .error .assert
  | false, .de refBlks refSize =>
    if refBlks ≠ 0 then .ok (refSize, refSize / refBlks) else .error .assert
  | _, _ => .error .member

def closeAll : List Slot → Except Trap (Nat × Nat)
  | [] => .ok (0, 0)
  | e :: slots =>
    match e.close with
    | .error t => .error t
    | .ok n =>
      match closeAll slots with
      | .error t => .error t
      | .ok m => .ok (n.1 + m.1, n.2 + m.2)

/-- "Calculate dedup ratio and get rid of the trees". -/
def Raw.flush (s : Raw) : Except Trap Raw :=
  match closeAll s.slots with
  | .error t => .error t
  | .ok n =>
    .ok ⟨[], { s.globals with
      refSize := s.globals.refSize + n.1, allocSize := s.globals.allocSize + n.2 }⟩

/-- A pass begins with empty trees and an empty queue, by the assertions of the pass before. -/
def Raw.begin (g : Real) : Raw := ⟨[], { g.begin with queue := [] }⟩

structure Raw.Books (s : Raw) : Prop where
  tagged : s.Tagged
  books : s.abs.Books

section Passes

variable {s t : Raw} {k : Kernel} {pass2 : Bool} {leaf : Leaf} {de e : Slot} {p : Raw × Exit}
  {memoryLimit : Nat} {r : Return} {trap : Trap}

/-- The queue and the skipped bytes are left alone. -/
def Raw.Keeps (s t : Raw) : Prop :=
  t.globals.queue = s.globals.queue ∧ t.globals.skippedSize = s.globals.skippedSize

theorem Raw.deduplicate_keeps (k : Kernel) (s : Raw) (p q : Leaf) :
    s.Keeps (s.deduplicate k p q).2 := by
  unfold Raw.deduplicate Real.deduplicate
  split
  · exact ⟨rfl, rfl⟩
  · split <;> exact ⟨rfl, rfl⟩

theorem Raw.crcFailure_keeps (h : s.crcFailure k de leaf = .ok p) : s.Keeps p.1 := by
  unfold Raw.crcFailure at h
  dsimp only at h
  split at h
  · cases h
  split at h
  · cases h
    exact ⟨rfl, rfl⟩
  split at h
  · cases h
    exact ⟨rfl, rfl⟩
  split at h <;> cases h <;> exact ⟨rfl, rfl⟩

theorem Raw.searchPlain_keeps (h : s.searchPlain k de leaf = .ok p) : s.Keeps p.1 := by
  unfold Raw.searchPlain at h
  split at h
  · exact Raw.crcFailure_keeps h
  have hd := s.deduplicate_keeps k de.leaf leaf
  generalize s.deduplicate k de.leaf leaf = d at h hd
  obtain ⟨error, s'⟩ := d
  cases error with
  | cmpFailure =>
    obtain ⟨hq, hs⟩ := Raw.crcFailure_keeps h
    exact ⟨hq.trans hd.1, hs.trans hd.2⟩
  | versFailure => cases h
  | _ =>
    cases h
    exact hd

theorem Raw.searchPair_keeps {shas : List ShaEntry} {sha : ShaEntry} {temp : Nat}
    (h : s.searchPair k de shas sha temp leaf = .ok p) : s.Keeps p.1 := by
  unfold Raw.searchPair at h
  split at h
  · cases h
    exact ⟨rfl, rfl⟩
  have hd := s.deduplicate_keeps k sha.leaf leaf
  generalize s.deduplicate k sha.leaf leaf = d at h hd
  obtain ⟨error, s'⟩ := d
  cases error with
  | versFailure => cases h
  | _ =>
    cases h
    exact hd

theorem Raw.searchSha_keeps (h : s.searchSha k de leaf = .ok p) : s.Keeps p.1 := by
  unfold Raw.searchSha at h
  split at h
  · cases h
  split at h
  · exact Raw.searchPair_keeps h
  split at h
  · cases h
    exact ⟨rfl, rfl⟩
  split at h
  · exact Raw.searchPair_keeps h
  · cases h
    exact ⟨rfl, rfl⟩

theorem Raw.search_keeps (h : s.search k leaf = .ok p) : s.Keeps p.1 := by
  unfold Raw.search at h
  split at h
  · cases h
    exact ⟨rfl, rfl⟩
  split at h
  · exact Raw.searchSha_keeps h
  · exact Raw.searchPlain_keeps h

/-- What is put into the queue. -/
def Exit.queued (pass2 : Bool) (leaf : Leaf) (exit : Exit) : List Leaf :=
  if pass2 = false ∧ exit = .pass2Insert then [leaf] else []

theorem Raw.leave_queued {exit : Exit} {r : Raw × Bool} (h : s.leave pass2 leaf exit = .ok r) :
    r.1.globals.queue = s.globals.queue ++ exit.queued pass2 leaf ∧
      r.1.globals.skippedSize
        = s.globals.skippedSize + ((exit.queued pass2 leaf).map Leaf.dataLen).sum := by
  cases exit with
  | pass2Insert =>
    cases h
    cases pass2 with
    | true => simp [Exit.queued, Real.pass2Insert, Real.terminateEarly]
    | false => simp [Exit.queued, Real.pass2Insert]
  | terminateEarly =>
    cases h
    simp [Exit.queued, Real.terminateEarly]
  | upgradeStats =>
    unfold Raw.leave at h
    dsimp only at h
    split at h
    · cases h
    split at h <;> cases h
    simp [Exit.queued, Raw.setSlot]
  | upgradeStatsSha hash =>
    unfold Raw.leave at h
    dsimp only at h
    split at h
    · cases h
    split at h <;> cases h
    simp [Exit.queued, Raw.setSlot]

/-- A call is `Raw.collect`, as long as the memory limit is not reached. -/
theorem Raw.process_collect (s : Raw) (hlimit : s.globals.memoryUse ≤ memoryLimit) :
    s.collect k pass2 leaf = match s.process k memoryLimit pass2 leaf with
      | .error t => .error t
      | .ok r => .ok (r.state, r.value) := by
  rw [Raw.process, if_neg (Nat.not_lt.mpr hlimit), Raw.collect]
  cases s.search k leaf with
  | error t => rfl
  | ok p =>
    dsimp only
    cases p.1.leave pass2 leaf p.2 <;> rfl

theorem Raw.process_under (h : s.process k memoryLimit pass2 leaf = .ok r) :
    s.globals.memoryUse ≤ memoryLimit := by
  rw [Raw.process] at h
  split at h
  · cases h
  · exact Nat.not_lt.mp ‹_›

/-- A call that does not get to the memory limit is one of `Real.process`. -/
theorem Raw.process_refines (fuel : Nat) (h : s.Tagged)
    (hr : s.process k memoryLimit pass2 leaf = .ok r) :
    s.abs.process k memoryLimit (fuel + 1) pass2 leaf = .ok (r.state.abs, r.value) ∧
      r.state.Tagged := by
  have hle := Raw.process_under hr
  have href := Raw.collect_refines k pass2 leaf h
  rw [Raw.process_collect s hle, hr] at href
  have habs : s.abs.limit memoryLimit (fuel + 1) = .ok s.abs := if_neg (Nat.not_lt.mpr hle)
  rw [Real.process, habs]
  exact ⟨href.2, href.1⟩

/-- The HAMMERIOC_DEDUP of this kernel always fails. -/
def busy : Kernel := ⟨fun _ _ => .techFailure, fun leaf => some leaf.base⟩

/-- An entry that is a SHA tree of one record. -/
def oneSha : Raw :=
  ⟨[⟨⟨1, 7, 64, 10⟩, .fictRoot [⟨⟨1, 7, 64, 10⟩, 1, 10, 1⟩], true⟩], (Raw.begin Real.init).globals⟩

/-- A record with another hash gets an entry of its own in the tree. -/
theorem process_refines_fictitious : ∃ r,
    oneSha.process busy 9 false ⟨3, 7, 192, 20⟩ = .ok r ∧
    r.state.slots.map Slot.u = [.fictRoot [⟨⟨1, 7, 64, 10⟩, 1, 10, 1⟩, ⟨⟨3, 7, 192, 20⟩, 1, 20, 3⟩]] ∧
    oneSha.abs.process busy 9 1 false ⟨3, 7, 192, 20⟩ = .ok (r.state.abs, r.value) := by
  have htag : oneSha.Tagged := by
    intro e he
    rw [List.mem_singleton.mp he]
    exact tagged_fictRoot _ _
  exact ⟨_, rfl, rfl, (Raw.process_refines 0 htag rfl).1⟩

theorem Raw.process_error (h : s.Tagged) (ht : s.process k memoryLimit pass2 leaf = .error trap) :
    trap = .exit ∨ trap = .limit := by
  by_cases hle : s.globals.memoryUse ≤ memoryLimit
  · have href := Raw.collect_refines k pass2 leaf h
    rw [Raw.process_collect s hle, ht] at href
    exact Or.inl href.1
  · rw [Raw.process, if_pos (Nat.not_le.mp hle)] at ht
    cases ht
    exact Or.inr rfl

theorem Raw.Books.process (h : s.Books) (hr : s.process k memoryLimit pass2 leaf = .ok r) :
    r.state.Books := by
  have hle := Raw.process_under hr
  have href := Raw.collect_refines k pass2 leaf h.tagged
  rw [Raw.process_collect s hle, hr] at href
  exact ⟨href.1, h.books.moves (Real.collect_takes href.2).moves⟩

theorem Raw.process_queued (hr : s.process k memoryLimit pass2 leaf = .ok r) :
    r.state.globals.queue = s.globals.queue ++ r.exit.queued pass2 leaf ∧
      r.state.globals.skippedSize
        = s.globals.skippedSize + ((r.exit.queued pass2 leaf).map Leaf.dataLen).sum := by
  rw [Raw.process] at hr
  split at hr
  · cases hr
  split at hr
  · cases hr
  rename_i hsearch
  split at hr
  · cases hr
  rename_i hleave
  cases hr
  obtain ⟨hq, hs⟩ := Raw.search_keeps hsearch
  have h := Raw.leave_queued hleave
  rw [hq, hs] at h
  exact h

/-- The first pass: the books are kept, and the records that fail are in the queue. -/
theorem Raw.Books.firstPass {calls : List (Kernel × Leaf)} {failed : List Leaf} (h : s.Books)
    (hr : s.firstPass memoryLimit calls = .ok (t, failed)) :
    t.Books ∧ t.globals.queue = s.globals.queue ++ failed ∧
      t.globals.skippedSize = s.globals.skippedSize + (failed.map Leaf.dataLen).sum := by
  induction calls generalizing s failed with
  | nil =>
    cases hr
    exact ⟨h, (List.append_nil _).symm, rfl⟩
  | cons call calls ih =>
    obtain ⟨k, leaf⟩ := call
    rw [Raw.firstPass] at hr
    split at hr
    · cases hr
    rename_i r hcall
    split at hr
    · cases hr
    rename_i s' failed' hrest
    cases hr
    obtain ⟨hbooks, hqueue, hskipped⟩ := ih (h.process hcall) hrest
    obtain ⟨hq, hs⟩ := Raw.process_queued hcall
    refine ⟨hbooks, ?_, ?_⟩
    · rw [hqueue, hq, List.append_assoc]
      by_cases hx : r.exit = .pass2Insert <;> simp [Exit.queued, hx]
    · rw [hskipped, hs]
      by_cases hx : r.exit = .pass2Insert <;> simp [Exit.queued, hx, Nat.add_assoc]

theorem Raw.Books.firstPass_error {calls : List (Kernel × Leaf)} (h : s.Books)
    (ht : s.firstPass memoryLimit calls = .error trap) : trap = .exit ∨ trap = .limit := by
  induction calls generalizing s with
  | nil => cases ht
  | cons call calls ih =>
    obtain ⟨k, leaf⟩ := call
    rw [Raw.firstPass] at ht
    split at ht
    · next hcall =>
        cases ht
        exact Raw.process_error h.tagged hcall
    · next r hcall =>
        split at ht
        · next hrest =>
            cases ht
            exact ih (h.process hcall) hrest
        · cases ht

theorem Raw.Books.dequeue {rest : List Leaf} (h : r.state.Books) : (r.dequeue leaf rest).Books :=
  have hsame : Real.Moves leaf r.state.abs (r.dequeue leaf rest).abs := .same rfl rfl
  ⟨h.tagged, h.books.moves hsame⟩

/-- The second pass: the books are kept, and what is skipped in the end are the bytes of the records
    that failed again, and of those that are still to come. -/
theorem Raw.Books.secondPass {ks : List Kernel} {base : Nat} {failed : List Leaf} (h : s.Books)
    (hskip : s.globals.skippedSize = base + (s.globals.queue.map Leaf.dataLen).sum)
    (hr : s.secondPass memoryLimit ks = .ok (t, failed)) :
    t.Books ∧ t.globals.queue = s.globals.queue.drop ks.length ∧
      failed.Sublist s.globals.queue ∧
      t.globals.skippedSize = base + (failed.map Leaf.dataLen).sum
        + (t.globals.queue.map Leaf.dataLen).sum := by
  induction ks generalizing s base failed with
  | nil =>
    cases hr
    exact ⟨h, rfl, List.nil_sublist _, hskip⟩
  | cons k ks ih =>
    rw [Raw.secondPass] at hr
    split at hr
    · next hqueue =>
        cases hr
        refine ⟨h, ?_, List.nil_sublist _, hskip⟩
        rw [hqueue, List.drop_nil]
    next leaf rest hqueue =>
    split at hr
    · cases hr
    rename_i r hcall
    split at hr
    · cases hr
    rename_i s' failed' hrest
    cases hr
    obtain ⟨-, hs⟩ := Raw.process_queued hcall
    have hskip' : r.state.globals.skippedSize
        = base + leaf.dataLen + (rest.map Leaf.dataLen).sum := by
      rw [hs, hskip, hqueue]
      simp [Exit.queued, Nat.add_assoc]
    rw [hqueue, List.length_cons, List.drop_succ_cons]
    cases hvalue : r.value with
    | true =>
      have hbase : (r.dequeue leaf rest).globals.skippedSize
          = base + (rest.map Leaf.dataLen).sum := by
        simp only [Return.dequeue, Real.dequeue, hvalue, if_true, hskip']
        omega
      obtain ⟨hb, hq, hsub, hsum⟩ := ih (h.process hcall).dequeue hbase hrest
      exact ⟨hb, hq, hsub.cons leaf, hsum⟩
    | false =>
      have hbase : (r.dequeue leaf rest).globals.skippedSize
          = base + leaf.dataLen + (rest.map Leaf.dataLen).sum := by
        simp only [Return.dequeue, Real.dequeue, hvalue, Bool.false_eq_true, if_false, hskip']
      obtain ⟨hb, hq, hsub, hsum⟩ := ih (h.process hcall).dequeue hbase hrest
      refine ⟨hb, hq, hsub.cons_cons leaf, ?_⟩
      rw [hsum, if_neg Bool.false_ne_true, List.map_cons, List.sum_cons]
      omega

theorem Raw.Books.secondPass_error {ks : List Kernel} (h : s.Books)
    (ht : s.secondPass memoryLimit ks = .error trap) : trap = .exit ∨ trap = .limit := by
  induction ks generalizing s with
  | nil => cases ht
  | cons k ks ih =>
    rw [Raw.secondPass] at ht
    split at ht
    · cases ht
    split at ht
    · next hcall =>
        cases ht
        exact Raw.process_error h.tagged hcall
    · next r hcall =>
        split at ht
        · next hrest =>
            cases ht
            exact ih (h.process hcall).dequeue hrest
        · cases ht

/-- The assertions of the end of the pass hold. -/
theorem Slot.close_ok (h : e.Tagged) (hc : e.entry.refs.Counted) :
    e.close = .ok (e.entry.size, e.entry.refs.alloc) := by
  cases hfict : e.fictitious with
  | true =>
    obtain ⟨shas, heq⟩ := h.eq_fictRoot hfict
    rw [heq] at hc ⊢
    exact if_pos hc
  | false =>
    obtain ⟨refBlks, refSize, heq⟩ := h.eq_de hfict
    rw [heq] at hc ⊢
    exact if_pos hc

theorem closeAll_ok {slots : List Slot} (h : ∀ e ∈ slots, e.Tagged ∧ e.entry.refs.Counted) :
    closeAll slots = .ok (((slots.map Slot.entry).map Entry.size).sum,
      ((slots.map Slot.entry).map fun e => e.refs.alloc).sum) := by
  induction slots with
  | nil => rfl
  | cons e slots ih =>
    obtain ⟨htag, hc⟩ := h e List.mem_cons_self
    rw [closeAll, Slot.close_ok htag hc, ih fun x hx => h x (List.mem_cons_of_mem e hx)]
    rfl

theorem Raw.Books.flush (h : s.Books) : ∃ t, s.flush = .ok t ∧ s.abs.flush = .ok t.abs := by
  have hclose := closeAll_ok fun e he =>
    ⟨h.tagged e he, h.books.sound e.entry (List.mem_map_of_mem he)⟩
  refine ⟨_, by rw [Raw.flush, hclose], ?_⟩
  exact if_pos h.books.sound

theorem Raw.begin_books (g : Real) : (Raw.begin g).Books where
  tagged := nofun
  books := ⟨rfl, List.nodup_nil, nofun, nofun⟩

end Passes

/-- One pass of dedup: in the first pass over the records, and in the second one over those that
    failed, the books are kept in every state, the end of the pass asserts nothing that is not so,
    and the bytes that are skipped in the end are those of the records that failed twice. -/
theorem pass_books (memoryLimit : Nat) (g : Real) (calls : List (Kernel × Leaf))
    (ks : List Kernel) :
    (∀ trap, (Raw.begin g).firstPass memoryLimit calls = .error trap →
      trap = .exit ∨ trap = .limit) ∧
    ∀ s failed, (Raw.begin g).firstPass memoryLimit calls = .ok (s, failed) →
      s.Books ∧
      (∀ trap, s.secondPass memoryLimit ks = .error trap → trap = .exit ∨ trap = .limit) ∧
      ∀ t twice, s.secondPass memoryLimit ks = .ok (t, twice) →
        t.Books ∧ (∃ u, t.flush = .ok u) ∧ twice.Sublist failed ∧
        (failed.length ≤ ks.length → t.globals.queue = [] ∧
          t.globals.skippedSize = g.skippedSize + (twice.map Leaf.dataLen).sum) := by
  refine ⟨fun trap ht => (Raw.begin_books g).firstPass_error ht, fun s failed hs => ?_⟩
  obtain ⟨hbooks, hqueue, hskipped⟩ := (Raw.begin_books g).firstPass hs
  have hqueue' : s.globals.queue = failed := hqueue
  refine ⟨hbooks, fun trap ht => hbooks.secondPass_error ht, fun t twice ht => ?_⟩
  have hbase : s.globals.skippedSize
      = g.skippedSize + (s.globals.queue.map Leaf.dataLen).sum := by
    rw [hqueue', hskipped]
    rfl
  obtain ⟨hbooks', hdrop, hsub, hsum⟩ := hbooks.secondPass hbase ht
  obtain ⟨u, hu, -⟩ := hbooks'.flush
  refine ⟨hbooks', ⟨u, hu⟩, hqueue' ▸ hsub, fun hlen => ?_⟩
  have hnil : t.globals.queue = [] := by
    rw [hdrop, hqueue', List.drop_eq_nil_iff]
    exact hlen
  refine ⟨hnil, ?_⟩
  rw [hsum, hnil]
  rfl

/-- The HAMMERIOC_GET_DATA of this kernel always fails. -/
def deaf : Kernel := ⟨fun _ _ => .ok, fun _ => none⟩

def collision : List (Kernel × Leaf) :=
  [(busy, ⟨1, 7, 64, 10⟩), (busy, ⟨2, 7, 128, 10⟩), (busy, ⟨3, 7, 192, 20⟩),
    (deaf, ⟨4, 7, 256, 30⟩)]

/-- Two records of one CRC fail; for one of them the data cannot be read in the second pass
    either. -/
theorem pass_books_collision : ∃ s t,
    (Raw.begin Real.init).firstPass 1000 collision
      = .ok (s, [⟨2, 7, 128, 10⟩, ⟨4, 7, 256, 30⟩]) ∧
    s.secondPass 1000 [busy, deaf] = .ok (t, [⟨4, 7, 256, 30⟩]) ∧
    t.globals.memoryUse = entrySize + 3 * shaEntrySize ∧
    t.Books ∧ t.globals.skippedSize = 30 := by
  obtain ⟨s, t, hs, ht, hm⟩ : ∃ s t, (Raw.begin Real.init).firstPass 1000 collision
        = .ok (s, [⟨2, 7, 128, 10⟩, ⟨4, 7, 256, 30⟩]) ∧
      s.secondPass 1000 [busy, deaf] = .ok (t, [⟨4, 7, 256, 30⟩]) ∧
      t.globals.memoryUse = entrySize + 3 * shaEntrySize := ⟨_, _, rfl, rfl, rfl⟩
  have h := ((pass_books 1000 Real.init collision [busy, deaf]).2 s _ hs).2.2 t _ ht
  exact ⟨s, t, hs, ht, hm, h.1, (h.2.2.2 (Nat.le_refl 2)).2⟩

end Lh1.Hammer.Dedup
