/-
  The passes of dedup (hammer_cmd_dedup of cmd_dedup.c): their windows, and that they end.

  A pass begins where the window of the one before has ended, and its window is cut back in halves
  when memory runs out. A window of which nothing is left has equal ends, which scan_pfs() takes for
  no filter at all.

  * `Real.limit_ok`: the loop of the memory limit ends, and leaves a window.
  * `passes_partition`: as long as something is left of the window in each cut, the windows of the
    passes partition the CRCs, records are processed by a pass in their window only, and the passes
    end.
  * `passes_forever`: one CRC whose entries do not fit keeps the passes going.
-/
import Lh1.Hammer.Dedup

namespace Lh1.Hammer.Dedup

open Lib

/-! ## What a record can do to the tree -/

/-- What a record can do to the tree, and to MemoryUse with it. -/
inductive Real.Moves (leaf : Leaf) : Real → Real → Prop
  | same {s t : Real} (htree : t.tree = s.tree) (hmem : t.memoryUse = s.memoryUse) : Moves leaf s t
  | insert {s t : Real} (hnew : s.tree.find? (fun e => e.crc = leaf.dataCrc) = none)
      (htree : t.tree = ⟨leaf, .plain 1 leaf.dataLen⟩ :: s.tree)
      (hmem : t.memoryUse = s.memoryUse + entrySize) : Moves leaf s t
  | set {s : Real} {e : Entry} {f : Entry → Entry} {memory : Nat}
      (he : s.tree.find? (fun e => e.crc = leaf.dataCrc) = some e)
      (hf : Entry.Change leaf e (f e) memory) : Moves leaf s (s.setEntry leaf.dataCrc memory f)
  | trans {s t u : Real} (hst : Moves leaf s t) (htu : Moves leaf t u) : Moves leaf s u

theorem Real.Takes.moves {s : Real} {pass2 : Bool} {leaf : Leaf} {r : Real × Bool}
    (h : Takes pass2 leaf s r) : Moves leaf s r.1 := by
  induction h with
  | early s => exact .same rfl rfl
  | defer s => cases pass2 <;> exact .same rfl rfl
  | insert hnew => exact .insert hnew rfl rfl
  | set he hf _ => exact .set he hf
  | split he hf _ _ ih => exact .trans (.set he hf) ih
  | quiet _ htree hmem _ ih => exact .trans (.same htree hmem) ih

/-! ## The assertions on the entries -/

/-- The assertions of the end of the pass hold. -/
def Real.Sound (s : Real) : Prop := ∀ e ∈ s.tree, e.refs.Counted

section Sound

variable {s t : Real} {k : Kernel} {pass2 : Bool} {leaf : Leaf} {e e' : Entry} {r : Real × Bool}
  {memory : Nat}

theorem Entry.Change.counted (h : Change leaf e e' memory) (he : e.refs.Counted) :
    e'.refs.Counted := by
  cases h with
  | upgrade underflow hplain =>
    rw [Entry.upgrade, hplain]
    exact Nat.succ_ne_zero _
  | split hash hplain =>
    rw [hplain] at he
    intro sha hsha
    rw [List.mem_singleton.mp hsha]
    exact he
  | @upgradeSha shas sha underflow hfict hsha =>
    obtain ⟨a, ha⟩ : ∃ a, shas.find? (fun r => r.hash = sha.hash) = some a :=
      Option.isSome_iff_exists.mp (List.find?_isSome.mpr ⟨sha, hsha, by simp⟩)
    rw [hfict] at he
    intro x hx
    rw [hfict] at hx
    rcases mem_update ha hx with hx | rfl
    · exact he x hx
    · exact Nat.succ_ne_zero a.refBlks
  | insertSha hfict hnew =>
    rw [hfict] at he
    intro sha hsha
    rw [hfict] at hsha
    rcases List.mem_orderedInsert _ |>.mp hsha with rfl | hsha
    · exact Nat.one_ne_zero
    · exact he sha hsha

theorem Real.Sound.moves (h : s.Sound) (hm : Moves leaf s t) : t.Sound := by
  induction hm with
  | same htree _ =>
    rw [Real.Sound, htree]
    exact h
  | insert _ htree _ =>
    intro x hx
    rw [htree] at hx
    rcases List.mem_cons.mp hx with rfl | hx
    · exact Nat.one_ne_zero
    · exact h x hx
  | set he hf =>
    intro x hx
    rcases mem_update he hx with hx | rfl
    · exact h x hx
    · exact hf.counted (h _ (List.mem_of_find?_eq_some he))
  | trans _ _ ih₁ ih₂ => exact ih₂ (ih₁ h)

theorem Real.Sound.collect (h : s.Sound) (hr : s.collect k pass2 leaf = .ok r) : r.1.Sound :=
  h.moves (Real.collect_takes hr).moves

end Sound

/-! ## Conditions on runs -/

/-- Whenever the memory limit cuts the window back, something is left of it. -/
def Real.LeavesWindow (memoryLimit : Nat) : Nat → Real → Prop
  | 0, _ => True
  | fuel + 1, s =>
    memoryLimit < s.memoryUse → shrinkEnd s.crcStart s.crcEnd ≠ s.crcStart ∧
      (s.evict (shrinkEnd s.crcStart s.crcEnd)).LeavesWindow memoryLimit fuel

section Along

variable (k : Kernel) (memoryLimit fuel : Nat) (P Q : Real → Leaf → Prop)

/-- `P` holds of every record that a scan processes, before it is processed, and `next` of the state
    that it ends in. -/
def Real.ScanAlong (next : Real → Prop) : Real → List Leaf → Prop
  | s, [] => next s
  | s, leaf :: leaves =>
    if Skips s.crcStart s.crcEnd leaf.dataCrc then Real.ScanAlong next s leaves
    else P s leaf ∧ ∀ r, s.process k memoryLimit fuel false leaf = .ok r →
      Real.ScanAlong next r.1 leaves

/-- `Q` holds of every record of the queue, before it is processed. -/
def Real.DrainAlong : Real → List Leaf → Prop
  | _, [] => True
  | s, leaf :: rest =>
    Q s leaf ∧ ∀ r, s.process k memoryLimit fuel true leaf = .ok r →
      Real.DrainAlong (Real.dequeue r leaf rest) rest

/-- `P` and `Q` hold in the first `n` passes. -/
def Real.PassesAlong (leaves : List Leaf) : Nat → Real → Prop
  | 0, _ => True
  | n + 1, s =>
    Real.ScanAlong k memoryLimit fuel P
        (fun s => Real.DrainAlong k memoryLimit fuel Q s s.queue) s.begin leaves ∧
      ∀ s', s.pass k memoryLimit fuel leaves = .ok s' → s'.crcEnd ≠ 0 →
        Real.PassesAlong leaves n s'

end Along

instance Real.decidableLeavesWindow (memoryLimit : Nat) :
    (fuel : Nat) → (s : Real) → Decidable (s.LeavesWindow memoryLimit fuel)
  | 0, _ => inferInstanceAs (Decidable True)
  | fuel + 1, s =>
    have := Real.decidableLeavesWindow memoryLimit fuel (s.evict (shrinkEnd s.crcStart s.crcEnd))
    inferInstanceAs (Decidable (_ → _ ∧ _))

instance Real.decidableScanAlong (k : Kernel) (memoryLimit fuel : Nat) (P : Real → Leaf → Prop)
    [∀ s leaf, Decidable (P s leaf)] (next : Real → Prop) [DecidablePred next] :
    (s : Real) → (leaves : List Leaf) → Decidable (Real.ScanAlong k memoryLimit fuel P next s leaves)
  | s, [] => inferInstanceAs (Decidable (next s))
  | s, leaf :: leaves =>
    have (s : Real) := Real.decidableScanAlong k memoryLimit fuel P next s leaves
    inferInstanceAs
      (Decidable (if Skips s.crcStart s.crcEnd leaf.dataCrc then _ else _ ∧ ∀ _, _ → _))

instance Real.decidableDrainAlong (k : Kernel) (memoryLimit fuel : Nat) (Q : Real → Leaf → Prop)
    [∀ s leaf, Decidable (Q s leaf)] :
    (s : Real) → (queue : List Leaf) → Decidable (Real.DrainAlong k memoryLimit fuel Q s queue)
  | _, [] => inferInstanceAs (Decidable True)
  | _, _ :: rest =>
    have (s : Real) := Real.decidableDrainAlong k memoryLimit fuel Q s rest
    inferInstanceAs (Decidable (_ ∧ ∀ _, _ → _))

/-- In every pass, whenever the window is cut back, something is left of it. -/
def NeverCollapses (k : Kernel) (memoryLimit fuel : Nat) (leaves : List Leaf) : Prop :=
  ∀ n, Real.PassesAlong k memoryLimit fuel (fun s _ => s.LeavesWindow memoryLimit fuel)
    (fun s _ => s.LeavesWindow memoryLimit fuel) leaves n Real.init

/-! ## The windows of the passes -/

/-- The CRCs of a window but one. -/
def gap (crcStart crcEnd : Nat) : Nat := (crcEnd + 2 ^ 33 - crcStart - 1) % 2 ^ 32

/-- The windows in which the first `n` passes end. -/
def Real.windows (k : Kernel) (memoryLimit fuel : Nat) (leaves : List Leaf) :
    Nat → Real → List (Nat × Nat)
  | 0, _ => []
  | n + 1, s =>
    match s.pass k memoryLimit fuel leaves with
    | .error _ => []
    | .ok s' =>
      (s'.crcStart, s'.crcEnd) ::
        if s'.crcEnd ≠ 0 then Real.windows k memoryLimit fuel leaves n s' else []

/-- Windows that follow each other from `crcStart` on. An end of 0 is the maximum. -/
def Follow : Nat → List (Nat × Nat) → Prop
  | _, [] => True
  | crcStart, (a, b) :: ws =>
    a = crcStart ∧ a < 2 ^ 32 ∧ b < 2 ^ 32 ∧ (b = 0 ∧ ws = [] ∨ a < b ∧ Follow b ws)

section Windows

variable {k : Kernel} {memoryLimit fuel : Nat} {leaves queue : List Leaf} {leaf : Leaf}
  {s t : Real} {pass2 : Bool} {err : Fault}

/-- What a pass keeps: its start, a proper window, and sound entries. -/
structure Real.InPass (s : Real) (crcStart : Nat) : Prop where
  start : s.crcStart = crcStart
  proper : Proper s.crcStart s.crcEnd
  sound : s.Sound

variable {crcStart : Nat}

theorem gap_shrinkEnd {crcEnd : Nat} (hw : Proper crcStart crcEnd)
    (hne : shrinkEnd crcStart crcEnd ≠ crcStart) :
    gap crcStart (shrinkEnd crcStart crcEnd) < gap crcStart crcEnd / 2 := by
  obtain ⟨h1, h2, h3⟩ := hw
  simp only [gap, shrinkEnd] at *
  omega

theorem Real.InPass.evict {crcEnd : Nat} (h : s.InPass crcStart)
    (hend : shrinkEnd s.crcStart s.crcEnd = crcEnd) (hne : crcEnd ≠ s.crcStart) :
    (s.evict crcEnd).InPass crcStart := by
  obtain ⟨h1, h2, -⟩ := s.evict_fields crcEnd
  refine ⟨h1.trans h.start, ?_, fun e he => h.sound e (List.mem_filter.mp he).1⟩
  rw [h1, h2, ← hend]
  exact (shrinkEnd_spec h.proper (hend ▸ hne)).1

/-- The loop of the memory limit ends: each round halves the window. -/
theorem Real.limit_ok (h : s.InPass crcStart) (hgap : gap s.crcStart s.crcEnd < 2 ^ fuel)
    (hleaves : s.LeavesWindow memoryLimit (fuel + 1)) :
    ∃ t, s.limit memoryLimit (fuel + 1) = .ok t ∧ t.InPass crcStart := by
  induction fuel generalizing s with
  | zero =>
    rw [Real.limit]
    split
    · rename_i hlim
      have hne := (hleaves hlim).1
      have := gap_shrinkEnd h.proper hne
      omega
    · exact ⟨s, rfl, h⟩
  | succ fuel ih =>
    rw [Real.limit]
    split
    · rename_i hlim
      obtain ⟨hne, htail⟩ := hleaves hlim
      have hlt := gap_shrinkEnd h.proper hne
      generalize hend : shrinkEnd s.crcStart s.crcEnd = crcEnd at *
      obtain ⟨h1, h2, -⟩ := s.evict_fields crcEnd
      refine ih (h.evict hend hne) ?_ htail
      rw [h1, h2]
      rw [Nat.pow_succ] at hgap
      omega
    · exact ⟨s, rfl, h⟩

theorem Real.collect_error (h : s.collect k pass2 leaf = .error err) : err = .exit := by
  have hplain : ∀ {de : Entry} {refBlks refSize : Nat},
      s.processPlain k pass2 de refBlks refSize leaf = .error err → err = .exit := by
    intro de refBlks refSize h
    rw [Real.processPlain] at h
    split at h
    · cases h
    · generalize s.deduplicate k de.leaf leaf = d at h
      obtain ⟨error, s'⟩ := d
      cases error <;> cases h
      rfl
  have hsha : ∀ {sha : ShaEntry}, s.processSha k pass2 sha leaf = .error err → err = .exit := by
    intro sha h
    rw [Real.processSha] at h
    split at h
    · cases h
    · generalize s.deduplicate k sha.leaf leaf = d at h
      obtain ⟨error, s'⟩ := d
      cases error <;> cases h
      rfl
  rw [Real.collect] at h
  split at h
  · cases h
  split at h
  · exact hplain h
  rw [Real.processFictitious] at h
  split at h
  · exact hsha h
  split at h
  · cases h
  split at h
  · exact hsha h
  · cases h

/-- A record is processed, or the program exits. -/
theorem Real.process_inPass (k : Kernel) (pass2 : Bool) (leaf : Leaf) (h : s.InPass crcStart)
    (hfuel : 33 ≤ fuel) (hleaves : s.LeavesWindow memoryLimit fuel) :
    s.process k memoryLimit fuel pass2 leaf = .error .exit ∨
      ∃ r, s.process k memoryLimit fuel pass2 leaf = .ok r ∧ r.1.InPass crcStart := by
  obtain ⟨f, rfl⟩ : ∃ f, fuel = f + 1 := ⟨fuel - 1, by omega⟩
  have hgap : gap s.crcStart s.crcEnd < 2 ^ f :=
    (Nat.mod_lt _ (Nat.two_pow_pos 32)).trans_le (Nat.pow_le_pow_right (by decide) (by omega))
  obtain ⟨t, ht, hin⟩ := Real.limit_ok h hgap hleaves
  rw [Real.process, ht]
  dsimp only
  cases hc : t.collect k pass2 leaf with
  | error e => exact Or.inl (by rw [Real.collect_error hc])
  | ok r =>
    have hcounted := (Real.collect_takes hc).counted
    refine Or.inr ⟨r, rfl, hcounted.crcStart.trans hin.start, ?_, hin.sound.collect hc⟩
    rw [hcounted.crcStart, hcounted.crcEnd]
    exact hin.proper

theorem Real.scan_inPass {next : Real → Prop} (h : s.InPass crcStart) (hfuel : 33 ≤ fuel)
    (ha : Real.ScanAlong k memoryLimit fuel (fun s _ => s.LeavesWindow memoryLimit fuel) next s
      leaves) :
    s.scan k memoryLimit fuel leaves = .error .exit ∨
      ∃ t, s.scan k memoryLimit fuel leaves = .ok t ∧ t.InPass crcStart ∧ next t := by
  induction leaves generalizing s with
  | nil => exact Or.inr ⟨s, rfl, h, ha⟩
  | cons leaf leaves ih =>
    rw [Real.ScanAlong] at ha
    rw [Real.scan]
    by_cases hskip : Skips s.crcStart s.crcEnd leaf.dataCrc
    · rw [if_pos hskip] at ha ⊢
      exact ih h ha
    · rw [if_neg hskip] at ha ⊢
      rcases Real.process_inPass k false leaf h hfuel ha.1 with
        hr | ⟨r, hr, hin⟩
      · rw [hr]
        exact Or.inl rfl
      · rw [hr]
        exact ih hin (ha.2 r hr)

theorem Real.drain_inPass (h : s.InPass crcStart) (hfuel : 33 ≤ fuel) (hqueue : s.queue = queue)
    (ha : Real.DrainAlong k memoryLimit fuel (fun s _ => s.LeavesWindow memoryLimit fuel) s
      queue) :
    s.drain k memoryLimit fuel queue = .error .exit ∨
      ∃ t, s.drain k memoryLimit fuel queue = .ok t ∧ t.InPass crcStart ∧ t.queue = [] := by
  induction queue generalizing s with
  | nil => exact Or.inr ⟨s, rfl, h, hqueue⟩
  | cons leaf rest ih =>
    rw [Real.drain]
    rcases Real.process_inPass k true leaf h hfuel ha.1 with
      hr | ⟨r, hr, hin⟩
    · rw [hr]
      exact Or.inl rfl
    · rw [hr]
      exact ih (s := Real.dequeue r leaf rest) ⟨hin.start, hin.proper, hin.sound⟩ rfl (ha.2 r hr)

/-- The state between two passes. -/
structure Real.Between (s : Real) : Prop where
  crcEnd : s.crcEnd < 2 ^ 32
  tree : s.tree = []
  queue : s.queue = []

theorem Real.Between.begin (h : s.Between) : s.begin.InPass s.crcEnd :=
  ⟨rfl, ⟨h.crcEnd, Nat.two_pow_pos 32, Or.inl rfl⟩, by simp [Real.Sound, Real.begin, h.tree]⟩

/-- A pass goes to its end, or the program exits. -/
theorem Real.pass_between (h : s.Between) (hfuel : 33 ≤ fuel)
    (ha : Real.ScanAlong k memoryLimit fuel (fun s _ => s.LeavesWindow memoryLimit fuel)
      (fun s => Real.DrainAlong k memoryLimit fuel (fun s _ => s.LeavesWindow memoryLimit fuel) s
        s.queue) s.begin leaves) :
    s.pass k memoryLimit fuel leaves = .error .exit ∨
      ∃ t, s.pass k memoryLimit fuel leaves = .ok t ∧ t.Between ∧ t.crcStart = s.crcEnd ∧
        Proper t.crcStart t.crcEnd := by
  rw [Real.pass]
  rcases Real.scan_inPass h.begin hfuel ha with h1 | ⟨s₁, h1, hin₁, ha₁⟩
  · rw [h1]
    exact Or.inl rfl
  rw [h1]
  dsimp only
  rcases Real.drain_inPass hin₁ hfuel rfl ha₁ with h2 | ⟨s₂, h2, hin₂, hq⟩
  · rw [h2]
    exact Or.inl rfl
  rw [h2]
  dsimp only
  rw [Real.flush, if_pos (show ∀ e ∈ s₂.tree, _ from hin₂.sound)]
  exact Or.inr ⟨_, rfl, ⟨hin₂.proper.2.1, rfl, hq⟩, hin₂.start, hin₂.proper⟩

/-- Records are processed in the window only. -/
theorem Real.scanAlong_inWindow {next next' : Real → Prop} (h : s.InPass crcStart)
    (hfuel : 33 ≤ fuel) (hnext : ∀ t, t.InPass crcStart → next t → next' t)
    (ha : Real.ScanAlong k memoryLimit fuel (fun s _ => s.LeavesWindow memoryLimit fuel) next s
      leaves) :
    Real.ScanAlong k memoryLimit fuel
      (fun s leaf => inWindow s.crcStart s.crcEnd leaf.dataCrc = true) next' s leaves := by
  induction leaves generalizing s with
  | nil => exact hnext s h ha
  | cons leaf leaves ih =>
    rw [Real.ScanAlong] at ha ⊢
    by_cases hskip : Skips s.crcStart s.crcEnd leaf.dataCrc
    · rw [if_pos hskip] at ha ⊢
      exact ih h ha
    · rw [if_neg hskip] at ha ⊢
      refine ⟨?_, fun r hr => ?_⟩
      · rw [skips_iff h.proper] at hskip
        simpa using hskip
      · rcases Real.process_inPass k false leaf h hfuel ha.1 with
          hr' | ⟨r', hr', hin⟩
        · rw [hr'] at hr
          cases hr
        · rw [hr'] at hr
          cases hr
          exact ih hin (ha.2 r hr')

theorem Real.drainAlong_true (s : Real) (queue : List Leaf) :
    Real.DrainAlong k memoryLimit fuel (fun _ _ => True) s queue := by
  induction queue generalizing s with
  | nil => trivial
  | cons leaf rest ih => exact ⟨trivial, fun r _ => ih _⟩

theorem Real.passesAlong_inWindow {n : Nat} (h : s.Between) (hfuel : 33 ≤ fuel)
    (ha : Real.PassesAlong k memoryLimit fuel (fun s _ => s.LeavesWindow memoryLimit fuel)
      (fun s _ => s.LeavesWindow memoryLimit fuel) leaves n s) :
    Real.PassesAlong k memoryLimit fuel
      (fun s leaf => inWindow s.crcStart s.crcEnd leaf.dataCrc = true) (fun _ _ => True) leaves n
      s := by
  induction n generalizing s with
  | zero => trivial
  | succ n ih =>
    refine ⟨Real.scanAlong_inWindow h.begin hfuel (fun t _ _ => t.drainAlong_true _) ha.1,
      fun s' hs' hne => ?_⟩
    rcases Real.pass_between h hfuel ha.1 with hp | ⟨t, hp, ht, -⟩
    · rw [hp] at hs'
      cases hs'
    · rw [hp] at hs'
      cases hs'
      exact ih ht (ha.2 _ hp hne)

theorem Real.windows_follow {n : Nat} (h : s.Between) (hfuel : 33 ≤ fuel)
    (ha : Real.PassesAlong k memoryLimit fuel (fun s _ => s.LeavesWindow memoryLimit fuel)
      (fun s _ => s.LeavesWindow memoryLimit fuel) leaves n s) :
    Follow s.crcEnd (Real.windows k memoryLimit fuel leaves n s) := by
  induction n generalizing s with
  | zero => trivial
  | succ n ih =>
    rw [Real.windows]
    rcases Real.pass_between h hfuel ha.1 with hp | ⟨t, hp, ht, hstart, hw⟩
    · rw [hp]
      trivial
    · rw [hp]
      refine ⟨hstart, hw.1, hw.2.1, ?_⟩
      split_ifs with hend
      · exact Or.inr ⟨hw.2.2.resolve_left hend, ih ht (ha.2 t hp hend)⟩
      · exact Or.inl ⟨not_not.mp hend, rfl⟩

/-- There are no more passes than CRCs from the end of the last one on. -/
theorem Real.passes_end {n : Nat} (h : s.Between) (hfuel : 33 ≤ fuel) (hn : 2 ^ 32 < n + s.crcEnd)
    (ha : Real.PassesAlong k memoryLimit fuel (fun s _ => s.LeavesWindow memoryLimit fuel)
      (fun s _ => s.LeavesWindow memoryLimit fuel) leaves n s) :
    s.passes k memoryLimit fuel leaves n = .error .exit ∨
      (∃ t, s.passes k memoryLimit fuel leaves n = .ok t) ∧
        ∀ crc, s.crcEnd ≤ crc → crc < 2 ^ 32 →
          ∃ w ∈ Real.windows k memoryLimit fuel leaves n s, inWindow w.1 w.2 crc = true := by
  induction n generalizing s with
  | zero =>
    have := h.crcEnd
    omega
  | succ n ih =>
    rw [Real.passes, Real.windows]
    rcases Real.pass_between h hfuel ha.1 with hp | ⟨t, hp, ht, hstart, hw⟩
    · rw [hp]
      exact Or.inl rfl
    rw [hp]
    dsimp only
    by_cases hend : t.crcEnd = 0
    · rw [if_neg (not_not.mpr hend), if_neg (not_not.mpr hend)]
      refine Or.inr ⟨⟨t, rfl⟩, fun crc hle _ => ⟨_, List.mem_cons_self, ?_⟩⟩
      simp [inWindow, hend, hstart, hle]
    · have hlt := hw.2.2.resolve_left hend
      rw [if_pos hend, if_pos hend]
      rcases ih ht (by omega) (ha.2 t hp hend) with herr | ⟨hok, hcover⟩
      · exact Or.inl herr
      · refine Or.inr ⟨hok, fun crc hle hcrc => ?_⟩
        by_cases hin : crc < t.crcEnd
        · refine ⟨_, List.mem_cons_self, ?_⟩
          simp [inWindow, hstart, hle, hin]
        · obtain ⟨w, hmem, hw'⟩ := hcover crc (Nat.le_of_not_lt hin) hcrc
          exact ⟨w, List.mem_cons_of_mem _ hmem, hw'⟩

end Windows

/-- Windows that follow each other do not overlap. -/
theorem Follow.pairwise {crcStart : Nat} {ws : List (Nat × Nat)} (h : Follow crcStart ws) :
    (∀ w ∈ ws, crcStart ≤ w.1) ∧
      ws.Pairwise fun v w => ∀ crc, inWindow v.1 v.2 crc = true → inWindow w.1 w.2 crc = false := by
  induction ws generalizing crcStart with
  | nil => exact ⟨nofun, List.Pairwise.nil⟩
  | cons w ws ih =>
    obtain ⟨a, b⟩ := w
    obtain ⟨rfl, -, -, ⟨-, rfl⟩ | ⟨hlt, hrest⟩⟩ := h
    · exact ⟨by simp, List.pairwise_singleton _ _⟩
    · obtain ⟨hge, hpair⟩ := ih hrest
      refine ⟨?_, List.pairwise_cons.mpr ⟨fun w hw crc hin => ?_, hpair⟩⟩
      · intro w hw
        rcases List.mem_cons.mp hw with rfl | hw
        · exact Nat.le_refl _
        · exact hlt.le.trans (hge w hw)
      · have := hge w hw
        simp only [inWindow, Bool.and_eq_true, Bool.or_eq_true, decide_eq_true_eq,
          Bool.and_eq_false_iff, decide_eq_false_iff_not] at hin ⊢
        omega

/-- Whatever the records and the ioctls are: as long as something is left of the window in each cut,
    records are processed by a pass in its window only, the windows follow each other without
    overlap, and after at most 2^32 passes, unless the program exits, they have covered all CRCs. -/
theorem passes_partition (k : Kernel) (memoryLimit fuel : Nat) (leaves : List Leaf)
    (hfuel : 33 ≤ fuel) (h : NeverCollapses k memoryLimit fuel leaves) :
    (∀ n, Real.PassesAlong k memoryLimit fuel
        (fun s leaf => inWindow s.crcStart s.crcEnd leaf.dataCrc = true) (fun _ _ => True) leaves n
        Real.init) ∧
      (∀ n, Follow 0 (Real.windows k memoryLimit fuel leaves n Real.init)) ∧
      ∀ n > 2 ^ 32, Real.init.passes k memoryLimit fuel leaves n = .error .exit ∨
        (∃ t, Real.init.passes k memoryLimit fuel leaves n = .ok t) ∧
          (∀ crc < 2 ^ 32, ∃ w ∈ Real.windows k memoryLimit fuel leaves n Real.init,
            inWindow w.1 w.2 crc = true) ∧
          (Real.windows k memoryLimit fuel leaves n Real.init).Pairwise
            fun v w => ∀ crc, inWindow v.1 v.2 crc = true → inWindow w.1 w.2 crc = false := by
  have hinit : Real.init.Between := ⟨Nat.two_pow_pos 32, rfl, rfl⟩
  refine ⟨fun n => Real.passesAlong_inWindow hinit hfuel (h n),
    fun n => Real.windows_follow hinit hfuel (h n), fun n hn => ?_⟩
  rcases Real.passes_end hinit hfuel (show 2 ^ 32 < n + 0 from hn) (h n) with herr | ⟨hok, hcover⟩
  · exact Or.inl herr
  · exact Or.inr ⟨hok, fun crc hcrc => hcover crc (Nat.zero_le crc) hcrc,
      (Real.windows_follow hinit hfuel (h n)).pairwise.2⟩

/-- Three records, of which the third one has the window cut back to the lower half. -/
def threeRecords : List Leaf := [⟨0, 0, 0, 1⟩, ⟨1, 2 ^ 31, 1, 2⟩, ⟨2, 1, 2, 3⟩]

theorem threeRecords_neverCollapses :
    NeverCollapses ⟨fun _ _ => .ok, fun _ => none⟩ 200 33 threeRecords := by
  have hsecond : ∀ s, Real.init.pass ⟨fun _ _ => .ok, fun _ => none⟩ 200 33 threeRecords = .ok s →
      Real.ScanAlong ⟨fun _ _ => .ok, fun _ => none⟩ 200 33 (fun s _ => s.LeavesWindow 200 33)
        (fun s => Real.DrainAlong ⟨fun _ _ => .ok, fun _ => none⟩ 200 33
          (fun s _ => s.LeavesWindow 200 33) s s.queue) s.begin threeRecords ∧
        ∀ t, s.pass ⟨fun _ _ => .ok, fun _ => none⟩ 200 33 threeRecords = .ok t →
          t.crcEnd = 0 := by
    decide +kernel
  rintro (_ | _ | n)
  · trivial
  · exact ⟨by decide +kernel, fun _ _ _ => trivial⟩
  · refine ⟨by decide +kernel, fun s hs _ => ⟨(hsecond s hs).1, fun t ht hne => ?_⟩⟩
    exact absurd ((hsecond s hs).2 t ht) hne

theorem passes_partition_two :
    Real.windows ⟨fun _ _ => .ok, fun _ => none⟩ 200 33 threeRecords 2 Real.init
        = [(0, 2147483647), (2147483647, 0)] ∧
      Follow 0 [(0, 2147483647), (2147483647, 0)] := by
  have hw : Real.windows ⟨fun _ _ => .ok, fun _ => none⟩ 200 33 threeRecords 2 Real.init
      = [(0, 2147483647), (2147483647, 0)] := by decide +kernel
  have h := (passes_partition ⟨fun _ _ => .ok, fun _ => none⟩ 200 33 threeRecords (le_refl 33)
    threeRecords_neverCollapses).2.1 2
  rw [hw] at h
  exact ⟨hw, h⟩

/-! ## Passes without end -/

/-- The CRC at which the first cut ends the window. -/
def crowdedCrc : Nat := 2147483647

/-- Blocks of 16 KB that all have that CRC, at different places. -/
def colliding (i : Nat) : Leaf := ⟨i, crowdedCrc, 0xA000000000000000 + 16384 * i, 16384⟩

def collisions (n : Nat) : List Leaf := (List.range n).map colliding

/-- The blocks are all different. -/
def distinctBlocks : Kernel where
  dedup := fun _ _ => .cmpFailure
  hash := fun leaf => some leaf.base

/-- The trees have `m` of the first `i` blocks, and nothing is in the queue. -/
structure Real.Holds (s : Real) (m i : Nat) : Prop where
  queue : s.queue = []
  entries : match m with
    | 0 => s.tree = [] ∧ s.memoryUse = 0
    | 1 => s.memoryUse = entrySize ∧ ∃ j < i, s.tree = [⟨colliding j, .plain 1 16384⟩]
    | m => s.memoryUse = entrySize + shaEntrySize * m ∧
        ∃ leaf shas, s.tree = [⟨leaf, .fictitious shas⟩] ∧ leaf.dataCrc = crowdedCrc ∧
          shas.length = m ∧ ∀ sha ∈ shas, ∃ j < i, sha.leaf = colliding j ∧ sha.hash = j

section Crowd

variable {s : Real} {m i n fuel memoryLimit : Nat}

theorem colliding_offset_ne {j : Nat} (h : j < i) :
    (colliding j).dataOffset ≠ (colliding i).dataOffset := by
  dsimp only [colliding]
  omega

/-- The second block turns the entry into a fictitious one. -/
theorem Real.processPlain_colliding {j : Nat} (h : j < i) (s : Real) :
    s.processPlain distinctBlocks false ⟨colliding j, .plain 1 16384⟩ 1 16384 (colliding i)
      = .ok (s.crcFailure distinctBlocks false ⟨colliding j, .plain 1 16384⟩ 1 16384
          (colliding i)) := by
  rw [Real.processPlain]
  split
  · rfl
  · rw [Real.deduplicate, if_neg (colliding_offset_ne h), if_neg (by simp [distinctBlocks])]
    rfl

theorem update_singleton {ρ : Type} {key : ρ → Nat} {k : Nat} {f : ρ → ρ} {a : ρ} (h : key a = k) :
    update key k f [a] = [f a] := by
  rw [update, if_pos h]

theorem Real.crcFailure_colliding {j : Nat} (h : j < i)
    (htree : s.tree = [⟨colliding j, .plain 1 16384⟩]) :
    ∃ t, s.crcFailure distinctBlocks false ⟨colliding j, .plain 1 16384⟩ 1 16384 (colliding i)
        = (t, true) ∧
      t.tree = [⟨colliding j, .fictitious (List.orderedInsert (fun a b => a.hash ≤ b.hash)
        ⟨colliding i, 1, 16384, i⟩ [⟨colliding j, 1, 16384, j⟩])⟩] ∧
      t.memoryUse = s.memoryUse + shaEntrySize + shaEntrySize ∧ t.queue = s.queue ∧
      t.crcStart = s.crcStart ∧ t.crcEnd = s.crcEnd := by
  rw [Real.crcFailure]
  dsimp only [distinctBlocks, Real.setEntry, colliding]
  rw [if_neg (by omega), htree]
  exact ⟨_, rfl, rfl, rfl, rfl, rfl, rfl⟩

/-- The SHA tree with one block more. -/
theorem insert_shas (shas : List ShaEntry) (hlen : shas.length = m)
    (hshas : ∀ sha ∈ shas, ∃ j < i, sha.leaf = colliding j ∧ sha.hash = j) (new : ShaEntry)
    (hnew : new.leaf = colliding i ∧ new.hash = i) :
    (shas.orderedInsert (fun a b => a.hash ≤ b.hash) new).length = m + 1 ∧
      ∀ sha ∈ shas.orderedInsert (fun a b => a.hash ≤ b.hash) new,
        ∃ j < i + 1, sha.leaf = colliding j ∧ sha.hash = j := by
  refine ⟨by rw [List.orderedInsert_length, hlen], fun sha hsha => ?_⟩
  rcases List.mem_orderedInsert _ |>.mp hsha with rfl | hsha
  · exact ⟨i, Nat.lt_succ_self i, hnew⟩
  · obtain ⟨j, hj, h⟩ := hshas sha hsha
    exact ⟨j, hj.trans (Nat.lt_succ_self i), h⟩

theorem Real.Holds.collect (h : s.Holds m i) :
    ∃ t, s.collect distinctBlocks false (colliding i) = .ok (t, true) ∧ t.Holds (m + 1) (i + 1) ∧
      t.crcStart = s.crcStart ∧ t.crcEnd = s.crcEnd := by
  obtain ⟨hq, hent⟩ := h
  match m, hent with
  | 0, ⟨htree, hmem⟩ =>
    refine ⟨{ s with tree := [⟨colliding i, .plain 1 16384⟩]
                     memoryUse := s.memoryUse + entrySize }, ?_,
      ⟨hq, ?_, i, Nat.lt_succ_self i, rfl⟩, rfl, rfl⟩
    · rw [Real.collect, htree, List.find?_nil]
      rfl
    · rw [hmem, Nat.zero_add]
  | 1, ⟨hmem, j, hj, htree⟩ =>
    have hfind : s.tree.find? (fun e => e.crc = (colliding i).dataCrc)
        = some ⟨colliding j, .plain 1 16384⟩ := by
      rw [htree]
      rfl
    obtain ⟨hlen, hshas⟩ := insert_shas (i := i) [⟨colliding j, 1, 16384, j⟩] rfl
      (fun sha hsha => ⟨j, hj, by rw [List.mem_singleton.mp hsha]; exact ⟨rfl, rfl⟩⟩)
      ⟨colliding i, 1, 16384, i⟩ ⟨rfl, rfl⟩
    obtain ⟨t, ht, htree', hmem', hq', hstart, hend⟩ := Real.crcFailure_colliding hj htree
    refine ⟨t, ?_, ⟨hq'.trans hq, ?_, colliding j, _, htree', rfl, hlen, hshas⟩, hstart, hend⟩
    · rw [Real.collect, hfind]
      dsimp only
      rw [Real.processPlain_colliding hj, ht]
    · rw [hmem', hmem]
      rfl
  | m + 2, ⟨hmem, leaf, shas, htree, hcrc, hlen, hshas⟩ =>
    obtain ⟨hlen', hshas'⟩ := insert_shas shas hlen hshas ⟨colliding i, 1, 16384, i⟩ ⟨rfl, rfl⟩
    have hfind : s.tree.find? (fun e => e.crc = (colliding i).dataCrc)
        = some ⟨leaf, .fictitious shas⟩ := by
      rw [htree, List.find?_cons_of_pos]
      exact decide_eq_true hcrc
    have hplace : shas.find? (fun e => e.leaf.dataOffset = (colliding i).dataOffset ∧
        e.leaf.dataLen = (colliding i).dataLen) = none := by
      rw [List.find?_eq_none]
      intro sha hsha
      obtain ⟨j, hj, hleaf, -⟩ := hshas sha hsha
      rw [hleaf]
      simp [colliding_offset_ne hj]
    have hhash : shas.find? (fun e => e.hash = i) = none := by
      rw [List.find?_eq_none]
      intro sha hsha
      obtain ⟨j, hj, -, hh⟩ := hshas sha hsha
      rw [hh]
      simp [hj.ne]
    refine ⟨s.setEntry crowdedCrc shaEntrySize (Entry.insertSha (colliding i) i), ?_,
      ⟨hq, ?_, leaf, _, ?_, hcrc, hlen', hshas'⟩, rfl, rfl⟩
    · rw [Real.collect, hfind]
      dsimp only
      rw [Real.processFictitious, hplace]
      dsimp only [distinctBlocks, colliding]
      rw [hhash]
    · change s.memoryUse + shaEntrySize = _
      rw [hmem]
      ring
    · change update Entry.crc crowdedCrc _ s.tree = _
      rw [htree, update_singleton (show Entry.crc ⟨leaf, .fictitious shas⟩ = _ from hcrc)]
      rfl

theorem Real.Holds.memoryUse_le (h : s.Holds m i) : s.memoryUse ≤ entrySize + shaEntrySize * m := by
  obtain ⟨-, hent⟩ := h
  match m, hent with
  | 0, ⟨_, hmem⟩ => rw [hmem]; exact Nat.zero_le _
  | 1, ⟨hmem, _⟩ => rw [hmem]; exact Nat.le_add_right _ _
  | m + 2, ⟨hmem, _⟩ => exact hmem.le

/-- Up to the limit the blocks pile up. -/
theorem Real.Holds.scan (h : s.Holds m i) (hwin : ¬ Skips s.crcStart s.crcEnd crowdedCrc)
    (hle : entrySize + shaEntrySize * (m + n) ≤ memoryLimit + shaEntrySize) (rest : List Leaf) :
    ∃ t : Real, s.scan distinctBlocks memoryLimit (fuel + 1) ((List.range' i n).map colliding ++ rest)
        = t.scan distinctBlocks memoryLimit (fuel + 1) rest ∧
      t.Holds (m + n) (i + n) ∧ t.crcStart = s.crcStart ∧ t.crcEnd = s.crcEnd := by
  induction n generalizing s m i with
  | zero => exact ⟨s, rfl, h, rfl, rfl⟩
  | succ n ih =>
    have hlim : ¬ memoryLimit < s.memoryUse := by
      have := h.memoryUse_le
      have : shaEntrySize * (m + (n + 1)) = shaEntrySize * m + shaEntrySize * n + shaEntrySize := by
        ring
      omega
    obtain ⟨t, hcol, ht, hstart, hend⟩ := h.collect
    have hnext := ih ht (by rwa [hstart, hend]) (by rwa [Nat.add_right_comm m 1 n])
    rw [Nat.add_right_comm m 1 n, Nat.add_right_comm i 1 n] at hnext
    obtain ⟨u, hu, hhold, hstart', hend'⟩ := hnext
    refine ⟨u, ?_, hhold, hstart'.trans hstart, hend'.trans hend⟩
    rw [← hu, List.range'_succ, List.map_cons, List.cons_append, Real.scan,
      if_neg (show ¬ Skips _ _ (colliding i).dataCrc from hwin), Real.process, Real.limit,
      if_neg hlim]
    dsimp only
    rw [hcol]

/-- Nothing of the blocks is below their CRC. -/
theorem Real.Holds.evict (h : s.Holds (m + 2) i) : (s.evict crowdedCrc).Holds 0 i := by
  obtain ⟨hq, hmem, leaf, shas, htree, hcrc, hlen, -⟩ := h
  have hge : ¬ Entry.crc ⟨leaf, .fictitious shas⟩ < crowdedCrc := hcrc.not_lt
  refine ⟨hq, ?_, ?_⟩
  · change s.tree.filter (fun e => decide (e.crc < crowdedCrc)) = []
    rw [htree, List.filter_cons_of_neg (by simpa using hge), List.filter_nil]
  · change s.memoryUse - ((s.tree.filter fun e => decide (crowdedCrc ≤ e.crc)).map
      Entry.memory).sum = 0
    rw [htree, List.filter_cons_of_pos (by simpa using hge), List.filter_nil, hmem]
    simp [Entry.memory, Refs.shas, hlen]

theorem Real.Holds.evict_above {crcEnd : Nat} (h : s.Holds (m + 2) i) (hlt : crowdedCrc < crcEnd) :
    (s.evict crcEnd).Holds (m + 2) i := by
  obtain ⟨hq, hmem, leaf, shas, htree, hcrc, hlen, hshas⟩ := h
  have hlt' : Entry.crc ⟨leaf, .fictitious shas⟩ < crcEnd := hcrc.trans_lt hlt
  refine ⟨hq, ?_, leaf, shas, ?_, hcrc, hlen, hshas⟩
  · change s.memoryUse - ((s.tree.filter fun e => decide (crcEnd ≤ e.crc)).map
      Entry.memory).sum = _
    rw [htree, List.filter_cons_of_neg (by simpa using hlt'), List.filter_nil]
    exact hmem
  · change s.tree.filter (fun e => decide (e.crc < crcEnd)) = _
    rw [htree, List.filter_cons_of_pos (by simpa using hlt'), List.filter_nil]

theorem Real.limit_holds_zero (h : s.Holds 0 i) : s.limit memoryLimit (fuel + 1) = .ok s := by
  rw [Real.limit, h.entries.2, if_neg (Nat.not_lt_zero _)]

/-- A window that begins with the CRC of the blocks is cut until nothing is left. -/
theorem Real.Holds.collapse (h : s.Holds (m + 2) i) (hstart : s.crcStart = crowdedCrc)
    (hw : Proper s.crcStart s.crcEnd) (hgap : gap s.crcStart s.crcEnd < 2 ^ fuel)
    (hlim : memoryLimit < entrySize + shaEntrySize * (m + 2)) :
    ∃ t, s.limit memoryLimit (fuel + 2) = .ok t ∧ t.Holds 0 i ∧ t.crcEnd = crowdedCrc := by
  induction fuel generalizing s with
  | zero =>
    rw [Real.limit, h.entries.1, if_pos hlim]
    by_cases hend : shrinkEnd s.crcStart s.crcEnd = s.crcStart
    · rw [hend, hstart, Real.limit_holds_zero h.evict]
      exact ⟨_, rfl, h.evict, rfl⟩
    · have := gap_shrinkEnd hw hend
      omega
  | succ fuel ih =>
    rw [Real.limit, h.entries.1, if_pos hlim]
    by_cases hend : shrinkEnd s.crcStart s.crcEnd = s.crcStart
    · rw [hend, hstart, Real.limit_holds_zero h.evict]
      exact ⟨_, rfl, h.evict, rfl⟩
    · have hgap' := gap_shrinkEnd hw hend
      obtain ⟨hw', hpos, -⟩ := shrinkEnd_spec hw hend
      generalize shrinkEnd s.crcStart s.crcEnd = crcEnd at *
      obtain ⟨h1, h2, -⟩ := s.evict_fields crcEnd
      have hlt : crowdedCrc < crcEnd := by
        rw [← hstart]
        exact hw'.2.2.resolve_left hpos.ne'
      refine ih (h.evict_above hlt) (h1.trans hstart) ?_ ?_
      · rw [h1, h2]
        exact hw'
      · rw [h1, h2]
        rw [Nat.pow_succ] at hgap
        omega

/-- The record at which memory runs out has the window end at the CRC of the blocks. -/
theorem Real.Holds.limit_first (h : s.Holds (m + 2) i) (hstart : s.crcStart = 0)
    (hend : s.crcEnd = 0) (hlim : memoryLimit < entrySize + shaEntrySize * (m + 2)) :
    ∃ t, s.limit memoryLimit (fuel + 2) = .ok t ∧ t.Holds 0 i ∧ t.crcEnd = crowdedCrc := by
  have hcut : shrinkEnd 0 0 = crowdedCrc := by decide
  rw [Real.limit, h.entries.1, if_pos hlim, hstart, hend, hcut, Real.limit_holds_zero h.evict]
  exact ⟨_, rfl, h.evict, rfl⟩

/-- A pass that starts with all CRCs or with that of the blocks ends with it. -/
theorem Real.pass_crowded (hb : s.Between) (hs : s.crcEnd = 0 ∨ s.crcEnd = crowdedCrc)
    (hfuel : 34 ≤ fuel) (hlim : memoryLimit < entrySize + shaEntrySize * (m + 2))
    (hle : entrySize + shaEntrySize * (m + 2) ≤ memoryLimit + shaEntrySize) :
    ∃ t, s.pass distinctBlocks memoryLimit fuel (collisions (m + 3)) = .ok t ∧ t.Between ∧
      t.crcEnd = crowdedCrc := by
  obtain ⟨f, rfl⟩ : ∃ f, fuel = f + 2 := ⟨fuel - 2, by omega⟩
  have hbegin : s.begin.Holds 0 0 := ⟨hb.queue, hb.tree, rfl⟩
  have hopen : ¬ Skips s.begin.crcStart s.begin.crcEnd crowdedCrc := by
    change ¬ Skips s.crcEnd 0 crowdedCrc
    rcases hs with hs | hs <;> rw [hs] <;> decide
  have hleaves : collisions (m + 3)
      = (List.range' 0 (m + 2)).map colliding ++ [colliding (m + 2)] := by
    rw [collisions, List.range_succ, List.map_append, List.range_eq_range']
    rfl
  obtain ⟨t, hscan, hhold, hstart, hend⟩ := hbegin.scan (n := m + 2) hopen
    (by rwa [Nat.zero_add]) [colliding (m + 2)]
  rw [Nat.zero_add] at hhold
  obtain ⟨u, hcut, hzero, huend⟩ :
      ∃ u, t.limit memoryLimit (f + 2) = .ok u ∧ u.Holds 0 (m + 2) ∧ u.crcEnd = crowdedCrc := by
    rcases hs with hs | hs
    · exact hhold.limit_first (hstart.trans hs) hend hlim
    · have ht : t.crcStart = crowdedCrc := hstart.trans hs
      have ht0 : t.crcEnd = 0 := hend
      refine hhold.collapse ht ?_ ?_ hlim
      · rw [ht, ht0]
        exact ⟨by decide, by decide, Or.inl rfl⟩
      · exact (Nat.mod_lt _ (Nat.two_pow_pos 32)).trans_le
          (Nat.pow_le_pow_right (by decide) (by omega))
  obtain ⟨v, hcol, ⟨hvq, -, j, -, hvtree⟩, -, hvend⟩ := hzero.collect
  have hkeep : ¬ Skips t.crcStart t.crcEnd (colliding (m + 2)).dataCrc := by
    rw [hstart, hend]
    exact hopen
  have hone : ∀ e ∈ v.tree, e.refs.Counted := by
    rw [hvtree]
    intro e he
    rw [List.mem_singleton.mp he]
    exact Nat.one_ne_zero
  have hv : s.begin.scan distinctBlocks memoryLimit (f + 2) (collisions (m + 3)) = .ok v := by
    rw [hleaves, hscan, Real.scan, if_neg hkeep, Real.process, hcut]
    dsimp only
    rw [hcol]
    rfl
  rw [Real.pass, hv]
  dsimp only
  rw [hvq, Real.drain]
  dsimp only
  rw [Real.flush, if_pos hone]
  refine ⟨_, rfl, ⟨?_, rfl, hvq⟩, hvend.trans huend⟩
  rw [show v.crcEnd = crowdedCrc from hvend.trans huend]
  decide

end Crowd

/-- 7282 different blocks of one CRC, which take more than 1 MB: each pass asks for another one. -/
theorem passes_forever : ∃ s : Nat → Real, s 0 = Real.init ∧
    ∀ n, (s n).pass distinctBlocks (1024 * 1024) 34 (collisions 7282) = .ok (s (n + 1)) ∧
      (s (n + 1)).crcEnd ≠ 0 := by
  have hpass : ∀ s : Real, s.Between ∧ (s.crcEnd = 0 ∨ s.crcEnd = crowdedCrc) → ∃ t,
      s.pass distinctBlocks (1024 * 1024) 34 (collisions (7279 + 3)) = .ok t ∧ t.Between ∧
        t.crcEnd = crowdedCrc := fun s hs =>
    Real.pass_crowded hs.1 hs.2 (le_refl 34) (by decide) (by decide)
  choose next hnext using hpass
  -- the states between the passes, each with what the next pass needs
  let states : Nat → { s : Real // s.Between ∧ (s.crcEnd = 0 ∨ s.crcEnd = crowdedCrc) } := fun n =>
    Nat.rec ⟨Real.init, ⟨Nat.two_pow_pos 32, rfl, rfl⟩, Or.inl rfl⟩
      (fun _ s => ⟨next s.1 s.2, (hnext s.1 s.2).2.1, Or.inr (hnext s.1 s.2).2.2⟩) n
  refine ⟨fun n => (states n).1, rfl, fun n => ?_⟩
  obtain ⟨hok, -, hend⟩ := hnext (states n).1 (states n).2
  refine ⟨hok, ?_⟩
  rw [show ((states (n + 1)).1).crcEnd = crowdedCrc from hend]
  decide

end Lh1.Hammer.Dedup
