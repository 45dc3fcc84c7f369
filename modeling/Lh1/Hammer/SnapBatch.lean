/-
  The batches of snapshots of `hammer cleanup` and `hammer prune-everything` (cmd_cleanup.c,
  cmd_softprune.c).

  Each routine collects the snapshots it has selected in a structure for one ioctl and submits it
  when it is full and at the end. The ioctl stops at the first snapshot that fails, and each
  routine goes on behind it in its own way: the migration only if it had been there already.

  * `attempted_once_iff`: when every selected snapshot is attempted exactly once.
-/
import Mathlib

namespace Lh1.Hammer.SnapBatch

/-- A selected snapshot and what the ioctl returns for it, 0 if it does not fail. -/
structure Snap where
  tid : Nat
  error : Nat
  deriving DecidableEq

/-- HAMMERIOC_ADD_SNAPSHOT and HAMMERIOC_DEL_SNAPSHOT on the snapshots from `index` on: the ones
    attempted, and what is left, from the failing one on. -/
def ioctl : List Snap → List Snap × List Snap
  | [] => ([], [])
  | s :: l => if s.error = 0 then (s :: (ioctl l).1, (ioctl l).2) else ([s], s :: l)

theorem ioctl_length {l rest : List Snap} {s : Snap} (h : (ioctl l).2 = s :: rest) :
    rest.length < l.length := by
  induction l with
  | nil => cases h
  | cons a l ih =>
    rw [ioctl] at h
    split at h
    · exact Nat.lt_succ_of_lt (ih h)
    · cases h
      exact Nat.lt_succ_self _

/-- One batch: the snapshots that are attempted when the routine goes on behind a failure as long
    as `again` says so. -/
def submit (again : Snap → List Snap → Bool) (l : List Snap) : List Snap :=
  match h : (ioctl l).2 with
  | [] => (ioctl l).1
  | s :: rest =>
    have := ioctl_length h
    (ioctl l).1 ++ if again s rest then submit again rest else []
termination_by l.length

/-- `EALREADY`. -/
def ealready : Nat := 114

/-- `migrate_one_snapshot`, when the batch is submitted. -/
def migrateOneSnapshot : List Snap → List Snap := submit fun s _ => s.error = ealready

def deleteSnapshots : List Snap → List Snap := submit fun _ rest => rest ≠ []

/-- The test of the loop comes before the first call. -/
def metaFlushdelete : List Snap → List Snap
  | [] => []
  | s :: l => submit (fun _ rest => rest ≠ []) (s :: l)

inductive Routine
  | migrate
  | expire
  | pruneEverything
  deriving DecidableEq

def Routine.flush : Routine → List Snap → List Snap
  | migrate => migrateOneSnapshot
  | expire => deleteSnapshots
  | pruneEverything => metaFlushdelete

/-- `HAMMER_SNAPS_PER_IOCTL`. -/
def snapsPerIoctl : Nat := 16

/-- The batches that are submitted, with `batch` collected so far. -/
def batches : List Snap → List Snap → List (List Snap)
  | batch, [] => if batch = [] then [] else [batch]
  | batch, s :: l =>
    if (batch ++ [s]).length = snapsPerIoctl then (batch ++ [s]) :: batches [] l
    else batches (batch ++ [s]) l

def Routine.attempted (r : Routine) (selected : List Snap) : List Snap :=
  (batches [] selected).flatMap r.flush

/-! ## What is attempted -/

section

variable (again : Snap → List Snap → Bool)
include again

theorem submit_eq (l : List Snap) :
    submit again l = (ioctl l).1 ++ (ioctl l).2.casesOn [] fun s rest =>
      if again s rest then submit again rest else [] := by
  rw [submit.eq_def]
  split <;> simp [*]

theorem submit_cons (s : Snap) (l : List Snap) :
    submit again (s :: l) =
      s :: if s.error = 0 ∨ again s l = true then submit again l else [] := by
  rw [submit_eq, ioctl]
  by_cases hs : s.error = 0
  · simp only [hs, if_true, true_or]
    rw [submit_eq again l, List.cons_append]
  · simp only [hs, if_false, false_or]
    rfl

/-- No snapshot fails in front of another one, except where the routine goes on. -/
def Resumes (again : Snap → List Snap → Bool) : List Snap → Prop
  | [] => True
  | s :: l => (s.error ≠ 0 → l ≠ [] → again s l = true) ∧ Resumes again l

theorem submit_runs (l : List Snap) : submit again l <+: l := by
  induction l with
  | nil => rw [submit]; rfl
  | cons s l ih =>
    rw [submit_cons, List.cons_prefix_cons]
    split
    · exact ⟨rfl, ih⟩
    · exact ⟨rfl, List.nil_prefix⟩

theorem submit_eq_iff (l : List Snap) : submit again l = l ↔ Resumes again l := by
  induction l with
  | nil => rw [submit]; simp [Resumes, ioctl]
  | cons s l ih =>
    rw [submit_cons, Resumes, ← ih, List.cons.injEq, and_iff_right rfl]
    by_cases h : s.error = 0 ∨ again s l = true
    · rw [if_pos h]
      exact ⟨fun hl => ⟨fun hs _ => h.resolve_left hs, hl⟩, fun hl => hl.2⟩
    · rw [if_neg h]
      rw [not_or] at h
      refine ⟨fun hl => ?_, fun hl => ?_⟩
      · subst hl
        exact ⟨fun _ hne => absurd rfl hne, by rw [submit]; rfl⟩
      · by_contra hne
        exact h.2 (hl.1 h.1 (Ne.symm hne))

end

theorem flatMap_eq_flatten_iff {f : List Snap → List Snap} (hf : ∀ b, f b <+: b)
    (l : List (List Snap)) : l.flatMap f = l.flatten ↔ ∀ b ∈ l, f b = b := by
  have hle : ∀ l : List (List Snap), (l.flatMap f).length ≤ l.flatten.length := by
    intro l
    induction l with
    | nil => exact Nat.le_refl 0
    | cons b l ih =>
      have := (hf b).length_le
      simp only [List.flatMap_cons, List.flatten_cons, List.length_append]
      omega
  induction l with
  | nil => simp
  | cons b l ih =>
    rw [List.flatMap_cons, List.flatten_cons, List.forall_mem_cons]
    refine ⟨fun h => ?_, fun h => by rw [h.1, ih.mpr h.2]⟩
    have hlen := congrArg List.length h
    have := (hf b).length_le
    have := hle l
    simp only [List.length_append] at hlen
    exact (List.append_inj h (by omega)).imp_right ih.mp

theorem batches_spec (batch l : List Snap) (hb : batch.length < snapsPerIoctl) :
    (batches batch l).flatten = batch ++ l ∧ ∀ b ∈ batches batch l, b.length ≤ snapsPerIoctl := by
  induction l generalizing batch with
  | nil =>
    rw [batches]
    split
    · simp [*]
    · simpa using hb.le
  | cons s l ih =>
    have hlen : (batch ++ [s]).length = batch.length + 1 := by simp
    rw [batches]
    split
    · rename_i hfull
      obtain ⟨h1, h2⟩ := ih [] (by decide)
      refine ⟨by simp [h1], List.forall_mem_cons.mpr ⟨hfull.le, h2⟩⟩
    · obtain ⟨h1, h2⟩ := ih (batch ++ [s]) (by omega)
      exact ⟨by simp [h1], h2⟩

theorem flush_eq_iff (r : Routine) (b : List Snap) :
    r.flush b <+: b ∧ (r.flush b = b ↔
      (r = .migrate → Resumes (fun s _ => s.error = ealready) b)) := by
  have hdel : ∀ l, Resumes (fun _ rest => rest ≠ []) l := by
    intro l
    induction l with
    | nil => trivial
    | cons s l ih => exact ⟨fun _ hne => decide_eq_true hne, ih⟩
  cases r with
  | migrate => exact ⟨submit_runs _ b, (submit_eq_iff _ b).trans (by simp)⟩
  | expire =>
    exact ⟨submit_runs _ b, iff_of_true ((submit_eq_iff _ b).mpr (hdel b)) fun h => by cases h⟩
  | pruneEverything =>
    cases b with
    | nil => exact ⟨List.prefix_rfl, iff_of_true rfl fun h => by cases h⟩
    | cons s l =>
      exact ⟨submit_runs _ _, iff_of_true ((submit_eq_iff _ _).mpr (hdel _)) fun h => by cases h⟩

/-- Every selected snapshot is attempted exactly once, in batches that fit, iff the routine is not
    the migration or no snapshot of a batch fails in front of another one, those apart that are
    there already. -/
theorem attempted_once_iff (r : Routine) (selected : List Snap) :
    (r.attempted selected = selected ∧
        ∀ b ∈ batches [] selected, b.length ≤ snapsPerIoctl) ↔
      (r = .migrate → ∀ b ∈ batches [] selected, Resumes (fun s _ => s.error = ealready) b) := by
  obtain ⟨hflat, hlen⟩ := batches_spec [] selected (by decide)
  rw [and_iff_left hlen, Routine.attempted]
  have h := flatMap_eq_flatten_iff (fun b => (flush_eq_iff r b).1) (batches [] selected)
  rw [hflat, List.nil_append] at h
  rw [h]
  simp only [(flush_eq_iff r _).2]
  exact ⟨fun h hr b hb => h b hb hr, fun h b hb hr => h hr b hb⟩

/-- One bad softlink in front of another: the second is not migrated. -/
theorem migration_loses : Routine.migrate.attempted [⟨1, 22⟩, ⟨2, 0⟩] ≠ [⟨1, 22⟩, ⟨2, 0⟩] := by
  have h : Routine.migrate.attempted [⟨1, 22⟩, ⟨2, 0⟩] = [⟨1, 22⟩] := by
    simp [Routine.attempted, batches, snapsPerIoctl, Routine.flush, migrateOneSnapshot, submit_cons,
      ealready]
  rw [h]
  decide

end Lh1.Hammer.SnapBatch
