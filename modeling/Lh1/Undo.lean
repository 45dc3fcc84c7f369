/-
  Where `undo` writes (usr.bin/undo/undo.c).

  A version of a file goes to a file whose name is made from the `-o` template. With several files
  the template is expanded, but doiterate_dump() passes no flags on, and the number of a version
  is never used. What is printed, and which inode a version has, is left out.

  * `asprintf_eq`: a template with one `%s` is what stands around it.
  * `outputs_apart_iff`: when every version goes to the file it should, and to no other's.
-/
import Mathlib.Data.List.Nodup

namespace Lh1.Undo

/-! ## The source -/

abbrev Text := List Char

inductive Cmd
  | dump
  | iterateAll
  deriving DecidableEq

inductive UndoType
  | file
  | diff
  | rdiff
  | history
  deriving DecidableEq

/-- What `main` has read: `index1` and `index2` are `UNDO_FLAG_TID_INDEX1` and `..2`, `undoSuffix`
    is the `-u` option. -/
structure Options where
  cmd : Cmd
  type : UndoType
  ts1 : Nat
  ts2 : Nat
  index1 : Bool
  index2 : Bool
  outFileName : Option Text
  undoSuffix : Bool

/-- A file with the ids in its `tse_tree`, and the ids that `lstat` finds a version for; 0 is the
    file itself. -/
structure File where
  name : Text
  history : List Nat
  found : Nat → Bool

/-- A call of `dogenerate`, with `UNDO_FLAG_MULT` of its flags. -/
structure Call where
  mult : Bool
  ts1 : Nat
  ts2 : Nat
  idx : Nat

/-- The entry so many steps before the last, or 0. -/
def fromMax (history : List Nat) (k : Nat) : Nat := history.reverse[k]?.getD 0

def doiterateDump (o : Options) (f : File) : List Call :=
  let ts1 := if o.index1 then fromMax f.history o.ts1 else o.ts1
  let ts2 := if o.index2 then fromMax f.history o.ts2 else o.ts2
  let prev := fromMax f.history 1
  if ts1 ≠ 0 then [⟨false, ts1, ts2, 0⟩]
  else if prev ≠ 0 then [⟨false, prev, fromMax f.history 0, 0⟩]
  else []

/-- The loop over the entries after `tse1`, from number `i` on, and the call behind it. -/
def iterate (type : UndoType) (mult : Bool) (tse1 : Nat) : Nat → List Nat → List Call
  | i, [] =>
    if type ≠ .diff ∧ type ≠ .rdiff then [⟨mult, tse1, 0xffffffffffffffff, i⟩] else []
  | i, tse2 :: rest => ⟨mult, tse1, tse2, i⟩ :: iterate type mult tse2 (i + 1) rest

def doiterateIterall (o : Options) (mult : Bool) (f : File) : List Call :=
  match f.history with
  | [] => []
  | tse1 :: rest => iterate o.type mult tse1 1 rest

/-- The calls of `dogenerate` for a file that open an output. -/
def versions (o : Options) (mult : Bool) (f : File) : List Call :=
  (match o.cmd with
    | .dump => doiterateDump o f
    | .iterateAll => doiterateIterall o mult f).filter fun c => f.found c.ts1 || f.found c.ts2

/-- A template taken apart; `none` stands for `%s`. -/
def pieces : Text → Option (List (Option Char))
  | [] => some []
  | '%' :: 's' :: t => (pieces t).map (none :: ·)
  | '%' :: '%' :: t => (pieces t).map (some '%' :: ·)
  | '%' :: _ => none
  | c :: t => (pieces t).map (some c :: ·)

def asprintf (template elm : Text) : Text :=
  ((pieces template).getD []).flatMap fun p => p.elim elm fun c => [c]

/-- The loop of `main` over the template. -/
def validTemplate : Bool → Text → Bool
  | _, [] => true
  | didStr, '%' :: 's' :: t => !didStr && validTemplate true t
  | didStr, '%' :: '%' :: t => validTemplate didStr t
  | _, '%' :: _ => false
  | didStr, _ :: t => validTemplate didStr t

/-- `%04d`. -/
def number (n : Nat) : Text :=
  List.replicate (4 - (Nat.toDigits 10 n).length) '0' ++ Nat.toDigits 10 n

/-- The last component of the name. -/
def File.elm (f : File) : Text := (f.name.reverse.takeWhile (· ≠ '/')).reverse

inductive Output
  | stdout
  | file (path : Text)
  deriving DecidableEq

/-- Where `dogenerate` writes. -/
def output (o : Options) (f : File) (c : Call) : Output :=
  match o.outFileName with
  | some template => .file (if c.mult then asprintf template f.elm else template)
  | none =>
    if o.undoSuffix then .file (f.name ++ ['.', 'u', 'n', 'd', 'o', '.'] ++ number c.idx)
    else .stdout

/-- The outputs opened, in their order. -/
def jobs (o : Options) (files : List File) : List (File × Call) :=
  files.flatMap fun f => (versions o (decide (1 < files.length)) f).map fun c => (f, c)

/-- `main` after its options; `none` is `usage`. -/
def undo (o : Options) (files : List File) : Option (List Output) :=
  if o.outFileName ≠ none ∧ o.undoSuffix = true ∨ files = [] then none
  else if 1 < files.length ∧ (o.outFileName.elim true (validTemplate false)) = false then none
  else some ((jobs o files).map fun j => output o j.1 j.2)

/-! ## Templates -/

section

variable {template before after : Text}

/-- There is one `%s`, between `before` and `after`. -/
def OneSlot (template before after : Text) : Prop :=
  pieces template = some (before.map some ++ none :: after.map some)

theorem asprintf_eq (h : OneSlot template before after) (elm : Text) :
    asprintf template elm = before ++ elm ++ after := by
  have hplain : ∀ l : Text,
      ((l.map some).flatMap fun p : Option Char => p.elim elm fun c => [c]) = l := by
    intro l
    rw [List.flatMap_map]
    exact List.flatMap_singleton' l
  unfold asprintf
  rw [show pieces template = _ from h, Option.getD_some, List.flatMap_append, hplain,
    List.flatMap_cons, hplain, List.append_assoc]
  rfl

/-- The loop of `main` fails when it comes to a second `%s`. -/
theorem validTemplate_eq {ps : List (Option Char)} (h : pieces template = some ps) (didStr : Bool) :
    validTemplate didStr template = decide (ps.count none + didStr.toNat ≤ 1) := by
  fun_induction pieces template generalizing ps didStr with
  | case1 =>
    cases h
    cases didStr <;> rfl
  | case2 t ih =>
    obtain ⟨qs, hqs, rfl⟩ := Option.map_eq_some_iff.mp h
    rw [validTemplate, ih hqs]
    cases didStr <;> simp
  | case3 t ih =>
    obtain ⟨qs, hqs, rfl⟩ := Option.map_eq_some_iff.mp h
    rw [validTemplate, ih hqs]
    simp
  | case4 => cases h
  | case5 c t _ _ hc ih =>
    obtain ⟨qs, hqs, rfl⟩ := Option.map_eq_some_iff.mp h
    rw [validTemplate.eq_5 _ _ _ (fun _ h => absurd h hc) (fun _ h => absurd h hc) hc, ih hqs]
    simp

end

/-! ## Where a version goes -/

section

variable {o : Options} {files : List File} {template before after : Text}

/-- The name the manual gives an output: the template with the last component for `%s`, and the
    number where several versions are extracted. -/
def wanted (o : Options) (files : List File) (before after : Text) (j : File × Call) : Output :=
  .file (before ++ j.1.elm ++ after ++
    if 1 < (versions o (decide (1 < files.length)) j.1).length then '.' :: number j.2.idx else [])

theorem iterate_mult {type : UndoType} {mult : Bool} {tse1 i : Nat} {rest : List Nat} {c : Call}
    (h : c ∈ iterate type mult tse1 i rest) : c.mult = mult := by
  induction rest generalizing tse1 i with
  | nil =>
    unfold iterate at h
    split at h
    · rw [List.mem_singleton.mp h]
    · exact absurd h List.not_mem_nil
  | cons t ts ih =>
    rcases List.mem_cons.mp h with rfl | h
    · rfl
    · exact ih h

/-- Only doiterate_iterall() passes the flag on. -/
theorem versions_mult {mult : Bool} {f : File} {c : Call} (h : c ∈ versions o mult f) :
    c.mult = (decide (o.cmd = .iterateAll) && mult) := by
  have h := List.mem_of_mem_filter h
  cases ho : o.cmd with
  | dump =>
    rw [ho] at h
    change c ∈ doiterateDump o f at h
    unfold doiterateDump at h
    dsimp only at h
    grind
  | iterateAll =>
    rw [ho] at h
    change c ∈ doiterateIterall o mult f at h
    unfold doiterateIterall at h
    split at h
    · exact absurd h List.not_mem_nil
    · exact iterate_mult h

/-- All versions of a file go to one place. -/
theorem output_eq (hT : o.outFileName = some template) (hslot : OneSlot template before after)
    {f : File} {c : Call} (h : c ∈ versions o (decide (1 < files.length)) f) :
    output o f c = .file (if o.cmd = .iterateAll ∧ 1 < files.length then before ++ f.elm ++ after
      else template) := by
  unfold output
  rw [hT]
  dsimp only
  rw [versions_mult h, asprintf_eq hslot]
  simp only [Bool.and_eq_true, decide_eq_true_eq]

theorem undo_eq (hT : o.outFileName = some template) (hslot : OneSlot template before after)
    (hu : o.undoSuffix = false) (hne : files ≠ []) :
    undo o files = some ((jobs o files).map fun j => output o j.1 j.2) := by
  have hvalid : validTemplate false template = true := by
    have hplain : ∀ l : Text, (l.map some).count none = 0 := by simp [List.count_eq_zero]
    rw [validTemplate_eq hslot, List.count_append, List.count_cons_self, hplain, hplain]
    rfl
  unfold undo
  rw [if_neg (by simp [hu, hne]), if_neg (by simp [hT, hvalid])]

/-- With one version of each file at most, what goes to its own name goes to no other's. -/
theorem wanted_nodup (hd : (files.map File.elm).Nodup)
    (h : ∀ f ∈ files, (versions o (decide (1 < files.length)) f).length ≤ 1) :
    ((jobs o files).map (wanted o files before after)).Nodup := by
  unfold jobs
  rw [List.map_flatMap, List.nodup_flatMap]
  constructor
  · intro f hf
    rcases Nat.le_one_iff_eq_zero_or_eq_one.mp (h f hf) with h0 | h1
    · rw [List.length_eq_zero_iff.mp h0]
      exact List.nodup_nil
    · obtain ⟨c, hc⟩ := List.length_eq_one_iff.mp h1
      rw [hc]
      exact List.nodup_singleton _
  · have hd := List.pairwise_map.mp hd
    refine (List.Pairwise.and_mem.mp hd).imp ?_
    intro f g hfg
    obtain ⟨hf, hg, hne⟩ := hfg
    refine List.disjoint_left.mpr ?_
    intro out hout hout'
    simp only [List.map_map, List.mem_map, Function.comp] at hout hout'
    obtain ⟨c, -, rfl⟩ := hout
    obtain ⟨c', -, hc'⟩ := hout'
    simp only [wanted, Nat.not_lt.mpr (h f hf), Nat.not_lt.mpr (h g hg), if_false, List.append_nil,
      Output.file.injEq, List.append_cancel_right_eq, List.append_cancel_left_eq] at hc'
    exact hne hc'.symm

/-- Every version goes to the file that the manual names, and no two to one, exactly when no file
    has several versions to extract, and each that has one is extracted by `-a` out of several
    files, or has a name for which the template stands as it is. -/
theorem outputs_apart_iff (o : Options) (files : List File) (template before after : Text)
    (hT : o.outFileName = some template) (hslot : OneSlot template before after)
    (hu : o.undoSuffix = false) (hne : files ≠ []) (hd : (files.map File.elm).Nodup) :
    (∃ outs, undo o files = some outs ∧ outs.Nodup ∧
        outs = (jobs o files).map (wanted o files before after)) ↔
      ∀ f ∈ files, (versions o (decide (1 < files.length)) f).length ≤ 1 ∧
        (versions o (decide (1 < files.length)) f ≠ [] →
          (o.cmd = .iterateAll ∧ 1 < files.length) ∨ template = before ++ f.elm ++ after) := by
  have hmem : ∀ f ∈ files, ∀ c ∈ versions o (decide (1 < files.length)) f,
      (f, c) ∈ jobs o files := by
    intro f hf c hc
    exact List.mem_flatMap.mpr ⟨f, hf, List.mem_map_of_mem hc⟩
  rw [undo_eq hT hslot hu hne]
  constructor
  · intro h f hf
    obtain ⟨outs, houts, hnodup, heq⟩ := h
    cases houts
    have hlen : (versions o (decide (1 < files.length)) f).length ≤ 1 := by
      unfold jobs at hnodup
      rw [List.map_flatMap, List.nodup_flatMap] at hnodup
      have hf := hnodup.1 f hf
      rw [List.map_map] at hf
      change (List.map (fun c => output o f c) _).Nodup at hf
      rw [List.map_congr_left fun c hc => output_eq hT hslot hc, List.map_const',
        List.nodup_replicate] at hf
      exact hf
    refine ⟨hlen, fun hsome => ?_⟩
    obtain ⟨c, hc⟩ := List.exists_mem_of_ne_nil _ hsome
    have hc' := List.map_inj_left.mp heq _ (hmem f hf c hc)
    rw [output_eq hT hslot hc, wanted, if_neg (Nat.not_lt.mpr hlen), List.append_nil] at hc'
    split at hc'
    · exact .inl ‹_›
    · exact .inr (Output.file.inj hc')
  · intro h
    have heq : (jobs o files).map (fun j => output o j.1 j.2) =
        (jobs o files).map (wanted o files before after) := by
      refine List.map_congr_left fun j hj => ?_
      obtain ⟨f, hf, hj⟩ := List.mem_flatMap.mp hj
      obtain ⟨c, hc, rfl⟩ := List.mem_map.mp hj
      rw [output_eq hT hslot hc, wanted, if_neg (Nat.not_lt.mpr (h f hf).1), List.append_nil]
      rcases (h f hf).2 (List.ne_nil_of_mem hc) with hall | hT'
      · rw [if_pos hall]
      · rw [hT', ite_self]
    exact ⟨_, rfl, heq ▸ wanted_nodup hd fun f hf => (h f hf).1, heq⟩

/-- Two files with a version each. -/
def twoFiles : List File :=
  [⟨['a', '/', 'x'], [1], fun _ => true⟩, ⟨['y'], [1], fun _ => true⟩]

/-- Options without `-t` for the template `%s`. -/
def plain (cmd : Cmd) : Options := ⟨cmd, .file, 0, 0, false, false, some ['%', 's'], false⟩

theorem outputs_apart_all :
    ∃ outs, undo (plain .iterateAll) twoFiles = some outs ∧ outs.Nodup ∧
      outs = (jobs (plain .iterateAll) twoFiles).map (wanted (plain .iterateAll) twoFiles [] []) :=
  (outputs_apart_iff (plain .iterateAll) twoFiles ['%', 's'] [] [] rfl rfl rfl
    (List.cons_ne_nil _ _) (by decide)).mpr (by decide)

/-- Without `-a` both go to a file with the name `%s`. -/
theorem outputs_overwritten :
    OneSlot ['%', 's'] [] [] ∧ (twoFiles.map File.elm).Nodup ∧
      undo { plain .dump with ts1 := 1 } twoFiles =
        some [.file ['%', 's'], .file ['%', 's']] :=
  ⟨rfl, by decide, by decide⟩

end

end Lh1.Undo
