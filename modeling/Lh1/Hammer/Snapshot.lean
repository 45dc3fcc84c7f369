/-
  Where `hammer snap` and `hammer snaprm` look for a file system (cmd_snapshot.c, misc.c).

  Both open the directory part of a path, for `snaprm` of the text of a symbolic link. `getmntdir`
  looks for the mount point that a path is below. What the texts name is in `Lib.Path`.

  * `route_dirpart`: what `dirpart` names, for every path.
  * `snapshot_directory_iff`: the directory is the parent of the last component if and only if the
    path is not directly below the root and the link is read whole and has no slash at its end.
  * `getmntdir_iff`: the mount point is the right one if and only if no mount point that continues a
    name of the path as a text is longer than all those above the path.
-/
import Mathlib.Data.List.DropRight
import Lh1.Lib.Path

namespace Lh1.Hammer.Snapshot

open Lib (Route Tree)

abbrev Text := List Char

def dot : Text := ['.']

def components (p : Text) : List Text := Lib.components '/' p

/-! ## The source -/

def strrchr (c : Char) : Text → Option Nat
  | [] => none
  | a :: p =>
    match strrchr c p with
    | some k => some (k + 1)
    | none => if a = c then some 0 else none

/-- `while (ptr > path && ptr[-1] == '/') --ptr`. -/
def backUp (path : Text) : Nat → Nat
  | 0 => 0
  | k + 1 => if path[k]? = some '/' then backUp path k else k + 1

def dirpart (path : Text) : Text :=
  match strrchr '/' path with
  | none => dot
  | some k => if backUp path k = 0 then dot else path.take (backUp path k)

/-- What `stat` says of the argument. -/
inductive Stat
  | missing
  | directory
  | other

/-- The `dirpath` of `hammer_cmd_snap`; `none` is its `err`. -/
def snapDirpath : Stat → Text → Option Text
  | .missing, path => some (dirpart path)
  | .directory, path => some path
  | .other, _ => none

/-- `sizeof(linkbuf) - 1`. -/
def linkMax : Nat := 1023

/-- The `dirpath` of `hammer_cmd_snaprm` for a symbolic link with the text `link`. -/
def snaprmDirpath (path link : Text) : Text :=
  if (link.take linkMax).head? = some '/' then dirpart (link.take linkMax)
  else dirpart (dirpart path ++ '/' :: link.take linkMax)

/-- `PATH_MAX`. -/
def pathMax : Nat := 4096

def stripSlashes : Text → Text
  | '/' :: c :: s => stripSlashes (c :: s)
  | s => s

/-- The loop over the characters of `f`, of which `n` are left. -/
def compareAt (f mntDir s : Text) : Nat → Nat → Text
  | 0, _ => s
  | n + 1, i =>
    if mntDir[i]? = none ∧ s.length < mntDir.length then mntDir.take (pathMax - 1)
    else if f[i]? = mntDir[i]? then compareAt f mntDir s n (i + 1)
    else s

def scanMounts (f : Text) : List Text → Text → Text
  | [], s => s
  | mntDir :: mounts, s =>
    if f = mntDir then mntDir.take (pathMax - 1)
    else scanMounts f mounts (compareAt f mntDir s f.length 0)

/-- `none` for the mounts is a `setmntent` that fails. -/
def getmntdir (realpath : Text → Option Text) (mounts : Option (List Text)) (path : Text) :
    Option Text :=
  match realpath (stripSlashes (path.take (pathMax - 1)).reverse).reverse with
  | none => none
  | some f => if f = ['/'] then some ['/'] else mounts.map fun ms => scanMounts f ms ['/']

/-! ## What they are for -/

def route (p : Text) : Route Text := ⟨p.head? = some '/', components p⟩

/-- The directory that holds the last component. -/
def parent (p : Text) : Route Text := ⟨p.head? = some '/', (components p).dropLast⟩

/-- The directory that holds the last component of what the link at `p` points to. -/
def linkParent (p link : Text) : Route Text :=
  if link.head? = some '/' then parent link
  else ⟨(parent p).absolute, (parent p).names ++ (components link).dropLast⟩

/-- One component after nothing but slashes. -/
def TopLevel (p : Text) : Prop := p.head? = some '/' ∧ '/' ∉ p.dropWhile (· = '/')

instance (p : Text) : Decidable (TopLevel p) := inferInstanceAs (Decidable (_ ∧ _))

/-- The names that `dirpart` keeps: a slash at the end makes it keep them all. -/
def dirNames (p : Text) : List Text :=
  if p.getLast? = some '/' then components p else (components p).dropLast

def plain (names : List Text) : List Text := names.filter (· ≠ dot)

/-! ## `dirpart` -/

theorem strrchr_of_not_mem {c : Char} {p : Text} (h : c ∉ p) : strrchr c p = none := by
  induction p with
  | nil => rfl
  | cons a p ih =>
    rw [List.mem_cons, not_or] at h
    simp only [strrchr, ih h.2, if_neg (Ne.symm h.1)]

theorem strrchr_append {c : Char} {b : Text} (h : c ∉ b) (a : Text) :
    strrchr c (a ++ c :: b) = some a.length := by
  induction a with
  | nil => simp only [List.nil_append, strrchr, strrchr_of_not_mem h, if_pos, List.length_nil]
  | cons x a ih => simp only [List.cons_append, strrchr, ih, List.length_cons]

theorem backUp_cut {a : Text} (ha : a.getLast? ≠ some '/') (n : Nat) (p : Text) :
    backUp (a ++ (List.replicate n '/' ++ p)) (a.length + n) = a.length := by
  induction n generalizing p with
  | zero =>
    rcases List.eq_nil_or_concat a with hnil | ⟨q, x, hq⟩
    · rw [hnil]
      rfl
    · rw [hq, List.concat_eq_append, List.getLast?_concat] at ha
      rw [hq, List.concat_eq_append, List.length_append, List.length_singleton, backUp, if_neg]
      rwa [List.append_assoc, List.getElem?_append_right le_rfl, Nat.sub_self]
  | succ n ih =>
    rw [← Nat.add_assoc, backUp, if_pos, List.replicate_succ', List.append_assoc]
    · exact ih _
    · rw [List.getElem?_append_right (Nat.le_add_right _ _), Nat.add_sub_cancel_left,
        List.getElem?_append_left (by rw [List.length_replicate]; omega),
        List.getElem?_replicate_of_lt (Nat.lt_succ_self n)]

/-- A path with a slash, cut at the last run of slashes before its last character. -/
theorem exists_cut {p : Text} (h : '/' ∈ p) :
    ∃ a n b, p = a ++ '/' :: (List.replicate n '/' ++ b) ∧ a.getLast? ≠ some '/' ∧ '/' ∉ b := by
  induction p using List.reverseRecOn with
  | nil => cases h
  | append_singleton p x ih =>
    by_cases hx : x = '/'
    · subst hx
      by_cases hlast : p.getLast? = some '/'
      · have hp : '/' ∈ p := List.mem_of_getLast? hlast
        obtain ⟨a, n, b, hab, ha, hb⟩ := ih hp
        -- the last run goes on, so nothing stands behind it
        have hnil : b = [] := by
          by_contra hne
          rw [hab, List.getLast?_append, List.getLast?_cons, List.getLast?_append,
            List.getLast?_eq_some_getLast hne] at hlast
          exact hb (Option.some.inj hlast ▸ List.getLast_mem hne)
        refine ⟨a, n + 1, [], ?_, ha, List.not_mem_nil⟩
        rw [hab, hnil, List.replicate_succ', List.append_assoc]
        simp
      · exact ⟨p, 0, [], rfl, hlast, List.not_mem_nil⟩
    · have hp : '/' ∈ p := by
        rw [List.mem_append, List.mem_singleton] at h
        exact h.resolve_right (Ne.symm hx)
      obtain ⟨a, n, b, hab, ha, hb⟩ := ih hp
      refine ⟨a, n, b ++ [x], by rw [hab]; simp, ha, ?_⟩
      rw [List.mem_append, List.mem_singleton]
      exact not_or.mpr ⟨hb, Ne.symm hx⟩

theorem not_topLevel_append {d : Text} (hne : d ≠ []) (hd : d.getLast? ≠ some '/') (p : Text) :
    ¬ TopLevel (d ++ '/' :: p) := by
  intro h
  have hkept : d.dropWhile (· = '/') ≠ [] := by
    intro hnil
    rw [List.dropWhile_eq_nil_iff] at hnil
    have hall := hnil _ (List.getLast_mem hne)
    rw [List.getLast?_eq_some_getLast hne] at hd
    exact hd (congrArg some (by simpa using hall))
  unfold TopLevel at h
  rw [List.dropWhile_append, if_neg (by simpa using hkept)] at h
  exact h.2 (List.mem_append_right _ List.mem_cons_self)

theorem dirNames_of_not_mem {p : Text} (h : '/' ∉ p) : dirNames p = [] := by
  unfold dirNames components
  rw [if_neg (fun hp => h (List.mem_of_getLast? hp)), Lib.components_of_not_mem h]
  split <;> rfl

theorem dirNames_append (d p : Text) : dirNames (d ++ '/' :: p) = components d ++ dirNames p := by
  unfold dirNames components
  rw [Lib.components_append, List.getLast?_append_of_ne_nil _ (List.cons_ne_nil _ _)]
  by_cases hnil : p = []
  · rw [hnil]
    exact if_pos rfl
  · rw [List.getLast?_cons, List.getLast?_eq_some_getLast hnil, Option.getD_some]
    split
    · rfl
    · next hlast =>
      rw [← List.getLast?_eq_some_getLast hnil] at hlast
      exact List.dropLast_append_of_ne_nil (Lib.components_ne_nil hnil hlast)

theorem dirNames_replicate (n : Nat) (p : Text) : dirNames (List.replicate n '/' ++ p) = dirNames p := by
  induction n with
  | zero => rfl
  | succ n ih =>
    rw [List.replicate_succ, List.cons_append, ← List.nil_append ('/' :: _), dirNames_append, ih]
    rfl

theorem dirpart_cut {a b : Text} (ha : a.getLast? ≠ some '/') (n : Nat) (hb : '/' ∉ b) :
    dirpart (a ++ '/' :: (List.replicate n '/' ++ b)) = if a = [] then dot else a := by
  have hrun : '/' :: (List.replicate n '/' ++ b) = List.replicate n '/' ++ '/' :: b := by
    rw [← List.cons_append, ← List.replicate_succ, List.replicate_succ', List.append_assoc]
    rfl
  have hlast : strrchr '/' (a ++ (List.replicate n '/' ++ '/' :: b)) = some (a.length + n) := by
    rw [← List.append_assoc, strrchr_append hb, List.length_append, List.length_replicate]
  unfold dirpart
  rw [hrun, hlast]
  simp only [backUp_cut ha, List.length_eq_zero_iff, List.take_left]

theorem route_dirpart (p : Text) :
    (route (dirpart p)).plain dot =
      if TopLevel p then ⟨false, []⟩ else ⟨p.head? = some '/', plain (dirNames p)⟩ := by
  by_cases h : '/' ∈ p
  · obtain ⟨a, n, b, rfl, ha, hb⟩ := exists_cut h
    rw [dirpart_cut ha n hb]
    by_cases hnil : a = []
    · have htop : TopLevel (a ++ '/' :: (List.replicate n '/' ++ b)) := by
        subst hnil
        refine ⟨rfl, fun hmem => ?_⟩
        rw [List.nil_append, ← List.cons_append, ← List.replicate_succ, List.dropWhile_append,
          if_pos (by simp)] at hmem
        exact hb ((List.dropWhile_sublist _).subset hmem)
      rw [if_pos hnil, if_pos htop]
      rfl
    · rw [if_neg hnil, if_neg (not_topLevel_append hnil ha _), dirNames_append, dirNames_replicate,
        dirNames_of_not_mem hb, List.append_nil, List.head?_append_of_ne_nil _ hnil]
      rfl
  · have hhead : p.head? ≠ some '/' := fun hp => h (List.mem_of_mem_head? hp)
    unfold dirpart
    rw [strrchr_of_not_mem h, if_neg (fun ht => hhead ht.1), dirNames_of_not_mem h,
      decide_eq_false hhead]
    rfl

theorem dirpart_shape (p : Text) : dirpart p ≠ [] ∧ (dirpart p).getLast? ≠ some '/' := by
  by_cases h : '/' ∈ p
  · obtain ⟨a, n, b, rfl, ha, hb⟩ := exists_cut h
    rw [dirpart_cut ha n hb]
    split
    · decide
    · next hnil => exact ⟨hnil, ha⟩
  · have hdot : dirpart p = dot := by
      unfold dirpart
      rw [strrchr_of_not_mem h]
    rw [hdot]
    decide

/-- Behind a directory and a slash, only what stands behind the slash is cut. -/
theorem route_dirpart_append {d : Text} (hd : d ≠ [] ∧ d.getLast? ≠ some '/') (p : Text) :
    (route (dirpart (d ++ '/' :: p))).plain dot =
      ⟨((route d).plain dot).absolute, ((route d).plain dot).names ++ plain (dirNames p)⟩ := by
  rw [route_dirpart, if_neg (not_topLevel_append hd.1 hd.2 p), List.head?_append_of_ne_nil _ hd.1,
    dirNames_append, plain, List.filter_append]
  rfl

/-! ## The directories that are opened -/

/-- In every tree the text opens the directory that the route leads to. -/
def Opens (p : Text) (r : Route Text) : Prop :=
  ∀ (D : Type) (t : Tree D dot), t.follow (route p) = t.follow r

theorem opens_dirpart_iff (p : Text) (r : Route Text) :
    Opens (dirpart p) ⟨p.head? = some '/', r.names⟩ ↔
      ¬ TopLevel p ∧ plain (dirNames p) = plain r.names := by
  unfold Opens
  rw [Lib.follow_eq_iff, route_dirpart]
  by_cases htop : TopLevel p
  · rw [if_pos htop, htop.1, Route.plain, Route.mk.injEq]
    exact ⟨fun h => Bool.noConfusion h.1, fun h => absurd htop h.1⟩
  · rw [if_neg htop, Route.plain, Route.mk.injEq]
    exact ⟨fun h => ⟨htop, h.2⟩, fun h => ⟨rfl, h.2⟩⟩

theorem snapshot_directory_iff (path link : Text) (hpath : path.getLast? ≠ some '/') :
    ((∃ d, snapDirpath .missing path = some d ∧ Opens d (parent path)) ↔ ¬ TopLevel path) ∧
    (Opens (snaprmDirpath path link) (linkParent path link) ↔
      ¬ TopLevel (if link.head? = some '/' then link.take linkMax else path) ∧
      plain (dirNames (link.take linkMax)) = plain (components link).dropLast) := by
  have hnames : dirNames path = (components path).dropLast := if_neg hpath
  have hhead : (link.take linkMax).head? = link.head? := by
    cases link <;> rfl
  constructor
  · have hopen := opens_dirpart_iff path (parent path)
    rw [hnames] at hopen
    constructor
    · intro h
      obtain ⟨d, hd, h⟩ := h
      rw [← Option.some.inj hd] at h
      exact (hopen.mp h).1
    · intro h
      exact ⟨_, rfl, hopen.mpr ⟨h, rfl⟩⟩
  · unfold snaprmDirpath linkParent
    rw [hhead]
    by_cases habs : link.head? = some '/'
    · have hopen := opens_dirpart_iff (link.take linkMax) (parent link)
      rw [hhead] at hopen
      simp only [if_pos habs]
      exact hopen
    · simp only [if_neg habs]
      unfold Opens
      rw [Lib.follow_eq_iff, route_dirpart_append (dirpart_shape path), route_dirpart, hnames]
      by_cases htop : TopLevel path
      · rw [if_pos htop, Route.plain, Route.mk.injEq, parent, htop.1]
        exact ⟨fun h => Bool.noConfusion h.1, fun h => absurd htop h.1⟩
      · rw [if_neg htop, Route.plain, Route.mk.injEq, List.filter_append]
        exact ⟨fun h => ⟨htop, List.append_cancel_left h.2⟩,
          fun h => ⟨rfl, congrArg (plain (components path).dropLast ++ ·) h.2⟩⟩

theorem snapshot_directory_relative :
    Opens (snaprmDirpath ['s', '/', 'd'] ['h', '/', 'x']) (linkParent ['s', '/', 'd'] ['h', '/', 'x']) :=
  ((snapshot_directory_iff ['s', '/', 'd'] ['h', '/', 'x'] (by decide)).2).mpr (by decide)

/-- A snapshot directly below the root is looked for in the working directory. -/
theorem snapshot_directory_top :
    snapDirpath .missing ['/', 's'] = some dot ∧ ¬ Opens dot (parent ['/', 's']) := by
  refine ⟨by decide, fun h => ?_⟩
  have hplain := Lib.follow_eq_iff.mp h
  revert hplain
  decide

/-! ## Mount points -/

/-- The path through `names` from the root. -/
def pathOf (names : List Text) : Text :=
  if names = [] then ['/'] else names.flatMap fun n => '/' :: n

/-- As `realpath` returns it: no empty component, no `.` and no `..`. -/
def Canonical (p : Text) : Prop :=
  ∃ names : List Text, (∀ n ∈ names, '/' ∉ n ∧ n ≠ [] ∧ n ≠ dot ∧ n ≠ ['.', '.']) ∧ p = pathOf names

/-- `m` is `f` or one of the directories above it. -/
def Covers (m f : Text) : Prop := components m <+: components f

instance (m f : Text) : Decidable (Covers m f) := inferInstanceAs (Decidable (_ <+: _))

/-- The mount point a file at `f` is on. -/
def MountOf (mounts : List Text) (f r : Text) : Prop :=
  r ∈ mounts ∧ Covers r f ∧ ∀ m ∈ mounts, Covers m f → m.length ≤ r.length

variable {names : List Text} {f : Text}

theorem components_flatMap (h : ∀ n ∈ names, '/' ∉ n ∧ n ≠ []) :
    components (names.flatMap fun n => '/' :: n) = names := by
  induction names with
  | nil => rfl
  | cons n names ih =>
    have hn := h n List.mem_cons_self
    have ih := ih fun m hm => h m (List.mem_cons_of_mem _ hm)
    have hone : components n = [n] := by
      rw [components, Lib.components_of_not_mem hn.1, if_neg hn.2]
    rw [List.flatMap_cons, List.cons_append, components, Lib.components_cons]
    cases names with
    | nil => rwa [List.flatMap_nil, List.append_nil]
    | cons m names =>
      rw [List.flatMap_cons, List.cons_append, components, Lib.components_cons] at ih
      rw [List.flatMap_cons, List.cons_append, Lib.components_append, ih]
      exact congrArg (· ++ m :: names) hone

theorem components_pathOf (h : ∀ n ∈ names, '/' ∉ n ∧ n ≠ []) :
    components (pathOf names) = names := by
  unfold pathOf
  split
  · next hnil => rw [hnil]; rfl
  · exact components_flatMap h

theorem Canonical.isPrefix_of_covers {m : Text} (hm : Canonical m) (hf : Canonical f)
    (h : Covers m f) : m <+: f := by
  obtain ⟨ns, hns, rfl⟩ := hm
  obtain ⟨ks, hks, rfl⟩ := hf
  unfold Covers at h
  rw [components_pathOf fun n hn => ⟨(hns n hn).1, (hns n hn).2.1⟩,
    components_pathOf fun n hn => ⟨(hks n hn).1, (hks n hn).2.1⟩] at h
  obtain ⟨rest, rfl⟩ := h
  unfold pathOf
  by_cases hnil : ns = []
  · rw [if_pos hnil, hnil, List.nil_append]
    split
    · exact List.prefix_rfl
    · next hne =>
      obtain ⟨n, rest, rfl⟩ := List.exists_cons_of_ne_nil hne
      rw [List.flatMap_cons, List.cons_append, List.cons_prefix_cons]
      exact ⟨rfl, List.nil_prefix⟩
  · rw [if_neg hnil, if_neg (List.append_ne_nil_of_left_ne_nil hnil _), List.flatMap_append]
    exact List.prefix_append _ _

theorem Canonical.last (hf : Canonical f) (hroot : f ≠ ['/']) : f.getLast? ≠ some '/' := by
  obtain ⟨names, hnames, rfl⟩ := hf
  unfold pathOf at hroot ⊢
  split at hroot
  · exact absurd rfl hroot
  · next hne =>
    rw [if_neg hne]
    rcases List.eq_nil_or_concat names with hnil | ⟨ns, n, hcat⟩
    · exact absurd hnil hne
    · rw [List.concat_eq_append] at hcat
      have hn := hnames n (by rw [hcat]; exact List.mem_append_right _ List.mem_cons_self)
      rw [hcat, List.flatMap_append, List.flatMap_cons, List.flatMap_nil, List.append_nil,
        List.getLast?_append_of_ne_nil _ (List.cons_ne_nil _ _), List.getLast?_cons,
        List.getLast?_eq_some_getLast hn.2.1]
      intro h
      exact hn.1 (Option.some.inj h ▸ List.getLast_mem hn.2.1)

theorem stripSlashes_of_head {s : Text} (h : s.head? ≠ some '/') : stripSlashes s = s := by
  unfold stripSlashes
  split
  · exact absurd rfl h
  · rfl

theorem strip_canonical (hf : Canonical f) (hlen : f.length < pathMax) :
    (stripSlashes (f.take (pathMax - 1)).reverse).reverse = f := by
  rw [List.take_of_length_le (Nat.le_sub_one_of_lt hlen)]
  by_cases hroot : f = ['/']
  · rw [hroot]
    rfl
  · have hlast : f.reverse.head? ≠ some '/' := by
      rw [List.head?_reverse]
      exact hf.last hroot
    rw [stripSlashes_of_head hlast, List.reverse_reverse]

/-- From the `i`th character on, when the first `i` agree. -/
theorem compareAt_eq {m : Text} (hne : f ≠ m) (s : Text) (n i : Nat) (hn : i + n = f.length)
    (hi : i ≤ m.length) (hsame : f.take i = m.take i) :
    compareAt f m s n i =
      if m <+: f ∧ s.length < m.length then m.take (pathMax - 1) else s := by
  induction n generalizing i with
  | zero =>
    have hf : f <+: m := by
      rw [← List.take_of_length_le (Nat.le_of_eq hn.symm), Nat.add_zero, hsame]
      exact List.take_prefix i m
    rw [compareAt, if_neg fun h => hne (hf.eq_of_length_le h.1.length_le)]
  | succ n ih =>
    have hif : i < f.length := by omega
    rw [compareAt]
    by_cases hend : i = m.length
    · have hpre : m <+: f := by
        rw [hend, List.take_length] at hsame
        rw [← hsame]
        exact List.take_prefix _ f
      have hnone : m[i]? = none := List.getElem?_eq_none (Nat.le_of_eq hend.symm)
      rw [hnone, List.getElem?_eq_getElem hif]
      simp only [true_and, hpre, reduceCtorEq, if_false]
    · have him : i < m.length := by omega
      rw [List.getElem?_eq_getElem him, List.getElem?_eq_getElem hif]
      simp only [reduceCtorEq, false_and, if_false, Option.some.injEq]
      by_cases hc : f[i] = m[i]
      · rw [if_pos hc]
        refine ih (i + 1) (by omega) him ?_
        rw [List.take_succ_eq_append_getElem hif, List.take_succ_eq_append_getElem him, hsame, hc]
      · rw [if_neg hc, if_neg fun h => hc (h.1.getElem him).symm]

/-- The scan keeps the longest text that `f` begins with. -/
theorem scanMounts_spec (hlen : f.length < pathMax) (mounts : List Text) {s : Text} (hs : s <+: f) :
    scanMounts f mounts s <+: f ∧ scanMounts f mounts s ∈ s :: mounts ∧
      ∀ m ∈ s :: mounts, m <+: f → m.length ≤ (scanMounts f mounts s).length := by
  have htake : ∀ m : Text, m <+: f → m.take (pathMax - 1) = m := fun m hm =>
    List.take_of_length_le (by have := hm.length_le; omega)
  induction mounts generalizing s with
  | nil => exact ⟨hs, List.mem_cons_self, fun m hm _ => by rw [List.mem_singleton.mp hm]; rfl⟩
  | cons mnt mounts ih =>
    rw [scanMounts]
    by_cases heq : f = mnt
    · subst heq
      rw [if_pos rfl, htake f List.prefix_rfl]
      exact ⟨List.prefix_rfl, List.mem_cons_of_mem _ List.mem_cons_self, fun m _ hm => hm.length_le⟩
    · rw [if_neg heq, compareAt_eq heq s f.length 0 (Nat.zero_add _) (Nat.zero_le _) rfl]
      by_cases hbetter : mnt <+: f ∧ s.length < mnt.length
      · rw [if_pos hbetter, htake mnt hbetter.1]
        obtain ⟨hpre, hmem, hmax⟩ := ih hbetter.1
        refine ⟨hpre, List.mem_cons_of_mem _ hmem, fun m hm hmf => ?_⟩
        rw [List.mem_cons] at hm
        rcases hm with hm | hm
        · have hmnt := hmax mnt List.mem_cons_self hbetter.1
          rw [hm]
          omega
        · exact hmax m hm hmf
      · rw [if_neg hbetter]
        obtain ⟨hpre, hmem, hmax⟩ := ih hs
        refine ⟨hpre, ?_, fun m hm hmf => ?_⟩
        · rw [List.mem_cons] at hmem ⊢
          exact hmem.imp_right (List.mem_cons_of_mem _)
        · rw [List.mem_cons, List.mem_cons] at hm
          rcases hm with hm | hm | hm
          · exact hmax m (hm ▸ List.mem_cons_self) hmf
          · have hkept := hmax s List.mem_cons_self hs
            rw [hm] at hmf ⊢
            have hshort : mnt.length ≤ s.length := Nat.le_of_not_lt fun h => hbetter ⟨hmf, h⟩
            omega
          · exact hmax m (List.mem_cons_of_mem _ hm) hmf

/-- What is found among the mount points is the longest text, not the longest path. -/
theorem getmntdir_spec {realpath : Text → Option Text} {mounts : List Text} (hf : Canonical f)
    (hlen : f.length < pathMax) (hreal : realpath f = some f) (hroot : ['/'] ∈ mounts)
    (hslash : ['/'] <+: f) :
    ∃ r ∈ mounts, getmntdir realpath (some mounts) f = some r ∧ r <+: f ∧
      ∀ m ∈ mounts, m <+: f → m.length ≤ r.length := by
  unfold getmntdir
  rw [strip_canonical hf hlen, hreal]
  by_cases htop : f = ['/']
  · subst htop
    exact ⟨_, hroot, if_pos rfl, hslash, fun m _ hm => hm.length_le⟩
  · obtain ⟨hpre, hmem, hmax⟩ := scanMounts_spec hlen mounts hslash
    refine ⟨_, ?_, if_neg htop, hpre, fun m hm => hmax m (List.mem_cons_of_mem _ hm)⟩
    rw [List.mem_cons] at hmem
    rcases hmem with h | h
    · show scanMounts f mounts ['/'] ∈ mounts
      rwa [h]
    · exact h

theorem Canonical.slash (hf : Canonical f) : ['/'] <+: f :=
  Canonical.isPrefix_of_covers ⟨[], fun _ h => absurd h List.not_mem_nil, rfl⟩ hf List.nil_prefix

theorem getmntdir_iff (realpath : Text → Option Text) (mounts : List Text) (f : Text)
    (hf : Canonical f) (hlen : f.length < pathMax) (hreal : realpath f = some f)
    (hmounts : ∀ m ∈ mounts, Canonical m) (hroot : ['/'] ∈ mounts) :
    (∃ r, getmntdir realpath (some mounts) f = some r ∧ MountOf mounts f r) ↔
      ∀ m ∈ mounts, m <+: f → ∃ m' ∈ mounts, Covers m' f ∧ m.length ≤ m'.length := by
  obtain ⟨r, hmem, hget, hpre, hmax⟩ := getmntdir_spec hf hlen hreal hroot hf.slash
  rw [hget]
  constructor
  · intro h m hm hmf
    obtain ⟨r', hr, hof⟩ := h
    rw [← Option.some.inj hr] at hof
    exact ⟨r, hmem, hof.2.1, hmax m hm hmf⟩
  · intro h
    refine ⟨r, rfl, hmem, ?_, fun m hm hc => hmax m hm ((hmounts m hm).isPrefix_of_covers hf hc)⟩
    obtain ⟨m', hm', hcov, hle⟩ := h r hmem hpre
    have hpre' := (hmounts m' hm').isPrefix_of_covers hf hcov
    have heq := hmax m' hm' hpre'
    rwa [(List.prefix_of_prefix_length_le hpre hpre' hle).eq_of_length_le heq]

theorem canonical_of (h : (names.all fun n =>
    !n.contains '/' && n != [] && n != dot && n != ['.', '.']) = true) :
    Canonical (pathOf names) := by
  refine ⟨names, fun n hn => ?_, rfl⟩
  have hgood := List.all_eq_true.mp h n hn
  simpa [and_assoc] using hgood

theorem getmntdir_home :
    ∃ r, getmntdir some (some [['/'], ['/', 'h']]) ['/', 'h', '/', 'a'] = some r ∧
      MountOf [['/'], ['/', 'h']] ['/', 'h', '/', 'a'] r := by
  have hf : Canonical (pathOf [['h'], ['a']]) := canonical_of rfl
  have hh : Canonical (pathOf [['h']]) := canonical_of rfl
  have htop : Canonical (pathOf []) := canonical_of rfl
  refine (getmntdir_iff some [['/'], ['/', 'h']] ['/', 'h', '/', 'a'] hf (by decide) rfl ?_
    List.mem_cons_self).mpr ?_
  · intro m hm
    rw [List.mem_cons, List.mem_singleton] at hm
    rcases hm with hm | hm
    · exact hm.symm ▸ htop
    · exact hm.symm ▸ hh
  · decide

/-- `/h` is taken for `/ha`, which is not below it. -/
theorem getmntdir_not_below :
    getmntdir some (some [['/'], ['/', 'h']]) ['/', 'h', 'a'] = some ['/', 'h'] ∧
      ¬ MountOf [['/'], ['/', 'h']] ['/', 'h', 'a'] ['/', 'h'] := by
  refine ⟨by decide, fun h => ?_⟩
  have hcov := h.2.1
  revert hcov
  decide

end Lh1.Hammer.Snapshot
