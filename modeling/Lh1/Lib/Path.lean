/-
  Texts that are paths, and what they name in a tree of directories.

  A path is cut at its separators, and empty components do not count. A tree is given by what it
  finds below a directory under a name, where one name, `dot`, stands for the directory itself.

  * `components_append`: a separator cuts the components.
  * `follow_eq_iff`: two routes lead to the same directory in every tree if and only if they are the
    same apart from `dot`.
-/
import Mathlib.Data.List.Basic

namespace Lh1.Lib

/-! ## Components -/

section Components

variable {α : Type} [DecidableEq α] {sep : α} {p q : List α}

def components (sep : α) (p : List α) : List (List α) := (p.splitOn sep).filter (· ≠ [])

theorem components_nil : components sep ([] : List α) = [] := rfl

theorem components_append (p q : List α) :
    components sep (p ++ sep :: q) = components sep p ++ components sep q := by
  rw [components, List.splitOn_append_cons_self, List.filter_append]
  rfl

theorem components_cons (p : List α) : components sep (sep :: p) = components sep p := by
  show components sep ([] ++ sep :: p) = _
  rw [components_append, components_nil, List.nil_append]

theorem components_of_not_mem (h : sep ∉ p) : components sep p = if p = [] then [] else [p] := by
  rw [components, List.splitOn_eq_singleton h]
  split
  · next hp => rw [hp]; rfl
  · next hp => rw [List.filter_cons_of_pos (by simpa using hp), List.filter_nil]

/-- What does not end with a separator has a last component. -/
theorem components_ne_nil (hne : p ≠ []) (hlast : p.getLast? ≠ some sep) : components sep p ≠ [] := by
  induction p with
  | nil => exact absurd rfl hne
  | cons a p ih =>
    by_cases hp : p = []
    · subst hp
      have ha : sep ∉ [a] := by
        intro h
        rw [List.mem_singleton.mp h] at hlast
        exact hlast rfl
      rw [components_of_not_mem ha, if_neg (List.cons_ne_nil a [])]
      exact List.cons_ne_nil _ _
    · rw [List.getLast?_cons, List.getLast?_eq_some_getLast hp] at hlast
      have hlast' : p.getLast? ≠ some sep := by
        rw [List.getLast?_eq_some_getLast hp]
        exact hlast
      by_cases ha : a = sep
      · rw [ha, components_cons]
        exact ih hp hlast'
      · have hcut := ih hp hlast'
        unfold components at hcut ⊢
        rw [List.splitOn_cons_eq_if_modifyHead, if_neg (by simpa using ha)]
        cases hs : p.splitOn sep with
        | nil => exact absurd hs (List.splitOn_ne_nil _ _)
        | cons x xs => simp

end Components

/-! ## Trees -/

/-- Where a path begins, and the names on its way. -/
structure Route (ν : Type) where
  absolute : Bool
  names : List ν
  deriving DecidableEq

/-- What a directory has below a name. -/
structure Tree (D : Type) {ν : Type} (dot : ν) where
  root : D
  cwd : D
  lookup : D → ν → Option D
  lookup_dot : ∀ d, lookup d dot = some d

section Trees

variable {ν D : Type} {dot : ν} {r r' : Route ν}

def Tree.follow (t : Tree D dot) (r : Route ν) : Option D :=
  r.names.foldlM t.lookup (if r.absolute then t.root else t.cwd)

variable [DecidableEq ν]

/-- The route without the names that lead nowhere else. -/
def Route.plain (dot : ν) (r : Route ν) : Route ν := ⟨r.absolute, r.names.filter (· ≠ dot)⟩

theorem foldlM_filter (t : Tree D dot) (names : List ν) (d : D) :
    (names.filter (· ≠ dot)).foldlM t.lookup d = names.foldlM t.lookup d := by
  induction names generalizing d with
  | nil => rfl
  | cons n names ih =>
    by_cases hn : n = dot
    · rw [List.filter_cons_of_neg (by simpa using hn), ih, List.foldlM_cons, hn, t.lookup_dot]
      rfl
    · rw [List.filter_cons_of_pos (by simpa using hn), List.foldlM_cons, List.foldlM_cons]
      exact congrArg _ (funext fun d => ih d)

/-- The tree in which no two routes meet that can be told apart. -/
def freeTree (dot : ν) : Tree (Route ν) dot where
  root := ⟨true, []⟩
  cwd := ⟨false, []⟩
  lookup d n := some (if n = dot then d else ⟨d.absolute, d.names ++ [n]⟩)
  lookup_dot d := by rw [if_pos rfl]

theorem freeTree_foldlM (names : List ν) (d : Route ν) :
    names.foldlM (freeTree dot).lookup d =
      some ⟨d.absolute, d.names ++ names.filter (· ≠ dot)⟩ := by
  induction names generalizing d with
  | nil => simp
  | cons n names ih =>
    rw [List.foldlM_cons]
    by_cases hn : n = dot
    · rw [List.filter_cons_of_neg (by simpa using hn), hn, (freeTree dot).lookup_dot]
      exact ih d
    · rw [List.filter_cons_of_pos (by simpa using hn)]
      have hstep : (freeTree dot).lookup d n = some ⟨d.absolute, d.names ++ [n]⟩ := by
        show some _ = _
        rw [if_neg hn]
      rw [hstep]
      show names.foldlM (freeTree dot).lookup _ = _
      rw [ih, List.append_assoc]
      rfl

theorem freeTree_follow (r : Route ν) : (freeTree dot).follow r = some (r.plain dot) := by
  unfold Tree.follow Route.plain
  rw [freeTree_foldlM]
  split <;> simp_all [freeTree]

theorem follow_eq_iff :
    (∀ (D : Type) (t : Tree D dot), t.follow r = t.follow r') ↔ r.plain dot = r'.plain dot := by
  constructor
  · intro h
    have hfree := h _ (freeTree dot)
    rw [freeTree_follow, freeTree_follow] at hfree
    exact Option.some.inj hfree
  · intro h D t
    rw [Route.plain, Route.plain, Route.mk.injEq] at h
    unfold Tree.follow
    rw [← foldlM_filter t r.names, ← foldlM_filter t r'.names, h.1, h.2]

end Trees

end Lh1.Lib
