/-
  Searching with `hammer show` (cmd_show.c).

  With a search argument `print_btree_node` leaves out the subtrees that can not have what is
  searched for: those whose first element is behind it, and those whose next element is not. Only
  the fields that were given are compared, so that the next element may compare equal. By default
  (`opt.filter` is -1) nothing is left out any more once a subtree was printed.

  * `in_range`: an element between two others is not left out by them.
  * `WellFormed.within`: where the leaf elements below a node are.
  * `WellFormed.shown`: what is printed below a node.
  * `hammer_show_search`: in a well-formed tree all that matches is printed, and by default all
    leaves from the first that is printed.
-/
import Lh1.Hammer.ShowSound

namespace Lh1.Hammer.Show

open Lib

/-! ## Well-formed trees -/

/-- An element of a node is within the elements around the node. -/
def Within (elm : Elm) (lbe : Option (Elm × Elm)) : Prop :=
  ∀ l r, lbe = some (l, r) → 0 ≤ hammerBtreeCmp elm.base l.base ∧ hammerBtreeCmp elm.base r.base < 0

/-- The right boundary of a node is not behind the right one of the elements around it. -/
def WithinRight (elm : Elm) (lbe : Option (Elm × Elm)) : Prop :=
  ∀ l r, lbe = some (l, r) → hammerBtreeCmp elm.base r.base ≤ 0

/-- A node that is empty has a parent, which can be read. -/
def Node.HasParent (img : Image) (node : Node) : Prop :=
  node.count = 0 → ∃ parent, img.read node.parent = some parent

/-- A well-formed B-Tree below a node. The elements are within the elements around the node; that
    they are sorted is not needed here. -/
inductive WellFormed (img : Image) : UInt64 → Option (Elm × Elm) → Prop
  | leaf {offset lbe node} (read : img.read offset = some node) (type : node.type = typeLeaf)
      (parent : node.HasParent img) (within : ∀ i ∈ node.slots, Within (node.elms i) lbe) :
      WellFormed img offset lbe
  | internal {offset lbe node} (read : img.read offset = some node)
      (type : node.type = typeInternal) (count : 0 ≤ node.count) (parent : node.HasParent img)
      (within : ∀ i ∈ node.slots, Within (node.elms i) lbe)
      (right : WithinRight (node.elms node.count.toNat) lbe)
      (subs : ∀ i ∈ node.slots, WellFormed img (node.elms i).offset
        (some (node.elms i, node.elms (i + 1)))) :
      WellFormed img offset lbe

/-- The leaf nodes below a node in tree order. -/
inductive Leaves (img : Image) : UInt64 → List UInt64 → Prop
  | leaf {offset node} (read : img.read offset = some node) (type : node.type = typeLeaf) :
      Leaves img offset [offset]
  | internal {offset node} (read : img.read offset = some node) (type : node.type = typeInternal)
      (parts : Nat → List UInt64)
      (subs : ∀ i ∈ node.slots, Leaves img (node.elms i).offset (parts i)) :
      Leaves img offset (node.slots.flatMap parts)

section

variable {img : Image} {search : Search} {offset leaf : UInt64} {node : Node} {j : Nat}
  {lbe : Option (Elm × Elm)} {path : List Step} {l r elm : Elm}

theorem WellFormed.offset_ne_zero (h : WellFormed img offset lbe) : offset ≠ 0 := by
  rintro rfl
  cases h with
  | leaf hread => rw [img.zone0] at hread; cases hread
  | internal hread => rw [img.zone0] at hread; cases hread

/-- A leaf element is within the elements around any node above it. -/
theorem WellFormed.within (h : WellFormed img offset lbe) (hd : Descends img offset path leaf)
    (hread : img.read leaf = some node) (htype : node.type = typeLeaf) (hj : j ∈ node.slots) :
    Within (node.elms j) lbe := by
  induction hd generalizing lbe with
  | refl offset =>
    cases h with
    | leaf hread' _ _ hw =>
      rw [hread, Option.some.injEq] at hread'
      exact hread' ▸ hw j (hread' ▸ hj)
    | internal hread' htype' =>
      rw [hread, Option.some.injEq] at hread'
      rw [← hread', htype] at htype'
      exact absurd htype' (by decide)
  | @down offset above i path leaf habove hin hi hoff _ ih =>
    cases h with
    | leaf hread' htype' =>
      rw [habove, Option.some.injEq] at hread'
      rw [← hread', hin] at htype'
      exact absurd htype' (by decide)
    | internal hread' _ hcount _ hw hright hsubs =>
      rw [habove, Option.some.injEq] at hread'
      subst hread'
      intro l r hlbe
      obtain ⟨hleft, hlt⟩ := ih (hsubs i hi) hread _ _ rfl
      have hl := (hw i hi l r hlbe).1
      -- the next element is another one of the node, or its right boundary
      have hnext : hammerBtreeCmp (above.elms (i + 1)).base r.base ≤ 0 := by
        by_cases hlast : i + 1 ∈ above.slots
        · exact (hw (i + 1) hlast l r hlbe).2.le
        · have heq : i + 1 = above.count.toNat := by
            rw [Node.slots, List.mem_range] at hi hlast
            omega
          rw [heq]
          exact hright l r hlbe
      rw [(compares_hammerBtreeCmp _ _).nonneg] at hleft hl ⊢
      rw [(compares_hammerBtreeCmp _ _).neg] at hlt ⊢
      rw [(compares_hammerBtreeCmp _ _).nonpos] at hnext
      exact ⟨hl.trans hleft, hlt.trans_le hnext⟩

/-- What matches is not left out by the elements around it. -/
theorem in_range (hlimit : 1 ≤ search.limit) (hw : Within elm (some (l, r)))
    (hmatch : testBtreeMatch search elm = true) : testBtreeOutOfRange search l r = false := by
  obtain ⟨hl, hr⟩ := hw l r rfl
  rw [(compares_hammerBtreeCmp _ _).nonneg] at hl
  rw [(compares_hammerBtreeCmp _ _).neg] at hr
  rw [testBtreeMatch, decide_eq_true_eq, (compares_testBtreeSearch hlimit _).zero] at hmatch
  have hleft : ¬ 0 < testBtreeSearch search l := by
    rw [(compares_testBtreeSearch hlimit _).pos, not_lt, ← hmatch]
    exact take_le_take _ hl
  rw [testBtreeOutOfRange, if_neg hleft]
  split
  next hfull =>
    -- with all the fields given nothing is cut off, and the next element is behind
    have hall : ∀ b : BaseElm, b.fields.take search.limit = b.fields :=
      fun b => List.take_of_length_le hfull
    rw [decide_eq_false_iff_not, (compares_testBtreeSearch hlimit _).nonpos, not_le, ← hmatch, hall,
      hall]
    exact hr
  next =>
    rw [decide_eq_false_iff_not, (compares_testBtreeSearch hlimit _).neg, not_lt, ← hmatch]
    exact take_le_take _ hr.le

end

/-! ## What is printed -/

def leafNodes (img : Image) (lines : List Line) : List UInt64 :=
  lines.filterMap fun
    | .node offset _ _ =>
      if (img.read offset).any (·.type = typeLeaf) then some offset else none
    | _ => none

theorem leafNodes_append (img : Image) (xs ys : List Line) :
    leafNodes img (xs ++ ys) = leafNodes img xs ++ leafNodes img ys :=
  List.filterMap_append

/-- An element that matches, in a leaf below a node. -/
structure Match (img : Image) (search : Search) (offset leaf : UInt64) (j : Nat) : Prop where
  below : ∃ path, Descends img offset path leaf
  elm : ∃ node, img.read leaf = some node ∧ node.type = typeLeaf ∧ j ∈ node.slots ∧
    testBtreeMatch search (node.elms j) = true

/-- What is printed below the nodes `offsets`, whose leaves are `parts` in this order: what
    matches, leaves with all their elements, all leaves if nothing is left out, and the leaves from
    some point on by default. -/
structure Shown (img : Image) (search : Search) (offsets : List UInt64) (f : Int) (new : List Line)
    (f' : Int) : Prop where
  matched : ∀ offset ∈ offsets, ∀ leaf j, Match img search offset leaf j →
    ∃ flags, .elm leaf j flags true ∈ new
  whole : ∀ leaf ∈ leafNodes img new, ∀ node, img.read leaf = some node → ∀ j ∈ node.slots,
    ∃ flags ext, .elm leaf j flags ext ∈ new
  filter : f' = f ∨ f = -1 ∧ f' = 0
  all : f = 0 → ∀ parts, List.Forall₂ (Leaves img) offsets parts →
    leafNodes img new = parts.flatten
  tail : f = -1 → ∀ parts, List.Forall₂ (Leaves img) offsets parts →
    leafNodes img new <:+ parts.flatten

section

variable {img : Image} {search : Search} {offset mirrorTid : UInt64} {node : Node} {is : List Nat}
  {lbe : Option (Elm × Elm)} {f f1 f' : Int} {new new1 new2 : List Line} {offsets : List UInt64}

/-! ### Lists of subtrees -/

theorem Shown.nil (img : Image) (search : Search) (f : Int) : Shown img search [] f [] f where
  matched := nofun
  whole := nofun
  filter := Or.inl rfl
  all _ parts hparts := by
    cases hparts
    rfl
  tail _ parts hparts := by
    cases hparts
    exact List.suffix_refl _

/-- A subtree is left out, which has no match. -/
theorem Shown.skip (h : Shown img search offsets f new f') (hf : f ≠ 0)
    (hno : ∀ leaf j, ¬ Match img search offset leaf j) :
    Shown img search (offset :: offsets) f new f' where
  matched o ho leaf j hm := by
    rcases List.mem_cons.mp ho with rfl | ho
    · exact absurd hm (hno leaf j)
    · exact h.matched o ho leaf j hm
  whole := h.whole
  filter := h.filter
  all hzero := absurd hzero hf
  tail hdef parts hparts := by
    cases hparts with
    | cons _ hrest => exact (h.tail hdef _ hrest).trans (List.suffix_append _ _)

/-- A subtree is printed, and by default all others from then on. -/
theorem Shown.cons (h1 : Shown img search [offset] f new1 f1)
    (h2 : Shown img search offsets (if f1 = -1 then 0 else f1) new2 f') :
    Shown img search (offset :: offsets) f (new1 ++ new2) f' where
  matched o ho leaf j hm := by
    rcases List.mem_cons.mp ho with rfl | ho
    · obtain ⟨flags, hl⟩ := h1.matched o List.mem_cons_self leaf j hm
      exact ⟨flags, List.mem_append_left _ hl⟩
    · obtain ⟨flags, hl⟩ := h2.matched o ho leaf j hm
      exact ⟨flags, List.mem_append_right _ hl⟩
  whole leaf hleaf node hread j hj := by
    rw [leafNodes_append, List.mem_append] at hleaf
    rcases hleaf with hleaf | hleaf
    · obtain ⟨flags, ext, hl⟩ := h1.whole leaf hleaf node hread j hj
      exact ⟨flags, ext, List.mem_append_left _ hl⟩
    · obtain ⟨flags, ext, hl⟩ := h2.whole leaf hleaf node hread j hj
      exact ⟨flags, ext, List.mem_append_right _ hl⟩
  filter := by
    have ha := h1.filter
    have hb := h2.filter
    split at hb <;> omega
  all hzero parts hparts := by
    have hf1 : (if f1 = -1 then 0 else f1) = 0 := by
      have := h1.filter
      split <;> omega
    cases hparts with
    | @cons _ part _ parts hpart hrest =>
      rw [leafNodes_append, h1.all hzero [part] (.cons hpart .nil), h2.all hf1 parts hrest]
      simp
  tail hdef parts hparts := by
    have hf1 : (if f1 = -1 then 0 else f1) = 0 := by
      have := h1.filter
      split <;> omega
    cases hparts with
    | @cons _ part _ parts hpart hrest =>
      obtain ⟨pre, hpre⟩ := h1.tail hdef [part] (.cons hpart .nil)
      refine ⟨pre, ?_⟩
      rw [leafNodes_append, h2.all hf1 parts hrest, ← List.append_assoc, hpre]
      simp

theorem seeked_filter (hlimit : 1 ≤ search.limit) (out : Out) :
    (out.seeked search).filter = if out.filter = -1 then 0 else out.filter := by
  rw [Out.seeked]
  by_cases hf : out.filter = -1
  · rw [if_pos ⟨by omega, hf⟩, if_pos hf]
  · rw [if_neg fun h => hf h.2, if_neg hf]

theorem seeked_lines (search : Search) (out : Out) : (out.seeked search).lines = out.lines := by
  rw [Out.seeked]
  split <;> rfl

theorem printSubtrees_shown (hlimit : 1 ≤ search.limit)
    {visit : UInt64 → UInt64 → Option (Elm × Elm) → Out → Except Fault Out}
    (hne : ∀ i ∈ is, (node.elms i).offset ≠ 0)
    (hrange : ∀ i ∈ is, ∀ leaf j, Match img search (node.elms i).offset leaf j →
      testBtreeOutOfRange search (node.elms i) (node.elms (i + 1)) = false)
    (hvisit : ∀ i ∈ is, ∀ out, ∃ out' new,
      visit (node.elms i).offset (node.elms i).mirrorTid (some (node.elms i, node.elms (i + 1))) out =
        .ok out' ∧ out'.lines = out.lines ++ new ∧
        Shown img search [(node.elms i).offset] out.filter new out'.filter) (out : Out) :
    ∃ out' new, printSubtrees search visit node is out = .ok out' ∧
      out'.lines = out.lines ++ new ∧
      Shown img search (is.map fun i => (node.elms i).offset) out.filter new out'.filter := by
  induction is generalizing out with
  | nil => exact ⟨out, [], rfl, (List.append_nil _).symm, .nil img search _⟩
  | cons i is ih =>
    have hrest := ih (fun i hi => hne i (List.mem_cons_of_mem _ hi))
      (fun i hi => hrange i (List.mem_cons_of_mem _ hi))
      fun i hi => hvisit i (List.mem_cons_of_mem _ hi)
    rw [printSubtrees]
    split
    next hskip =>
      obtain ⟨out', new, hrun, hlines, hshown⟩ := hrest out
      refine ⟨out', new, hrun, hlines, hshown.skip hskip.2.1 fun leaf j hm => ?_⟩
      rw [hrange i List.mem_cons_self leaf j hm] at hskip
      exact absurd hskip.2.2 (by decide)
    next =>
      rw [if_pos (hne i List.mem_cons_self)]
      obtain ⟨out1, new1, hrun1, hlines1, hshown1⟩ := hvisit i List.mem_cons_self out
      obtain ⟨out2, new2, hrun2, hlines2, hshown2⟩ := hrest (out1.seeked search)
      rw [seeked_filter hlimit] at hshown2
      refine ⟨out2, new1 ++ new2, ?_, ?_, hshown1.cons hshown2⟩
      · rw [hrun1]
        exact hrun2
      · rw [hlines2, seeked_lines, hlines1, List.append_assoc]

/-! ### One node -/

/-- A node that is empty and has a parent is checked without a failure, as are the others. -/
theorem nodeMarks_total (h : node.HasParent img) (mirrorTid : UInt64) :
    ∃ marks, nodeMarks img mirrorTid node = .ok marks := by
  have htest : ∃ bad, testNodeCount img node = .ok bad := by
    rw [testNodeCount]
    split
    · exact ⟨_, rfl⟩
    · split
      · exact ⟨_, rfl⟩
      · split
        next hcount =>
          obtain ⟨parent, hparent⟩ := h hcount
          rw [hparent]
          dsimp only
          split <;> exact ⟨_, rfl⟩
        next => exact ⟨_, rfl⟩
  obtain ⟨bad, hbad⟩ := htest
  rw [nodeMarks, hbad, except_ok_bind]
  cases bad <;> exact ⟨_, rfl⟩

/-- Among the lines of a node there is the one of the node. -/
theorem leafNodes_nodeLines (hread : img.read offset = some node) (marks : Char × Char) :
    leafNodes img (nodeLines img search node offset lbe marks) =
      if node.type = typeLeaf then [offset] else [] := by
  have helms : leafNodes img (elmLines img search node offset lbe) = [] := by
    rw [leafNodes, elmLines, List.filterMap_eq_nil_iff]
    intro l hl
    obtain ⟨i, -, rfl⟩ := List.mem_map.mp hl
    rfl
  have hrbn : leafNodes img (if node.type = typeInternal then
      [.rbn offset node.count.toNat (getElmFlags img node offset node.count.toNat lbe)] else []) =
      [] := by
    split <;> rfl
  have hnode : leafNodes img [.node offset marks.1 marks.2] =
      if node.type = typeLeaf then [offset] else [] := by
    by_cases htype : node.type = typeLeaf <;> simp [leafNodes, hread, htype]
  rw [nodeLines, leafNodes_append, hrbn, List.append_nil, ← List.singleton_append, leafNodes_append,
    helms, List.append_nil, hnode]

/-- A leaf node and all its elements are printed. -/
theorem shown_leaf (hlimit : 1 ≤ search.limit) (hread : img.read offset = some node)
    (htype : node.type = typeLeaf) (marks : Char × Char) (f : Int) :
    Shown img search [offset] f (nodeLines img search node offset lbe marks) f := by
  have hleaves : leafNodes img (nodeLines img search node offset lbe marks) = [offset] := by
    rw [leafNodes_nodeLines hread, if_pos htype]
  have hparts : ∀ parts, List.Forall₂ (Leaves img) [offset] parts → parts = [[offset]] := by
    intro parts hparts
    cases hparts with
    | cons hpart hnil =>
      cases hnil
      cases hpart with
      | leaf => rfl
      | internal hread' htype' =>
        rw [hread, Option.some.injEq] at hread'
        rw [← hread', htype] at htype'
        exact absurd htype' (by decide)
  have helm : ∀ j ∈ node.slots, .elm offset j (getElmFlags img node offset j lbe)
      (elmExt search node j) ∈ nodeLines img search node offset lbe marks := fun j hj =>
    List.mem_append_left _ (List.mem_cons_of_mem _ (List.mem_map_of_mem hj))
  refine ⟨?_, ?_, Or.inl rfl, fun _ parts h => ?_, fun _ parts h => ?_⟩
  · intro o ho leaf j hm
    rw [List.mem_singleton.mp ho] at hm
    obtain ⟨⟨path, hd⟩, node', hread', -, hj, hmatch⟩ := hm
    cases hd with
    | refl =>
      rw [hread, Option.some.injEq] at hread'
      subst hread'
      have hext : elmExt search node j = true := by
        rw [elmExt, if_neg (by omega), if_neg (htype ▸ by decide), if_pos htype, hmatch]
      exact ⟨getElmFlags img node offset j lbe, hext ▸ helm j hj⟩
    | down hread' hin =>
      rw [hread, Option.some.injEq] at hread'
      rw [← hread', htype] at hin
      exact absurd hin (by decide)
  · intro leaf hleaf node' hread' j hj
    rw [hleaves, List.mem_singleton] at hleaf
    subst hleaf
    rw [hread, Option.some.injEq] at hread'
    subst hread'
    exact ⟨_, _, helm j hj⟩
  · rw [hparts parts h, hleaves]
    rfl
  · rw [hparts parts h, hleaves]
    exact List.suffix_refl _

/-- An internal node shows what its subtrees show. -/
theorem shown_internal (hread : img.read offset = some node) (htype : node.type = typeInternal)
    (marks : Char × Char)
    (h : Shown img search (node.slots.map fun i => (node.elms i).offset) f new f') :
    Shown img search [offset] f (nodeLines img search node offset lbe marks ++ new) f' := by
  have hleaves : leafNodes img (nodeLines img search node offset lbe marks ++ new) =
      leafNodes img new := by
    rw [leafNodes_append, leafNodes_nodeLines hread, if_neg (htype ▸ by decide), List.nil_append]
  have hparts : ∀ parts, List.Forall₂ (Leaves img) [offset] parts → ∃ subs,
      List.Forall₂ (Leaves img) (node.slots.map fun i => (node.elms i).offset) subs ∧
        parts.flatten = subs.flatten := by
    intro parts hparts
    cases hparts with
    | cons hpart hnil =>
      cases hnil
      cases hpart with
      | leaf hread' htype' =>
        rw [hread, Option.some.injEq] at hread'
        rw [← hread', htype] at htype'
        exact absurd htype' (by decide)
      | internal hread' _ parts hsubs =>
        rw [hread, Option.some.injEq] at hread'
        subst hread'
        refine ⟨node.slots.map parts, ?_, ?_⟩
        · rw [List.forall₂_map_left_iff, List.forall₂_map_right_iff, List.forall₂_same]
          exact hsubs
        · rw [List.flatten_singleton, List.flatMap]
  refine ⟨?_, ?_, h.filter, fun hf parts hp => ?_, fun hf parts hp => ?_⟩
  · intro o ho leaf j hm
    rw [List.mem_singleton.mp ho] at hm
    obtain ⟨⟨path, hd⟩, node', hread', htype', hj, hmatch⟩ := hm
    cases hd with
    | refl =>
      rw [hread, Option.some.injEq] at hread'
      rw [← hread', htype] at htype'
      exact absurd htype' (by decide)
    | @down _ above i path _ hread'' _ hi _ hrest =>
      rw [hread, Option.some.injEq] at hread''
      subst hread''
      obtain ⟨flags, hl⟩ := h.matched _ (List.mem_map_of_mem hi) leaf j
        ⟨⟨path, hrest⟩, node', hread', htype', hj, hmatch⟩
      exact ⟨flags, List.mem_append_right _ hl⟩
  · intro leaf hleaf node' hread' j hj
    rw [hleaves] at hleaf
    obtain ⟨flags, ext, hl⟩ := h.whole leaf hleaf node' hread' j hj
    exact ⟨flags, ext, List.mem_append_right _ hl⟩
  · obtain ⟨subs, hsubs, heq⟩ := hparts parts hp
    rw [hleaves, heq, h.all hf subs hsubs]
  · obtain ⟨subs, hsubs, heq⟩ := hparts parts hp
    rw [hleaves, heq]
    exact h.tail hf subs hsubs

/-! ### The whole tree -/

theorem WellFormed.shown (hlimit : 1 ≤ search.limit) (h : WellFormed img offset lbe) :
    ∃ n, ∀ fuel ≥ n, ∀ mirrorTid out, ∃ out' new,
      printBtreeNode img search fuel offset mirrorTid lbe out = .ok out' ∧
        out'.lines = out.lines ++ new ∧ Shown img search [offset] out.filter new out'.filter := by
  induction h with
  | @leaf offset lbe node hread htype hparent _ =>
    refine ⟨1, fun fuel hfuel mirrorTid out => ?_⟩
    obtain ⟨fuel, rfl⟩ : ∃ k, fuel = k + 1 := ⟨fuel - 1, by omega⟩
    obtain ⟨marks, hmarks⟩ := nodeMarks_total hparent mirrorTid
    exact ⟨_, nodeLines img search node offset lbe marks, printBtreeNode_ok.mpr
      ⟨node, hread, marks, hmarks, Or.inr ⟨htype ▸ by decide, rfl⟩⟩, rfl,
      shown_leaf hlimit hread htype marks _⟩
  | @internal offset lbe node hread htype hcount hparent _ _ hsubs ih =>
    obtain ⟨n, hn⟩ := exists_forall_ge (p := fun i fuel => ∀ mirrorTid out, ∃ out' new,
      printBtreeNode img search fuel (node.elms i).offset mirrorTid
        (some (node.elms i, node.elms (i + 1))) out = .ok out' ∧
      out'.lines = out.lines ++ new ∧
      Shown img search [(node.elms i).offset] out.filter new out'.filter) ih
    refine ⟨n + 1, fun fuel hfuel mirrorTid out => ?_⟩
    obtain ⟨fuel, rfl⟩ : ∃ k, fuel = k + 1 := ⟨fuel - 1, by omega⟩
    obtain ⟨marks, hmarks⟩ := nodeMarks_total hparent mirrorTid
    have hrange : ∀ i ∈ node.slots, ∀ leaf j, Match img search (node.elms i).offset leaf j →
        testBtreeOutOfRange search (node.elms i) (node.elms (i + 1)) = false := by
      intro i hi leaf j hm
      obtain ⟨⟨path, hd⟩, node', hread', htype', hj, hmatch⟩ := hm
      exact in_range hlimit ((hsubs i hi).within hd hread' htype' hj) hmatch
    obtain ⟨out', new, hrun, hlines, hshown⟩ := printSubtrees_shown hlimit
      (fun i hi => (hsubs i hi).offset_ne_zero) hrange
      (fun i hi out => hn i hi fuel (by omega) _ out)
      (out.put (nodeLines img search node offset lbe marks))
    refine ⟨out', nodeLines img search node offset lbe marks ++ new, printBtreeNode_ok.mpr
      ⟨node, hread, marks, hmarks, Or.inl ⟨htype, hcount, hrun⟩⟩, ?_,
      shown_internal hread htype marks hshown⟩
    rw [hlines, Out.put, List.append_assoc]

end

/-- A well-formed tree has leaves in an order. -/
theorem WellFormed.leaves {img : Image} {offset : UInt64} {lbe : Option (Elm × Elm)}
    (h : WellFormed img offset lbe) : ∃ leaves, Leaves img offset leaves := by
  induction h with
  | leaf hread htype => exact ⟨_, .leaf hread htype⟩
  | @internal offset lbe node hread htype _ _ _ _ _ ih =>
    have hall : ∀ i, ∃ part, i ∈ node.slots → Leaves img (node.elms i).offset part := by
      intro i
      by_cases hi : i ∈ node.slots
      · obtain ⟨part, hpart⟩ := ih i hi
        exact ⟨part, fun _ => hpart⟩
      · exact ⟨[], fun h => absurd h hi⟩
    choose parts hparts using hall
    exact ⟨_, .internal hread htype parts hparts⟩

/-- `hammer show` with a search argument of one field or more on a well-formed tree. Whatever the
    filter is, it comes to its end and every leaf element that matches is printed, with a star. By
    default the leaf nodes that are printed are the last ones of the tree, so that with the first
    one all others behind it are printed, with all their elements. -/
theorem hammer_show_search {img : Image} {search : Search} {root : UInt64}
    (hlimit : 1 ≤ search.limit) (hwf : WellFormed img root none) (filter : Int) :
    ∃ fuel out, printBtree img search fuel root filter = .ok out ∧
      (∀ leaf j, Match img search root leaf j → ∃ flags, .elm leaf j flags true ∈ out.lines) ∧
      (filter = -1 → ∃ leaves, Leaves img root leaves ∧ leafNodes img out.lines <:+ leaves) ∧
      ∀ leaf ∈ leafNodes img out.lines, ∀ node, img.read leaf = some node → ∀ j ∈ node.slots,
        ∃ flags ext, .elm leaf j flags ext ∈ out.lines := by
  obtain ⟨n, hn⟩ := hwf.shown hlimit
  obtain ⟨out, new, hrun, hlines, hshown⟩ := hn n le_rfl maxTid ⟨filter, []⟩
  rw [List.nil_append] at hlines
  subst hlines
  refine ⟨n, out, hrun, hshown.matched root List.mem_cons_self, fun hf => ?_, hshown.whole⟩
  obtain ⟨leaves, hl⟩ := hwf.leaves
  refine ⟨leaves, hl, ?_⟩
  have := hshown.tail hf [leaves] (.cons hl .nil)
  rwa [List.flatten_singleton] at this

theorem wellFormed_twoLevels : WellFormed twoLevels 0x8000000000000000 none := by
  refine .internal rfl rfl (by decide) nofun (fun _ _ => nofun) nofun fun i hi => ?_
  have hi : i = 0 ∨ i = 1 := by
    have := List.mem_range.mp hi
    change i < 2 at this
    omega
  rcases hi with rfl | rfl
  · refine .leaf rfl rfl nofun fun i hi l r h => ?_
    cases h
    revert i
    decide
  · refine .leaf rfl rfl nofun fun i hi l r h => ?_
    cases h
    revert i
    decide

/-- A search by four fields in the tree with two leaves: it comes to its end, and the record with
    key 10 is found. -/
theorem hammer_show_search_twoLevels :
    ∃ fuel out, printBtree twoLevels ⟨⟨1, 10, 0, 0, 1, 0, 1⟩, 4⟩ fuel 0x8000000000000000 (-1) =
      .ok out ∧ ∃ flags, .elm 0x8000000000002000 0 flags true ∈ out.lines := by
  obtain ⟨fuel, out, hrun, hmatched, -⟩ := hammer_show_search
    (show 1 ≤ (⟨⟨1, 10, 0, 0, 1, 0, 1⟩, 4⟩ : Search).limit by decide) wellFormed_twoLevels (-1)
  have hd : ∃ path, Descends twoLevels 0x8000000000000000 path 0x8000000000002000 :=
    ⟨_, .down (i := 1) rfl rfl (by decide) (by decide) (.refl _)⟩
  have helm : ∃ node, twoLevels.read 0x8000000000002000 = some node ∧ node.type = typeLeaf ∧
      0 ∈ node.slots ∧ testBtreeMatch ⟨⟨1, 10, 0, 0, 1, 0, 1⟩, 4⟩ (node.elms 0) = true :=
    ⟨_, rfl, rfl, by decide, by decide⟩
  exact ⟨fuel, out, hrun, hmatched _ _ ⟨hd, helm⟩⟩

end Lh1.Hammer.Show
