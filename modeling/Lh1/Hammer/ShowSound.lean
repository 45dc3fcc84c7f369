/-
  What a `hammer show` without complaints says about the B-Tree (cmd_show.c).

  The flags of an element come from its own node, the two elements around its node in the node
  above, and the parent pointer of its child. Along a path from the root these single steps add up:
  the key of a leaf element is between all the elements on the path and those behind them, and the
  transaction ids do not grow on the way down.

  There is one exception in `get_elm_flags`: the mirror id of a leaf may be 0 if the leaf has no
  parent and two elements, as newfs leaves it. The transaction ids in it are then not compared.

  * `Walked.within`, `Walked.mirrors`: the order and the mirror ids along a path.
  * `hammer_show_clean`: what holds of the tree when nothing was reported.
-/
import Lh1.Hammer.ShowRobust

namespace Lh1.Hammer.Show

open Lib

/-! ## Elements without flags -/

section

variable {img : Image} {node : Node} {offset : UInt64} {i : Nat} {lbe : Option (Elm × Elm)}
  {elm l r : Elm}

theorem testLr_eq_zero (h : testLr elm (some (l, r)) = 0) :
    l.base.fields ≤ elm.base.fields ∧ elm.base.fields < r.base.fields := by
  rw [testLr] at h
  split at h
  · cases h
  next hl =>
    split at h
    · cases h
    next hr =>
      rw [(compares_hammerBtreeCmp _ _).neg, not_lt] at hl
      rw [(compares_hammerBtreeCmp _ _).nonneg, not_le] at hr
      exact ⟨hl, hr⟩

theorem testRbnLr_eq_zero (h : testRbnLr elm (some (l, r)) = 0) :
    l.base.fields ≤ elm.base.fields ∧ elm.base.fields ≤ r.base.fields := by
  rw [testRbnLr] at h
  split at h
  · cases h
  next hl =>
    split at h
    · cases h
    next hr =>
      rw [(compares_hammerBtreeCmp _ _).neg, not_lt] at hl
      rw [(compares_hammerBtreeCmp _ _).pos, not_lt] at hr
      exact ⟨hl, hr⟩

theorem testChild_eq_zero (h : testChild img offset elm = 0) :
    ∃ child, img.read elm.offset = some child ∧ child.parent = offset := by
  rw [testChild] at h
  split at h
  · cases h
  · split at h
    · cases h
    next child hread =>
      split at h
      · cases h
      next hparent => exact ⟨child, hread, not_not.mp hparent⟩

/-- A condition that would set a flag. -/
theorem not_of_ite_eq_zero {p : Prop} [Decidable p] {flag : Nat} (hflag : flag ≠ 0)
    (h : (if p then flag else 0) = 0) : ¬ p := by
  intro hp
  rw [if_pos hp] at h
  exact hflag h

theorem flags_internal (htype : node.type = typeInternal) (hi : (i : Int) ≠ node.count)
    (h : getElmFlags img node offset i lbe = 0) :
    (node.elms i).mirrorTid ≤ node.mirrorTid ∧ testLr (node.elms i) lbe = 0 ∧
      ∃ child, img.read (node.elms i).offset = some child ∧ child.parent = offset := by
  rw [getElmFlags] at h
  rw [if_pos htype, if_neg hi, Nat.or_eq_zero_iff, Nat.or_eq_zero_iff] at h
  obtain ⟨hmirror, hchild, hlr⟩ := h
  refine ⟨UInt64.not_lt.mp (not_of_ite_eq_zero (by decide) hmirror), ?_, testChild_eq_zero hchild⟩
  split at hlr
  · exact hlr
  · cases hlr

theorem flags_rbn (htype : node.type = typeInternal) (hi : (i : Int) = node.count)
    (h : getElmFlags img node offset i lbe = 0) : testRbnLr (node.elms i) lbe = 0 := by
  rw [getElmFlags] at h
  rw [if_pos htype, if_pos hi, Nat.or_eq_zero_iff, Nat.or_eq_zero_iff] at h
  obtain ⟨-, -, hlr⟩ := h
  split at hlr
  · exact hlr
  · cases hlr

theorem flags_leaf (htype : node.type = typeLeaf) (h : getElmFlags img node offset i lbe = 0) :
    testLr (node.elms i) lbe = 0 ∧
      (node.mirrorTid = 0 → node.parent = 0 ∧ node.count = 2) ∧
      (node.mirrorTid ≠ 0 → (node.elms i).base.createTid ≤ node.mirrorTid ∧
        (node.elms i).base.deleteTid ≤ node.mirrorTid) := by
  rw [getElmFlags] at h
  rw [if_neg (htype ▸ by decide), if_pos htype, Nat.or_eq_zero_iff, testLeafElm] at h
  simp only [Nat.or_eq_zero_iff] at h
  obtain ⟨⟨⟨⟨-, hzero⟩, hcreate⟩, hdelete⟩, hlr⟩ := h
  have hzero := not_of_ite_eq_zero (by decide) hzero
  have hcreate := not_of_ite_eq_zero (by decide) hcreate
  have hdelete := not_of_ite_eq_zero (by decide) hdelete
  -- an id of 0 is not compared, and is not larger either
  have hle : ∀ t : UInt64, node.mirrorTid ≠ 0 → ¬ (t ≠ 0 ∧ node.mirrorTid ≠ 0 ∧
      node.mirrorTid < t) → t ≤ node.mirrorTid := by
    intro t hne hno
    by_cases ht : t = 0
    · rw [ht]
      exact UInt64.zero_le
    · exact UInt64.not_lt.mp fun hlt => hno ⟨ht, hne, hlt⟩
  refine ⟨?_, fun h => ?_, fun hne => ⟨hle _ hne hcreate, hle _ hne hdelete⟩⟩
  · split at hlr
    · exact hlr
    · cases hlr
  · exact not_not.mp fun hno => hzero ⟨h, hno⟩

end

/-! ## Nodes without marks -/

/-- A line that is not counted as bad. -/
def Line.Clean (l : Line) : Prop := l.badNode = false ∧ l.badElm = false

/-- A node, and the slot of the element by which it was left. -/
structure Step where
  offset : UInt64
  node : Node
  i : Nat

def Step.elm (st : Step) : Elm := st.node.elms st.i

def Step.next (st : Step) : Elm := st.node.elms (st.i + 1)

/-- The nodes on the way from one node down to another. -/
inductive Descends (img : Image) : UInt64 → List Step → UInt64 → Prop
  | refl (offset : UInt64) : Descends img offset [] offset
  | down {offset node i path leaf} (read : img.read offset = some node)
      (internal : node.type = typeInternal) (slot : i ∈ node.slots)
      (sub : (node.elms i).offset ≠ 0) (rest : Descends img (node.elms i).offset path leaf) :
      Descends img offset (⟨offset, node, i⟩ :: path) leaf

section

variable {img : Image} {search : Search} {offset leaf mirrorTid : UInt64} {node : Node} {i j : Nat}
  {lbe : Option (Elm × Elm)} {path : List Step}

/-- What is known of a node when all that was printed is clean. -/
theorem Walked.clean (h : Walked img search Line.Clean offset mirrorTid lbe)
    (hread : img.read offset = some node) :
    node.mirrorTid ≤ mirrorTid ∧ (∀ i ∈ node.slots, getElmFlags img node offset i lbe = 0) ∧
      (node.type = typeInternal → 0 ≤ node.count ∧
        getElmFlags img node offset node.count.toNat lbe = 0 ∧
        ∀ i ∈ node.slots, (node.elms i).offset ≠ 0 → Walked img search Line.Clean
          (node.elms i).offset (node.elms i).mirrorTid (some (node.elms i, node.elms (i + 1)))) := by
  obtain ⟨hread', hmarks, hlines, hcount, hbelow⟩ := h
  rename_i node' marks
  rw [hread, Option.some.injEq] at hread'
  subst hread'
  rw [nodeLines, List.forall_mem_append, List.forall_mem_cons] at hlines
  obtain ⟨⟨hnode, helms⟩, hrbn⟩ := hlines
  have hgood : marks = (' ', ' ') := by
    have := hnode.1
    rw [Line.badNode, decide_eq_false_iff_not, not_or, not_not, not_not] at this
    exact Prod.ext this.2 this.1
  subst hgood
  refine ⟨(nodeMarks_good hmarks).2.1, fun i hi => ?_, fun htype => ⟨hcount htype, ?_, hbelow htype⟩⟩
  · have := (helms _ (List.mem_map_of_mem hi)).2
    rw [Line.badElm, decide_eq_false_iff_not, not_not] at this
    exact this
  · rw [if_pos htype] at hrbn
    have := (hrbn _ (List.mem_singleton_self _)).2
    rw [Line.badElm, decide_eq_false_iff_not, not_not] at this
    exact this

theorem ne_count_of_mem_slots (hi : i ∈ node.slots) : (i : Int) ≠ node.count := by
  rw [Node.slots, List.mem_range] at hi
  omega

/-- The element behind one of an internal node is not behind the element that bounds the node. -/
theorem Walked.next_le {l r : Elm} (h : Walked img search Line.Clean offset mirrorTid (some (l, r)))
    (hread : img.read offset = some node) (htype : node.type = typeInternal) (hi : i ∈ node.slots) :
    (node.elms (i + 1)).base.fields ≤ r.base.fields := by
  obtain ⟨-, hflags, hin⟩ := h.clean hread
  obtain ⟨hcount, hrbn, -⟩ := hin htype
  by_cases hlast : i + 1 ∈ node.slots
  · obtain ⟨-, hlr, -⟩ := flags_internal htype (ne_count_of_mem_slots hlast) (hflags _ hlast)
    exact (testLr_eq_zero hlr).2.le
  · have heq : i + 1 = node.count.toNat := by
      rw [Node.slots, List.mem_range] at hi hlast
      omega
    rw [heq]
    exact (testRbnLr_eq_zero (flags_rbn htype (Int.toNat_of_nonneg hcount) hrbn)).2

section

variable (h : Walked img search Line.Clean offset mirrorTid lbe)
  (hd : Descends img offset path leaf)
include h hd

/-- A leaf element is between the elements that bound the node it is below. -/
theorem Walked.within {l r : Elm} (hread : img.read leaf = some node) (htype : node.type = typeLeaf)
    (hj : j ∈ node.slots) (hlbe : lbe = some (l, r)) :
    l.base.fields ≤ (node.elms j).base.fields ∧ (node.elms j).base.fields < r.base.fields := by
  induction hd generalizing mirrorTid lbe l r with
  | refl offset =>
    subst hlbe
    exact testLr_eq_zero (flags_leaf htype ((h.clean hread).2.1 j hj)).1
  | @down offset above i path leaf hread' hin hi hoff _ ih =>
    subst hlbe
    obtain ⟨-, hflags, hbelow⟩ := h.clean hread'
    have hle := (testLr_eq_zero
      (flags_internal hin (ne_count_of_mem_slots hi) (hflags i hi)).2.1).1
    obtain ⟨h1, h2⟩ := ih ((hbelow hin).2.2 i hi hoff) hread rfl
    exact ⟨hle.trans h1, h2.trans_le (h.next_le hread' hin hi)⟩

/-- Everything that was reached has been walked, below the elements on the path. -/
theorem Walked.reached : ∃ mirrorTid lbe, Walked img search Line.Clean leaf mirrorTid lbe := by
  induction hd generalizing mirrorTid lbe with
  | refl offset => exact ⟨mirrorTid, lbe, h⟩
  | down hread hin hi hoff _ ih => exact ih (((h.clean hread).2.2 hin).2.2 _ hi hoff)

theorem Walked.order (hread : img.read leaf = some node) (htype : node.type = typeLeaf)
    (hj : j ∈ node.slots) :
    ∀ st ∈ path, st.elm.base.fields ≤ (node.elms j).base.fields ∧
      (node.elms j).base.fields < st.next.base.fields := by
  induction hd generalizing mirrorTid lbe with
  | refl offset => exact nofun
  | @down offset above i path leaf hread' hin hi hoff hrest ih =>
    have hsub := ((h.clean hread').2.2 hin).2.2 i hi hoff
    refine List.forall_mem_cons.mpr ⟨?_, ih hsub hread⟩
    exact hsub.within hrest hread htype hj rfl

theorem Walked.mirrors (hread : img.read leaf = some node) :
    node.mirrorTid ≤ mirrorTid ∧
      (∀ st ∈ path, st.node.mirrorTid ≤ mirrorTid ∧ st.elm.mirrorTid ≤ st.node.mirrorTid ∧
        node.mirrorTid ≤ st.node.mirrorTid) ∧
      path.Pairwise fun st st' => st'.node.mirrorTid ≤ st.node.mirrorTid := by
  induction hd generalizing mirrorTid lbe with
  | refl offset => exact ⟨(h.clean hread).1, nofun, .nil⟩
  | @down offset above i path leaf hread' hin hi hoff hrest ih =>
    obtain ⟨hnode, hflags, hbelow⟩ := h.clean hread'
    have helm := (flags_internal hin (ne_count_of_mem_slots hi) (hflags i hi)).1
    obtain ⟨h1, h2, h3⟩ := ih ((hbelow hin).2.2 i hi hoff) hread
    have hup : ∀ t : UInt64, t ≤ (above.elms i).mirrorTid → t ≤ above.mirrorTid :=
      fun t ht => UInt64.le_trans ht helm
    refine ⟨UInt64.le_trans (hup _ h1) hnode, ?_, ?_⟩
    · refine List.forall_mem_cons.mpr ⟨⟨hnode, helm, hup _ h1⟩, fun st hst => ?_⟩
      obtain ⟨ha, hb, hc⟩ := h2 st hst
      exact ⟨UInt64.le_trans (hup _ ha) hnode, hb, hc⟩
    · exact List.pairwise_cons.mpr ⟨fun st hst => hup _ (h2 st hst).1, h3⟩

/-- A node below another one names it as its parent, which is not 0. -/
theorem Walked.parent_ne_zero (hread : img.read leaf = some node) (hpath : path ≠ []) :
    node.parent ≠ 0 := by
  induction hd generalizing mirrorTid lbe with
  | refl offset => exact absurd rfl hpath
  | @down offset above i path leaf hread' hin hi hoff hrest ih =>
    obtain ⟨-, hflags, hbelow⟩ := h.clean hread'
    cases hrest with
    | refl =>
      obtain ⟨-, -, child, hchild, hparent⟩ :=
        flags_internal hin (ne_count_of_mem_slots hi) (hflags i hi)
      rw [hread, Option.some.injEq] at hchild
      rw [hchild, hparent]
      rintro rfl
      rw [img.zone0] at hread'
      cases hread'
    | down hr hin' hi' hoff' hrest' =>
      exact ih ((hbelow hin).2.2 i hi hoff) hread (List.cons_ne_nil _ _)

end

end

/-! ## The whole tree -/

/-- The tree that newfs makes: a leaf of two elements that has not been mirrored. -/
def NewTree (img : Image) (root : UInt64) : Prop :=
  ∃ node, img.read root = some node ∧ node.type = typeLeaf ∧ node.mirrorTid = 0 ∧
    node.parent = 0 ∧ node.count = 2

/-- A B-Tree in which every path is sound. -/
structure SoundTree (img : Image) (root : UInt64) : Prop where
  /-- The leaf's key is at least that of an element on the path and below that of the next. -/
  order : ∀ path leaf node j, Descends img root path leaf → img.read leaf = some node →
    node.type = typeLeaf → j ∈ node.slots → ∀ st ∈ path,
      0 ≤ hammerBtreeCmp (node.elms j).base st.elm.base ∧
        hammerBtreeCmp (node.elms j).base st.next.base < 0
  /-- A child names the node it was reached from. -/
  parents : ∀ path offset node i, Descends img root path offset → img.read offset = some node →
    node.type = typeInternal → i ∈ node.slots →
      ∃ child, img.read (node.elms i).offset = some child ∧ child.parent = offset
  /-- The mirror ids do not grow on the way down, through nodes and elements. -/
  mirrors : ∀ path leaf node, Descends img root path leaf → img.read leaf = some node →
    (∀ st ∈ path, st.elm.mirrorTid ≤ st.node.mirrorTid ∧ node.mirrorTid ≤ st.node.mirrorTid) ∧
      path.Pairwise fun st st' =>
        st'.node.mirrorTid ≤ st.node.mirrorTid ∧ st'.elm.mirrorTid ≤ st.node.mirrorTid
  /-- Nor do the ids of a leaf element exceed them, in any tree but that of newfs. -/
  tids : ¬ NewTree img root → ∀ path leaf node j, Descends img root path leaf →
    img.read leaf = some node → node.type = typeLeaf → j ∈ node.slots →
      ((node.elms j).base.createTid ≤ node.mirrorTid ∧
        (node.elms j).base.deleteTid ≤ node.mirrorTid) ∧
      ∀ st ∈ path, (node.elms j).base.createTid ≤ st.node.mirrorTid ∧
        (node.elms j).base.deleteTid ≤ st.node.mirrorTid

theorem Walked.soundTree {img : Image} {search : Search} {root mirrorTid : UInt64}
    (h : Walked img search Line.Clean root mirrorTid none) : SoundTree img root where
  order path leaf node j hd hread htype hj st hst := by
    rw [(compares_hammerBtreeCmp _ _).nonneg, (compares_hammerBtreeCmp _ _).neg]
    exact h.order hd hread htype hj st hst
  parents path offset node i hd hread htype hi := by
    obtain ⟨_, _, h'⟩ := h.reached hd
    exact (flags_internal htype (ne_count_of_mem_slots hi) ((h'.clean hread).2.1 i hi)).2.2
  mirrors path leaf node hd hread := by
    obtain ⟨-, h2, h3⟩ := h.mirrors hd hread
    refine ⟨fun st hst => (h2 st hst).2, h3.imp_of_mem fun _ hst' hle => ⟨hle, ?_⟩⟩
    exact UInt64.le_trans (h2 _ hst').2.1 hle
  tids hnew path leaf node j hd hread htype hj := by
    obtain ⟨_, _, h'⟩ := h.reached hd
    obtain ⟨-, hzero, hle⟩ := flags_leaf htype ((h'.clean hread).2.1 j hj)
    have hne : node.mirrorTid ≠ 0 := by
      intro hz
      obtain ⟨hparent, hcount⟩ := hzero hz
      by_cases hpath : path = []
      · subst hpath
        cases hd
        exact hnew ⟨node, hread, htype, hz, hparent, hcount⟩
      · exact h.parent_ne_zero hd hread hpath hparent
    refine ⟨hle hne, fun st hst => ?_⟩
    have hup := ((h.mirrors hd hread).2.1 st hst).2.2
    exact ⟨UInt64.le_trans (hle hne).1 hup, UInt64.le_trans (hle hne).2 hup⟩

/-- When `hammer show` without a search argument has come to its end and has counted no bad node
    and no bad element, the tree is sound. -/
theorem hammer_show_clean {img : Image} {search : Search} {fuel : Nat} {root : UInt64} {filter : Int}
    {out : Out} (hlimit : search.limit = 0) (h : printBtree img search fuel root filter = .ok out)
    (hnode : out.numBadNode = 0) (helm : out.numBadElm = 0) : SoundTree img root := by
  obtain ⟨new, hnew, hwalked⟩ := walked_of_run Line.Clean hlimit h
  rw [List.nil_append] at hnew
  rw [Out.numBadNode, List.countP_eq_zero, hnew] at hnode
  rw [Out.numBadElm, List.countP_eq_zero, hnew] at helm
  refine (hwalked fun l hl => ⟨?_, ?_⟩).soundTree
  · exact Bool.not_eq_true _ ▸ hnode l hl
  · exact Bool.not_eq_true _ ▸ helm l hl

/-- A record with a key, and the ids of its creation and deletion. -/
def record (key : Int64) (createTid deleteTid : UInt64) : Elm :=
  { base := ⟨1, key, createTid, deleteTid, 1, typeRecord, 1⟩, mirrorTid := 0,
    offset := 0xA000000000000000, dataLen := 128 }

/-- The tree that newfs makes, in a leaf with two records of transaction 1. -/
def newImage : Image where
  read offset :=
    if offset = 0x8000000000000000 then
      some ⟨true, 0, 2, typeLeaf, 0, fun i => record (Int64.ofNat i) 1 0⟩
    else none
  zone0 := rfl

/-- The image of newfs is shown without complaints, but the records have been created later than
    the mirror id of the node says. -/
theorem hammer_show_clean_newfs :
    (∃ out, printBtree newImage ⟨⟨0, 0, 0, 0, 0, 0, 0⟩, 0⟩ 1 0x8000000000000000 (-1) = .ok out ∧
      out.numBadNode = 0 ∧ out.numBadElm = 0) ∧
      ∃ node, newImage.read 0x8000000000000000 = some node ∧ node.type = typeLeaf ∧
        0 ∈ node.slots ∧ node.mirrorTid < (node.elms 0).base.createTid :=
  ⟨⟨_, rfl, by decide, by decide⟩, _, rfl, rfl, by decide, by decide⟩

/-- A root with two leaves. -/
def twoLevels : Image where
  read offset :=
    if offset = 0x8000000000000000 then
      some ⟨true, 0, 2, typeInternal, 9, fun i =>
        { base := ⟨1, Int64.ofNat (10 * i), 1, 0, 1, if i < 2 then typeLeaf else typeNone, 1⟩
          mirrorTid := 8
          offset := if i = 0 then 0x8000000000001000 else if i = 1 then 0x8000000000002000 else 0
          dataLen := 0 }⟩
    else if offset = 0x8000000000001000 then
      some ⟨true, 0x8000000000000000, 2, typeLeaf, 7, fun i => record (Int64.ofNat i) 5 6⟩
    else if offset = 0x8000000000002000 then
      some ⟨true, 0x8000000000000000, 1, typeLeaf, 8, fun i => record (Int64.ofNat (i + 10)) 8 0⟩
    else none
  zone0 := rfl

/-- `hammer show` on it, and what follows from that. -/
theorem hammer_show_clean_twoLevels :
    ∃ out, printBtree twoLevels ⟨⟨0, 0, 0, 0, 0, 0, 0⟩, 0⟩ 2 0x8000000000000000 (-1) = .ok out ∧
      out.numBadNode = 0 ∧ out.numBadElm = 0 ∧ SoundTree twoLevels 0x8000000000000000 := by
  have hrun : ∃ out, printBtree twoLevels ⟨⟨0, 0, 0, 0, 0, 0, 0⟩, 0⟩ 2 0x8000000000000000 (-1) =
      .ok out ∧ out.numBadNode = 0 ∧ out.numBadElm = 0 := ⟨_, rfl, by decide, by decide⟩
  obtain ⟨out, h, hnode, helm⟩ := hrun
  exact ⟨out, h, hnode, helm, hammer_show_clean rfl h hnode helm⟩

end Lh1.Hammer.Show
