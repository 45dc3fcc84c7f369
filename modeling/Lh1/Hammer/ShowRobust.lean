/-
  When the B-Tree walkers of `hammer show` and `hammer checkmap` can be relied on.

  The walkers take counts and offsets from the image. `print_btree_node` marks a node that is bad
  and goes on with it, and it uses a node that could not be read; `check_btree_node` returns in
  that case but does not look at the count. Neither of them notices a node that is below itself.

  * `walked_of_run`: what a run without a search argument has visited.
  * `SoundAt.run`: the run on a tree whose nodes are good ends, whatever is searched for.
  * `walkers_robust_iff`: for which images the walkers end, stay within the nodes and do not use
    what they report as bad.
-/
import Lh1.Lib.Walk
import Lh1.Hammer.Show

namespace Lh1.Hammer.Show

open Lib

/-! ## One node -/

section

variable {img : Image} {search : Search} {fuel : Nat} {offset mirrorTid : UInt64}
  {lbe : Option (Elm × Elm)} {out out' : Out} {node : Node} {marks : Char × Char}

/-- All that is printed for a node, without its subtrees. -/
def nodeLines (img : Image) (search : Search) (node : Node) (offset : UInt64)
    (lbe : Option (Elm × Elm)) (marks : Char × Char) : List Line :=
  .node offset marks.1 marks.2 :: elmLines img search node offset lbe ++
    if node.type = typeInternal then
      [.rbn offset node.count.toNat (getElmFlags img node offset node.count.toNat lbe)]
    else []

/-- A call that returns has read the node and has gone through its subtrees. -/
theorem printBtreeNode_ok :
    printBtreeNode img search (fuel + 1) offset mirrorTid lbe out = .ok out' ↔
      ∃ node, img.read offset = some node ∧ ∃ marks, nodeMarks img mirrorTid node = .ok marks ∧
        (node.type = typeInternal ∧ 0 ≤ node.count ∧
          printSubtrees search (printBtreeNode img search fuel) node node.slots
            (out.put (nodeLines img search node offset lbe marks)) = .ok out' ∨
        node.type ≠ typeInternal ∧
          out' = out.put (nodeLines img search node offset lbe marks)) := by
  rw [printBtreeNode]
  cases hread : img.read offset with
  | none => simp
  | some node =>
    simp only [except_bind_ok_iff, Option.some.injEq, exists_eq_left']
    refine exists_congr fun marks => and_congr_right fun _ => ?_
    by_cases htype : node.type = typeInternal
    · have hput : (out.put (.node offset marks.1 marks.2 :: elmLines img search node offset lbe)).put
          [.rbn offset node.count.toNat (getElmFlags img node offset node.count.toNat lbe)] =
          out.put (nodeLines img search node offset lbe marks) := by
        rw [Out.put, Out.put, Out.put, nodeLines, if_pos htype, List.append_assoc]
      rw [if_pos htype, hput, check_bind_ok_iff, check_ok_iff]
      simp only [htype, true_and, ne_eq, not_true, false_and, or_false]
    · have hnil : nodeLines img search node offset lbe marks =
          .node offset marks.1 marks.2 :: elmLines img search node offset lbe := by
        rw [nodeLines, if_neg htype, List.append_nil]
      rw [if_neg htype, hnil, Except.ok.injEq, eq_comm]
      simp only [htype, false_and, false_or, ne_eq, not_false_iff, true_and]

/-! ## The subtrees -/

/-- The loop over the subtrees adds what each subtree adds. Without a search argument none of them
    is left out. `R` is what is known of a subtree and its lines. -/
theorem printSubtrees_ok {visit : UInt64 → UInt64 → Option (Elm × Elm) → Out → Except Fault Out}
    {R : Nat → List Line → Prop} {is : List Nat}
    (hvisit : ∀ i ∈ is, (node.elms i).offset ≠ 0 → ∀ out out',
      visit (node.elms i).offset (node.elms i).mirrorTid (some (node.elms i, node.elms (i + 1))) out =
        .ok out' → ∃ new, out'.lines = out.lines ++ new ∧ R i new)
    (h : printSubtrees search visit node is out = .ok out') :
    ∃ new, out'.lines = out.lines ++ new ∧ (search.limit = 0 →
      ∀ i ∈ is, (node.elms i).offset ≠ 0 → ∃ part, R i part ∧ part ⊆ new) := by
  induction is generalizing out with
  | nil =>
    cases h
    exact ⟨[], (List.append_nil _).symm, nofun⟩
  | cons i is ih =>
    have hrest := fun i hi => hvisit i (List.mem_cons_of_mem _ hi)
    rw [printSubtrees] at h
    split at h
    next hskip =>
      obtain ⟨new, hnew, -⟩ := ih hrest h
      exact ⟨new, hnew, fun hlimit => absurd hlimit hskip.1⟩
    next =>
      split at h
      next hoff =>
        obtain ⟨out1, hout1, h⟩ := except_bind_ok_iff.mp h
        obtain ⟨part, hpart, hR⟩ := hvisit i List.mem_cons_self hoff _ _ hout1
        obtain ⟨new, hnew, hall⟩ := ih hrest h
        have hlines : (out1.seeked search).lines = out1.lines := by
          rw [Out.seeked]
          split <;> rfl
        refine ⟨part ++ new, ?_, fun hlimit j hj hjoff => ?_⟩
        · rw [hnew, hlines, hpart, List.append_assoc]
        · rcases List.mem_cons.mp hj with rfl | hj
          · exact ⟨part, hR, List.subset_append_left _ _⟩
          · obtain ⟨part', hR', hsub⟩ := hall hlimit j hj hjoff
            exact ⟨part', hR', List.subset_append_of_subset_right _ hsub⟩
      next hoff =>
        obtain ⟨new, hnew, hall⟩ := ih hrest h
        refine ⟨new, hnew, fun hlimit j hj hjoff => ?_⟩
        rcases List.mem_cons.mp hj with rfl | hj
        · exact absurd hjoff hoff
        · exact hall hlimit j hj hjoff

end

/-! ## Runs without a search argument -/

/-- What such a run has gone through: every node below is there, and all its lines are `G`. -/
inductive Walked (img : Image) (search : Search) (G : Line → Prop) :
    UInt64 → UInt64 → Option (Elm × Elm) → Prop
  | mk {offset mirrorTid lbe node marks} (read : img.read offset = some node)
      (checked : nodeMarks img mirrorTid node = .ok marks)
      (lines : ∀ l ∈ nodeLines img search node offset lbe marks, G l)
      (counted : node.type = typeInternal → 0 ≤ node.count)
      (below : node.type = typeInternal → ∀ i ∈ node.slots, (node.elms i).offset ≠ 0 →
        Walked img search G (node.elms i).offset (node.elms i).mirrorTid
          (some (node.elms i, node.elms (i + 1)))) :
      Walked img search G offset mirrorTid lbe

section

variable {img : Image} {search : Search} {fuel : Nat} {offset mirrorTid : UInt64}
  {lbe : Option (Elm × Elm)} {out out' : Out}

theorem walked_of_run (G : Line → Prop) (hlimit : search.limit = 0)
    (h : printBtreeNode img search fuel offset mirrorTid lbe out = .ok out') :
    ∃ new, out'.lines = out.lines ++ new ∧
      ((∀ l ∈ new, G l) → Walked img search G offset mirrorTid lbe) := by
  induction fuel generalizing offset mirrorTid lbe out out' with
  | zero => cases h
  | succ fuel ih =>
    obtain ⟨node, hread, marks, hmarks, ⟨htype, hcount, hsub⟩ | ⟨htype, rfl⟩⟩ :=
      printBtreeNode_ok.mp h
    · obtain ⟨new, hnew, hall⟩ := printSubtrees_ok
        (R := fun i part => (∀ l ∈ part, G l) → Walked img search G (node.elms i).offset
          (node.elms i).mirrorTid (some (node.elms i, node.elms (i + 1))))
        (fun i _ _ out out' => ih) hsub
      refine ⟨nodeLines img search node offset lbe marks ++ new, ?_, fun hG => ?_⟩
      · rw [hnew, Out.put, List.append_assoc]
      · rw [List.forall_mem_append] at hG
        refine .mk hread hmarks hG.1 (fun _ => hcount) fun _ i hi hoff => ?_
        obtain ⟨part, hpart, hincl⟩ := hall hlimit i hi hoff
        exact hpart fun l hl => hG.2 l (hincl hl)
    · refine ⟨nodeLines img search node offset lbe marks, rfl, fun hG => ?_⟩
      exact .mk hread hmarks hG (fun hin => absurd hin htype) fun hin => absurd hin htype

end

/-! ## The condition for `print_btree_node` -/

/-- All nodes from this one down can be read and are not marked as bad, unless there is nothing in
    them to print, and no node is below itself. -/
inductive SoundAt (img : Image) : UInt64 → UInt64 → Prop
  | mk {offset mirrorTid node marks} (read : img.read offset = some node)
      (checked : nodeMarks img mirrorTid node = .ok marks)
      (good : marks = (' ', ' ') ∨ node.slots = [] ∧ node.type ≠ typeInternal)
      (counted : node.type = typeInternal → 0 ≤ node.count)
      (below : node.type = typeInternal → ∀ i ∈ node.slots, (node.elms i).offset ≠ 0 →
        SoundAt img (node.elms i).offset (node.elms i).mirrorTid) :
      SoundAt img offset mirrorTid

section

variable {img : Image} {search : Search} {fuel : Nat} {offset mirrorTid : UInt64}
  {lbe : Option (Elm × Elm)} {out out' : Out} {node : Node} {marks : Char × Char}

/-- What it takes for a node to have no marks. -/
theorem nodeMarks_good (h : nodeMarks img mirrorTid node = .ok (' ', ' ')) :
    node.crcOk = true ∧ node.mirrorTid ≤ mirrorTid ∧ maxElements node.type ≠ -1 ∧
      node.count ≤ maxElements node.type := by
  rw [nodeMarks, except_bind_ok_iff] at h
  obtain ⟨bad, htest, h⟩ := h
  cases bad with
  | some c =>
    rw [Except.ok.injEq, Prod.mk.injEq] at h
    exact absurd h.1 (by decide)
  | none =>
    rw [testNodeCount] at htest
    split at htest
    · cases htest
    next hmax =>
      split at htest
      · cases htest
      next hcount =>
        by_cases hm : mirrorTid < node.mirrorTid
        · rw [if_pos hm, Except.ok.injEq, Prod.mk.injEq] at h
          exact absurd h.1 (by decide)
        · rw [if_neg hm, Except.ok.injEq, Prod.mk.injEq] at h
          refine ⟨?_, UInt64.not_lt.mp hm, hmax, Int.not_lt.mp hcount⟩
          by_contra hcrc
          rw [if_neg hcrc] at h
          exact absurd h.1 (by decide)

/-- A line of a run in which nothing bad is used. -/
def Line.Fine (img : Image) : Line → Prop
  | .node offset badc badm => (badc, badm) ≠ (' ', ' ') →
      ∃ node, img.read offset = some node ∧ node.slots = [] ∧ node.type ≠ typeInternal
  | .elm offset i _ _ => ∃ node, img.read offset = some node ∧ i ∈ node.slots ∧
      (i : Int) < maxElements node.type
  | .rbn offset i _ => ∃ node, img.read offset = some node ∧ node.type = typeInternal ∧ i ≤ 62

theorem fine_nodeLines (hread : img.read offset = some node)
    (hmarks : nodeMarks img mirrorTid node = .ok marks)
    (hgood : marks = (' ', ' ') ∨ node.slots = [] ∧ node.type ≠ typeInternal) :
    ∀ l ∈ nodeLines img search node offset lbe marks, l.Fine img := by
  intro l hl
  rw [nodeLines, List.cons_append, List.mem_cons, List.mem_append] at hl
  rcases hl with rfl | hl | hl
  · intro hbad
    exact ⟨node, hread, hgood.resolve_left hbad⟩
  · rw [elmLines, List.mem_map] at hl
    obtain ⟨i, hi, rfl⟩ := hl
    refine ⟨node, hread, hi, ?_⟩
    rcases hgood with rfl | ⟨hnil, -⟩
    · have hcount := (nodeMarks_good hmarks).2.2.2
      rw [Node.slots, List.mem_range] at hi
      omega
    · rw [hnil] at hi
      cases hi
  · split at hl
    next htype =>
      rw [List.mem_singleton.mp hl]
      refine ⟨node, hread, htype, ?_⟩
      rcases hgood with rfl | ⟨-, hne⟩
      · have hcount := (nodeMarks_good hmarks).2.2.2
        rw [htype] at hcount
        change node.count ≤ 62 at hcount
        omega
      · exact absurd htype hne
    next => cases hl

/-- The loop over the subtrees, if each of them can be printed. -/
theorem printSubtrees_runs (search : Search)
    {visit : UInt64 → UInt64 → Option (Elm × Elm) → Out → Except Fault Out}
    {G : Line → Prop} {is : List Nat}
    (hvisit : ∀ i ∈ is, (node.elms i).offset ≠ 0 → ∀ out, ∃ out' new,
      visit (node.elms i).offset (node.elms i).mirrorTid (some (node.elms i, node.elms (i + 1))) out =
        .ok out' ∧ out'.lines = out.lines ++ new ∧ ∀ l ∈ new, G l) (out : Out) :
    ∃ out' new, printSubtrees search visit node is out = .ok out' ∧
      out'.lines = out.lines ++ new ∧ ∀ l ∈ new, G l := by
  induction is generalizing out with
  | nil => exact ⟨out, [], rfl, (List.append_nil _).symm, nofun⟩
  | cons i is ih =>
    have hrest := ih fun i hi => hvisit i (List.mem_cons_of_mem _ hi)
    rw [printSubtrees]
    split
    · exact hrest out
    · split
      next hoff =>
        obtain ⟨out1, new1, h1, hl1, hG1⟩ := hvisit i List.mem_cons_self hoff out
        obtain ⟨out2, new2, h2, hl2, hG2⟩ := hrest (out1.seeked search)
        have hlines : (out1.seeked search).lines = out1.lines := by
          rw [Out.seeked]
          split <;> rfl
        refine ⟨out2, new1 ++ new2, ?_, ?_, List.forall_mem_append.mpr ⟨hG1, hG2⟩⟩
        · rw [h1]
          exact h2
        · rw [hl2, hlines, hl1, List.append_assoc]
      next => exact hrest out

theorem SoundAt.run (search : Search) (h : SoundAt img offset mirrorTid) :
    ∃ n, ∀ fuel ≥ n, ∀ lbe out, ∃ out' new,
      printBtreeNode img search fuel offset mirrorTid lbe out = .ok out' ∧
        out'.lines = out.lines ++ new ∧ ∀ l ∈ new, l.Fine img := by
  induction h with
  | @mk offset mirrorTid node marks hread hmarks hgood hcount _ ih =>
    by_cases htype : node.type = typeInternal
    · obtain ⟨n, hn⟩ := exists_forall_ge (p := fun i fuel => (node.elms i).offset ≠ 0 → ∀ lbe out,
        ∃ out' new, printBtreeNode img search fuel (node.elms i).offset (node.elms i).mirrorTid lbe
          out = .ok out' ∧ out'.lines = out.lines ++ new ∧ ∀ l ∈ new, l.Fine img)
        fun i (hi : i ∈ node.slots) => by
          by_cases hoff : (node.elms i).offset = 0
          · exact ⟨0, fun _ _ hne => absurd hoff hne⟩
          · obtain ⟨n, hn⟩ := ih htype i hi hoff
            exact ⟨n, fun m hm _ => hn m hm⟩
      refine ⟨n + 1, fun fuel hfuel lbe out => ?_⟩
      obtain ⟨fuel, rfl⟩ : ∃ k, fuel = k + 1 := ⟨fuel - 1, by omega⟩
      obtain ⟨out', new, hrun, hlines, hfine⟩ := printSubtrees_runs search
        (fun i hi hoff out => hn i hi fuel (by omega) hoff _ out)
        (out.put (nodeLines img search node offset lbe marks))
      refine ⟨out', nodeLines img search node offset lbe marks ++ new,
        printBtreeNode_ok.mpr ⟨node, hread, marks, hmarks, Or.inl ⟨htype, hcount htype, hrun⟩⟩,
        ?_, List.forall_mem_append.mpr ⟨fine_nodeLines hread hmarks hgood, hfine⟩⟩
      rw [hlines, Out.put, List.append_assoc]
    · refine ⟨1, fun fuel hfuel lbe out => ?_⟩
      obtain ⟨fuel, rfl⟩ : ∃ k, fuel = k + 1 := ⟨fuel - 1, by omega⟩
      exact ⟨_, nodeLines img search node offset lbe marks,
        printBtreeNode_ok.mpr ⟨node, hread, marks, hmarks, Or.inr ⟨htype, rfl⟩⟩, rfl,
        fine_nodeLines hread hmarks hgood⟩

end

/-- Only slots of the node's type are visited, and none of a node that is reported as bad. -/
structure Contained (img : Image) (lines : List Line) : Prop where
  elms : ∀ offset (i : Nat) flags ext, .elm offset i flags ext ∈ lines →
    ∃ node, img.read offset = some node ∧ (i : Int) < maxElements node.type
  rbns : ∀ offset i flags, .rbn offset i flags ∈ lines → i ≤ 62
  bad : ∀ offset badc badm, .node offset badc badm ∈ lines → (badc, badm) ≠ (' ', ' ') →
    (∀ i flags ext, .elm offset i flags ext ∉ lines) ∧ ∀ i flags, .rbn offset i flags ∉ lines

/-- `print_btree_node` ends, stays within the nodes and does not use what it reports as bad. -/
def PrintRobust (img : Image) (search : Search) (filter : Int) (root : UInt64) : Prop :=
  ∃ fuel out, printBtree img search fuel root filter = .ok out ∧ Contained img out.lines

section

variable {img : Image} {search : Search} {offset mirrorTid root : UInt64}
  {lbe : Option (Elm × Elm)} {lines : List Line}

theorem contained_of_fine (h : ∀ l ∈ lines, l.Fine img) : Contained img lines where
  elms offset i flags ext hl := by
    obtain ⟨node, hread, -, hlt⟩ := h _ hl
    exact ⟨node, hread, hlt⟩
  rbns offset i flags hl := by
    obtain ⟨-, -, -, hle⟩ := h _ hl
    exact hle
  bad offset badc badm hl hbad := by
    obtain ⟨node, hread, hnil, htype⟩ := h _ hl hbad
    refine ⟨fun i flags ext he => ?_, fun i flags hr => ?_⟩
    · obtain ⟨node', hread', hi, -⟩ := h _ he
      rw [hread, Option.some.injEq] at hread'
      rw [← hread', hnil] at hi
      cases hi
    · obtain ⟨node', hread', htype', -⟩ := h _ hr
      rw [hread, Option.some.injEq] at hread'
      exact htype (hread' ▸ htype')

theorem Walked.soundAt (hc : Contained img lines)
    (h : Walked img search (· ∈ lines) offset mirrorTid lbe) : SoundAt img offset mirrorTid := by
  induction h with
  | @mk offset mirrorTid lbe node marks hread hmarks hlines hcount _ ih =>
    refine .mk hread hmarks ?_ hcount ih
    by_contra hbad
    rw [not_or, not_and_or, not_not] at hbad
    obtain ⟨helm, hrbn⟩ := hc.bad offset marks.1 marks.2
      (hlines _ (List.mem_append_left _ List.mem_cons_self)) hbad.1
    rcases hbad.2 with hslots | htype
    · obtain ⟨i, hi⟩ := List.exists_mem_of_ne_nil _ hslots
      exact helm i _ _ (hlines _ (List.mem_append_left _ (List.mem_cons_of_mem _
        (List.mem_map_of_mem hi))))
    · refine hrbn node.count.toNat (getElmFlags img node offset node.count.toNat lbe)
        (hlines _ (List.mem_append_right _ ?_))
      rw [if_pos htype]
      exact List.mem_singleton_self _

theorem print_robust_iff :
    (∀ search filter, PrintRobust img search filter root) ↔ SoundAt img root maxTid := by
  constructor
  · intro h
    obtain ⟨fuel, out, hrun, hc⟩ := h ⟨⟨0, 0, 0, 0, 0, 0, 0⟩, 0⟩ 0
    obtain ⟨new, hnew, hwalked⟩ := walked_of_run (· ∈ out.lines) rfl hrun
    rw [List.nil_append] at hnew
    exact (hwalked fun l hl => hnew ▸ hl).soundAt hc
  · intro h search filter
    obtain ⟨n, hn⟩ := h.run search
    obtain ⟨out, new, hrun, hnew, hfine⟩ := hn n le_rfl none ⟨filter, []⟩
    exact ⟨n, out, hrun, contained_of_fine (hnew ▸ hfine)⟩

end

/-! ## The condition for `check_btree_node` -/

/-- All nodes from this one down that can be read have a count that is right for their type and,
    unless it is 0, a good CRC, and no node is below itself. -/
inductive CheckedAt (img : Image) : UInt64 → Prop
  | unread {offset} (read : img.read offset = none) : CheckedAt img offset
  | mk {offset node} (read : img.read offset = some node)
      (good : node.crcOk = true ∨ node.slots = [])
      (bounded : ∀ i ∈ node.slots, (i : Int) < maxElements node.type)
      (below : node.type = typeInternal → ∀ i ∈ node.slots, (node.elms i).offset ≠ 0 →
        CheckedAt img (node.elms i).offset) :
      CheckedAt img offset

/-- What a run of `check_btree_node` has gone through, with `G` for what it has done. -/
inductive CheckWalked (img : Image) (G : CheckLine → Prop) : UInt64 → Prop
  | unread {offset} (read : img.read offset = none) : CheckWalked img G offset
  | mk {offset node} (read : img.read offset = some node)
      (bad : node.crcOk = false → G (.bad offset 'B' ' '))
      (slots : ∀ i ∈ node.slots, G (.slot offset i))
      (below : node.type = typeInternal → ∀ i ∈ node.slots, (node.elms i).offset ≠ 0 →
        CheckWalked img G (node.elms i).offset) :
      CheckWalked img G offset

/-- Only slots of the node's type are visited, and none of a node that is reported as bad. -/
structure CheckContained (img : Image) (log : List CheckLine) : Prop where
  slots : ∀ offset (i : Nat), .slot offset i ∈ log →
    ∃ node, img.read offset = some node ∧ (i : Int) < maxElements node.type
  bad : ∀ offset badc badm, .bad offset badc badm ∈ log → ∀ i, .slot offset i ∉ log

/-- `check_btree_node` ends, stays within the nodes and does not use what it reports as bad. -/
def CheckRobust (img : Image) (debugOpt : Bool) (root : UInt64) : Prop :=
  ∃ fuel log, checkBtreeNode img debugOpt fuel root 0 [] = .ok log ∧ CheckContained img log

/-- A step of a run in which nothing bad is used. -/
def CheckLine.Fine (img : Image) : CheckLine → Prop
  | .bad offset _ _ => ∀ node, img.read offset = some node → node.slots = []
  | .slot offset i => ∃ node, img.read offset = some node ∧ i ∈ node.slots ∧
      (i : Int) < maxElements node.type
  | _ => True

section

variable {img : Image} {debugOpt : Bool} {fuel depth : Nat} {offset root : UInt64} {node : Node}
  {log log' : List CheckLine}
  {visit : UInt64 → List CheckLine → Except Fault (List CheckLine)} {is : List Nat}

/-- The loop goes through all slots, and through the subtrees of an internal node. -/
theorem checkElms_ok {R : Nat → List CheckLine → Prop}
    (hvisit : ∀ i ∈ is, ∀ log log', visit (node.elms i).offset log = .ok log' →
      ∃ new, log' = log ++ new ∧ R i new)
    (h : checkElms debugOpt visit node offset is log = .ok log') :
    ∃ new, log' = log ++ new ∧ (∀ i ∈ is, .slot offset i ∈ new) ∧
      (node.type = typeInternal → ∀ i ∈ is, (node.elms i).offset ≠ 0 →
        ∃ part, R i part ∧ part ⊆ new) := by
  induction is generalizing log with
  | nil =>
    cases h
    exact ⟨[], (List.append_nil _).symm, nofun, nofun⟩
  | cons i is ih =>
    have hrest := fun i hi => hvisit i (List.mem_cons_of_mem _ hi)
    -- what is left to show once the turn has added `mid`, and a part `R` if it is needed
    have finish : ∀ mid, checkElms debugOpt visit node offset is (log ++ .slot offset i :: mid) =
        .ok log' → (node.type = typeInternal → (node.elms i).offset ≠ 0 →
          ∃ part, R i part ∧ part ⊆ mid) →
        ∃ new, log' = log ++ new ∧ (∀ j ∈ i :: is, .slot offset j ∈ new) ∧
          (node.type = typeInternal → ∀ j ∈ i :: is, (node.elms j).offset ≠ 0 →
            ∃ part, R j part ∧ part ⊆ new) := by
      intro mid hmid hpart
      obtain ⟨new, hnew, hslots, hsub⟩ := ih hrest hmid
      refine ⟨.slot offset i :: mid ++ new, by rw [hnew, List.append_assoc], ?_, ?_⟩
      · intro j hj
        rcases List.mem_cons.mp hj with rfl | hj
        · exact List.mem_append_left _ List.mem_cons_self
        · exact List.mem_append_right _ (hslots j hj)
      · intro htype j hj hoff
        rcases List.mem_cons.mp hj with rfl | hj
        · obtain ⟨part, hR, hincl⟩ := hpart htype hoff
          exact ⟨part, hR, fun l hl => List.mem_append_left _ (List.mem_cons_of_mem _ (hincl hl))⟩
        · obtain ⟨part, hR, hincl⟩ := hsub htype j hj hoff
          exact ⟨part, hR, fun l hl => List.mem_append_right _ (hincl hl)⟩
    rw [checkElms] at h
    split at h
    next htype =>
      split at h
      next hoff =>
        obtain ⟨log1, hlog1, h⟩ := except_bind_ok_iff.mp h
        obtain ⟨part, rfl, hR⟩ := hvisit i List.mem_cons_self _ _ hlog1
        refine finish (.internal offset i :: part) ?_ fun _ _ =>
          ⟨part, hR, fun l hl => List.mem_cons_of_mem _ hl⟩
        simpa using h
      next hoff => exact finish [] h fun _ hne => absurd hne hoff
    next htype =>
      split at h
      · split at h
        · exact finish [.leaf offset i] (by simpa using h) fun hin => absurd hin htype
        · exact finish [] h fun hin => absurd hin htype
      · rw [check_bind_ok_iff] at h
        exact finish [] h.2 fun hin => absurd hin htype

/-- What a call adds before it looks at the elements. -/
def checkHead (depth : Nat) (offset : UInt64) (bad : List CheckLine) : List CheckLine :=
  (if depth = 0 then [.root offset] else []) ++ bad

def crcLines (offset : UInt64) (node : Node) : List CheckLine :=
  if node.crcOk = true then [] else [.bad offset 'B' ' ']

theorem checkBtreeNode_none (hread : img.read offset = none) :
    checkBtreeNode img debugOpt (fuel + 1) offset depth log =
      .ok (log ++ checkHead depth offset [.bad offset 'B' 'I']) := by
  rw [checkBtreeNode, hread, checkHead]
  by_cases hd : depth = 0 <;> simp [hd]

theorem checkBtreeNode_some (hread : img.read offset = some node) :
    checkBtreeNode img debugOpt (fuel + 1) offset depth log =
      checkElms debugOpt (fun offset => checkBtreeNode img debugOpt fuel offset (depth + 1)) node
        offset node.slots (log ++ checkHead depth offset (crcLines offset node)) := by
  rw [checkBtreeNode, hread, checkHead, crcLines]
  by_cases hd : depth = 0 <;> by_cases hcrc : node.crcOk = true <;> simp [hd, hcrc]

theorem checkWalked_of_run (G : CheckLine → Prop)
    (h : checkBtreeNode img debugOpt fuel offset depth log = .ok log') :
    ∃ new, log' = log ++ new ∧ ((∀ l ∈ new, G l) → CheckWalked img G offset) := by
  induction fuel generalizing offset depth log log' with
  | zero => cases h
  | succ fuel ih =>
    cases hread : img.read offset with
    | none =>
      rw [checkBtreeNode_none hread] at h
      cases h
      exact ⟨_, rfl, fun _ => .unread hread⟩
    | some node =>
      rw [checkBtreeNode_some hread] at h
      obtain ⟨new, hnew, hslots, hsub⟩ := checkElms_ok
        (R := fun i part => (∀ l ∈ part, G l) → CheckWalked img G (node.elms i).offset)
        (fun i _ log log' => ih) h
      refine ⟨checkHead depth offset (crcLines offset node) ++ new,
        by rw [hnew, List.append_assoc], fun hG => ?_⟩
      rw [List.forall_mem_append, checkHead, List.forall_mem_append] at hG
      refine .mk hread (fun hcrc => hG.1.2 _ ?_) (fun i hi => hG.2 _ (hslots i hi)) ?_
      · rw [crcLines, if_neg (by simp [hcrc])]
        exact List.mem_singleton_self _
      · intro htype i hi hoff
        obtain ⟨part, hpart, hincl⟩ := hsub htype i hi hoff
        exact hpart fun l hl => hG.2 l (hincl hl)

/-- The loop over the elements, if each subtree can be gone through. -/
theorem checkElms_runs (debugOpt : Bool) (offset : UInt64)
    (visit : UInt64 → List CheckLine → Except Fault (List CheckLine)) {G : CheckLine → Prop}
    (hknown : is ≠ [] → node.type = typeInternal ∨ node.type = typeLeaf)
    (hslots : ∀ i ∈ is, G (.slot offset i) ∧ G (.internal offset i) ∧ G (.leaf offset i))
    (hvisit : node.type = typeInternal → ∀ i ∈ is, (node.elms i).offset ≠ 0 → ∀ log, ∃ new,
      visit (node.elms i).offset log = .ok (log ++ new) ∧ ∀ l ∈ new, G l) (log : List CheckLine) :
    ∃ new, checkElms debugOpt visit node offset is log = .ok (log ++ new) ∧ ∀ l ∈ new, G l := by
  induction is generalizing log with
  | nil => exact ⟨[], by rw [List.append_nil]; rfl, nofun⟩
  | cons i is ih =>
    have hrest := ih (fun _ => hknown (List.cons_ne_nil _ _))
      (fun i hi => hslots i (List.mem_cons_of_mem _ hi))
      fun htype i hi => hvisit htype i (List.mem_cons_of_mem _ hi)
    obtain ⟨hslot, hinternal, hleaf⟩ := hslots i List.mem_cons_self
    rw [checkElms]
    by_cases htype : node.type = typeInternal
    · rw [if_pos htype]
      split
      next hoff =>
        obtain ⟨new1, h1, hG1⟩ := hvisit htype i List.mem_cons_self hoff
          (log ++ [.slot offset i] ++ [.internal offset i])
        obtain ⟨new2, h2, hG2⟩ := hrest (log ++ [.slot offset i] ++ [.internal offset i] ++ new1)
        refine ⟨[.slot offset i] ++ [.internal offset i] ++ new1 ++ new2, ?_, ?_⟩
        · rw [h1, except_ok_bind, h2]
          simp only [List.append_assoc]
        · simp only [List.forall_mem_append, List.forall_mem_singleton]
          exact ⟨⟨⟨hslot, hinternal⟩, hG1⟩, hG2⟩
      next =>
        obtain ⟨new, h, hG⟩ := hrest (log ++ [.slot offset i])
        exact ⟨.slot offset i :: new, by rw [h, List.append_assoc]; rfl,
          List.forall_mem_cons.mpr ⟨hslot, hG⟩⟩
    · rw [if_neg htype, if_pos ((hknown (List.cons_ne_nil _ _)).resolve_left htype)]
      split
      · obtain ⟨new, h, hG⟩ := hrest (log ++ [.slot offset i] ++ [.leaf offset i])
        refine ⟨[.slot offset i] ++ [.leaf offset i] ++ new, ?_, ?_⟩
        · rw [h]
          simp only [List.append_assoc]
        · simp only [List.forall_mem_append, List.forall_mem_singleton]
          exact ⟨⟨hslot, hleaf⟩, hG⟩
      · obtain ⟨new, h, hG⟩ := hrest (log ++ [.slot offset i])
        exact ⟨.slot offset i :: new, by rw [h, List.append_assoc]; rfl,
          List.forall_mem_cons.mpr ⟨hslot, hG⟩⟩

theorem fine_checkHead {bad : List CheckLine} (h : ∀ l ∈ bad, l.Fine img) :
    ∀ l ∈ checkHead depth offset bad, l.Fine img := by
  rw [checkHead, List.forall_mem_append]
  refine ⟨?_, h⟩
  split
  · exact List.forall_mem_singleton.mpr trivial
  · exact nofun

/-- There is no element in a node of another type, if the slots are right for the type. -/
theorem known_of_bounded (h : ∀ i ∈ node.slots, (i : Int) < maxElements node.type)
    (hne : node.slots ≠ []) : node.type = typeInternal ∨ node.type = typeLeaf := by
  obtain ⟨i, hi⟩ := List.exists_mem_of_ne_nil _ hne
  by_contra hno
  rw [not_or] at hno
  have hlt := h i hi
  rw [maxElements, if_neg hno.2, if_neg hno.1] at hlt
  omega

theorem CheckedAt.run (debugOpt : Bool) (h : CheckedAt img offset) :
    ∃ n, ∀ fuel ≥ n, ∀ depth log, ∃ new,
      checkBtreeNode img debugOpt fuel offset depth log = .ok (log ++ new) ∧
        ∀ l ∈ new, l.Fine img := by
  induction h with
  | @unread offset hread =>
    refine ⟨1, fun fuel hfuel depth log => ?_⟩
    obtain ⟨fuel, rfl⟩ : ∃ k, fuel = k + 1 := ⟨fuel - 1, by omega⟩
    refine ⟨_, checkBtreeNode_none hread, fine_checkHead ?_⟩
    refine List.forall_mem_singleton.mpr fun node hnode => ?_
    rw [hread] at hnode
    cases hnode
  | @mk offset node hread hgood hbounded _ ih =>
    obtain ⟨n, hn⟩ := exists_forall_ge (p := fun i fuel => node.type = typeInternal →
      (node.elms i).offset ≠ 0 → ∀ depth log, ∃ new, checkBtreeNode img debugOpt fuel
        (node.elms i).offset depth log = .ok (log ++ new) ∧ ∀ l ∈ new, l.Fine img)
      fun i (hi : i ∈ node.slots) => by
        by_cases hin : node.type = typeInternal ∧ (node.elms i).offset ≠ 0
        · obtain ⟨n, hn⟩ := ih hin.1 i hi hin.2
          exact ⟨n, fun m hm _ _ => hn m hm⟩
        · exact ⟨0, fun _ _ htype hoff => absurd ⟨htype, hoff⟩ hin⟩
    refine ⟨n + 1, fun fuel hfuel depth log => ?_⟩
    obtain ⟨fuel, rfl⟩ : ∃ k, fuel = k + 1 := ⟨fuel - 1, by omega⟩
    obtain ⟨new, hrun, hfine⟩ := checkElms_runs debugOpt offset
      (fun offset => checkBtreeNode img debugOpt fuel offset (depth + 1))
      (G := CheckLine.Fine img) (known_of_bounded hbounded)
      (fun i hi => ⟨⟨node, hread, hi, hbounded i hi⟩, trivial, trivial⟩)
      (fun htype i hi hoff log => hn i hi fuel (by omega) htype hoff (depth + 1) log)
      (log ++ checkHead depth offset (crcLines offset node))
    refine ⟨checkHead depth offset (crcLines offset node) ++ new, ?_,
      List.forall_mem_append.mpr ⟨fine_checkHead ?_, hfine⟩⟩
    · rw [checkBtreeNode_some hread, hrun, List.append_assoc]
    · rw [crcLines]
      split
      next => exact nofun
      next hcrc =>
        refine List.forall_mem_singleton.mpr fun node' hnode' => ?_
        rw [hread, Option.some.injEq] at hnode'
        exact hnode' ▸ hgood.resolve_left hcrc

theorem checkContained_of_fine (h : ∀ l ∈ log, l.Fine img) : CheckContained img log where
  slots offset i hl := by
    obtain ⟨node, hread, -, hlt⟩ := h _ hl
    exact ⟨node, hread, hlt⟩
  bad offset badc badm hl i hi := by
    obtain ⟨node, hread, hmem, -⟩ := h _ hi
    rw [h _ hl node hread] at hmem
    cases hmem

theorem CheckWalked.checkedAt (hc : CheckContained img log)
    (h : CheckWalked img (· ∈ log) offset) : CheckedAt img offset := by
  induction h with
  | unread hread => exact .unread hread
  | @mk offset node hread hbad hslots _ ih =>
    refine .mk hread ?_ (fun i hi => ?_) ih
    · by_contra hno
      rw [not_or, Bool.not_eq_true] at hno
      obtain ⟨i, hi⟩ := List.exists_mem_of_ne_nil _ hno.2
      exact hc.bad _ _ _ (hbad hno.1) i (hslots i hi)
    · obtain ⟨node', hread', hlt⟩ := hc.slots _ _ (hslots i hi)
      rw [hread, Option.some.injEq] at hread'
      exact hread' ▸ hlt

theorem check_robust_iff :
    (∀ debugOpt, CheckRobust img debugOpt root) ↔ CheckedAt img root := by
  constructor
  · intro h
    obtain ⟨fuel, log, hrun, hc⟩ := h false
    obtain ⟨new, hnew, hwalked⟩ := checkWalked_of_run (· ∈ log) hrun
    rw [List.nil_append] at hnew
    exact (hwalked fun l hl => hnew ▸ hl).checkedAt hc
  · intro h debugOpt
    obtain ⟨n, hn⟩ := h.run debugOpt
    obtain ⟨new, hrun, hfine⟩ := hn n le_rfl 0 []
    exact ⟨n, _, hrun, checkContained_of_fine hfine⟩

end

/-- An image on which nothing can be read. -/
def blankImage : Image := ⟨fun _ => none, rfl⟩

/-- An internal node with one element, which leads to the node itself. -/
def loopNode : Node :=
  { crcOk := true, parent := 0x8000000000000000, count := 1, type := typeInternal, mirrorTid := 1,
    elms := fun i =>
      { base := ⟨0, Int64.ofNat i, 1, 0, 0, if i = 0 then typeInternal else typeNone, 0⟩, mirrorTid := 1,
        offset := if i = 0 then 0x8000000000000000 else 0, dataLen := 0 } }

def loopImage : Image :=
  ⟨fun offset => if offset = 0x8000000000000000 then some loopNode else none, rfl⟩

theorem checkBtreeNode_loopImage (fuel depth : Nat) (log : List CheckLine) :
    checkBtreeNode loopImage false fuel 0x8000000000000000 depth log = .error .fuel := by
  induction fuel generalizing depth log with
  | zero => rfl
  | succ fuel ih =>
    rw [checkBtreeNode_some (show loopImage.read _ = some loopNode from rfl)]
    change (checkBtreeNode loopImage false fuel 0x8000000000000000 (depth + 1) _ >>= _) = _
    rw [ih]
    rfl

end Lh1.Hammer.Show
